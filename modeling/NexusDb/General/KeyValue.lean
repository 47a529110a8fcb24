import Mathlib.Data.List.TakeWhile

-- Texts that have a line `key=value` for each entry.
namespace KeyValue

abbrev Entry := List Char × List Char

def line (e : Entry) : List Char :=
  e.fst ++ '=' :: (e.snd ++ ['\n'])

def encode (es : List Entry) : List Char :=
  es.flatMap line

-- The last line may have no newline at its end.
def lines : List Char → List (List Char)
  | []      => []
  | c :: cs =>
    if c = '\n' then
      [] :: lines cs
    else
      match lines cs with
      | []      => [[c]]
      | l :: ls => (c :: l) :: ls

-- A line without a separator has no entry.
def entry (l : List Char) : Option Entry :=
  match l.dropWhile (· ≠ '=') with
  | []         => none
  | _ :: value => some (l.takeWhile (· ≠ '='), value)

def entries (text : List Char) : List Entry :=
  (lines text).filterMap entry

structure Plain (e : Entry) : Prop where
  key   : '\n' ∉ e.fst ∧ '=' ∉ e.fst
  value : '\n' ∉ e.snd

-- The entries in the first part of a text. The value of the last one may be cut.
def cut : List Entry → Nat → List Entry
  | [],      _ => []
  | e :: es, n =>
    if n ≤ e.fst.length then
      []
    else if n ≤ e.fst.length + 1 + e.snd.length then
      [(e.fst, e.snd.take (n - (e.fst.length + 1)))]
    else
      e :: cut es (n - (line e).length)

variable {e : Entry} {es : List Entry} {l : List Char}

theorem length_line : (line e).length = e.fst.length + e.snd.length + 2 := by
  simp only [line, List.length_append, List.length_cons, List.length_nil]
  omega

theorem lines_newline (h : '\n' ∉ l) : lines (l ++ '\n' :: cs) = l :: lines cs := by
  induction l
  case nil => rfl
  case cons c l hi =>
    have ⟨hc, hl⟩ := not_or.mp <| List.mem_cons.not.mp h
    rw [List.cons_append, lines, if_neg (Ne.symm hc), hi hl]

theorem lines_last (h : '\n' ∉ l) (hn : l ≠ []) : lines l = [l] := by
  induction l
  case nil => contradiction
  case cons c l hi =>
    have ⟨hc, hl⟩ := not_or.mp <| List.mem_cons.not.mp h
    rw [lines, if_neg (Ne.symm hc)]
    cases l
    case nil => rfl
    case cons d l => rw [hi hl (List.cons_ne_nil d l)]

theorem entry_none (h : '=' ∉ l) : entry l = none := by
  have hd : l.dropWhile (· ≠ '=') = [] :=
    List.dropWhile_eq_nil_iff.mpr fun c hc => by
      simp only [ne_eq, decide_not, Bool.not_eq_eq_eq_not, Bool.not_true, decide_eq_false_iff_not]
      exact fun he => h (he ▸ hc)
  rw [entry, hd]

theorem entry_key (h : '=' ∉ key) : entry (key ++ '=' :: value) = some (key, value) := by
  have hk : ∀ c ∈ key, decide (c ≠ '=') = true := fun c hc => decide_eq_true fun he => h (he ▸ hc)
  rw [entry, List.dropWhile_append_of_pos hk, List.takeWhile_append_of_pos hk]
  simp

theorem entries_newline (h : '\n' ∉ l) : entries (l ++ '\n' :: cs) = (entry l).toList ++ entries cs := by
  rw [entries, lines_newline h, List.filterMap_cons]
  cases entry l <;> rfl

theorem entries_last (h : '\n' ∉ l) : entries l = (entry l).toList := by
  cases l
  case nil => rfl
  case cons c l =>
    rw [entries, lines_last h (List.cons_ne_nil c l), List.filterMap_cons]
    cases entry (c :: l) <;> rfl

theorem Plain.line (h : Plain e) (n : Nat) : '\n' ∉ e.fst ++ '=' :: e.snd.take n := by
  have hv : '\n' ∉ e.snd.take n := fun hm => h.value (List.mem_of_mem_take hm)
  simp [h.key.left, hv]

theorem entries_line (h : Plain e) : entries (KeyValue.line e ++ cs) = e :: entries cs := by
  have hl := h.line e.snd.length
  rw [List.take_length] at hl
  have ht : KeyValue.line e ++ cs = (e.fst ++ '=' :: e.snd) ++ '\n' :: cs := by simp [line]
  rw [ht, entries_newline hl, entry_key h.key.right]
  rfl

-- A text that ends early has the entries that are complete, and perhaps a part of the next one.
theorem entries_take (h : ∀ e ∈ es, Plain e) (n : Nat) : entries ((encode es).take n) = cut es n := by
  induction es generalizing n
  case nil => simp [encode, entries, lines, cut]
  case cons e es hi =>
    have hp := h e List.mem_cons_self
    have hi := hi fun x hx => h x (List.mem_cons_of_mem e hx)
    rw [cut]
    split
    case isTrue hn =>
      have ht : (encode (e :: es)).take n = e.fst.take n := by
        rw [encode, List.flatMap_cons, line, List.append_assoc, List.take_append_of_le_length hn]
      have hk : '\n' ∉ e.fst.take n := fun hm => hp.key.left (List.mem_of_mem_take hm)
      have hs : '=' ∉ e.fst.take n := fun hm => hp.key.right (List.mem_of_mem_take hm)
      rw [ht, entries_last hk, entry_none hs]
      rfl
    case isFalse hn =>
      split
      case isTrue hv =>
        have ht : (encode (e :: es)).take n = e.fst ++ '=' :: e.snd.take (n - (e.fst.length + 1)) := by
          have hk : n = (e.fst ++ ['=']).length + (n - (e.fst.length + 1)) := by
            simp only [List.length_append, List.length_cons, List.length_nil]
            omega
          have he : encode (e :: es) = (e.fst ++ ['=']) ++ (e.snd ++ '\n' :: encode es) := by
            simp [encode, line]
          rw [he, hk, List.take_length_add_append, List.take_append_of_le_length (by omega), ← hk]
          simp
        rw [ht, entries_last (hp.line _), entry_key hp.key.right]
        rfl
      case isFalse hv =>
        have hl : (line e).length ≤ n := by rw [length_line]; omega
        rw [encode, List.flatMap_cons, List.take_append, List.take_of_length_le hl, entries_line hp]
        exact congrArg _ (hi _)

theorem key_mem_of_mem_cut (h : x ∈ cut es n) : x.fst ∈ es.map Prod.fst := by
  induction es generalizing n
  case nil => cases h
  case cons e es hi =>
    rw [cut] at h
    split at h
    case isTrue => cases h
    case isFalse =>
      split at h
      case isTrue =>
        rw [List.mem_singleton.mp h]
        exact List.mem_cons_self
      case isFalse =>
        rcases List.mem_cons.mp h with rfl | h
        · exact List.mem_cons_self
        · exact List.mem_cons_of_mem e.fst (hi h)

theorem cut_length (h : (encode es).length ≤ n) : cut es n = es := by
  induction es generalizing n
  case nil => rfl
  case cons e es hi =>
    rw [encode, List.flatMap_cons, List.length_append] at h
    have hl : (line e).length = _ := length_line
    rw [cut, if_neg (by omega), if_neg (by omega), hi]
    rw [encode]
    omega

theorem entries_encode (h : ∀ e ∈ es, Plain e) : entries (encode es) = es := by
  have ht := entries_take h (encode es).length
  rw [List.take_length] at ht
  rw [ht, cut_length (Nat.le_refl _)]

theorem cut_snoc (h : n ≤ (encode es).length) : ∀ x ∈ cut (es ++ [e]) n, x.fst ∈ es.map Prod.fst := by
  intro x hx
  induction es generalizing n
  case nil =>
    cases Nat.le_zero.mp h
    cases hx
  case cons d es hi =>
    rw [List.cons_append, cut] at hx
    split at hx
    case isTrue => cases hx
    case isFalse =>
      split at hx
      case isTrue =>
        cases List.mem_singleton.mp hx
        exact List.mem_cons_self
      case isFalse =>
        cases hx
        case head => exact List.mem_cons_self
        case tail hm =>
          rw [encode, List.flatMap_cons, List.length_append] at h
          have h : n - (line d).length ≤ (encode es).length := by rw [encode]; omega
          exact List.mem_cons_of_mem _ (hi h hm)

theorem cut_append (h : (encode es).length ≤ n) : cut (es ++ fs) n = es ++ cut fs (n - (encode es).length) := by
  induction es generalizing n
  case nil => rfl
  case cons e es hi =>
    rw [encode, List.flatMap_cons, List.length_append] at h
    have hl : (line e).length = _ := length_line
    have he : (encode es).length ≤ n - (line e).length := by rw [encode]; omega
    rw [List.cons_append, cut, if_neg (by omega), if_neg (by omega), hi he, encode, encode, List.flatMap_cons,
      List.length_append, Nat.sub_sub]
    rfl

theorem newline_not_mem_lines (h : l ∈ lines cs) : '\n' ∉ l := by
  induction cs generalizing l
  case nil => cases h
  case cons c cs hi =>
    rw [lines] at h
    split at h
    case isTrue =>
      cases h
      case head => exact List.not_mem_nil
      case tail h => exact hi h
    case isFalse hc =>
      cases hl : lines cs
      case nil =>
        rw [hl] at h
        cases List.mem_singleton.mp h
        exact fun hm => hc (List.mem_singleton.mp hm).symm
      case cons k ks =>
        rw [hl] at h hi
        cases h
        case head =>
          intro hm
          cases hm
          case head => exact hc rfl
          case tail hm => exact hi List.mem_cons_self hm
        case tail h => exact hi (List.mem_cons_of_mem k h)

theorem newline_not_mem_value (h : e ∈ entries cs) : '\n' ∉ e.snd := by
  have ⟨l, hl, he⟩ := List.mem_filterMap.mp h
  have hn := newline_not_mem_lines hl
  rw [entry] at he
  split at he
  case h_1 => cases he
  case h_2 c value hd =>
    cases he
    intro hm
    have hm : '\n' ∈ l.dropWhile (· ≠ '=') := by rw [hd]; exact List.mem_cons_of_mem c hm
    exact hn ((List.dropWhile_sublist _).mem hm)

end KeyValue
