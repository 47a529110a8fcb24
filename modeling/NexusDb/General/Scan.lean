import NexusDb.General.Decimal

-- The conversions of the C library that read words and numbers, as far as the text decides about them.
namespace Decimal

def inWord (c : Char) : Bool :=
  !isSpace c

-- The first word of a text.
def word (cs : List Char) : List Char :=
  (cs.dropWhile isSpace).takeWhile inWord

def unsigned : List Char → Bool × List Char
  | '-' :: cs => (true, cs)
  | '+' :: cs => (false, cs)
  | cs        => (false, cs)

-- The number at the start of a text, after white space, with its sign and what comes after it.
def number (cs : List Char) : Option (Bool × Nat × List Char) :=
  let (negative, cs) := unsigned (cs.dropWhile isSpace)
  match cs.takeWhile Char.isDigit with
  | [] => none
  | ds => some (negative, value ds, cs.dropWhile Char.isDigit)

-- An optional sign, digits, and what comes after them.
structure Numeral (cs : List Char) (negative : Bool) (ds rest : List Char) : Prop where
  sign   : unsigned cs = (negative, ds ++ rest)
  some   : ds ≠ []
  digits : ∀ c ∈ ds, c.isDigit
  ends   : ∀ c ∈ rest.head?, ¬c.isDigit

theorem takeWhile_append_ends {p : α → Bool} {ds rest : List α} (h : ∀ c ∈ ds, p c) (he : ∀ c ∈ rest.head?, ¬p c) :
    (ds ++ rest).takeWhile p = ds ∧ (ds ++ rest).dropWhile p = rest := by
  rw [List.takeWhile_append_of_pos h, List.dropWhile_append_of_pos h]
  cases rest
  case nil => simp
  case cons c cs =>
    have hc := he c rfl
    rw [List.takeWhile_cons_of_neg hc, List.dropWhile_cons_of_neg hc, List.append_nil]
    exact ⟨rfl, rfl⟩

theorem not_head_dropWhile {p : α → Bool} (cs : List α) : ∀ c ∈ (cs.dropWhile p).head?, ¬p c := by
  intro c hc
  have h := List.head?_dropWhile_not p cs
  rw [Option.mem_def.mp hc] at h
  exact Bool.not_eq_true _ ▸ h

theorem mem_head_of_takeWhile {p : α → Bool} {cs : List α} (h : c ∈ (cs.takeWhile p).head?) : c ∈ cs.head? := by
  cases cs
  case nil => cases h
  case cons d cs =>
    by_cases hd : p d
    case pos => rwa [List.takeWhile_cons_of_pos hd] at h
    case neg =>
      rw [List.takeWhile_cons_of_neg hd] at h
      cases h

theorem number_iff : number cs = some (negative, n, rest) ↔
    ∃ ds, Numeral (cs.dropWhile isSpace) negative ds rest ∧ value ds = n := by
  cases hu : unsigned (cs.dropWhile isSpace)
  case mk sign body =>
    simp only [number, hu]
    constructor
    case mp =>
      intro h
      split at h <;> cases h
      case h_2 hne =>
        refine ⟨body.takeWhile Char.isDigit, ⟨?_, ?_, ?_, ?_⟩, rfl⟩
        · rw [hu, List.takeWhile_append_dropWhile]
        · exact fun h => hne h
        · exact fun c hc => List.mem_takeWhile_imp hc
        · exact not_head_dropWhile body
    case mpr =>
      rintro ⟨ds, h, rfl⟩
      cases hu.symm.trans h.sign
      have ⟨ht, hd⟩ := takeWhile_append_ends h.digits h.ends
      rw [ht, hd]
      cases ds
      case nil => exact absurd rfl h.some
      case cons => rfl

theorem inWord_digit {c : Char} (h : c.isDigit) : inWord c := by
  rw [inWord, isSpace_digit h]
  rfl

-- A number ends where its word ends, at the latest.
theorem unsigned_takeWhile (cs : List Char) :
    unsigned (cs.takeWhile inWord) = ((unsigned cs).fst, (unsigned cs).snd.takeWhile inWord) := by
  cases cs
  case nil => rfl
  case cons c cs =>
    by_cases hm : c = '-'
    case pos => subst hm; rfl
    case neg =>
      by_cases hp : c = '+'
      case pos => subst hp; rfl
      case neg =>
        have hu : ∀ cs, unsigned (c :: cs) = (false, c :: cs) := by
          intro cs
          rw [unsigned]
          · rintro _ ⟨⟩; exact hm rfl
          · rintro _ ⟨⟩; exact hp rfl
        rw [hu]
        by_cases hs : inWord c
        case pos => rw [List.takeWhile_cons_of_pos hs, hu]
        case neg => rw [List.takeWhile_cons_of_neg hs]; rfl

theorem Numeral.takeWhile (h : Numeral cs negative ds rest) :
    Numeral (cs.takeWhile inWord) negative ds (rest.takeWhile inWord) where
  sign := by
    have hds : ∀ c ∈ ds, inWord c := fun c hc => inWord_digit (h.digits c hc)
    rw [unsigned_takeWhile, h.sign, List.takeWhile_append_of_pos hds]
  some := h.some
  digits := h.digits
  ends c hc := h.ends c (mem_head_of_takeWhile hc)

theorem Numeral.of_takeWhile (h : Numeral (cs.takeWhile inWord) negative ds r) :
    ∃ rest, Numeral cs negative ds rest := by
  have hs := (unsigned_takeWhile cs).symm.trans h.sign
  have hb : (unsigned cs).snd.takeWhile inWord = ds ++ r := congrArg Prod.snd hs
  refine ⟨r ++ (unsigned cs).snd.dropWhile inWord, ⟨?_, h.some, h.digits, fun c hc => ?_⟩⟩
  · rw [← List.append_assoc, ← hb, List.takeWhile_append_dropWhile]
    exact Prod.ext (congrArg (·.fst) hs) rfl
  · cases r
    case cons => exact h.ends c hc
    case nil =>
      intro hd
      exact not_head_dropWhile _ c hc (inWord_digit hd)

theorem Numeral.unique (h : Numeral cs negative ds rest) (h' : Numeral cs negative' ds' rest') :
    negative' = negative ∧ ds' = ds ∧ rest' = rest := by
  have he := h'.sign.symm.trans h.sign
  have ⟨ht, hd⟩ := takeWhile_append_ends h.digits h.ends
  have ⟨ht', hd'⟩ := takeWhile_append_ends h'.digits h'.ends
  have hb : ds' ++ rest' = ds ++ rest := congrArg Prod.snd he
  exact ⟨congrArg Prod.fst he, by rw [← ht', hb, ht], by rw [← hd', hb, hd]⟩

theorem Numeral.of_digits (hn : ds ≠ []) (h : ∀ c ∈ ds, c.isDigit) : Numeral ds false ds [] where
  sign := by
    cases ds
    case nil => exact absurd rfl hn
    case cons c cs =>
      have hc := h c List.mem_cons_self
      rw [unsigned, List.append_nil]
      · rintro _ ⟨⟩; cases hc
      · rintro _ ⟨⟩; cases hc
  some := hn
  digits := h
  ends := nofun

theorem length_unsigned_le (cs : List Char) : (unsigned cs).snd.length ≤ cs.length := by
  rw [unsigned.eq_def]
  split
  case h_1 => exact Nat.le_succ _
  case h_2 => exact Nat.le_succ _
  case h_3 => exact le_rfl

theorem number_length (h : number cs = some (negative, n, rest)) : rest.length ≤ cs.length := by
  have ⟨ds, hn, _⟩ := number_iff.mp h
  have hu := length_unsigned_le (cs.dropWhile isSpace)
  have hd := (List.dropWhile_sublist isSpace (l := cs)).length_le
  rw [hn.sign, List.length_append] at hu
  omega

theorem value_append : value (cs ++ ds) = continued (value cs) ds :=
  List.foldl_append

-- Another digit makes a number at least ten times as large.
theorem ten_mul_value_le (h : ds ≠ []) : 10 * value cs ≤ value (cs ++ ds) := by
  rw [value_append]
  cases ds
  case nil => exact absurd rfl h
  case cons d ds =>
    have hle := le_continued (d.toNat - 48 + 10 * value cs) ds
    exact (Nat.le_add_left _ _).trans hle

end Decimal
