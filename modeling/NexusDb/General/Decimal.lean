import Mathlib.Data.Nat.Digits.Lemmas
import Mathlib.Data.List.TakeWhile

namespace Decimal

def digit (d : Nat) : Char :=
  Char.ofNat (48 + d)

-- The decimal digits of a number, with zeros in front up to a width.
def padded (width n : Nat) : List Char :=
  (Nat.digitsAppend 10 width n).reverse.map digit

def value (cs : List Char) : Nat :=
  cs.foldl (fun v c => c.toNat - 48 + 10 * v) 0

def ofInt (n : Int) : List Char :=
  if n < 0 then '-' :: padded 1 n.natAbs else padded 1 n.natAbs

def isSpace (c : Char) : Bool :=
  c ∈ [' ', '\t', '\n', '\x0b', '\x0c', '\r']

-- The number at the start of a text, after white space. The flag is its sign.
def scan (cs : List Char) : Bool × Nat :=
  match cs.dropWhile isSpace with
  | '-' :: cs => (true, value (cs.takeWhile Char.isDigit))
  | '+' :: cs => (false, value (cs.takeWhile Char.isDigit))
  | cs        => (false, value (cs.takeWhile Char.isDigit))

-- The number that is read when digits go on after the number `v`.
def continued (v : Nat) (cs : List Char) : Nat :=
  cs.foldl (fun v c => c.toNat - 48 + 10 * v) v

-- A function that reads a number digit by digit, and gives up when it exceeds a bound.
structure Bounded (val : α → Nat) (bound : Nat) (read : α → List Char → Option α) : Prop where
  nil  : ∀ v, read v [] = some v
  next : ∀ v c cs, val v ≤ bound → c.isDigit → c.toNat - 48 + 10 * val v ≤ bound →
    ∃ w, val w = c.toNat - 48 + 10 * val v ∧ read v (c :: cs) = read w cs
  stop : ∀ v c cs, val v ≤ bound → ¬(c.isDigit ∧ c.toNat - 48 + 10 * val v ≤ bound) → read v (c :: cs) = none

theorem toNat_digit (h : d < 10) : (digit d).toNat = 48 + d := by
  revert h
  revert d
  decide

theorem isDigit_digit (h : d < 10) : (digit d).isDigit := by
  revert h
  revert d
  decide

theorem isDigit_of_mem_padded (h : c ∈ padded w n) : c.isDigit := by
  have ⟨d, hd, hc⟩ := List.mem_map.mp h
  rw [← hc]
  exact isDigit_digit <| Nat.lt_of_mem_digitsAppend (by decide) w d (List.mem_reverse.mp hd)

theorem length_padded_pos (h : 0 < w) : 0 < (padded w n).length := by
  simp only [padded, Nat.digitsAppend, List.length_map, List.length_reverse, List.length_append,
    List.length_replicate]
  omega

theorem length_padded_le (h : n < 10 ^ k) : (padded w n).length ≤ max w k := by
  have hd : (Nat.digits 10 n).length ≤ k := (Nat.digits_length_le_iff (by decide) n).mpr h
  simp only [padded, Nat.digitsAppend, List.length_map, List.length_reverse, List.length_append,
    List.length_replicate]
  omega

theorem value_digits {ds : List Nat} (h : ∀ d ∈ ds, d < 10) :
    value (ds.reverse.map digit) = Nat.ofDigits 10 ds := by
  rw [value, List.foldl_map, List.foldl_reverse, Nat.ofDigits_eq_foldr]
  induction ds
  case nil => rfl
  case cons d ds hi =>
    have hi := hi fun x hx => h x (List.mem_cons_of_mem d hx)
    rw [List.foldr_cons, List.foldr_cons, hi, toNat_digit (h d List.mem_cons_self)]
    simp

theorem value_padded : value (padded w n) = n := by
  rw [padded, value_digits fun d hd => Nat.lt_of_mem_digitsAppend (by decide) w d hd, Nat.digitsAppend,
    Nat.ofDigits_append_replicate_zero, Nat.ofDigits_digits]

theorem padded_injective (h : padded w n = padded w m) : n = m := by
  rw [← value_padded (w := w) (n := n), h, value_padded]

theorem takeWhile_padded : (padded w n).takeWhile Char.isDigit = padded w n :=
  List.takeWhile_eq_self_iff.mpr fun _ hc => isDigit_of_mem_padded hc

theorem isSpace_digit {c : Char} (h : c.isDigit) : isSpace c = false := by
  rw [isSpace, decide_eq_false_iff_not]
  intro hm
  rcases List.mem_cons.mp hm with rfl | hm
  · cases h
  · revert h
    simp only [List.mem_cons, List.not_mem_nil, or_false] at hm
    rcases hm with rfl | rfl | rfl | rfl | rfl <;> decide

theorem scan_digit {c : Char} (h : c.isDigit) :
    scan (c :: cs) = (false, value ((c :: cs).takeWhile Char.isDigit)) := by
  rw [scan, List.dropWhile_cons_of_neg (by rw [isSpace_digit h]; nofun)]
  split
  case h_1 heq => cases heq; cases h
  case h_2 heq => cases heq; cases h
  case h_3 => rfl

theorem scan_padded (h : 0 < w) : scan (padded w n) = (false, n) := by
  have hv : value ((padded w n).takeWhile Char.isDigit) = n := by rw [takeWhile_padded, value_padded]
  cases hp : padded w n
  case nil =>
    have hl := length_padded_pos (n := n) h
    rw [hp] at hl
    cases hl
  case cons c cs =>
    have hc : c.isDigit := isDigit_of_mem_padded (w := w) (n := n) (hp ▸ List.mem_cons_self)
    rw [scan_digit hc, ← hp, hv]

theorem scan_ofInt (n : Int) : scan (ofInt n) = (decide (n < 0), n.natAbs) := by
  rw [ofInt]
  split
  case isTrue hn =>
    rw [decide_eq_true hn, scan, List.dropWhile_cons_of_neg (by decide)]
    simp only [takeWhile_padded, value_padded]
  case isFalse hn => rw [decide_eq_false hn, scan_padded (by decide)]

theorem isDigit_iff {c : Char} : c.isDigit ↔ ¬(c < '0' ∨ c > '9') := by
  rw [Char.isDigit, Bool.and_eq_true, decide_eq_true_iff, decide_eq_true_iff, not_or, Char.not_lt, gt_iff_lt, Char.not_lt]
  rfl

theorem le_continued (v : Nat) (cs : List Char) : v ≤ continued v cs := by
  induction cs generalizing v
  case nil => exact le_rfl
  case cons c cs ih =>
    have hv : v ≤ c.toNat - 48 + 10 * v := by omega
    exact hv.trans (ih _)

-- Leading zeros and the length of the text do not matter.
theorem Bounded.read_iff {read : α → List Char → Option α} (h : Bounded val bound read)
    (hi : Function.Injective val) (hv : val v ≤ bound) :
    read v cs = some w ↔ (∀ c ∈ cs, c.isDigit) ∧ continued (val v) cs ≤ bound ∧ val w = continued (val v) cs := by
  induction cs generalizing v
  case nil =>
    rw [h.nil, Option.some_inj]
    constructor
    case mp =>
      rintro rfl
      exact ⟨nofun, hv, rfl⟩
    case mpr => exact fun ⟨_, _, hw⟩ => (hi hw).symm
  case cons c cs ih =>
    have hc : continued (val v) (c :: cs) = continued (c.toNat - 48 + 10 * val v) cs := rfl
    by_cases hd : c.isDigit ∧ c.toNat - 48 + 10 * val v ≤ bound
    case pos =>
      have ⟨u, hu, hread⟩ := h.next v c cs hv hd.left hd.right
      rw [hread, ih (hu ▸ hd.right), hu, hc, List.forall_mem_cons]
      simp only [hd.left, true_and]
    case neg =>
      rw [h.stop v c cs hv hd, hc]
      refine ⟨nofun, fun ⟨hds, hle, _⟩ => absurd ⟨hds c List.mem_cons_self, ?_⟩ hd⟩
      exact (le_continued _ cs).trans hle

end Decimal
