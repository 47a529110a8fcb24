import NexusDb.General.ByteBlock
import Mathlib.Logic.Function.Iterate

-- A register that is shifted to the right bit by bit. A bit that leaves it is fed back at the places of `poly`.
def shiftStep (poly c : BitVec w) : BitVec w :=
  (c >>> 1) ^^^ (if c.getLsbD 0 then poly else 0)

-- Each byte is added to the low bits and then shifted through.
def shiftBytes (poly c : BitVec w) (bs : Bytes) : BitVec w :=
  bs.foldl (fun c b => Nat.repeat (shiftStep poly) 8 (c ^^^ b.toBitVec.setWidth w)) c

namespace ShiftRegister

-- All ones of `x` are among its low `n` bits.
def Fits (n : Nat) (x : BitVec w) : Prop :=
  ∀ i, n ≤ i → x.getLsbD i = false

theorem Fits.shiftLeft {x : BitVec w} (h : Fits n x) (k : Nat) : Fits (n + k) (x <<< k) := by
  intro i hi
  simp [BitVec.getLsbD_shiftLeft, h (i - k) (by omega)]

theorem shiftLeft_injective {x y : BitVec w} (hx : Fits n x) (hy : Fits n y) (hn : n + k ≤ w)
    (h : x <<< k = y <<< k) : x = y := by
  apply BitVec.eq_of_getLsbD_eq
  intro i _
  cases Nat.lt_or_ge i n
  case inl hi =>
    have hb := congrArg (BitVec.getLsbD · (i + k)) h
    simp only [BitVec.getLsbD_shiftLeft, Nat.add_sub_cancel] at hb
    simpa [-BitVec.getLsbD_eq_getElem, (by omega : i + k < w)] using hb
  case inr hi => rw [hx i hi, hy i hi]

section

variable {poly : BitVec w}

theorem step_xor (c d : BitVec w) :
    shiftStep poly (c ^^^ d) = shiftStep poly c ^^^ shiftStep poly d := by
  simp only [shiftStep, BitVec.getLsbD_xor, BitVec.ushiftRight_xor_distrib]
  apply BitVec.eq_of_getLsbD_eq
  intro i _
  simp only [BitVec.getLsbD_xor]
  cases c.getLsbD 0 <;> cases d.getLsbD 0 <;> cases (c >>> 1).getLsbD i <;> cases (d >>> 1).getLsbD i <;> simp

-- The step loses nothing when the bit that leaves the register is fed back at its top.
theorem step_eq_zero (hp : poly.msb = true) (h : shiftStep poly c = 0) : c = 0 := by
  have hbit : ∀ i < w, (shiftStep poly c).getLsbD i = false := by simp [h]
  cases hc : c.getLsbD 0
  case true =>
    have hw : 0 < w := BitVec.lt_of_getLsbD hc
    have ht := hbit (w - 1) (by omega)
    rw [BitVec.msb_eq_getLsbD_last] at hp
    simp [shiftStep, -BitVec.getLsbD_zero, hc, hp, BitVec.getLsbD_of_ge c (1 + (w - 1)) (by omega)] at ht
  case false =>
    apply BitVec.eq_of_getLsbD_eq
    intro i hi
    cases i
    case zero => simpa using hc
    case succ i => simpa [shiftStep, hc, Nat.add_comm 1] using hbit i (by omega)

theorem step_injective (hp : poly.msb = true) : Function.Injective (shiftStep poly) := by
  intro c d h
  have hz : shiftStep poly (c ^^^ d) = 0 := by rw [step_xor, h, BitVec.xor_self]; rfl
  exact BitVec.xor_eq_zero_iff.mp <| step_eq_zero hp hz

theorem repeat_xor (k : Nat) (c d : BitVec w) :
    Nat.repeat (shiftStep poly) k (c ^^^ d) =
      Nat.repeat (shiftStep poly) k c ^^^ Nat.repeat (shiftStep poly) k d := by
  induction k
  case zero => rfl
  case succ k hi => simp only [Nat.repeat, hi, step_xor]

theorem repeat_injective (hp : poly.msb = true) (k : Nat) :
    Function.Injective (Nat.repeat (shiftStep poly) k) := by
  induction k
  case zero => exact Function.injective_id
  case succ k hi => exact (step_injective hp).comp hi

theorem repeat_add (f : α → α) (j k : Nat) (a : α) :
    Nat.repeat f (j + k) a = Nat.repeat f j (Nat.repeat f k a) := by
  induction j
  case zero => rw [Nat.zero_add]; rfl
  case succ j hi => rw [Nat.succ_add, Nat.repeat, Nat.repeat, hi]

theorem step_shiftLeft {x : BitVec w} (hx : Fits n x) (hn : n + 1 ≤ w) :
    shiftStep poly (x <<< 1) = x := by
  apply BitVec.eq_of_getLsbD_eq
  intro i hi
  cases Nat.lt_or_ge i n
  case inl h => simp [-BitVec.getLsbD_eq_getElem, shiftStep, BitVec.getLsbD_shiftLeft, (by omega : 1 + i < w)]
  case inr h =>
    rw [hx i h]
    simp [shiftStep, hx i h]

-- Zeros at the low end are shifted out without a feedback.
theorem repeat_shiftLeft {x : BitVec w} (hx : Fits n x) (hn : n + k ≤ w) :
    Nat.repeat (shiftStep poly) k (x <<< k) = x := by
  induction k generalizing n x
  case zero => simp [Nat.repeat]
  case succ k hi =>
    rw [Nat.repeat, Nat.add_comm k, BitVec.shiftLeft_add, hi (hx.shiftLeft 1) (by omega),
      step_shiftLeft hx (by omega)]

end

-- The bytes as one number, the first byte lowest.
def word (w : Nat) : Bytes → BitVec w
  | []      => 0
  | b :: bs => b.toBitVec.setWidth w ^^^ (word w bs <<< 8)

theorem byte_fits (b : UInt8) : Fits 8 (b.toBitVec.setWidth w) := by
  intro i hi
  simp [BitVec.getLsbD_of_ge b.toBitVec i hi]

theorem word_fits (bs : Bytes) : Fits (8 * bs.length) (word w bs) := by
  induction bs
  case nil => simp [Fits, word]
  case cons b bs hi =>
    intro i h
    simp only [List.length_cons] at h
    rw [word, BitVec.getLsbD_xor, byte_fits b i (by omega), hi.shiftLeft 8 i (by omega)]
    rfl

theorem byte_injective {b b' : UInt8} (hw : 8 ≤ w)
    (h : ∀ i < 8, (b.toBitVec.setWidth w).getLsbD i = (b'.toBitVec.setWidth w).getLsbD i) : b = b' := by
  apply UInt8.toBitVec_inj.mp
  apply BitVec.eq_of_getLsbD_eq
  intro i hi
  simpa [(by omega : i < w)] using h i hi

theorem word_injective (hl : xs.length = ys.length) (hw : 8 * xs.length ≤ w)
    (h : word w xs = word w ys) : xs = ys := by
  induction xs generalizing ys
  case nil => exact (List.eq_nil_of_length_eq_zero hl.symm).symm
  case cons x xs hi =>
    match ys, hl with
    | y :: ys, hl =>
      simp only [List.length_cons, Nat.add_right_cancel_iff] at hl hw
      have hb : x = y := by
        apply byte_injective (by omega : 8 ≤ w)
        intro i hi
        have hb := congrArg (BitVec.getLsbD · i) h
        simpa [word, hi] using hb
      subst hb
      have ht : word w xs <<< 8 = word w ys <<< 8 := by
        simpa only [word, BitVec.xor_right_inj] using h
      have hf : Fits (8 * xs.length) (word w ys) := hl ▸ word_fits ys
      rw [hi hl (by omega) <| shiftLeft_injective (word_fits xs) hf (by omega) ht]

section

variable {poly : BitVec w}

theorem shiftBytes_append : shiftBytes poly c (xs ++ ys) = shiftBytes poly (shiftBytes poly c xs) ys :=
  List.foldl_append

-- As many bytes as the register holds are added to it as a whole.
theorem shiftBytes_eq (hw : 8 * xs.length ≤ w) :
    shiftBytes poly c xs = Nat.repeat (shiftStep poly) (8 * xs.length) (c ^^^ word w xs) := by
  induction xs generalizing c
  case nil => simp [shiftBytes, word, Nat.repeat]
  case cons x xs hi =>
    simp only [List.length_cons] at hw
    have hs := hi (c := Nat.repeat (shiftStep poly) 8 (c ^^^ x.toBitVec.setWidth w)) (by omega)
    have hx : Nat.repeat (shiftStep poly) 8 (word w xs <<< 8) = word w xs :=
      repeat_shiftLeft (word_fits xs) (by omega)
    calc shiftBytes poly c (x :: xs)
      _ = Nat.repeat (shiftStep poly) (8 * xs.length)
            (Nat.repeat (shiftStep poly) 8 (c ^^^ x.toBitVec.setWidth w) ^^^ word w xs) := hs
      _ = Nat.repeat (shiftStep poly) (8 * xs.length)
            (Nat.repeat (shiftStep poly) 8 (c ^^^ word w (x :: xs))) := by
        rw [word, ← BitVec.xor_assoc, repeat_xor 8 _ (word w xs <<< 8), hx]
      _ = _ := by rw [← repeat_add]; rfl

theorem shiftBytes_injective (hp : poly.msb = true) (bs : Bytes) :
    Function.Injective fun c => shiftBytes poly c bs := by
  induction bs
  case nil => exact Function.injective_id
  case cons b bs hi =>
    intro c d h
    exact BitVec.xor_left_inj _ |>.mp <| repeat_injective hp 8 <| hi h

-- Two messages that differ only in a burst that fits into the register leave it in different states.
theorem burst (hp : poly.msb = true) (hl : xs.length = ys.length) (hw : 8 * xs.length ≤ w)
    (h : shiftBytes poly c (l ++ xs ++ r) = shiftBytes poly c (l ++ ys ++ r)) : xs = ys := by
  simp only [shiftBytes_append] at h
  have hx := shiftBytes_injective hp r h
  have hy : 8 * ys.length ≤ w := hl ▸ hw
  rw [shiftBytes_eq hw, shiftBytes_eq hy, ← hl] at hx
  exact word_injective hl hw <| BitVec.xor_right_inj _ |>.mp <| repeat_injective hp _ hx

end

end ShiftRegister
