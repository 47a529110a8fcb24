namespace NexusDb

-- The operations on floating-point numbers that the policy and the readings use. Nothing is assumed about them.
class Double (δ : Type) where
  zero    : δ
  one     : δ
  lt      : δ → δ → Bool
  le      : δ → δ → Bool
  mul     : δ → δ → δ
  div     : δ → δ → δ
  ofULong : UInt64 → δ
  toULong : δ → UInt64

instance : Double Float where
  zero    := 0
  one     := 1
  lt a b  := a < b
  le a b  := a ≤ b
  mul     := (· * ·)
  div     := (· / ·)
  ofULong := UInt64.toFloat
  toULong := Float.toUInt64

-- What is also needed to take times and to average. A conversion to an integer that does not fit is undefined.
class DoubleArith (δ : Type) extends Double δ where
  add        : δ → δ → δ
  sub        : δ → δ → δ
  minusOne   : δ
  toLongLong : δ → Option Int

instance : DoubleArith Float where
  add          := (· + ·)
  sub          := (· - ·)
  minusOne     := -1
  toLongLong x := if (-9223372036854775808.0) ≤ x ∧ x < 9223372036854775808.0 then some x.toInt64.toInt else none

end NexusDb
