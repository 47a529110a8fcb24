import Mathlib.Data.Option.Basic
import Mathlib.Data.List.Basic

-- What a sequence of writes to keys leaves at each key.
def lastWrite [DecidableEq κ] : List (κ × β) → κ → Option β
  | [],           _  => none
  | (k, v) :: ws, k' => (lastWrite ws k').or (if k = k' then some v else none)

section

variable [DecidableEq κ] {ws : List (κ × β)} {k k' : κ}

@[simp]
theorem lastWrite_nil : lastWrite ([] : List (κ × β)) k = none :=
  rfl

@[simp]
theorem lastWrite_append : lastWrite (ws ++ ws') k = (lastWrite ws' k).or (lastWrite ws k) := by
  induction ws
  case nil => simp
  case cons w _ hi => simp [lastWrite, hi, Option.or_assoc]

@[simp]
theorem lastWrite_singleton : lastWrite [(k, v)] k' = if k = k' then some v else none := by
  simp [lastWrite]

theorem lastWrite_eq_none_iff : lastWrite ws k = none ↔ ∀ v, (k, v) ∉ ws := by
  induction ws
  case nil => simp
  case cons w ws hi =>
    have ⟨k', v'⟩ := w
    simp only [lastWrite, Option.or_eq_none_iff, hi, ite_eq_right_iff, reduceCtorEq, List.mem_cons,
      Prod.mk.injEq, not_or]
    constructor
    case mp => exact fun ⟨hm, hk⟩ v => ⟨fun h => hk h.left.symm, hm v⟩
    case mpr => exact fun h => ⟨fun v => (h v).right, fun hk => (h v').left ⟨hk.symm, rfl⟩⟩

end
