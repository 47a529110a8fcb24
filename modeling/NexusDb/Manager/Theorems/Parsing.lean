import NexusDb.Database.Engine
import NexusDb.Manager.Router

namespace NexusDb

open Decimal (Bounded continued)

-- The number of a digit, with the arithmetic of 64 bits.
abbrev digitOf (c : Char) : UInt64 :=
  UInt64.ofNat (c.toNat - '0'.toNat)

theorem toNat_digitOf {c : Char} (h : c.isDigit) : (digitOf c).toNat = c.toNat - 48 ∧ c.toNat - 48 ≤ 9 := by
  have hle : c.toNat ≤ 57 := by
    rw [Char.isDigit, Bool.and_eq_true, decide_eq_true_iff, decide_eq_true_iff] at h
    exact h.right
  refine ⟨?_, by omega⟩
  rw [digitOf, UInt64.toNat_ofNat', Nat.mod_eq_of_lt]
  · rfl
  · exact lt_of_le_of_lt (Nat.sub_le ..) (by omega)

namespace Cli

variable {max v : UInt64} {c : Char}

-- The guards of a step are there for the operations after them.
theorem uint_step (c : Char) (hv : v ≤ max / 10) :
    (v * 10).toNat = v.toNat * 10 ∧ (max - v * 10).toNat + (v * 10).toNat = max.toNat ∧
      (digitOf c ≤ max - v * 10 → (v * 10 + digitOf c).toNat = (v * 10).toNat + (digitOf c).toNat) := by
  have hmax := max.toNat_lt
  have hle : v.toNat * 10 ≤ max.toNat := by
    rw [UInt64.le_iff_toNat_le, UInt64.toNat_div] at hv
    change v.toNat ≤ max.toNat / 10 at hv
    omega
  have hmul : (v * 10).toNat = v.toNat * 10 := by
    rw [UInt64.toNat_mul]
    exact Nat.mod_eq_of_lt (by change v.toNat * 10 < _; omega)
  have hsub : (max - v * 10).toNat = max.toNat - (v * 10).toNat :=
    UInt64.toNat_sub_of_le _ _ (UInt64.le_iff_toNat_le.mpr (hmul ▸ hle))
  refine ⟨hmul, by omega, fun hd => ?_⟩
  rw [UInt64.le_iff_toNat_le] at hd
  rw [UInt64.toNat_add]
  exact Nat.mod_eq_of_lt (by omega)

theorem uintDigits_bounded (max : UInt64) : Bounded UInt64.toNat max.toNat (uintDigits max) where
  nil _ := rfl
  next v c cs _ hc hle := by
    have ⟨hd, _⟩ := toNat_digitOf hc
    have hv : v ≤ max / 10 := by
      rw [UInt64.le_iff_toNat_le, UInt64.toNat_div]
      change v.toNat ≤ max.toNat / 10
      omega
    have ⟨hmul, hsub, hadd⟩ := uint_step c hv
    have hg : digitOf c ≤ max - v * 10 := by
      rw [UInt64.le_iff_toNat_le]
      omega
    refine ⟨v * 10 + digitOf c, ?_, ?_⟩
    · rw [hadd hg, hmul, hd]
      omega
    · rw [uintDigits, if_neg (Decimal.isDigit_iff.mp hc)]
      simp only
      rw [if_neg (UInt64.not_lt.mpr hv), if_neg (UInt64.not_lt.mpr hg)]
  stop v c cs _ hn := by
    rw [uintDigits]
    split
    case isTrue => rfl
    case isFalse hc =>
      have hc := Decimal.isDigit_iff.mpr hc
      have ⟨hd, _⟩ := toNat_digitOf hc
      simp only
      split
      case isTrue => rfl
      case isFalse hv =>
        have ⟨hmul, hsub, _⟩ := uint_step c (UInt64.not_lt.mp hv)
        refine if_pos (UInt64.lt_iff_toNat_lt.mpr ?_)
        change _ < (digitOf c).toNat
        have hn : ¬c.toNat - 48 + 10 * v.toNat ≤ max.toNat := fun hle => hn ⟨hc, hle⟩
        omega

end Cli

namespace Engine

theorem toNat_maxPoolFrames : maxPoolFrames.toNat = 2 ^ 20 := by
  decide

theorem count_step (hc : c.isDigit) (hv : v.toNat ≤ 2 ^ 20) :
    (v * 10).toNat = v.toNat * 10 ∧ (v * 10 + digitOf c).toNat = v.toNat * 10 + (digitOf c).toNat := by
  have ⟨hd, hle⟩ := toNat_digitOf hc
  have hmul : (v * 10).toNat = v.toNat * 10 := by
    rw [UInt64.toNat_mul]
    exact Nat.mod_eq_of_lt (by change v.toNat * 10 < _; omega)
  refine ⟨hmul, ?_⟩
  rw [UInt64.toNat_add, hmul]
  exact Nat.mod_eq_of_lt (by omega)

theorem countDigits_bounded : Bounded UInt64.toNat (2 ^ 20) countDigits where
  nil _ := rfl
  next v c cs hv hc hle := by
    have ⟨hd, _⟩ := toNat_digitOf hc
    have ⟨_, hadd⟩ := count_step hc hv
    refine ⟨v * 10 + digitOf c, by omega, ?_⟩
    rw [countDigits, if_neg (Decimal.isDigit_iff.mp hc)]
    refine if_neg ?_
    rw [gt_iff_lt, UInt64.lt_iff_toNat_lt, toNat_maxPoolFrames]
    change ¬2 ^ 20 < (v * 10 + digitOf c).toNat
    omega
  stop v c cs hv hn := by
    rw [countDigits]
    split
    case isTrue => rfl
    case isFalse hc =>
      have hc := Decimal.isDigit_iff.mpr hc
      have ⟨hd, _⟩ := toNat_digitOf hc
      have ⟨_, hadd⟩ := count_step hc hv
      refine if_pos ?_
      rw [gt_iff_lt, UInt64.lt_iff_toNat_lt, toNat_maxPoolFrames]
      change 2 ^ 20 < (v * 10 + digitOf c).toNat
      have hn : ¬c.toNat - 48 + 10 * v.toNat ≤ 2 ^ 20 := fun hle => hn ⟨hc, hle⟩
      omega

end Engine

theorem toNat_injective : Function.Injective UInt64.toNat :=
  fun _ _ => UInt64.toNat.inj

-- A number is read exactly when the text denotes one that is not greater than the bound. In the loops, wherever they get
-- to, no product, difference or sum wraps around.
theorem parse_exact :
    (∀ text max n, Cli.parseUint text max = some n ↔
      text ≠ [] ∧ (∀ c ∈ text, c.isDigit) ∧ Decimal.value text ≤ max.toNat ∧ n.toNat = Decimal.value text) ∧
    (∀ max v c, c.isDigit → v ≤ max / 10 →
      (v * 10).toNat = v.toNat * 10 ∧ (max - v * 10).toNat + (v * 10).toNat = max.toNat ∧
      (digitOf c ≤ max - v * 10 → (v * 10 + digitOf c).toNat = (v * 10).toNat + (digitOf c).toNat)) ∧
    (∀ text n, Engine.parseCount text = some n ↔
      ∃ cs, text = some cs ∧ cs ≠ [] ∧ (∀ c ∈ cs, c.isDigit) ∧ Decimal.value cs ≤ 2 ^ 20 ∧ n.toNat = Decimal.value cs) ∧
    (∀ pre c v, Engine.countDigits 0 pre = some v → c.isDigit →
      (v * 10).toNat = v.toNat * 10 ∧ (v * 10 + digitOf c).toNat = (v * 10).toNat + (digitOf c).toNat) := by
  refine ⟨fun text max n => ?_, fun _ _ c _ => Cli.uint_step c, fun text n => ?_, fun pre c v hp hc => ?_⟩
  · rw [Cli.parseUint]
    split
    case isTrue h => simp [h]
    case isFalse h =>
      rw [(Cli.uintDigits_bounded max).read_iff toNat_injective (Nat.zero_le _)]
      exact (and_iff_right h).symm
  · cases text
    case none => simp [Engine.parseCount]
    case some text =>
      cases text
      case nil => simp [Engine.parseCount]
      case cons c cs =>
        rw [Engine.parseCount, Engine.countDigits_bounded.read_iff toNat_injective (Nat.zero_le _)]
        refine ⟨fun h => ⟨_, rfl, List.cons_ne_nil c cs, h⟩, ?_⟩
        rintro ⟨_, he, _, h⟩
        cases he
        exact h
        exact nofun
  · have ⟨_, hle, hv⟩ := (Engine.countDigits_bounded.read_iff toNat_injective (Nat.zero_le _)).mp hp
    have ⟨hmul, hadd⟩ := Engine.count_step hc (hv ▸ hle)
    exact ⟨hmul, hadd.trans (by rw [hmul])⟩

end NexusDb
