import NexusDb.Bridge.Theorems.AdaptationPolicy
import Mathlib.Data.Nat.Find
import Mathlib.Data.Rat.Defs

namespace NexusDb

namespace Adaptation

variable [Double δ] {cfg : PolicyConfig δ} {snapshot : Option (ResourceSnapshot δ)} {a a' : Adaptation}

-- The target that is remembered is the capacity that the pool has now.
def Tracks (a : Adaptation) : Prop :=
  a.policy.haveLast → a.policy.lastTarget = a.capacity

-- A target differs from the capacity, so that none is taken for a repetition.
theorem step_wanted (ht : a.Tracks) (h : a.step cfg snapshot rc = (d, a')) :
    a'.Tracks ∧ d.reason ≠ .duplicate ∧
    ((Policy.wanted cfg snapshot a.capacity = none ∧ d.action = .hold ∧ a' = a) ∨
     (∃ target, Policy.wanted cfg snapshot a.capacity = some target ∧
       d.action = Policy.direction cfg snapshot ∧ d.action ≠ .hold ∧ d.targetFrames = target ∧
       a'.capacity = if rc = .ok then target else a.capacity)) := by
  rcases he : a.policy.evaluate cfg snapshot a.capacity with ⟨code, policy, out⟩
  rw [step] at h
  rcases Policy.evaluate_wanted he with ⟨hw, hp, hact, -, hr⟩ | ⟨target, hw, hcode, hdup | hnew⟩
  · rw [Policy.apply_hold he hact, hp] at h
    cases h
    exact ⟨ht, hr, .inl ⟨hw, hact, rfl⟩⟩
  · obtain ⟨hl, hlt, _⟩ := hdup
    exact absurd (hlt.symm.trans (ht hl)) (Policy.wanted_ne hw)
  · obtain ⟨_, hp, hact, htarget, hr⟩ := hnew
    have hne : out.action ≠ .hold := by
      rw [hact]
      intro hd
      rw [Policy.wanted, hd] at hw
      cases hw
    subst hcode
    rw [Policy.apply_some he hne (by rw [request]), hp, htarget] at h
    by_cases hrc : rc = .ok
    case pos =>
      rw [if_pos hrc, if_pos hrc] at h
      cases h
      exact ⟨fun _ => rfl, by rw [hr]; rintro ⟨⟩, .inr ⟨target, hw, hact, hne, htarget, by rw [if_pos hrc]⟩⟩
    case neg =>
      rw [if_neg hrc, if_neg hrc] at h
      cases h
      exact ⟨by rintro ⟨⟩, by rintro ⟨⟩, .inr ⟨target, hw, hact, hne, rfl, by rw [if_neg hrc]⟩⟩

theorem loop_tracks (ht : a.Tracks) (xs : List (PolicyConfig δ × Option (ResourceSnapshot δ) × Rc)) :
    (a.loop xs).snd.Tracks ∧ ∀ d ∈ (a.loop xs).fst, d.reason ≠ .duplicate := by
  induction xs generalizing a
  case nil => exact ⟨ht, nofun⟩
  case cons x xs hi =>
    have ⟨ht', hr, _⟩ := step_wanted ht (a.step x.fst x.snd.fst x.snd.snd).eta.symm
    have ⟨ht'', hd⟩ := hi ht'
    exact ⟨ht'', fun d hmem => (List.mem_cons.mp hmem).elim (fun he => he ▸ hr) (hd d)⟩

-- The same snapshot `n` times, with requests that succeed.
def after (cfg : PolicyConfig δ) (snapshot : Option (ResourceSnapshot δ)) (a : Adaptation) (n : Nat) : Adaptation :=
  a.run cfg (List.replicate n (snapshot, .ok))

-- The decision of the call that comes then.
def decision (cfg : PolicyConfig δ) (snapshot : Option (ResourceSnapshot δ)) (a : Adaptation) (n : Nat) : AdaptDecision δ :=
  ((after cfg snapshot a n).step cfg snapshot .ok).fst

theorem run_append (a : Adaptation) (xs ys : List (Option (ResourceSnapshot δ) × Rc)) :
    a.run cfg (xs ++ ys) = (a.run cfg xs).run cfg ys := by
  induction xs generalizing a
  case nil => rfl
  case cons x xs hi => exact hi _

theorem step_after (cfg : PolicyConfig δ) (snapshot : Option (ResourceSnapshot δ)) (a : Adaptation) (n : Nat) :
    (after cfg snapshot a n).step cfg snapshot .ok = (decision cfg snapshot a n, after cfg snapshot a (n + 1)) := by
  refine Prod.ext rfl ?_
  rw [after, after, List.replicate_succ', run_append]
  rfl

theorem after_tracks (ht : a.Tracks) (n : Nat) : (after cfg snapshot a n).Tracks := by
  induction n
  case zero => exact ht
  case succ n hi => exact (step_wanted hi (step_after cfg snapshot a n)).left

-- What one call of the loop does, by its target.
theorem after_cases (cfg : PolicyConfig δ) (snapshot : Option (ResourceSnapshot δ)) (ht : a.Tracks) (n : Nat) :
    (Policy.wanted cfg snapshot (after cfg snapshot a n).capacity = none ∧
      (decision cfg snapshot a n).action = .hold ∧
      (after cfg snapshot a (n + 1)).capacity = (after cfg snapshot a n).capacity) ∨
    (Policy.wanted cfg snapshot (after cfg snapshot a n).capacity = some (after cfg snapshot a (n + 1)).capacity ∧
      (decision cfg snapshot a n).action = Policy.direction cfg snapshot) := by
  have ⟨_, _, h⟩ := step_wanted (after_tracks ht n) (step_after cfg snapshot a n)
  rcases h with ⟨hw, hact, ha⟩ | ⟨target, hw, hact, -, -, hc⟩
  · exact .inl ⟨hw, hact, congrArg capacity ha⟩
  · rw [if_pos rfl] at hc
    exact .inr ⟨hc ▸ hw, hact⟩

section Constant

variable (ht : a.Tracks)

include ht

theorem after_hold (hd : Policy.direction cfg snapshot = .hold) (n : Nat) :
    (decision cfg snapshot a n).action = .hold ∧ (after cfg snapshot a n).capacity = a.capacity := by
  have hstep : ∀ n, (decision cfg snapshot a n).action = .hold ∧
      (after cfg snapshot a (n + 1)).capacity = (after cfg snapshot a n).capacity := by
    intro n
    rcases after_cases cfg snapshot ht n with ⟨-, hact, hc⟩ | ⟨hw, -⟩
    · exact ⟨hact, hc⟩
    · rw [Policy.wanted, hd] at hw
      cases hw
  refine ⟨(hstep n).left, ?_⟩
  induction n
  case zero => rfl
  case succ n hi => rw [(hstep n).right, hi]

theorem step_shrink (hd : Policy.direction cfg snapshot = .shrink) (n : Nat) :
    let c := (after cfg snapshot a n).capacity.toNat
    (after cfg snapshot a (n + 1)).capacity.toNat =
      min c (max (c - cfg.maxStepDown.toNat) cfg.minFrames.toNat) ∧
    (decision cfg snapshot a n).action = if cfg.minFrames.toNat < c ∧ 0 < cfg.maxStepDown.toNat then .shrink else .hold := by
  intro c
  have heq : (Policy.shrinkTarget cfg (after cfg snapshot a n).capacity).toNat =
      max (c - cfg.maxStepDown.toNat) cfg.minFrames.toNat := Policy.shrinkTarget_toNat
  rcases after_cases cfg snapshot ht n with ⟨hw, hact, hc⟩ | ⟨hw, hact⟩
  · simp only [Policy.wanted, hd, ite_eq_right_iff, reduceCtorEq, imp_false, UInt64.lt_iff_toNat_lt] at hw
    rw [hc, hact, if_neg (by omega)]
    exact ⟨by omega, rfl⟩
  · simp only [Policy.wanted, hd, Option.ite_none_right_eq_some, Option.some_inj, UInt64.lt_iff_toNat_lt] at hw
    rw [← hw.right, hact, hd, if_pos (by omega)]
    exact ⟨by omega, rfl⟩

theorem step_grow (hd : Policy.direction cfg snapshot = .grow) (n : Nat) :
    let c := (after cfg snapshot a n).capacity.toNat
    let ceiling := (Policy.ceilingOf cfg snapshot).toNat
    (after cfg snapshot a (n + 1)).capacity.toNat = max c (min (c + cfg.maxStepUp.toNat) ceiling) ∧
    (decision cfg snapshot a n).action = if c < ceiling ∧ 0 < cfg.maxStepUp.toNat then .grow else .hold := by
  intro c ceiling
  have heq : (Policy.growTarget cfg (Policy.ceilingOf cfg snapshot) (after cfg snapshot a n).capacity).toNat =
      min (min (c + cfg.maxStepUp.toNat) (2 ^ 64 - 1)) ceiling := Policy.growTarget_toNat
  have hmax : ceiling < 2 ^ 64 := (Policy.ceilingOf cfg snapshot).toNat_lt
  rcases after_cases cfg snapshot ht n with ⟨hw, hact, hc⟩ | ⟨hw, hact⟩
  · simp only [Policy.wanted, hd, ite_eq_right_iff, reduceCtorEq, imp_false, UInt64.lt_iff_toNat_lt] at hw
    rw [hc, hact, if_neg (by omega)]
    exact ⟨by omega, rfl⟩
  · simp only [Policy.wanted, hd, Option.ite_none_right_eq_some, Option.some_inj, UInt64.lt_iff_toNat_lt] at hw
    rw [← hw.right, hact, hd, if_pos (by omega)]
    exact ⟨by omega, rfl⟩

theorem after_shrink (hd : Policy.direction cfg snapshot = .shrink) (n : Nat) :
    (after cfg snapshot a n).capacity.toNat =
      min a.capacity.toNat (max (a.capacity.toNat - n * cfg.maxStepDown.toNat) cfg.minFrames.toNat) := by
  induction n
  case zero =>
    change a.capacity.toNat = _
    omega
  case succ n hi =>
    rw [(step_shrink ht hd n).left, hi, Nat.succ_mul]
    omega

theorem after_grow (hd : Policy.direction cfg snapshot = .grow) (n : Nat) :
    (after cfg snapshot a n).capacity.toNat =
      max a.capacity.toNat (min (a.capacity.toNat + n * cfg.maxStepUp.toNat) (Policy.ceilingOf cfg snapshot).toNat) := by
  induction n
  case zero =>
    change a.capacity.toNat = _
    omega
  case succ n hi =>
    rw [(step_grow ht hd n).left, hi, Nat.succ_mul]
    omega

end Constant

-- Every call holds.
def Idle (cfg : PolicyConfig δ) (snapshot : Option (ResourceSnapshot δ)) (a : Adaptation) : Prop :=
  ∀ n, (decision cfg snapshot a n).action = .hold ∧ (after cfg snapshot a n).capacity = a.capacity

-- The calls change the capacity until it is the limit, and every further call holds.
def Settles (cfg : PolicyConfig δ) (snapshot : Option (ResourceSnapshot δ)) (a : Adaptation)
    (action : AdaptAction) (limit : UInt64) : Prop :=
  ∃ N, ∀ n, (n < N → (decision cfg snapshot a n).action = action) ∧
    (N ≤ n → (decision cfg snapshot a n).action = .hold ∧ (after cfg snapshot a n).capacity = limit)

-- No call makes the capacity larger, or changes it by more than the greatest step.
def Descends (cfg : PolicyConfig δ) (snapshot : Option (ResourceSnapshot δ)) (a : Adaptation) : Prop :=
  ∀ n, (after cfg snapshot a (n + 1)).capacity ≤ (after cfg snapshot a n).capacity ∧
    (after cfg snapshot a n).capacity.toNat ≤ (after cfg snapshot a (n + 1)).capacity.toNat + cfg.maxStepDown.toNat

def Ascends (cfg : PolicyConfig δ) (snapshot : Option (ResourceSnapshot δ)) (a : Adaptation) : Prop :=
  ∀ n, (after cfg snapshot a n).capacity ≤ (after cfg snapshot a (n + 1)).capacity ∧
    (after cfg snapshot a (n + 1)).capacity.toNat ≤ (after cfg snapshot a n).capacity.toNat + cfg.maxStepUp.toNat

-- How many steps of a size it takes to cover a distance.
theorem exists_steps (x : Nat) (hd : 0 < d) : ∃ N, ∀ n, n < N ↔ n * d < x := by
  have hex : ∃ n, x ≤ n * d := ⟨x, Nat.le_mul_of_pos_right x hd⟩
  refine ⟨Nat.find hex, fun n => ?_⟩
  constructor
  case mp => exact fun h => Nat.not_le.mp (Nat.find_min hex h)
  case mpr =>
    intro h
    by_contra hn
    have hmul := Nat.mul_le_mul_right d (Nat.not_lt.mp hn)
    exact Nat.not_le.mpr h ((Nat.find_spec hex).trans hmul)

-- The calls take steps of one size, as long as there is some distance to the limit.
theorem settles_of_distance {P : Prop} [Decidable P] {limit : UInt64} (distance : Nat → Nat)
    (hP : P ↔ size = 0 ∨ distance 0 = 0)
    (hact : ∀ n, (decision cfg snapshot a n).action = if 0 < distance n ∧ 0 < size then action else .hold)
    (hdistance : ∀ n, distance n = distance 0 - n * size)
    (hsame : ∀ n, distance n = distance 0 → (after cfg snapshot a n).capacity = a.capacity)
    (hlimit : ∀ n, 0 < distance 0 → distance n = 0 → (after cfg snapshot a n).capacity = limit) :
    if P then Idle cfg snapshot a else Settles cfg snapshot a action limit := by
  split
  case isTrue h =>
    have h := hP.mp h
    intro n
    have hn : distance n = distance 0 := by
      rw [hdistance n]
      cases h
      case inl h => rw [h, Nat.mul_zero, Nat.sub_zero]
      case inr h => rw [h, Nat.zero_sub]
    refine ⟨?_, hsame n hn⟩
    rw [hact, if_neg (by omega)]
  case isFalse h =>
    have ⟨hsize, h₀⟩ := not_or.mp (hP.not.mp h)
    have ⟨N, hN⟩ := exists_steps (distance 0) (Nat.pos_of_ne_zero hsize)
    refine ⟨N, fun n => ⟨fun hn => ?_, fun hn => ?_⟩⟩
    · have hlt := (hN n).mp hn
      rw [hact, hdistance, if_pos (by omega)]
    · have hle := (hN n).not.mp (Nat.not_lt.mpr hn)
      have hn : distance n = 0 := by
        rw [hdistance]
        omega
      refine ⟨?_, hlimit n (Nat.pos_of_ne_zero h₀) hn⟩
      rw [hact, if_neg (by omega)]

theorem toNat_eq_zero {x : UInt64} : x.toNat = 0 ↔ x = 0 :=
  UInt64.toNat_inj (b := 0)

theorem le_iff_sub (x y : UInt64) : x ≤ y ↔ x.toNat - y.toNat = 0 := by
  rw [UInt64.le_iff_toNat_le, Nat.sub_eq_zero_iff_le]

theorem shrinks (ht : a.Tracks) (hd : Policy.direction cfg snapshot = .shrink) :
    Descends cfg snapshot a ∧
      if cfg.maxStepDown = 0 ∨ a.capacity ≤ cfg.minFrames then Idle cfg snapshot a
      else Settles cfg snapshot a .shrink cfg.minFrames := by
  have hstep := step_shrink ht hd
  have hcap := after_shrink ht hd
  refine ⟨fun n => ?_, ?_⟩
  · rw [UInt64.le_iff_toNat_le, (hstep n).left]
    exact ⟨by omega, by omega⟩
  · refine settles_of_distance (fun n => (after cfg snapshot a n).capacity.toNat - cfg.minFrames.toNat)
      (or_congr toNat_eq_zero.symm (le_iff_sub a.capacity cfg.minFrames)) (fun n => ?_) (fun n => ?_) (fun n h => ?_)
      fun n hpos h => ?_
    · simp only [(hstep n).right, Nat.sub_pos_iff_lt]
    · have h₀ : (after cfg snapshot a 0).capacity = a.capacity := rfl
      rw [hcap n, h₀]
      omega
    · have h : (after cfg snapshot a n).capacity.toNat - cfg.minFrames.toNat =
        a.capacity.toNat - cfg.minFrames.toNat := h
      rw [hcap n] at h
      rw [← UInt64.toNat_inj, hcap n]
      omega
    · have hpos : 0 < a.capacity.toNat - cfg.minFrames.toNat := hpos
      rw [hcap n] at h
      rw [← UInt64.toNat_inj, hcap n]
      omega

theorem grows (ht : a.Tracks) (hd : Policy.direction cfg snapshot = .grow) :
    Ascends cfg snapshot a ∧
      if cfg.maxStepUp = 0 ∨ Policy.ceilingOf cfg snapshot ≤ a.capacity then Idle cfg snapshot a
      else Settles cfg snapshot a .grow (Policy.ceilingOf cfg snapshot) := by
  have hstep := step_grow ht hd
  have hcap := after_grow ht hd
  refine ⟨fun n => ?_, ?_⟩
  · rw [UInt64.le_iff_toNat_le, (hstep n).left]
    exact ⟨by omega, by omega⟩
  · refine settles_of_distance
      (fun n => (Policy.ceilingOf cfg snapshot).toNat - (after cfg snapshot a n).capacity.toNat)
      (or_congr toNat_eq_zero.symm (le_iff_sub _ a.capacity)) (fun n => ?_) (fun n => ?_) (fun n h => ?_) fun n hpos h => ?_
    · simp only [(hstep n).right, Nat.sub_pos_iff_lt]
    · have h₀ : (after cfg snapshot a 0).capacity = a.capacity := rfl
      rw [hcap n, h₀]
      omega
    · have h : (Policy.ceilingOf cfg snapshot).toNat - (after cfg snapshot a n).capacity.toNat =
        (Policy.ceilingOf cfg snapshot).toNat - a.capacity.toNat := h
      rw [hcap n] at h
      rw [← UInt64.toNat_inj, hcap n]
      omega
    · have hpos : 0 < (Policy.ceilingOf cfg snapshot).toNat - a.capacity.toNat := hpos
      rw [hcap n] at h
      rw [← UInt64.toNat_inj, hcap n]
      omega

-- No target is suppressed in the loop, and one snapshot leads to the limit unless its step is zero or the
-- capacity is beyond the limit already.
theorem loop_settles (c₀ : UInt64) (xs : List (PolicyConfig δ × Option (ResourceSnapshot δ) × Rc)) :
    let (ds, a) := loop ⟨{}, c₀⟩ xs
    (∀ d ∈ ds, d.reason ≠ .duplicate) ∧
    ∀ (cfg : PolicyConfig δ) (snapshot : Option (ResourceSnapshot δ)),
      match Policy.direction cfg snapshot with
      | .hold   => Idle cfg snapshot a
      | .shrink => Descends cfg snapshot a ∧
          if cfg.maxStepDown = 0 ∨ a.capacity ≤ cfg.minFrames then Idle cfg snapshot a
          else Settles cfg snapshot a .shrink cfg.minFrames
      | .grow   => Ascends cfg snapshot a ∧
          if cfg.maxStepUp = 0 ∨ Policy.ceilingOf cfg snapshot ≤ a.capacity then Idle cfg snapshot a
          else Settles cfg snapshot a .grow (Policy.ceilingOf cfg snapshot) := by
  have ⟨ht, hd⟩ := loop_tracks (a := ⟨{}, c₀⟩) nofun xs
  refine ⟨hd, fun cfg snapshot => ?_⟩
  split
  case h_1 h => exact after_hold ht h
  case h_2 h => exact shrinks ht h
  case h_3 h => exact grows ht h

end Adaptation

-- Exact arithmetic, to evaluate decisions with.
instance : Double ℚ where
  zero      := 0
  one       := 1
  lt a b    := a < b
  le a b    := a ≤ b
  mul       := (· * ·)
  div       := (· / ·)
  ofULong n := n.toNat
  toULong q := UInt64.ofNat q.floor.toNat

namespace Policy

-- A configuration that only grows.
def growOnly : PolicyConfig ℚ :=
  { configDefault with maxStepDown := 0 }

def pressed : ResourceSnapshot ℚ where
  valid          := true
  hasMemory      := true
  hasLimit       := true
  memoryMax      := 1048576
  memoryPressure := 9 / 10

theorem growOnly_pressed : configValid growOnly ∧ direction growOnly (some pressed) = .shrink := by
  decide +kernel

-- The pressure calls for fewer frames, but no call ever asks for them.
theorem growOnly_idle : configValid growOnly ∧ direction growOnly (some pressed) = .shrink ∧
    growOnly.minFrames < 20 ∧ Adaptation.Idle growOnly (some pressed) ⟨{}, 20⟩ := by
  have ⟨hv, hd⟩ := growOnly_pressed
  have ⟨_, h⟩ := Adaptation.shrinks (a := ⟨{}, 20⟩) nofun hd
  rw [if_pos (.inl rfl)] at h
  exact ⟨hv, hd, by decide, h⟩

end Policy

namespace Policy

variable [Double δ] {cfg : PolicyConfig δ} {snapshot : Option (ResourceSnapshot δ)} {policy : Policy}

theorem evaluate_ok (hv : configValid cfg) (h : policy.evaluate cfg snapshot current = (rc, policy', d)) : rc = .ok := by
  simp only [evaluate, hv, Bool.not_true, Bool.false_eq_true, if_false] at h
  cases snapshot
  case none => cases h; rfl
  case some s =>
    dsimp only at h
    split_ifs at h <;> cases h <;> rfl

-- The same call with a request that works asks for the target that the call has computed that failed.
def Retried (policy : Policy) (cfg : PolicyConfig δ) (snapshot : Option (ResourceSnapshot δ)) (current : UInt64)
    (request : Option (κ → UInt64 → Rc × κ)) (context : κ) : Prop :=
  ∀ rc policy' d context',
    policy.apply cfg snapshot current request context = (rc, policy', d, context') → rc ≠ .ok →
    ∀ (κ' : Type) (work : κ' → UInt64 → Rc × κ') (context : κ'), (∀ c t, (work c t).fst = .ok) →
      ∃ policy'' d', policy'.apply cfg snapshot current (some work) context =
          (.ok, policy'', d', (work context d.targetFrames).snd) ∧
        d'.action ≠ .hold ∧ d'.targetFrames = d.targetFrames ∧ d'.reason ≠ .duplicate

-- Only a request that fails makes the policy forget its target. Without a callback the target stays and is
-- taken for a repetition.
theorem retried_iff (hv : configValid cfg) (request : Option (κ → UInt64 → Rc × κ)) (context : κ) :
    Retried policy cfg snapshot current request context ↔
      request.isSome ∨ (policy.evaluate cfg snapshot current).snd.snd.action = .hold := by
  match he : policy.evaluate cfg snapshot current with
  | (code, policy₁, d₁) =>
    have hcode := evaluate_ok hv he
    subst hcode
    by_cases hact : d₁.action = .hold
    case pos =>
      refine iff_of_true (fun rc policy' d context' h hrc => ?_) (.inr hact)
      rw [apply_hold he hact] at h
      cases h
      exact absurd rfl hrc
    case neg =>
      rcases evaluate_wanted he with ⟨-, -, hh, -⟩ | ⟨target, hw, -, ⟨-, -, -, hh, -⟩ | ⟨-, hp, hd, ht, hr⟩⟩
      · exact absurd hh hact
      · exact absurd hh hact
      cases request
      case none =>
        refine iff_of_false (fun h => ?_) (by simp [hact])
        have ⟨_, _, happly, hne, _⟩ := h _ _ _ _ (apply_none he hact) nofun Unit (fun _ _ => (.ok, ())) () fun _ _ => rfl
        -- The second evaluation finds its target in the policy.
        match he' : policy₁.evaluate cfg snapshot current with
        | (code', policy₂, d₂) =>
          rcases evaluate_wanted he' with ⟨hw', -⟩ | ⟨_, hw', -, ⟨-, -, -, hh, -⟩ | ⟨hn, -⟩⟩
          · cases hw.symm.trans hw'
          · rw [apply_hold he' hh] at happly
            cases happly
            exact hne hh
          · cases hw.symm.trans hw'
            exact hn (hp ▸ ⟨rfl, rfl⟩)
      case some request =>
        refine iff_of_true (fun rc policy' d context' h hrc κ' work c hwork => ?_) (.inl rfl)
        rw [apply_some he hact rfl] at h
        split at h <;> cases h
        case isTrue => exact absurd rfl hrc
        case isFalse =>
          match he' : ({} : Policy).evaluate cfg snapshot current with
          | (code', policy₂, d₂) =>
            have hcode' := evaluate_ok hv he'
            subst hcode'
            rcases evaluate_wanted he' with ⟨hw', -⟩ | ⟨_, hw', -, ⟨hl, -⟩ | ⟨-, -, hd', ht', hr'⟩⟩
            · cases hw.symm.trans hw'
            · cases hl
            · cases hw.symm.trans hw'
              have hact' : d₂.action ≠ .hold := by rwa [hd', ← hd]
              refine ⟨policy₂, d₂, ?_, hact', ht'.trans ht.symm, by rw [hr']; nofun⟩
              rw [apply_some he' hact' rfl, if_pos (hwork _ _), ht', ht]

theorem retried_failing : configValid (configDefault : PolicyConfig ℚ) ∧
    Retried {} configDefault (some pressed) 1000 (some fun c _ => (.process, c)) () := by
  have hv : configValid (configDefault : PolicyConfig ℚ) := by decide +kernel
  exact ⟨hv, (retried_iff hv _ _).mpr (.inl rfl)⟩

-- A callback that works and remembers the targets.
def record (targets : List UInt64) (target : UInt64) : Rc × List UInt64 :=
  (.ok, target :: targets)

theorem retried_without_callback :
    let (rc, policy, d, _) :=
      ({} : Policy).apply (configDefault : PolicyConfig ℚ) (some pressed) 1000 (none : Option (Unit → UInt64 → Rc × Unit)) ()
    let (rc', _, d', targets) := policy.apply (configDefault : PolicyConfig ℚ) (some pressed) 1000 (some record) []
    rc = .invalid ∧ d.targetFrames = 744 ∧ rc' = .ok ∧ d'.reason = .duplicate ∧ targets = [] := by
  decide +kernel

end Policy

end NexusDb
