import NexusDb.Bridge.AdaptationPolicy
import NexusDb.Buffer.Theorems.Atomic

namespace NexusDb

namespace Policy

theorem subFloor_toNat : (subFloor a b).toNat = a.toNat - b.toNat := by
  rw [subFloor]
  split
  case isTrue h => exact UInt64.toNat_sub_of_le a b (UInt64.le_of_lt h)
  case isFalse h =>
    have := UInt64.le_iff_toNat_le.mp (UInt64.not_lt.mp h)
    simp
    omega

theorem addSat_toNat : (addSat a b).toNat = min (a.toNat + b.toNat) (2 ^ 64 - 1) := by
  have hsub : (ulongMax - b).toNat = 2 ^ 64 - 1 - b.toNat :=
    UInt64.toNat_sub_of_le _ _ (UInt64.le_iff_toNat_le.mpr <| Nat.le_of_lt_succ b.toNat_lt)
  have ha := a.toNat_lt
  have hb := b.toNat_lt
  rw [addSat]
  split
  case isTrue h =>
    have h := UInt64.lt_iff_toNat_lt.mp h
    have hm : ulongMax.toNat = 2 ^ 64 - 1 := rfl
    rw [hsub] at h
    rw [hm]
    omega
  case isFalse h =>
    have h := UInt64.le_iff_toNat_le.mp (UInt64.not_lt.mp h)
    rw [hsub] at h
    rw [UInt64.toNat_add, Nat.mod_eq_of_lt (by omega)]
    omega

theorem toNat_ite_lt (a b : UInt64) : (if a < b then b else a).toNat = max a.toNat b.toNat := by
  split
  case isTrue h =>
    have := UInt64.lt_iff_toNat_lt.mp h
    omega
  case isFalse h =>
    have := UInt64.le_iff_toNat_le.mp (UInt64.not_lt.mp h)
    omega

theorem toNat_ite_gt (a b : UInt64) : (if a > b then b else a).toNat = min a.toNat b.toNat := by
  split
  case isTrue h =>
    have := UInt64.lt_iff_toNat_lt.mp h
    omega
  case isFalse h =>
    have := UInt64.le_iff_toNat_le.mp (UInt64.not_lt.mp h)
    omega

variable {cfg : PolicyConfig δ}

theorem shrinkTarget_toNat : (shrinkTarget cfg n).toNat =
    max (n.toNat - cfg.maxStepDown.toNat) cfg.minFrames.toNat := by
  rw [shrinkTarget, toNat_ite_lt, subFloor_toNat]

theorem growTarget_toNat : (growTarget cfg ceiling n).toNat =
    min (min (n.toNat + cfg.maxStepUp.toNat) (2 ^ 64 - 1)) ceiling.toNat := by
  rw [growTarget, toNat_ite_gt, addSat_toNat]

variable [Double δ]

theorem ceilingFrames_toNat : (ceilingFrames cfg limit).toNat =
    if cfg.maxFrames = 0 then
      max cfg.minFrames.toNat (rawCeiling cfg limit).toNat
    else
      min (max cfg.minFrames.toNat (rawCeiling cfg limit).toNat) cfg.maxFrames.toNat := by
  rw [ceilingFrames]
  have hmin := toNat_ite_lt (rawCeiling cfg limit) cfg.minFrames
  rw [max_comm] at hmin
  rw [← hmin]
  by_cases hm : cfg.maxFrames = 0
  case pos => rw [if_pos hm, if_neg fun h => h.left hm]
  case neg =>
    rw [if_neg hm, ← toNat_ite_gt]
    simp [hm]

variable {snapshot : Option (ResourceSnapshot δ)}

-- What a snapshot asks for, whatever the capacity is.
def direction (cfg : PolicyConfig δ) (snapshot : Option (ResourceSnapshot δ)) : AdaptAction :=
  if !configValid cfg then
    .hold
  else
    match snapshot with
    | none          => .hold
    | some snapshot =>
      if !snapshot.valid || !snapshot.hasMemory then
        .hold
      else if !snapshot.hasLimit then
        .hold
      else if Double.le cfg.shrinkThreshold (pressureOf snapshot) then
        .shrink
      else if Double.le (pressureOf snapshot) cfg.growThreshold then
        .grow
      else
        .hold

-- The frames that a snapshot allows.
def ceilingOf (cfg : PolicyConfig δ) (snapshot : Option (ResourceSnapshot δ)) : UInt64 :=
  match snapshot with
  | none          => 0
  | some snapshot => ceilingFrames cfg snapshot.memoryMax

-- The target that a snapshot asks for at a capacity, when it differs from the capacity.
def wanted (cfg : PolicyConfig δ) (snapshot : Option (ResourceSnapshot δ)) (current : UInt64) : Option UInt64 :=
  match direction cfg snapshot with
  | .hold   => none
  | .shrink => if shrinkTarget cfg current < current then some (shrinkTarget cfg current) else none
  | .grow   =>
    let target := growTarget cfg (ceilingOf cfg snapshot) current
    if current < target then some target else none

theorem wanted_ne (h : wanted cfg snapshot current = some target) : target ≠ current := by
  rw [wanted] at h
  split at h
  case h_1 => cases h
  case h_2 =>
    split at h <;> cases h
    case isTrue hlt => exact UInt64.ne_of_lt hlt
  case h_3 =>
    dsimp only at h
    split at h <;> cases h
    case isTrue hlt => exact (UInt64.ne_of_lt hlt).symm

-- An evaluation: there is nothing to do, or the target was just asked for, or it is asked for now.
theorem evaluate_wanted {policy : Policy} (h : policy.evaluate cfg snapshot current = (rc, policy', d)) :
    (wanted cfg snapshot current = none ∧ policy' = policy ∧ d.action = .hold ∧
      d.targetFrames = current ∧ d.reason ≠ .duplicate) ∨
    (∃ target, wanted cfg snapshot current = some target ∧ rc = .ok ∧
      ((policy.haveLast ∧ policy.lastTarget = target ∧ policy' = policy ∧ d.action = .hold ∧
          d.targetFrames = current ∧ d.reason = .duplicate) ∨
       (¬(policy.haveLast ∧ policy.lastTarget = target) ∧ policy' = { lastTarget := target, haveLast := true } ∧
          d.action = direction cfg snapshot ∧ d.targetFrames = target ∧ d.reason = .ok))) := by
  have hgrow : ∀ ceiling, growTarget cfg ceiling current ≤ ceiling := by
    intro ceiling
    rw [UInt64.le_iff_toNat_le, growTarget_toNat]
    exact Nat.min_le_right _ _
  rw [wanted]
  generalize hdir : direction cfg snapshot = dir
  rw [direction.eq_def] at hdir
  simp only [evaluate] at h
  split at h
  case isTrue hv =>
    rw [if_pos hv] at hdir
    subst hdir
    cases h
    exact .inl ⟨rfl, rfl, rfl, rfl, nofun⟩
  case isFalse hv =>
    rw [if_neg hv] at hdir
    cases snapshot
    case none =>
      subst hdir
      cases h
      exact .inl ⟨rfl, rfl, rfl, rfl, nofun⟩
    case some s =>
      dsimp only at h hdir
      split at h
      case isTrue hm =>
        rw [if_pos hm] at hdir
        subst hdir
        cases h
        exact .inl ⟨rfl, rfl, rfl, rfl, nofun⟩
      case isFalse hm =>
        rw [if_neg hm] at hdir
        split at h
        case isTrue hl =>
          rw [if_pos hl] at hdir
          subst hdir
          cases h
          exact .inl ⟨rfl, rfl, rfl, rfl, nofun⟩
        case isFalse hl =>
          rw [if_neg hl] at hdir
          split at h
          case isTrue hs =>
            rw [if_pos hs] at hdir
            subst hdir
            dsimp only
            split at h
            case isTrue hge =>
              cases h
              rw [if_neg (UInt64.not_lt.mpr hge)]
              exact .inl ⟨rfl, rfl, rfl, rfl, nofun⟩
            case isFalse hge =>
              rw [if_pos (UInt64.not_le.mp hge)]
              split at h <;> cases h
              case isTrue hd => exact .inr ⟨_, rfl, rfl, .inl ⟨hd.left, hd.right, rfl, rfl, rfl, rfl⟩⟩
              case isFalse hd => exact .inr ⟨_, rfl, rfl, .inr ⟨hd, rfl, rfl, rfl, rfl⟩⟩
          case isFalse hs =>
            rw [if_neg hs] at hdir
            split at h
            case isFalse hg =>
              rw [if_neg hg] at hdir
              subst hdir
              cases h
              exact .inl ⟨rfl, rfl, rfl, rfl, nofun⟩
            case isTrue hg =>
              rw [if_pos hg] at hdir
              subst hdir
              dsimp only [ceilingOf]
              split at h
              case isTrue hge =>
                cases h
                rw [if_neg (UInt64.not_lt.mpr (UInt64.le_trans (hgrow _) hge))]
                exact .inl ⟨rfl, rfl, rfl, rfl, nofun⟩
              case isFalse =>
                split at h
                case isTrue hle =>
                  cases h
                  rw [if_neg (UInt64.not_lt.mpr hle)]
                  exact .inl ⟨rfl, rfl, rfl, rfl, nofun⟩
                case isFalse hle =>
                  rw [if_pos (UInt64.not_le.mp hle)]
                  split at h <;> cases h
                  case isTrue hd => exact .inr ⟨_, rfl, rfl, .inl ⟨hd.left, hd.right, rfl, rfl, rfl, rfl⟩⟩
                  case isFalse hd => exact .inr ⟨_, rfl, rfl, .inr ⟨hd, rfl, rfl, rfl, rfl⟩⟩

-- The decisions, with the target in numbers without a bound.
theorem evaluate_cases {policy : Policy} (h : policy.evaluate cfg snapshot current = (rc, policy', d)) :
    (d.action = .hold ∧ d.targetFrames = current) ∨
    (rc = .ok ∧ d.action = .shrink ∧ d.targetFrames < current ∧
      d.targetFrames.toNat = max (current.toNat - cfg.maxStepDown.toNat) cfg.minFrames.toNat) ∨
    (rc = .ok ∧ d.action = .grow ∧ current < d.targetFrames ∧ ∃ s, snapshot = some s ∧
      d.targetFrames.toNat = min (min (current.toNat + cfg.maxStepUp.toNat) (2 ^ 64 - 1))
        (ceilingFrames cfg s.memoryMax).toNat) := by
  rcases evaluate_wanted h with ⟨-, -, hact, ht, -⟩ | ⟨target, hw, hrc, ⟨-, -, -, hact, ht, -⟩ | ⟨-, -, hact, ht, -⟩⟩
  · exact .inl ⟨hact, ht⟩
  · exact .inl ⟨hact, ht⟩
  · rw [wanted] at hw
    rw [ht]
    cases hd : direction cfg snapshot <;> rw [hd] at hw hact
    case hold => cases hw
    case shrink =>
      dsimp only at hw
      split at hw <;> cases hw
      case isTrue hlt => exact .inr <| .inl ⟨hrc, hact, hlt, shrinkTarget_toNat⟩
    case grow =>
      dsimp only at hw
      split at hw <;> cases hw
      case isTrue hlt =>
        cases snapshot
        case none => simp [direction] at hd
        case some s => exact .inr <| .inr ⟨hrc, hact, hlt, s, rfl, growTarget_toNat⟩

-- An application: nothing is requested, no request can be made, or one is made for the target.

section Apply

variable {policy : Policy} {context : κ}

theorem apply_hold {request : Option (κ → UInt64 → Rc × κ)}
    (he : policy.evaluate cfg snapshot current = (rc, policy', d)) (hd : d.action = .hold) :
    policy.apply cfg snapshot current request context = (rc, policy', d, context) := by
  simp only [apply, he]
  by_cases hrc : rc = .ok
  case pos => simp [hrc, hd]
  case neg => simp [hrc]

theorem apply_none (he : policy.evaluate cfg snapshot current = (.ok, policy', d)) (hd : d.action ≠ .hold) :
    policy.apply cfg snapshot current none context = (.invalid, policy', d, context) := by
  simp [apply, he, hd]

theorem apply_some {request : κ → UInt64 → Rc × κ}
    (he : policy.evaluate cfg snapshot current = (.ok, policy', d)) (hd : d.action ≠ .hold)
    (hr : request context d.targetFrames = (rc, context')) :
    policy.apply cfg snapshot current (some request) context =
      if rc = .ok then (.ok, policy', d, context')
      else (rc, {}, { d with reason := .requestFailed }, context') := by
  by_cases hrc : rc = .ok
  case pos => simp [apply, he, hd, hr, hrc]
  case neg => simp [apply, he, hd, hr, hrc]

end Apply

-- The decision is the one of the evaluation. The context changes only by the request for its target.
theorem apply_cases {policy : Policy} {request : κ → UInt64 → Rc × κ}
    (h : policy.apply cfg snapshot current (some request) context = (rc, policy', d, context')) :
    ∃ code policy₁ d₁, policy.evaluate cfg snapshot current = (code, policy₁, d₁) ∧
      d.action = d₁.action ∧ d.targetFrames = d₁.targetFrames ∧
      (context' = context ∨ context' = (request context d.targetFrames).snd) ∧
      (d.action = .hold → context' = context) := by
  match he : policy.evaluate cfg snapshot current with
  | (code, policy₁, d₁) =>
    refine ⟨code, policy₁, d₁, rfl, ?_⟩
    by_cases hact : d₁.action = .hold
    case pos =>
      rw [apply_hold he hact] at h
      cases h
      exact ⟨rfl, rfl, .inl rfl, fun _ => rfl⟩
    case neg =>
      obtain ⟨hh, -⟩ | ⟨hrc, -⟩ | ⟨hrc, -⟩ := evaluate_cases he
      case inl => exact absurd hh hact
      all_goals
        subst hrc
        rw [apply_some he hact rfl] at h
        split at h <;> cases h
        all_goals exact ⟨rfl, rfl, .inr rfl, fun hh => absurd hh hact⟩

end Policy

namespace Adaptation

variable [Double δ] {cfg : PolicyConfig δ} {a a' : Adaptation}

-- A step makes a decision, and then the capacity is what it was or the target.
theorem step_cases (h : step cfg a snapshot rc = (d, a')) :
    (d.action = .hold ∧ a'.capacity = a.capacity) ∨
    (d.action = .shrink ∧ d.targetFrames < a.capacity ∧
      d.targetFrames.toNat = max (a.capacity.toNat - cfg.maxStepDown.toNat) cfg.minFrames.toNat ∧
      (a'.capacity = a.capacity ∨ a'.capacity = d.targetFrames)) ∨
    (d.action = .grow ∧ a.capacity < d.targetFrames ∧ (∃ s, snapshot = some s ∧
      d.targetFrames.toNat = min (min (a.capacity.toNat + cfg.maxStepUp.toNat) (2 ^ 64 - 1))
        (Policy.ceilingFrames cfg s.memoryMax).toNat) ∧
      (a'.capacity = a.capacity ∨ a'.capacity = d.targetFrames)) := by
  match happly : a.policy.apply cfg snapshot a.capacity (some (request rc)) a.capacity with
  | (code, policy, out, capacity) =>
    rw [step, happly] at h
    cases h
    have ⟨_, _, d₁, he, hact, htarget, hctx, hhold⟩ := Policy.apply_cases happly
    have hcapacity : capacity = a.capacity ∨ capacity = d.targetFrames := by
      cases hctx
      case inl h => exact .inl h
      case inr h =>
        rw [h, request]
        split
        case isTrue => exact .inr rfl
        case isFalse => exact .inl rfl
    have hcases := Policy.evaluate_cases he
    rw [← hact, ← htarget] at hcases
    rcases hcases with ⟨hact, _⟩ | ⟨_, hact, hlt, heq⟩ | ⟨_, hact, hlt, hs⟩
    · exact .inl ⟨hact, hhold hact⟩
    · exact .inr <| .inl ⟨hact, hlt, heq, hcapacity⟩
    · exact .inr <| .inr ⟨hact, hlt, hs, hcapacity⟩

-- The bounds of the capacity, from the one that was there first.
def Bounded (cfg : PolicyConfig δ) (c₀ c : UInt64) : Prop :=
  min c₀.toNat cfg.minFrames.toNat ≤ c.toNat ∧
    (cfg.maxFrames ≠ 0 → c.toNat ≤ max c₀.toNat cfg.maxFrames.toNat)

theorem Bounded.step (hb : Bounded cfg c₀ a.capacity) (h : a.step cfg snapshot rc = (d, a')) :
    Bounded cfg c₀ a'.capacity := by
  have ⟨hlow, hhigh⟩ := hb
  rcases step_cases h with ⟨_, hc⟩ | ⟨_, hlt, heq, hc | hc⟩ | ⟨_, hlt, ⟨s, _, heq⟩, hc | hc⟩
  · rw [hc]; exact hb
  · rw [hc]; exact hb
  · have hlt := UInt64.lt_iff_toNat_lt.mp hlt
    rw [hc]
    exact ⟨by omega, fun hm => by have := hhigh hm; omega⟩
  · rw [hc]; exact hb
  · have hlt := UInt64.lt_iff_toNat_lt.mp hlt
    rw [hc]
    refine ⟨by omega, fun hm => ?_⟩
    have hceil : (Policy.ceilingFrames cfg s.memoryMax).toNat ≤ cfg.maxFrames.toNat := by
      rw [Policy.ceilingFrames_toNat, if_neg hm]
      exact Nat.min_le_right _ _
    omega

theorem Bounded.run (hb : Bounded cfg c₀ a.capacity) (xs : List (Option (ResourceSnapshot δ) × Rc)) :
    Bounded cfg c₀ (a.run cfg xs).capacity := by
  induction xs generalizing a
  case nil => exact hb
  case cons x xs hi => exact hi (hb.step (a.step cfg x.fst x.snd).eta.symm)

-- The configuration need not be valid: the policy then does nothing.
theorem run_bounded (cfg : PolicyConfig δ) (policy : Policy) (c₀ : UInt64)
    (xs : List (Option (ResourceSnapshot δ) × Rc)) :
    let a := run cfg ⟨policy, c₀⟩ xs
    (min c₀.toNat cfg.minFrames.toNat ≤ a.capacity.toNat ∧
      (cfg.maxFrames ≠ 0 → a.capacity.toNat ≤ max c₀.toNat cfg.maxFrames.toNat)) ∧
    (∀ snapshot rc d a', a.step cfg snapshot rc = (d, a') →
      (d.action = .shrink → cfg.minFrames ≤ d.targetFrames ∧ d.targetFrames < a.capacity ∧
        a.capacity.toNat - d.targetFrames.toNat ≤ cfg.maxStepDown.toNat) ∧
      (d.action = .grow → a.capacity < d.targetFrames ∧
        d.targetFrames.toNat - a.capacity.toNat ≤ cfg.maxStepUp.toNat ∧
        ∃ s, snapshot = some s ∧
          d.targetFrames.toNat ≤ max cfg.minFrames.toNat (Policy.rawCeiling cfg s.memoryMax).toNat ∧
          (cfg.maxFrames ≠ 0 → d.targetFrames ≤ cfg.maxFrames))) ∧
    (∀ n m, (Policy.subFloor n m).toNat = n.toNat - m.toNat) ∧
    (∀ n m, (Policy.addSat n m).toNat = min (n.toNat + m.toNat) (2 ^ 64 - 1)) := by
  intro a
  have hb : Bounded cfg c₀ a.capacity :=
    Bounded.run (a := ⟨policy, c₀⟩) ⟨Nat.min_le_left _ _, fun _ => Nat.le_max_left _ _⟩ xs
  refine ⟨hb, fun snapshot rc d a' hs => ⟨fun hact => ?_, fun hact => ?_⟩,
    fun _ _ => Policy.subFloor_toNat, fun _ _ => Policy.addSat_toNat⟩
  · rcases step_cases hs with ⟨h, _⟩ | ⟨_, hlt, heq, _⟩ | ⟨h, _⟩
    · cases hact.symm.trans h
    · exact ⟨UInt64.le_iff_toNat_le.mpr (by omega), hlt, by omega⟩
    · cases hact.symm.trans h
  · rcases step_cases hs with ⟨h, _⟩ | ⟨h, _⟩ | ⟨_, hlt, ⟨s, hs, heq⟩, _⟩
    · cases hact.symm.trans h
    · cases hact.symm.trans h
    · have hceil : (Policy.ceilingFrames cfg s.memoryMax).toNat = _ := Policy.ceilingFrames_toNat
      refine ⟨hlt, by omega, s, hs, ?_, fun hm => UInt64.le_iff_toNat_le.mpr ?_⟩
      · split at hceil <;> omega
      · rw [if_neg hm] at hceil
        omega

end Adaptation

-- The pool does what the policy expects of a request.
theorem BufferPool.resize_capacity [Device σ] {p q : BufferPool σ} (h : p.resize a n = (res, q)) :
    q.capacity = if res = .ok () then n else p.capacity := by
  cases resize_cases h
  case refused => rfl
  case same hn => exact hn.symm
  case grown => rfl
  case unflushed hf => exact (flushFrames_cleans hf).left.capacity
  case shrunk => rfl

theorem bufferPoolRequest_capacity [Device σ] {p q : BufferPool σ}
    (h : bufferPoolRequest alloc p t = (rc, q)) :
    q.capacity = if rc = .ok then t.toNat else p.capacity := by
  rw [bufferPoolRequest] at h
  split at h
  case isTrue => cases h; rfl
  case isFalse =>
    split at h
    case h_1 hr => cases h; exact BufferPool.resize_capacity hr
    case h_2 hr => cases h; exact BufferPool.resize_capacity hr

namespace AdaptivePool

variable [Double δ] [Device σ] {a : AdaptivePool σ}

def abstraction (a : AdaptivePool σ) : Adaptation :=
  ⟨a.policy, UInt64.ofNat a.pool.capacity⟩

-- A step on the pool is a step on its capacity, with the code that the adapter returns.
theorem step_refines (cfg : PolicyConfig δ) (snapshot : Option (ResourceSnapshot δ)) (alloc : Allocation)
    (hc : a.pool.capacity < 2 ^ 64) :
    ∃ rc, (a.step cfg snapshot alloc).abstraction = (a.abstraction.step cfg snapshot rc).snd ∧
      (a.step cfg snapshot alloc).pool.capacity < 2 ^ 64 := by
  match he : a.policy.evaluate cfg snapshot (UInt64.ofNat a.pool.capacity) with
  | (code, policy, d) =>
    match hr : bufferPoolRequest alloc a.pool d.targetFrames with
    | (rc, q) =>
      refine ⟨rc, ?_⟩
      simp only [step, abstraction, Adaptation.step, Policy.apply, he, hr, Adaptation.request]
      split
      case isTrue => exact ⟨rfl, hc⟩
      case isFalse =>
        split
        case isTrue => exact ⟨rfl, hc⟩
        case isFalse =>
          have hq := bufferPoolRequest_capacity hr
          split
          case isTrue hrc =>
            rw [if_neg hrc] at hq
            dsimp only
            rw [hq]
            exact ⟨rfl, hc⟩
          case isFalse hrc =>
            rw [if_pos (not_not.mp hrc)] at hq
            dsimp only
            rw [hq, UInt64.ofNat_toNat, if_pos (not_not.mp hrc)]
            exact ⟨rfl, d.targetFrames.toNat_lt⟩

theorem run_refines (cfg : PolicyConfig δ) (hc : a.pool.capacity < 2 ^ 64)
    (xs : List (Option (ResourceSnapshot δ) × Allocation)) :
    ∃ ys, (a.run cfg xs).abstraction = a.abstraction.run cfg ys ∧ (a.run cfg xs).pool.capacity < 2 ^ 64 := by
  induction xs generalizing a
  case nil => exact ⟨[], rfl, hc⟩
  case cons x xs hi =>
    have ⟨rc, hstep, hc'⟩ := step_refines cfg x.fst x.snd hc
    have ⟨ys, hrun, hc''⟩ := hi hc'
    refine ⟨(x.fst, rc) :: ys, ?_, hc''⟩
    rw [Adaptation.run, ← hstep]
    exact hrun

-- The capacity of the pool itself stays in the bounds.
theorem run_capacity (cfg : PolicyConfig δ) (hc : a.pool.capacity < 2 ^ 64)
    (xs : List (Option (ResourceSnapshot δ) × Allocation)) :
    min a.pool.capacity cfg.minFrames.toNat ≤ (a.run cfg xs).pool.capacity ∧
      (cfg.maxFrames ≠ 0 → (a.run cfg xs).pool.capacity ≤ max a.pool.capacity cfg.maxFrames.toNat) := by
  have ⟨ys, hrun, hc'⟩ := run_refines cfg hc xs
  have hb : Adaptation.Bounded cfg a.abstraction.capacity (a.abstraction.run cfg ys).capacity :=
    Adaptation.Bounded.run ⟨Nat.min_le_left _ _, fun _ => Nat.le_max_left _ _⟩ ys
  rw [← hrun] at hb
  simpa only [Adaptation.Bounded, abstraction, UInt64.toNat_ofNat_of_lt' hc, UInt64.toNat_ofNat_of_lt' hc'] using hb

end AdaptivePool
end NexusDb
