import NexusDb.Benchmark.Harness
import NexusDb.Bridge.Theorems.ClosedLoop

namespace NexusDb

-- What a run does to its workload and what it counts, without the measurements.
structure Tally (ω : Type) where
  ctx     : ω
  policy  : Policy
  pool    : PoolStats
  steps   : UInt64
  hits    : UInt64
  misses  : UInt64
  errors  : UInt64
  samples : UInt64
  ticks   : Nat

def BenchRun.tally (r : BenchRun δ ω κ) : Tally ω where
  ctx     := r.ctx
  policy  := r.policy
  pool    := r.res.pool
  steps   := r.res.stepsRun
  hits    := r.res.cacheHits
  misses  := r.res.cacheMisses
  errors  := r.res.fetchErrors
  samples := r.res.resource.samples
  ticks   := r.ticks

namespace Policy

-- A call of the policy makes one request or none.
theorem apply_context [Double δ] (policy : Policy) (cfg : PolicyConfig δ) (snapshot : Option (ResourceSnapshot δ))
    (current : UInt64) (request : κ → UInt64 → Rc × κ) (context : κ) :
    (policy.apply cfg snapshot current (some request) context).snd.snd.snd = context ∨
    ∃ target, (policy.apply cfg snapshot current (some request) context).snd.snd.snd = (request context target).snd := by
  simp only [apply]
  split
  case isTrue => exact .inl rfl
  case isFalse =>
    split
    case isTrue => exact .inl rfl
    case isFalse => split <;> exact .inr ⟨_, rfl⟩

end Policy

namespace Tally

def begin (wl : BenchWorkload ω) (ctx : ω) : Tally ω where
  ctx     := ctx
  policy  := {}
  pool    :=
    { startFrames := Bench.capacity wl ctx, minFrames := Bench.capacity wl ctx, maxFrames := Bench.capacity wl ctx }
  steps   := 0
  hits    := 0
  misses  := 0
  errors  := 0
  samples := 0
  ticks   := 0

-- The clock is read before and after a step, and once for a sample.
def step (wlStep : ω → UInt64 → Rc × Bool × ω) (i : UInt64) (t : Tally ω) : Tally ω :=
  match wlStep t.ctx i with
  | (.ok, true, ctx)  => { t with ctx, ticks := t.ticks + 2, steps := t.steps + 1, hits := t.hits + 1 }
  | (.ok, false, ctx) => { t with ctx, ticks := t.ticks + 2, steps := t.steps + 1, misses := t.misses + 1 }
  | (_, _, ctx)       => { t with ctx, ticks := t.ticks + 2, errors := t.errors + 1 }

def adapt [Double δ] [OfScientific δ] (wl : BenchWorkload ω) (t : Tally ω) (snap : ResourceSnapshot δ) : Tally ω :=
  let (rc, policy, dec, ctx, pool) := t.policy.apply Policy.configDefault (some snap) (Bench.capacity wl t.ctx)
    (some (Bench.resizeRequest wl)) (t.ctx, t.pool)
  { t with policy, ctx, pool := Bench.countDecision pool rc dec.action }

def sample [Double δ] [OfScientific δ] (wl : BenchWorkload ω) (t : Tally ω) (snap : ResourceSnapshot δ) : Tally ω :=
  { t with samples := t.samples + 1, ticks := t.ticks + 1 }.adapt wl snap

section

variable {wl : BenchWorkload ω} {J : ω → Prop} {t : Tally ω}

theorem step_rule {wlStep : ω → UInt64 → Rc × Bool × ω} (hstep : ∀ c i, J c → J (wlStep c i).snd.snd) (h : J t.ctx)
    (i : UInt64) : J (t.step wlStep i).ctx := by
  have hs := hstep t.ctx i h
  rw [step]
  split <;> simp_all

theorem sample_rule [Double δ] [OfScientific δ] (hresize : ∀ f, wl.resize = some f → ∀ c n, J c → J (f c n).snd)
    (h : J t.ctx) (snap : ResourceSnapshot δ) : J (t.sample wl snap).ctx := by
  have hrequest : ∀ n, J (Bench.resizeRequest wl (t.ctx, t.pool) n).snd.fst := by
    intro n
    rw [Bench.resizeRequest]
    split
    case h_1 => exact h
    case h_2 f hf => exact hresize f hf t.ctx n h
  change J (t.policy.apply Policy.configDefault (some snap) (Bench.capacity wl t.ctx) (some (Bench.resizeRequest wl))
    (t.ctx, t.pool)).snd.snd.snd.fst
  rcases Policy.apply_context t.policy Policy.configDefault (some snap) (Bench.capacity wl t.ctx)
    (Bench.resizeRequest wl) (t.ctx, t.pool) with he | ⟨n, he⟩ <;> rw [he]
  · exact h
  · exact hrequest n

end

end Tally

namespace Bench

section

variable {r r' : BenchRun δ ω κ} {snap : Snapshot δ}

theorem noteMemory_tally (r : BenchRun δ ω κ) (snap : Snapshot δ) : (noteMemory r snap).tally = r.tally := by
  simp only [noteMemory, BenchRun.tally]
  split <;> rfl

variable [DoubleArith δ]

theorem notePressure_tally (r : BenchRun δ ω κ) (p : δ) : (notePressure r p).tally = r.tally := by
  simp only [notePressure, BenchRun.tally]
  split <;> split <;> (try split) <;> rfl

theorem notePercent_tally (r : BenchRun δ ω κ) (pct : δ) : (notePercent r pct).tally = r.tally := by
  simp only [notePercent, BenchRun.tally]
  split
  case isFalse => rfl
  case isTrue => split <;> (try split) <;> (try split) <;> rfl

theorem noteCpu_tally (h : noteCpu r snap t = some r') : r'.tally = r.tally := by
  rw [noteCpu] at h
  split at h
  case h_1 => cases h; rfl
  case h_2 =>
    split at h
    case isFalse => cases h; rfl
    case isTrue =>
      split at h <;> cases h
      exact notePercent_tally r _

theorem noteSnapshot_tally (h : noteSnapshot r got snap t = some r') : r'.tally = r.tally := by
  rw [noteSnapshot] at h
  split at h
  case isFalse => cases h; rfl
  case isTrue =>
    split at h <;> cases h
    case h_2 hc => exact (noteCpu_tally hc).trans <| (noteMemory_tally _ _).trans (notePressure_tally _ _)

theorem noteLatency_tally (r : BenchRun δ ω κ) (lat : δ) : (noteLatency r lat).tally = r.tally := by
  simp only [noteLatency, BenchRun.tally]
  split <;> (try split) <;> (try split) <;> rfl

theorem step_tally (env : BenchEnv δ) (wlStep : ω → UInt64 → Rc × Bool × ω) (i : UInt64) (r : BenchRun δ ω κ) :
    (step env wlStep i r).tally = r.tally.step wlStep i := by
  rw [step, Tally.step]
  change _ = match wlStep r.ctx i with | (.ok, true, ctx) => _ | (.ok, false, ctx) => _ | (_, _, ctx) => _
  rcases hs : wlStep r.ctx i with ⟨s, hit, ctx⟩
  by_cases hok : s = .ok
  case neg => cases s <;> first | exact absurd rfl hok | rfl
  case pos =>
    subst hok
    cases hit <;> exact noteLatency_tally _ _

-- A snapshot that a sample can get at a time.
def Takes (cfg : BenchConfig) (env : BenchEnv δ) (registry : Registry) (sampler : Option (Sampler δ κ)) (ticks : Nat)
    (snap : Snapshot δ) : Prop :=
  match sampler with
  | some sampler => ∃ ctx, snap = (sampler ctx .zero).snd.fst
  | none         => ∃ rc, Bridge.readContainer registry (env.files ticks) cfg.containerName .zero = some (rc, snap)

variable {cfg : BenchConfig} {wl : BenchWorkload ω} {env : BenchEnv δ} {registry : Registry}
  {sampler : Option (Sampler δ κ)}

theorem takes_of_takeSnapshot (h : takeSnapshot cfg env registry sampler r = some (got, snap, ctx)) :
    Takes cfg env registry sampler r.ticks snap := by
  cases sampler
  case some f => cases h; exact ⟨_, rfl⟩
  case none =>
    simp only [takeSnapshot] at h
    split at h <;> cases h
    case h_2 hr => exact ⟨_, hr⟩

-- What a run reports of its counts.
structure Reports (wl : BenchWorkload ω) (t : Tally ω) (res : BenchResult δ) : Prop where
  steps   : res.stepsRun = t.steps
  hits    : res.cacheHits = t.hits
  misses  : res.cacheMisses = t.misses
  errors  : res.fetchErrors = t.errors
  samples : res.resource.samples = t.samples
  pool    : res.pool = finishPool wl t.ctx t.pool

theorem finish_reports (wl : BenchWorkload ω) (r : BenchRun δ ω κ) : Reports wl r.tally (finish wl r) := by
  simp only [finish]
  split <;> split <;> split <;> exact ⟨rfl, rfl, rfl, rfl, rfl, rfl⟩

variable [OfScientific δ]

theorem sample_tally (h : sample cfg wl env registry sampler r = some r') :
    ∃ snap, Takes cfg env registry sampler r.ticks snap ∧ r'.tally = r.tally.sample wl snap.toResourceSnapshot := by
  rw [sample] at h
  split at h
  case h_1 => cases h
  case h_2 snap _ ht =>
    dsimp only at h
    split at h <;> cases h
    case h_2 r₁ hn =>
      refine ⟨snap, takes_of_takeSnapshot ht, ?_⟩
      change r₁.tally.adapt wl _ = _
      rw [noteSnapshot_tally hn]
      rfl

-- The counts after the iterations of a run that starts with `t₀`.
inductive Counts (cfg : BenchConfig) (wl : BenchWorkload ω) (env : BenchEnv δ) (registry : Registry)
    (sampler : Option (Sampler δ κ)) (wlStep : ω → UInt64 → Rc × Bool × ω) (t₀ : Tally ω) : Nat → Tally ω → Prop
  | start : Counts cfg wl env registry sampler wlStep t₀ 0 t₀
  | step (h : Counts cfg wl env registry sampler wlStep t₀ i t) (hi : i % (every cfg).toNat ≠ 0) :
      Counts cfg wl env registry sampler wlStep t₀ (i + 1) (t.step wlStep (UInt64.ofNat i))
  | sample (h : Counts cfg wl env registry sampler wlStep t₀ i t) (hi : i % (every cfg).toNat = 0)
      (ht : Takes cfg env registry sampler t.ticks s) :
      Counts cfg wl env registry sampler wlStep t₀ (i + 1)
        ((t.sample wl s.toResourceSnapshot).step wlStep (UInt64.ofNat i))

theorem loop_counts (h : loop cfg wl env registry sampler wlStep n (UInt64.ofNat i) r = some r') (hn : i + n < 2 ^ 64)
    (hc : Counts cfg wl env registry sampler wlStep t₀ i r.tally) :
    Counts cfg wl env registry sampler wlStep t₀ (i + n) r'.tally := by
  induction n generalizing i r
  case zero => cases h; exact hc
  case succ n ih =>
    have hlt : i < 2 ^ 64 := by omega
    have hi : (UInt64.ofNat i).toNat = i := UInt64.toNat_ofNat_of_lt' hlt
    have hsucc : UInt64.ofNat i + 1 = UInt64.ofNat (i + 1) := by rw [UInt64.ofNat_add]; rfl
    have hmod : UInt64.ofNat i % every cfg = 0 ↔ i % (every cfg).toNat = 0 := by
      rw [← UInt64.toNat_inj, UInt64.toNat_mod, hi]
      rfl
    rw [loop, hsucc] at h
    split at h
    case h_1 => cases h
    case h_2 r₁ hs =>
      rw [← Nat.add_assoc, Nat.add_right_comm]
      refine ih h (by omega) ?_
      rw [step_tally]
      split at hs
      case isFalse hm =>
        cases hs
        exact hc.step (mt hmod.mpr hm)
      case isTrue hm =>
        obtain ⟨snap, ht, hr⟩ := sample_tally hs
        rw [hr]
        exact hc.sample (hmod.mp hm) ht

-- What the steps of a workload and its resizes keep, its iterations keep.
theorem Counts.rule {J : ω → Prop} (hstep : ∀ c i, J c → J (wlStep c i).snd.snd)
    (hresize : ∀ f, wl.resize = some f → ∀ c n, J c → J (f c n).snd)
    (hc : Counts cfg wl env registry sampler wlStep t₀ i t) (h : J t₀.ctx) : J t.ctx := by
  induction hc
  case start => exact h
  case step ih => exact Tally.step_rule hstep ih _
  case sample s _ _ _ ih => exact Tally.step_rule hstep (Tally.sample_rule hresize ih s.toResourceSnapshot) _

-- The container of a run, which there is only when it manages one.
def Enters (cfg : BenchConfig) (env : BenchEnv δ) (registry : Registry) (rc : Rc) (bound : Bool) (inside : Registry) : Prop :=
  (if cfg.manageContainer then enterContainer cfg env registry else (.ok, false, registry)) = (rc, bound, inside)

def leave (cfg : BenchConfig) (env : BenchEnv δ) (registry : Registry) : Registry :=
  if cfg.manageContainer then cleanup cfg env registry else registry

-- How a run ends. The result says nothing when it does not complete.
inductive Ends (cfg : BenchConfig) (wl : BenchWorkload ω) (env : BenchEnv δ) (registry : Registry)
    (sampler : Option (Sampler δ κ)) (ctx : ω) : Rc → BenchResult δ → ω → Registry → Prop
  | refused : Ends cfg wl env registry sampler ctx .invalid res ctx registry
  | unentered (entered : Enters cfg env registry rc bound inside) (hrc : rc ≠ .ok) :
      Ends cfg wl env registry sampler ctx rc res ctx inside
  | unopened (entered : Enters cfg env registry .ok bound inside) (hopen : wl.open = some wlOpen)
      (opened : wlOpen ctx cfg = (rc, ctx')) (hrc : rc ≠ .ok) :
      Ends cfg wl env registry sampler ctx rc res ctx' (leave cfg env inside)
  | completed (readings : cfg.manageContainer ∨ sampler.isSome) (entered : Enters cfg env registry .ok bound inside)
      (hopen : wl.open = some wlOpen)
      (hstep : wl.step = some wlStep) (hclose : wl.close = some wlClose) (opened : wlOpen ctx cfg = (.ok, ctx₀))
      (counts : Counts cfg wl env inside sampler wlStep (.begin wl ctx₀) cfg.iterations.toNat t)
      (last : Takes cfg env inside sampler t.ticks s) (reports : Reports wl (t.sample wl s.toResourceSnapshot) res) :
      Ends cfg wl env registry sampler ctx .ok res (wlClose (t.sample wl s.toResourceSnapshot).ctx) (leave cfg env inside)

theorem run_ends (h : run cfg wl env registry sampler samplerCtx ctx out = some (rc, res, ctx', registry')) :
    Ends cfg wl env registry sampler ctx rc res ctx' registry' := by
  rw [run] at h
  split at h
  case h_2 => cases h; exact .refused
  case h_1 hopen hstep hclose =>
    split at h
    case isTrue => cases h; exact .refused
    case isFalse hreadings =>
      have hreadings : cfg.manageContainer ∨ sampler.isSome := by
        revert hreadings
        cases cfg.manageContainer <;> cases sampler <;> simp
      split at h
      case h_1 rc bound inside hin =>
        dsimp only at h
        split at h
        case isTrue hrc => cases h; exact .unentered hin hrc
        case isFalse hrc =>
          cases not_not.mp hrc
          split at h
          case h_2 hrc ho => cases h; exact .unopened hin hopen ho hrc
          case h_1 ctx₀ ho =>
            split at h
            case h_1 => cases h
            case h_2 r hl =>
              split at h <;> cases h
              case h_2 r' hs =>
                have hc : Counts cfg wl env inside sampler _ (.begin wl ctx₀) (0 + cfg.iterations.toNat) r.tally :=
                  loop_counts hl (by simpa using cfg.iterations.toNat_lt) .start
                obtain ⟨snap, ht, hr⟩ := sample_tally hs
                rw [Nat.zero_add] at hc
                have hreports := finish_reports wl r'
                have hctx : r'.ctx = (r.tally.sample wl snap.toResourceSnapshot).ctx := hr ▸ rfl
                rw [hr] at hreports
                rw [hctx]
                exact .completed hreadings hin hopen hstep hclose ho hc ht hreports

-- What a run leaves of its workload, however it ends.
theorem run_rule {J : ω → Prop} (hopen : ∀ f c, wl.open = some f → f ctx cfg = (.ok, c) → J c)
    (hstep : ∀ f, wl.step = some f → ∀ c i, J c → J (f c i).snd.snd)
    (hresize : ∀ f, wl.resize = some f → ∀ c n, J c → J (f c n).snd)
    (h : run cfg wl env registry sampler samplerCtx ctx out = some (rc, res, ctx', registry')) :
    ctx' = ctx ∨ (∃ f, wl.open = some f ∧ f ctx cfg = (rc, ctx') ∧ rc ≠ .ok) ∨
      ∃ f c, wl.close = some f ∧ J c ∧ ctx' = f c := by
  cases run_ends h
  case refused => exact .inl rfl
  case unentered => exact .inl rfl
  case unopened _ ho hrc opened => exact .inr <| .inl ⟨_, ho, opened, hrc⟩
  case completed _ ho hs hclose opened counts _ _ =>
    have hj := counts.rule (hstep _ hs) hresize (hopen _ _ ho opened)
    exact .inr <| .inr ⟨_, _, hclose, Tally.sample_rule hresize hj _, rfl⟩

end

end Bench
end NexusDb
