import NexusDb.Benchmark.Theorems.Harness

namespace NexusDb

theorem toNat_add_one {n : UInt64} (h : n.toNat + 1 < 2 ^ 64) : (n + 1).toNat = n.toNat + 1 := by
  rw [UInt64.toNat_add, UInt64.toNat_one]
  exact Nat.mod_eq_of_lt h

-- The decisions of `n` samples. Only requests can fail, and the frames are in the range that was seen.
structure PoolStats.Decided (n : Nat) (pool : PoolStats) : Prop where
  all    : pool.growRequests.toNat + pool.shrinkRequests.toNat + pool.holdDecisions.toNat = n
  failed : pool.failedResizes.toNat ≤ pool.growRequests.toNat + pool.shrinkRequests.toNat
  low    : pool.minFrames ≤ pool.startFrames
  high   : pool.startFrames ≤ pool.maxFrames

-- The range with one more number of frames.
def PoolStats.seen (pool : PoolStats) (cap : UInt64) : PoolStats :=
  let pool := if cap > pool.maxFrames then { pool with maxFrames := cap } else pool
  if cap < pool.minFrames then { pool with minFrames := cap } else pool

namespace PoolStats

variable {pool : PoolStats}

theorem seen_range (pool : PoolStats) (cap : UInt64) :
    ∃ lo hi, pool.seen cap = { pool with minFrames := lo, maxFrames := hi } ∧
      lo ≤ pool.minFrames ∧ lo ≤ cap ∧ pool.maxFrames ≤ hi ∧ cap ≤ hi := by
  simp only [seen]
  split <;> split
  case isTrue.isTrue h h' => exact ⟨_, _, rfl, UInt64.le_of_lt h', UInt64.le_refl _, UInt64.le_of_lt h, UInt64.le_refl _⟩
  case isTrue.isFalse h h' => exact ⟨_, _, rfl, UInt64.le_refl _, UInt64.not_lt.mp h', UInt64.le_of_lt h, UInt64.le_refl _⟩
  case isFalse.isTrue h h' => exact ⟨_, _, rfl, UInt64.le_of_lt h', UInt64.le_refl _, UInt64.le_refl _, UInt64.not_lt.mp h⟩
  case isFalse.isFalse h h' => exact ⟨_, _, rfl, UInt64.le_refl _, UInt64.not_lt.mp h', UInt64.le_refl _, UInt64.not_lt.mp h⟩

theorem Decided.seen (h : pool.Decided n) (cap : UInt64) : (pool.seen cap).Decided n := by
  obtain ⟨lo, hi, he, hmin, _, hmax, _⟩ := seen_range pool cap
  rw [he]
  exact ⟨h.all, h.failed, UInt64.le_trans hmin h.low, UInt64.le_trans h.high hmax⟩

end PoolStats

namespace Bench

theorem countDecision_decided {pool : PoolStats} (h : pool.Decided n) (hn : n + 1 < 2 ^ 64)
    (ha : rc ≠ .ok → action ≠ .hold) : (countDecision pool rc action).Decided (n + 1) := by
  have ⟨hall, hfailed, hlow, hhigh⟩ := h
  have hf : (pool.failedResizes + 1).toNat = pool.failedResizes.toNat + 1 := toNat_add_one (by omega)
  have hg : (pool.growRequests + 1).toNat = pool.growRequests.toNat + 1 := toNat_add_one (by omega)
  have hs : (pool.shrinkRequests + 1).toNat = pool.shrinkRequests.toNat + 1 := toNat_add_one (by omega)
  have hh : (pool.holdDecisions + 1).toNat = pool.holdDecisions.toNat + 1 := toNat_add_one (by omega)
  by_cases hrc : rc = .ok
  case pos =>
    simp only [countDecision, if_neg (not_not.mpr hrc)]
    cases action
    case hold => exact ⟨by simp only [hh]; omega, hfailed, hlow, hhigh⟩
    case grow => exact ⟨by simp only [hg]; omega, by simp only [hg]; omega, hlow, hhigh⟩
    case shrink => exact ⟨by simp only [hs]; omega, by simp only [hs]; omega, hlow, hhigh⟩
  case neg =>
    simp only [countDecision, if_pos (show rc ≠ .ok from hrc)]
    cases action
    case hold => exact absurd rfl (ha hrc)
    case grow => exact ⟨by simp only [hg]; omega, by simp only [hg, hf]; omega, hlow, hhigh⟩
    case shrink => exact ⟨by simp only [hs]; omega, by simp only [hs, hf]; omega, hlow, hhigh⟩

theorem countDecision_range (pool : PoolStats) (rc : Rc) (action : AdaptAction) :
    (countDecision pool rc action).minFrames = pool.minFrames ∧
      (countDecision pool rc action).maxFrames = pool.maxFrames := by
  by_cases hrc : rc = .ok <;> cases action <;> simp [countDecision, hrc]

-- A request only widens the range of the frames that were seen.
theorem resizeRequest_some {f : ω → UInt64 → Rc × ω} (h : wl.resize = some f) (ctx : ω) (pool : PoolStats) (target : UInt64) :
    resizeRequest wl (ctx, pool) target =
      ((f ctx target).fst, (f ctx target).snd, pool.seen (capacity wl (f ctx target).snd)) := by
  rw [resizeRequest, h]
  rfl

theorem resizeRequest_pool {pool pool' : PoolStats} (h : resizeRequest wl (ctx, pool) target = (rc, ctx', pool')) :
    pool' = pool ∨ pool' = pool.seen (capacity wl ctx') := by
  cases hf : wl.resize
  case none =>
    rw [resizeRequest, hf] at h
    cases h
    exact .inl rfl
  case some f =>
    rw [resizeRequest_some hf] at h
    cases h
    exact .inr rfl

end Bench

namespace Tally

variable [Double δ] [OfScientific δ] {wl : BenchWorkload ω} {t : Tally ω}

theorem adapt_eq {snap : ResourceSnapshot δ} {d : AdaptDecision δ} {ctx : ω} {policy : Policy} {pool : PoolStats}
    (h : t.policy.apply Policy.configDefault (some snap) (Bench.capacity wl t.ctx) (some (Bench.resizeRequest wl))
      (t.ctx, t.pool) = (rc, policy, d, ctx, pool)) :
    t.adapt wl snap = { t with ctx, policy, pool := Bench.countDecision pool rc d.action } := by
  rw [adapt, h]

-- A sample asks for nothing, or it asks the workload for what the reading calls for.
theorem adapt_cases (hv : Policy.configValid (Policy.configDefault : PolicyConfig δ)) (wl : BenchWorkload ω) (t : Tally ω)
    (snap : ResourceSnapshot δ) :
    t.adapt wl snap = { t with pool := Bench.countDecision t.pool .ok .hold } ∨
    ∃ target rc ctx pool policy,
      Policy.wanted Policy.configDefault (some snap) (Bench.capacity wl t.ctx) = some target ∧
      Policy.direction Policy.configDefault (some snap) ≠ .hold ∧
      Bench.resizeRequest wl (t.ctx, t.pool) target = (rc, ctx, pool) ∧
      t.adapt wl snap = { t with
        ctx, policy, pool := Bench.countDecision pool rc (Policy.direction Policy.configDefault (some snap)) } := by
  rcases he : t.policy.evaluate Policy.configDefault (some snap) (Bench.capacity wl t.ctx) with ⟨code, policy, d⟩
  cases Policy.evaluate_ok hv he
  have hhold : policy = t.policy → d.action = .hold →
      t.adapt wl snap = { t with pool := Bench.countDecision t.pool .ok .hold } := by
    intro hp hact
    rw [adapt_eq (Policy.apply_hold he hact), hp, hact]
  rcases Policy.evaluate_wanted he with ⟨_, hp, hact, _⟩ | ⟨target, hw, _, ⟨_, _, hp, hact, _⟩ | ⟨_, hp, hact, ht, _⟩⟩
  · exact .inl (hhold hp hact)
  · exact .inl (hhold hp hact)
  · have hne : Policy.direction Policy.configDefault (some snap) ≠ .hold := by
      intro hd
      rw [Policy.wanted, hd] at hw
      cases hw
    rcases hr : Bench.resizeRequest wl (t.ctx, t.pool) target with ⟨rc, ctx, pool⟩
    have ha := Policy.apply_some he (hact ▸ hne) (ht ▸ hr)
    by_cases hrc : rc = .ok
    case pos =>
      rw [if_pos hrc] at ha
      exact .inr ⟨target, rc, ctx, pool, _, hw, hne, hr, by rw [adapt_eq ha, hact, hrc]⟩
    case neg =>
      rw [if_neg hrc] at ha
      exact .inr ⟨target, rc, ctx, pool, _, hw, hne, hr, by rw [adapt_eq ha, hact]⟩

-- The counts after `i` steps and `n` samples.
structure Counted (i n : Nat) (t : Tally ω) : Prop where
  steps   : t.steps.toNat + t.errors.toNat = i
  hits    : t.hits.toNat + t.misses.toNat = t.steps.toNat
  samples : t.samples.toNat = n
  decided : t.pool.Decided n

theorem counted_begin (wl : BenchWorkload ω) (ctx : ω) : (begin wl ctx).Counted 0 0 :=
  ⟨rfl, rfl, rfl, ⟨rfl, Nat.le_refl _, UInt64.le_refl _, UInt64.le_refl _⟩⟩

theorem Counted.step (h : t.Counted i n) (hi : i + 1 < 2 ^ 64) (wlStep : ω → UInt64 → Rc × Bool × ω) (j : UInt64) :
    (t.step wlStep j).Counted (i + 1) n := by
  have ⟨hsteps, hhits, hsamples, hdecided⟩ := h
  have hs : (t.steps + 1).toNat = t.steps.toNat + 1 := toNat_add_one (by omega)
  rw [Tally.step]
  split
  case h_1 =>
    have hh : (t.hits + 1).toNat = t.hits.toNat + 1 := toNat_add_one (by omega)
    exact ⟨by simp only [hs]; omega, by simp only [hs, hh]; omega, hsamples, hdecided⟩
  case h_2 =>
    have hm : (t.misses + 1).toNat = t.misses.toNat + 1 := toNat_add_one (by omega)
    exact ⟨by simp only [hs]; omega, by simp only [hs, hm]; omega, hsamples, hdecided⟩
  case h_3 =>
    have he : (t.errors + 1).toNat = t.errors.toNat + 1 := toNat_add_one (by omega)
    exact ⟨by simp only [he]; omega, hhits, hsamples, hdecided⟩

theorem Counted.sample (h : t.Counted i n) (hn : n + 1 < 2 ^ 64)
    (hv : Policy.configValid (Policy.configDefault : PolicyConfig δ)) (wl : BenchWorkload ω) (snap : ResourceSnapshot δ) :
    (t.sample wl snap).Counted i (n + 1) := by
  have ⟨hsteps, hhits, hsamples, hdecided⟩ := h
  have hs : (t.samples + 1).toNat = n + 1 := hsamples ▸ toNat_add_one (by omega)
  rw [Tally.sample]
  rcases adapt_cases hv wl { t with samples := t.samples + 1, ticks := t.ticks + 1 } snap with he | ⟨_, rc, _, pool, _, _, hne, hr, he⟩
  · have hpool : (Bench.countDecision t.pool .ok .hold).Decided (n + 1) :=
      Bench.countDecision_decided hdecided hn fun h => absurd rfl h
    rw [he]
    exact ⟨hsteps, hhits, hs, hpool⟩
  · have hpool : pool.Decided n := by
      rcases Bench.resizeRequest_pool hr with hp | hp <;> rw [hp]
      · exact hdecided
      · exact hdecided.seen _
    rw [he]
    exact ⟨hsteps, hhits, hs, Bench.countDecision_decided hpool hn fun _ => hne⟩

end Tally

namespace Bench

theorem every_pos (cfg : BenchConfig) : 0 < (every cfg).toNat := by
  rw [every]
  split
  case isTrue => decide
  case isFalse h => exact Nat.pos_of_ne_zero fun hz => h (UInt64.toNat_inj.mp hz)

-- How many of the first `i` iterations start with a sample.
def sampled (cfg : BenchConfig) (i : Nat) : Nat :=
  (i + (every cfg).toNat - 1) / (every cfg).toNat

theorem sampled_zero (cfg : BenchConfig) : sampled cfg 0 = 0 := by
  have hpos := every_pos cfg
  exact Nat.div_eq_of_lt (by omega)

theorem sampled_succ (cfg : BenchConfig) (i : Nat) :
    sampled cfg (i + 1) = sampled cfg i + if i % (every cfg).toNat = 0 then 1 else 0 := by
  have hpos := every_pos cfg
  have hs : i + 1 + (every cfg).toNat - 1 = i + (every cfg).toNat - 1 + 1 := by omega
  have hd : (every cfg).toNat ∣ i + (every cfg).toNat - 1 + 1 ↔ i % (every cfg).toNat = 0 := by
    rw [show i + (every cfg).toNat - 1 + 1 = i + (every cfg).toNat by omega, Nat.dvd_add_self_right,
      Nat.dvd_iff_mod_eq_zero]
  rw [sampled, sampled, hs, Nat.succ_div]
  simp only [hd]

theorem sampled_le (cfg : BenchConfig) (i : Nat) : sampled cfg i ≤ i := by
  induction i
  case zero => exact Nat.le_of_eq (sampled_zero cfg)
  case succ i ih =>
    rw [sampled_succ]
    split <;> omega

section

variable [DoubleArith δ] [OfScientific δ] {cfg : BenchConfig} {wl : BenchWorkload ω} {env : BenchEnv δ} {registry : Registry}
  {sampler : Option (Sampler δ κ)}

theorem Counts.counted (h : Counts cfg wl env registry sampler wlStep (.begin wl ctx) i t)
    (hv : Policy.configValid (Policy.configDefault : PolicyConfig δ)) (hi : i < 2 ^ 64) :
    t.Counted i (sampled cfg i) := by
  induction h
  case start =>
    rw [sampled_zero]
    exact Tally.counted_begin wl ctx
  case step i t _ hm ih =>
    rw [sampled_succ, if_neg hm]
    exact (ih (by omega)).step hi wlStep _
  case sample i t s _ hm _ ih =>
    have hle := sampled_le cfg i
    rw [sampled_succ, if_pos hm]
    exact ((ih (by omega)).sample (by omega) hv wl _).step hi wlStep _

end

-- The frames at the end are in the range, too.
theorem finishPool_pool (wl : BenchWorkload ω) (ctx : ω) (pool : PoolStats) :
    ∃ resident pinned, finishPool wl ctx pool =
      { { pool with endFrames := capacity wl ctx }.seen (capacity wl ctx) with
        residentLast := resident, pinnedLast := pinned } := by
  rw [finishPool]
  cases wl.resident <;> cases wl.pinned <;> exact ⟨_, _, rfl⟩

section

variable {wl : BenchWorkload ω} {t : Tally ω} {res : BenchResult δ}

theorem Reports.range (h : Reports wl t res) :
    (res.pool.minFrames ≤ t.pool.minFrames ∧ t.pool.maxFrames ≤ res.pool.maxFrames) ∧
      res.pool.minFrames ≤ res.pool.endFrames ∧ res.pool.endFrames ≤ res.pool.maxFrames := by
  obtain ⟨_, _, hpool⟩ := finishPool_pool wl t.ctx t.pool
  obtain ⟨lo, hi, he, hmin, hlo, hmax, hhi⟩ :=
    PoolStats.seen_range { t.pool with endFrames := capacity wl t.ctx } (capacity wl t.ctx)
  rw [h.pool, hpool, he]
  exact ⟨⟨hmin, hmax⟩, hlo, hhi⟩

theorem Reports.decided (h : Reports wl t res) (hd : t.pool.Decided n) : res.pool.Decided n := by
  obtain ⟨_, _, hpool⟩ := finishPool_pool wl t.ctx t.pool
  have hd' : ({ t.pool with endFrames := capacity wl t.ctx }).Decided n := ⟨hd.all, hd.failed, hd.low, hd.high⟩
  have ⟨hall, hfailed, hlow, hhigh⟩ := hd'.seen (capacity wl t.ctx)
  rw [h.pool, hpool]
  exact ⟨hall, hfailed, hlow, hhigh⟩

end

-- The books of a run balance: every iteration is a step or an error, every step is a hit or a miss, every sample has one
-- decision, and the frames at the start and at the end are in the range that was seen.
theorem run_accounts [DoubleArith δ] [OfScientific δ] {cfg : BenchConfig} {wl : BenchWorkload ω} {env : BenchEnv δ}
    {sampler : Option (Sampler δ κ)} (hv : Policy.configValid (Policy.configDefault : PolicyConfig δ))
    (hi : cfg.iterations.toNat + 1 < 2 ^ 64)
    (h : run cfg wl env registry sampler samplerCtx ctx out = some (.ok, res, ctx', registry')) :
    res.stepsRun.toNat + res.fetchErrors.toNat = cfg.iterations.toNat ∧
    res.cacheHits.toNat + res.cacheMisses.toNat = res.stepsRun.toNat ∧
    res.resource.samples.toNat = sampled cfg cfg.iterations.toNat + 1 ∧
    res.pool.Decided res.resource.samples.toNat ∧
    res.pool.minFrames ≤ res.pool.endFrames ∧ res.pool.endFrames ≤ res.pool.maxFrames := by
  cases run_ends h
  case unentered hrc _ => exact absurd rfl hrc
  case unopened hrc _ => exact absurd rfl hrc
  case completed t s _ _ _ _ _ _ counts _ reports =>
    have hle := sampled_le cfg cfg.iterations.toNat
    have ⟨hsteps, hhits, hsamples, hdecided⟩ :=
      (counts.counted hv (by omega)).sample (by omega) hv wl s.toResourceSnapshot
    rw [reports.steps, reports.errors, reports.hits, reports.misses, reports.samples, hsamples]
    exact ⟨hsteps, hhits, rfl, reports.decided hdecided, reports.range.right⟩

end Bench

instance : DoubleArith ℚ where
  add          := (· + ·)
  sub          := (· - ·)
  minusOne     := -1
  toLongLong q := if -9223372036854775808 ≤ q ∧ q < 9223372036854775808 then some (q.num.tdiv q.den) else none

namespace Bench

theorem configDefault_valid : Policy.configValid (Policy.configDefault : PolicyConfig ℚ) := by
  decide +kernel

-- Whether a run completes with a result and a registry of this kind.
def completesWith (ended : Mem (Rc × BenchResult δ × ω × Registry)) (check : BenchResult δ → Registry → Bool) : Bool :=
  match ended with
  | some (.ok, res, _, registry) => check res registry
  | _                            => false

theorem exists_of_completesWith {ended : Mem (Rc × BenchResult δ × ω × Registry)} (h : completesWith ended check) :
    ∃ res ctx registry, ended = some (.ok, res, ctx, registry) ∧ check res registry := by
  unfold completesWith at h
  split at h
  case h_1 res ctx registry => exact ⟨res, ctx, registry, rfl, h⟩
  case h_2 => cases h

-- A workload that is only a number of frames. Its second step fails, and it cannot be shrunk.
def numbered : BenchWorkload UInt64 where
  «open»   := some fun _ cfg => (.ok, cfg.poolFramesStart)
  step     := some fun c i => (if i = 1 then .process else .ok, i = 2, c)
  capacity := some id
  resident := none
  pinned   := none
  resize   := some fun c target => if target < c then (.process, c) else (.ok, target)
  close    := some id

-- The first sample and the last one call for fewer frames, the one between them for more.
def scripted : Sampler ℚ Nat
  | n, _ => (.ok, { Policy.pressed with
      memoryPressure := if n = 1 then 0 else 9 / 10, memoryCurrent := 0, hasCpu := true, cpuUsageUsec := 0 }, n + 1)

def threeSteps : BenchConfig :=
  { iterations := 3, sampleEvery := 2, poolFramesStart := 64, manageContainer := false }

def quiet : BenchEnv ℚ where
  now n     := n
  files _ _ := none
  create    := {}
  stopOld   := {}
  deleteOld := {}
  recreate  := {}
  bindSelf  := false
  start     := {}
  stop      := {}
  delete    := {}

theorem run_accounts_scripted : ∃ res ctx registry,
    run threeSteps numbered quiet {} (some scripted) 0 0 (begin threeSteps) = some (.ok, res, ctx, registry) ∧
    res.stepsRun = 2 ∧ res.fetchErrors = 1 ∧ res.cacheHits = 1 ∧ res.pool.shrinkRequests = 2 ∧
    res.pool.growRequests = 1 ∧ res.pool.failedResizes = 2 ∧
    (res.stepsRun.toNat + res.fetchErrors.toNat = threeSteps.iterations.toNat ∧
      res.cacheHits.toNat + res.cacheMisses.toNat = res.stepsRun.toNat ∧
      res.resource.samples.toNat = sampled threeSteps threeSteps.iterations.toNat + 1 ∧
      res.pool.Decided res.resource.samples.toNat ∧
      res.pool.minFrames ≤ res.pool.endFrames ∧ res.pool.endFrames ≤ res.pool.maxFrames) := by
  have hrun : completesWith (run threeSteps numbered quiet {} (some scripted) 0 0 (begin threeSteps)) fun res _ =>
      decide (res.stepsRun = 2 ∧ res.fetchErrors = 1 ∧ res.cacheHits = 1 ∧ res.pool.shrinkRequests = 2 ∧
        res.pool.growRequests = 1 ∧ res.pool.failedResizes = 2) := by decide +kernel
  obtain ⟨res, ctx, registry, h, hres⟩ := exists_of_completesWith hrun
  obtain ⟨hsteps, herrors, hhits, hshrink, hgrow, hfailed⟩ := of_decide_eq_true hres
  exact ⟨res, ctx, registry, h, hsteps, herrors, hhits, hshrink, hgrow, hfailed,
    run_accounts configDefault_valid (by decide) h⟩

end Bench
end NexusDb
