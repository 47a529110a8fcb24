import NexusDb.Benchmark.Theorems.Container

namespace NexusDb

-- The decisions of the samples so far, and what is known of those that are requests.
structure PoolStats.Records (J : Nat → AdaptAction → Prop) (actions : List AdaptAction) (pool : PoolStats) : Prop where
  grow      : pool.growRequests = UInt64.ofNat (actions.count .grow)
  shrink    : pool.shrinkRequests = UInt64.ofNat (actions.count .shrink)
  hold      : pool.holdDecisions = UInt64.ofNat (actions.count .hold)
  justified : ∀ k action, actions[k]? = some action → action ≠ .hold → J k action

namespace PoolStats.Records

variable {J : Nat → AdaptAction → Prop} {actions : List AdaptAction} {pool : PoolStats}

theorem seen (h : pool.Records J actions) (cap : UInt64) : (pool.seen cap).Records J actions := by
  obtain ⟨lo, hi, he, _⟩ := seen_range pool cap
  rw [he]
  exact ⟨h.grow, h.shrink, h.hold, h.justified⟩

theorem justified_snoc (h : pool.Records J actions) (ha : action ≠ .hold → J actions.length action) (k : Nat)
    (a : AdaptAction) (hk : (actions ++ [action])[k]? = some a) (hne : a ≠ .hold) : J k a := by
  rcases Nat.lt_trichotomy k actions.length with hlt | rfl | hlt
  · rw [List.getElem?_append_left hlt] at hk
    exact h.justified k a hk hne
  · rw [List.getElem?_concat_length] at hk
    cases hk
    exact ha hne
  · rw [List.getElem?_eq_none (by rw [List.length_append, List.length_singleton]; omega)] at hk
    cases hk

theorem decision (h : pool.Records J actions) (rc : Rc) (ha : action ≠ .hold → J actions.length action) :
    (Bench.countDecision pool rc action).Records J (actions ++ [action]) := by
  have hpool : Records J actions (if rc ≠ .ok then { pool with failedResizes := pool.failedResizes + 1 } else pool) := by
    split <;> exact ⟨h.grow, h.shrink, h.hold, h.justified⟩
  simp only [Bench.countDecision]
  generalize (if rc ≠ .ok then { pool with failedResizes := pool.failedResizes + 1 } else pool) = pool at hpool
  have hj := hpool.justified_snoc ha
  cases action
  all_goals
    refine ⟨?_, ?_, ?_, hj⟩
    all_goals simp [hpool.grow, hpool.shrink, hpool.hold]

end PoolStats.Records

namespace Bench

-- What the clock has counted when the sample with this number is taken: each iteration reads it twice, and each sample
-- once. The last sample is taken after the iterations.
def sampleTick (cfg : BenchConfig) (k : Nat) : Nat :=
  2 * min (k * (every cfg).toNat) cfg.iterations.toNat + k

theorem mul_sampled (hi : i % (every cfg).toNat = 0) : sampled cfg i * (every cfg).toNat = i := by
  have hpos := every_pos cfg
  obtain ⟨n, rfl⟩ := Nat.dvd_of_mod_eq_zero hi
  rw [sampled, Nat.add_sub_assoc hpos, Nat.mul_add_div hpos, Nat.div_eq_of_lt (by omega), Nat.add_zero, Nat.mul_comm]

theorem Reports.records {wl : BenchWorkload ω} {t : Tally ω} {res : BenchResult δ} (h : Reports wl t res)
    (hr : t.pool.Records J actions) : res.pool.Records J actions := by
  obtain ⟨_, _, hpool⟩ := finishPool_pool wl t.ctx t.pool
  have hr' : PoolStats.Records J actions { t.pool with endFrames := capacity wl t.ctx } :=
    ⟨hr.grow, hr.shrink, hr.hold, hr.justified⟩
  have ⟨hgrow, hshrink, hhold, hj⟩ := hr'.seen (capacity wl t.ctx)
  rw [h.pool, hpool]
  exact ⟨hgrow, hshrink, hhold, hj⟩

section

variable [DoubleArith δ] [OfScientific δ] {cfg : BenchConfig} {wl : BenchWorkload ω} {env : BenchEnv δ}
  {r r' : Registry} {t : Tally ω} {J : Nat → AdaptAction → Prop} {actions : List AdaptAction}

theorem records_sample (wl : BenchWorkload ω) (hv : Policy.configValid (Policy.configDefault : PolicyConfig δ))
    (h : t.pool.Records J actions) (snap : ResourceSnapshot δ)
    (hs : Policy.direction Policy.configDefault (some snap) ≠ .hold →
      J actions.length (Policy.direction Policy.configDefault (some snap))) :
    ∃ action, (t.sample wl snap).pool.Records J (actions ++ [action]) := by
  rw [Tally.sample]
  rcases Tally.adapt_cases hv wl { t with samples := t.samples + 1, ticks := t.ticks + 1 } snap with
    he | ⟨_, rc, _, pool, _, _, _, hr, he⟩
  · rw [he]
    exact ⟨.hold, h.decision .ok fun hne => absurd rfl hne⟩
  · have hpool : pool.Records J actions := by
      rcases resizeRequest_pool hr with hp | hp <;> rw [hp]
      · exact h
      · exact h.seen _
    rw [he]
    exact ⟨_, hpool.decision rc hs⟩

theorem ticks_sample (hv : Policy.configValid (Policy.configDefault : PolicyConfig δ)) (snap : ResourceSnapshot δ) :
    (t.sample wl snap).ticks = t.ticks + 1 := by
  rw [Tally.sample]
  rcases Tally.adapt_cases hv wl { t with samples := t.samples + 1, ticks := t.ticks + 1 } snap with
    he | ⟨_, _, _, _, _, _, _, _, he⟩ <;> rw [he]

theorem step_ticks (wlStep : ω → UInt64 → Rc × Bool × ω) (i : UInt64) (t : Tally ω) :
    (t.step wlStep i).ticks = t.ticks + 2 ∧ (t.step wlStep i).pool = t.pool := by
  rw [Tally.step]
  split <;> exact ⟨rfl, rfl⟩

-- Each sample of the iterations has a decision, for which there was a reason at its time.
theorem Counts.records (hc : Counts cfg wl env r sampler wlStep (.begin wl ctx) i t)
    (hv : Policy.configValid (Policy.configDefault : PolicyConfig δ)) (hi : i ≤ cfg.iterations.toNat)
    (hs : ∀ ticks snap, Takes cfg env r sampler ticks snap →
      Policy.direction Policy.configDefault (some snap.toResourceSnapshot) ≠ .hold →
      J ticks (Policy.direction Policy.configDefault (some snap.toResourceSnapshot))) :
    t.ticks = 2 * i + sampled cfg i ∧
    ∃ actions, actions.length = sampled cfg i ∧ t.pool.Records (fun k => J (sampleTick cfg k)) actions := by
  induction hc
  case start =>
    rw [sampled_zero]
    refine ⟨rfl, [], rfl, rfl, rfl, rfl, fun _ _ hk => ?_⟩
    cases hk
  case step hm ih =>
    obtain ⟨hticks, actions, hlength, hrecords⟩ := ih (by omega)
    obtain ⟨hstep, hpool⟩ := step_ticks wlStep (UInt64.ofNat _) _
    rw [hstep, hpool, sampled_succ, if_neg hm]
    exact ⟨by omega, actions, hlength, hrecords⟩
  case sample i t snap _ hm ht ih =>
    obtain ⟨hticks, actions, hlength, hrecords⟩ := ih (by omega)
    obtain ⟨hstep, hpool⟩ := step_ticks wlStep (UInt64.ofNat i) (t.sample wl snap.toResourceSnapshot)
    have htick : sampleTick cfg actions.length = t.ticks := by
      rw [sampleTick, hlength, mul_sampled hm, Nat.min_eq_left (by omega), hticks]
    obtain ⟨action, hrecords⟩ := records_sample wl hv hrecords snap.toResourceSnapshot
      (fun hne => htick ▸ hs _ _ ht hne)
    rw [hstep, hpool, ticks_sample hv, sampled_succ, if_pos hm]
    exact ⟨by omega, actions ++ [action], by rw [List.length_append, List.length_singleton, hlength], hrecords⟩

end

end Bench
end NexusDb
