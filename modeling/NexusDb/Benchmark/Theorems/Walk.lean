import NexusDb.Benchmark.Theorems.EngineWorkload
import NexusDb.Buffer.Theorems.LruCache

namespace NexusDb

namespace BufferPool

open Bench

variable {p q : BufferPool Disk} {c : LruCache PageId} {id : PageId}

theorem contains_iff (h : p.Caches c) : p.contains id ↔ id ∈ c.keys := by
  rw [h.resident, contains, findFrame_isSome]

-- A page is fetched, maybe marked dirty, and given up.
theorem Caches.use {s : PageStorage} (h : p.Caches c) (hm : p.Mirrors s) (hn : p.fetches < maxStamp)
    (hf : p.fetch id = (.ok i, q)) (dirty : Prop) [Decidable dirty] :
    let q' := (if dirty then q.markDirty i else q).unpinFrame i
    q'.Mirrors s ∧ q'.Caches (c.access id) ∧ q'.fetches = p.fetches + 1 ∧ q'.capacity = p.capacity := by
  have hc := h.fetch hm.serves.inv hm.serves.pins (hm.serves.clock hn) hn hf
  obtain ⟨_, hfetches, _⟩ := hm.serves.fetch_ok hf
  obtain ⟨hclean, hdirty⟩ := hm.fetch hf
  have hall : ∀ d, ((q.edit i d).unpinFrame i).Caches (c.access id) ∧
      ((q.edit i d).unpinFrame i).fetches = p.fetches + 1 ∧ ((q.edit i d).unpinFrame i).capacity = p.capacity := by
    intro d
    have hc := (hc.edit i d).unpin i
    exact ⟨hc, ((edit_stamps q i d).trans (.unpin _ i)).fetches.trans hfetches, hc.capacity.symm.trans h.capacity⟩
  dsimp only
  split
  case isTrue => exact ⟨hdirty, hall (some _)⟩
  case isFalse => exact ⟨hclean, hall none⟩

-- A request changes how many of its most recently used pages the pool holds.
theorem Caches.request {s : PageStorage} (h : p.Caches c) (hm : p.Mirrors s)
    (hr : bufferPoolRequest a p n = (rc, q)) :
    q.fetches = p.fetches ∧ ∃ c', q.Caches c' ∧ c'.keys = c.keys.take c'.capacity := by
  have hsame : c.keys = c.keys.take c.capacity := (List.take_of_length_le c.bound).symm
  rw [bufferPoolRequest] at hr
  split at hr
  case isTrue => cases hr; exact ⟨rfl, c, h, hsame⟩
  case isFalse =>
    split at hr <;> cases hr
    case h_1 hr => exact ⟨(resize_stamps hr).fetches, _, h.resize hm.serves.inv hm.serves.pins hr, rfl⟩
    case h_2 hr => exact ⟨(resize_stamps hr).fetches, c, h.resize_failed hr, hsame⟩

end BufferPool

namespace EngineWorkload

open LruCache (recent Cycles)

-- The page of an iteration when `n` pages are walked in turn.
def page (n i : Nat) : PageId :=
  UInt32.ofNat (i % n)

theorem page_cycles (hpos : 0 < n) (hn : n < 2 ^ 32) : Cycles (page n) n where
  pos := hpos
  same i j := by
    have hlt : ∀ k, k % n < 2 ^ 32 := fun k => (Nat.mod_lt k hpos).trans hn
    rw [page, page, ← UInt32.toNat_inj, UInt32.toNat_ofNat_of_lt' (hlt i), UInt32.toNat_ofNat_of_lt' (hlt j)]

variable {w w' : EngineWorkload} {cfg : BenchConfig} {t : Tally EngineWorkload} {p : BufferPool Disk} {c : LruCache PageId}

theorem target_fst (hr : w.random = false) (hi : i < 2 ^ 64) :
    (w.target (UInt64.ofNat i)).fst = page w.pageCount.toNat i := by
  have hi : (UInt64.ofNat i).toNat = i := UInt64.toNat_ofNat_of_lt' hi
  rw [target, hr, page, ← UInt32.toNat_inj]
  simp [hi]

-- A sequential walk in which no step has failed so far. `small` is what there is to say when the pool never had a frame
-- for each page, `large` when it always had.
structure Follows (n i : Nat) (t : Tally EngineWorkload) (p : BufferPool Disk) (c : LruCache PageId) : Prop where
  pool      : ∃ path, t.ctx.pool = some (path, p)
  random    : t.ctx.random = false
  pageCount : t.ctx.pageCount.toNat = n
  mirrors   : ∃ s, p.Mirrors s
  fetches   : p.fetches = i
  caches    : p.Caches c
  low       : t.pool.minFrames.toNat ≤ p.capacity
  high      : p.capacity ≤ t.pool.maxFrames.toNat
  keys      : c.keys <+: recent (page n) n i
  small     : t.pool.maxFrames.toNat < n → t.hits = 0
  large     : n ≤ t.pool.minFrames.toNat → c.keys = recent (page n) n i ∧ t.misses.toNat = min i n

theorem Follows.of_eq {u : Tally EngineWorkload} (h : Follows n i t p c) (hctx : u.ctx = t.ctx)
    (hmin : u.pool.minFrames = t.pool.minFrames) (hmax : u.pool.maxFrames = t.pool.maxFrames) (hhits : u.hits = t.hits)
    (hmisses : u.misses = t.misses) : Follows n i u p c where
  pool      := hctx ▸ h.pool
  random    := hctx ▸ h.random
  pageCount := hctx ▸ h.pageCount
  mirrors   := h.mirrors
  fetches   := h.fetches
  caches    := h.caches
  low       := hmin ▸ h.low
  high      := hmax ▸ h.high
  keys      := h.keys
  small     := hmax ▸ hhits ▸ h.small
  large     := hmin ▸ hmisses ▸ h.large

-- The pool has served the page of an iteration, which is a hit or a miss.
theorem Follows.access {u : Tally EngineWorkload} (h : Follows n i t p c) (hc : Cycles (page n) n) (hi : i + 1 < 2 ^ 64)
    (hpool : ∃ path, u.ctx.pool = some (path, q)) (hrandom : u.ctx.random = t.ctx.random)
    (hcount : u.ctx.pageCount = t.ctx.pageCount) (hstats : u.pool = t.pool)
    (hm : ∃ s, q.Mirrors s) (hcaches : q.Caches (c.access (page n i))) (hfetches : q.fetches = p.fetches + 1)
    (hcapacity : q.capacity = p.capacity)
    (hcase : (page n i ∈ c.keys ∧ u.misses = t.misses) ∨
      (page n i ∉ c.keys ∧ u.hits = t.hits ∧ u.misses = t.misses + 1)) :
    Follows n (i + 1) u q (c.access (page n i)) where
  pool      := hpool
  random    := hrandom.trans h.random
  pageCount := hcount ▸ h.pageCount
  mirrors   := hm
  fetches   := hfetches.trans (h.fetches ▸ rfl)
  caches    := hcaches
  low       := hstats ▸ hcapacity ▸ h.low
  high      := hstats ▸ hcapacity ▸ h.high
  keys      := hc.access_isPrefix h.keys
  small hn  := by
    rw [hstats] at hn
    rcases hcase with ⟨hmem, _⟩ | ⟨_, hhits, _⟩
    · exact absurd hmem (hc.miss h.keys (h.caches.capacity ▸ h.high.trans_lt hn))
    · rw [hhits, h.small hn]
  large hn  := by
    rw [hstats] at hn
    obtain ⟨heq, hmisses⟩ := h.large hn
    rw [heq, hc.mem_recent] at hcase
    refine ⟨hc.access_eq heq (h.caches.capacity ▸ hn.trans h.low), ?_⟩
    rcases hcase with ⟨hseen, hm⟩ | ⟨hnew, _, hm⟩
    · rw [hm, hmisses]
      omega
    · rw [hm, toNat_add_one (by omega), hmisses]
      omega

theorem Follows.step (h : Follows n i t p c) (hc : Cycles (page n) n) (hi : i + 1 < 2 ^ 64) :
    (t.step EngineWorkload.step (UInt64.ofNat i)).errors = t.errors + 1 ∨
    (t.step EngineWorkload.step (UInt64.ofNat i)).errors = t.errors ∧
      ∃ p' c', Follows n (i + 1) (t.step EngineWorkload.step (UInt64.ofNat i)) p' c' := by
  obtain ⟨path, hpool⟩ := h.pool
  obtain ⟨s, hm⟩ := h.mirrors
  have hpage : (t.ctx.target (UInt64.ofNat i)).fst = page n i := by
    rw [target_fst h.random (by omega), h.pageCount]
  rw [Tally.step, EngineWorkload.step, hpool]
  dsimp only
  rw [hpage]
  rcases hf : p.fetch (page n i) with ⟨e | k, q⟩
  · exact .inl rfl
  · have hlt : p.fetches < BufferPool.maxStamp := by rw [h.fetches, BufferPool.maxStamp]; omega
    obtain ⟨hm', hcaches, hfetches, hcapacity⟩ := h.caches.use hm hlt hf
      (t.ctx.dirtyEvery ≠ 0 ∧ UInt64.ofNat i % t.ctx.dirtyEvery = 0)
    have hmem : p.contains (page n i) ↔ page n i ∈ c.keys := BufferPool.contains_iff h.caches
    refine .inr ?_
    cases hhit : p.contains (page n i)
    case true =>
      exact ⟨rfl, _, _, h.access hc hi ⟨path, rfl⟩ rfl rfl rfl ⟨s, hm'⟩ hcaches hfetches hcapacity
        (.inl ⟨hmem.mp hhit, rfl⟩)⟩
    case false =>
      have hnew : page n i ∉ c.keys := fun hold => Bool.false_ne_true (hhit.symm.trans (hmem.mpr hold))
      exact ⟨rfl, _, _, h.access hc hi ⟨path, rfl⟩ rfl rfl rfl ⟨s, hm'⟩ hcaches hfetches hcapacity
        (.inr ⟨hnew, rfl, rfl⟩)⟩

theorem Follows.request (h : Follows n i t p c) (target : UInt64) :
    ∃ p' c', Follows n i { t with
      ctx  := (Bench.resizeRequest Bench.engineWorkload (t.ctx, t.pool) target).snd.fst
      pool := (Bench.resizeRequest Bench.engineWorkload (t.ctx, t.pool) target).snd.snd } p' c' := by
  obtain ⟨path, hpool⟩ := h.pool
  obtain ⟨s, hm⟩ := h.mirrors
  rw [Bench.resizeRequest_some rfl]
  rcases hr : bufferPoolRequest (t.ctx.allocs.headD .success) p target with ⟨rc, q⟩
  have hresize : t.ctx.resize target =
      (rc, { t.ctx with pool := some (path, q), allocs := t.ctx.allocs.tail }) := by
    rw [EngineWorkload.resize, hpool]
    dsimp only
    rw [hr]
  have hm' := hm.request (t.ctx.allocs.headD .success) target
  rw [hr] at hm'
  obtain ⟨hfetches, c', hcaches, hkeys⟩ := h.caches.request hm hr
  have hcapacity : q.capacity < 2 ^ 64 := by
    rw [bufferPoolRequest_capacity hr]
    split
    case isTrue => exact target.toNat_lt
    case isFalse => exact h.high.trans_lt (UInt64.toNat_lt _)
  have hcap : (Bench.capacity Bench.engineWorkload (t.ctx.resize target).snd).toNat = q.capacity := by
    rw [hresize]
    exact UInt64.toNat_ofNat_of_lt' hcapacity
  obtain ⟨lo, hi, he, hmin, hlo, hmax, hhi⟩ := PoolStats.seen_range t.pool
    (Bench.capacity Bench.engineWorkload (t.ctx.resize target).snd)
  rw [UInt64.le_iff_toNat_le] at hmin hlo hmax hhi
  rw [hcap] at hlo hhi
  have hlen : (recent (page n) n i).length ≤ n := by
    rw [recent, List.length_map, List.length_range]
    exact Nat.min_le_right i n
  refine ⟨q, c', ?_⟩
  dsimp only
  rw [he, hresize]
  refine ⟨⟨path, rfl⟩, h.random, h.pageCount, ⟨s, hm'⟩, hfetches.trans h.fetches, hcaches, hlo, hhi, ?_,
    fun hn => h.small (hmax.trans_lt hn), fun hn => ?_⟩
  · rw [hkeys]
    exact (List.take_prefix _ _).trans h.keys
  · have hn : n ≤ lo.toNat := hn
    obtain ⟨heq, hmisses⟩ := h.large (by omega)
    refine ⟨?_, hmisses⟩
    rw [hkeys, heq, hcaches.capacity]
    exact List.take_of_length_le (by omega)

-- The policy asks for at most one resize, and the decision is counted.
theorem Follows.sample [Double δ] [OfScientific δ] (h : Follows n i t p c) (snap : ResourceSnapshot δ) :
    ∃ p' c', Follows n i (t.sample Bench.engineWorkload snap) p' c' := by
  have hadapt : ∀ {rc policy d ctx pool}, t.policy.apply (Policy.configDefault : PolicyConfig δ) (some snap)
        (Bench.capacity Bench.engineWorkload t.ctx) (some (Bench.resizeRequest Bench.engineWorkload)) (t.ctx, t.pool) =
        (rc, policy, d, ctx, pool) →
      t.sample Bench.engineWorkload snap =
        { t with samples := t.samples + 1, ticks := t.ticks + 1, ctx, policy,
                 pool := Bench.countDecision pool rc d.action } :=
    fun ha => Tally.adapt_eq (t := { t with samples := t.samples + 1, ticks := t.ticks + 1 }) ha
  rcases ha : t.policy.apply (Policy.configDefault : PolicyConfig δ) (some snap)
    (Bench.capacity Bench.engineWorkload t.ctx) (some (Bench.resizeRequest Bench.engineWorkload)) (t.ctx, t.pool)
    with ⟨rc, policy, d, ctx, pool⟩
  have hcontext := Policy.apply_context t.policy (Policy.configDefault : PolicyConfig δ) (some snap)
    (Bench.capacity Bench.engineWorkload t.ctx) (Bench.resizeRequest Bench.engineWorkload) (t.ctx, t.pool)
  rw [ha] at hcontext
  have ⟨hmin, hmax⟩ := Bench.countDecision_range pool rc d.action
  rcases hcontext with he | ⟨target, he⟩
  · cases he
    exact ⟨p, c, h.of_eq (by rw [hadapt ha]) (by rw [hadapt ha, hmin]) (by rw [hadapt ha, hmax]) (by rw [hadapt ha])
      (by rw [hadapt ha])⟩
  · obtain ⟨p', c', h'⟩ := h.request target
    rw [← he] at h'
    exact ⟨p', c', h'.of_eq (by rw [hadapt ha]) (by rw [hadapt ha, hmin]) (by rw [hadapt ha, hmax]) (by rw [hadapt ha])
      (by rw [hadapt ha])⟩

theorem Follows.begin (h : Opened w cfg w' p) (hr : cfg.random = false) :
    Follows (walked cfg).toNat 0 (.begin Bench.engineWorkload w') p (.empty PageId (startFrames cfg)) := by
  have hcreate := h.fresh.create
  have hcaches := BufferPool.create_caches hcreate
  have hcap : (Bench.capacity Bench.engineWorkload w').toNat = p.capacity := by
    have hlt : p.capacity < 2 ^ 64 := hcaches.capacity ▸ UInt64.toNat_lt _
    have he : Bench.capacity Bench.engineWorkload w' = UInt64.ofNat p.capacity := by
      change w'.capacity = _
      rw [EngineWorkload.capacity, h.pool]
      rfl
    rw [he, UInt64.toNat_ofNat_of_lt' hlt]
  have hrecent : recent (page (walked cfg).toNat) (walked cfg).toNat 0 = [] := by simp [recent]
  exact ⟨⟨_, h.pool⟩, h.random.trans hr, congrArg UInt64.toNat h.pageCount, ⟨_, .create hcreate h.fresh.torn⟩,
    BufferPool.create_fetches hcreate, hcaches, hcap.le, hcap.ge, List.nil_prefix, fun _ => rfl,
    fun _ => ⟨hrecent.symm, (Nat.zero_min _).symm⟩⟩

end EngineWorkload

namespace Bench

open EngineWorkload LruCache

theorem Tally.step_errors (t : Tally ω) (f : ω → UInt64 → Rc × Bool × ω) (i : UInt64) :
    (t.step f i).errors = t.errors ∨ (t.step f i).errors = t.errors + 1 := by
  rw [Tally.step]
  split
  case h_1 => exact .inl rfl
  case h_2 => exact .inl rfl
  case h_3 => exact .inr rfl

section

variable [DoubleArith δ] [OfScientific δ] {cfg : BenchConfig} {env : BenchEnv δ} {registry : Registry}
  {sampler : Option (Sampler δ κ)} {w : EngineWorkload} {t : Tally EngineWorkload}

theorem Counts.follows (h : Counts cfg engineWorkload env registry sampler EngineWorkload.step t₀ i t)
    (hc : Cycles (page n) n) (he : t₀.errors = 0) (h₀ : Follows n 0 t₀ p c) (hi : i < 2 ^ 64) :
    t.errors.toNat ≤ i ∧ (t.errors = 0 → ∃ p c, Follows n i t p c) := by
  have hstep : ∀ {i t}, t.errors.toNat ≤ i ∧ (t.errors = 0 → ∃ p c, Follows n i t p c) → i + 1 < 2 ^ 64 →
      (t.step EngineWorkload.step (UInt64.ofNat i)).errors.toNat ≤ i + 1 ∧
        ((t.step EngineWorkload.step (UInt64.ofNat i)).errors = 0 →
          ∃ p c, Follows n (i + 1) (t.step EngineWorkload.step (UInt64.ofNat i)) p c) := by
    intro i t ⟨hle, hf⟩ hi
    have hsucc : (t.errors + 1).toNat = t.errors.toNat + 1 := toNat_add_one (by omega)
    have hne : t.errors + 1 ≠ 0 := fun h0 => by rw [h0] at hsucc; cases hsucc
    refine ⟨?_, fun h0 => ?_⟩
    · rcases Tally.step_errors t EngineWorkload.step (UInt64.ofNat i) with he | he <;> rw [he] <;> omega
    · rcases Tally.step_errors t EngineWorkload.step (UInt64.ofNat i) with he | he <;> rw [he] at h0
      · obtain ⟨p, c, hf⟩ := hf h0
        rcases hf.step hc hi with he' | ⟨_, hf⟩
        · rw [he, h0] at he'
          cases he'
        · exact hf
      · exact absurd h0 hne
  induction h
  case start => exact ⟨by rw [he]; exact Nat.le_refl 0, fun _ => ⟨p, c, h₀⟩⟩
  case step ih => exact hstep (ih (by omega)) hi
  case sample s _ _ _ ih =>
    have ⟨hle, hf⟩ := ih (by omega)
    refine hstep ⟨hle, fun h0 => ?_⟩ hi
    obtain ⟨p, c, hf⟩ := hf h0
    exact hf.sample s.toResourceSnapshot

-- What a sequential walk without errors measures. When the pool never has a frame for each page, every page was evicted
-- before its turn comes again, and there is no hit at all. When it always has, each page is read once.
theorem sequential_walk (hr : cfg.random = false)
    (h : run cfg engineWorkload env registry sampler samplerCtx w out = some (.ok, res, w', registry'))
    (he : res.fetchErrors = 0) :
    (res.pool.maxFrames < walked cfg → res.cacheHits = 0) ∧
    (walked cfg ≤ res.pool.minFrames → res.cacheMisses.toNat = min cfg.iterations.toNat (walked cfg).toNat) := by
  cases run_ends h
  case unentered hrc _ => exact absurd rfl hrc
  case unopened hrc _ => exact absurd rfl hrc
  case completed t s _ _ hopen hstep _ opened counts _ reports =>
    cases hopen
    cases hstep
    rcases open_cases opened with ⟨hrc, _⟩ | ⟨_, p, ho⟩
    · cases hrc
    have hc : Cycles (page (walked cfg).toNat) (walked cfg).toNat :=
      page_cycles (walked_pos cfg) (ho.enough.trans_lt p.dev.storage.bound)
    obtain ⟨_, hf⟩ := counts.follows hc rfl (.begin ho hr) cfg.iterations.toNat_lt
    obtain ⟨p, c, hf⟩ := hf (reports.errors ▸ he)
    obtain ⟨p, c, hf⟩ := hf.sample s.toResourceSnapshot
    obtain ⟨⟨hmin, hmax⟩, _⟩ := reports.range
    rw [reports.hits, reports.misses]
    refine ⟨fun hn => hf.small ?_, fun hn => (hf.large ?_).right⟩
    · exact (UInt64.le_iff_toNat_le.mp hmax).trans_lt (UInt64.lt_iff_toNat_lt.mp hn)
    · exact (UInt64.le_iff_toNat_le.mp hn).trans (UInt64.le_iff_toNat_le.mp hmin)

end

-- All readings call for fewer frames than the one that there is.
theorem sequential_walk_flooded : ∃ res w registry,
    run threePages engineWorkload quiet {} (some scripted) 2 { failing with io := [] } (begin threePages) =
      some (.ok, res, w, registry) ∧
    res.fetchErrors = 0 ∧ res.stepsRun = 5 ∧ res.pool.maxFrames < walked threePages ∧
    ((res.pool.maxFrames < walked threePages → res.cacheHits = 0) ∧
      (walked threePages ≤ res.pool.minFrames →
        res.cacheMisses.toNat = min threePages.iterations.toNat (walked threePages).toNat)) := by
  have hrun : completesWith (run threePages engineWorkload quiet {} (some scripted) 2 { failing with io := [] }
      (begin threePages)) fun res _ =>
      decide (res.fetchErrors = 0 ∧ res.stepsRun = 5 ∧ res.pool.maxFrames < walked threePages) := by decide +kernel
  obtain ⟨res, w, registry, h, hres⟩ := exists_of_completesWith hrun
  obtain ⟨he, hs, hm⟩ := of_decide_eq_true hres
  exact ⟨res, w, registry, h, he, hs, hm, sequential_walk rfl h he⟩

end Bench
end NexusDb
