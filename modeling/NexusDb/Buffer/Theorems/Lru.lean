import NexusDb.General.Recency
import NexusDb.Buffer.Theorems.Eviction
import Mathlib.Data.List.Nodup

namespace NexusDb

namespace Client

-- When a page was last fetched, counted in fetches that succeeded.
def lastFetch (c : Client σ) (id : PageId) : Nat :=
  c.fetched.recency id

-- The stamps of the frames are the ages of their pages.
structure Aged (c : Client σ) : Prop where
  count  : c.pool.fetches = c.fetched.length
  clock  : c.pool.Clock
  stamps : ∀ id n, c.pool.Stamped id n → n = c.lastFetch id

theorem release_retains (c : Client σ) (h : Nat) :
    c.pool.Retains (c.release h).pool ∧ (c.release h).fetched = c.fetched := by
  rw [release]
  split
  case h_1 => exact ⟨.refl _, rfl⟩
  case h_2 => exact ⟨.unpin _ _, rfl⟩

variable {c c' : Client σ}

theorem Aged.lastUsed (ha : Aged c) (hf : c.pool.frame? i = some f) (hu : f.inUse) :
    f.lastUsed = c.lastFetch f.page.id :=
  ha.stamps _ _ ⟨i, f, hf, hu, rfl, rfl⟩

theorem Aged.retains (ha : Aged c) (hr : c.pool.Retains c'.pool) (hf : c'.fetched = c.fetched) : Aged c' where
  count  := by rw [hr.same.fetches, hf, ha.count]
  clock  := ha.clock.of_same hr.same
  stamps id n hs := by
    rw [lastFetch, hf]
    exact ha.stamps id n (hr.pages id n hs)

theorem Aged.release (ha : Aged c) (h : Nat) : Aged (c.release h) :=
  have ⟨hr, hf⟩ := release_retains c h
  ha.retains hr hf

variable [Device σ]

theorem modify_retains (c : Client σ) (h : Nat) (f : PageData → PageData) :
    c.pool.Retains (c.modify h f).pool ∧ (c.modify h f).fetched = c.fetched := by
  rw [modify]
  split
  case h_1 => exact ⟨.refl _, rfl⟩
  case h_2 k _ =>
    have hs : c.pool.Retains (c.pool.setFrame k.frame { c.pool.frameAt k.frame with
        page := { (c.pool.frameAt k.frame).page with
                  data := f (c.pool.frameAt k.frame).page.data, dirty := true } }) :=
      .setFrame c.pool rfl rfl rfl
    exact ⟨hs.trans (.dev _ _), rfl⟩

-- Only a fetch that succeeds makes a page younger.
theorem step_retains (hi : c.pool.Inv) (h : c.step op = (res, c')) :
    (c.pool.Retains c'.pool ∧ c'.fetched = c.fetched) ∨
    (∃ k id i, op = .fetch k id ∧ res = .ok () ∧ (c.release k).pool.fetch id = (.ok i, c'.pool) ∧
      c'.fetched = id :: c.fetched) := by
  cases op <;> simp only [step] at h
  case declare => cases h; exact .inl ⟨.refl _, rfl⟩
  case fetch k id =>
    split at h
    case isFalse => cases h; exact .inl ⟨.refl _, rfl⟩
    case isTrue =>
      obtain ⟨hr, hfetched⟩ := release_retains c k
      rw [fetch] at h
      split at h <;> cases h
      case h_1 hf =>
        obtain ⟨s, hq⟩ := BufferPool.fetch_error hf
        exact .inl ⟨hr.trans (hq ▸ .dev _ s), hfetched⟩
      case h_2 i _ hf => exact .inr ⟨k, id, i, rfl, rfl, hf, by rw [hfetched]⟩
  case moveConstruct => cases h; exact .inl ⟨.refl _, rfl⟩
  case moveAssign dst src =>
    cases h
    split
    case isFalse => exact .inl ⟨.refl _, rfl⟩
    case isTrue =>
      rw [moveAssign]
      split
      case isTrue => exact .inl ⟨.refl _, rfl⟩
      case isFalse => exact .inl (release_retains c dst)
  case unpin k =>
    split at h <;> cases h
    case isTrue => exact .inl ⟨.refl _, rfl⟩
    case isFalse => exact .inl (release_retains c k)
  case destroy k => cases h; exact .inl (release_retains c k)
  case modify k f => cases h; exact .inl (modify_retains c k f)
  case flushPage id =>
    cases h
    exact .inl ⟨.of_cleans (BufferPool.flushPage_cleans rfl) (BufferPool.flushPage_stamps rfl), rfl⟩
  case flushAll =>
    cases h
    exact .inl ⟨.of_cleans (BufferPool.flushEach_cleans rfl) (BufferPool.flushEach_stamps rfl), rfl⟩
  case resize => cases h; exact .inl ⟨BufferPool.resize_retains rfl hi, rfl⟩
  case allocate => split at h <;> cases h <;> exact .inl ⟨.dev _ _, rfl⟩
  case write =>
    split at h <;> cases h
    case isTrue => exact .inl ⟨.refl _, rfl⟩
    case isFalse => exact .inl ⟨.dev _ _, rfl⟩

theorem Aged.step (ha : Aged c) (hi : c.Inv) (hn : c.fetched.length < BufferPool.maxStamp)
    (h : c.step op = (res, c')) : Aged c' := by
  rcases step_retains hi.pool h with ⟨hr, hf⟩ | ⟨k, id, i, _, _, hfetch, hf⟩
  · exact ha.retains hr hf
  · have har := ha.release k
    have hir := (hi.release k).left.pool
    have hcount : (c.release k).pool.fetches = c.fetched.length := by
      rw [har.count, (release_retains c k).right]
    have hfetches := BufferPool.fetch_fetches hir har.clock (hcount ▸ hn) hfetch
    rcases BufferPool.fetch_stamps hfetch with ⟨_, he, _⟩ | ⟨_, _, hsucc, hclock⟩
    · cases he
    · refine ⟨by rw [hsucc, hcount, hf]; rfl, hclock har.clock (hcount ▸ hn), fun j n hs => ?_⟩
      rw [lastFetch, hf]
      rcases hfetches.stamped hir hs with ⟨hj, hn⟩ | ⟨hj, hold⟩
      · rw [hj, List.recency_cons_self, hn, hcount]
      · rw [List.recency_cons_ne hj, har.stamps j n hold, lastFetch, (release_retains c k).right]

theorem step_fetched_le (hi : c.Inv) (op : PoolOp) : c.fetched.length ≤ (c.step op).snd.fetched.length := by
  rcases step_retains hi.pool (c.step op).eta.symm with ⟨_, hf⟩ | ⟨_, _, _, _, _, _, hf⟩
  · rw [hf]
  · rw [hf]
    exact Nat.le_succ _

theorem run_fetched_le (hi : c.Inv) (ops : List PoolOp) : c.fetched.length ≤ (c.run ops).fetched.length := by
  induction ops generalizing c
  case nil => exact le_rfl
  case cons op ops ih => exact (step_fetched_le hi op).trans <| ih (hi.step op)

theorem Aged.run (ha : Aged c) (hi : c.Inv) (hn : (c.run ops).fetched.length < BufferPool.maxStamp) :
    Aged (c.run ops) := by
  induction ops generalizing c
  case nil => exact ha
  case cons op ops ih =>
    have hlen := (step_fetched_le hi op).trans (run_fetched_le (hi.step op) ops)
    exact ih (ha.step hi (hlen.trans_lt hn) (c.step op).eta.symm) (hi.step op) hn

-- Pages that the pool holds have different ages.
theorem Coherent.lastFetch_inj (hc : Coherent c m) (hj : c.pool.Resident j) (hk : c.pool.Resident k)
    (he : c.lastFetch j = c.lastFetch k) : j = k :=
  List.recency_inj (hc.fetched j hj) (hc.fetched k hk) he

theorem Aged.victim_oldest (ha : Aged c) (hc : Coherent c m) (hf : c.pool.frame? i = some f)
    (he : BufferPool.eligible f)
    (hle : ∀ g ∈ c.pool.frames, BufferPool.eligible g → f.lastUsed ≤ g.lastUsed) :
    Smallest c.lastFetch c.pool.Unpinned [f.page.id] := by
  have hv : c.pool.Unpinned f.page.id := ⟨i, f, hf, he, rfl⟩
  refine .single hv (fun y hy he => hc.lastFetch_inj hv.resident hy.resident he) fun y hy => ?_
  have ⟨k, g, hg, hge, hgy⟩ := hy
  rw [← hgy, ← ha.lastUsed hf he.left, ← ha.lastUsed hg hge.left]
  exact hle g (BufferPool.mem_of_frame? hg) hge

-- The pages in the first frames of the eviction order.
theorem Aged.victims_oldest (ha : Aged c) (hc : Coherent c m) (n : Nat) :
    Smallest c.lastFetch c.pool.Unpinned
      ((c.pool.victimOrder.take n).map fun i => (c.pool.frameAt i).page.id) := by
  have hi := hc.inv.pool
  rw [List.map_take]
  refine .take ?_ (fun id => ?_) (fun x y hx hy he => hc.lastFetch_inj hx.resident hy.resident he) ?_ n
  · refine List.Nodup.map_on (fun i hi' j hj he => ?_) BufferPool.victimOrder_nodup
    have ⟨f, hf, hfe⟩ := BufferPool.mem_victimOrder.mp hi'
    have ⟨g, hg, hge⟩ := BufferPool.mem_victimOrder.mp hj
    rw [BufferPool.frameAt_eq hf, BufferPool.frameAt_eq hg] at he
    exact hi.unique i j f g hf hg hfe.left hge.left he
  · rw [List.mem_map]
    constructor
    case mp =>
      intro ⟨i, hi', hid⟩
      have ⟨f, hf, hfe⟩ := BufferPool.mem_victimOrder.mp hi'
      rw [BufferPool.frameAt_eq hf] at hid
      exact ⟨i, f, hf, hfe, hid⟩
    case mpr =>
      intro ⟨i, f, hf, hfe, hid⟩
      exact ⟨i, BufferPool.mem_victimOrder.mpr ⟨f, hf, hfe⟩, by rw [BufferPool.frameAt_eq hf]; exact hid⟩
  · rw [List.pairwise_map]
    refine BufferPool.victimOrder_sorted.imp_of_mem fun {i j} hi' hj hle => ?_
    have ⟨f, hf, hfe⟩ := BufferPool.mem_victimOrder.mp hi'
    have ⟨g, hg, hge⟩ := BufferPool.mem_victimOrder.mp hj
    rw [BufferPool.frameAt_eq hf, BufferPool.frameAt_eq hg] at hle ⊢
    rw [← ha.lastUsed hf hfe.left, ← ha.lastUsed hg hge.left]
    exact hle

theorem Aged.resized (ha : Aged c) (hc : Coherent c m) (h : c.pool.resize a n = (.ok (), q)) :
    ∃ gone, gone.length = c.pool.size - n ∧ Smallest c.lastFetch c.pool.Unpinned gone ∧
      ∀ id, q.Resident id ↔ c.pool.Resident id ∧ id ∉ gone := by
  have hi := hc.inv.pool
  have ⟨hlen, p₁, hcl, hq⟩ := BufferPool.resize_frames h hi
  refine ⟨_, by simpa using hlen, ha.victims_oldest hc (c.pool.size - n), fun id => ?_⟩
  refine (hq (fun f => f.inUse ∧ f.page.id = id) fun _ h => h.left).trans ?_
  rw [← hcl.resident]
  have hi₁ := (hi.keeps_cleans hcl).inv
  -- Frames that were given up held the pages in the list, and no other frame holds one of them.
  have hgone : ∀ k x, p₁.frame? k = some x → x.inUse → x.page.id = id →
      (k ∈ c.pool.victimOrder.take (c.pool.size - n) ↔
        id ∈ (c.pool.victimOrder.take (c.pool.size - n)).map fun i => (c.pool.frameAt i).page.id) := by
    intro k x hx hu hid
    have ⟨f, hf, he⟩ := hcl.back hx
    have ⟨hpid, _, _, _, hin⟩ := Frame.eq_of_cleaned he
    rw [List.mem_map]
    constructor
    case mp => exact fun hk => ⟨k, hk, by rw [BufferPool.frameAt_eq hf, ← hpid, hid]⟩
    case mpr =>
      intro ⟨l, hl, hlid⟩
      have ⟨g, hg, hge⟩ := BufferPool.mem_victimOrder.mp (List.mem_of_mem_take hl)
      rw [BufferPool.frameAt_eq hg] at hlid
      have hlk := hi.unique l k g f hg hf hge.left (hin ▸ hu) (by rw [hlid, ← hpid, hid])
      exact hlk ▸ hl
  constructor
  case mp =>
    intro ⟨k, x, hx, hk, hu, hid⟩
    exact ⟨⟨k, x, hx, hu, hid⟩, fun hm => hk <| (hgone k x hx hu hid).mpr hm⟩
  case mpr =>
    intro ⟨⟨k, x, hx, hu, hid⟩, hm⟩
    exact ⟨k, x, hx, fun hk => hm <| (hgone k x hx hu hid).mp hk, hu, hid⟩

end Client

-- A page that cannot be written back leaves an event that names it.

theorem Disk.beforePageWrite_error {d : Disk} (h : d.beforePageWrite p = (.error e, d')) :
    ∃ x, d'.trace = d.trace ++ [x] ∧ x.failedPage = some p.id := by
  rcases Disk.beforePageWrite_cases h with ⟨hr, _⟩ | ⟨_, _, _, _, _, _, hd⟩
  · cases hr
  · subst hd
    exact ⟨_, rfl, rfl⟩

theorem Disk.writePage_error {d : Disk} (h : d.writePage w p = (.error e, d'))
    (hp : p.id < d.storage.numPages) : ∃ x, d'.trace = d.trace ++ [x] ∧ x.failedPage = some p.id := by
  rcases Disk.writePage_cases h with ⟨_, _, _, _, hn⟩ | ⟨_, _, _, _, hn⟩ | ⟨io, _, _, _, hr, hd⟩
  · exact absurd hp hn
  · exact absurd hp hn
  · subst hd
    refine ⟨_, rfl, ?_⟩
    cases io
    case success => cases hr.mpr rfl
    case failure => rfl

namespace BufferPool

variable {p q : BufferPool Disk}

theorem flushFrame_error (hc : p.Coherent m) (h : p.flushFrame i = (.error e, q)) :
    ∃ es, q.dev.trace = p.dev.trace ++ es ∧ ∃ x ∈ es, x.failedPage ≠ none := by
  rcases flushFrame_cases h with ⟨hr, _⟩ | ⟨f, _, s, hr, hf, hu, _, hl, hq⟩ |
    ⟨f, _, s₁, s, hr, hf, hu, _, hl, hw, hq⟩ | ⟨_, _, _, hr, _⟩ <;> cases hr
  · subst hq
    have ⟨x, ht, hx⟩ := Disk.beforePageWrite_error hl
    exact ⟨[x], ht, x, by simp, by simp [hx]⟩
  · subst hq
    have ⟨es, ht₁, _⟩ := Disk.beforePageWrite_failed hl
    have hexists : (Device.page? s₁ f.page.id).isSome := by
      rw [log_same hl, hc.allocated, hc.resident i f hf hu]
      rfl
    have ⟨x, ht, hx⟩ := Disk.writePage_error hw (Device.page?_isSome.mp hexists)
    refine ⟨es ++ [x], by rw [ht, ht₁, List.append_assoc], x, by simp, by simp [hx]⟩

theorem flushFrames_error (hc : p.Coherent m) (hi : p.Inv) (h : p.flushFrames is = (.error e, q)) :
    ∃ es, q.dev.trace = p.dev.trace ++ es ∧ ∃ x ∈ es, x.failedPage ≠ none := by
  induction is generalizing p
  case nil => cases h
  case cons i is ih =>
    rw [flushFrames] at h
    split at h
    case h_1 hf => cases h; exact flushFrame_error hc hf
    case h_2 p₁ hf =>
      have hst := flushFrame_steps hf
      obtain ⟨es₁, ht₁, _⟩ := flushFrame_fails hf
      obtain ⟨es, ht, x, hx, hfail⟩ := ih (hc.steps hi hst) (hi.keeps_steps hst).inv h
      exact ⟨es₁ ++ es, by rw [ht, ht₁, List.append_assoc], x, List.mem_append_right _ hx, hfail⟩

end BufferPool

namespace Client

-- No log step and no page write failed between the two states.
def NoWriteFailed (c c' : Client Disk) : Prop :=
  ∀ e ∈ c'.pool.dev.trace.drop c.pool.dev.trace.length, e.failedPage = none

-- What the next call does to the pages of the pool. A fetch first gives up the page that its handle
-- held.
structure LeastRecentlyUsed (c : Client Disk) : Prop where
  ages    : ∀ id n, c.pool.Stamped id n → n = c.lastFetch id
  failed  : ∀ h id e c', c.step (.fetch h id) = (.error e, c') →
              ∀ j, c'.pool.Resident j ↔ c.pool.Resident j
  hit     : ∀ h id c', h < c.handles.length → c.pool.Resident id → c.step (.fetch h id) = (.ok (), c') →
              ∀ j, c'.pool.Resident j ↔ c.pool.Resident j
  room    : ∀ h id c', h < c.handles.length → ¬c.pool.Resident id → c.pool.size < c.pool.capacity →
              c.step (.fetch h id) = (.ok (), c') → ∀ j, c'.pool.Resident j ↔ j = id ∨ c.pool.Resident j
  full    : ∀ h id c', h < c.handles.length → ¬c.pool.Resident id → c.pool.size = c.pool.capacity →
              c.step (.fetch h id) = (.ok (), c') →
              ∃ v, Smallest c.lastFetch (c.release h).pool.Unpinned [v] ∧
                ∀ j, c'.pool.Resident j ↔ j = id ∨ (c.pool.Resident j ∧ j ≠ v)
  resized : ∀ alloc n c', c.step (.resize alloc n) = (.ok (), c') →
              ∃ gone, gone.length = c.pool.size - n ∧ Smallest c.lastFetch c.pool.Unpinned gone ∧
                ∀ j, c'.pool.Resident j ↔ c.pool.Resident j ∧ j ∉ gone
  resizes : ∀ n res c', 1 ≤ n → c.step (.resize .success n) = (res, c') → c.NoWriteFailed c' →
              (res = .ok () ↔ c.pool.pinnedFrames ≤ n)
  keeps   : ∀ op res c', c.step op = (res, c') → (∀ h id, op = .fetch h id → res ≠ .ok ()) →
              c'.fetched = c.fetched ∧ ∀ id n, c'.pool.Stamped id n → c.pool.Stamped id n

-- A fetch that succeeds, as the pool sees it once the handle is empty.
theorem Aged.fetched {c c' : Client Disk} (ha : Aged c) (hc : Coherent c m) (hn : c.fetched.length < BufferPool.maxStamp)
    (hl : h < c.handles.length) (hs : c.step (.fetch h j) = (.ok (), c')) :
    ∃ i, BufferPool.Fetches (c.release h).pool j i c'.pool := by
  rw [Client.step, if_pos hl, Client.fetch] at hs
  split at hs <;> cases hs
  case h_2 i _ hf =>
    have har := ha.release h
    have hcount : (c.release h).pool.fetches = c.fetched.length := by
      rw [har.count, (release_retains c h).right]
    exact ⟨i, BufferPool.fetch_fetches (hc.inv.release h).left.pool har.clock (hcount ▸ hn) hf⟩

theorem release_resident (c : Client σ) (h : Nat) :
    (∀ j, (c.release h).pool.Resident j ↔ c.pool.Resident j) ∧ (c.release h).pool.size = c.pool.size ∧
      (c.release h).pool.capacity = c.pool.capacity := by
  rw [release]
  split
  case h_1 => exact ⟨fun _ => .rfl, rfl, rfl⟩
  case h_2 => exact BufferPool.unpin_resident c.pool _

theorem Aged.leastRecentlyUsed {c : Client Disk} (ha : Aged c) (hc : Coherent c m)
    (hn : c.fetched.length < BufferPool.maxStamp) : LeastRecentlyUsed c where
  ages := ha.stamps
  failed h id e c' hs j := by
    obtain ⟨hr, _⟩ := release_resident c h
    rw [Client.step] at hs
    split at hs
    case isFalse => cases hs
    case isTrue =>
      rw [Client.fetch] at hs
      split at hs <;> cases hs
      case h_1 hf =>
        obtain ⟨s, hq⟩ := BufferPool.fetch_error hf
        subst hq
        exact hr j
  hit h id c' hl hres hs j := by
    obtain ⟨i, hf⟩ := ha.fetched hc hn hl hs
    obtain ⟨hr, _⟩ := release_resident c h
    rcases hf.resident (hc.inv.release h).left.pool with ⟨_, hk⟩ | ⟨habs, _⟩ | ⟨habs, _⟩
    · rw [hk, hr]
    · exact absurd ((hr id).mpr hres) habs
    · exact absurd ((hr id).mpr hres) habs
  room h id c' hl habs hsize hs j := by
    obtain ⟨i, hf⟩ := ha.fetched hc hn hl hs
    obtain ⟨hr, hrs, hrc⟩ := release_resident c h
    rcases hf.resident (hc.inv.release h).left.pool with ⟨hres, _⟩ | ⟨_, _, hk⟩ | ⟨_, hfull, _⟩
    · exact absurd ((hr id).mp hres) habs
    · rw [hk, hr]
    · exact absurd (hrs ▸ hrc ▸ hsize) hfull
  full h id c' hl habs hsize hs := by
    obtain ⟨i, hf⟩ := ha.fetched hc hn hl hs
    obtain ⟨hr, hrs, hrc⟩ := release_resident c h
    rcases hf.resident (hc.inv.release h).left.pool with ⟨hres, _⟩ | ⟨_, hroom, _⟩ | ⟨_, _, f, hf, he, hle, hk⟩
    · exact absurd ((hr id).mp hres) habs
    · rw [hrs, hrc, hsize] at hroom
      exact absurd hroom (lt_irrefl _)
    · have hold := (ha.release h).victim_oldest (hc.release h) hf he hle
      have hage : (c.release h).lastFetch = c.lastFetch := by
        funext j
        rw [lastFetch, (release_retains c h).right, lastFetch]
      rw [hage] at hold
      exact ⟨f.page.id, hold, fun j => by rw [hk, hr]⟩
  resized a n c' hs := by
    rw [Client.step] at hs
    cases hf : c.pool.resize a n
    case mk res q =>
      rw [hf] at hs
      cases hs
      exact ha.resized hc hf
  resizes n res c' h1 hs hw := by
    rw [Client.step] at hs
    cases hf : c.pool.resize .success n
    case mk res q =>
      rw [hf] at hs
      cases hs
      rcases BufferPool.resize_pinned hc.inv.pool (by omega) hf with ⟨hle, hok | ⟨is, e, hfl⟩⟩ | ⟨hlt, hne⟩
      · exact ⟨fun _ => hle, fun _ => hok⟩
      · obtain ⟨es, ht, x, hx, hfail⟩ := BufferPool.flushFrames_error hc.pool hc.inv.pool hfl
        rw [NoWriteFailed, ht, List.drop_left] at hw
        exact absurd (hw x hx) hfail
      · exact ⟨fun h => absurd h hne, fun h => absurd h (Nat.not_le.mpr hlt)⟩
  keeps op res c' hs hne := by
    rcases step_retains hc.inv.pool hs with ⟨hr, hf⟩ | ⟨h, id, _, hop, hok, _⟩
    · exact ⟨hf, hr.pages⟩
    · exact absurd hok (hne h id hop)

-- A run with fewer than 2^64 - 1 fetches that succeed, from a pool that was just created.
theorem run_leastRecentlyUsed (disk : Disk) (n : Nat) (ops : List PoolOp) :
    ∃ pool, BufferPool.create disk (n + 1) = .ok pool ∧
      ((run { pool } ops).fetched.length < 2 ^ 64 - 1 → LeastRecentlyUsed (run { pool } ops)) := by
  refine ⟨_, rfl, fun hn => ?_⟩
  have hc := create_coherent (s := disk) (n := n + 1) rfl
  have ⟨hclock, hcount⟩ := BufferPool.Clock.create (s := disk) (n := n + 1) rfl
  have ⟨_, _, _, hempty⟩ := BufferPool.create_inv (s := disk) (n := n + 1) rfl
  have ha : Aged { pool := ⟨disk, n + 1, List.replicate (n + 1) {}, 0, 0⟩ } :=
    ⟨hcount, hclock, fun id k hs => absurd (BufferPool.Resident.iff_stamped.mpr ⟨k, hs⟩) (hempty id)⟩
  exact (ha.run hc.inv hn).leastRecentlyUsed (hc.run ops) hn

-- The allocation of the frames can fail although no page is pinned.
theorem resize_without_memory :
    ∃ pool, BufferPool.create twoPages 1 = .ok pool ∧
      ∃ e c', step { pool } (.resize .lengthError (2 ^ 64 - 1)) = (.error e, c') ∧
        NoWriteFailed { pool } c' ∧ pool.pinnedFrames ≤ 2 ^ 64 - 1 :=
  ⟨_, rfl, _, _, rfl, nofun, by decide⟩

end Client
end NexusDb
