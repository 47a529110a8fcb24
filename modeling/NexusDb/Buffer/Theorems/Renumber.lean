import NexusDb.Buffer.Theorems.Lru

namespace NexusDb

namespace BufferPool

def Used (p : BufferPool σ) (i : Nat) : Prop :=
  (p.frameAt i).inUse

def stamp (p : BufferPool σ) (i : Nat) : Nat :=
  (p.frameAt i).lastUsed

-- The frames in use have different stamps, none of them later than the clock.
structure Stamps (p : BufferPool σ) : Prop where
  distinct : ∀ i j, p.Used i → p.Used j → p.stamp i = p.stamp j → i = j
  le_clock : ∀ i, p.Used i → p.stamp i ≤ p.accessClock

-- Two states of a pool that differ in the clock and in the stamps of the frames in use. These have the
-- same order in both states.
structure Restamps (p q : BufferPool σ) : Prop where
  dev      : q.dev = p.dev
  capacity : q.capacity = p.capacity
  frames   : ∀ i, q.frame? i = (p.frame? i).map fun f => if f.inUse then { f with lastUsed := q.stamp i } else f
  order    : ∀ i j, p.Used i → p.Used j → (q.stamp i < q.stamp j ↔ p.stamp i < p.stamp j)

-- The frames in use, least recently used first.
def useOrder (p : BufferPool σ) : List Nat :=
  (List.range p.frames.length).filter (fun i => (p.frameAt i).inUse)
    |>.mergeSort fun i j => (p.frameAt i).lastUsed ≤ (p.frameAt j).lastUsed

section

variable {p q : BufferPool σ} {f : Frame} {id : PageId}

theorem Used.frame? (h : p.Used i) : p.frame? i = some (p.frameAt i) :=
  frame?_of_inUse h

theorem Used.lt (h : p.Used i) : i < p.frames.length :=
  lt_of_frame? h.frame?

theorem used_of_frame? (hf : p.frame? i = some f) : p.Used i ↔ f.inUse := by
  rw [Used, frameAt_eq hf]

theorem size_le_length (p : BufferPool σ) : p.size ≤ p.frames.length :=
  List.countP_le_length

theorem mem_useOrder : i ∈ p.useOrder ↔ p.Used i := by
  rw [useOrder, (List.mergeSort_perm _ _).mem_iff, List.mem_filter, List.mem_range]
  exact ⟨fun h => h.right, fun h => ⟨h.lt, h⟩⟩

theorem useOrder_nodup : p.useOrder.Nodup :=
  (List.mergeSort_perm _ _).nodup_iff.mpr <| List.nodup_range.filter _

theorem useOrder_sorted : p.useOrder.Pairwise fun i j => p.stamp i ≤ p.stamp j :=
  List.pairwise_mergeSort_key p.stamp _

theorem length_useOrder : p.useOrder.length = p.size := by
  rw [useOrder, List.length_mergeSort, ← List.countP_eq_length_filter]
  exact List.countP_range_getD (P := fun f : Frame => f.inUse) {}

theorem renumberClock_frame? (p : BufferPool σ) (i : Nat) : p.renumberClock.frame? i =
    (p.frame? i).map fun f => if f.inUse then { f with lastUsed := p.useOrder.idxOf i + 1 } else f := by
  have h := List.getElem?_foldl_modify (fun n (f : Frame) => { f with lastUsed := n + 1 })
    (p.useOrder_nodup) p.frames 0 i
  refine h.trans ?_
  cases hf : p.frame? i
  case none =>
    rw [frame?] at hf
    rw [hf]
    rfl
  case some f =>
    rw [frame?] at hf
    simp only [hf, Option.map_some, mem_useOrder, used_of_frame? hf, Nat.zero_add]

theorem renumberClock_stamp (h : p.Used i) : p.renumberClock.stamp i = p.useOrder.idxOf i + 1 := by
  have hu : (p.frameAt i).inUse := h
  have hf := renumberClock_frame? p i
  rw [h.frame?, Option.map_some, if_pos hu] at hf
  rw [stamp, frameAt_eq hf]

namespace Restamps

theorem refl (p : BufferPool σ) : Restamps p p := by
  refine ⟨rfl, rfl, fun i => ?_, fun _ _ _ _ => .rfl⟩
  cases hf : p.frame? i
  case none => rfl
  case some f => simp [stamp, frameAt_eq hf]

theorem used (h : Restamps p q) : q.Used i ↔ p.Used i := by
  have hq := h.frames i
  cases hf : p.frame? i
  case none =>
    rw [hf, Option.map_none] at hq
    rw [Used, Used, frameAt_eq_getD, frameAt_eq_getD, hf, hq]
  case some f =>
    rw [hf, Option.map_some] at hq
    rw [used_of_frame? hf, used_of_frame? hq]
    split <;> rfl

theorem page (h : Restamps p q) : (q.frameAt i).page = (p.frameAt i).page := by
  rw [frameAt_eq_getD, h.frames i, frameAt_eq_getD]
  cases p.frame? i
  case none => rfl
  case some f =>
    rw [Option.map_some, Option.getD_some, Option.getD_some]
    split <;> rfl

theorem stamps (h : Restamps p q) (hp : p.Stamps) (hq : ∀ i, q.Used i → q.stamp i ≤ q.accessClock) : q.Stamps := by
  refine ⟨fun i j hi hj he => ?_, hq⟩
  rw [h.used] at hi hj
  have hij := h.order i j hi hj
  have hji := h.order j i hj hi
  exact hp.distinct i j hi hj (by omega)

end Restamps

theorem Stamps.renumberClock (h : p.Stamps) : Restamps p p.renumberClock where
  dev := rfl
  capacity := rfl
  frames i := by
    rw [renumberClock_frame? p i]
    cases hf : p.frame? i
    case none => rfl
    case some f =>
      rw [Option.map_some, Option.map_some]
      split
      case isTrue hu => rw [renumberClock_stamp ((used_of_frame? hf).mpr hu)]
      case isFalse => rfl
  order i j hi hj := by
    rw [renumberClock_stamp hi, renumberClock_stamp hj, Nat.add_lt_add_iff_right]
    refine useOrder_sorted.idxOf_lt_iff (fun a ha b hb he => ?_) (mem_useOrder.mpr hi) (mem_useOrder.mpr hj)
    exact h.distinct a b (mem_useOrder.mp ha) (mem_useOrder.mp hb) he

-- The stamp that is given out is later than all stamps of frames in use, also when they are
-- renumbered first.
theorem Stamps.nextTimestamp (h : p.Stamps) (hc : p.accessClock ≤ maxStamp) (hn : p.size < maxStamp)
    (he : p.nextTimestamp = (n, q)) :
    Restamps p q ∧ q.Stamps ∧ (∀ i, q.Used i → q.stamp i < n) ∧ q.accessClock = n ∧ n ≤ maxStamp := by
  have hmod : ∀ k, k < maxStamp → (k + 1) % 2 ^ 64 = k + 1 := fun k hk => Nat.mod_eq_of_lt (by simp at hk; omega)
  -- The state in which the clock is incremented.
  have hnext : ∀ r : BufferPool σ, Restamps p r → r.Stamps → r.accessClock < maxStamp →
      ((r.accessClock + 1) % 2 ^ 64,
        { r with accessClock := (r.accessClock + 1) % 2 ^ 64, fetches := r.fetches + 1 }) = (n, q) →
      Restamps p q ∧ q.Stamps ∧ (∀ i, q.Used i → q.stamp i < n) ∧ q.accessClock = n ∧ n ≤ maxStamp := by
    intro r hr hs hlt he
    rw [hmod _ hlt] at he
    cases he
    refine ⟨⟨hr.dev, hr.capacity, hr.frames, hr.order⟩, ?_, fun i hi => ?_, rfl, hlt⟩
    · exact ⟨hs.distinct, fun i hi => Nat.le_succ_of_le (hs.le_clock i hi)⟩
    · exact Nat.lt_succ_of_le (hs.le_clock i hi)
  rw [BufferPool.nextTimestamp] at he
  by_cases hm : p.accessClock = maxStamp
  case neg =>
    rw [if_neg hm] at he
    exact hnext p (.refl p) h (Nat.lt_of_le_of_ne hc hm) he
  case pos =>
    rw [if_pos hm] at he
    have hr := h.renumberClock
    have hclock : p.renumberClock.accessClock = p.size := length_useOrder
    refine hnext _ hr (hr.stamps h fun i hi => ?_) (hclock ▸ hn) he
    have hu := hr.used.mp hi
    rw [renumberClock_stamp hu, hclock, ← length_useOrder]
    exact List.idxOf_lt_length_of_mem (mem_useOrder.mpr hu)

-- The state in which a fetch takes the stamp for frame `i`. That frame already has the page, and is
-- in use when it was before.
structure Readies (p : BufferPool σ) (id : PageId) (i : Nat) (q : BufferPool σ) : Prop where
  clock  : q.accessClock = p.accessClock
  length : q.frames.length = p.frames.length
  lt     : i < q.frames.length
  page   : (q.frameAt i).page.id = id
  used   : ∀ k, (q.frameAt k).inUse = (p.frameAt k).inUse
  stamp  : ∀ k, q.stamp k = p.stamp k
  others : ∀ k, k ≠ i → (q.frameAt k).page.id = (p.frameAt k).page.id

theorem frameAt_setFrame_self (hi : i < p.frames.length) : (p.setFrame i f).frameAt i = f := by
  simp [frameAt, setFrame, hi]

theorem frameAt_setFrame_ne (hk : k ≠ i) : (p.setFrame i f).frameAt k = p.frameAt k := by
  rw [frameAt_eq_getD, frame?_setFrame, if_neg (Ne.symm hk), frameAt_eq_getD]

theorem used_setFrame_ne (hk : k ≠ i) : (p.setFrame i f).Used k ↔ p.Used k := by
  rw [Used, Used, frameAt_setFrame_ne hk]

theorem stamp_setFrame_ne (hk : k ≠ i) : (p.setFrame i f).stamp k = p.stamp k := by
  rw [stamp, stamp, frameAt_setFrame_ne hk]

theorem Cleans.frameAt (h : Cleans p q) (k : Nat) : (q.frameAt k).cleaned = (p.frameAt k).cleaned := by
  rw [frameAt_eq_getD, frameAt_eq_getD]
  cases hf : p.frame? k
  case none =>
    have hq : q.frame? k = none := by
      rw [BufferPool.frame?, List.getElem?_eq_none_iff] at hf ⊢
      exact h.length ▸ hf
    rw [hq]
  case some f =>
    obtain ⟨g, hg, he⟩ := h.frame? hf
    rw [hg, Option.getD_some, Option.getD_some, he]

-- The frame gets another page or another number of pins, and keeps its stamp.
theorem Readies.of_cleans (h : Cleans p q) (hs : SameStamps p q) (hi : i < q.frames.length) (hid : f.page.id = id)
    (hu : f.inUse = (q.frameAt i).inUse) (hl : f.lastUsed = (q.frameAt i).lastUsed) :
    Readies p id i (q.setFrame i f) where
  clock := hs.clock
  length := List.length_set.trans h.length
  lt := List.length_set.symm ▸ hi
  page := by rw [frameAt_setFrame_self hi, hid]
  used k := by
    have ⟨_, _, _, _, hin⟩ := Frame.eq_of_cleaned (h.frameAt k)
    by_cases hk : k = i
    case pos => rw [hk, frameAt_setFrame_self hi, hu, ← hk, hin]
    case neg => rw [frameAt_setFrame_ne hk, hin]
  stamp k := by
    have ⟨_, _, _, hlu, _⟩ := Frame.eq_of_cleaned (h.frameAt k)
    by_cases hk : k = i
    case pos => rw [hk, BufferPool.stamp, frameAt_setFrame_self hi, hl, ← hk, hlu, BufferPool.stamp]
    case neg => exact (stamp_setFrame_ne hk).trans hlu
  others k hk := by
    have ⟨hp, _⟩ := Frame.eq_of_cleaned (h.frameAt k)
    rw [frameAt_setFrame_ne hk, hp]

theorem Readies.used_iff (h : Readies p id i q) : q.Used k ↔ p.Used k := by
  rw [Used, Used, h.used]

theorem Readies.stamps (h : Readies p id i q) (hp : p.Stamps) : q.Stamps where
  distinct j k hj hk he := by
    rw [h.stamp, h.stamp] at he
    exact hp.distinct j k (h.used_iff.mp hj) (h.used_iff.mp hk) he
  le_clock j hj := by
    rw [h.stamp, h.clock]
    exact hp.le_clock j (h.used_iff.mp hj)

-- A frame takes the next stamp.
def refresh (p : BufferPool σ) (i : Nat) : BufferPool σ :=
  p.nextTimestamp.snd.setFrame i
    { p.nextTimestamp.snd.frameAt i with lastUsed := p.nextTimestamp.fst, inUse := true }

theorem length_refresh (p : BufferPool σ) (i : Nat) : (p.refresh i).frames.length = p.frames.length :=
  List.length_set.trans (nextTimestamp_same p).length

-- How a fetch that succeeds with frame `i` changes the frames, whatever the clock shows.
structure Refreshes (p : BufferPool σ) (id : PageId) (i : Nat) (q : BufferPool σ) : Prop where
  clock  : q.accessClock ≤ maxStamp
  stamps : q.Stamps
  own    : q.Used i
  page   : (q.frameAt i).page.id = id
  used   : ∀ k, q.Used k → k ≠ i → p.Used k ∧ (q.frameAt k).page.id = (p.frameAt k).page.id
  latest : ∀ k, q.Used k → k ≠ i → q.stamp k < q.stamp i
  order  : ∀ j k, q.Used j → q.Used k → j ≠ i → k ≠ i → (q.stamp j < q.stamp k ↔ p.stamp j < p.stamp k)

-- Frame `i` gets the stamp that the clock shows, which is later than the other stamps.
theorem Stamps.setFrame (hs : p.Stamps) (hlt : ∀ k, p.Used k → p.stamp k < p.accessClock)
    (hi : i < p.frames.length) (hf : f.lastUsed = p.accessClock) :
    (p.setFrame i f).Stamps ∧
      ∀ k, (p.setFrame i f).Used k → k ≠ i → (p.setFrame i f).stamp k < (p.setFrame i f).stamp i := by
  have hown : (p.setFrame i f).stamp i = p.accessClock := by rw [stamp, frameAt_setFrame_self hi, hf]
  have hlatest : ∀ k, (p.setFrame i f).Used k → k ≠ i → (p.setFrame i f).stamp k < (p.setFrame i f).stamp i := by
    intro k hu hk
    rw [hown, stamp_setFrame_ne hk]
    exact hlt k ((used_setFrame_ne hk).mp hu)
  refine ⟨⟨fun j k hj hk he => ?_, fun k hk => ?_⟩, hlatest⟩
  · by_cases hji : j = i <;> by_cases hki : k = i
    · rw [hji, hki]
    · subst hji
      exact absurd he (hlatest k hk hki).ne'
    · subst hki
      exact absurd he (hlatest j hj hji).ne
    · rw [stamp_setFrame_ne hji, stamp_setFrame_ne hki] at he
      exact hs.distinct j k ((used_setFrame_ne hji).mp hj) ((used_setFrame_ne hki).mp hk) he
  · by_cases hki : k = i
    case pos => rw [hki, hown]; exact le_rfl
    case neg => exact (hlatest k hk hki).le.trans hown.le

theorem Readies.refreshes (h : Readies p id i q) (hp : p.Stamps) (hc : p.accessClock ≤ maxStamp)
    (hn : p.frames.length < maxStamp) : Refreshes p id i (q.refresh i) := by
  have hsize : q.size < maxStamp := (size_le_length q).trans_lt (h.length ▸ hn)
  have hi := (nextTimestamp_same q).length ▸ h.lt
  rw [refresh]
  cases he : q.nextTimestamp
  case mk n r =>
    have ⟨hr, hs, hlt, hclock, hle⟩ := (h.stamps hp).nextTimestamp (h.clock ▸ hc) hsize he
    rw [he] at hi
    subst hclock
    have ⟨hstamps, hlatest⟩ := hs.setFrame hlt hi
      (f := { r.frameAt i with lastUsed := r.accessClock, inUse := true }) rfl
    have hused : ∀ {k}, (r.setFrame i { r.frameAt i with lastUsed := r.accessClock, inUse := true }).Used k →
        k ≠ i → q.Used k := fun hu hk => hr.used.mp <| (used_setFrame_ne hk).mp hu
    refine ⟨hle, hstamps, ?_, ?_, fun k hu hk => ?_, hlatest, fun j k hj hk hji hki => ?_⟩
    · rw [Used, frameAt_setFrame_self hi]
    · rw [frameAt_setFrame_self hi]
      exact (congrArg Page.id hr.page).trans h.page
    · rw [frameAt_setFrame_ne hk, hr.page, h.others k hk]
      exact ⟨h.used_iff.mp (hused hu hk), rfl⟩
    · rw [stamp_setFrame_ne hji, stamp_setFrame_ne hki, hr.order j k (hused hj hji) (hused hk hki), h.stamp, h.stamp]

theorem length_drop (is : List Nat) (p : BufferPool σ) :
    (is.foldl (fun p i => p.setFrame i {}) p).frames.length = p.frames.length := by
  induction is generalizing p
  case nil => rfl
  case cons i is hi => exact (hi _).trans List.length_set

end

section

variable [Device σ] {p q : BufferPool σ}

theorem fetch_refresh (hi : p.Inv) (h : p.fetch j = (.ok i, q)) : ∃ p₁, Readies p j i p₁ ∧ q = p₁.refresh i := by
  simp only [fetch] at h
  split at h
  case isTrue => cases h
  case isFalse =>
    split at h
    case h_1 i hfind =>
      obtain ⟨f, hf, hu, hj⟩ := findFrame_some hfind
      cases h
      rw [frameAt_eq hf]
      refine ⟨p.setFrame i { f with pinCount := f.pinCount + 1 }, ?_, ?_⟩
      · exact .of_cleans (.refl p) (.refl p) (lt_of_frame? hf) hj (by rw [frameAt_eq hf]) (by rw [frameAt_eq hf])
      · have hs := nextTimestamp_same (p.setFrame i { f with pinCount := f.pinCount + 1 })
        obtain ⟨g, hg, he⟩ := hs.frame? (frame?_setFrame_self hf)
        obtain ⟨_, _, hin⟩ := Frame.eq_of_unstamped he
        rw [refresh, frameAt_eq hg, hin.trans hu]
    case h_2 =>
      split at h
      case h_1 => cases h
      case h_2 page s hr =>
        split at h <;> cases h
        case h_2 p₁ ha =>
          have hdev : Cleans p { p with dev := s } := ⟨rfl, rfl, (Cleans.refl p).clean⟩
          have hs : SameStamps p { p with dev := s } := .of_frames rfl rfl rfl
          obtain ⟨hcl, f, hf, _⟩ := acquireFrame_oldest (hi.keeps_dev s).inv ha
          refine ⟨p₁.setFrame i { p₁.frameAt i with page, pinCount := 1 }, ?_, rfl⟩
          exact .of_cleans (hdev.trans hcl) (hs.trans (acquireFrame_stamps ha)) (lt_of_frame? hf)
            (Device.read_ok hr).left rfl rfl

theorem fetch_length (hi : p.Inv) (h : p.fetch j = (res, q)) : q.frames.length = p.frames.length := by
  cases res
  case error =>
    have ⟨_, hq⟩ := fetch_error h
    rw [hq]
  case ok =>
    have ⟨p₁, hr, hq⟩ := fetch_refresh hi h
    rw [hq, length_refresh, hr.length]

theorem resize_length (h : p.resize a n = (res, q)) :
    q.frames.length ≤ p.frames.length ∨ (a = .success ∧ q.frames.length = n) := by
  cases resize_cases h
  case refused => exact .inl le_rfl
  case same => exact .inl le_rfl
  case grown ha =>
    simp only [List.length_append, List.length_replicate]
    by_cases hl : p.frames.length < n
    case pos => exact .inr ⟨ha hl, by omega⟩
    case neg => exact .inl (by omega)
  case unflushed hf => exact .inl (flushFrames_cleans hf).left.length.le
  case shrunk is p₁ _ _ _ hf =>
    have ⟨rest, he, _⟩ := trim_spec n (is.foldl (fun p i => p.setFrame i {}) p₁).frames
    have hlen := congrArg List.length he
    rw [List.length_append, length_drop, (flushFrames_cleans hf).left.length] at hlen
    exact .inl (hlen ▸ Nat.le_add_right _ _)

end

end BufferPool

-- A vector can never have as many frames as there are stamps.
def PoolOp.Feasible : PoolOp → Prop
  | .resize .success n => n < BufferPool.maxStamp
  | _                  => True

namespace Client

-- The stamps tell which of two pages was fetched last.
structure Recent (c : Client σ) : Prop where
  clock   : c.pool.accessClock ≤ BufferPool.maxStamp
  stamps  : c.pool.Stamps
  fetched : ∀ i, c.pool.Used i → (c.pool.frameAt i).page.id ∈ c.fetched
  order   : ∀ i j, c.pool.Used i → c.pool.Used j →
              (c.pool.stamp i < c.pool.stamp j ↔
                c.lastFetch (c.pool.frameAt i).page.id < c.lastFetch (c.pool.frameAt j).page.id)

section

variable {c c' : Client σ} {id : PageId}

-- The frames that are still in use hold pages that the pool had with the same stamps.
theorem Recent.retains (h : Recent c) (hi : c'.pool.Inv) (hr : c.pool.Retains c'.pool)
    (hf : c'.fetched = c.fetched) : Recent c' := by
  have hold : ∀ i, c'.pool.Used i → ∃ k, c.pool.Used k ∧
      (c.pool.frameAt k).page.id = (c'.pool.frameAt i).page.id ∧ c.pool.stamp k = c'.pool.stamp i := by
    intro i hu
    have ⟨k, f, hk, hfu, hid, hn⟩ := hr.pages _ _ ⟨i, _, hu.frame?, hu, rfl, rfl⟩
    rw [← BufferPool.frameAt_eq hk] at hfu hid hn
    exact ⟨k, hfu, hid, hn⟩
  refine ⟨hr.same.clock ▸ h.clock, ⟨fun i j hui huj he => ?_, fun i hu => ?_⟩, fun i hu => ?_, fun i j hui huj => ?_⟩
  · have ⟨k, hk, hkid, hks⟩ := hold i hui
    have ⟨l, hl, hlid, hls⟩ := hold j huj
    have hkl := h.stamps.distinct k l hk hl (by rw [hks, hls, he])
    exact hi.unique i j _ _ hui.frame? huj.frame? hui huj (by rw [← hkid, hkl, hlid])
  · have ⟨k, hk, _, hks⟩ := hold i hu
    rw [← hks, hr.same.clock]
    exact h.stamps.le_clock k hk
  · have ⟨k, hk, hkid, _⟩ := hold i hu
    rw [← hkid, hf]
    exact h.fetched k hk
  · have ⟨k, hk, hkid, hks⟩ := hold i hui
    have ⟨l, hl, hlid, hls⟩ := hold j huj
    rw [← hks, ← hls, ← hkid, ← hlid, lastFetch, lastFetch, hf]
    exact h.order k l hk hl

-- The page that was fetched is the most recent one, and the order of the others is as before.
theorem Recent.refreshes (h : Recent c) (hi : c'.pool.Inv) (hr : c.pool.Refreshes id i c'.pool)
    (hf : c'.fetched = id :: c.fetched) : Recent c' := by
  have hother : ∀ k, c'.pool.Used k → k ≠ i → (c'.pool.frameAt k).page.id ≠ id := by
    intro k hk hne hid
    exact hne <| hi.unique k i _ _ hk.frame? hr.own.frame? hk hr.own (hid.trans hr.page.symm)
  have hown : c'.lastFetch (c'.pool.frameAt i).page.id = c.fetched.length + 1 := by
    rw [hr.page, lastFetch, hf, List.recency_cons_self]
  have hage : ∀ k, c'.pool.Used k → k ≠ i →
      c'.lastFetch (c'.pool.frameAt k).page.id = c.lastFetch (c.pool.frameAt k).page.id := by
    intro k hk hne
    rw [lastFetch, hf, List.recency_cons_ne (hother k hk hne), (hr.used k hk hne).right, lastFetch]
  have hlt : ∀ k, c'.pool.Used k → k ≠ i →
      c'.lastFetch (c'.pool.frameAt k).page.id < c'.lastFetch (c'.pool.frameAt i).page.id := by
    intro k hk hne
    rw [hage k hk hne, hown, lastFetch, List.recency]
    omega
  refine ⟨hr.clock, hr.stamps, fun k hk => ?_, fun j k hj hk => ?_⟩
  · rw [hf]
    by_cases hki : k = i
    case pos => rw [hki, hr.page]; exact List.mem_cons_self
    case neg =>
      obtain ⟨hp, hid⟩ := hr.used k hk hki
      exact List.mem_cons_of_mem _ (hid ▸ h.fetched k hp)
  · by_cases hji : j = i <;> by_cases hki : k = i
    · rw [hji, hki]
      simp only [lt_irrefl]
    · subst hji
      exact iff_of_false (hr.latest k hk hki).not_gt (hlt k hk hki).not_gt
    · subst hki
      exact iff_of_true (hr.latest j hj hji) (hlt j hj hji)
    · rw [hage j hj hji, hage k hk hki, hr.order j k hj hk hji hki]
      exact h.order j k (hr.used j hj hji).left (hr.used k hk hki).left

theorem create_recent {s : σ} {p : BufferPool σ} (h : BufferPool.create s n = .ok p)
    (hn : n < BufferPool.maxStamp) :
    Inv { pool := p } ∧ Recent { pool := p } ∧ p.frames.length < BufferPool.maxStamp := by
  obtain ⟨hi, hpins, _, hempty⟩ := BufferPool.create_inv h
  have hfree : ∀ i, ¬p.Used i := fun i hu => hempty _ ⟨i, _, hu.frame?, hu, rfl⟩
  rw [BufferPool.create] at h
  split at h <;> cases h
  refine ⟨⟨hi, hpins, by rintro _ ⟨⟩⟩, ⟨Nat.zero_le _, ⟨?_, ?_⟩, ?_, ?_⟩, by rw [List.length_replicate]; exact hn⟩
  · exact fun i _ hu => absurd hu (hfree i)
  · exact fun i hu => absurd hu (hfree i)
  · exact fun i hu => absurd hu (hfree i)
  · exact fun i _ hu => absurd hu (hfree i)

theorem release_length (c : Client σ) (k : Nat) : (c.release k).pool.frames.length = c.pool.frames.length := by
  rw [release]
  split
  case h_1 => rfl
  case h_2 =>
    simp only [BufferPool.unpinFrame]
    split
    case isTrue => rfl
    case isFalse => exact List.length_set

end

section

variable [Device σ] {c : Client σ}

theorem step_length (hi : Inv c) (hop : op.Feasible) (hl : c.pool.frames.length < BufferPool.maxStamp) :
    (c.step op).snd.pool.frames.length < BufferPool.maxStamp := by
  cases op <;> rw [step]
  case declare => exact hl
  case fetch k id =>
    split
    case isFalse => exact hl
    case isTrue =>
      rw [fetch]
      cases hf : (c.release k).pool.fetch id
      case mk res q =>
        have hlen := BufferPool.fetch_length (hi.release k).left.pool hf
        rw [release_length] at hlen
        cases res <;> exact hlen ▸ hl
  case moveConstruct => exact hl
  case moveAssign dst src =>
    split
    case isFalse => exact hl
    case isTrue =>
      rw [moveAssign]
      split
      case isTrue => exact hl
      case isFalse => exact (release_length c dst).symm ▸ hl
  case unpin k =>
    split
    case isTrue => exact hl
    case isFalse => exact (release_length c k).symm ▸ hl
  case destroy k => exact (release_length c k).symm ▸ hl
  case modify k f =>
    rw [modify]
    split
    case h_1 => exact hl
    case h_2 => exact List.length_set.symm ▸ hl
  case flushPage id =>
    cases hf : c.pool.flushPage id
    case mk => exact (BufferPool.flushPage_cleans hf).length ▸ hl
  case flushAll =>
    cases hf : c.pool.flushAll
    case mk => exact (BufferPool.flushEach_cleans hf).length ▸ hl
  case resize a n =>
    cases hr : c.pool.resize a n
    case mk =>
      rcases BufferPool.resize_length hr with h | ⟨ha, h⟩
      · exact h.trans_lt hl
      · subst ha
        exact h ▸ hop
  case allocate => split <;> exact hl
  case write => split <;> exact hl

theorem Recent.step (h : Recent c) (hi : Inv c) (hl : c.pool.frames.length < BufferPool.maxStamp) (op : PoolOp) :
    Recent (c.step op).snd := by
  have hi' := (hi.step op).pool
  rcases step_retains hi.pool (c.step op).eta.symm with ⟨hr, hf⟩ | ⟨k, id, i, _, _, hfetch, hf⟩
  · exact h.retains hi' hr hf
  · have ⟨hrel, hrf⟩ := release_retains c k
    have hir := (hi.release k).left.pool
    have hrec := h.retains hir hrel hrf
    have ⟨p₁, hready, hq⟩ := BufferPool.fetch_refresh hir hfetch
    have hr := hready.refreshes hrec.stamps hrec.clock ((release_length c k).symm ▸ hl)
    exact hrec.refreshes hi' (hq ▸ hr) (hrf.symm ▸ hf)

theorem Recent.run (h : Recent c) (hi : Inv c) (hl : c.pool.frames.length < BufferPool.maxStamp)
    (hops : ∀ op ∈ ops, op.Feasible) : Recent (c.run ops) := by
  induction ops generalizing c
  case nil => exact h
  case cons op ops ih =>
    have ⟨hop, hops⟩ := List.forall_mem_cons.mp hops
    exact ih (h.step hi hl op) (hi.step op) (step_length hi hop hl) hops

end

end Client

-- The clock is renumbered without a trace in the order of the frames. Runs can be of any length.
theorem renumbering_keeps_recency [Device σ] :
    (∀ (p q : BufferPool σ) n, p.Stamps → p.accessClock < 2 ^ 64 → p.size < 2 ^ 64 - 1 →
      p.nextTimestamp = (n, q) →
      (∀ i, q.Used i → q.stamp i < n) ∧ q.Stamps ∧ q.accessClock = n ∧ n < 2 ^ 64 ∧ BufferPool.Restamps p q) ∧
    (∀ (c : Client σ) ops, c.Inv → c.Recent → c.pool.frames.length < 2 ^ 64 - 1 →
      (∀ op ∈ ops, op.Feasible) → (c.run ops).Recent) ∧
    (∀ (s : σ) n, 0 < n → n < 2 ^ 64 - 1 → ∃ pool, BufferPool.create s n = .ok pool ∧
      ∀ ops, (∀ op ∈ ops, op.Feasible) → (Client.run { pool } ops).Recent) := by
  refine ⟨fun p q n hs hc hn he => ?_, fun c ops hi hr hl hops => hr.run hi hl hops, fun s n hpos hn => ?_⟩
  · have ⟨hr, hq, hlt, hclock, hle⟩ := hs.nextTimestamp (Nat.le_pred_of_lt hc) hn he
    exact ⟨hlt, hq, hclock, Nat.lt_of_le_pred (by decide) hle, hr⟩
  · refine ⟨⟨s, n, List.replicate n {}, 0, 0⟩, if_neg (Nat.ne_of_gt hpos), fun ops hops => ?_⟩
    have ⟨hi, hr, hl⟩ := Client.create_recent (s := s) (if_neg (Nat.ne_of_gt hpos)) hn
    exact hr.run hi hl hops

end NexusDb
