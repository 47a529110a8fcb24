import NexusDb.Buffer.Theorems.Eviction
import NexusDb.Buffer.Theorems.Healthy

namespace NexusDb

namespace BufferPool

-- As many frames are pinned as the pool may use.
def AllPinned (p : BufferPool σ) : Prop :=
  p.capacity ≤ p.pinnedFrames

instance (p : BufferPool σ) : Decidable p.AllPinned :=
  inferInstanceAs (Decidable (_ ≤ _))

-- The pool has the page, or a frame that it can be loaded into.
def CanHold (p : BufferPool σ) (i : PageId) : Prop :=
  p.AllPinned → p.Resident i

-- The two states have frames for the same pages.
structure SameRoom (p q : BufferPool σ) : Prop where
  capacity : q.capacity = p.capacity
  pins     : ∀ i, q.pins i = p.pins i
  resident : p.AllPinned → ∀ j, q.Resident j ↔ p.Resident j

section

variable {p q r : BufferPool σ}

theorem pinnedFrames_eq (h : p.frames.length ≤ n) :
    p.pinnedFrames = (List.range n).countP fun i => 0 < p.pins i := by
  induction n, h using Nat.le_induction
  case base => exact (List.countP_range_getD (P := fun f : Frame => 0 < f.pinCount) {}).symm
  case succ n hn ih =>
    have hz : p.pins n = 0 := pins_eq_zero (List.getElem?_eq_none hn)
    rw [ih, List.range_succ, List.countP_append, List.countP_singleton, hz]
    rfl

theorem pinnedFrames_congr (h : ∀ i, q.pins i = p.pins i) : q.pinnedFrames = p.pinnedFrames := by
  rw [pinnedFrames_eq (le_max_left _ p.frames.length), pinnedFrames_eq (le_max_right q.frames.length _)]
  simp only [h]

namespace SameRoom

theorem allPinned (h : SameRoom p q) : q.AllPinned ↔ p.AllPinned := by
  rw [AllPinned, AllPinned, h.capacity, pinnedFrames_congr h.pins]

theorem canHold (h : SameRoom p q) : q.CanHold j ↔ p.CanHold j := by
  constructor
  case mp => exact fun hj ha => (h.resident ha j).mp (hj (h.allPinned.mpr ha))
  case mpr =>
    intro hj ha
    have ha := h.allPinned.mp ha
    exact (h.resident ha j).mpr (hj ha)

theorem refl (p : BufferPool σ) : SameRoom p p :=
  ⟨rfl, fun _ => rfl, fun _ _ => .rfl⟩

theorem trans (h₁ : SameRoom p q) (h₂ : SameRoom q r) : SameRoom p r where
  capacity := h₂.capacity.trans h₁.capacity
  pins i := (h₂.pins i).trans (h₁.pins i)
  resident ha j := (h₂.resident (h₁.allPinned.mpr ha) j).trans (h₁.resident ha j)

theorem dev (p : BufferPool σ) (s : σ) : SameRoom p { p with dev := s } :=
  ⟨rfl, fun _ => rfl, fun _ _ => .rfl⟩

end SameRoom

-- Then there is nothing to evict.
theorem AllPinned.full (h : p.AllPinned) (hi : p.Inv) : ¬p.size < p.capacity ∧ p.victimOrder = [] := by
  have hsize := hi.size_eq
  have hle := hi.size_le
  rw [AllPinned] at h
  exact ⟨by omega, List.eq_nil_of_length_eq_zero (by omega)⟩

theorem AllPinned.not_eligible (h : p.AllPinned) (hi : p.Inv) (hf : p.frame? i = some f) : ¬eligible f := by
  intro he
  have hm := mem_victimOrder.mpr ⟨f, hf, he⟩
  rw [(h.full hi).right] at hm
  cases hm

-- And otherwise there is, unless there is a free frame.
theorem eligible_of_not_allPinned (h : ¬p.AllPinned) (hi : p.Inv) (hs : ¬p.size < p.capacity) :
    ∃ f ∈ p.frames, eligible f := by
  have hsize := hi.size_eq
  rw [AllPinned] at h
  obtain ⟨i, hm⟩ : ∃ i, i ∈ p.victimOrder := List.exists_mem_of_length_pos (by omega)
  obtain ⟨f, hf, he⟩ := mem_victimOrder.mp hm
  exact ⟨f, mem_of_frame? hf, he⟩

end

section

variable [Device σ] {p q : BufferPool σ} {s : PageStorage}

theorem edit_resident (p : BufferPool σ) (i : Nat) (d : Option PageData) :
    (∀ j, (p.edit i d).Resident j ↔ p.Resident j) ∧ (p.edit i d).capacity = p.capacity := by
  cases d
  case none => exact ⟨fun _ => .rfl, rfl⟩
  case some d =>
    refine ⟨fun j => ?_, rfl⟩
    cases hf : p.frame? i
    case none =>
      have hset : ∀ g, p.frames.set i g = p.frames := fun g =>
        List.set_eq_of_length_le (List.getElem?_eq_none_iff.mp hf)
      simp only [edit, BufferPool.setFrame, hset]
      rfl
    case some f =>
      have hset : p.frames = p.frames.set i f := by
        obtain ⟨hlt, he⟩ := List.getElem?_eq_some_iff.mp hf
        rw [← he, List.set_getElem_self]
      rw [edit_eq hf]
      refine (exists_frame_set (g := { f with page := { f.page with data := d, dirty := true } }) hf rfl).trans ?_
      exact (exists_frame_set (P := fun f => f.inUse ∧ f.page.id = j) hf hset).symm

theorem acquireFrame_allPinned (hi : p.Inv) (h : p.AllPinned) : p.acquireFrame = (.error allPinned, p) := by
  have hv : victim p.frames = none := victim_eq_none_iff.mpr fun f hf he =>
    have ⟨_, hf⟩ := frame?_of_mem hf
    absurd he (h.not_eligible hi hf)
  rw [acquireFrame, if_neg (h.full hi).left]
  simp only [hv]

theorem acquireFrame_spare (hi : p.Inv) (hc : p.Clock) (hn : p.fetches < maxStamp) (h : ¬p.AllPinned)
    (ha : p.acquireFrame = (.error e, q)) : ∃ i, p.flushFrame i = (.error e, q) := by
  rw [acquireFrame] at ha
  by_cases hs : p.size < p.capacity
  case pos =>
    obtain ⟨i, hfree⟩ := free_of_size_lt (hs.trans_le hi.frame_le)
    rw [if_pos hs, hfree] at ha
    cases ha
  case neg =>
    rw [if_neg hs] at ha
    simp only at ha
    split at ha
    case h_1 hv =>
      obtain ⟨f, hf, he⟩ := eligible_of_not_allPinned h hi hs
      have := victim_none hv hf he
      have := hc.stamps f hf
      omega
    case h_2 i _ =>
      split at ha <;> cases ha
      case h_1 hf => exact ⟨i, hf⟩

-- Fetching a page that is there gives a frame, without a call on the device.
theorem fetch_resident (hr : p.Resident j) (hj : j ≠ invalidId) : ∃ i q, p.fetch j = (.ok i, q) ∧ q.dev = p.dev := by
  cases hf : p.findFrame j
  case none => exact absurd hr (findFrame_none hf)
  case some i =>
    rw [fetch, if_neg hj, hf]
    exact ⟨i, _, rfl, (nextTimestamp_same _).dev⟩

theorem fetch_allPinned (hi : p.Inv) (h : p.AllPinned) (hj : j ≠ invalidId) (hr : ¬p.Resident j) :
    p.fetch j =
      match Device.readPage p.dev j with
      | (.error e, dev) => (.error e, { p with dev })
      | (.ok _, dev)    => (.error allPinned, { p with dev }) := by
  rw [fetch, if_neg hj, findFrame_absent hr]
  rcases Device.readPage p.dev j with ⟨e | page, dev⟩
  · rfl
  · simp only [acquireFrame_allPinned (p := { p with dev }) (hi.keeps_dev dev).inv h]

-- How a fetch fails when not all frames are pinned.
theorem fetch_spare (hi : p.Inv) (hc : p.Clock) (hn : p.fetches < maxStamp) (h : ¬p.AllPinned)
    (hf : p.fetch j = (.error e, q)) :
    (j = invalidId ∧ e = bad "invalid page id") ∨
    (j ≠ invalidId ∧ ∃ dev, Device.readPage p.dev j = (.error e, dev) ∧ q = { p with dev }) ∨
    (∃ page dev i, Device.readPage p.dev j = (.ok page, dev) ∧ { p with dev }.flushFrame i = (.error e, q)) := by
  simp only [fetch] at hf
  split at hf
  case isTrue hj => cases hf; exact .inl ⟨hj, rfl⟩
  case isFalse hj =>
    split at hf
    case h_1 => cases hf
    case h_2 =>
      split at hf
      case h_1 dev hr => cases hf; exact .inr <| .inl ⟨hj, dev, hr, rfl⟩
      case h_2 page dev hr =>
        split at hf <;> cases hf
        case h_1 ha =>
          have hc' : Clock { p with dev } := hc.of_same (.of_frames rfl rfl rfl)
          obtain ⟨i, hfl⟩ := acquireFrame_spare (hi.keeps_dev dev).inv hc' hn h ha
          exact .inr <| .inr ⟨page, dev, i, hr, hfl⟩

-- A pool that shows the pages of `s` and has stamps for `n` more fetches. Others may hold pages of it.
structure Ready (p : BufferPool σ) (s : PageStorage) (n : Nat) : Prop where
  inv      : p.Inv
  coherent : p.Coherent s.page?
  clock    : p.Clock
  stamps   : p.fetches + n < maxStamp

namespace Ready

theorem mono (h : p.Ready s n) (hle : m ≤ n) : p.Ready s m :=
  ⟨h.inv, h.coherent, h.clock, by have := h.stamps; omega⟩

theorem of_serves (h : p.Serves s) (hn : p.fetches + n < maxStamp) : p.Ready s n :=
  ⟨h.inv, h.coherent, h.clock (by omega), hn⟩

theorem dev {dev : σ} (h : p.Ready s n) (hc : Coherent { p with dev } s'.page?) : Ready { p with dev } s' n :=
  ⟨(h.inv.keeps_dev dev).inv, hc, h.clock.of_same (.of_frames rfl rfl rfl), h.stamps⟩

theorem same_pages {dev : σ} (h : p.Ready s n) (hd : Device.page? dev = Device.page? p.dev) : Ready { p with dev } s n :=
  h.dev (h.coherent.same_pages hd)

-- A fetch that fails.
theorem failed (h : p.Ready s n) (hf : p.fetch j = (.error e, q)) : q.Ready s n ∧ SameRoom p q := by
  obtain ⟨dev, rfl⟩ := fetch_error hf
  rcases fetch_cases hf with ⟨_, _, st⟩ | ⟨_, _, hr, _⟩
  · exact ⟨h.dev (h.coherent.steps h.inv st), .dev p dev⟩
  · cases hr

theorem pin (h : p.Ready s (n + 1)) (hf : p.fetch j = (.ok i, q)) : q.Ready s n := by
  have hlt : p.fetches < maxStamp := by
    have := h.stamps
    omega
  rcases fetch_cases hf with ⟨_, hr, _⟩ | ⟨_, p₁, hr, st, hp⟩ <;> cases hr
  rcases fetch_stamps hf with ⟨_, hr, _⟩ | ⟨_, _, hn, hcl⟩
  · cases hr
  · have hstamps := h.stamps
    exact ⟨((h.inv.keeps_steps st).inv.pinned hp).left, ((h.coherent.steps h.inv st).pinned hp).left,
      hcl h.clock hlt, by omega⟩

-- Fetching a page, working on it and giving it up again.
theorem use {d : Option PageData} (h : p.Ready s (n + 1)) (hf : p.fetch j = (.ok i, q)) :
    s.page? j = some (q.frameAt i).page.data ∧
      ((q.edit i d).unpinFrame i).Ready (d.elim s (s.setPage j)) n ∧ SameRoom p ((q.edit i d).unpinFrame i) ∧
      ((q.edit i d).unpinFrame i).Resident j := by
  have hlt : p.fetches < maxStamp := by
    have := h.stamps
    omega
  have hfs := fetch_fetches h.inv h.clock hlt hf
  obtain ⟨hd, hnone, hsome⟩ := h.coherent.use h.inv hf
  have hk := h.inv.keeps_use hf d
  have hst := (edit_stamps q i d).trans (.unpin _ i)
  have hq := h.pin hf
  obtain ⟨hres, _, hcap⟩ := unpin_resident (q.edit i d) i
  obtain ⟨hres', hcap'⟩ := edit_resident q i d
  have hres : ∀ k, ((q.edit i d).unpinFrame i).Resident k ↔ q.Resident k := fun k => (hres k).trans (hres' k)
  refine ⟨hd, ⟨hk.inv, ?_, hq.clock.of_same hst, ?_⟩, ⟨?_, hk.pins, fun ha k => (hres k).trans ?_⟩, (hres j).mpr ?_⟩
  · rcases d with _ | d
    · exact hnone
    · exact hsome d
  · rw [hst.fetches]
    exact hq.stamps
  · rw [hcap, hcap', fetch_capacity h.inv hf]
  · rcases hfs.resident h.inv with ⟨_, hq⟩ | ⟨_, hs, _⟩ | ⟨_, _, f, hf, he, _⟩
    · exact hq k
    · exact absurd hs (ha.full h.inv).left
    · exact absurd he (ha.not_eligible h.inv hf)
  · rcases hfs.resident h.inv with ⟨hj, hq⟩ | ⟨_, _, hq⟩ | ⟨_, _, _, _, _, _, hq⟩
    · exact (hq j).mpr hj
    · exact (hq j).mpr (.inl rfl)
    · exact (hq j).mpr (.inl rfl)

-- A page that the pool can hold is fetched, unless a call on the device fails.
theorem fetch_missing (h : p.Ready s (n + 1)) (hj : (s.page? j).isSome → p.CanHold j) (hf : p.fetch j = (.error e, q))
    (ho : Device.ok q.dev) :
    (j = invalidId ∧ e = bad "invalid page id") ∨
      (j ≠ invalidId ∧ s.page? j = none ∧ e = PageStorage.beyondEnd j s.numPages) := by
  have hlt : p.fetches < maxStamp := by
    have := h.stamps
    omega
  have hread : ∀ {dev}, j ≠ invalidId → Device.readPage p.dev j = (.error e, dev) → Device.ok dev →
      j ≠ invalidId ∧ s.page? j = none ∧ e = PageStorage.beyondEnd j s.numPages := by
    intro dev hj hr ho
    obtain ⟨hlt, he⟩ := Device.read_error hr ho
    rw [h.coherent.numPages] at hlt he
    rw [← PageStorage.page?_isSome_iff] at hlt
    exact ⟨hj, by simpa using hlt, he⟩
  by_cases hid : j = invalidId
  case pos =>
    rw [fetch, if_pos hid] at hf
    cases hf
    exact .inl ⟨hid, rfl⟩
  case neg =>
    refine .inr ?_
    by_cases hr : p.Resident j
    case pos =>
      obtain ⟨i, q', hok, _⟩ := fetch_resident hr hid
      cases hf.symm.trans hok
    case neg =>
      by_cases ha : p.AllPinned
      case pos =>
        rw [fetch_allPinned h.inv ha hid hr] at hf
        rcases hread' : Device.readPage p.dev j with ⟨e' | page, dev⟩
        · simp only [hread'] at hf
          cases hf
          exact hread hid hread' ho
        · have hsome : (s.page? j).isSome := by
            rw [← h.coherent.allocated, (Device.read_ok hread').right.right]
            rfl
          exact absurd (hj hsome ha) hr
      case neg =>
        rcases fetch_spare h.inv h.clock hlt ha hf with ⟨hinv, _⟩ | ⟨_, dev, hr, rfl⟩ | ⟨page, dev, i, hr, hfl⟩
        · exact absurd hinv hid
        · exact hread hid hr ho
        · have hc : Coherent { p with dev } s.page? := h.coherent.same_pages <| by
            have := Device.read_page? (s := p.dev) (i := j)
            rwa [hr] at this
          exact absurd ho (hc.flushFrame hfl)

end Ready

end

end BufferPool

namespace Prog

open BufferPool (SameRoom)

section

variable [Device σ] {p q : BufferPool σ} {s : PageStorage}

-- Running code leaves a pool that is ready for the fetches that are left. Code that only reads leaves the pages.
theorem AtMost.ready {g : Prog α} (hg : g.AtMost m) (h : p.Ready s (m + n)) :
    ∃ s', (g.exec p).snd.Ready s' n ∧ SameRoom p (g.exec p).snd ∧ (g.ReadOnly → s' = s) := by
  induction g generalizing p s m
  case ret => exact ⟨s, h.mono (Nat.le_add_left ..), .refl p, fun _ => rfl⟩
  case numPages k ih =>
    obtain ⟨s', hr, hs, heq⟩ := ih _ (hg _) (h.same_pages Device.count_page?)
    exact ⟨s', hr, (SameRoom.dev p _).trans hs, fun hro => heq (hro _)⟩
  case newPage d k ih =>
    have hgo : ∀ r {dev : σ} {s₁ : PageStorage}, BufferPool.Coherent { p with dev } s₁.page? →
        ∃ s', ((k r).exec { p with dev }).snd.Ready s' n ∧ SameRoom p ((k r).exec { p with dev }).snd ∧
          ((newPage d k).ReadOnly → s' = s) := by
      intro r dev s₁ hc
      obtain ⟨s', hr, hs, _⟩ := ih r (hg r) (h.dev hc)
      exact ⟨s', hr, (SameRoom.dev p dev).trans hs, False.elim⟩
    rw [exec]
    split
    case h_1 ha => exact hgo _ (h.coherent.same_pages (Device.alloc_error ha))
    case h_2 ha =>
      split
      case h_1 hw =>
        obtain ⟨_, hc⟩ := h.coherent.newPage_failed ha hw
        exact hgo _ hc
      case h_2 hw => exact hgo _ (h.coherent.newPage ha hw)
  case withPage id f k ih =>
    cases m
    case zero => cases hg
    case succ m =>
      have h : p.Ready s (m + n + 1) := h.mono (by omega)
      rw [exec]
      split
      case h_1 hf =>
        obtain ⟨hr, hs⟩ := h.failed hf
        obtain ⟨s', hr', hs', heq⟩ := ih _ (hg _) (hr.mono (Nat.le_succ _))
        exact ⟨s', hr', hs.trans hs', fun hro => heq (hro.right _)⟩
      case h_2 hf =>
        split
        case h_1 =>
          obtain ⟨_, hr, hs, _⟩ := h.use (d := none) hf
          exact ⟨s, hr.mono (Nat.le_add_left ..), hs, fun _ => rfl⟩
        case h_2 d hd =>
          obtain ⟨_, hr, hs, _⟩ := h.use (d := d) hf
          obtain ⟨s', hr', hs', heq⟩ := ih _ (hg _) hr
          refine ⟨s', hr', hs.trans hs', fun hro => (heq (hro.right _)).trans ?_⟩
          obtain ⟨_, hd'⟩ := hro.left _
          cases hd.symm.trans hd'
          rfl

theorem ReadOnly.ready {g : Prog α} (hro : g.ReadOnly) (hg : g.AtMost m) (h : p.Ready s (m + n))
    (he : g.exec p = (r, q)) : q.Ready s n ∧ SameRoom p q := by
  obtain ⟨s', hr, hs, heq⟩ := hg.ready h
  rw [heq hro, he] at hr
  rw [he] at hs
  exact ⟨hr, hs⟩

-- Code is healthy as long as no call on the device fails, if it fetches no pages or not all frames are pinned.
theorem AtMost.healthy {g : Prog α} (hg : g.AtMost n) (h : p.Ready s n) (hs : n ≠ 0 → ¬p.AllPinned)
    (ho : Device.ok (g.exec p).snd.dev) : g.Healthy p := by
  induction g generalizing p s n
  case ret => trivial
  case numPages k ih =>
    rw [exec] at ho
    rw [Healthy]
    rcases hn : Device.countPages p.dev with ⟨e | m, dev⟩
    · simp only [hn] at ho
      exact absurd (exec_ok_mono _ _ ho) (Device.count_fails hn)
    · simp only [hn] at ho ⊢
      exact ih _ (hg _) (h.same_pages (BufferPool.count_same hn)) hs ho
  case newPage d k ih =>
    rw [exec] at ho
    rw [Healthy]
    rcases ha : Device.allocatePage p.dev with ⟨e | page, dev⟩
    · simp only [ha] at ho ⊢
      obtain ⟨hn, he⟩ := Device.alloc_fails ha (exec_ok_mono _ _ ho)
      exact ⟨hn, he, ih _ (hg _) (h.same_pages (Device.alloc_error ha)) hs ho⟩
    · obtain ⟨hn, hpage, hpages⟩ := Device.alloc_ok ha
      simp only [ha] at ho ⊢
      rcases hw : Device.writePage dev .direct { page with data := d, dirty := true } with ⟨e | ⟨⟩, dev'⟩
      · simp only [hw] at ho
        refine absurd ?_ (Device.write_fails hw (exec_ok_mono _ _ ho))
        rw [← Device.page?_isSome, hpages, if_pos rfl]
        rfl
      · simp only [hw] at ho ⊢
        exact ih _ (hg _) (h.dev (h.coherent.newPage ha hw)) hs ho
  case withPage id f k ih =>
    cases n
    case zero => cases hg
    case succ n =>
      have hs := hs (Nat.succ_ne_zero n)
      rw [exec] at ho
      rw [Healthy]
      rcases hf : p.fetch id with ⟨e | i, q⟩
      · simp only [hf] at ho ⊢
        obtain ⟨hr, hsame⟩ := h.failed hf
        refine ⟨?_, ih _ (hg _) (hr.mono (Nat.le_succ n)) (fun _ => mt hsame.allPinned.mp hs) ho⟩
        rw [h.coherent.numPages]
        rcases h.fetch_missing (fun _ ha => absurd ha hs) hf (exec_ok_mono _ _ ho) with hinv | ⟨hid, hnone, he⟩
        · exact .inl hinv
        · refine .inr ⟨hid, fun hlt => ?_, he⟩
          have := PageStorage.page?_isSome_iff.mpr hlt
          rw [hnone] at this
          cases this
      · simp only [hf] at ho ⊢
        rcases hr : f (q.frameAt i).page.data with _ | ⟨r, d⟩
        · trivial
        · simp only [hr] at ho ⊢
          obtain ⟨_, hready, hsame, _⟩ := h.use (d := d) hf
          exact ih _ (hg _) hready (fun _ => mt hsame.allPinned.mp hs) ho

theorem healthy_bind {g : Prog α} {k : α → Prog β} :
    (g.bind k).Healthy p ↔ g.Healthy p ∧ ∀ a q, g.exec p = (some a, q) → (k a).Healthy q := by
  induction g generalizing p
  case ret a => simp [bind, Healthy, exec]
  case numPages k ih =>
    simp only [bind, Healthy, exec]
    rcases Device.countPages p.dev with ⟨e | n, dev⟩
    · exact iff_of_false id fun h => h.left
    · exact ih _
  case newPage d k ih =>
    simp only [bind, Healthy, exec]
    rcases Device.allocatePage p.dev with ⟨e | page, dev⟩
    · simp only [ih, and_assoc]
    · simp only
      rcases Device.writePage dev .direct { page with data := d, dirty := true } with ⟨e | ⟨⟩, dev'⟩
      · exact iff_of_false id fun h => h.left
      · exact ih _
  case withPage id f k ih =>
    simp only [bind, Healthy, exec]
    rcases p.fetch id with ⟨e | i, q⟩
    · simp only [ih, and_assoc]
    · simp only
      rcases f (q.frameAt i).page.data with _ | ⟨r, d⟩
      · exact iff_of_true trivial ⟨trivial, by rintro _ _ ⟨⟩⟩
      · exact ih _

end

-- What code returns when every error that the pool and the storage report has `P`.
def Reports (P : Error → Prop) (Q : α → Prop) : Prog α → Prop
  | ret a          => Q a
  | numPages k     => (∀ e, P e → (k (.error e)).Reports P Q) ∧ ∀ n, (k (.ok n)).Reports P Q
  | newPage _ k    => (∀ e, P e → (k (.error e)).Reports P Q) ∧ ∀ i, (k (.ok i)).Reports P Q
  | withPage _ f k => (∀ e, P e → (k (.error e)).Reports P Q) ∧ ∀ d r, f d = some r → (k r.fst).Reports P Q

theorem Reports.bind {g : Prog α} {k : α → Prog β} (hg : g.Reports P Q) (hk : ∀ a, Q a → (k a).Reports P R) :
    (g.bind k).Reports P R := by
  induction g
  case ret a => exact hk a hg
  case numPages ih => exact ⟨fun e he => ih _ (hg.left e he), fun n => ih _ (hg.right n)⟩
  case newPage ih => exact ⟨fun e he => ih _ (hg.left e he), fun i => ih _ (hg.right i)⟩
  case withPage ih => exact ⟨fun e he => ih _ (hg.left e he), fun d r hr => ih _ (hg.right d r hr)⟩

end Prog

-- The calls on the files never report that the pool is full.

theorem Disk.countPages_code {d : Disk} (h : d.countPages = (.error e, d')) : e.code ≠ .bufferFull := by
  rw [countPages] at h
  split at h
  case isTrue => cases h; rintro ⟨⟩
  case isFalse => split at h <;> cases h; rintro ⟨⟩

theorem Disk.readPage_code {d : Disk} (h : d.readPage i = (.error e, d')) : e.code ≠ .bufferFull := by
  rw [readPage] at h
  split at h
  case isTrue => cases h; rintro ⟨⟩
  case isFalse =>
    split at h
    case h_1 hr =>
      cases h
      rw [PageStorage.readPage] at hr
      split at hr <;> cases hr
      rintro ⟨⟩
    case h_2 => split at h <;> cases h; rintro ⟨⟩

theorem Disk.allocatePage_code {d : Disk} (h : d.allocatePage = (.error e, d')) : e.code ≠ .bufferFull := by
  rw [allocatePage] at h
  split at h
  case isTrue => cases h; rintro ⟨⟩
  case isFalse =>
    split at h
    case h_1 ha =>
      cases h
      rw [PageStorage.allocatePage] at ha
      split at ha <;> cases ha
      rintro ⟨⟩
    case h_2 => split at h <;> cases h; rintro ⟨⟩

-- Nor does the pool, unless it is.
theorem BufferPool.Ready.fetch_code {p : BufferPool Disk} (h : p.Ready s (n + 1)) (hs : ¬p.AllPinned)
    (hf : p.fetch j = (.error e, q)) : e.code ≠ .bufferFull := by
  have hlt : p.fetches < maxStamp := by
    have := h.stamps
    omega
  rcases fetch_spare h.inv h.clock hlt hs hf with ⟨_, he⟩ | ⟨_, _, hr, _⟩ | ⟨_, _, _, _, hfl⟩
  · rw [he]
    rintro ⟨⟩
  · exact Disk.readPage_code hr
  · exact flushFrame_code hfl

-- A page that exists is not fetched because all frames are pinned, or because a call on the files fails.
theorem BufferPool.Ready.fetch_fails {p : BufferPool Disk} (h : p.Ready s (n + 1)) (hd : (s.page? j).isSome)
    (hf : p.fetch j = (.error e, q)) :
    (¬p.CanHold j ∧ e = allPinned) ∨ (e.code ≠ .bufferFull ∧ ¬Device.ok q.dev) := by
  have hj : j ≠ invalidId := by
    obtain ⟨d, hd⟩ := Option.isSome_iff_exists.mp hd
    exact PageStorage.ne_invalidId hd
  by_cases hold : p.CanHold j
  case pos =>
    refine .inr ⟨?_, fun ho => ?_⟩
    · by_cases ha : p.AllPinned
      case pos =>
        obtain ⟨_, _, hok, _⟩ := fetch_resident (hold ha) hj
        cases hf.symm.trans hok
      case neg => exact h.fetch_code ha hf
    · rcases h.fetch_missing (fun _ => hold) hf ho with ⟨hinv, _⟩ | ⟨_, hnone, _⟩
      · exact hj hinv
      · rw [hnone] at hd
        cases hd
  case neg =>
    obtain ⟨ha, hr⟩ := Classical.not_imp.mp hold
    rw [fetch_allPinned h.inv ha hj hr] at hf
    rcases hread : Device.readPage p.dev j with ⟨e' | page, dev⟩
    · simp only [hread] at hf
      cases hf
      refine .inr ⟨Disk.readPage_code hread, fun ho => (Device.read_error hread ho).left ?_⟩
      rwa [← Device.page?_isSome, h.coherent.allocated]
    · simp only [hread] at hf
      cases hf
      exact .inl ⟨hold, rfl⟩

theorem Prog.Reports.exec {g : Prog α} (hr : g.Reports (·.code ≠ .bufferFull) Q) (hg : g.AtMost n)
    {p : BufferPool Disk} (h : p.Ready s n) (hs : ¬p.AllPinned) (he : g.exec p = (some a, q)) : Q a := by
  induction g generalizing p s n
  case ret => cases he; exact hr
  case numPages k ih =>
    rw [Prog.exec] at he
    rcases hn : Device.countPages p.dev with ⟨e | m, dev⟩
    all_goals
      simp only [hn] at he
      have h' := h.same_pages (BufferPool.count_same hn)
    · exact ih _ (hr.left e (Disk.countPages_code hn)) (hg _) h' hs he
    · exact ih _ (hr.right m) (hg _) h' hs he
  case newPage d k ih =>
    rw [Prog.exec] at he
    rcases ha : Device.allocatePage p.dev with ⟨e | page, dev⟩
    · simp only [ha] at he
      have h' := h.same_pages (Device.alloc_error ha)
      exact ih _ (hr.left e (Disk.allocatePage_code ha)) (hg _) h' hs he
    · simp only [ha] at he
      rcases hw : Device.writePage dev .direct { page with data := d, dirty := true } with ⟨e | ⟨⟩, dev'⟩
      · simp only [hw] at he
        obtain ⟨_, hc⟩ := h.coherent.newPage_failed ha hw
        exact ih _ (hr.left e (Disk.writePage_code hw)) (hg _) (h.dev hc) hs he
      · simp only [hw] at he
        exact ih _ (hr.right _) (hg _) (h.dev (h.coherent.newPage ha hw)) hs he
  case withPage id f k ih =>
    cases n
    case zero => cases hg
    case succ n =>
      rw [Prog.exec] at he
      rcases hf : p.fetch id with ⟨e | i, q⟩
      · simp only [hf] at he
        obtain ⟨h', hsame⟩ := h.failed hf
        exact ih _ (hr.left e (h.fetch_code hs hf)) (hg _) (h'.mono (Nat.le_succ n)) (mt hsame.allPinned.mp hs) he
      · simp only [hf] at he
        rcases hd : f (q.frameAt i).page.data with _ | ⟨r, d⟩
        · simp only [hd] at he
          cases he
        · simp only [hd] at he
          obtain ⟨_, h', hsame, _⟩ := h.use (d := d) hf
          exact ih _ (hr.right _ _ hd) (hg _) h' (mt hsame.allPinned.mp hs) he

end NexusDb
