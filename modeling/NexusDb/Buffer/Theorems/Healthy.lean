import NexusDb.Buffer.Theorems.BufferFull
import NexusDb.Buffer.Theorems.Contract

namespace NexusDb

-- The pool in another state that shows the same pages, for example after handles were released.
def BufferPool.SamePages [Device σ] (p q : BufferPool σ) : Prop :=
  q.Inv ∧ ∀ s : PageStorage, p.Coherent s.page? → q.Coherent s.page?

namespace Prog

-- How the fetch of a page fails that is not there.
def Missing (n id : PageId) (e : Error) : Prop :=
  (id = invalidId ∧ e = bad "invalid page id") ∨ (id ≠ invalidId ∧ ¬id < n ∧ e = PageStorage.beyondEnd id n)

section

variable [Device σ]

-- In this run the pool loads every page that is there, and the storage counts, adds and writes pages.
def Healthy : Prog α → BufferPool σ → Prop
  | ret _,           _ => True
  | numPages k,      p =>
    match Device.countPages p.dev with
    | (.error _, _) => False
    | (.ok n, dev)  => (k (.ok n)).Healthy { p with dev }
  | newPage data k,  p =>
    match Device.allocatePage p.dev with
    | (.error e, dev) =>
      Device.numPages p.dev = invalidId ∧ e = PageStorage.exhausted ∧ (k (.error e)).Healthy { p with dev }
    | (.ok page, dev) =>
      match Device.writePage dev .direct { page with data, dirty := true } with
      | (.error _, _) => False
      | (.ok (), dev) => (k (.ok page.id)).Healthy { p with dev }
  | withPage id f k, p =>
    match p.fetch id with
    | (.error e, q) => Missing (Device.numPages p.dev) id e ∧ (k (.error e)).Healthy q
    | (.ok i, q)    =>
      match f (q.frameAt i).page.data with
      | none           => True
      | some (r, data) => (k r).Healthy ((q.edit i data).unpinFrame i)

variable {p : BufferPool σ} {s : PageStorage}

-- Then the code does on the pool what it does directly on the pages.
theorem exec_healthy (g : Prog α) (hi : p.Inv) (hc : p.Coherent s.page?) (h : g.Healthy p) :
    (g.exec p).fst = (g.direct s).fst ∧ (g.exec p).snd.Coherent (g.direct s).snd.page? := by
  induction g generalizing p s
  case ret => exact ⟨rfl, hc⟩
  case numPages k ih =>
    rw [exec, direct]
    rw [Healthy] at h
    rcases hn : Device.countPages p.dev with ⟨e | n, dev⟩
    · rw [hn] at h
      cases h
    · simp only [hn] at h ⊢
      have he := Device.count_ok hn
      rw [hc.numPages] at he
      subst he
      exact ih _ (hi.keeps_dev dev).inv (hc.same_pages (BufferPool.count_same hn)) h
  case newPage d k ih =>
    rw [exec, direct]
    rw [Healthy] at h
    rcases ha : Device.allocatePage p.dev with ⟨e | page, dev⟩
    · simp only [ha] at h ⊢
      obtain ⟨hn, he, h⟩ := h
      rw [hc.numPages] at hn
      have hs : s.allocatePage = (.error e, s) := by rw [PageStorage.allocatePage, dif_pos hn, he]
      rw [hs]
      exact ih _ (hi.keeps_dev dev).inv (hc.same_pages (Device.alloc_error ha)) h
    · obtain ⟨hn, hpage, _⟩ := Device.alloc_ok ha
      rw [hc.numPages] at hn hpage
      have hs : s.allocatePage.fst = .ok { id := s.numPages } := by rw [PageStorage.allocatePage, dif_neg hn]
      have hs : s.allocatePage = (.ok { id := s.numPages }, s.allocatePage.snd) := by rw [← hs]
      simp only [ha] at h ⊢
      rcases hw : Device.writePage dev .direct { page with data := d, dirty := true } with ⟨e | ⟨⟩, dev'⟩
      · rw [hw] at h
        cases h
      · have hp := hc.newPage ha hw
        simp only [hw] at h ⊢
        rw [hpage] at h ⊢
        rw [hs]
        exact ih _ (hi.keeps_dev dev').inv hp h
  case withPage id f k ih =>
    rw [exec, direct]
    rw [Healthy] at h
    rcases hf : p.fetch id with ⟨e | i, q⟩
    · simp only [hf] at h ⊢
      obtain ⟨hm, h⟩ := h
      rcases BufferPool.fetch_cases hf with ⟨_, _, st⟩ | ⟨_, _, hr, _⟩
      · have hgo := ih (.error e) (s := s) (hi.keeps_steps st).inv (hc.steps hi st) h
        rw [hc.numPages] at hm
        rcases hm with ⟨hid, he⟩ | ⟨hid, hn, he⟩
        · rw [if_pos hid, ← he]
          exact hgo
        · have hnone : s.page? id = none :=
            Option.not_isSome_iff_eq_none.mp fun h => hn (PageStorage.page?_isSome_iff.mp h)
          rw [if_neg hid, hnone]
          exact he ▸ hgo
      · cases hr
    · obtain ⟨hd, hnone, hsome⟩ := hc.use hi hf
      have hi' := fun d => (hi.keeps_use hf d).inv
      simp only [hf] at h ⊢
      rw [if_neg (PageStorage.ne_invalidId hd), hd]
      rcases hr : f (q.frameAt i).page.data with _ | ⟨r, _ | d⟩
      · simp only [hr]
        exact ⟨trivial, hnone⟩
      · simp only [hr] at h ⊢
        exact ih _ (hi' none) hnone h
      · simp only [hr] at h ⊢
        exact ih _ (hi' (some d)) (hsome d) h

-- What a contract says about code then holds, as long as the file does not grow beyond the limit.
theorem wp_healthy {g : Prog α} (hw : g.wp K Q s) (hi : p.Inv) (hc : p.Coherent s.page?) (h : g.Healthy p)
    (hl : (Device.numPages (g.exec p).snd.dev).toNat ≤ pageLimit ∨ g.InPlace) :
    ∃ a s', (g.exec p).fst = some a ∧ (g.exec p).snd.Coherent s'.page? ∧ Q a s' := by
  have ⟨hr, hc'⟩ := exec_healthy g hi hc h
  rw [hc'.numPages, PageStorage.toNat_numPages] at hl
  have ⟨a, ha, hq⟩ := wp_direct hw hl
  exact ⟨a, _, hr.trans ha, hc', hq⟩

-- A pool without pins is healthy as long as its stamps last and the storage does not fail.
theorem healthy_of_serves (g : Prog α) (h : p.Serves s) (ho : Device.ok (g.exec p).snd.dev)
    (hf : p.fetches + g.calls s < BufferPool.maxStamp) : g.Healthy p := by
  induction g generalizing p s
  case ret => trivial
  case numPages k ih =>
    rw [exec] at ho
    rw [Healthy]
    rcases hn : Device.countPages p.dev with ⟨e | n, dev⟩
    · simp only [hn] at ho
      exact absurd (exec_ok_mono _ _ ho) (Device.count_fails hn)
    · simp only [hn] at ho ⊢
      have he := Device.count_ok hn
      rw [h.coherent.numPages] at he
      subst he
      exact ih _ (h.dev (BufferPool.count_same hn)) ho hf
  case newPage d k ih =>
    rw [exec] at ho
    rw [calls] at hf
    rw [Healthy]
    rcases ha : Device.allocatePage p.dev with ⟨e | page, dev⟩
    · simp only [ha] at ho ⊢
      obtain ⟨hn, he⟩ := Device.alloc_fails ha (exec_ok_mono _ _ ho)
      have hn' := hn
      rw [h.coherent.numPages] at hn'
      have hs : s.allocatePage = (.error e, s) := by rw [PageStorage.allocatePage, dif_pos hn', he]
      rw [hs] at hf
      exact ⟨hn, he, ih _ (h.dev (Device.alloc_error ha)) ho hf⟩
    · obtain ⟨hn, hpage, hpages⟩ := Device.alloc_ok ha
      rw [h.coherent.numPages] at hn hpage
      have hs : s.allocatePage.fst = .ok { id := s.numPages } := by rw [PageStorage.allocatePage, dif_neg hn]
      have hs : s.allocatePage = (.ok { id := s.numPages }, s.allocatePage.snd) := by rw [← hs]
      rw [hs] at hf
      simp only [ha] at ho ⊢
      rcases hw : Device.writePage dev .direct { page with data := d, dirty := true } with ⟨e | ⟨⟩, dev'⟩
      · simp only [hw] at ho
        refine absurd ?_ (Device.write_fails hw (exec_ok_mono _ _ ho))
        rw [← Device.page?_isSome, hpages, if_pos rfl]
        rfl
      · have hp := h.newPage ha hw
        simp only [hw] at ho ⊢
        rw [hpage] at ho ⊢
        exact ih _ hp ho hf
  case withPage id f k ih =>
    rw [exec] at ho
    rw [calls] at hf
    rw [Healthy]
    rcases hfetch : p.fetch id with ⟨e | i, q⟩
    · simp only [hfetch] at ho ⊢
      obtain ⟨hq, hn, hcases⟩ := h.fetch_error hfetch (exec_ok_mono _ _ ho)
      rw [h.coherent.numPages]
      rw [← hn] at hf
      rcases hcases with ⟨hid, he⟩ | ⟨hid, hnone, he⟩ | ⟨hmax, _, _⟩
      · rw [if_pos hid] at hf
        exact ⟨.inl ⟨hid, he⟩, ih _ hq ho (he ▸ hf)⟩
      · simp only [if_neg hid, hnone] at hf
        refine ⟨.inr ⟨hid, fun hlt => ?_, he⟩, ih _ hq ho (he ▸ hf)⟩
        have := PageStorage.page?_isSome_iff.mpr hlt
        rw [hnone] at this
        cases this
      · omega
    · obtain ⟨hd, hn, hnone, hsome⟩ := h.fetch_ok hfetch
      simp only [hfetch] at ho ⊢
      simp only [if_neg (PageStorage.ne_invalidId hd), hd] at hf
      have hfetches : ∀ d, ((q.edit i d).unpinFrame i).fetches = p.fetches + 1 := fun d =>
        ((BufferPool.edit_stamps q i d).trans (.unpin _ i)).fetches.trans hn
      rcases hr : f (q.frameAt i).page.data with _ | ⟨r, _ | d⟩
      · trivial
      · simp only [hr] at ho hf ⊢
        refine ih _ hnone ho ?_
        have := hfetches none
        omega
      · simp only [hr] at ho hf ⊢
        refine ih _ (hsome d) ho ?_
        have := hfetches (some d)
        omega

end

end Prog

-- Files that work keep working, whatever is done with them through a pool.

theorem Disk.stable_plain : Device.Stable Disk.Plain where
  count h := h.countPages
  read h  := h.readPage
  write h := h.writePage
  alloc h := h.allocatePage
  log h   := h.beforePageWrite
  touch h := h.touch

theorem Prog.healthy_of_plain (g : Prog α) {p : BufferPool Disk} (h : p.Serves s) (hd : p.dev.Plain)
    (hf : p.fetches + g.calls s < BufferPool.maxStamp) : g.Healthy p :=
  healthy_of_serves g h (Prog.exec_stable Disk.stable_plain g hd).ok hf

theorem Disk.Plain.new (s : PageStorage) : Disk.Plain { storage := s } :=
  ⟨⟨⟨rfl, rfl, rfl⟩, nofun⟩, rfl⟩

-- A new pool over such files.
theorem Prog.healthy_of_create (g : Prog α) {p : BufferPool Disk} (hp : BufferPool.create { storage := s } n = .ok p)
    (hf : g.calls s < BufferPool.maxStamp) : g.Healthy p := by
  apply healthy_of_plain g (.create hp fun _ => rfl)
  case hd => exact (BufferPool.create_inv hp).right.right.left ▸ .new s
  case hf => rwa [(BufferPool.Clock.create hp).right, Nat.zero_add]

-- What happens at the end of the page ids: a call takes the last one and fails, and after that there is none left.

-- A file with one page less than there are page ids, where a page can be allocated, but not written.
def Disk.lastId (s : PageStorage) : Disk where
  storage := s
  io      := [.success, .failure 0]

theorem PageStorage.exists_lastId (d : PageData) : ∃ s : PageStorage, s.page? 0 = some d ∧ s.numPages = 0xFFFFFFFE := by
  have hlen : ∀ n, (d :: List.replicate n zeroPage).length = n + 1 := by simp
  refine ⟨⟨d :: List.replicate (2 ^ 32 - 3) zeroPage, by rw [hlen]; decide⟩, rfl, ?_⟩
  rw [numPages, hlen]
  rfl

theorem Disk.allocatePage_lastId {s : PageStorage} (hn : s.numPages = 0xFFFFFFFE) :
    Disk.allocatePage (lastId s) =
      (.ok { id := 0xFFFFFFFE }, { storage := s.push zeroPage, io := [.failure 0], trace := [.extend] }) := by
  have hne : s.numPages ≠ invalidId := by
    rw [hn]
    decide
  have hs : s.allocatePage = (.ok { id := 0xFFFFFFFE }, s.push zeroPage) := by
    rw [PageStorage.allocatePage, dif_neg hne, hn]
    congr 1
    exact PageStorage.ext (PageStorage.pages_push hne).symm
  simp only [Disk.allocatePage, lastId, hs]
  rfl

theorem PageStorage.numPages_push_last {s : PageStorage} (hn : s.numPages = 0xFFFFFFFE) :
    (s.push d).numPages = invalidId := by
  have hne : s.numPages ≠ invalidId := by
    rw [hn]
    decide
  have hlen := s.toNat_numPages
  rw [hn] at hlen
  rw [numPages, pages_push hne, List.length_append, ← hlen]
  rfl

theorem Prog.exec_newPage_lastId {p : BufferPool Disk} {s : PageStorage} (hd : p.dev = .lastId s)
    (hn : s.numPages = 0xFFFFFFFE) (data : PageData) (k : Except Error PageId → Prog α) :
    ∃ e dev, (newPage data k).exec p = (k (.error e)).exec { p with dev } ∧ dev.torn = false ∧
      Device.numPages dev = invalidId := by
  have hfull := PageStorage.numPages_push_last (d := zeroPage) hn
  have hs : (s.push zeroPage).writePage { id := 0xFFFFFFFE, data, dirty := true } =
      (.ok (), (s.push zeroPage).setPage 0xFFFFFFFE data) := by
    rw [PageStorage.writePage, hfull]
    rfl
  have hw : ∃ e dev, Device.writePage { storage := s.push zeroPage, io := [.failure 0], trace := [.extend] : Disk }
      .direct { id := 0xFFFFFFFE, data, dirty := true } = (.error e, dev) ∧ dev.torn = false ∧
        dev.storage = s.push zeroPage := by
    change ∃ e dev, Disk.writePage _ _ _ = (.error e, dev) ∧ _
    simp only [Disk.writePage, hs]
    exact ⟨_, _, rfl, rfl, PageStorage.overwrite_nothing⟩
  obtain ⟨e, dev, hw, ht, hdev⟩ := hw
  have ha : Device.allocatePage p.dev = _ := hd ▸ Disk.allocatePage_lastId hn
  refine ⟨e, dev, by simp only [exec, ha, hw], ht, ?_⟩
  change dev.storage.numPages = _
  rw [hdev, hfull]

theorem Prog.newPage_exhausted {p : BufferPool Disk} {k : Except Error PageId → Prog α} (ht : p.dev.torn = false)
    (hn : Device.numPages p.dev = invalidId) (hk : ∀ q : BufferPool Disk, (k (.error PageStorage.exhausted)).Healthy q)
    (data : PageData) :
    (newPage data k).Healthy p ∧ ∃ q, (newPage data k).exec p = (k (.error PageStorage.exhausted)).exec q := by
  have ha : Device.allocatePage p.dev = (.error PageStorage.exhausted, { p.dev with good := true }) := by
    change Disk.allocatePage p.dev = _
    have hs : p.dev.storage.allocatePage = (.error PageStorage.exhausted, p.dev.storage) := dif_pos hn
    rw [Disk.allocatePage, if_neg (by simp [ht]), hs]
  simp only [Healthy, exec, ha]
  exact ⟨⟨hn, trivial, hk _⟩, _, rfl⟩

end NexusDb
