import NexusDb.Database.Theorems.Maintenance
import NexusDb.Query.Theorems.Bounds

theorem List.countP_le_of_getElem? {P : α → Bool} {as bs : List α}
    (h : ∀ (i : Nat) b, bs[i]? = some b → P b → ∃ a, as[i]? = some a ∧ P a) : bs.countP P ≤ as.countP P := by
  induction bs generalizing as
  case nil => exact Nat.zero_le _
  case cons b bs ih =>
    cases as
    case nil =>
      refine Nat.le_zero.mpr <| List.countP_eq_zero.mpr fun x hx hP => ?_
      have ⟨i, hi⟩ := List.mem_iff_getElem?.mp hx
      have ⟨_, ha, _⟩ := h i x hi hP
      cases ha
    case cons a as =>
      have htail : bs.countP P ≤ as.countP P := ih fun i => h (i + 1)
      rw [List.countP_cons, List.countP_cons]
      refine Nat.add_le_add htail ?_
      split
      case isFalse => exact Nat.zero_le _
      case isTrue hb =>
        have ⟨_, ha, hP⟩ := h 0 b rfl hb
        cases ha
        rw [if_pos hP]

namespace NexusDb

namespace BufferPool

-- The frames that have to be written before the log can be reset.
def dirtyFrames (p : BufferPool σ) : Nat :=
  p.frames.countP fun f => f.inUse && f.page.dirty

section

variable {p q : BufferPool σ}

theorem dirtyFrames_le (h : ∀ i g, q.frame? i = some g → g.inUse → g.page.dirty →
    ∃ f, p.frame? i = some f ∧ f.inUse ∧ f.page.dirty) : q.dirtyFrames ≤ p.dirtyFrames := by
  refine List.countP_le_of_getElem? fun i g hg hd => ?_
  have hd := Bool.and_eq_true_iff.mp hd
  have ⟨f, hf, hu, hd⟩ := h i g hg hd.left hd.right
  exact ⟨f, hf, Bool.and_eq_true_iff.mpr ⟨hu, hd⟩⟩

theorem dirtyFrames_setFrame (h : p.frame? i = some f) :
    (p.setFrame i g).dirtyFrames + (if f.inUse && f.page.dirty then 1 else 0) =
      p.dirtyFrames + (if g.inUse && g.page.dirty then 1 else 0) :=
  List.countP_set_add h

theorem dirtyFrames_repin (h : p.frame? i = some f) (n : Nat) :
    (p.setFrame i { f with pinCount := n }).dirtyFrames = p.dirtyFrames := by
  have hset := dirtyFrames_setFrame (g := { f with pinCount := n }) h
  exact Nat.add_right_cancel hset

theorem dirtyFrames_setFrame_le (p : BufferPool σ) (i : Nat) (g : Frame) :
    (p.setFrame i g).dirtyFrames ≤ p.dirtyFrames + 1 := by
  cases hf : p.frame? i
  case none =>
    have hset : p.frames.set i g = p.frames := List.set_eq_of_length_le (List.getElem?_eq_none_iff.mp hf)
    rw [dirtyFrames, dirtyFrames, setFrame, hset]
    exact Nat.le_succ _
  case some f =>
    have hset := dirtyFrames_setFrame (g := g) hf
    split at hset <;> split at hset <;> omega

theorem Clean.dirtyFrames (h : p.Clean) : p.dirtyFrames = 0 := by
  refine List.countP_eq_zero.mpr fun f hf hd => ?_
  have ⟨i, hi⟩ := List.mem_iff_getElem?.mp hf
  have ⟨hu, hd⟩ := Bool.and_eq_true_iff.mp hd
  rw [h i f hi hu] at hd
  cases hd

theorem Reframes.dirtyFrames (h : Reframes p q) : q.dirtyFrames ≤ p.dirtyFrames := by
  refine dirtyFrames_le fun i g hg hu hd => ?_
  have ⟨f, hf, he⟩ := h.keep i g hg hu
  have ⟨hp, _, hin⟩ := Frame.eq_of_unstamped he
  exact ⟨f, hf, hin ▸ hu, hp ▸ hd⟩

theorem SameButStamps.dirtyFrames (h : SameButStamps p q) : q.dirtyFrames ≤ p.dirtyFrames := by
  refine dirtyFrames_le fun i g hg hu hd => ?_
  have ⟨f, hf, he⟩ := h.symm.frame? hg
  have ⟨hp, _, hin⟩ := Frame.eq_of_unstamped he
  exact ⟨f, hf, hin ▸ hu, hp ▸ hd⟩

theorem dirtyFrames_unpin (p : BufferPool σ) (i : Nat) : (p.unpinFrame i).dirtyFrames ≤ p.dirtyFrames := by
  rw [unpinFrame]
  split
  case isTrue => exact le_rfl
  case isFalse hi =>
    obtain ⟨f, hf⟩ : ∃ f, p.frame? i = some f := ⟨_, List.getElem?_eq_getElem (Nat.lt_of_not_le hi)⟩
    rw [frameAt_eq hf]
    exact (dirtyFrames_repin hf _).le

variable [Device σ]

-- A page that is fetched is not dirty for that.
theorem Pinned.dirtyFrames {p q : BufferPool σ} (h : Pinned p j i q) : q.dirtyFrames ≤ p.dirtyFrames := by
  cases h
  case hit hf _ _ same => exact same.dirtyFrames.trans (dirtyFrames_repin hf _).le
  case load f d hf _ _ _ same =>
    have hset : (p.setFrame i { page := { id := j, data := d }, pinCount := 1, inUse := true }).dirtyFrames + _ = _ :=
      dirtyFrames_setFrame hf
    have hle := same.dirtyFrames
    simp only [Bool.and_false, Bool.false_eq_true, if_false] at hset
    omega

end

-- Nothing has failed, no call is going to fail, and there is room in the log for a record of every dirty frame and for `b`
-- more. It never has more than `l` records.
structure Solvent (p : BufferPool Disk) (b l : Nat) : Prop where
  quiet : p.dev.Quiet
  log   : ∃ w ps, p.dev.wal = some w ∧ w.Holds ps [] ∧ ps.length + p.dirtyFrames + b ≤ l

end BufferPool

namespace Disk

variable {d d' : Disk} {w : Wal} {ps : List (PageId × PageData)} {page : Page}

-- Only `BeforePageWrite` writes to the log.

theorem wal_countPages (h : d.countPages = (res, d')) : d'.wal = d.wal := by
  rcases countPages_cases h with ⟨_, _, _, _, rfl⟩ | ⟨_, rfl⟩ <;> rfl

theorem wal_readPage (h : d.readPage j = (res, d')) : d'.wal = d.wal := by
  rcases readPage_cases h with ⟨_, _, _, rfl⟩ | ⟨_, _, _, _, rfl⟩ | ⟨_, _, _, rfl⟩ <;> rfl

theorem wal_allocatePage (h : d.allocatePage = (res, d')) : d'.wal = d.wal := by
  rcases allocatePage_cases h with ⟨_, rfl, _⟩ | ⟨_, _, _, _, _, rfl⟩ | ⟨_, _, _, _, _, rfl⟩ <;> rfl

theorem wal_writePage (h : d.writePage o page = (res, d')) : d'.wal = d.wal := by
  rcases writePage_cases h with ⟨_, _, _, rfl, _⟩ | ⟨_, _, _, rfl, _⟩ | ⟨_, _, _, _, _, rfl⟩ <;> rfl

-- A page that is in the file is written after its record.

theorem Quiet.logged (h : d.Quiet) (hw : d.wal = some w) (hh : w.Holds ps [])
    (hr : ps.length < Wal.maxFileSize / Wal.recordSize) (hid : page.id ≠ invalidId) :
    ∃ d' w', Disk.beforePageWrite d page = (.ok (), d') ∧ d'.Quiet ∧ d'.storage = d.storage ∧ d'.wal = some w' ∧
      w'.Holds (ps ++ [(page.id, page.data)]) [] := by
  have ⟨_, w₁, w₂, happ, hflush, hh'⟩ := hh.append_flush (p := (page.id, page.data)) hid (by rwa [List.append_nil])
  have hlog : w.beforePageWrite .success .success page = (.ok (), w₂) := by
    rw [Wal.beforePageWrite, if_neg hid, happ]
    exact hflush
  simp only [Disk.beforePageWrite, hw, h.nextIo, hlog]
  exact ⟨_, w₂, rfl, ⟨⟨h.io, h.torn, h.good⟩, ok_emit.mpr ⟨h.ok, rfl⟩⟩, rfl, rfl, hh'⟩

theorem Quiet.written (h : d.Quiet) (hp : (d.storage.page? page.id).isSome) :
    ∃ d', Disk.writePage d o page = (.ok (), d') ∧ d'.Quiet ∧ d'.wal = d.wal := by
  have hlt := PageStorage.page?_isSome_iff.mp hp
  rcases hw : Disk.writePage d o page with ⟨r, d'⟩
  have hq := h.writePage hw
  have hwal := wal_writePage hw
  rcases writePage_cases hw with ⟨_, _, _, _, hn⟩ | ⟨_, _, _, _, hn⟩ | ⟨io, _, _, _, hr, rfl⟩
  · exact absurd hlt hn
  · exact absurd hlt hn
  · have hio := (ok_emit.mp hq.ok).right
    cases io
    case success => exact ⟨_, by rw [hr.mpr rfl], hq, hwal⟩
    case failure => cases hio

end Disk

namespace BufferPool.Solvent

variable {p q : BufferPool Disk} {s : PageStorage}

theorem mono (h : p.Solvent b l) (hb : a ≤ b) : p.Solvent a l := by
  have ⟨hq, w, ps, hw, hh, hl⟩ := h
  exact ⟨hq, w, ps, hw, hh, by omega⟩

-- The device does something that needs no record.
theorem dev (h : p.Solvent b l) (hq : d.Quiet) (hw : d.wal = p.dev.wal) : Solvent { p with dev := d } b l := by
  have ⟨_, w, ps, hwal, hh, hl⟩ := h
  exact ⟨hq, w, ps, hw.trans hwal, hh, hl⟩

theorem frames (h : p.Solvent b l) (hd : q.dev = p.dev) (hle : q.dirtyFrames ≤ p.dirtyFrames) : q.Solvent b l := by
  have ⟨hq, w, ps, hw, hh, hl⟩ := h
  exact ⟨hd ▸ hq, w, ps, hd ▸ hw, hh, by omega⟩

variable (hmax : l ≤ Wal.maxFileSize / Wal.recordSize)

include hmax

theorem flush (h : p.Solvent b l) (hc : p.Coherent s.page?) (hf : p.frame? i = some f) (hu : f.inUse) (hd : f.page.dirty) :
    ∃ d₁ d', Device.beforePageWrite p.dev f.page = (.ok (), d₁) ∧ Device.writePage d₁ .pool f.page = (.ok (), d') ∧
      Solvent { p.setFrame i f.cleaned with dev := d' } b l := by
  obtain ⟨hq, w, ps, hw, hh, hl⟩ := h
  have hset : (p.setFrame i f.cleaned).dirtyFrames + 1 = p.dirtyFrames := by
    have hset := dirtyFrames_setFrame (g := f.cleaned) hf
    rwa [hu, hd, Bool.and_self, if_pos rfl, if_neg (by simp [Frame.cleaned])] at hset
  have hsome : (s.page? f.page.id).isSome := by
    rw [hc.resident i f hf hu]
    rfl
  have hpage : (p.dev.storage.page? f.page.id).isSome := (hc.allocated f.page.id).trans hsome
  have hid : f.page.id ≠ invalidId := PageStorage.ne_invalidId (hc.resident i f hf hu)
  obtain ⟨d₁, w', hlog, hq₁, hst, hw', hh'⟩ := hq.logged hw hh (by omega) hid
  obtain ⟨d', hwrite, hq', hwal⟩ := hq₁.written (o := .pool) (hst ▸ hpage)
  refine ⟨d₁, d', hlog, hwrite, hq', w', _, hwal.trans hw', hh', ?_⟩
  change _ + (p.setFrame i f.cleaned).dirtyFrames + b ≤ l
  rw [List.length_append, List.length_singleton]
  omega

theorem step (h : p.Solvent b l) (hc : p.Coherent s.page?) (st : Step p q) : q.Solvent b l := by
  cases st
  case reframe hr => exact h.frames hr.dev hr.dirtyFrames
  case read j =>
    have hr : Disk.readPage p.dev j = (_, (Device.readPage p.dev j).snd) := rfl
    exact h.dev (h.quiet.readPage hr) (Disk.wal_readPage hr)
  case logFailed hf hu hd hlog =>
    have ⟨_, _, hlog', _⟩ := h.flush hmax hc hf hu hd
    cases hlog.symm.trans hlog'
  case writeFailed hf hu hd hlog hw =>
    have ⟨_, _, hlog', hw', _⟩ := h.flush hmax hc hf hu hd
    cases hlog.symm.trans hlog'
    cases hw.symm.trans hw'
  case flushed hf hu hd hlog hw =>
    have ⟨_, _, hlog', hw', hs⟩ := h.flush hmax hc hf hu hd
    cases hlog.symm.trans hlog'
    cases hw.symm.trans hw'
    exact hs

theorem steps (h : p.Solvent b l) (hi : p.Inv) (hc : p.Coherent s.page?) (st : Steps p q) : q.Solvent b l := by
  induction st
  case refl => exact h
  case tail st₁ st ih => exact ih.step hmax (hc.steps hi st₁) st

theorem fetch {j : PageId} (h : p.Solvent b l) (hi : p.Inv) (hc : p.Coherent s.page?) (hf : p.fetch j = (r, q)) :
    q.Solvent b l := by
  rcases fetch_cases hf with ⟨_, _, st⟩ | ⟨_, p₁, _, st, hp⟩
  · exact h.steps hmax hi hc st
  · exact (h.steps hmax hi hc st).frames hp.dev hp.dirtyFrames

omit hmax

theorem unpin (h : p.Solvent b l) (i : Nat) : (p.unpinFrame i).Solvent b l :=
  h.frames (unpinFrame_dev p i) (dirtyFrames_unpin p i)

-- A change of a page needs room for another record.
theorem edit (h : p.Solvent (b + 1) l) (i : Nat) (d : PageData) : (p.edit i (some d)).Solvent b l := by
  have ⟨hq, w, ps, hw, hh, hl⟩ := h
  have hle : (p.edit i (some d)).dirtyFrames ≤ p.dirtyFrames + 1 := dirtyFrames_setFrame_le ..
  exact ⟨hq.emit rfl, w, ps, hw, hh, by omega⟩

variable {g : Prog α}

include hmax

-- What the code may change is paid for.
theorem exec (hg : g.Bounded m n) (h : p.Solvent (b + m) l) (hi : p.Inv) (hc : p.Coherent s.page?) :
    (g.exec p).snd.Solvent b l := by
  induction g generalizing p s m n
  case ret => exact h.mono (Nat.le_add_right b m)
  case numPages k ih =>
    rw [Prog.exec]
    rcases hn : Device.countPages p.dev with ⟨r, d⟩
    have hs := h.dev (h.quiet.countPages hn) (Disk.wal_countPages hn)
    exact ih r (hg r) hs (hi.keeps_dev d).inv (hc.same_pages (count_same hn))
  case newPage data k ih =>
    rw [Prog.exec]
    rcases ha : Device.allocatePage p.dev with ⟨e | page, d⟩
    all_goals have hs := h.dev (h.quiet.allocatePage ha) (Disk.wal_allocatePage ha)
    · exact ih _ (hg.right _) hs (hi.keeps_dev d).inv (hc.same_pages (Device.alloc_error ha))
    · simp only
      rcases hw : Device.writePage d .direct { page with data, dirty := true } with ⟨e | ⟨⟩, d'⟩
      all_goals
        have hs' := h.dev (hs.quiet.writePage hw) ((Disk.wal_writePage hw).trans (Disk.wal_allocatePage ha))
      · obtain ⟨_, hc'⟩ := hc.newPage_failed ha hw
        exact ih _ (hg.right _) hs' (hi.keeps_dev d').inv hc'
      · exact ih _ (hg.right _) hs' (hi.keeps_dev d').inv (hc.newPage ha hw)
  case withPage j f k ih =>
    rw [Prog.exec]
    rcases hf : p.fetch j with ⟨e | i, q⟩
    · rcases fetch_cases hf with ⟨_, _, st⟩ | ⟨_, _, hr, _⟩
      · exact ih _ (hg.left e) (h.fetch hmax hi hc hf) (hi.keeps_steps st).inv (hc.steps hi st)
      · cases hr
    · have hq := h.fetch hmax hi hc hf
      obtain ⟨_, hnone, hsome⟩ := hc.use hi hf
      simp only
      rcases hr : f (q.frameAt i).page.data with _ | ⟨r, _ | data⟩
      · exact (hq.unpin i).mono (Nat.le_add_right b m)
      · exact ih _ (hg.right _ _ hr) (hq.unpin i) (hi.keeps_use hf none).inv hnone
      · obtain ⟨hpos, hrest⟩ := hg.right _ _ hr
        obtain ⟨m, rfl⟩ := Nat.exists_eq_add_one.mpr hpos
        exact ih _ hrest ((hq.edit i data).unpin i) (hi.keeps_use hf (some data)).inv (hsome data)

end BufferPool.Solvent

namespace Database

variable {db : Database} {m : PageStorage} {L : Layout}

-- The log of a session that does one query never has more records.
abbrev sessionRecords : Nat := 3

theorem Ready.solvent (h : Ready db m L) : db.pool.Solvent (0 + sessionRecords) sessionRecords := by
  refine ⟨h.quiet, _, [], h.log, ?_, ?_⟩
  · exact ⟨rfl, rfl, rfl, rfl, rfl, nofun, Nat.zero_le _⟩
  · rw [h.clean.dirtyFrames]
    exact le_rfl

-- A query on a database that was just opened. There is no failure that its answer could come from.
theorem Ready.performs (h : Ready db m L) (hl : m.pages.length + 2 ≤ pageLimit) (q : Query) :
    ∃ a m' L' p, (q.run db.executor).exec db.pool = (some (a, .loaded L'), p) ∧ q.Performs .reliable m L a m' L' ∧
      m'.pages.length ≤ m.pages.length + 2 ∧ Laid m' L' ∧ p.Serves m' ∧ p.Solvent 0 sessionRecords := by
  have hlen : m.pages.length ≤ pageLimit := h.pages
  have hs : ((q.run db.executor).exec db.pool).snd.Solvent 0 sessionRecords :=
    h.solvent.exec (by decide) (q.bounded db.executor) h.pool.inv h.pool.coherent
  have hcalls := q.calls_le h.laid.realized hlen
  have hfetches := h.fetches
  rw [h.executor] at hs ⊢
  have ⟨hfst, hserves, _⟩ := Prog.exec_direct (q.run (.loaded L)) h.pool hs.quiet.ok (.inr (by simp at *; omega))
  have hgrow := (q.bounded (.loaded L)).length_direct_le m
  have ⟨⟨a, _⟩, ha, L', he, hp⟩ := Prog.wp_direct (Query.wp_run (q.permits_reliable _) h.laid.realized (.inr hlen))
    (.inl (hgrow.trans hl))
  cases he
  exact ⟨a, _, L', _, Prod.ext (hfst.trans ha) rfl, hp, hgrow, h.laid.leads (hp.leads h.laid.realized), hserves, hs⟩

theorem close_solvent (hp : db.pool.Serves m) (hs : db.pool.Solvent b l) (hmax : l ≤ Wal.maxFileSize / Wal.recordSize) :
    ∃ disk, db.close = (.ok (), disk) ∧ disk.storage = m ∧ disk.wal.map Wal.file = some [] := by
  rcases hflush : db.pool.flushAll with ⟨r, pool⟩
  have hf := hs.steps hmax hp.inv hp.coherent (BufferPool.flushAll_steps hflush)
  have ⟨hok, hst⟩ := hp.flushAll (by rw [hflush]; exact hf.quiet.ok)
  rw [hflush] at hok hst
  have hok : r = .ok () := hok
  have ⟨w, ps, hw, hh, _⟩ := hf.log
  have hreset : w.reset = (.ok (), { file := [] }) := by rw [Wal.reset, hh.isOpen]; rfl
  subst hok
  simp only [close, hflush, hw, hreset, hf.quiet.nextIo, hf.quiet.close]
  exact ⟨_, rfl, PageStorage.page?_ext hst, rfl⟩

end Database
end NexusDb
