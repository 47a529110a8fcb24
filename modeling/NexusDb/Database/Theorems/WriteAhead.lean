import NexusDb.Database.Session
import NexusDb.Database.Theorems.Versions
import NexusDb.Buffer.Theorems.Prog
import NexusDb.Wal.Theorems.Appending
import NexusDb.Database.Theorems.Opening

namespace NexusDb

namespace UpToDate

variable {f : Files} {tr : List FileEvent}

-- An event that does not concern the log, the versions or the contents of any page.
theorem snoc_same (h : UpToDate f tr) (hv : ∀ id, (versions tr id).next id e = versions tr id)
    (hw : (e.apply (f.after tr)).wal = (f.after tr).wal) (hm : ∀ id d, e ≠ .modify id d) :
    UpToDate f (tr ++ [e]) := by
  intro id
  have hm' : modifications (tr ++ [e]) id = modifications tr id := by
    rw [modifications_snoc]
    cases e
    case modify i d => exact absurd rfl (hm i d)
    all_goals simp
  have hl : (f.after (tr ++ [e])).logImages = (f.after tr).logImages := by
    simp [Files.logImages, hw]
  rw [versions_snoc, hv, hl, hm']
  exact h id

theorem snoc_modify (h : UpToDate f tr) : UpToDate f (tr ++ [.modify i d]) := by
  intro id
  have hl : (f.after (tr ++ [.modify i d])).logImages = (f.after tr).logImages := by
    simp [Files.logImages, FileEvent.apply]
  have hv : (versions (tr ++ [.modify i d]) id).logged = (versions tr id).logged ∧
      (versions (tr ++ [.modify i d]) id).stored = (versions tr id).stored := by
    rw [versions_snoc, Versions.next]
    split <;> exact ⟨rfl, rfl⟩
  have h := h id
  rw [hv.left, hl, hv.right]
  split
  case h_1 hn => rwa [hn] at h
  case h_2 n hn =>
    rw [hn] at h
    obtain ⟨hs, m, d', he, hw, hd⟩ := h
    refine ⟨hs, m, d', he, hw, ?_⟩
    rw [modifications_snoc, List.getElem?_append_left (List.getElem?_eq_some_iff.mp hd).fst]
    exact hd

-- The current contents of a page were written to the log, or a part of the record was.
theorem snoc_log (h : UpToDate f tr) (hd : (modifications tr i).getLast? = some d)
    (hl : (bytes.length = Wal.recordSize ∧
        (f.after (tr ++ [.log i bytes ok])).logImages = (f.after tr).logImages ++ [(i, d)]) ∨
      (bytes.length ≠ Wal.recordSize ∧
        (f.after (tr ++ [.log i bytes ok])).logImages = (f.after tr).logImages)) :
    UpToDate f (tr ++ [.log i bytes ok]) := by
  intro id
  have hm : modifications (tr ++ [.log i bytes ok]) id = modifications tr id := by
    simp [modifications_snoc]
  have h := h id
  rw [versions_snoc, Versions.next, hm]
  rcases hl with ⟨hb, hl⟩ | ⟨hb, hl⟩ <;> rw [hl]
  · by_cases hi : i = id
    case neg => simpa [hi] using h
    case pos =>
      subst hi
      have hlen : (modifications tr i)[(modifications tr i).length - 1]? = some d := by
        rw [← List.getLast?_eq_getElem?]
        exact hd
      have hpos := (List.getElem?_eq_some_iff.mp hlen).fst
      rw [if_pos ⟨rfl, hb⟩]
      refine ⟨?_, (modifications tr i).length - 1, d, ?_, by simp, hlen⟩
      · exact versions_stored_le
      · simp only [versions_current]
        omega
  · rw [if_neg fun h => hb h.right]
    exact h

-- A page was written to the storage in a version that is not newer than the one in the log, or there
-- is no record for it.
theorem snoc_overwrite (h : UpToDate f tr)
    (hc : (versions tr i).logged = none ∨ (versions tr i).logged = some (versions tr i).current) :
    UpToDate f (tr ++ [.overwrite w i d io]) := by
  intro id
  have hm : modifications (tr ++ [.overwrite w i d io]) id = modifications tr id := by
    simp [modifications_snoc]
  have hl : (f.after (tr ++ [.overwrite w i d io])).logImages = (f.after tr).logImages := by
    simp [Files.logImages, FileEvent.apply]
  have h := h id
  rw [versions_snoc, Versions.next, hm, hl]
  by_cases hi : i = id
  case neg => rwa [if_neg hi]
  case pos =>
    subst hi
    rw [if_pos rfl]
    rcases hc with hn | hn
    · simpa only [hn] using h
    · simp only [hn] at h ⊢
      exact ⟨le_rfl, h.right⟩

end UpToDate

-- The write-ahead rule holds of everything that has happened since the files were `f`.
structure Ahead (f : Files) (p : BufferPool Disk) : Prop where
  files     : f.after p.dev.trace = p.dev.files
  log       : ∃ w ps, p.dev.wal = some w ∧ w.Appending ps
  trace     : WriteAhead f p.dev.trace
  dirty     : ∀ i g, p.frame? i = some g → g.inUse → g.page.dirty →
                (modifications p.dev.trace g.page.id).getLast? = some g.page.data
  resident  : ∀ id, p.Resident id → id < p.dev.storage.numPages
  allocated : ∀ id, modifications p.dev.trace id ≠ [] → id < p.dev.storage.numPages
  failed    : ∀ id bytes, .log id bytes false ∈ p.dev.trace →
                (∀ w, p.dev.wal = some w → w.good = false) ∧
                ∃ i g, p.frame? i = some g ∧ g.inUse ∧ g.page.dirty ∧ g.page.id = id

namespace Ahead

variable {f : Files} {p q : BufferPool Disk}

theorem logImages (h : Ahead f p) (hw : p.dev.wal = some w) (ha : w.Appending ps) :
    (f.after p.dev.trace).logImages = ps := by
  rw [h.files, Files.logImages, Disk.files, hw]
  exact ha.images

theorem create {d : Disk} (h : BufferPool.create d n = .ok p) (ht : d.trace = []) (hw : d.wal = some w)
    (ha : w.Appending []) : Ahead d.files p := by
  have ⟨_, _, hd, hr⟩ := BufferPool.create_inv h
  have hf : ∀ {i g}, p.frame? i = some g → g.inUse → False := fun hf hu => hr _ ⟨_, _, hf, hu, rfl⟩
  have hl : (d.files.after []).logImages = [] := by
    rw [Files.after_nil, Files.logImages, Disk.files, hw]
    exact ha.images
  subst hd
  constructor
  case files => rw [ht]; rfl
  case log => exact ⟨w, [], hw, ha⟩
  case trace =>
    rw [ht]
    refine .nil fun id => ?_
    change lastWrite (Files.logImages _) id = none
    rw [hl]
    rfl
  case dirty => exact fun i g hg hu => (hf hg hu).elim
  case resident => exact fun id h => absurd h (hr id)
  case allocated => exact fun id h => absurd (by rw [ht]; rfl) h
  case failed => exact fun id b h => by rw [ht] at h; cases h

theorem reframe (h : Ahead f p) (hr : BufferPool.Reframes p q) : Ahead f q := by
  have ⟨h₁, h₂, h₃, h₄, h₅, h₆, h₇⟩ := h
  refine ⟨by rw [hr.dev]; exact h₁, by rw [hr.dev]; exact h₂, by rw [hr.dev]; exact h₃,
    fun i g hg hu hd => ?_, fun id hres => ?_, by rw [hr.dev]; exact h₆, ?_⟩ <;> rw [hr.dev]
  · have ⟨k, hk, he⟩ := hr.keep i g hg hu
    have ⟨hp, _, hin⟩ := Frame.eq_of_unstamped he
    rw [← hp]
    exact h₄ i k hk (hin ▸ hu) (hp ▸ hd)
  · have ⟨i, g, hg, hu, hid⟩ := hres
    have ⟨k, hk, he⟩ := hr.keep i g hg hu
    have ⟨hp, _, hin⟩ := Frame.eq_of_unstamped he
    exact h₅ id ⟨i, k, hk, hin ▸ hu, hp ▸ hid⟩
  · intro id bytes hm
    have ⟨hw, i, g, hg, hu, hd, hid⟩ := h₇ id bytes hm
    refine ⟨hw, ?_⟩
    rcases hr.lost i g hg hu with ⟨k, hk, he⟩ | ⟨_, hc⟩
    · have ⟨hp, _, hin⟩ := Frame.eq_of_unstamped he
      exact ⟨i, k, hk, hin ▸ hu, hp ▸ hd, hp ▸ hid⟩
    · rw [hc] at hd
      cases hd

-- Something happened to the files, and the frames are as before.
theorem event {d : Disk} (h : Ahead f p) (ht : d.trace = p.dev.trace ++ [e])
    (hf : e.apply p.dev.files = d.files) (hm : ∀ id d, e ≠ .modify id d)
    (hl : ∃ w ps, d.wal = some w ∧ w.Appending ps) (ho : Ordered f p.dev.trace e)
    (hu : UpToDate f (p.dev.trace ++ [e])) (hn : ∀ id, id < p.dev.storage.numPages → id < d.storage.numPages)
    (hb : ∀ id bytes, .log id bytes false ∈ d.trace → (∀ w, d.wal = some w → w.good = false) ∧
      ∃ i g, p.frame? i = some g ∧ g.inUse ∧ g.page.dirty ∧ g.page.id = id) :
    Ahead f { p with dev := d } := by
  have hmod : ∀ id, modifications d.trace id = modifications p.dev.trace id := by
    intro id
    rw [ht, modifications_snoc]
    cases e
    case modify i d => exact absurd rfl (hm i d)
    all_goals exact List.append_nil _
  constructor
  case files =>
    change f.after d.trace = d.files
    rw [ht, Files.after_append, h.files, ← hf]
    rfl
  case log => exact hl
  case trace =>
    change WriteAhead f d.trace
    exact ht ▸ .snoc h.trace ho hu
  case dirty =>
    intro i g hg hgu hd
    change (modifications d.trace g.page.id).getLast? = _
    rw [hmod]
    exact h.dirty i g hg hgu hd
  case resident => exact fun id hr => hn id <| h.resident id hr
  case allocated => exact fun id hm => hn id <| h.allocated id (hmod id ▸ hm)
  case failed => exact hb

-- An event that neither the log nor the versions of the pages have anything to do with.
theorem neutral {d : Disk} (h : Ahead f p) (he : e = .fail ∨ e = .extend)
    (ht : d.trace = p.dev.trace ++ [e]) (hf : e.apply p.dev.files = d.files) (hw : d.wal = p.dev.wal)
    (hn : ∀ id, id < p.dev.storage.numPages → id < d.storage.numPages) : Ahead f { p with dev := d } := by
  refine h.event ht hf ?_ (hw ▸ h.log) ?_ ?_ hn fun id b hmem => ?_
  · rcases he with he | he <;> subst he <;> nofun
  · rcases he with he | he <;> subst he <;> trivial
  · refine (h.trace.upToDate List.prefix_rfl).snoc_same ?_ ?_ ?_ <;>
      rcases he with he | he <;> subst he <;> first | exact fun _ => rfl | rfl | nofun
  · rw [ht, List.mem_append, List.mem_singleton] at hmem
    rcases hmem with hmem | hmem
    · exact hw ▸ h.failed id b hmem
    · rcases he with he | he <;> subst he <;> cases hmem

-- A call on the files that failed without effect.
theorem fail (h : Ahead f p) (io : List IoResult) (torn good : Bool) :
    Ahead f { p with dev := { p.dev with io, torn, good }.emit .fail } :=
  h.neutral (.inl rfl) rfl rfl rfl fun _ => id

-- A call that did nothing to the files.
theorem stream (h : Ahead f p) (io : List IoResult) (good : Bool) : Ahead f { p with dev := { p.dev with io, good } } :=
  ⟨h.files, h.log, h.trace, h.dirty, h.resident, h.allocated, h.failed⟩

theorem read (h : Ahead f p) (j : PageId) : Ahead f { p with dev := (Device.readPage p.dev j).snd } := by
  rcases hr : Disk.readPage p.dev j with ⟨res, d⟩
  have hd : (Device.readPage p.dev j).snd = d := congrArg Prod.snd hr
  rw [hd]
  rcases Disk.readPage_cases hr with ⟨_, _, _, hd⟩ | ⟨_, _, _, _, hd⟩ | ⟨_, _, _, hd⟩ <;> subst hd
  · exact h.stream _ _
  · exact h.fail _ _ _
  · exact h.stream _ _

theorem count (h : Ahead f p) (hc : Disk.countPages p.dev = (res, d)) : Ahead f { p with dev := d } := by
  rcases Disk.countPages_cases hc with ⟨_, _, _, _, hd⟩ | ⟨_, hd⟩ <;> subst hd
  · exact h.fail _ _ _
  · exact h.stream _ _

-- The log step of writing back a dirty frame.
theorem log_step (h : Ahead f p) (hf : p.frame? i = some g) (hu : g.inUse) (hd : g.page.dirty)
    (hb : Disk.beforePageWrite p.dev g.page = (res, d)) :
    Ahead f { p with dev := d } ∧ d.storage = p.dev.storage ∧ (res = .ok () →
      (versions d.trace g.page.id).logged = some (versions d.trace g.page.id).current ∧
      lastWrite (f.after d.trace).logImages g.page.id = some g.page.data ∧
      ∃ w, d.wal = some w ∧ w.good) := by
  obtain ⟨w, ps, hw, ha⟩ := h.log
  have hex := h.resident g.page.id ⟨i, g, hf, hu, rfl⟩
  have hid : g.page.id ≠ invalidId := fun he => PageStorage.not_invalidId_lt (he ▸ hex)
  have hlast := h.dirty i g hf hu hd
  rcases Disk.beforePageWrite_cases hb with ⟨_, _, hn⟩ | ⟨w₁, w', io₁, io₂, hw₁, hb, hd'⟩
  · rw [hw] at hn
    cases hn
  · cases hw.symm.trans hw₁
    obtain ⟨bytes, hfile, hcases⟩ := ha.beforePageWrite hid hb
    have hbytes : w'.file.drop w.file.length = bytes := by simp [hfile]
    rw [hbytes] at hd'
    have htr : d.trace = p.dev.trace ++ [.log g.page.id bytes res.isOk] := by rw [hd', Disk.emit]
    have hwal : d.wal = some w' := by rw [hd', Disk.emit]
    have hfiles : f.after d.trace = d.files := by
      rw [hd']
      simp [Disk.emit, FileEvent.apply, Disk.files, h.files, hw, hfile]
    obtain ⟨ps', ha', hps'⟩ : ∃ ps', w'.Appending ps' ∧
        ((bytes.length = 4128 ∧ ps' = ps ++ [(g.page.id, g.page.data)]) ∨
         (bytes.length ≠ 4128 ∧ ps' = ps)) := by
      rcases hcases with ⟨_, _, _, hl, ha'⟩ | ⟨_, _, ⟨hl, ha'⟩ | ⟨hl, ha'⟩⟩
      · exact ⟨_, ha', .inl ⟨hl, rfl⟩⟩
      · exact ⟨_, ha', .inl ⟨hl, rfl⟩⟩
      · exact ⟨_, ha', .inr ⟨hl.ne, rfl⟩⟩
    have himg : (f.after p.dev.trace).logImages = ps := h.logImages hw ha
    have himg' : (f.after d.trace).logImages = ps' := by
      rw [hfiles, Files.logImages, Disk.files, hwal]
      exact ha'.images
    have hstorage : d.storage = p.dev.storage := by rw [hd', Disk.emit]
    refine ⟨h.event htr ?_ (by rintro _ _ ⟨⟩) ⟨w', ps', hwal, ha'⟩ trivial ?_ (hstorage ▸ fun _ => id) fun id b hm => ?_,
      hstorage, fun hr => ?_⟩
    · rw [← hfiles, htr, Files.after_append, h.files]
      rfl
    · apply (h.trace.upToDate List.prefix_rfl).snoc_log hlast
      rw [← htr, himg', himg]
      exact hps'
    · rw [htr, List.mem_append, List.mem_singleton] at hm
      have hbad : w'.good = false := by
        rcases hcases with ⟨hr, hg, _⟩ | ⟨_, hg, _⟩
        · rcases hm with hm | hm
          · have := (h.failed id b hm).left w hw
            rw [hg] at this
            cases this
          · rw [hr] at hm
            cases hm
        · exact hg
      refine ⟨fun w₂ hw₂ => ?_, ?_⟩
      · cases hwal.symm.trans hw₂
        exact hbad
      · rcases hm with hm | hm
        · exact (h.failed id b hm).right
        · injection hm with hid
          exact ⟨i, g, hf, hu, hd, hid.symm⟩
    · rcases hcases with ⟨_, _, hg, hl, _⟩ | ⟨⟨e, he⟩, _⟩
      · rcases hps' with ⟨_, hps'⟩ | ⟨hl', _⟩
        · refine ⟨?_, by simp [himg', hps'], w', hwal, hg⟩
          rw [htr, versions_snoc, Versions.next, if_pos ⟨rfl, hl⟩]
        · exact absurd hl hl'
      · rw [hr] at he
        cases he

-- Writing the page after its log step.
theorem write_step (h : Ahead f p) (hf : p.frame? i = some g) (hu : g.inUse) (hd : g.page.dirty)
    (hl : (versions p.dev.trace g.page.id).logged = some (versions p.dev.trace g.page.id).current)
    (hi : lastWrite (f.after p.dev.trace).logImages g.page.id = some g.page.data)
    (hg : ∃ w, p.dev.wal = some w ∧ w.good)
    (hw : Disk.writePage p.dev .pool g.page = (res, d)) :
    Ahead f { p with dev := d } ∧ ∀ id bytes, .log id bytes false ∉ d.trace := by
  have hnf : ∀ id b, .log id b false ∉ p.dev.trace := by
    intro id b hm
    have ⟨w, hw, hg⟩ := hg
    have := (h.failed id b hm).left w hw
    rw [hg] at this
    cases this
  rcases Disk.writePage_cases hw with ⟨_, _, _, hd', _⟩ | ⟨_, _, _, hd', _⟩ | ⟨io, _, _, _, _, hd'⟩ <;> subst hd'
  · exact ⟨h.stream _ _, hnf⟩
  · exact ⟨h.fail _ _ _, by simp [Disk.emit, hnf]⟩
  · refine ⟨?_, by simp [Disk.emit, hnf]⟩
    refine h.event rfl rfl nofun h.log ⟨hi, h.dirty i g hf hu hd, hnf⟩ ?_ ?_ fun id b hm => ?_
    · exact (h.trace.upToDate List.prefix_rfl).snoc_overwrite (.inr hl)
    · exact fun id hid => by simpa [Disk.emit, PageStorage.numPages_overwrite] using hid
    · simp [Disk.emit, hnf] at hm

-- Replacing a frame by one that is not dirty. The old one was not dirty either, or the log has never
-- failed.
theorem setFrame (h : Ahead f p) (hf : p.frame? i = some g)
    (hg : (g.inUse → g.page.dirty = false) ∨ ∀ id bytes, .log id bytes false ∉ p.dev.trace)
    (hk : k.inUse → k.page.dirty = false) (hr : k.inUse → k.page.id < p.dev.storage.numPages) :
    Ahead f (p.setFrame i k) := by
  refine ⟨h.files, h.log, h.trace, fun j k' hj hu hd => ?_, fun id hres => ?_, h.allocated, fun id b hm => ?_⟩
  · rw [BufferPool.frame?_setFrame] at hj
    split at hj
    case isTrue =>
      have ⟨_, _, he⟩ := Option.map_eq_some_iff.mp hj
      subst he
      rw [hk hu] at hd
      cases hd
    case isFalse => exact h.dirty j k' hj hu hd
  · rcases hres.of_setFrame with hres | ⟨hu, hid⟩
    · exact h.resident id hres
    · exact hid ▸ hr hu
  · have ⟨hw, j, g', hj, hu, hd, hid⟩ := h.failed id b hm
    have hne : i ≠ j := by
      rintro rfl
      cases hf.symm.trans hj
      rcases hg with hg | hg
      · rw [hg hu] at hd
        cases hd
      · exact hg id b hm
    exact ⟨hw, j, g', (BufferPool.frame?_setFrame.trans (if_neg hne)).trans hj, hu, hd, hid⟩

theorem step (h : Ahead f p) (st : BufferPool.Step p q) : Ahead f q := by
  cases st
  case reframe hr => exact h.reframe hr
  case read j => exact h.read j
  case logFailed hf hu hd log => exact (h.log_step hf hu hd log).left
  case writeFailed i g _ _ _ hf hu hd log write =>
    have ⟨h₁, _, hok⟩ := h.log_step hf hu hd log
    have ⟨hl, hi, hg⟩ := hok rfl
    exact (h₁.write_step hf hu hd hl hi hg write).left
  case flushed i g s₁ s hf hu hd log write =>
    have ⟨h₁, _, hok⟩ := h.log_step hf hu hd log
    have ⟨hl, hi, hg⟩ := hok rfl
    have ⟨h₂, hn⟩ := h₁.write_step hf hu hd hl hi hg write
    exact h₂.setFrame (k := g.cleaned) hf (.inr hn) (fun _ => rfl) fun _ => h₂.resident _ ⟨i, g, hf, hu, rfl⟩

theorem steps (h : Ahead f p) (st : BufferPool.Steps p q) : Ahead f q := by
  induction st
  case refl => exact h
  case tail st hi => exact hi.step st

-- Replacing a frame by one with the same page and use.
theorem setFrame_same (h : Ahead f p) (hf : p.frame? i = some g) (hp : k.page = g.page)
    (hu : k.inUse = g.inUse) : Ahead f (p.setFrame i k) := by
  have hframe : ∀ {j k'}, (p.setFrame i k).frame? j = some k' →
      ∃ g', p.frame? j = some g' ∧ g'.page = k'.page ∧ g'.inUse = k'.inUse := by
    intro j k' hj
    rw [BufferPool.frame?_setFrame] at hj
    split at hj
    case isTrue hij =>
      subst hij
      have ⟨_, _, he⟩ := Option.map_eq_some_iff.mp hj
      subst he
      exact ⟨g, hf, hp.symm, hu.symm⟩
    case isFalse => exact ⟨k', hj, rfl, rfl⟩
  refine ⟨h.files, h.log, h.trace, fun j k' hj hku hd => ?_, fun id hres => ?_, h.allocated, fun id b hm => ?_⟩
  · have ⟨g', hg', hp', hu'⟩ := hframe hj
    exact hp' ▸ h.dirty j g' hg' (hu' ▸ hku) (hp' ▸ hd)
  · have ⟨j, k', hj, hku, hid⟩ := hres
    have ⟨g', hg', hp', hu'⟩ := hframe hj
    exact h.resident id ⟨j, g', hg', hu' ▸ hku, hp' ▸ hid⟩
  · have ⟨hw, j, g', hj, hgu, hd, hid⟩ := h.failed id b hm
    refine ⟨hw, j, ?_⟩
    by_cases hij : i = j
    case neg => exact ⟨g', (BufferPool.frame?_setFrame.trans (if_neg hij)).trans hj, hgu, hd, hid⟩
    case pos =>
      subst hij
      cases hf.symm.trans hj
      exact ⟨k, BufferPool.frame?_setFrame_self hf, hu ▸ hgu, hp ▸ hd, hp ▸ hid⟩

theorem unpin (h : Ahead f p) (i : Nat) : Ahead f (p.unpinFrame i) := by
  rw [BufferPool.unpinFrame]
  split
  case isTrue => exact h
  case isFalse hl =>
    have hf : p.frame? i = some (p.frameAt i) := by
      have hl : i < p.frames.length := Nat.not_le.mp hl
      simp [BufferPool.frame?, BufferPool.frameAt, hl]
    exact h.setFrame_same hf rfl rfl

theorem pinned {id : PageId} (h : Ahead f p) (hp : BufferPool.Pinned p id i q) : Ahead f q := by
  cases hp
  case hit g hf hu hid same =>
    exact (h.setFrame_same (k := { g with pinCount := g.pinCount + 1 }) hf rfl rfl).reframe (.of_same same)
  case load g d hf avail fresh content same =>
    have hex : id < p.dev.storage.numPages := PageStorage.page?_isSome_iff.mp <| by
      have : p.dev.storage.page? id = some d := content
      rw [this]
      rfl
    have hclean : g.inUse → g.page.dirty = false := by
      intro hu
      rcases avail with ⟨h, _⟩ | ⟨_, h⟩
      · rw [hu] at h
        cases h
      · exact h
    refine Ahead.reframe (h.setFrame hf (.inl hclean) (fun _ => rfl) fun _ => hex) (.of_same same)

-- Modifying the page in a frame.
theorem edit (h : Ahead f p) (hi : p.Inv) (hf : p.frame? i = some g) (hu : g.inUse) (d : Option PageData) :
    Ahead f (p.edit i d) := by
  cases d
  case none => exact h
  case some d =>
    rw [BufferPool.edit_eq hf]
    have hmod : ∀ j, modifications (p.dev.trace ++ [.modify g.page.id d]) j =
        modifications p.dev.trace j ++ if g.page.id = j then [d] else [] :=
      fun j => modifications_snoc
    have hres : ∀ id, (p.setFrame i { g with page := { g.page with data := d, dirty := true } }).Resident id →
        id < p.dev.storage.numPages := by
      intro id hr
      rcases hr.of_setFrame with hr | ⟨_, hid⟩
      · exact h.resident id hr
      · exact hid ▸ h.resident _ ⟨i, g, hf, hu, rfl⟩
    constructor
    case files =>
      change f.after (p.dev.trace ++ [.modify g.page.id d]) = p.dev.files
      rw [Files.after_append, h.files]
      rfl
    case log => exact h.log
    case trace =>
      exact .snoc h.trace trivial <| (h.trace.upToDate List.prefix_rfl).snoc_modify
    case dirty =>
      intro j k hk hku hkd
      change (modifications (p.dev.trace ++ [.modify g.page.id d]) k.page.id).getLast? = _
      change (p.setFrame i _).frame? j = some k at hk
      rw [BufferPool.frame?_setFrame] at hk
      split at hk
      case isTrue hij =>
        have ⟨_, _, he⟩ := Option.map_eq_some_iff.mp hk
        subst he
        simp [hmod]
      case isFalse hij =>
        have hne : g.page.id ≠ k.page.id := fun he => hij <| hi.unique i j g k hf hk hu hku he
        rw [hmod, if_neg hne, List.append_nil]
        exact h.dirty j k hk hku hkd
    case resident => exact hres
    case allocated =>
      intro id hn
      change modifications (p.dev.trace ++ [.modify g.page.id d]) id ≠ [] at hn
      rw [hmod] at hn
      by_cases hid : g.page.id = id
      case pos => exact hid ▸ h.resident _ ⟨i, g, hf, hu, rfl⟩
      case neg => exact h.allocated id (by simpa [hid] using hn)
    case failed =>
      intro id b hm
      have hm : .log id b false ∈ p.dev.trace := by
        change _ ∈ p.dev.trace ++ [.modify g.page.id d] at hm
        simpa using hm
      have ⟨hw, j, k, hk, hku, hkd, hid⟩ := h.failed id b hm
      refine ⟨hw, ?_⟩
      by_cases hij : i = j
      case pos =>
        subst hij
        cases hf.symm.trans hk
        exact ⟨i, _, BufferPool.frame?_setFrame_self hf, hu, rfl, hid⟩
      case neg => exact ⟨j, k, (BufferPool.frame?_setFrame.trans (if_neg hij)).trans hk, hku, hkd, hid⟩

-- Adding a page to the storage.
theorem allocate (h : Ahead f p) (ha : Disk.allocatePage p.dev = (res, d)) : Ahead f { p with dev := d } := by
  rcases Disk.allocatePage_cases ha with ⟨_, hd, _⟩ | ⟨_, _, _, _, _, hd⟩ | ⟨s, _, hn, hs, hp, hd⟩ <;> subst hd
  · exact h.stream _ _
  · exact h.fail _ _ _
  · refine h.neutral (.inr rfl) rfl ?_ rfl fun id hid => ?_
    · simp [FileEvent.apply, Disk.files, Disk.emit, hs]
    · rw [← PageStorage.page?_isSome_iff] at hid ⊢
      change (s.page? id).isSome
      rw [PageStorage.page?_push hp]
      split
      case isTrue => rfl
      case isFalse => exact hid

-- Writing a page that was never modified in memory.
theorem write_new {page : Page} (h : Ahead f p) (hm : modifications p.dev.trace page.id = [])
    (hw : Disk.writePage p.dev .direct page = (res, d)) : Ahead f { p with dev := d } := by
  rcases Disk.writePage_cases hw with ⟨_, _, _, hd, _⟩ | ⟨_, _, _, hd, _⟩ | ⟨io, _, _, _, _, hd⟩ <;> subst hd
  · exact h.stream _ _
  · exact h.fail _ _ _
  · have hup := h.trace.upToDate List.prefix_rfl
    have hnone : (versions p.dev.trace page.id).logged = none := by
      have := hup page.id
      split at this
      case h_1 hn => exact hn
      case h_2 =>
        have ⟨_, _, _, _, _, hd⟩ := this
        rw [hm] at hd
        cases hd
    refine h.event rfl rfl nofun h.log trivial (hup.snoc_overwrite (.inl hnone)) ?_ fun id b hmem => ?_
    · exact fun id hid => by simpa [Disk.emit, PageStorage.numPages_overwrite] using hid
    · exact h.failed id b <| by simpa [Disk.emit] using hmem

theorem exec (h : Ahead f p) (hi : p.Inv) (g : Prog α) : Ahead f (g.exec p).snd := by
  refine And.right <| Prog.exec_rule (fun q => q.Inv ∧ Ahead f q) ?_ ?_ ?_ ?_ g ⟨hi, h⟩
  · exact fun q res s ⟨hi, h⟩ hc => ⟨(hi.keeps_dev s).inv, h.count hc⟩
  · intro q res s ⟨hi, h⟩ ha
    refine ⟨⟨(hi.keeps_dev s).inv, h.allocate ha⟩, fun page d st s' hres hw => ⟨(hi.keeps_dev s').inv, ?_⟩⟩
    -- A page that was just added has not been modified yet.
    subst hres
    have ⟨_, hid, _⟩ := Device.alloc_ok ha
    refine (h.allocate ha).write_new ?_ hw
    have hn : modifications q.dev.trace page.id = [] := by
      by_contra hn
      have hlt := h.allocated page.id hn
      rw [hid] at hlt
      exact UInt32.lt_irrefl _ hlt
    rcases Disk.allocatePage_cases ha with ⟨_, hd, _⟩ | ⟨_, _, _, _, _, hd⟩ | ⟨_, _, _, _, _, hd⟩ <;> subst hd
    · exact hn
    · simpa [Disk.emit, modifications_snoc] using hn
    · simpa [Disk.emit, modifications_snoc] using hn
  · intro q j e q' ⟨hi, h⟩ hf
    rcases BufferPool.fetch_cases hf with ⟨_, _, st⟩ | ⟨_, _, hr, _⟩
    · exact ⟨(hi.keeps_steps st).inv, h.steps st⟩
    · cases hr
  · intro q j i q' d ⟨hi, h⟩ hf
    refine ⟨(hi.keeps_use hf d).inv, ?_⟩
    rcases BufferPool.fetch_cases hf with ⟨_, hr, _⟩ | ⟨_, p₁, hr, st, hp⟩ <;> cases hr
    have ⟨hi', _, ⟨g, hg, hu, _⟩, _⟩ := (hi.keeps_steps st).inv.pinned hp
    exact ((h.steps st).pinned hp |>.edit hi' hg hu d).unpin i

end Ahead

namespace Client

variable {f : Files} {c : Client Disk}

theorem ahead_modify (hi : Inv c) (h : Ahead f c.pool) (i : Nat) (g : PageData → PageData) :
    Ahead f (c.modify i g).pool := by
  rw [Client.modify]
  split
  case h_1 => exact h
  case h_2 k hk =>
    obtain ⟨k', hk', hu, _⟩ := hi.live k <| List.mem_of_getElem? <| handle?_eq_some hk
    have he := h.edit hi.pool hk' hu (some (g k'.page.data))
    rw [BufferPool.edit_eq hk'] at he
    rw [BufferPool.frameAt_eq hk']
    exact he

-- What the users of the pool can do to it, except for writing to the storage themselves.
theorem ahead_step (hi : Inv c) (h : Ahead f c.pool) (op : PoolOp) (ha : op ≠ .allocate)
    (hw : ∀ page, op ≠ .write page) : Ahead f (c.step op).snd.pool := by
  by_cases hm : ∃ i g, op = .modify i g
  case pos =>
    have ⟨i, g, hm⟩ := hm
    subst hm
    exact ahead_modify hi h i g
  case neg =>
    exact step_rule (Ahead f) (fun _ _ _ h st => h.steps st) (fun _ _ _ _ h hp => h.pinned hp) (fun _ i h => h.unpin i)
      hi h op (fun i g he => hm ⟨i, g, he⟩) ha hw

end Client

namespace Session

variable {f : Files} {s : Session}

theorem ahead_step (hi : s.client.Inv) (h : Ahead f s.client.pool) (a : Action) :
    (s.step a).client.Inv ∧ Ahead f (s.step a).client.pool := by
  cases a
  case pool op =>
    rw [Session.step.eq_def]
    split
    case h_1 => exact ⟨hi, h⟩
    case h_2 => exact ⟨hi, h⟩
    case h_3 op' ha hw he =>
      cases he
      exact ⟨hi.step op, Client.ahead_step hi h op (fun e => ha (e ▸ rfl)) fun page e => hw page (e ▸ rfl)⟩
    case h_4 he => cases he
  case query q =>
    have hk := Prog.exec_keeps hi.pool (q.run s.executor)
    have ha := h.exec hi.pool (q.run s.executor)
    rw [Session.step]
    split
    case h_1 he =>
      rw [he] at hk ha
      exact ⟨hi.keeps hk, ha⟩
    case h_2 he =>
      rw [he] at hk ha
      exact ⟨hi.keeps hk, ha⟩

theorem ahead_run (hi : s.client.Inv) (h : Ahead f s.client.pool) (as : List Action) :
    (s.run as).client.Inv ∧ Ahead f (s.run as).client.pool := by
  induction as generalizing s
  case nil => exact ⟨hi, h⟩
  case cons a as ih =>
    have ⟨hi, h⟩ := ahead_step hi h a
    exact ih hi h

theorem ahead_open (h : Database.open f n io = (some (.ok db), es)) :
    ∃ es₀, es = es₀ ++ db.pool.dev.trace ∧ (f.after es₀).logImages = [] ∧
      (start db).client.Inv ∧ Ahead (f.after es₀) db.pool := by
  have ⟨s, log, io', w, w', pool, es₀, ho, he, hf⟩ := Database.open_ok h
  have ha := Wal.Appending.of_reset ho.reset
  have hw : w'.file = [] := by rw [Wal.reset_ok ho.reset]
  have ⟨hi, hpins, _⟩ := BufferPool.create_inv ho.create
  have hahead := Ahead.create ho.create rfl rfl ha
  have hk := Prog.exec_keeps hi (QueryExecutor.open db.catalogRoot)
  have hdb := hahead.exec hi (QueryExecutor.open db.catalogRoot)
  rw [ho.load] at hk hdb
  refine ⟨es₀, he, ?_⟩
  rw [hf, ← hw]
  exact ⟨ha.images, ⟨hk.inv, fun i => (hk.pins i).trans (hpins i), nofun⟩, hdb⟩

-- A page that the pool overwrites is in the log with the same bytes, in the last record for it. A log
-- step that fails leaves its page in the pool, dirty, and the storage is not written any more. At no
-- moment has the log an older version of a page than the storage.
theorem write_ahead (h : Database.open f n io = (some (.ok db), es)) (actions : List Action) :
    ∃ es₀, es = es₀ ++ (start db).trace ∧ (f.after es₀).logImages = [] ∧
      let s := (start db).run actions
      (f.after es₀).after s.trace = s.client.pool.dev.files ∧
      (∀ pre id d res post, s.trace = pre ++ .overwrite .pool id d res :: post →
        lastWrite ((f.after es₀).after pre).logImages id = some d ∧
          (modifications pre id).getLast? = some d) ∧
      (∀ pre id bytes post, s.trace = pre ++ .log id bytes false :: post →
        (∀ id' d res, .overwrite .pool id' d res ∉ post) ∧
          ∃ g ∈ s.client.pool.frames, g.inUse ∧ g.page.dirty ∧ g.page.id = id) ∧
      (∀ pre, pre <+: s.trace → UpToDate (f.after es₀) pre) := by
  have ⟨es₀, he, hl, hi, ha⟩ := ahead_open h
  have ⟨_, hs⟩ := ahead_run hi ha actions
  refine ⟨es₀, he, hl, hs.files, fun pre id d res post ht => ?_, fun pre id bytes post ht => ?_,
    fun pre hp => hs.trace.upToDate hp⟩
  · have ⟨hl, hm, _⟩ := hs.trace.ordered ht
    exact ⟨hl, hm⟩
  · constructor
    · intro id' d res hmem
      have ⟨post₁, post₂, hpost⟩ := List.append_of_mem hmem
      rw [hpost, ← List.cons_append, ← List.append_assoc] at ht
      exact (hs.trace.ordered ht).right.right id bytes <| by simp
    · have hmem : .log id bytes false ∈ ((start db).run actions).trace := by
        rw [ht]
        exact List.mem_append_right _ List.mem_cons_self
      have ⟨_, i, g, hg, hu, hd, hid⟩ := hs.failed id bytes hmem
      exact ⟨g, BufferPool.mem_of_frame? hg, hu, hd, hid⟩

def overwrites : FileEvent → Bool
  | .overwrite .pool .. => true
  | _                   => false

-- A page is changed and written back.
def changing : List Action :=
  [.pool .declare, .pool (.fetch 0 0), .pool (.modify 0 fun _ => zeroPage), .pool .flushAll]

theorem exists_overwrite (h : Database.open {} 1 [] = (some (.ok db), es)) :
    ∃ pre id d res post, ((start db).run changing).trace = pre ++ .overwrite .pool id d res :: post := by
  have heval : (Database.open {} 1 []).fst.any
      fun r => r.toOption.any fun db => ((start db).run changing).trace.any overwrites := by decide +kernel
  rw [h] at heval
  simp only [Option.any_some, Except.toOption] at heval
  obtain ⟨e, hm, hover⟩ := List.any_eq_true.mp heval
  obtain ⟨pre, post, ht⟩ := List.append_of_mem hm
  rw [overwrites.eq_def] at hover
  split at hover
  case h_1 id d res => exact ⟨pre, id, d, res, post, ht⟩
  case h_2 => cases hover

theorem write_ahead_changing : ∃ db es, Database.open {} 1 [] = (some (.ok db), es) ∧
    ∃ es₀, es = es₀ ++ (start db).trace ∧ ∃ pre id d res post,
      ((start db).run changing).trace = pre ++ .overwrite .pool id d res :: post ∧
        lastWrite ((Files.after {} es₀).after pre).logImages id = some d := by
  obtain ⟨db, es, h⟩ := Database.open_empty
  obtain ⟨es₀, he, _, _, hw, _⟩ := write_ahead h changing
  obtain ⟨pre, id, d, res, post, ht⟩ := exists_overwrite h
  exact ⟨db, es, h, es₀, he, pre, id, d, res, post, ht, (hw pre id d res post ht).left⟩

end Session
end NexusDb
