import NexusDb.Benchmark.EngineWorkload
import NexusDb.Benchmark.Theorems.Accounting
import NexusDb.Buffer.Theorems.Simulation

namespace NexusDb

namespace PageStorage

variable {s : PageStorage} {i : PageId}

theorem setPage_same (h : s.page? i = some d) : s.setPage i d = s := by
  have ⟨hlt, he⟩ := List.getElem?_eq_some_iff.mp h
  ext1
  rw [← he]
  exact List.set_getElem_self hlt

-- Writing the bytes that are there leaves them, even when only a part of them is written.
theorem overwrite_same (h : s.page? i = some d) (io : IoResult) : s.overwrite i d io = s := by
  have hleave : io.leave d d = d := by
    cases io
    case success => rfl
    case failure => funext; simp [IoResult.leave]
  rw [overwrite, h]
  dsimp only
  rw [hleave, setPage_same h]

end PageStorage

namespace Disk

variable {d d' : Disk}

-- The file of a disk.
def file (d : Disk) : DbFile where
  storage := d.storage
  torn    := d.torn

theorem readPage_file {i : PageId} (h : d.readPage i = (res, d')) : d'.file = d.file := by
  rcases readPage_cases h with ⟨_, _, _, hd⟩ | ⟨_, _, _, _, hd⟩ | ⟨_, _, _, hd⟩ <;> cases hd <;> rfl

theorem beforePageWrite_file (h : d.beforePageWrite page = (res, d')) : d'.file = d.file := by
  rcases beforePageWrite_cases h with ⟨_, hd, _⟩ | ⟨_, _, _, _, _, _, hd⟩ <;> rw [hd]
  rfl

theorem writePage_same (h : d.writePage w page = (res, d')) (hp : d.storage.page? page.id = some page.data) :
    d'.file = d.file := by
  rcases writePage_cases h with ⟨_, _, _, hd, _⟩ | ⟨_, _, _, hd, _⟩ | ⟨io, _, _, _, _, hd⟩ <;> rw [hd]
  · rfl
  · rfl
  · simp only [file, emit, PageStorage.overwrite_same hp io]

end Disk

namespace BufferPool

-- The pool of a file that nobody has changed: a page that the pool holds has the bytes that are in the file.
structure Mirrors (p : BufferPool Disk) (s : PageStorage) : Prop where
  serves : p.Serves s
  file   : p.dev.file = { storage := s }

variable {p q : BufferPool Disk} {s : PageStorage}

theorem Step.file_same (st : Step p q) (hc : p.Coherent s.page?) (hs : p.dev.file = { storage := s }) :
    q.dev.file = { storage := s } := by
  have hwrite : ∀ {i f s₁ w res s₂}, p.frame? i = some f → f.inUse →
      Device.beforePageWrite p.dev f.page = (.ok (), s₁) → Device.writePage s₁ w f.page = (res, s₂) →
      s₂.file = { storage := s } := by
    intro i f s₁ w res s₂ hf hu hlog hw
    have hlog := (Disk.beforePageWrite_file hlog).trans hs
    have hstorage : s₁.storage = s := congrArg DbFile.storage hlog
    have hpage : s₁.storage.page? f.page.id = some f.page.data := by rw [hstorage, hc.resident i f hf hu]
    rw [Disk.writePage_same hw hpage, hlog]
  cases st
  case reframe h => rw [h.dev, hs]
  case read j => exact (Disk.readPage_file (d := p.dev) (i := j) rfl).trans hs
  case logFailed hlog => exact (Disk.beforePageWrite_file hlog).trans hs
  case writeFailed hf hu _ hlog hw => exact hwrite hf hu hlog hw
  case flushed hf hu _ hlog hw => exact hwrite hf hu hlog hw

theorem Steps.file_same (st : Steps p q) (hi : p.Inv) (hc : p.Coherent s.page?) (hs : p.dev.file = { storage := s }) :
    q.dev.file = { storage := s } := by
  induction st
  case refl => exact hs
  case tail st' st ih => exact st.file_same (hc.steps hi st') ih

theorem create_dev {d : Disk} (h : create d n = .ok p) : p.dev = d := by
  rw [create] at h
  split at h <;> cases h
  rfl

theorem create_fetches {d : Disk} (h : create d n = .ok p) : p.fetches = 0 := by
  rw [create] at h
  split at h <;> cases h
  rfl

namespace Mirrors

theorem create {d : Disk} (h : BufferPool.create d n = .ok p) (ht : d.torn = false) : p.Mirrors d.storage :=
  ⟨.create h fun _ => rfl, by rw [create_dev h, Disk.file, ht]⟩

theorem steps (h : p.Mirrors s) (st : Steps p q) (hs : SameStamps p q) : q.Mirrors s :=
  ⟨h.serves.steps st hs, st.file_same h.serves.inv h.serves.coherent h.file⟩

theorem flushAll (h : p.Mirrors s) : p.flushAll.snd.Mirrors s :=
  h.steps (flushAll_steps rfl) (flushEach_stamps rfl)

theorem request (h : p.Mirrors s) (a : Allocation) (n : UInt64) : (bufferPoolRequest a p n).snd.Mirrors s := by
  rw [bufferPoolRequest]
  split
  case isTrue => exact h
  case isFalse =>
    split
    case h_1 hr => exact h.steps (resize_steps hr) (resize_stamps hr)
    case h_2 hr => exact h.steps (resize_steps hr) (resize_stamps hr)

theorem fetch_failed {id : PageId} (h : p.Mirrors s) (hf : p.fetch id = (.error e, q)) : q.Mirrors s := by
  rcases fetch_cases hf with ⟨_, _, st⟩ | ⟨_, _, hr, _⟩
  · exact ⟨(h.serves.fetch_failed hf).left, st.file_same h.serves.inv h.serves.coherent h.file⟩
  · cases hr

theorem fetch {id : PageId} (h : p.Mirrors s) (hf : p.fetch id = (.ok i, q)) :
    (q.unpinFrame i).Mirrors s ∧ ((q.markDirty i).unpinFrame i).Mirrors s := by
  obtain ⟨hd, _, hnone, hsome⟩ := h.serves.fetch_ok hf
  have hs : q.dev.file = { storage := s } := by
    rcases fetch_cases hf with ⟨_, hr, _⟩ | ⟨_, p₁, _, st, hp⟩
    · cases hr
    · rw [hp.dev, st.file_same h.serves.inv h.serves.coherent h.file]
  refine ⟨⟨hnone, ?_⟩, ?_, ?_⟩
  · rw [unpinFrame_dev, hs]
  · have := hsome (q.frameAt i).page.data
    rwa [PageStorage.setPage_same hd] at this
  · rw [unpinFrame_dev]
    exact hs

end Mirrors

end BufferPool

namespace EngineWorkload

-- What a workload finds in a file, and nothing in one that does not exist.
def fileAt (w : EngineWorkload) (path : Text) : DbFile :=
  (w.files path).getD {}

def startFrames (cfg : BenchConfig) : Nat :=
  (if cfg.poolFramesStart = 0 then 1 else cfg.poolFramesStart).toNat

-- How many pages a run works on.
def walked (cfg : BenchConfig) : UInt64 :=
  if cfg.pageCount = 0 then 1 else cfg.pageCount

-- A file has only got pages of zeros. It ends with a part of a page when it did so before, or when it could not be
-- extended to the pages of the run, which has then failed.
structure Grown (cfg : BenchConfig) (rc : Rc) (file file' : DbFile) : Prop where
  pages : ∃ n, file'.storage.pages = file.storage.pages ++ List.replicate n zeroPage ∧ (file.torn → n = 0 ∧ file'.torn)
  torn  : file'.torn → file.torn ∨ rc = .process ∧ file'.storage.pages.length < (walked cfg).toNat

theorem Grown.refl (file : DbFile) : Grown cfg rc file file :=
  ⟨⟨0, by simp, fun ht => ⟨rfl, ht⟩⟩, .inl⟩

-- Only the file at the path may have changed.
def Extends (cfg : BenchConfig) (rc : Rc) (w w' : EngineWorkload) : Prop :=
  w'.files = w.files ∨
  ∃ file, w'.files = Function.update w.files (dbPath cfg) (some file) ∧ Grown cfg rc (w.fileAt (dbPath cfg)) file

theorem addPages_pages (h : addPages disk n = (res, disk')) (ht : disk.torn = false) :
    ∃ m, disk'.storage.pages = disk.storage.pages ++ List.replicate m zeroPage ∧
      (res = .ok () → m = n ∧ disk'.torn = false) ∧ (disk'.torn → m < n) := by
  induction n generalizing disk
  case zero =>
    cases h
    exact ⟨0, by simp, fun _ => ⟨rfl, ht⟩, fun ht' => absurd ht' (by simp [ht])⟩
  case succ n ih =>
    rw [addPages] at h
    split at h
    case h_1 ha =>
      cases h
      rcases Disk.allocatePage_cases ha with ⟨_, hd, _⟩ | ⟨_, _, _, _, _, hd⟩ | ⟨_, hr, _⟩
      · exact ⟨0, by simp [hd], nofun, fun _ => n.succ_pos⟩
      · exact ⟨0, by rw [hd]; simp [Disk.emit], nofun, fun _ => n.succ_pos⟩
      · cases hr
    case h_2 disk₁ ha =>
      rcases Disk.allocatePage_cases ha with ⟨hr, _⟩ | ⟨_, _, _, _, hr, _⟩ | ⟨_, _, _, _, hs, hd⟩
      · cases hr
      · cases hr
      · obtain ⟨m, hm, hn, hlt⟩ := ih h (hd ▸ ht)
        refine ⟨m + 1, ?_, fun hr => ⟨by rw [(hn hr).left], (hn hr).right⟩, fun ht' => Nat.succ_lt_succ (hlt ht')⟩
        have hpages : disk₁.storage.pages = disk.storage.pages ++ [zeroPage] := hd ▸ hs
        rw [hm, hpages, List.append_assoc, List.replicate_succ]
        rfl

variable {w w' : EngineWorkload}

-- The pool of a storage that was opened.
structure Fresh (cfg : BenchConfig) (pages : List PageData) (p : BufferPool Disk) : Prop where
  create : BufferPool.create p.dev (startFrames cfg) = .ok p
  torn   : p.dev.torn = false
  pages  : ∃ n, p.dev.storage.pages = pages ++ List.replicate n zeroPage

theorem openPool_cases (h : w.openPool cfg path disk = (rc, w')) (ht : disk.torn = false) :
    (rc = .process ∧ ∃ disk' n, w' = w.closeFile path disk' ∧
      disk'.storage.pages = disk.storage.pages ++ List.replicate n zeroPage ∧
      (disk'.torn → disk'.storage.pages.length < w.pageCount.toNat)) ∨
    (rc = .ok ∧ ∃ p, w' = { w with pool := some (path, p) } ∧ Fresh cfg disk.storage.pages p ∧
      w.pageCount.toNat ≤ p.dev.storage.pages.length) := by
  have hcount : ∀ {res disk'}, disk.countPages = (res, disk') →
      disk'.storage = disk.storage ∧ disk'.torn = false ∧ ∀ n, res = .ok n → n = disk.storage.numPages := by
    intro res disk' hc
    rcases Disk.countPages_cases hc with ⟨_, _, _, hr, hd⟩ | ⟨hr, hd⟩ <;> subst hr hd
    · exact ⟨rfl, ht, nofun⟩
    · exact ⟨rfl, ht, fun n hn => by cases hn; rfl⟩
  rw [openPool] at h
  split at h
  case h_1 hc =>
    cases h
    obtain ⟨hs, ht₁, _⟩ := hcount hc
    exact .inl ⟨rfl, _, 0, rfl, by simp [hs], fun ht' => absurd ht' (by simp [ht₁])⟩
  case h_2 n disk₁ hc =>
    obtain ⟨hs, ht₁, hn⟩ := hcount hc
    have hn : n.toNat = disk.storage.pages.length := by rw [hn n rfl, PageStorage.toNat_numPages]
    split at h
    case h_1 disk₂ ha =>
      cases h
      obtain ⟨m, hm, _, hlt⟩ := addPages_pages ha ht₁
      rw [hs] at hm
      refine .inl ⟨rfl, _, m, rfl, hm, fun ht' => ?_⟩
      have hlt := hlt ht'
      rw [hm, List.length_append, List.length_replicate]
      omega
    case h_2 disk₂ ha =>
      obtain ⟨m, hm, hall, _⟩ := addPages_pages ha ht₁
      obtain ⟨hmn, ht₂⟩ := hall rfl
      rw [hs] at hm
      dsimp only at h
      split at h
      case h_1 =>
        cases h
        exact .inl ⟨rfl, _, m, rfl, hm, fun ht' => absurd ht' (by simp [ht₂])⟩
      case h_2 p hp =>
        cases h
        have hdev := BufferPool.create_dev hp
        refine .inr ⟨rfl, p, rfl, ⟨hdev.symm ▸ hp, hdev ▸ ht₂, m, hdev ▸ hm⟩, ?_⟩
        rw [hdev, hm, List.length_append, List.length_replicate, hmn, hn]
        omega

-- The workload when its storage is open and its pool was created.
structure Opened (w : EngineWorkload) (cfg : BenchConfig) (w' : EngineWorkload) (p : BufferPool Disk) : Prop where
  pool      : w'.pool = some (dbPath cfg, p)
  files     : ∃ file, w'.files = Function.update w.files (dbPath cfg) (some file)
  found     : (w.fileAt (dbPath cfg)).torn = false
  pageCount : w'.pageCount = walked cfg
  random    : w'.random = cfg.random
  fresh     : Fresh cfg (w.fileAt (dbPath cfg)).storage.pages p
  enough    : (walked cfg).toNat ≤ p.dev.storage.pages.length

theorem walked_pos (cfg : BenchConfig) : 0 < (walked cfg).toNat := by
  rw [walked]
  split
  case isTrue => decide
  case isFalse h => exact Nat.pos_of_ne_zero fun hz => h (UInt64.toNat_inj.mp hz)

theorem open_cases (h : w.open cfg = (rc, w')) :
    (rc = .process ∧ w'.pool = w.pool ∧ w.Extends cfg rc w') ∨ (rc = .ok ∧ ∃ p, w.Opened cfg w' p) := by
  have hcreated : ∀ {rc} {w₁ : EngineWorkload},
      w₁.files = Function.update w.files (dbPath cfg) (some (w.fileAt (dbPath cfg))) → w.Extends cfg rc w₁ :=
    fun hf => .inr ⟨_, hf, .refl _⟩
  rw [«open»] at h
  dsimp only at h
  split at h
  case h_1 => cases h; exact .inl ⟨rfl, rfl, .inl rfl⟩
  case h_2 => cases h; exact .inl ⟨rfl, rfl, .inl rfl⟩
  case h_3 => cases h; exact .inl ⟨rfl, rfl, hcreated rfl⟩
  case h_4 =>
    split at h
    case isTrue => cases h; exact .inl ⟨rfl, rfl, hcreated rfl⟩
    case isFalse ht =>
      have ht : (w.fileAt (dbPath cfg)).torn = false := Bool.eq_false_of_not_eq_true ht
      rcases openPool_cases h rfl with ⟨hrc, disk, n, hw, hpages, htorn⟩ | ⟨hrc, p, hw, hfresh, henough⟩ <;> subst hw
      · refine .inl ⟨hrc, rfl, .inr ⟨{ storage := disk.storage, torn := disk.torn }, Function.update_idem .., ?_⟩⟩
        exact ⟨⟨n, hpages, fun ht' => absurd ht' (by simp [ht])⟩, fun ht' => .inr ⟨hrc, htorn ht'⟩⟩
      · exact .inr ⟨hrc, p, rfl, ⟨_, rfl⟩, ht, rfl, rfl, hfresh, henough⟩

-- The workload of a file that nobody changes.
def Holds (path : Text) (s : PageStorage) (fs : Text → Option DbFile) (w : EngineWorkload) : Prop :=
  w.files = fs ∧ ∃ p, w.pool = some (path, p) ∧ p.Mirrors s

theorem Holds.step (h : w.Holds path s fs) (i : UInt64) : (w.step i).snd.snd.Holds path s fs := by
  obtain ⟨hfiles, p, hp, hm⟩ := h
  rw [EngineWorkload.step, hp]
  dsimp only
  split
  case h_1 hf => exact ⟨hfiles, _, rfl, hm.fetch_failed hf⟩
  case h_2 hf =>
    have ⟨hclean, hdirty⟩ := hm.fetch hf
    refine ⟨hfiles, _, rfl, ?_⟩
    split
    case isTrue => exact hdirty
    case isFalse => exact hclean

theorem Holds.resize (h : w.Holds path s fs) (n : UInt64) : (w.resize n).snd.Holds path s fs := by
  obtain ⟨hfiles, p, hp, hm⟩ := h
  rw [EngineWorkload.resize, hp]
  exact ⟨hfiles, _, rfl, hm.request _ n⟩

theorem Holds.close (h : w.Holds path s fs) :
    w.close.pool = none ∧ w.close.files = Function.update fs path (some { storage := s }) := by
  obtain ⟨hfiles, p, hp, hm⟩ := h
  rw [EngineWorkload.close, hp]
  refine ⟨rfl, ?_⟩
  change Function.update w.files path (some p.flushAll.snd.flushAll.snd.dev.file) = _
  rw [hm.flushAll.flushAll.file, hfiles]

end EngineWorkload

namespace Bench

-- A benchmark never changes a page that it finds, although it marks pages dirty and the pool writes them back: whatever
-- the readings are, whatever fails and however the run ends, its file only gets pages of zeros at its end, and no other
-- file is touched. Only a run that could not extend its file may leave a part of such a page.
theorem run_files [DoubleArith δ] [OfScientific δ] {cfg : BenchConfig} {env : BenchEnv δ}
    {sampler : Option (Sampler δ κ)} {w : EngineWorkload} (hw : w.pool = none)
    (h : run cfg engineWorkload env registry sampler samplerCtx w out = some (rc, res, w', registry')) :
    w'.pool = none ∧ w.Extends cfg rc w' := by
  have hcases := run_rule
    (J := fun c => ∃ file s, c.Holds (EngineWorkload.dbPath cfg) s
        (Function.update w.files (EngineWorkload.dbPath cfg) (some file)) ∧
      ∀ rc, EngineWorkload.Grown cfg rc (w.fileAt (EngineWorkload.dbPath cfg)) { storage := s })
    ?_ ?_ ?_ h
  · rcases hcases with rfl | ⟨f, hf, hopen, hrc⟩ | ⟨f, c, hf, ⟨file, s, hc, hs⟩, rfl⟩
    · exact ⟨hw, .inl rfl⟩
    · cases hf
      rcases EngineWorkload.open_cases hopen with ⟨_, hp, he⟩ | ⟨hok, _⟩
      · exact ⟨hp.trans hw, he⟩
      · exact absurd hok hrc
    · cases hf
      obtain ⟨hp, hfiles⟩ := hc.close
      rw [Function.update_idem] at hfiles
      exact ⟨hp, .inr ⟨_, hfiles, hs rc⟩⟩
  · intro f c hf hopen
    cases hf
    rcases EngineWorkload.open_cases hopen with ⟨hrc, _⟩ | ⟨_, p, hp, ⟨file, hfiles⟩, hfound, _, _, hfresh, _⟩
    · cases hrc
    · obtain ⟨n, hpages⟩ := hfresh.pages
      refine ⟨file, p.dev.storage, ⟨hfiles, p, hp, .create hfresh.create hfresh.torn⟩, fun rc => ?_⟩
      exact ⟨⟨n, hpages, fun ht => absurd ht (by simp [hfound])⟩, nofun⟩
  · intro f hf c i ⟨file, s, hc, hs⟩
    cases hf
    exact ⟨file, s, hc.step i, hs⟩
  · intro f hf c i ⟨file, s, hc, hs⟩
    cases hf
    exact ⟨file, s, hc.resize i, hs⟩

def onePage : PageStorage where
  pages := [fun _ => 7]
  bound := by decide

-- A walk over three pages with one frame. The file has only one of the pages, and the write that the second step needs
-- fails halfway.
def threePages : BenchConfig :=
  { pageCount := 3, iterations := 5, sampleEvery := 2, poolFramesStart := 1, dirtyEvery := 1, manageContainer := false }

def failing : EngineWorkload where
  files path := if path = EngineWorkload.dbPath threePages then some { storage := onePage } else none
  io         := [.success, .success, .success, .success, .success, .failure 100]

theorem run_files_failing : ∃ res w registry,
    run threePages engineWorkload quiet {} (some scripted) 0 failing (begin threePages) = some (.ok, res, w, registry) ∧
    res.fetchErrors = 1 ∧ w.pool = none ∧ failing.Extends threePages .ok w := by
  have hrun : completesWith (run threePages engineWorkload quiet {} (some scripted) 0 failing (begin threePages))
      fun res _ => decide (res.fetchErrors = 1) := by decide +kernel
  obtain ⟨res, w, registry, h, hres⟩ := exists_of_completesWith hrun
  exact ⟨res, w, registry, h, of_decide_eq_true hres, run_files rfl h⟩

end Bench
end NexusDb
