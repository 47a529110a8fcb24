import NexusDb.Database.Theorems.Opening
import NexusDb.Query.Theorems.Performs

open ByteBlock

namespace NexusDb

namespace Wal

theorem open_nil : Wal.open [] = .ok { file := [] } := by
  have hs : scan [] 0 = .ok (0, false) := by
    rw [scan]
    rfl
  rw [Wal.open, hs]
  rfl

theorem recover_nil (s : PageStorage) : (recover { file := [] } s) = ⟨.ok ⟨0, 0, false⟩, s, []⟩ := by
  rw [recover, recoverFrom]
  rfl

end Wal

namespace Database

-- A database without tables: the header, and the first page of the catalog.
def image : PageStorage where
  pages := [header 1, Catalog.chain.initPage]
  bound := by decide

-- What creating a catalog leaves in the storage.
theorem create_storage {p p' : BufferPool Disk} (hp : BufferPool.create d n = .ok p)
    (h : QueryExecutor.create.exec p = (some (.ok q), p')) :
    p'.dev.storage = d.storage.push Catalog.chain.initPage ∧ d.storage.numPages ≠ invalidId ∧
      q = .loaded (.initial d.storage.numPages) := by
  have ⟨r, s, hr, hco, hq⟩ := Prog.wp_exec (c := .any) trivial QueryExecutor.wp_create
    (BufferPool.create_inv hp).left (Client.create_coherent hp).pool
  have ⟨hclean, _⟩ := QueryExecutor.create_noEdit.exec (fun _ => True) (fun _ _ _ _ => trivial)
    (fun _ _ _ _ _ => ⟨trivial, fun _ _ _ _ _ _ => trivial⟩) (BufferPool.create_clean hp) trivial
  have hs := PageStorage.page?_ext (hco.of_clean hclean)
  rw [h] at hr hs
  cases hr
  rcases hq with ⟨hpush, hn, hq⟩ | ⟨_, _, hq⟩
  · injection hq with hq
    exact ⟨hs.trans hpush, hn, hq⟩
  · cases hq

theorem buildImage_ok (h : buildImage n io = some (.ok disk)) : disk.storage = image := by
  rw [buildImage] at h
  split at h
  case h_1 => cases h
  case h_2 d ha =>
    rcases Disk.allocatePage_cases ha with ⟨hr, _⟩ | ⟨_, _, _, _, hr, _⟩ | ⟨s, _, _, _, hpages, hd⟩
    · cases hr
    · cases hr
    split at h
    case h_1 => cases h
    case h_2 pool hpool =>
      split at h
      case h_1 => cases h
      case h_2 => cases h
      case h_3 q pool' he =>
        have ⟨hs, hn, hq⟩ := create_storage hpool he
        split at h
        case h_1 => cases h
        case h_2 d₁ hw =>
          obtain rfl : d₁ = disk := by
            rcases hc : d₁.close with _ | ⟨⟩ <;> rw [hc] at h <;> cases h
            rfl
          rcases Disk.writePage_cases hw with ⟨_, _, hr, _⟩ | ⟨_, _, hr, _⟩ | ⟨io, _, _, hlt, hio, hd'⟩
          · cases hr
          · cases hr
          cases hio.mp rfl
          have hs₁ : d.storage.pages = [zeroPage] := by rw [hd]; exact hpages
          have hroot : d.storage.numPages = 1 := by rw [PageStorage.numPages, hs₁]; rfl
          rw [hd', Disk.emit, PageStorage.overwrite_success, hs, hq, hroot]
          ext1
          change List.set (d.storage.push Catalog.chain.initPage).pages 0 (header 1) = image.pages
          rw [PageStorage.pages_push hn, hs₁]
          rfl

theorem magic_header {r : PageId} : (header r).slice offMagic 4 = magic := by
  rw [header, writeNat, slice_write_of_disjoint (.inl (by simp)), writeNat, slice_write_of_disjoint (.inl (by simp))]
  have hfits : offMagic + magic.length ≤ pageSize := by decide
  exact slice_write_self hfits rfl

theorem readHeader_header (h : s.page? 0 = some (header r)) (hr : r ≠ invalidId) : readHeader s = .ok r := by
  have hread : s.readPage 0 = .ok { id := 0, dirty := false, data := header r } := by
    have hlt : 0 < s.numPages := PageStorage.page?_isSome_iff.mp (by rw [h]; rfl)
    rw [PageStorage.readPage, if_neg (UInt32.not_le.mpr hlt), h, Option.getD_some]
  have hversion : (header r).natAt offVersion 2 = headerVersion := by
    rw [header, natAt_writeNat_of_disjoint (.inl (by simp))]
    exact natAt_writeNat_self (by decide) (by decide)
  have hroot : (header r).natAt offCatalogRoot 4 = r.toNat :=
    natAt_writeNat_self (by decide) r.toNat_lt
  simp only [readHeader, hread, magic_header, hversion, hroot, UInt32.ofNat_toNat, if_neg hr, ne_eq, not_true_eq_false,
    if_false]

-- A database with everything where the layout says.
structure Laid (s : PageStorage) (L : Layout) : Prop where
  header   : s.page? 0 = some (header L.catalog.root)
  realized : Layout.Realized s L
  apart    : 0 ∉ L.owned

theorem Laid.isSome_header (h : Laid s L) : (s.page? 0).isSome := by
  rw [h.header]
  rfl

theorem Laid.leads (h : Laid s L) (hl : Layout.Leads s L s' L') : Laid s' L' := by
  have hsome := h.isSome_header
  refine ⟨?_, hl.realized, fun hm => ?_⟩
  · rw [hl.frame.same 0 hsome h.apart, h.header, hl.root]
  · cases hl.fresh 0 hm
    case inl hm => exact h.apart hm
    case inr hn => rw [hn] at hsome; cases hsome

-- The other pages do not matter for the header.
theorem Laid.readHeader_of (h : Laid s L) (ht : t.page? 0 = s.page? 0) : readHeader t = .ok L.catalog.root := by
  refine readHeader_header (ht.trans h.header) fun he => ?_
  have hsome := h.realized.isSome (Layout.mem_owned_catalog Chain.root_mem)
  have ⟨_, hd⟩ := Option.isSome_iff_exists.mp hsome
  exact PageStorage.ne_invalidId hd he

theorem Laid.readHeader (h : Laid s L) : readHeader s = .ok L.catalog.root :=
  h.readHeader_of rfl

theorem image_laid : Laid image (.initial 1) :=
  ⟨rfl, Layout.realized_initial rfl, by decide⟩

theorem Opened.recover_nil {p : BufferPool Disk} (ho : Opened s log n io db w w' p) (hlog : log.getD [] = []) :
    (w.recover s).storage = s := by
  have hw := ho.wal
  rw [hlog, Wal.open_nil] at hw
  cases hw
  rw [Wal.recover_nil]

-- A database that is opened.
theorem Opened.laid {p : BufferPool Disk} (ho : Opened s log n io db w w' p) (h : Laid (w.recover s).storage L)
    (hroot : L.catalog.root = db.catalogRoot) :
    db.executor = .loaded L ∧ db.pool.Inv ∧ (∀ i, db.pool.pins i = 0) ∧ db.pool.Coherent (w.recover s).storage.page? := by
  have ⟨hi, hpins, _⟩ := BufferPool.create_inv ho.create
  have hload := ho.load
  rw [← hroot] at hload
  have ⟨hk, r, t, hr, hco, hs, hq⟩ := Prog.wp_any (QueryExecutor.wp_open h.realized (.inl trivial)) hi
    (Client.create_coherent ho.create).pool hload
  cases hr
  rw [hs] at hco
  refine ⟨?_, hk.inv, fun i => (hk.pins i).trans (hpins i), hco⟩
  rcases hq with hq | ⟨_, hq, _⟩
  · exact Except.ok.inj hq
  · cases hq

-- Without failures, a new database is created and opened.

theorem exec_create {p : BufferPool Disk} (hp : BufferPool.create d n = .ok p) (hq : d.Quiet)
    (hs : d.storage.pages = [zeroPage]) :
    ∃ q p', QueryExecutor.create.exec p = (some (.ok q), p') ∧ p'.dev.Quiet := by
  have hstorage : d.storage = ⟨[zeroPage], by decide⟩ := PageStorage.ext hs
  have hdev : p.dev = d := (BufferPool.create_inv hp).right.right.left
  have ⟨_, hquiet⟩ := QueryExecutor.create_noEdit.exec Disk.Quiet (fun _ _ h hr => h.reads hr)
    (fun _ _ _ h ha => ⟨h.allocatePage ha, fun _ _ _ _ _ hw => (h.allocatePage ha).writePage hw⟩)
    (BufferPool.create_clean hp) (hdev ▸ hq)
  have hcalls : p.fetches + QueryExecutor.create.calls d.storage < BufferPool.maxStamp := by
    rw [(BufferPool.Clock.create hp).right, hstorage]
    decide +kernel
  have ⟨hexec, _⟩ := Prog.exec_direct QueryExecutor.create (.create hp fun _ => rfl) hquiet.ok (.inr hcalls)
  have hok : (QueryExecutor.create.direct d.storage).fst.any (·.isOk) := by
    rw [hstorage]
    decide +kernel
  rw [← hexec] at hok
  match he : QueryExecutor.create.exec p with
  | (none, _)            => rw [he] at hok; cases hok
  | (some (.error e), _) => rw [he] at hok; cases hok
  | (some (.ok q), p')   =>
    rw [he] at hquiet
    exact ⟨q, p', rfl, hquiet⟩

theorem buildImage_quiet (n : Nat) : ∃ disk, buildImage (n + 1) [] = some (.ok disk) ∧ disk.Quiet := by
  have hq : Disk.Quiet { storage := .empty, io := [] } := ⟨⟨rfl, rfl, rfl⟩, nofun⟩
  match ha : Disk.allocatePage { storage := .empty, io := [] } with
  | (.error e, d) => cases ha
  | (.ok page, d) =>
    have hq := hq.allocatePage ha
    have hs : d.storage.pages = [zeroPage] := by cases ha; rfl
    match hp : BufferPool.create d (n + 1) with
    | .error e => cases hp
    | .ok p =>
      have ⟨q, p', he, hq'⟩ := exec_create hp hq hs
      have ⟨hs', hn, _⟩ := create_storage hp he
      match hw : p'.dev.writePage .direct { id := 0, data := header q.catalog.root } with
      | (.error e, d') =>
        refine absurd ?_ (Device.write_fails (σ := Disk) hw (hq'.writePage hw).ok)
        change 0 < p'.dev.storage.numPages
        rw [hs', PageStorage.lt_numPages_iff, PageStorage.pages_push hn, hs]
        decide
      | (.ok (), d') =>
        refine ⟨d', ?_, hq'.writePage hw⟩
        simp only [buildImage, ha, hp, he, hw, (hq'.writePage hw).close]
        rfl

-- A database that was just opened, without failures. It has the pages of `m`.
structure Ready (db : Database) (m : PageStorage) (L : Layout) : Prop where
  pool     : db.pool.Serves m
  executor : db.executor = .loaded L
  laid     : Laid m L
  pages    : m.pages.length ≤ pageLimit
  clean    : db.pool.Clean
  quiet    : db.pool.dev.Quiet
  log      : db.pool.dev.wal = some { file := [] }
  fetches  : db.pool.fetches ≤ m.pages.length

-- `Open` succeeds on an existing database when it is one after the recovery.
theorem openFiles_laid (hw : Wal.open (log.getD []) = .ok w) (hroot : readHeader s = .ok L.catalog.root)
    (hr : (w.recover s).result = .ok st) (h : Laid (w.recover s).storage L)
    (hlen : (w.recover s).storage.pages.length ≤ pageLimit) (n : Nat) :
    ∃ db es, openFiles s log (n + 1) [] = (some (.ok db), es) ∧ Ready db (w.recover s).storage L := by
  have hreset : w.reset = (.ok (), { file := [] }) := by rw [Wal.reset, Wal.isOpen_open hw]; rfl
  let d : Disk := { storage := (w.recover s).storage, wal := some { file := [] }, io := [] }
  rcases hp : BufferPool.create d (n + 1) with e | p
  · cases hp
  · have hdev : p.dev = d := (BufferPool.create_inv hp).right.right.left
    have hread := QueryExecutor.open_readOnly (i := L.catalog.root)
    obtain ⟨hclean, hreads⟩ := hread.exec (BufferPool.create_clean hp)
    have hquiet : Disk.Quiet p.dev := hdev ▸ ⟨⟨rfl, rfl, rfl⟩, by rintro _ ⟨⟩⟩
    have hzero : p.fetches = 0 := (BufferPool.Clock.create hp).right
    have hcalls : (QueryExecutor.open L.catalog.root).calls d.storage ≤ d.storage.pages.length :=
      QueryExecutor.calls_open h.realized hlen
    have hstamps : p.fetches + (QueryExecutor.open L.catalog.root).calls d.storage < BufferPool.maxStamp := by
      rw [hzero, Nat.zero_add]
      exact (hcalls.trans hlen).trans_lt (by decide)
    obtain ⟨r, _, p', he, _, hs, ⟨hsame, hq⟩, hfetches⟩ := Prog.wp_serves (c := .reliable)
      (QueryExecutor.wp_open h.realized (.inr hlen)) (.create hp fun _ => rfl) (hquiet.reads hreads).ok (.inr hstamps)
      (.inr hread.inPlace)
    rcases hq with rfl | ⟨_, _, ht⟩
    case inr => cases ht
    rw [he] at hclean hreads
    rw [hzero, Nat.zero_add] at hfetches
    have hlog : p'.dev.wal = some { file := [] } := (Disk.reads hreads).right.left.trans (congrArg Disk.wal hdev)
    have hready : Ready ⟨p', .loaded L, L.catalog.root⟩ (w.recover s).storage L :=
      ⟨hsame ▸ hs, rfl, h, hlen, hclean, hquiet.reads hreads, hlog, hfetches.trans_le hcalls⟩
    suffices h : (openFiles s log (n + 1) []).fst = some (.ok ⟨p', .loaded L, L.catalog.root⟩) from
      ⟨_, _, Prod.ext h rfl, hready⟩
    simp only [openFiles, hw, hroot, hr, hreset]
    rw [hp]
    simp only [he]

-- In particular when there is nothing to recover.
theorem openFiles_ready (hlog : log.getD [] = []) (h : Laid s L) (hlen : s.pages.length ≤ pageLimit) (n : Nat) :
    ∃ db es, openFiles s log (n + 1) [] = (some (.ok db), es) ∧ Ready db s L := by
  have hw : Wal.open (log.getD []) = .ok { file := [] } := by rw [hlog, Wal.open_nil]
  have hr := Wal.recover_nil s
  have hs : (Wal.recover { file := [] } s).storage = s := by rw [hr]
  have hopen := openFiles_laid (L := L) hw h.readHeader (by rw [hr]) (hs.symm ▸ h) (hs.symm ▸ hlen) n
  rwa [hs] at hopen

theorem open_of_openFiles (hf : ¬isFresh f) (hd : f.db = some s)
    (ho : openFiles s f.wal (n + 1) io = (some (.ok db), es)) :
    Database.open f (n + 1) io = (some (.ok db), .creating none :: es) := by
  rw [Database.open, if_neg n.succ_ne_zero, if_neg hf, hd, Option.getD_some, ho]

theorem open_fresh_ready (hf : isFresh f) (n : Nat) :
    ∃ db es, Database.open f (n + 1) [] = (some (.ok db), es) ∧ Ready db image (.initial 1) := by
  have ⟨disk, hb, hq⟩ := buildImage_quiet n
  have ⟨db, es, ho, hr⟩ := openFiles_ready (rfl : (none : Option Bytes).getD [] = []) image_laid (by decide) n
  suffices h : (Database.open f (n + 1) []).fst = some (.ok db) from ⟨db, _, Prod.ext h rfl, hr⟩
  rw [Database.open, if_neg n.succ_ne_zero, if_pos hf, createFreshDatabaseAtomically, hb]
  simp only [buildImage_ok hb, hq.io, ho]

-- A file with a header page is not one of a new database.
theorem not_isFresh (hf : f.db = some s) (hs : (s.page? 0).isSome) : ¬isFresh f := by
  rw [isFresh, hf]
  intro hn
  rw [Option.all_some, List.isEmpty_iff] at hn
  rw [PageStorage.page?, hn] at hs
  cases hs

end Database
end NexusDb
