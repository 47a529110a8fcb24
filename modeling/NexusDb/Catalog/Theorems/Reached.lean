import NexusDb.Catalog.Theorems.Acceptance
import NexusDb.Catalog.Theorems.Layout
import NexusDb.Record.Theorems.Reached

namespace NexusDb

open Layout (Realized)

namespace Catalog

section

variable [Device σ]

-- What a pool and a catalog object can become. Every call may fail in any way. In between, others may use the pool
-- and the file, and the tables may be used, but the pages of the catalog are not written to.
inductive Reached : BufferPool σ → Catalog → Prop
  | create {s : PageStorage} (hi : p.Inv) (hc : p.Coherent s.page?) (h : create.exec p = (some (.ok c), q)) :
      Reached q c
  | open (hr : Reached p c) (h : (Catalog.open c.root).exec p = (some (.ok c'), q)) : Reached q c'
  | openFails (hr : Reached p c) (h : (Catalog.open c.root).exec p = (r, q)) : Reached q c
  | createTable (hr : Reached p c) (h : (c.createTable name).exec p = (some (r, c'), q)) : Reached q c'
  | others (hr : Reached p c) (hi : q.Inv)
      (h : ∀ (s : PageStorage) (L : Layout), p.Coherent s.page? → Realized s L → c = loaded L.catalog →
        ∃ (s' : PageStorage) (L' : Layout), q.Coherent s'.page? ∧ Realized s' L' ∧ L'.catalog = L.catalog) :
      Reached q c

-- The object agrees with the pages seen through the pool.
structure Attached (p : BufferPool σ) (c : Catalog) (s : PageStorage) (L : Layout) : Prop where
  inv      : p.Inv
  coherent : p.Coherent s.page?
  tracks   : c = loaded L.catalog
  realized : Realized s L

variable {p q : BufferPool σ} {c c' : Catalog} {s : PageStorage} {L : Layout}

namespace Attached

theorem create (hi : p.Inv) (hc : p.Coherent s.page?) (he : create.exec p = (some (.ok c), q)) :
    ∃ s' L, Attached q c s' L := by
  have ⟨hk, a, s', hr, hc', hq⟩ := Prog.wp_any wp_create hi hc he
  cases hr
  rcases hq with ⟨rfl, hn, ht⟩ | ⟨_, _, ht⟩
  · cases ht
    exact ⟨_, _, hk.inv, hc', rfl, Layout.realized_initial (PageStorage.page?_push_self hn)⟩
  · cases ht

theorem opening (h : Attached p c s L) (he : (Catalog.open c.root).exec p = (r, q)) :
    Attached q c s L ∧ ∀ c', r = some (.ok c') → c' = c := by
  have hroot : c.root = L.catalog.root := by rw [h.tracks]; rfl
  rw [hroot] at he
  have ⟨hk, a, s', hr, hc, hs, hq⟩ := Prog.wp_any (wp_open h.realized (.inl trivial)) h.inv h.coherent he
  subst hs
  refine ⟨⟨hk.inv, hc, h.tracks, h.realized⟩, fun c' hc' => ?_⟩
  cases hr.symm.trans hc'
  rcases hq with hq | ⟨_, hq, _⟩
  · cases hq
    exact h.tracks.symm
  · cases hq

theorem createTable (h : Attached p c s L) (he : (c.createTable name).exec p = (some (r, c'), q)) :
    ∃ s' L', Attached q c' s' L' ∧ Creates .any s L name r s' L' := by
  rw [h.tracks] at he
  have hw : ((loaded L.catalog).createTable name).wp .any _ s := wp_createTable PageChain.grows_any h.realized
  have ⟨hk, _, s', hr, hc, L', hl, hq⟩ := Prog.wp_any hw h.inv h.coherent he
  cases hr
  exact ⟨s', L', ⟨hk.inv, hc, hl, hq.left.realized⟩, hq⟩

theorem samePages (h : Attached p c s L) (hs : BufferPool.SamePages p q) : Attached q c s L :=
  ⟨hs.left, hs.right s h.coherent, h.tracks, h.realized⟩

-- What the calls return when pages can be fetched.

theorem open_healthy (h : Attached p c s L) (hh : (Catalog.open c.root).Healthy p) (hl : s.pages.length ≤ pageLimit) :
    ((Catalog.open c.root).exec p).fst = some (.ok c) := by
  have hroot : c.root = L.catalog.root := by rw [h.tracks]; rfl
  rw [hroot] at hh ⊢
  have ⟨r, _, hr, _, _, hq⟩ := Prog.wp_healthy (wp_open (K := .reliable) h.realized (.inr hl)) h.inv h.coherent hh
    (.inr open_readOnly.inPlace)
  rcases hq with rfl | ⟨_, _, hf⟩
  · rw [hr, h.tracks]
  · cases hf

theorem createTable_healthy (h : Attached p c s L) (hv : isValidTableName name) (hn : ¬c.exists name)
    (hh : (c.createTable name).Healthy p)
    (hl : (Device.numPages ((c.createTable name).exec p).snd.dev).toNat ≤ pageLimit) :
    ∃ root c' q s' L', (c.createTable name).exec p = (some (.ok root, c'), q) ∧
      c'.entries = c.entries ++ [(name, root)] ∧ c'.root = c.root ∧ Attached q c' s' L' := by
  have ht := h.tracks
  subst ht
  have ⟨⟨r, c'⟩, s', hr, hc, L', htr, hleads, _, _, hq⟩ := Prog.wp_healthy
    (wp_createTable (K := .reliable) PageChain.grows_reliable h.realized) h.inv h.coherent hh (.inl hl)
  have hi := (Prog.exec_keeps h.inv ((loaded L.catalog).createTable name)).inv
  cases r
  case error e =>
    rcases hq.right with hrej | hf
    · cases hrej
      case invalid h => rw [h] at hv; cases hv
      case present h => exact absurd (exists_iff.mpr h) hn
    · cases hf
  case ok root =>
    have ⟨_, _, htables, _⟩ := hq
    cases htr
    exact ⟨root, _, _, s', L', Prod.ext hr rfl, htables, hleads.root, hi, hc, rfl, hleads.realized⟩

end Attached

theorem Reached.attached (h : Reached p c) : ∃ s L, Attached p c s L := by
  induction h
  case create hi hc h => exact Attached.create hi hc h
  case «open» h ih =>
    have ⟨s, L, ha⟩ := ih
    have ⟨ha, hc⟩ := ha.opening h
    cases hc _ rfl
    exact ⟨s, L, ha⟩
  case openFails h ih =>
    have ⟨s, L, ha⟩ := ih
    exact ⟨s, L, (ha.opening h).left⟩
  case createTable h ih =>
    have ⟨s, L, ha⟩ := ih
    have ⟨s', L', ha, _⟩ := ha.createTable h
    exact ⟨s', L', ha⟩
  case others hi h ih =>
    have ⟨s, L, ha⟩ := ih
    have ⟨s', L', hc, hr, he⟩ := h s L ha.coherent ha.realized ha.tracks
    exact ⟨s', L', hi, hc, he ▸ ha.tracks, hr⟩

-- What cannot be seen of the creation of a table that has failed, in files with not more than `limit` pages. When
-- pages can be fetched, opening the catalog gives the same as before, and the table can be created after all.
structure Atomic (limit : Nat) (name : Bytes) (p : BufferPool σ) (c : Catalog) (q : BufferPool σ) (c' : Catalog) :
    Prop where
  present : ∀ n, c'.exists n = c.exists n
  list    : c'.listTables = c.listTables
  find    : ∀ n, c'.findTable n = c.findTable n
  count   : c'.entries.length = c.entries.length
  reopen  : ∀ p₁ q₁, BufferPool.SamePages p p₁ → BufferPool.SamePages q q₁ →
    (Catalog.open c.root).Healthy p₁ → (Catalog.open c.root).Healthy q₁ → (Device.numPages q₁.dev).toNat ≤ limit →
      ∃ c₁ c₂, ((Catalog.open c.root).exec p₁).fst = some (.ok c₁) ∧ ((Catalog.open c.root).exec q₁).fst = some (.ok c₂) ∧
        c₂.root = c₁.root ∧ c₂.entries = c₁.entries
  retry   : isValidTableName name → ¬c.exists name → ∀ q₁, BufferPool.SamePages q q₁ →
    (c'.createTable name).Healthy q₁ → (Device.numPages ((c'.createTable name).exec q₁).snd.dev).toNat ≤ limit →
      ∃ root c'' q₂, (c'.createTable name).exec q₁ = (some (.ok root, c''), q₂) ∧
        c''.entries = c.entries ++ [(name, root)] ∧
        ∀ q₃, BufferPool.SamePages q₂ q₃ → (Catalog.open c.root).Healthy q₃ →
          ∃ c₃, ((Catalog.open c.root).exec q₃).fst = some (.ok c₃) ∧ c₃.entries = c''.entries

theorem failed_createTable_atomic (h : Reached p c) (he : (c.createTable name).exec p = (some (.error e, c'), q)) :
    Atomic pageLimit name p c q c' := by
  obtain ⟨s, L, ha⟩ := h.attached
  obtain ⟨s', L', ha', hleads, _, _, htables, _⟩ := ha.createTable he
  have hroot : c'.root = c.root := by
    rw [ha'.tracks, ha.tracks]
    exact hleads.root
  have hentries : c'.entries = c.entries := by
    rw [ha'.tracks, ha.tracks]
    exact htables
  constructor
  case present => exact fun n => by rw [Catalog.exists, Catalog.exists, hentries]
  case list => rw [listTables, listTables, hentries]
  case find => exact fun n => by rw [findTable, findTable, hentries]
  case count => rw [hentries]
  case reopen =>
    intro p₁ q₁ hp hq hh hh' hl
    have ha := ha.samePages hp
    have ha' := ha'.samePages hq
    rw [ha'.coherent.numPages, PageStorage.toNat_numPages] at hl
    refine ⟨c, c', ha.open_healthy hh (hleads.frame.length.trans hl), ?_, hroot, hentries⟩
    rw [← hroot] at hh' ⊢
    exact ha'.open_healthy hh' hl
  case retry =>
    intro hv hn q₁ hq hh hl
    have hn' : ¬c'.exists name := by rwa [Catalog.exists, hentries]
    obtain ⟨root, c'', q₂, s'', L'', hexec, hnew, hroot', ha''⟩ := (ha'.samePages hq).createTable_healthy hv hn' hh hl
    refine ⟨root, c'', q₂, hexec, hentries ▸ hnew, fun q₃ hq₃ hh₃ => ?_⟩
    rw [hexec, ha''.coherent.numPages, PageStorage.toNat_numPages] at hl
    rw [← hroot, ← hroot'] at hh₃ ⊢
    exact ⟨c'', (ha''.samePages hq₃).open_healthy hh₃ hl, rfl⟩

end

open HeapTable (newFile newFile_serves)

-- The page of a catalog without tables.
def emptyCatalog : PageStorage where
  pages := [chain.initPage]
  bound := by decide

theorem exec_create_newFile : ∃ q, create.exec newFile = (some (.ok (loaded { last := 0 })), q) ∧
    q.Coherent emptyCatalog.page? := by
  have ⟨r, s', hr, hc, hq⟩ := Prog.wp_exec (c := .any) trivial wp_create newFile_serves.inv newFile_serves.coherent
  have hok : (create.exec newFile).fst.any (·.isOk) := by decide +kernel
  rcases hq with ⟨rfl, _, rfl⟩ | ⟨_, e, rfl⟩
  · exact ⟨_, Prod.ext hr rfl, hc⟩
  · rw [hr] at hok
    cases hok

theorem reached_newFile (h : create.exec newFile = (some (.ok c), q)) : Reached q c :=
  .create newFile_serves.inv newFile_serves.coherent h

-- The pages behind the one of a catalog without tables may belong to others.
theorem reached_empty {p : BufferPool Disk} {s : PageStorage} (hi : p.Inv) (hc : p.Coherent s.page?)
    (h₀ : s.page? 0 = some chain.initPage) : Reached p (loaded { last := 0 }) := by
  have ⟨q, hcreate, hcq⟩ := exec_create_newFile
  refine .others (reached_newFile hcreate) hi fun s₁ L hc₁ hL _ => ⟨s, L, hc, hL.congr fun i hm => ?_, rfl⟩
  have hsome := hL.isSome hm
  rw [hcq.unique hc₁] at hsome ⊢
  have hi : i = 0 := by
    have hlt : i.toNat < 1 := UInt32.lt_iff_toNat_lt.mp (PageStorage.page?_isSome_iff.mp hsome)
    exact UInt32.toNat_inj.mp (Nat.lt_one_iff.mp hlt)
  rw [hi, h₀]
  rfl

-- The directory of the table is there when the page of the catalog cannot be read.
theorem failed_createTable_unlisted : ∃ (p q : BufferPool Disk) (e : Error) (c' : Catalog),
    BufferPool.create { storage := emptyCatalog, io := [.success, .success, .success, .success, .failure 0] } 1 = .ok p ∧
    ((loaded { last := 0 }).createTable [0x74]).exec p = (some (.error e, c'), q) ∧ Device.numPages q.dev = 2 ∧
    Atomic pageLimit [0x74] p (loaded { last := 0 }) q c' := by
  obtain ⟨p, hp⟩ : ∃ p : BufferPool Disk, BufferPool.create
    { storage := emptyCatalog, io := [.success, .success, .success, .success, .failure 0] } 1 = .ok p := ⟨_, rfl⟩
  have hs : p.Serves emptyCatalog := .create hp fun _ => rfl
  have hfails : (((loaded { last := 0 }).createTable [0x74]).exec p).fst.any (!·.fst.isOk) ∧
      Device.numPages (((loaded { last := 0 }).createTable [0x74]).exec p).snd.dev = 2 := by
    cases hp
    decide +kernel
  rcases he : ((loaded { last := 0 }).createTable [0x74]).exec p with ⟨_ | ⟨e | root, c'⟩, q⟩
  all_goals rw [he] at hfails
  · cases hfails.left
  · exact ⟨p, q, e, c', hp, he, hfails.right, failed_createTable_atomic (reached_empty hs.inv hs.coherent rfl) he⟩
  · cases hfails.left

-- The creation of a table begins with a page for its directory.
theorem createTable_eq {c : Catalog} (hv : isValidTableName name) (hn : ¬c.exists name) :
    ∃ k, c.createTable name = .newPage HeapTable.directory.initPage k ∧ ∀ e, k (.error e) = .ret (.error e, c) := by
  rw [createTable, hv, if_neg (by decide), if_neg hn]
  exact ⟨_, rfl, fun _ => rfl⟩

-- Without the limit this is not so. The call can take the last page id and then fail.
theorem failed_createTable_visible : ∃ (p q : BufferPool Disk) (c c' : Catalog) (name : Bytes) (e : Error),
    Reached p c ∧ (c.createTable name).exec p = (some (.error e, c'), q) ∧ ¬Atomic (2 ^ 32) name p c q c' := by
  have ⟨s, h₀, hn⟩ := PageStorage.exists_lastId chain.initPage
  have ⟨p, hp⟩ : ∃ p, BufferPool.create (Disk.lastId s) 1 = .ok p := ⟨_, rfl⟩
  have hs : p.Serves s := .create hp fun _ => rfl
  have hvalid : isValidTableName [0x74] := by decide
  have hnew : ¬(loaded { last := 0 }).exists [0x74] := by decide
  have ⟨k, hk, hke⟩ := createTable_eq hvalid hnew
  have ⟨e, dev, hexec, ht, hfull⟩ := Prog.exec_newPage_lastId (BufferPool.create_inv hp).right.right.left hn
    HeapTable.directory.initPage k
  refine ⟨p, { p with dev }, loaded { last := 0 }, loaded { last := 0 }, [0x74], e,
    reached_empty hs.inv hs.coherent h₀, by rw [hk, hexec, hke]; rfl, fun h => ?_⟩
  -- Then there is no page for the directory when the call is made again.
  have ⟨hh, q, hexec'⟩ := Prog.newPage_exhausted (p := { p with dev }) (k := k) ht hfull
    (fun _ => by rw [hke]; trivial) HeapTable.directory.initPage
  rw [← hk] at hh hexec'
  have ⟨_, _, _, hok, _⟩ := h.retry hvalid hnew { p with dev } ⟨(hs.inv.keeps_dev dev).inv, fun _ hc => hc⟩ hh
    (Nat.le_of_lt (UInt32.toNat_lt _))
  rw [hexec', hke] at hok
  cases hok

end Catalog
end NexusDb
