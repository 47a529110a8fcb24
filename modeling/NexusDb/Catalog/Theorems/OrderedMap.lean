import NexusDb.Catalog.Theorems.Calls
import NexusDb.Record.Theorems.Reached

namespace NexusDb

open BufferPool (maxStamp)
open Layout (Realized)

namespace Catalog

-- Tables are created one after the other, and the results are collected.
def createTables (c : Catalog) : List Bytes → Prog (List (Except Error PageId) × Catalog)
  | []            => return ([], c)
  | name :: names => do
    let (r, c) ← c.createTable name
    let (rs, c) ← createTables c names
    return (r :: rs, c)

-- The same with a new catalog.
def createAll (names : List Bytes) : Prog (Except Error (List (Except Error PageId) × Catalog)) := do
  match ← create with
  | .error e => return .error e
  | .ok c    => return .ok (← c.createTables names)

-- The names of the calls that succeeded, with the roots that they returned.
def created (names : List Bytes) (rs : List (Except Error PageId)) : List (Bytes × PageId) :=
  (names.zip rs).filterMap fun x => x.snd.toOption.map (x.fst, ·)

theorem created_ok {root : PageId} : created (name :: names) (.ok root :: rs) = (name, root) :: created names rs :=
  rfl

theorem created_error : created (name :: names) (.error e :: rs) = created names rs :=
  rfl

-- The results of the calls on a map that has the entries `es`, and the entries that it has then.
structure Answers (es : List (Bytes × PageId)) (names : List Bytes) (rs : List (Except Error PageId))
    (es' : List (Bytes × PageId)) : Prop where
  length   : rs.length = names.length
  succeeds : ∀ {k name r}, names[k]? = some name → rs[k]? = some r →
    (r.isOk ↔ isValidTableName name ∧ name ∉ (es ++ created (names.take k) (rs.take k)).map Prod.fst)
  entries  : es' = es ++ created names rs

namespace Answers

theorem nil : Answers es [] [] es :=
  ⟨rfl, nofun, (List.append_nil es).symm⟩

theorem ok {root : PageId} (hv : isValidTableName name) (hn : name ∉ es.map Prod.fst)
    (h : Answers (es ++ [(name, root)]) names rs es') : Answers es (name :: names) (.ok root :: rs) es' where
  length   := congrArg Nat.succ h.length
  succeeds := by
    intro k n r hname hr
    cases k
    case zero =>
      cases hname
      cases hr
      exact ⟨fun _ => ⟨hv, by simpa [created] using hn⟩, fun _ => rfl⟩
    case succ k =>
      rw [List.take_succ_cons, List.take_succ_cons, created_ok, List.append_cons]
      exact h.succeeds hname hr
  entries  := by rw [h.entries, created_ok, ← List.append_cons]

theorem error (hn : ¬(isValidTableName name ∧ name ∉ es.map Prod.fst)) (h : Answers es names rs es') :
    Answers es (name :: names) (.error e :: rs) es' where
  length   := congrArg Nat.succ h.length
  succeeds := by
    intro k n r hname hr
    cases k
    case zero =>
      cases hname
      cases hr
      exact ⟨nofun, fun h => absurd (by simpa [created] using h) hn⟩
    case succ k =>
      rw [List.take_succ_cons, List.take_succ_cons, created_error]
      exact h.succeeds hname hr
  entries  := by rw [h.entries, created_error]

end Answers

variable [Device σ] {p q : BufferPool σ} {s : PageStorage} {L : Layout}

-- Each table that was created has needed three fetches at most, and so the stamps last.
def Frugal (p : BufferPool σ) (L : Layout) : Prop :=
  p.fetches ≤ pageLimit + 3 * L.tables.length

omit [Device σ] in
theorem Frugal.lt (hf : Frugal p L) (hr : Realized s L) (hn : n ≤ pageLimit) : p.fetches + n < maxStamp := by
  have htables := hr.length_tables_le.trans_lt s.bound
  rw [Frugal] at hf
  simp only [maxStamp, pageLimit] at *
  omega

theorem exec_create (h : p.Serves s) (hf : p.fetches = 0) (ho : Device.ok (create.exec p).snd.dev)
    (hl : (Device.numPages (create.exec p).snd.dev).toNat ≤ pageLimit) :
    ∃ s' L q, create.exec p = (some (.ok (loaded L.catalog)), q) ∧ q.Serves s' ∧ Realized s' L ∧ L.tables = [] ∧
      Frugal q L := by
  rw [create, Prog.bind_eq] at ho hl ⊢
  have hl₁ := (Prog.exec_numPages_le_bind _ _ h.inv h.coherent).trans hl
  -- The page of the catalog is added, and then it is loaded.
  have hw : (Prog.addPage chain.initPage).wp .reliable
      (fun r s' => r = .ok s.numPages ∧ s' = s.push chain.initPage ∧ s.numPages ≠ invalidId) s :=
    Prog.wp_addPage (fun _ => False.elim) (fun _ _ _ => False.elim) fun hn _ => ⟨rfl, rfl, hn⟩
  obtain ⟨_, _, q₁, hexec, _, hs₁, ⟨hr, hpush, hn⟩, hf₁⟩ := Prog.wp_serves hw h (Prog.exec_ok_of_bind ho)
    (.inr (by rw [Prog.calls_addPage, hf]; decide)) (.inl hl₁)
  subst hr hpush
  rw [Prog.calls_addPage, hf] at hf₁
  rw [Prog.exec_bind, hexec] at ho hl ⊢
  have hinit : (s.push chain.initPage).page? s.numPages = some chain.initPage := PageStorage.page?_push_self hn
  have hrealized := Layout.realized_initial hinit
  have hlen := Prog.length_pages_le _ hs₁ hl
  have hcalls := (calls_load hrealized hlen).trans hlen
  obtain ⟨r, s', q, hexec', _, hs', ⟨hsame, hq⟩, hf'⟩ := Prog.wp_serves
    (wp_load (K := .reliable) hrealized (.inr hlen)) hs₁ ho (.inr (by rw [hf₁, Nat.zero_add]; exact hcalls.trans_lt (by decide))) (.inl hl)
  rcases hq with rfl | ⟨_, _, hf⟩
  case inr => cases hf
  refine ⟨s', Layout.initial s.numPages, q, hexec', hs', hsame ▸ hrealized, rfl, ?_⟩
  rw [Frugal, hf', hf₁, Nat.zero_add]
  exact hcalls

theorem exec_createTable (h : p.Serves s) (hr : Realized s L) (hf : Frugal p L)
    (ho : Device.ok (((loaded L.catalog).createTable name).exec p).snd.dev)
    (hl : (Device.numPages (((loaded L.catalog).createTable name).exec p).snd.dev).toNat ≤ pageLimit) :
    ∃ r s' L' q, ((loaded L.catalog).createTable name).exec p = (some (r, loaded L'.catalog), q) ∧
      q.Serves s' ∧ Creates .reliable s L name r s' L' ∧ Frugal q L' := by
  have hcalls := calls_createTable (loaded L.catalog) name s
  have hstamps := hf.lt hr (n := ((loaded L.catalog).createTable name).calls s) (hcalls.trans (by split <;> decide))
  have ⟨⟨r, _⟩, s', q, hexec, _, hs, ⟨L', hc, hcreates⟩, hn⟩ := Prog.wp_serves
    (wp_createTable (K := .reliable) PageChain.grows_reliable hr) h ho (.inr hstamps) (.inl hl)
  cases hc
  refine ⟨r, s', L', q, hexec, hs, hcreates, ?_⟩
  have ⟨_, _, _, hres⟩ := hcreates
  rw [Frugal] at hf ⊢
  cases r
  case ok root =>
    rw [hres.right.right.left, List.length_append, List.length_singleton]
    split at hcalls <;> omega
  case error e =>
    have hrej := (hres.right.resolve_right id).not_new
    rw [if_neg fun h => hrej ⟨h.left, fun hm => h.right (exists_iff.mpr hm)⟩] at hcalls
    rw [hres.left]
    omega

theorem exec_createTables (h : p.Serves s) (hr : Realized s L) (hf : Frugal p L)
    (ho : Device.ok (((loaded L.catalog).createTables names).exec p).snd.dev)
    (hl : (Device.numPages (((loaded L.catalog).createTables names).exec p).snd.dev).toNat ≤ pageLimit) :
    ∃ rs s' L' q, ((loaded L.catalog).createTables names).exec p = (some (rs, loaded L'.catalog), q) ∧
      q.Serves s' ∧ Realized s' L' ∧ Frugal q L' ∧ Answers L.tables names rs L'.tables := by
  induction names generalizing p s L
  case nil => exact ⟨[], s, L, p, rfl, h, hr, hf, .nil⟩
  case cons name names ih =>
    rw [createTables, Prog.bind_eq] at ho hl ⊢
    have hl₁ := (Prog.exec_numPages_le_bind _ _ h.inv h.coherent).trans hl
    have ⟨r, s₁, L₁, q₁, hexec, hs₁, ⟨hleads, _, _, hres⟩, hf₁⟩ := exec_createTable h hr hf (Prog.exec_ok_of_bind ho) hl₁
    rw [Prog.exec_bind, hexec] at ho hl ⊢
    simp only [Prog.bind_eq] at ho hl ⊢
    have hl₂ := (Prog.exec_numPages_le_bind _ _ hs₁.inv hs₁.coherent).trans hl
    have ⟨rs, s₂, L₂, q₂, hexec₂, hs₂, hr₂, hf₂, ha⟩ := ih hs₁ hleads.realized hf₁ (Prog.exec_ok_of_bind ho) hl₂
    rw [Prog.exec_bind, hexec₂]
    refine ⟨r :: rs, s₂, L₂, q₂, rfl, hs₂, hr₂, hf₂, ?_⟩
    cases r
    case ok root =>
      have ⟨hv, hn, htables, _⟩ := hres
      exact .ok hv hn (htables ▸ ha)
    case error e => exact .error (hres.right.resolve_right id).not_new (hres.left ▸ ha)

-- What the calls on a new catalog have returned, and what the catalog then answers. A call succeeds if and only if
-- the name is valid and not yet present.
structure OrderedMap (names : List Bytes) (rs : List (Except Error PageId)) (c : Catalog) : Prop where
  length   : rs.length = names.length
  succeeds : ∀ {k name r}, names[k]? = some name → rs[k]? = some r →
    (r.isOk ↔ isValidTableName name ∧ name ∉ (created (names.take k) (rs.take k)).map Prod.fst)
  list     : c.listTables = (created names rs).map Prod.fst
  find     : ∀ {name root}, (name, root) ∈ created names rs → c.findTable name = .ok root
  missing  : ∀ {name}, name ∉ (created names rs).map Prod.fst →
    c.findTable name = .error ⟨.notFound, "catalog: no such table"⟩
  roots    : ((created names rs).map Prod.snd).Nodup

theorem Answers.orderedMap (h : Answers [] names rs L.tables) (hr : Realized s L) :
    OrderedMap names rs (loaded L.catalog) := by
  have he : created names rs = L.tables := h.entries.symm
  refine ⟨h.length, h.succeeds, ?_, ?_, ?_, ?_⟩
  · rw [he]
    rfl
  · intro name root hm
    rw [he] at hm
    rcases findTable_loaded L name with ⟨e, hmem, hn, hf⟩ | ⟨hn, _⟩
    · cases List.inj_on_of_nodup_map hr.unique hmem hm hn
      exact hf
    · exact absurd (List.mem_map.mpr ⟨_, hm, rfl⟩) hn
  · intro name hn
    rw [he] at hn
    rcases findTable_loaded L name with ⟨e, hm, rfl, _⟩ | ⟨_, hf⟩
    · exact absurd (List.mem_map.mpr ⟨e, hm, rfl⟩) hn
    · exact hf
  · rw [he]
    exact hr.roots_nodup

-- Opening the catalog again.
theorem exec_open (h : p.Serves s) (hr : Realized s L) (hl : s.pages.length ≤ pageLimit)
    (hf : p.fetches + s.pages.length < maxStamp) (ho : Device.ok ((Catalog.open L.catalog.root).exec p).snd.dev) :
    ((Catalog.open L.catalog.root).exec p).fst = some (.ok (loaded L.catalog)) := by
  have hcalls := Nat.add_le_add_left (calls_open hr hl) p.fetches
  have ⟨r, _, _, hexec, _, _, ⟨_, hq⟩, _⟩ := Prog.wp_serves (wp_open (K := .reliable) hr (.inr hl)) h ho
    (.inr (hcalls.trans_lt hf)) (.inr open_readOnly.inPlace)
  rcases hq with rfl | ⟨_, _, hf⟩
  · rw [hexec]
  · cases hf

theorem createAll_orderedMap {dev : σ} (hp : BufferPool.create dev n = .ok p) (hs : ∀ i, Device.page? dev i = s.page? i)
    (ho : Device.ok ((createAll names).exec p).snd.dev)
    (hl : (Device.numPages ((createAll names).exec p).snd.dev).toNat ≤ pageLimit) :
    ∃ rs c q, (createAll names).exec p = (some (.ok (rs, c)), q) ∧ OrderedMap names rs c ∧
      (Device.ok ((Catalog.open c.root).exec q).snd.dev → ((Catalog.open c.root).exec q).fst = some (.ok c)) ∧
      (Device.ok q.flushAll.snd.dev → q.flushAll.fst = .ok () ∧
        ∀ {dev' : σ} {m p'}, (∀ i, Device.page? dev' i = Device.page? q.flushAll.snd.dev i) →
          BufferPool.create dev' m = .ok p' → Device.ok ((Catalog.open c.root).exec p').snd.dev →
            ((Catalog.open c.root).exec p').fst = some (.ok c)) := by
  have hserves : p.Serves s := .create hp hs
  rw [createAll, Prog.bind_eq] at ho hl ⊢
  have hl₁ := (Prog.exec_numPages_le_bind _ _ hserves.inv hserves.coherent).trans hl
  have ⟨s₁, L₁, q₁, hexec₁, hs₁, hr₁, hempty, hf₁⟩ := exec_create hserves (BufferPool.Clock.create hp).right
    (Prog.exec_ok_of_bind ho) hl₁
  rw [Prog.exec_bind, hexec₁] at ho hl ⊢
  simp only [Prog.bind_eq] at ho hl ⊢
  have hl₂ := (Prog.exec_numPages_le_bind _ _ hs₁.inv hs₁.coherent).trans hl
  have ⟨rs, s₂, L, q, hexec₂, hs₂, hr₂, hf₂, ha⟩ := exec_createTables hs₁ hr₁ hf₁ (Prog.exec_ok_of_bind ho) hl₂
  rw [Prog.exec_bind, hexec₂] at hl ⊢
  have hlen : s₂.pages.length ≤ pageLimit := by
    rwa [← PageStorage.toNat_numPages, ← hs₂.coherent.numPages]
  refine ⟨rs, _, q, rfl, (hempty ▸ ha).orderedMap hr₂, exec_open hs₂ hr₂ hlen (hf₂.lt hr₂ hlen), fun hflush => ?_⟩
  have ⟨hok, hpages⟩ := hs₂.flushAll hflush
  refine ⟨hok, fun hdev hp' ho' => ?_⟩
  have hs' := BufferPool.Serves.create hp' fun i => (hdev i).trans (hpages i)
  refine exec_open hs' hr₂ hlen ?_ ho'
  rw [(BufferPool.Clock.create hp').right, Nat.zero_add]
  exact hlen.trans_lt (by decide)

open HeapTable (newFile)

theorem createAll_orderedMap_newFile : ∃ rs c q, (createAll [[0x74], [], [0x74]]).exec newFile = (some (.ok (rs, c)), q) ∧
    OrderedMap [[0x74], [], [0x74]] rs c := by
  have ho : Disk.Plain ((createAll [[0x74], [], [0x74]]).exec newFile).snd.dev :=
    Prog.exec_stable Disk.stable_plain _ (.new .empty)
  have ⟨rs, c, q, h, hm, _⟩ := createAll_orderedMap (show BufferPool.create newFile.dev 1 = .ok newFile from rfl)
    (s := .empty) (fun _ => rfl) ho.ok (by decide +kernel)
  exact ⟨rs, c, q, h, hm⟩

end Catalog
end NexusDb
