import NexusDb.Catalog.Catalog
import NexusDb.Record.Theorems.Acceptance
import NexusDb.Storage.Theorems.Disk

open Bytes

namespace NexusDb

open HeapTable (ValidDirectory decodeId)

namespace Catalog

variable {s : PageStorage}

-- The name and the table root of an entry. The name has to be terminated.
def decodeEntry (entry : Bytes) : Option (Bytes × PageId) :=
  (readNameField (entry.take nameFieldSize)).map fun name => (name, decodeId (entry.drop nameFieldSize))

-- The links from the root end, no page comes twice, every page has a valid header, every name is terminated,
-- valid and unique, and every entry leads to a table.
structure ValidCatalog (s : PageStorage) (root : PageId) (ps : List (PageId × List Bytes))
    (es : List (Bytes × PageId)) : Prop where
  path    : chain.Path s root ps
  ne      : ps ≠ []
  nodup   : (ps.map Prod.fst).Nodup
  entries : (ps.flatMap Prod.snd).map decodeEntry = es.map some
  valid   : ∀ e ∈ es, isValidTableName e.fst
  unique  : (es.map Prod.fst).Nodup
  tables  : ∀ e ∈ es, ∃ qs, ValidDirectory s e.snd qs

theorem checkEntry_eq_ok : checkEntry found entry = .ok found' ↔
    ∃ e, decodeEntry entry = some e ∧ isValidTableName e.fst ∧ e.fst ∉ found.map Prod.fst ∧ e.snd ≠ invalidId ∧
      found' = found ++ [e] := by
  rw [checkEntry, decodeEntry]
  cases readNameField (entry.take nameFieldSize)
  case none => simp
  case some name =>
    have hany : (found.any fun x => decide (x.fst = name)) = decide (name ∈ found.map Prod.fst) := by
      rw [Bool.eq_iff_iff]
      simp
    simp only [Option.map_some, hany]
    change (if !isValidTableName name then _ else if decide (name ∈ found.map Prod.fst) then _ else
      if decodeId (entry.drop nameFieldSize) = invalidId then _ else
      .ok (found ++ [(name, decodeId (entry.drop nameFieldSize))]) : Except Error _) = _ ↔ _
    generalize decodeId (entry.drop nameFieldSize) = root
    by_cases hv : isValidTableName name
    case neg => exact ⟨by simp [hv], fun ⟨_, he, hv', _⟩ => by cases he; exact absurd hv' hv⟩
    by_cases hn : name ∈ found.map Prod.fst
    case pos => exact ⟨by simp only [hv, hn]; nofun, fun ⟨_, he, _, hn', _⟩ => by cases he; exact absurd hn hn'⟩
    by_cases hr : root = invalidId
    case pos => exact ⟨by simp only [hv, hn, hr]; nofun, fun ⟨_, he, _, _, hr', _⟩ => by cases he; exact absurd hr hr'⟩
    simp only [hv, hn, hr, decide_false]
    exact ⟨fun h => by cases h; exact ⟨_, rfl, hv, hn, hr, rfl⟩, fun ⟨_, he, _, _, _, hf⟩ => by cases he; rw [hf]; rfl⟩

theorem foldlM_checkEntry_eq_ok (found : List (Bytes × PageId)) (raw : List Bytes) :
    raw.foldlM checkEntry found = .ok found' ↔
      ∃ es, raw.map decodeEntry = es.map some ∧ (∀ e ∈ es, isValidTableName e.fst ∧ e.snd ≠ invalidId) ∧
        (es.map Prod.fst).Nodup ∧ (∀ e ∈ es, e.fst ∉ found.map Prod.fst) ∧ found' = found ++ es := by
  induction raw generalizing found
  case nil =>
    rw [List.foldlM_nil, List.map_nil]
    constructor
    case mp =>
      intro h
      cases h
      exact ⟨[], rfl, nofun, List.nodup_nil, nofun, (List.append_nil _).symm⟩
    case mpr =>
      rintro ⟨es, he, _, _, _, rfl⟩
      have hes : es = [] := List.map_eq_nil_iff.mp he.symm
      rw [hes, List.append_nil]
      rfl
  case cons entry raw ih =>
    rw [List.foldlM_cons, List.map_cons]
    constructor
    case mp =>
      intro h
      cases hc : checkEntry found entry
      case error =>
        rw [hc] at h
        cases h
      case ok found₁ =>
        rw [hc] at h
        have ⟨e, he, hv, hn, hr, hf⟩ := checkEntry_eq_ok.mp hc
        have ⟨es, hes, hvs, hns, hds, hf'⟩ := (ih found₁).mp h
        subst hf
        refine ⟨e :: es, by rw [he, hes]; rfl, List.forall_mem_cons.mpr ⟨⟨hv, hr⟩, hvs⟩, ?_,
          List.forall_mem_cons.mpr ⟨hn, fun x hx hm => hds x hx (by simp [hm])⟩, by simpa using hf'⟩
        refine List.nodup_cons.mpr ⟨fun hm => ?_, hns⟩
        have ⟨x, hx, hxe⟩ := List.mem_map.mp hm
        exact hds x hx (by simp [hxe])
    case mpr =>
      rintro ⟨es, hes, hv, hn, hd, rfl⟩
      cases es
      case nil => cases hes
      case cons e es =>
        have ⟨he, hes⟩ := List.cons_eq_cons.mp hes
        have ⟨⟨hv₁, hr₁⟩, hv⟩ := List.forall_mem_cons.mp hv
        have ⟨hd₁, hd⟩ := List.forall_mem_cons.mp hd
        have ⟨hn₁, hn⟩ := List.nodup_cons.mp hn
        rw [checkEntry_eq_ok.mpr ⟨e, he, hv₁, hd₁, hr₁, rfl⟩]
        refine (ih (found ++ [e])).mpr ⟨es, hes, hv, hn, fun x hx hm => ?_, by simp⟩
        rw [List.map_append, List.mem_append] at hm
        cases hm
        case inl hm => exact hd x hx hm
        case inr hm => exact hn₁ (List.mem_map.mpr ⟨x, hx, by simpa using hm⟩)

theorem open_direct (hl : s.pages.length ≤ pageLimit) (root : PageId) :
    ∃ r, (HeapTable.open root).direct s = (some r, s) ∧
      ((∃ t, r = .ok t) ↔ ∃ ps, ValidDirectory s root ps) := by
  rw [HeapTable.open]
  split
  case isTrue h =>
    refine ⟨_, rfl, by rintro ⟨_, ⟨⟩⟩, ?_⟩
    rintro ⟨ps, hv⟩
    obtain ⟨d, hd⟩ := Option.isSome_iff_exists.mp (hv.path.isSome (hv.path.mem hv.ne))
    exact absurd h (PageStorage.ne_invalidId hd)
  case isFalse =>
    obtain ⟨r, hr, h⟩ := HeapTable.loadDirectory_direct hl root
    refine ⟨r, hr, ?_, ?_⟩
    · rintro ⟨t, ht⟩
      obtain ⟨ps, hv, _⟩ := (h t).mp ht
      exact ⟨ps, hv⟩
    · rintro ⟨ps, hv⟩
      exact ⟨_, (h _).mpr ⟨ps, hv, rfl⟩⟩

theorem checkTables_cons_direct (hopen : (HeapTable.open e.snd).direct s = (some r₁, s))
    (hrest : (checkTables es).direct s = (some r₂, s)) :
    (checkTables (e :: es)).direct s =
      if !s.pageExists e.snd then (some (.error <| badState "catalog: entry references a missing table page"), s)
      else match r₁ with
        | .error _ => (some (.error <| badState "catalog: entry does not reference a valid table"), s)
        | .ok _    => (some r₂, s) := by
  rw [checkTables]
  change (if !s.pageExists e.snd then _ else _ : Prog _).direct s = _
  split
  case isTrue => rfl
  case isFalse =>
    refine (Prog.direct_bind _ _ s).trans ?_
    rw [hopen]
    cases r₁
    case error => rfl
    case ok => exact hrest

theorem checkTables_direct (hl : s.pages.length ≤ pageLimit) (es : List (Bytes × PageId)) :
    ∃ r, (checkTables es).direct s = (some r, s) ∧
      (r = .ok () ↔ ∀ e ∈ es, ∃ ps, ValidDirectory s e.snd ps) := by
  induction es
  case nil => exact ⟨_, rfl, by simp, fun _ => rfl⟩
  case cons e es ih =>
    obtain ⟨r₁, hr₁, h₁⟩ := open_direct hl e.snd
    obtain ⟨r₂, hr₂, h₂⟩ := ih
    rw [checkTables_cons_direct hr₁ hr₂, List.forall_mem_cons]
    have hexists : (∃ ps, ValidDirectory s e.snd ps) → s.pageExists e.snd := by
      rintro ⟨ps, hv⟩
      exact PageStorage.pageExists_iff.mpr <| by simpa [PageStorage.page?] using hv.path.isSome (hv.path.mem hv.ne)
    cases hp : s.pageExists e.snd
    case false => exact ⟨_, rfl, by rintro ⟨⟩, fun h => by rw [hexists h.left] at hp; cases hp⟩
    case true =>
      cases r₁
      case error =>
        refine ⟨_, rfl, by rintro ⟨⟩, fun h => ?_⟩
        obtain ⟨_, ht⟩ := h₁.mpr h.left
        cases ht
      case ok t => exact ⟨r₂, rfl, fun h => ⟨h₁.mp ⟨t, rfl⟩, h₂.mp h⟩, fun h => h₂.mpr h.right⟩

-- The catalog object for the pages and entries.
def loadedFrom (root : PageId) (ps : List (PageId × List Bytes)) (es : List (Bytes × PageId)) : Catalog where
  root          := root
  lastPage      := (ps.getLastD (invalidId, [])).fst
  lastPageCount := (ps.getLastD (invalidId, [])).snd.length
  entries       := es

theorem load_direct (hl : s.pages.length ≤ pageLimit) (root : PageId) :
    ∃ r, (load root).direct s = (some r, s) ∧
      ∀ c, r = .ok c ↔ ∃ ps es, ValidCatalog s root ps es ∧ c = loadedFrom root ps es := by
  have hwalk : ∃ r, (chain.walk (fun found entry => return checkEntry found entry) [] root invalidId
      (PageChain.maxPages s.numPages)).direct s = (some r, s) ∧
      ∀ found last n, r = .ok (found, last, n) ↔ ∃ ps es, chain.Path s root (ps ++ [(last, es)]) ∧
        ((ps ++ [(last, es)]).flatMap Prod.snd).foldlM checkEntry [] = .ok found ∧ n = es.length :=
    PageChain.walk_direct (fun _ _ => rfl) hl [] root
  obtain ⟨r, hr, h⟩ := hwalk
  -- What the walk found is what a valid catalog has.
  have hfound : ∀ {ps es}, ValidCatalog s root ps es →
      r = .ok (es, (ps.getLastD (invalidId, [])).fst, (ps.getLastD (invalidId, [])).snd.length) := by
    intro ps es hv
    have ⟨ps', p, hps⟩ := List.eq_nil_or_concat ps |>.resolve_left hv.ne
    obtain ⟨last, as⟩ := p
    rw [List.concat_eq_append] at hps
    subst hps
    have hroot : ∀ e ∈ es, isValidTableName e.fst ∧ e.snd ≠ invalidId := by
      intro e he
      have ⟨qs, hq⟩ := hv.tables e he
      have ⟨d, hd⟩ := Option.isSome_iff_exists.mp (hq.path.isSome (hq.path.mem hq.ne))
      exact ⟨hv.valid e he, PageStorage.ne_invalidId hd⟩
    have hf := (foldlM_checkEntry_eq_ok [] _).mpr ⟨es, hv.entries, hroot, hv.unique, fun _ _ => nofun, rfl⟩
    rw [(h es last as.length).mpr ⟨ps', as, hv.path, hf, rfl⟩]
    simp
  cases r
  case error e =>
    refine ⟨.error e, ?_, fun c => ⟨nofun, fun ⟨ps, es, hv, _⟩ => by cases hfound hv⟩⟩
    change ((chain.walk _ [] root invalidId (PageChain.maxPages s.numPages)).bind _).direct s = _
    rw [Prog.direct_bind, hr]
    rfl
  case ok x =>
    obtain ⟨found, last, n⟩ := x
    have ⟨r', hr', h'⟩ := checkTables_direct hl found
    refine ⟨r'.map fun _ => ⟨root, last, n, found⟩, ?_, fun c => ?_⟩
    · change ((chain.walk _ [] root invalidId (PageChain.maxPages s.numPages)).bind _).direct s = _
      rw [Prog.direct_bind, hr]
      change ((checkTables found).bind _).direct s = _
      rw [Prog.direct_bind, hr']
      cases r' <;> rfl
    · constructor
      case mp =>
        intro hc
        cases r'
        case error => cases hc
        case ok =>
          cases hc
          have ⟨ps, as, hp, hf, hn⟩ := (h found last n).mp rfl
          have ⟨es, hes, hv, hu, _, hfe⟩ := (foldlM_checkEntry_eq_ok [] _).mp hf
          rw [List.nil_append] at hfe
          subst hfe hn
          refine ⟨ps ++ [(last, as)], found, ⟨hp, by simp, hp.nodup, hes, fun e he => (hv e he).left, hu, h'.mp rfl⟩, ?_⟩
          simp [loadedFrom]
      case mpr =>
        rintro ⟨ps, es, hv, rfl⟩
        cases hfound hv
        rw [h'.mpr hv.tables]
        rfl

-- Whatever the pages hold, loading a table or a catalog ends, and it accepts exactly the chains that are well
-- formed.
theorem loads_accept [Device σ] {p : BufferPool σ} (hi : p.Inv) (hc : p.Coherent s.page?)
    (hl : s.pages.length ≤ pageLimit) (root : PageId) :
    ((HeapTable.loadDirectory root).Healthy p →
      ∃ r, ((HeapTable.loadDirectory root).exec p).fst = some r ∧
        ∀ t, r = .ok t ↔ ∃ ps, ValidDirectory s root ps ∧ t = HeapTable.loadedFrom root ps) ∧
    ((load root).Healthy p →
      ∃ r, ((load root).exec p).fst = some r ∧
        ∀ c, r = .ok c ↔ ∃ ps es, ValidCatalog s root ps es ∧ c = loadedFrom root ps es) := by
  constructor
  case left =>
    intro h
    have ⟨r, hr, hv⟩ := HeapTable.loadDirectory_direct hl root
    have ⟨he, _⟩ := Prog.exec_healthy _ hi hc h
    exact ⟨r, he.trans (by rw [hr]), hv⟩
  case right =>
    intro h
    have ⟨r, hr, hv⟩ := load_direct hl root
    have ⟨he, _⟩ := Prog.exec_healthy _ hi hc h
    exact ⟨r, he.trans (by rw [hr]), hv⟩

-- A catalog with one table, whose directory is on the page behind the one of the catalog.
def oneTable : PageStorage where
  pages := [(chain.writeEntry chain.initPage 0 (encodeEntry [0x74] 1)).getD zeroPage, HeapTable.directory.initPage]
  bound := by decide

theorem loads_accept_oneTable : ∃ p : BufferPool Disk, BufferPool.create { storage := oneTable } 1 = .ok p ∧
    (load 0).Healthy p ∧ ∃ r, ((load 0).exec p).fst = some r ∧
      ∀ c, r = .ok c ↔ ∃ ps es, ValidCatalog oneTable 0 ps es ∧ c = loadedFrom 0 ps es := by
  have hcalls : (load 0).calls oneTable = 2 := by decide +kernel
  have ⟨p, hp⟩ : ∃ p : BufferPool Disk, BufferPool.create { storage := oneTable } 1 = .ok p := ⟨_, rfl⟩
  have hs : p.Serves oneTable := .create hp fun _ => rfl
  have h : (load 0).Healthy p := Prog.healthy_of_create _ hp (by rw [hcalls]; decide)
  exact ⟨p, hp, h, (loads_accept hs.inv hs.coherent (by decide) 0).right h⟩

-- Opening a catalog changes no page.

open Prog (ReadOnly)

theorem checkTables_readOnly (es : List (Bytes × PageId)) : (checkTables es).ReadOnly := by
  induction es
  case nil => trivial
  case cons e es hi =>
    refine ReadOnly.bind .pageExists fun b => ?_
    split
    case isTrue => trivial
    case isFalse =>
      refine ReadOnly.bind HeapTable.open_readOnly fun r => ?_
      split
      case h_1 => trivial
      case h_2 => exact hi

theorem load_readOnly : (load i).ReadOnly := by
  refine ReadOnly.bind .countPages fun r => ?_
  split
  case h_1 => trivial
  case h_2 =>
    refine ReadOnly.bind (PageChain.walk_readOnly _ fun _ _ => trivial) fun r => ?_
    split
    case h_1 => trivial
    case h_2 =>
      refine ReadOnly.bind (checkTables_readOnly _) fun s => ?_
      split <;> trivial

theorem open_readOnly : (Catalog.open i).ReadOnly := by
  rw [Catalog.open]
  split
  case isTrue => trivial
  case isFalse => exact load_readOnly

end Catalog
end NexusDb
