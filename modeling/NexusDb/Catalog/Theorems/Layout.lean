import NexusDb.Catalog.Theorems.Catalog
import Mathlib.Data.List.Pairwise

namespace NexusDb

open PageStorage (Extends)
open PageChain (Visits walked Appended)

-- Where everything is: the pages of the catalog with its entries, and the directory of each table.
structure Layout where
  catalog : Chain (Bytes × PageId)
  dir     : PageId → Chain PageId

namespace Layout

def tables (L : Layout) : List (Bytes × PageId) :=
  L.catalog.all

-- The pages of one table, and all pages.

def tablePages (L : Layout) (e : Bytes × PageId) : List PageId :=
  HeapTable.owned (L.dir e.snd)

def owned (L : Layout) : List PageId :=
  L.catalog.ids ++ L.tables.flatMap L.tablePages

-- The catalog and its tables are there, and all their pages are different.
structure Realized (s : PageStorage) (L : Layout) : Prop where
  chain  : Catalog.chain.Stores Catalog.encode s L.catalog
  names  : ∀ e ∈ L.tables, Catalog.isValidTableName e.fst
  unique : (L.tables.map Prod.fst).Nodup
  root   : ∀ e ∈ L.tables, (L.dir e.snd).root = e.snd
  stored : ∀ e ∈ L.tables, HeapTable.Stored s (L.dir e.snd)
  nodup  : L.owned.Nodup

variable {s s' : PageStorage} {L L' : Layout} {K : Contract} {e e' : Bytes × PageId}

theorem mem_owned_catalog (h : i ∈ L.catalog.ids) : i ∈ L.owned :=
  List.mem_append_left _ h

theorem mem_owned_table (he : e ∈ L.tables) (hi : i ∈ L.tablePages e) : i ∈ L.owned :=
  List.mem_append_right _ (List.mem_flatMap.mpr ⟨e, he, hi⟩)

theorem owned_nodup_iff (hu : (L.tables.map Prod.fst).Nodup) :
    L.owned.Nodup ↔ L.catalog.ids.Nodup ∧ (∀ e ∈ L.tables, (L.tablePages e).Nodup) ∧
      (∀ e ∈ L.tables, ∀ e' ∈ L.tables, e ≠ e' → List.Disjoint (L.tablePages e) (L.tablePages e')) ∧
      ∀ e ∈ L.tables, List.Disjoint L.catalog.ids (L.tablePages e) := by
  have hn : L.tables.Nodup := .of_map _ hu
  have hd : List.Disjoint L.catalog.ids (L.tables.flatMap L.tablePages) ↔
      ∀ e ∈ L.tables, List.Disjoint L.catalog.ids (L.tablePages e) := by
    simp only [List.Disjoint, List.mem_flatMap]
    exact ⟨fun h e he i hi hm => h hi ⟨e, he, hm⟩, fun h i hi ⟨e, he, hm⟩ => h e he hi hm⟩
  rw [owned, List.nodup_append', List.nodup_flatMap, hd, and_assoc]
  refine and_congr_right fun _ => and_congr_right fun _ => and_congr_left fun _ => ⟨fun h => ?_, fun h => ?_⟩
  · have : Std.Symm (Function.onFun List.Disjoint L.tablePages) := ⟨fun _ _ h _ hi hj => h hj hi⟩
    exact fun e he e' he' hne => h.forall he he' hne
  · exact hn.imp_of_mem fun he he' hne => h _ he _ he' hne

namespace Realized

theorem stored_isSome (h : Realized s L) (he : e ∈ L.tables) (hi : i ∈ L.tablePages e) : (s.page? i).isSome :=
  (h.stored e he).isSome hi

theorem isSome (h : Realized s L) (hi : i ∈ L.owned) : (s.page? i).isSome := by
  cases List.mem_append.mp hi
  case inl hi => exact h.chain.isSome hi
  case inr hi =>
    have ⟨e, he, hi⟩ := List.mem_flatMap.mp hi
    exact h.stored_isSome he hi

theorem root_mem (h : Realized s L) (he : e ∈ L.tables) : e.snd ∈ L.tablePages e := by
  have hm : (L.dir e.snd).root ∈ L.tablePages e := List.mem_append_left _ Chain.root_mem
  rwa [h.root e he] at hm

theorem disjoint (h : Realized s L) (he : e ∈ L.tables) (he' : e' ∈ L.tables) (hne : e ≠ e') :
    List.Disjoint (L.tablePages e) (L.tablePages e') :=
  ((owned_nodup_iff h.unique).mp h.nodup).right.right.left e he e' he' hne

theorem catalog_disjoint (h : Realized s L) (he : e ∈ L.tables) : List.Disjoint L.catalog.ids (L.tablePages e) :=
  ((owned_nodup_iff h.unique).mp h.nodup).right.right.right e he

theorem congr (h : Realized s L) (hs : ∀ i ∈ L.owned, s'.page? i = s.page? i) : Realized s' L where
  chain       := h.chain.congr fun i hi => hs i (mem_owned_catalog hi)
  names       := h.names
  unique      := h.unique
  root        := h.root
  stored e he := (h.stored e he).congr fun i hi => hs i (mem_owned_table he hi)
  nodup       := h.nodup

-- No two tables share their root.
theorem eq_of_root (h : Realized s L) (he : e ∈ L.tables) (he' : e' ∈ L.tables) (hr : e.snd = e'.snd) : e = e' := by
  by_contra hne
  refine h.disjoint he he' hne (h.root_mem he) ?_
  rw [hr]
  exact h.root_mem he'

theorem roots_nodup (h : Realized s L) : (L.tables.map Prod.snd).Nodup :=
  (List.Nodup.of_map _ h.unique).map_on fun _ he _ he' => h.eq_of_root he he'

theorem length_tables_le (h : Realized s L) : L.tables.length ≤ s.pages.length := by
  rw [← L.tables.length_map Prod.snd]
  refine PageStorage.length_le h.roots_nodup fun i hi => ?_
  have ⟨e, he, hi⟩ := List.mem_map.mp hi
  exact hi ▸ h.stored_isSome he (h.root_mem he)

end Realized

-- A catalog without tables.
def initial (r : PageId) : Layout where
  catalog := { last := r }
  dir i   := { last := i }

theorem realized_initial (h : s.page? r = some Catalog.chain.initPage) : Realized s (initial r) where
  chain      := .init Catalog.chain_lawful h
  names      := nofun
  unique     := .nil
  root       := nofun
  stored     := nofun
  nodup      := by simp [owned, initial, tables, Chain.ids_eq, Chain.all_eq]

-- What a call leads to. It changes no pages of others, and its new pages were not there before.
structure Leads (s : PageStorage) (L : Layout) (s' : PageStorage) (L' : Layout) : Prop where
  realized : Realized s' L'
  root     : L'.catalog.root = L.catalog.root
  fresh    : ∀ i ∈ L'.owned, i ∈ L.owned ∨ s.page? i = none
  frame    : Extends (· ∈ L.owned) s s'

theorem Leads.refl (h : Realized s L) : Leads s L s L :=
  ⟨h, rfl, fun _ => .inl, .refl⟩

-- Pages were added that belong to nobody.
theorem Leads.extends_ (h : Realized s L) (hx : Extends (fun _ => False) s s') : Leads s L s' L := by
  refine ⟨h.congr fun i hi => hx.same i (h.isSome hi) id, rfl, fun _ => .inl, hx.mono fun _ => False.elim⟩

-- The layout with another directory of one table.
def setDir (L : Layout) (r : PageId) (C : Chain PageId) : Layout :=
  { L with dir := Function.update L.dir r C }

-- What a call on one table leads to.
theorem Leads.table (h : Realized s L) (he : e ∈ L.tables) (hl : HeapTable.Leads s (L.dir e.snd) s' C) :
    Leads s L s' (L.setDir e.snd C) := by
  have hdir : ∀ e' ∈ L.tables, e' ≠ e → (L.setDir e.snd C).dir e'.snd = L.dir e'.snd := fun e' he' hne =>
    Function.update_of_ne (fun hr => hne (h.eq_of_root he' he hr)) _ _
  have hself : (L.setDir e.snd C).dir e.snd = C := Function.update_self ..
  have hpages : ∀ e' ∈ L.tables, e' ≠ e → (L.setDir e.snd C).tablePages e' = L.tablePages e' := fun e' he' hne =>
    congrArg HeapTable.owned (hdir e' he' hne)
  have hpage : (L.setDir e.snd C).tablePages e = HeapTable.owned C := congrArg HeapTable.owned hself
  -- Pages that the table does not own cannot have become its own.
  have hother : ∀ {i}, (s.page? i).isSome → i ∉ L.tablePages e → i ∉ HeapTable.owned C := by
    intro i hi hn hm
    cases hl.grown.fresh i hm
    case inl hm => exact hn hm
    case inr hm => rw [hm] at hi; cases hi
  have hnodup : (L.setDir e.snd C).owned.Nodup := by
    have ⟨h₁, h₂, h₃, h₄⟩ := (owned_nodup_iff h.unique).mp h.nodup
    refine (owned_nodup_iff (L := L.setDir e.snd C) h.unique).mpr
      ⟨h₁, fun e' he' => ?_, fun e₁ he₁ e₂ he₂ hne => ?_, fun e' he' => ?_⟩
    · by_cases hee : e' = e
      case pos => rw [hee, hpage]; exact hl.stored.nodup
      case neg => rw [hpages e' he' hee]; exact h₂ e' he'
    · by_cases h₁e : e₁ = e
      case pos =>
        rw [h₁e, hpage, hpages e₂ he₂ fun h => hne (h₁e.trans h.symm)]
        exact fun i hi hi₂ => hother (h.stored_isSome he₂ hi₂) (fun hm => h₃ e₁ he₁ e₂ he₂ hne (h₁e ▸ hm) hi₂) hi
      case neg =>
        by_cases h₂e : e₂ = e
        case pos =>
          rw [h₂e, hpage, hpages e₁ he₁ h₁e]
          exact fun i hi₁ hi => hother (h.stored_isSome he₁ hi₁) (fun hm => h₃ e₁ he₁ e₂ he₂ hne hi₁ (h₂e ▸ hm)) hi
        case neg =>
          rw [hpages e₁ he₁ h₁e, hpages e₂ he₂ h₂e]
          exact h₃ e₁ he₁ e₂ he₂ hne
    · by_cases hee : e' = e
      case pos =>
        rw [hee, hpage]
        exact fun i hi hi' => hother (h.chain.isSome hi) (fun hm => h₄ e he hi hm) hi'
      case neg => rw [hpages e' he' hee]; exact h₄ e' he'
  refine ⟨⟨?_, h.names, h.unique, fun e' he' => ?_, fun e' he' => ?_, hnodup⟩, rfl, fun i hi => ?_, ?_⟩
  · exact h.chain.extends_ hl.frame fun i hi hm => h.catalog_disjoint he hi hm
  · by_cases hee : e' = e
    case pos => rw [hee, hself, hl.grown.root]; exact h.root e he
    case neg => rw [hdir e' he' hee]; exact h.root e' he'
  · by_cases hee : e' = e
    case pos => rw [hee, hself]; exact hl.stored
    case neg =>
      rw [hdir e' he' hee]
      exact (h.stored e' he').extends_ hl.frame fun i hi hm => h.disjoint he' he hee hi hm
  · cases List.mem_append.mp hi
    case inl hi => exact .inl (mem_owned_catalog hi)
    case inr hi =>
      have ⟨e', he', hi⟩ := List.mem_flatMap.mp hi
      by_cases hee : e' = e
      case pos =>
        rw [hee, hpage] at hi
        exact (hl.grown.fresh i hi).imp_left (mem_owned_table he)
      case neg =>
        rw [hpages e' he' hee] at hi
        exact .inl (mem_owned_table he' hi)
  · exact hl.frame.mono fun i hi => mem_owned_table he hi

-- The layout with another chain for the catalog, and a new table without records.
def addTable (L : Layout) (C : Chain (Bytes × PageId)) (r : PageId) : Layout where
  catalog := C
  dir     := Function.update L.dir r { last := r }

theorem addTable_dir : (L.addTable C r).dir r = { last := r } :=
  Function.update_self ..

theorem addTable_tablePages : (L.addTable C r).tablePages (name, r) = [r] := by
  rw [tablePages, addTable_dir]
  rfl

-- The pages and the entry that the creation of a table may add. The table may not have become an entry of the
-- catalog.
structure Adds (L : Layout) (C : Chain (Bytes × PageId)) (name : Bytes) (r new : PageId) : Prop where
  ids    : ∀ i ∈ C.ids, i ∈ L.catalog.ids ∨ i = new
  tables : C.all = L.tables ∨ C.all = L.tables ++ [(name, r)]
  fresh  : ∀ i ∈ L.owned, i ≠ r ∧ i ≠ new
  ne     : r ≠ new

namespace Adds

variable {C : Chain (Bytes × PageId)}

theorem of_appended (h : Realized s L) (ha : Appended Catalog.chain.capacity L.catalog (name, r) new res C)
    (hr : s.page? r = none) (hnew : s.page? new = none) (hne : r ≠ new) : Adds L C name r new where
  ids i hi := by
    cases ha.ids
    case inl he => exact .inl (he ▸ hi)
    case inr he =>
      rw [he] at hi
      exact (List.mem_append.mp hi).imp_right List.mem_singleton.mp
  tables := by
    cases res
    case ok => exact .inr ha.all_ok
    case error => exact .inl ha.all_error
  fresh i hi := by
    have hnone : ∀ {j}, s.page? j = none → i ≠ j := by
      rintro j hj rfl
      have hsome := h.isSome hi
      rw [hj] at hsome
      cases hsome
    exact ⟨hnone hr, hnone hnew⟩
  ne := hne

theorem mem (h : Adds L C name r new) (he : e ∈ (L.addTable C r).tables) : e ∈ L.tables ∨ e = (name, r) := by
  cases h.tables
  case inl ht => exact .inl (ht ▸ he)
  case inr ht =>
    rw [show (L.addTable C r).tables = _ from ht] at he
    exact (List.mem_append.mp he).imp_right List.mem_singleton.mp

-- The other tables keep their directories and their pages.

theorem dir (h : Adds L C name r new) (hr : Realized s L) (he : e ∈ L.tables) : (L.addTable C r).dir e.snd = L.dir e.snd :=
  Function.update_of_ne (h.fresh e.snd (mem_owned_table he (hr.root_mem he))).left _ _

theorem tablePages (h : Adds L C name r new) (hr : Realized s L) (he : e ∈ L.tables) :
    (L.addTable C r).tablePages e = L.tablePages e :=
  congrArg HeapTable.owned (h.dir hr he)

theorem unique (h : Adds L C name r new) (hr : Realized s L) (hn : name ∉ L.tables.map Prod.fst) :
    ((L.addTable C r).tables.map Prod.fst).Nodup := by
  cases h.tables
  case inl ht =>
    rw [show (L.addTable C r).tables = _ from ht]
    exact hr.unique
  case inr ht =>
    rw [show (L.addTable C r).tables = _ from ht, List.map_append, List.nodup_append]
    refine ⟨hr.unique, by simp, fun a ha b hb he => hn ?_⟩
    simp only [List.map_cons, List.map_nil, List.mem_singleton] at hb
    exact hb ▸ he ▸ ha

theorem mem_owned (h : Adds L C name r new) (hr : Realized s L) (hi : i ∈ (L.addTable C r).owned) :
    i ∈ L.owned ∨ i = r ∨ i = new := by
  cases List.mem_append.mp hi
  case inl hi => exact (h.ids i hi).imp mem_owned_catalog .inr
  case inr hi =>
    have ⟨e, he, hi⟩ := List.mem_flatMap.mp hi
    cases h.mem he
    case inl he => exact .inl (mem_owned_table he (h.tablePages hr he ▸ hi))
    case inr he =>
      rw [he, addTable_tablePages] at hi
      exact .inr <| .inl (List.mem_singleton.mp hi)

-- The new page is not one of another table.
theorem disjoint_new (h : Adds L C name r new) (hr : Realized s L) (he : e ∈ L.tables) :
    List.Disjoint ((L.addTable C r).tablePages e) [r] := by
  intro i hi hi'
  rw [h.tablePages hr he] at hi
  exact (h.fresh i (mem_owned_table he hi)).left (List.mem_singleton.mp hi')

theorem disjoint (h : Adds L C name r new) (hr : Realized s L) (he : e ∈ (L.addTable C r).tables)
    (he' : e' ∈ (L.addTable C r).tables) (hne : e ≠ e') :
    List.Disjoint ((L.addTable C r).tablePages e) ((L.addTable C r).tablePages e') := by
  cases h.mem he
  case inl he =>
    cases h.mem he'
    case inl he' =>
      rw [h.tablePages hr he, h.tablePages hr he']
      exact hr.disjoint he he' hne
    case inr he' =>
      rw [he', addTable_tablePages]
      exact h.disjoint_new hr he
  case inr he =>
    cases h.mem he'
    case inl he' =>
      rw [he, addTable_tablePages]
      exact fun i hi hi' => h.disjoint_new hr he' hi' hi
    case inr he' => exact absurd (he.trans he'.symm) hne

theorem catalog_disjoint (h : Adds L C name r new) (hr : Realized s L) (he : e ∈ (L.addTable C r).tables) :
    List.Disjoint C.ids ((L.addTable C r).tablePages e) := by
  intro i hi hi'
  cases h.mem he
  case inl he =>
    rw [h.tablePages hr he] at hi'
    cases h.ids i hi
    case inl hi => exact hr.catalog_disjoint he hi hi'
    case inr hi => exact (h.fresh i (mem_owned_table he hi')).right hi
  case inr he =>
    rw [he, addTable_tablePages] at hi'
    have hir := List.mem_singleton.mp hi'
    cases h.ids i hi
    case inl hi => exact (h.fresh i (mem_owned_catalog hi)).left hir
    case inr hi => exact h.ne (hir.symm.trans hi)

theorem nodup (h : Adds L C name r new) (hr : Realized s L) (hn : name ∉ L.tables.map Prod.fst) (hc : C.ids.Nodup) :
    (L.addTable C r).owned.Nodup := by
  refine (owned_nodup_iff (h.unique hr hn)).mpr
    ⟨hc, fun e he => ?_, fun e he e' he' => h.disjoint hr he he', fun e he => h.catalog_disjoint hr he⟩
  cases h.mem he
  case inl he =>
    rw [h.tablePages hr he]
    exact ((owned_nodup_iff hr.unique).mp hr.nodup).right.left e he
  case inr he =>
    rw [he, addTable_tablePages]
    exact List.nodup_singleton r

end Adds

-- What creating a table leads to, once there is a page for its directory.
theorem Leads.addTable (h : Realized s L) (hv : Catalog.isValidTableName name)
    (hn : name ∉ L.tables.map Prod.fst) (hx : Extends (fun _ => False) s s₁) (hr : s.page? r = none)
    (hinit : s₁.page? r = some HeapTable.directory.initPage)
    (ha : Appended Catalog.chain.capacity L.catalog (name, r) s₁.numPages res C)
    (hc : Catalog.chain.Stores Catalog.encode s' C) (hx' : Extends (· = L.catalog.last) s₁ s') :
    Leads s L s' (L.addTable C r) := by
  have hnone : s.page? s₁.numPages = none := hx.page?_eq_none PageStorage.page?_numPages
  have hadds : Adds L C name r s₁.numPages := by
    exact .of_appended h ha hr hnone (PageStorage.ne_numPages (Option.isSome_of_eq_some hinit))
  have hlast := mem_owned_catalog (L := L) Chain.last_mem
  have hframe : Extends (· = L.catalog.last) s s' := (hx.mono fun _ => False.elim).trans hx'
  have hstored : HeapTable.Stored s' { last := r } := by
    refine (HeapTable.stored_init hinit).extends_ hx' fun i hi => ?_
    rw [List.mem_singleton.mp (show i ∈ [r] from hi)]
    exact (hadds.fresh _ hlast).left.symm
  have hrealized : Realized s' (L.addTable C r) := by
    refine ⟨hc, fun e he => ?_, hadds.unique h hn, fun e he => ?_, fun e he => ?_, hadds.nodup h hn hc.nodup⟩
    · cases hadds.mem he
      case inl he => exact h.names e he
      case inr he => exact he ▸ hv
    · cases hadds.mem he
      case inl he => rw [hadds.dir h he]; exact h.root e he
      case inr he => rw [he, addTable_dir]; rfl
    · cases hadds.mem he
      case inl he =>
        rw [hadds.dir h he]
        refine (h.stored e he).extends_ hframe fun i hi hl => ?_
        exact h.catalog_disjoint he Chain.last_mem (hl ▸ hi)
      case inr he => rw [he, addTable_dir]; exact hstored
  refine ⟨hrealized, ha.root, fun i hi => (hadds.mem_owned h hi).imp_right ?_, hframe.mono fun i he => he ▸ hlast⟩
  rintro (rfl | rfl)
  · exact hr
  · exact hnone

end Layout

namespace Catalog

open Layout (Realized)

variable {s s' : PageStorage} {L : Layout} {K : Contract}

theorem wp_checkTables (h : ∀ e ∈ es, (L.dir e.snd).root = e.snd ∧ HeapTable.Stored s (L.dir e.snd))
    (hf : K.Fits s) :
    (checkTables es).wp K (fun r t => t = s ∧ (r = .ok () ∨ ∃ e, r = .error e ∧ K.tolerant)) s := by
  induction es
  case nil => exact ⟨rfl, .inl rfl⟩
  case cons e es ih =>
    have ⟨hroot, hs⟩ := h e List.mem_cons_self
    have hlt : e.snd < s.numPages := by
      rw [← PageStorage.page?_isSome_iff, ← hroot]
      exact hs.isSome (List.mem_append_left _ Chain.root_mem)
    rw [checkTables]
    refine Prog.wp_bind <| Prog.wp_pageExists (fun ht => ⟨rfl, .inr ⟨_, rfl, ht⟩⟩) ?_
    simp only [hlt, decide_true, Bool.not_true, Bool.false_eq_true, ↓reduceIte]
    have hopen := HeapTable.wp_open hs hf
    rw [hroot] at hopen
    refine Prog.wp_seq hopen ?_
    rintro r t ⟨rfl, rfl | ⟨e, rfl, ht⟩⟩
    · exact ih fun e' he => h e' (List.mem_cons_of_mem _ he)
    · exact ⟨rfl, .inr ⟨_, rfl, ht⟩⟩

-- The walk over the catalog finds all tables.
theorem wp_walk (h : Realized s L) (hf : K.Fits s) :
    (chain.walk (fun found entry => return checkEntry found entry) [] L.catalog.root invalidId
      (PageChain.maxPages s.numPages)).wp K (fun r t => t = s ∧
        (r = .ok (L.tables, L.catalog.last, L.catalog.entries.length) ∨ ∃ e, r = .error e ∧ K.tolerant)) s := by
  have hvalid : ∀ e ∈ L.tables, isValidTableName e.fst ∧ e.snd ≠ invalidId := fun e he =>
    ⟨h.names e he, (h.stored e he).ne_invalidId (h.root_mem he)⟩
  refine Prog.wp_mono (PageChain.wp_walk h.chain hf PageChain.visits_pure []) ?_
  rintro r t ⟨rfl, rfl | ht⟩
  · rw [walked, foldlM_checkEntry [] L.catalog.all hvalid h.unique]
    exact ⟨rfl, .inl rfl⟩
  · exact ⟨rfl, .inr ht⟩

theorem wp_load (h : Realized s L) (hf : K.Fits s) :
    (load L.catalog.root).wp K
      (fun r t => t = s ∧ (r = .ok (loaded L.catalog) ∨ ∃ e, r = .error e ∧ K.tolerant)) s := by
  rw [load]
  refine Prog.wp_bind <| Prog.wp_countPages (fun e ht => ⟨rfl, .inr ⟨e, rfl, ht⟩⟩) ?_
  refine Prog.wp_seq (wp_walk h hf) ?_
  rintro r t ⟨rfl, rfl | ⟨e, rfl, ht⟩⟩
  · refine Prog.wp_seq (wp_checkTables (L := L) (fun e he => ⟨h.root e he, h.stored e he⟩) hf) ?_
    rintro r t ⟨rfl, rfl | ⟨e, rfl, ht⟩⟩
    · exact ⟨rfl, .inl rfl⟩
    · exact ⟨rfl, .inr ⟨e, rfl, ht⟩⟩
  · exact ⟨rfl, .inr ⟨e, rfl, ht⟩⟩

theorem wp_open (h : Realized s L) (hf : K.Fits s) :
    (Catalog.open L.catalog.root).wp K
      (fun r t => t = s ∧ (r = .ok (loaded L.catalog) ∨ ∃ e, r = .error e ∧ K.tolerant)) s := by
  rw [Catalog.open, if_neg (h.chain.ne_invalidId Chain.root_mem)]
  exact wp_load h hf

theorem wp_create :
    create.wp K (fun r s' =>
      (s' = s.push chain.initPage ∧ s.numPages ≠ invalidId ∧ r = .ok (loaded (Layout.initial s.numPages).catalog)) ∨
      (K.tolerant ∧ ∃ e, r = .error e)) s := by
  rw [create]
  refine Prog.wp_bind <| Prog.wp_addPage (fun e ht => .inr ⟨ht, e, rfl⟩) (fun hn e d ht => .inr ⟨ht, e, rfl⟩)
    fun hn hf => ?_
  have hinit : (s.push chain.initPage).page? s.numPages = some chain.initPage := PageStorage.page?_push_self hn
  refine Prog.wp_mono (wp_load (Layout.realized_initial hinit) hf) ?_
  rintro r s' ⟨rfl, rfl | ⟨e, rfl, ht⟩⟩
  · exact .inl ⟨rfl, hn, rfl⟩
  · exact .inr ⟨ht, e, rfl⟩

theorem wp_appendEntry {root : PageId} (hg : chain.Grows K) (hc : chain.Stores encode s C) (hv : isValidTableName name) :
    ((loaded C).appendEntry name root).wp K (fun r s' => ∃ C', Appended chain.capacity C (name, root) s.numPages r.fst C' ∧
      (∀ e, r.fst = .error e → K.tolerant) ∧ r.snd = loaded C' ∧ chain.Stores encode s' C' ∧
      Extends (· = C.last) s s') s := by
  have he : encodeEntry name root = encode (name, root) := rfl
  have hl : (encode (name, root)).length = chain.entrySize := length_encode hv
  rw [appendEntry, he]
  refine Prog.wp_seq (PageChain.wp_append chain_lawful hg hc hl) ?_
  rintro ⟨r, last, count⟩ s' ⟨C', ha, hf, he, hc', hx⟩
  cases he
  cases r
  case error e =>
    refine ⟨C', ha, hf, ?_, hc', hx⟩
    rw [loaded, loaded, ha.root, ha.all_error]
  case ok =>
    refine ⟨C', ha, hf, ?_, hc', hx⟩
    rw [loaded, loaded, ha.root, ha.all_ok]

-- The names that are rejected.
inductive CreateRejects (L : Layout) (name : Bytes) : Error → Prop
  | invalid (h : isValidTableName name = false) :
      CreateRejects L name (bad "Catalog::CreateTable: invalid table name")
  | present (h : name ∈ L.tables.map Prod.fst) :
      CreateRejects L name (bad "Catalog::CreateTable: table already exists")

theorem CreateRejects.not_new (h : CreateRejects L name e) :
    ¬(isValidTableName name ∧ name ∉ L.tables.map Prod.fst) := by
  rintro ⟨hv, hn⟩
  cases h
  case invalid h => rw [h] at hv; cases hv
  case present h => exact hn h

-- What creating a table returns and leads to.
def Creates (K : Contract) (s : PageStorage) (L : Layout) (name : Bytes) (r : Except Error PageId)
    (s' : PageStorage) (L' : Layout) : Prop :=
  Layout.Leads s L s' L' ∧ Extends (· = L.catalog.last) s s' ∧ (∀ e ∈ L.tables, L'.dir e.snd = L.dir e.snd) ∧
    match r with
    | .ok root => isValidTableName name ∧ name ∉ L.tables.map Prod.fst ∧ L'.tables = L.tables ++ [(name, root)] ∧
        L'.dir root = { last := root } ∧ s.page? root = none
    | .error e => L'.tables = L.tables ∧ (CreateRejects L name e ∨ K.tolerant)

theorem exists_iff : (loaded C).exists name ↔ name ∈ C.all.map Prod.fst := by
  simp [Catalog.exists, loaded]

theorem findTable_loaded (L : Layout) (name : Bytes) :
    (∃ e ∈ L.tables, e.fst = name ∧ (loaded L.catalog).findTable name = .ok e.snd) ∨
    (name ∉ L.tables.map Prod.fst ∧
      (loaded L.catalog).findTable name = .error ⟨.notFound, "catalog: no such table"⟩) := by
  rw [findTable]
  split
  case h_1 e he =>
    exact .inl ⟨e, List.mem_of_find?_eq_some he, by simpa using List.find?_some he, rfl⟩
  case h_2 he =>
    refine .inr ⟨fun hm => ?_, rfl⟩
    have ⟨e, hmem, hn⟩ := List.mem_map.mp hm
    have := List.find?_eq_none.mp he e hmem
    simp [hn] at this

theorem wp_createTable (hg : chain.Grows K) (h : Realized s L) :
    ((loaded L.catalog).createTable name).wp K
      (fun r s' => ∃ L', r.snd = loaded L'.catalog ∧ Creates K s L name r.fst s' L') s := by
  have hrefl : ∀ {e}, CreateRejects L name e → Creates K s L name (.error e) s L := fun hr =>
    ⟨.refl h, .refl, fun _ _ => rfl, rfl, .inl hr⟩
  rw [createTable]
  split
  case isTrue hv => exact ⟨L, rfl, hrefl (.invalid (by simpa using hv))⟩
  case isFalse hv =>
    have hv : isValidTableName name := by simpa using hv
    split
    case isTrue he => exact ⟨L, rfl, hrefl (.present (exists_iff.mp he))⟩
    case isFalse he =>
      have hn : name ∉ L.tables.map Prod.fst := fun hm => he (exists_iff.mpr hm)
      refine Prog.wp_seq HeapTable.wp_create ?_
      rintro r s₁ (⟨rfl, hs, hne, rfl⟩ | ⟨hx, ht, e, rfl⟩)
      · have hx : Extends (fun _ => False) s (s.push HeapTable.directory.initPage) := .push hne
        have hnone : s.page? s.numPages = none := PageStorage.page?_numPages
        have hinit : (s.push HeapTable.directory.initPage).page? s.numPages = some HeapTable.directory.initPage :=
          PageStorage.page?_push_self hne
        have hc := h.chain.extends_ hx fun _ _ => id
        refine Prog.wp_seq (wp_appendEntry hg hc hv) ?_
        rintro ⟨r, c⟩ s' ⟨C, ha, hf, rfl, hc', hx'⟩
        have hleads := Layout.Leads.addTable h hv hn hx hnone hinit ha hc' hx'
        have hframe : Extends (· = L.catalog.last) s s' := (hx.mono fun _ => False.elim).trans hx'
        have hdir : ∀ e ∈ L.tables, (L.addTable C s.numPages).dir e.snd = L.dir e.snd := by
          intro e he
          refine Function.update_of_ne (fun hr => ?_) _ _
          have := h.stored_isSome he (h.root_mem he)
          rw [hr, hnone] at this
          cases this
        cases r
        case error e => exact ⟨_, rfl, hleads, hframe, hdir, ha.all_error, .inr (hf e rfl)⟩
        case ok => exact ⟨_, rfl, hleads, hframe, hdir, hv, hn, ha.all_ok, Function.update_self .., hnone⟩
      · exact ⟨L, rfl, .extends_ h hx, hx.mono fun _ => False.elim, fun _ _ => rfl, rfl, .inr ht⟩

end Catalog
end NexusDb
