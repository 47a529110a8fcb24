import NexusDb.Catalog.Theorems.Acceptance
import NexusDb.Catalog.Theorems.Layout
import NexusDb.Record.Theorems.Opening

namespace NexusDb

open Layout (Realized)
open Prog (AtMost)

-- How many pages are fetched. Loading a chain fetches each of its pages once.

namespace PageChain

section

variable {c : PageChain} {s : PageStorage} {visit : β → Bytes → Prog (Except Error β)}
  {g : β → Bytes → Except Error β}

theorem calls_walk (hv : ∀ acc e, (visit acc e).direct s = (some (g acc e), s))
    (h : ∀ acc entry, (visit acc entry).AtMost 0) (hp : c.Path s i ps) (hn : ps ≠ []) (acc : β) (prev : PageId)
    (fuel : Nat) : (c.walk visit acc i prev fuel).calls s ≤ ps.length := by
  induction fuel generalizing acc i prev ps
  case zero => exact Nat.zero_le _
  case succ fuel ih =>
    match ps with
    | [] => exact absurd rfl hn
    | (j, es) :: ps =>
      have ⟨hi, d, next, hd, hh, rest⟩ := hp.cons
      subst hi
      have hread : (Prog.onPage i c.readPage).calls s ≤ 1 := AtMost.onPage.calls_le s
      have hvisit := (visitEntries_atMost h acc es).calls_le s
      rw [walk, Prog.bind_eq, Prog.calls_bind (readPage_direct_of_holds hd hh), List.length_cons, Nat.add_comm ps.length]
      refine Nat.add_le_add hread ?_
      simp only [Prog.bind_eq]
      rw [Prog.calls_bind (visitEntries_direct hv acc es), Nat.le_zero.mp hvisit, Nat.zero_add]
      cases es.foldlM g acc
      case error => exact Nat.zero_le _
      case ok acc₁ =>
        simp only
        split_ifs with hnext
        · exact Nat.zero_le _
        · exact Nat.zero_le _
        · exact ih rest (fun he => hnext (he ▸ rest).eq_invalidId) _ _

-- The pages of a chain that is stored.
theorem calls_walk_stores {enc : α → Bytes} (hv : ∀ acc e, (visit acc e).direct s = (some (g acc e), s))
    (h : ∀ acc entry, (visit acc entry).AtMost 0) (hc : c.Stores enc s C) (acc : β) (prev : PageId) (fuel : Nat) :
    (c.walk visit acc C.root prev fuel).calls s ≤ C.ids.length := by
  refine (calls_walk hv h hc.path (by simp [Chain.pages]) acc prev fuel).trans ?_
  simp [Chain.ids]

end

end PageChain

namespace HeapTable

variable {s : PageStorage}

theorem loadDirectory_returns (s : PageStorage) (root : PageId) :
    ∃ r, (loadDirectory root).direct s = (some r, s) := by
  have ⟨r, hr, _⟩ := PageChain.path_of_walk (c := directory) (checkDataPage_direct (s := s) root) [] root invalidId
    (PageChain.maxPages s.numPages)
  have hload : (loadDirectory root).direct s =
      (some (r.map fun x => ⟨root, x.fst, x.snd.fst, x.snd.snd, x.fst.getLastD invalidId⟩), s) := by
    change ((directory.walk (checkDataPage root) [] root invalidId (PageChain.maxPages s.numPages)).bind _).direct s = _
    rw [Prog.direct_bind, hr]
    cases r <;> rfl
  exact ⟨_, hload⟩

theorem calls_loadDirectory (h : Stored s C) : (loadDirectory C.root).calls s ≤ C.ids.length := by
  have hcount : Prog.countPages.direct s = (some (.ok s.numPages), s) ∧ Prog.countPages.calls s = 0 := ⟨rfl, rfl⟩
  have ⟨r, hr, _⟩ := PageChain.path_of_walk (c := directory) (checkDataPage_direct (s := s) C.root) [] C.root invalidId
    (PageChain.maxPages s.numPages)
  have hwalk := PageChain.calls_walk_stores (checkDataPage_direct C.root) (fun _ _ => checkDataPage_atMost) h.chain []
    invalidId (PageChain.maxPages s.numPages)
  rw [loadDirectory, Prog.bind_eq, Prog.calls_bind hcount.left, hcount.right, Nat.zero_add]
  simp only [Prog.bind_eq]
  rw [Prog.calls_bind hr]
  cases r <;> exact hwalk

theorem calls_open (h : Stored s C) : (HeapTable.open C.root).calls s ≤ C.ids.length := by
  rw [HeapTable.open, if_neg (h.ne_invalidId (List.mem_append_left _ Chain.root_mem))]
  exact calls_loadDirectory h

-- The page of a new table is fetched once.
theorem create_direct (s : PageStorage) : ∃ r s', create.direct s = (some r, s') ∧ create.calls s ≤ 1 := by
  rw [create, Prog.bind_eq, Prog.direct_bind]
  rcases Prog.addPage_direct directory.initPage s with ⟨h, hn⟩ | ⟨e, h⟩
  · have hinit : (s.push directory.initPage).page? s.numPages = some directory.initPage :=
      PageStorage.page?_push_self hn
    obtain ⟨r, hr⟩ := loadDirectory_returns (s.push directory.initPage) s.numPages
    rw [Prog.calls_bind h, Prog.calls_addPage, Nat.zero_add, h]
    exact ⟨r, _, hr, calls_loadDirectory (stored_init hinit)⟩
  · rw [Prog.calls_bind h, Prog.calls_addPage, h]
    exact ⟨_, _, rfl, Nat.zero_le _⟩

end HeapTable

namespace Catalog

variable {s : PageStorage} {L : Layout}

theorem calls_checkTables (h : ∀ e ∈ es, (L.dir e.snd).root = e.snd ∧ HeapTable.Stored s (L.dir e.snd))
    (hl : s.pages.length ≤ pageLimit) : (checkTables es).calls s ≤ (es.flatMap L.tablePages).length := by
  induction es
  case nil => exact Nat.zero_le _
  case cons e es ih =>
    have ⟨hroot, hs⟩ := h e List.mem_cons_self
    have ih := ih fun e' he => h e' (List.mem_cons_of_mem _ he)
    have hopen := HeapTable.calls_open hs
    have ⟨r, hr, _⟩ := open_direct hl e.snd
    have hexists : (Prog.pageExists e.snd).direct s = (some (decide (e.snd < s.numPages)), s) := rfl
    rw [hroot] at hopen
    rw [checkTables, Prog.bind_eq, Prog.calls_bind hexists, Nat.le_zero.mp (AtMost.pageExists.calls_le s), Nat.zero_add,
      List.flatMap_cons, List.length_append]
    split
    case isTrue => exact Nat.zero_le _
    case isFalse =>
      rw [Prog.bind_eq, Prog.calls_bind hr]
      refine Nat.add_le_add (hopen.trans ?_) ?_
      · rw [Layout.tablePages, HeapTable.owned, List.length_append]
        exact Nat.le_add_right ..
      · cases r
        case error => exact Nat.zero_le _
        case ok => exact ih

-- All pages that are fetched are different.
theorem calls_load (h : Realized s L) (hl : s.pages.length ≤ pageLimit) :
    (load L.catalog.root).calls s ≤ s.pages.length := by
  let walk := chain.walk (fun found entry => return checkEntry found entry) [] L.catalog.root invalidId
    (PageChain.maxPages s.numPages)
  have hread : walk.ReadOnly := PageChain.walk_readOnly _ fun _ _ => trivial
  obtain ⟨r, hfst, hr, hq⟩ := Prog.wp_direct (wp_walk (K := .reliable) h (.inr hl)) (.inr hread.inPlace)
  have hwalk : walk.calls s ≤ L.catalog.ids.length :=
    PageChain.calls_walk_stores (g := checkEntry) (fun _ _ => rfl) (fun _ _ => Prog.AtMost.ret) h.chain [] invalidId _
  have hcount : Prog.countPages.direct s = (some (.ok s.numPages), s) ∧ Prog.countPages.calls s = 0 := ⟨rfl, rfl⟩
  refine le_trans ?_ (PageStorage.length_le h.nodup fun _ => h.isSome)
  rw [load, Prog.bind_eq, Prog.calls_bind hcount.left, hcount.right, Nat.zero_add, Layout.owned, List.length_append]
  simp only [Prog.bind_eq]
  rw [Prog.calls_bind (Prod.ext hfst hr)]
  refine Nat.add_le_add hwalk ?_
  rcases hq with rfl | ⟨_, rfl, _⟩
  case inr => exact Nat.zero_le _
  case inl =>
    obtain ⟨r, hr, _⟩ := checkTables_direct hl L.tables
    have htables := calls_checkTables (L := L) (fun e he => ⟨h.root e he, h.stored e he⟩) hl
    refine (Prog.calls_bind hr).trans_le ?_
    cases r <;> exact htables

-- A table that is rejected needs no page.
theorem calls_createTable (c : Catalog) (name : Bytes) (s : PageStorage) :
    (c.createTable name).calls s ≤ if isValidTableName name ∧ ¬c.exists name then 3 else 0 := by
  rw [createTable]
  split
  case isTrue => exact Nat.zero_le _
  case isFalse hv =>
    split
    case isTrue => exact Nat.zero_le _
    case isFalse hn =>
      obtain ⟨r, s', hr, hcalls⟩ := HeapTable.create_direct s
      rw [if_pos ⟨by simpa using hv, hn⟩, Prog.bind_eq, Prog.calls_bind hr]
      refine Nat.add_le_add (b := 1) (d := 2) hcalls ?_
      cases r
      case error => exact Nat.zero_le _
      case ok t =>
        refine AtMost.calls_le (AtMost.bind (m := 2) (n := 0) (AtMost.bind (n := 0) chain.append_atMost (fun r => ?_) le_rfl)
          (fun r => ?_) le_rfl) s'
        all_goals split <;> trivial

theorem calls_open (h : Realized s L) (hl : s.pages.length ≤ pageLimit) :
    (Catalog.open L.catalog.root).calls s ≤ s.pages.length := by
  rw [Catalog.open, if_neg (h.chain.ne_invalidId Chain.root_mem)]
  exact calls_load h hl

end Catalog
end NexusDb
