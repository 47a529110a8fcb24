import NexusDb.Buffer.Theorems.Bounded
import NexusDb.Query.Theorems.Reading

namespace NexusDb

open Prog (Bounded AtMost)
open Layout (Realized)

-- What one query costs: how many pages it changes, adds and fetches.

theorem PageChain.append_bounded (c : PageChain) : (c.append last count entry).Bounded 2 1 := by
  rw [append]
  split
  case isTrue =>
    refine (Bounded.onPage.bind (c := 0) (d := 0) (fun r => ?_) le_rfl le_rfl).mono (by decide) (by decide)
    split <;> trivial
  case isFalse =>
    refine Bounded.addPage.bind (c := 2) (d := 0) (fun r => ?_) le_rfl le_rfl
    split
    case h_1 => trivial
    case h_2 =>
      refine Bounded.onPage.bind (c := 1) (d := 0) (fun r => ?_) le_rfl le_rfl
      split
      case h_1 => trivial
      case h_2 =>
        refine Bounded.onPage.bind (c := 0) (d := 0) (fun r => ?_) le_rfl le_rfl
        split <;> trivial

namespace HeapTable

variable (t : HeapTable) (record : Option Bytes) (out : Bool)

theorem appendDataPageId_bounded (id : PageId) : (t.appendDataPageId id).Bounded 2 1 := by
  refine (PageChain.append_bounded _).bind (c := 0) (d := 0) (fun r => ?_) le_rfl le_rfl
  split <;> trivial

theorem tryInsertIntoPage_bounded (page : PageId) : (tryInsertIntoPage page record out).Bounded 1 0 :=
  .onPage

-- A page that has no room is left as it is. What comes after all of them are full may change pages, too.
theorem tryPages_bind_bounded {k : Option (Except Error RecordId) → Prog α} (hsome : ∀ r, (k (some r)).Bounded 0 0)
    (hnone : (k none).Bounded (m + 1) n) (pages : List PageId) :
    ((tryPages record out pages).bind k).Bounded (m + 1) n := by
  have hsome := fun r m n => (hsome r).mono (Nat.zero_le m) (Nat.zero_le n)
  induction pages
  case nil => exact hnone
  case cons page pages ih =>
    have hfail : ∀ e : Error, Bounded (m + 1) n <| Prog.bind
        (if e.code = .bufferFull then tryPages record out pages else return some (.error e)) k := by
      intro e
      split
      case isTrue => exact ih
      case isFalse => exact hsome _ _ _
    refine ⟨fun e => hfail e, fun d r hr => ?_⟩
    obtain ⟨a, ha, hr⟩ := Option.bind_eq_some_iff.mp hr
    rcases SlottedPage.insert_cases d record with ⟨e, he⟩ | ⟨bs, _, _, _, _, _, he⟩
    · cases he.symm.trans ha
      cases hr
      exact hfail e
    · cases he.symm.trans ha
      cases out <;> cases hr
      exact ⟨Nat.succ_pos m, hsome _ _ _⟩

theorem insertFresh_bounded (fresh : PageId) : (t.insertFresh record out fresh).Bounded 3 1 := by
  refine (tryInsertIntoPage_bounded record out fresh).bind (c := 2) (d := 1) (fun r => ?_) le_rfl le_rfl
  split
  case h_1 => trivial
  case h_2 =>
    refine (t.appendDataPageId_bounded fresh).bind (c := 0) (d := 0) (fun r => ?_) le_rfl le_rfl
    split <;> trivial

theorem insertOut_bounded : (t.insertOut record out).Bounded 3 2 := by
  rw [insertOut]
  split
  case isTrue => trivial
  case isFalse =>
    split
    case isTrue => trivial
    case isFalse =>
      refine tryPages_bind_bounded record out (fun r => ?_) ?_ t.candidates
      · cases r <;> trivial
      · refine Bounded.addPage.bind (c := 3) (d := 1) (fun r => ?_) le_rfl le_rfl
        split
        case h_1 => trivial
        case h_2 fresh => exact t.insertFresh_bounded record out fresh

theorem insert_bounded : (t.insert record out).Bounded 3 2 :=
  (t.insertOut_bounded record out).bind (c := 0) (d := 0) (fun _ => trivial) le_rfl le_rfl

theorem update_bounded (id : RecordId) : (t.update id record).Bounded 1 0 := by
  rw [update]
  split_ifs
  case neg => exact .onPage
  all_goals trivial

theorem delete_bounded (id : RecordId) : (t.delete id).Bounded 1 0 := by
  rw [delete]
  split_ifs
  case neg => exact .onPage
  all_goals trivial

theorem create_bounded : create.Bounded 0 1 := by
  refine Bounded.addPage.bind (c := 0) (d := 0) (fun r => ?_) le_rfl le_rfl
  split
  case h_1 => trivial
  case h_2 => exact .of_readOnly loadDirectory_readOnly

-- The pages that are fetched.

theorem insert_atMost : (t.insert record out).AtMost (t.dataPages.length + 4) :=
  AtMost.bind (n := 0) (t.insertOut_atMost record out) (fun _ => trivial) le_rfl

theorem update_atMost (id : RecordId) : (t.update id record).AtMost 1 := by
  rw [update]
  split_ifs
  case neg => exact .onPage
  all_goals trivial

theorem delete_atMost (id : RecordId) : (t.delete id).AtMost 1 := by
  rw [delete]
  split_ifs
  case neg => exact .onPage
  all_goals trivial

end HeapTable

theorem Catalog.createTable_bounded (c : Catalog) (name : Bytes) : (c.createTable name).Bounded 2 2 := by
  rw [createTable]
  split
  case isTrue => trivial
  case isFalse =>
    split
    case isTrue => trivial
    case isFalse =>
      refine HeapTable.create_bounded.bind (c := 2) (d := 1) (fun r => ?_) le_rfl le_rfl
      split
      case h_1 => trivial
      case h_2 =>
        refine Bounded.bind (a := 2) (b := 1) (c := 0) (d := 0) ?_ (fun r => ?_) le_rfl le_rfl
        · refine (PageChain.append_bounded _).bind (c := 0) (d := 0) (fun r => ?_) le_rfl le_rfl
          split <;> trivial
        · split <;> trivial

-- A table is opened before anything is done to it.
theorem QueryExecutor.openTable_bind_bounded (x : QueryExecutor) (table : Bytes) {k : Except Error HeapTable → Prog α}
    (herr : ∀ e, (k (.error e)).Bounded m n) (hok : ∀ heap, (k (.ok heap)).Bounded m n) :
    ((x.openTable table).bind k).Bounded m n := by
  refine (Bounded.of_readOnly (x.openTable_readOnly table)).bind (c := m) (d := n) (fun r => ?_) (Nat.zero_add m).le
    (Nat.zero_add n).le
  cases r
  case error e => exact herr e
  case ok heap => exact hok heap

-- A query changes at most three pages and adds at most two.
theorem Query.bounded (q : Query) (x : QueryExecutor) : (q.run x).Bounded 3 2 := by
  have hret : ∀ {α β : Type} {g : Prog α} {f : α → β}, g.Bounded 3 2 → (g.bind fun a => .ret (f a)).Bounded 3 2 :=
    fun hg => hg.bind (c := 0) (d := 0) (fun _ => trivial) le_rfl le_rfl
  by_cases hq : q.looks
  case pos => exact (Bounded.of_noEdit (run_noEdit hq x) (run_inPlace hq x)).mono (Nat.zero_le _) (Nat.zero_le _)
  case neg =>
    cases q
    case createTable name =>
      refine hret <| Bounded.bind (c := 0) (d := 0) ((x.catalog.createTable_bounded name).mono (m := 3) (by decide) le_rfl)
        (fun r => ?_) le_rfl le_rfl
      split <;> trivial
    case listTables => trivial
    case insert table record =>
      refine hret <| x.openTable_bind_bounded table (fun _ => trivial) fun heap => ?_
      exact hret <| heap.insert_bounded record true
    case update table id record =>
      refine hret <| x.openTable_bind_bounded table (fun _ => trivial) fun heap => ?_
      exact (heap.update_bounded record id).mono (by decide) (by decide)
    case delete table id =>
      refine hret <| x.openTable_bind_bounded table (fun _ => trivial) fun heap => ?_
      exact (heap.delete_bounded id).mono (by decide) (by decide)
    all_goals exact absurd rfl hq

-- The pages of the table are fetched once, and then a few more.
theorem Query.calls_le (q : Query) (h : Realized s L) (hl : s.pages.length ≤ pageLimit) :
    (q.run (.loaded L)).calls s ≤ s.pages.length + 4 := by
  have hret : ∀ {α β : Type} {g : Prog α} {f : α → β}, g.calls s ≤ s.pages.length + 4 →
      (g.bind fun a => .ret (f a)).calls s ≤ s.pages.length + 4 := by
    intro _ _ _ _ hg
    refine (Prog.calls_bind_le (n := 0) ?_ s).trans hg
    exact fun _ => trivial
  by_cases hq : q.looks
  case pos => exact (calls_run hq h hl).trans (by omega)
  case neg =>
    cases q
    case createTable name =>
      have hcalls := (QueryExecutor.loaded L).catalog.calls_createTable name s
      refine hret <| (Prog.calls_bind_le (n := 0) (fun r => ?_) s).trans (hcalls.trans ?_)
      · split <;> trivial
      · split <;> omega
    case listTables => exact Nat.zero_le _
    case insert table record =>
      refine hret <| QueryExecutor.calls_openTable_then h hl ?_ (fun C => ?_) table
      · exact fun _ => trivial
      · exact AtMost.bind (n := 0) ((HeapTable.loaded C).insert_atMost record true) (fun _ => trivial) le_rfl
    case update table id record =>
      refine hret <| QueryExecutor.calls_openTable_then h hl ?_ (fun C => ?_) table
      · exact fun _ => trivial
      · exact ((HeapTable.loaded C).update_atMost record id).mono (by omega)
    case delete table id =>
      refine hret <| QueryExecutor.calls_openTable_then h hl ?_ (fun C => ?_) table
      · exact fun _ => trivial
      · exact ((HeapTable.loaded C).delete_atMost id).mono (by omega)
    all_goals exact absurd rfl hq

end NexusDb
