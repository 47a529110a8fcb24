import NexusDb.Query.Theorems.NullOut
import NexusDb.Query.Theorems.Performs
import NexusDb.Record.Theorems.InsertOut

namespace NexusDb

open Layout (Realized)
open Prog (NoEdit InPlace AtMost)

-- Looking at the records of a table writes nothing, and the pages of the table are fetched once.

namespace HeapTable

theorem get_noEdit (t : HeapTable) (id : RecordId) (out : Bool) : (t.get id out).NoEdit := by
  rw [get]
  split_ifs
  · trivial
  · trivial
  · trivial
  · refine ⟨fun d r hr => ?_, fun _ => trivial⟩
    obtain ⟨_, _, hr⟩ := Option.bind_eq_some_iff.mp hr
    cases hr
    rfl

theorem get_atMost (t : HeapTable) (id : RecordId) (out : Bool) : (t.get id out).AtMost 1 := by
  rw [get]
  split_ifs
  · trivial
  · trivial
  · trivial
  · exact .onPage

variable {fn : σ → RecordId → Bytes → σ × Bool} {pages : List PageId}

theorem scanPages_noEdit (ctx : σ) : (scanPages fn ctx pages).NoEdit := by
  induction pages generalizing ctx
  case nil => trivial
  case cons page pages ih =>
    refine NoEdit.bind ⟨fun d r hr => ?_, fun _ => trivial⟩ fun r => ?_
    · have ⟨_, _, hr⟩ := Option.bind_eq_some_iff.mp hr
      split at hr <;> cases hr <;> rfl
    · split
      case h_1 => trivial
      case h_2 => trivial
      case h_3 => exact ih _

theorem scanPages_inPlace (ctx : σ) : (scanPages fn ctx pages).InPlace := by
  induction pages generalizing ctx
  case nil => trivial
  case cons page pages ih =>
    refine InPlace.bind (fun _ => trivial) fun r => ?_
    split
    case h_1 => trivial
    case h_2 => trivial
    case h_3 => exact ih _

theorem scanPages_atMost (ctx : σ) : (scanPages fn ctx pages).AtMost pages.length := by
  induction pages generalizing ctx
  case nil => trivial
  case cons page pages ih =>
    refine AtMost.bind .onPage (n := pages.length) (fun r => ?_) (Nat.add_comm ..).le
    split
    case h_1 => trivial
    case h_2 => trivial
    case h_3 => exact ih _

end HeapTable

-- Opening a table, and then going on with it.
theorem QueryExecutor.calls_openTable_then {k : Except Error HeapTable → Prog α} (h : Realized s L)
    (hl : s.pages.length ≤ pageLimit) (herr : ∀ e, (k (.error e)).AtMost 0)
    (hok : ∀ C, (k (.ok (HeapTable.loaded C))).AtMost (C.all.length + n)) (t : Bytes) :
    (((loaded L).openTable t).bind k).calls s ≤ s.pages.length + n := by
  rcases Catalog.findTable_loaded L t with ⟨e, he, _, hr⟩ | ⟨_, hr⟩
  case inl =>
    have hopen : (loaded L).openTable t = HeapTable.open (L.dir e.snd).root := by
      simp only [openTable, loaded, hr, Catalog.openTable, h.root e he]
    obtain ⟨r, hfst, hsnd, hr⟩ := Prog.wp_direct (HeapTable.wp_open (K := .reliable) (h.stored e he) (.inr hl))
      (.inr HeapTable.open_readOnly.inPlace)
    rw [hopen, Prog.calls_bind (Prod.ext hfst hsnd)]
    rcases hr with rfl | ⟨_, _, hf⟩
    case inr => cases hf
    case inl =>
      have hpages : (L.dir e.snd).ids.length + (L.dir e.snd).all.length ≤ s.pages.length := by
        rw [← List.length_append]
        exact PageStorage.length_le (h.stored e he).nodup fun _ => h.stored_isSome he
      have hcalls := HeapTable.calls_open (h.stored e he)
      have hrest := (hok (L.dir e.snd)).calls_le s
      omega
  case inr =>
    have hopen : (loaded L).openTable t = .ret (.error ⟨.notFound, "catalog: no such table"⟩) := by
      simp only [openTable, loaded, hr]
      rfl
    rw [hopen]
    exact ((herr _).calls_le s).trans (Nat.zero_le _)

namespace Query

-- Queries that only look at the records of a table.
def looks : Query → Bool
  | get _ _ | scan _ _ => true
  | _                  => false

variable {q : Query} {s : PageStorage} {L : Layout} (hq : q.looks)

include hq

theorem run_noEdit (x : QueryExecutor) : (q.run x).NoEdit := by
  cases q <;> cases hq
  case get t id =>
    refine NoEdit.bind (NoEdit.bind (x.openTable_readOnly t).noEdit fun r => ?_) fun _ => trivial
    split
    case h_1 => trivial
    case h_2 heap => exact heap.get_noEdit id true
  case scan t visitor =>
    refine NoEdit.bind (NoEdit.bind (x.openTable_readOnly t).noEdit fun r => ?_) fun _ => trivial
    split
    case h_1 => trivial
    case h_2 heap =>
      cases visitor
      case none => trivial
      case some => exact HeapTable.scanPages_noEdit []

theorem run_inPlace (x : QueryExecutor) : (q.run x).InPlace := by
  cases q <;> cases hq
  case get t id =>
    refine InPlace.bind (InPlace.bind (x.openTable_readOnly t).inPlace fun r => ?_) fun _ => trivial
    split
    case h_1 => trivial
    case h_2 heap => exact heap.get_inPlace id true
  case scan t visitor =>
    refine InPlace.bind (InPlace.bind (x.openTable_readOnly t).inPlace fun r => ?_) fun _ => trivial
    split
    case h_1 => trivial
    case h_2 heap =>
      cases visitor
      case none => trivial
      case some => exact HeapTable.scanPages_inPlace []

theorem calls_run (h : Realized s L) (hl : s.pages.length ≤ pageLimit) :
    (q.run (.loaded L)).calls s ≤ s.pages.length + 1 := by
  cases q <;> cases hq
  case get t id =>
    have hget : ((QueryExecutor.loaded L).get t id true).calls s ≤ s.pages.length + 1 := by
      rw [QueryExecutor.get, Prog.bind_eq]
      refine QueryExecutor.calls_openTable_then h hl ?_ (fun C => ?_) t
      · exact fun _ => trivial
      · exact (HeapTable.get_atMost _ id true).mono (Nat.le_add_left ..)
    rw [run, Prog.bind_eq]
    refine (Prog.calls_bind_le (n := 0) ?_ s).trans hget
    exact fun _ => trivial
  case scan t visitor =>
    have hscan : ((QueryExecutor.loaded L).scan t (visitor.map collect) []).calls s ≤ s.pages.length + 1 := by
      rw [QueryExecutor.scan, Prog.bind_eq]
      refine QueryExecutor.calls_openTable_then h hl ?_ (fun C => ?_) t
      · exact fun _ => trivial
      · cases visitor
        case none => trivial
        case some => exact (HeapTable.scanPages_atMost []).mono (Nat.le_add_right ..)
    rw [run, Prog.bind_eq]
    refine (Prog.calls_bind_le (n := 0) ?_ s).trans hscan
    exact fun _ => trivial

end Query
end NexusDb
