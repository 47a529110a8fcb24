import NexusDb.Query.QueryExecutor
import Mathlib.Data.Set.Finite.Basic

namespace NexusDb

-- What an executor is for: each table is a finite map from record ids to bytes. It is also known which table has
-- returned an id.
structure Tables where
  contents : Bytes → Option (RecordId → Option Bytes)
  issuer   : RecordId → Option Bytes
  finite   : ∀ {name M}, contents name = some M → {id | M id ≠ none}.Finite

namespace Tables

def empty : Tables where
  contents _ := none
  issuer _   := none
  finite     := nofun

def find (T : Tables) (table : Bytes) (id : RecordId) : Option Bytes :=
  (T.contents table).bind (· id)

-- The id is one of another table.
def Foreign (T : Tables) (table : Bytes) (id : RecordId) : Prop :=
  ∃ t, T.issuer id = some t ∧ t ≠ table

def create (T : Tables) (name : Bytes) : Tables where
  contents := Function.update T.contents name (some fun _ => none)
  issuer   := T.issuer
  finite   := by
    intro n M h
    by_cases hn : n = name
    case pos =>
      rw [hn, Function.update_self, Option.some_inj] at h
      simp [← h]
    case neg =>
      rw [Function.update_of_ne hn] at h
      exact T.finite h

def write (T : Tables) (table : Bytes) (id : RecordId) (record : Option Bytes) : Tables where
  contents := Function.update T.contents table ((T.contents table).map (Function.update · id record))
  issuer   := T.issuer
  finite   := by
    intro n M h
    by_cases hn : n = table
    case pos =>
      rw [hn, Function.update_self, Option.map_eq_some_iff] at h
      have ⟨M', hM, h⟩ := h
      refine ((T.finite hM).insert id).subset fun id' hid => ?_
      by_cases he : id' = id
      case pos => exact .inl he
      case neg =>
        rw [← h, Set.mem_ofPred_eq, Function.update_of_ne he] at hid
        exact .inr hid
    case neg =>
      rw [Function.update_of_ne hn] at h
      exact T.finite h

def issue (T : Tables) (table : Bytes) (id : RecordId) : Tables :=
  { T with issuer := Function.update T.issuer id (some table) }

-- The arguments that are never accepted as a record.
def BadRecord (record : Option Bytes) : Prop :=
  (record.getD []).length = 0 ∨ SlottedPage.maxRecordSize < (record.getD []).length

-- What a visitor has seen when it asks to stop.
def seen (visitor : RecordId → Bytes → Bool) : List (RecordId × Bytes) → List (RecordId × Bytes)
  | []      => []
  | r :: rs => if visitor r.fst r.snd then r :: seen visitor rs else [r]

-- What the queries may answer, and what they do to the tables.
inductive Step (T : Tables) : Query → Answer → Tables → Prop
  | create (hv : Catalog.isValidTableName name) (hn : T.contents name = none) :
      Step T (.createTable name) (.status (.ok ())) (T.create name)
  | createFails (h : ¬(Catalog.isValidTableName name ∧ T.contents name = none)) :
      Step T (.createTable name) (.status (.error e)) T
  | list (hn : names.Nodup) (h : ∀ name, name ∈ names ↔ (T.contents name).isSome) :
      Step T .listTables (.tables names) T
  | insert {id : RecordId} (ht : (T.contents table).isSome) (hr : ¬BadRecord (some bs)) (hid : T.issuer id = none) :
      Step T (.insert table (some bs)) (.inserted (.ok id)) ((T.write table id (some bs)).issue table id)
  | insertFails (h : T.contents table = none ∨ BadRecord record) :
      Step T (.insert table record) (.inserted (.error e)) T
  | get {id : RecordId} (h : T.find table id = some bs) : Step T (.get table id) (.record (.ok bs)) T
  | getFails {id : RecordId} (h : T.find table id = none) (hf : T.Foreign table id → e.code = .notFound) :
      Step T (.get table id) (.record (.error e)) T
  | update {id : RecordId} (h : (T.find table id).isSome) (hr : ¬BadRecord (some bs)) :
      Step T (.update table id (some bs)) (.status (.ok ())) (T.write table id (some bs))
  | updateFails {id : RecordId} (h : T.find table id = none ∨ BadRecord record ∨ e.code = .bufferFull)
      (hf : T.Foreign table id → ¬BadRecord record → e.code = .notFound) :
      Step T (.update table id record) (.status (.error e)) T
  | delete {id : RecordId} (h : (T.find table id).isSome) :
      Step T (.delete table id) (.status (.ok ())) (T.write table id none)
  | deleteFails {id : RecordId} (h : T.find table id = none) (hf : T.Foreign table id → e.code = .notFound) :
      Step T (.delete table id) (.status (.error e)) T
  -- Every record of the table comes once.
  | scan (ht : T.contents table = some M) (hn : (rows.map Prod.fst).Nodup)
      (h : ∀ id bs, (id, bs) ∈ rows ↔ M id = some bs) :
      Step T (.scan table (some visitor)) (.visited (.ok ()) (seen visitor rows)) T
  | scanFails (h : T.contents table = none ∨ visitor = none) :
      Step T (.scan table visitor) (.visited (.error e) []) T

inductive Run : Tables → List Query → List Answer → Tables → Prop
  | nil : Run T [] [] T
  | cons (h : Step T q a T') (hs : Run T' qs as T'') : Run T (q :: qs) (a :: as) T''

-- The same when a query may also fail because of the environment. The tables are then as before.
inductive Attempt (T : Tables) (q : Query) (a : Answer) : Tables → Prop
  | done (h : Step T q a T') : Attempt T q a T'
  | failed (h : a.error? = some e) : Attempt T q a T

end Tables

namespace QueryExecutor

-- Queries one after the other, on an executor with a new catalog.

def runAll (e : QueryExecutor) : List Query → Prog (List Answer × QueryExecutor)
  | []      => return ([], e)
  | q :: qs => do
    let (a, e) ← q.run e
    let (as, e) ← e.runAll qs
    return (a :: as, e)

def createAndRun (qs : List Query) : Prog (Except Error (List Answer × QueryExecutor)) := do
  match ← create with
  | .error e => return .error e
  | .ok e    => return .ok (← e.runAll qs)

end QueryExecutor
end NexusDb
