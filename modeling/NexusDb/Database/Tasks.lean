import NexusDb.Database.Database
import NexusDb.Buffer.Theorems.Contract

namespace NexusDb

-- What is done with a database: the calls of its executor, and maintenance in between.
inductive Task
  | query (q : Query)
  | resize (alloc : Allocation) (n : Nat)
  | flushPage (id : PageId)
  | flushAll
  -- `Close`, and then `Open` with a positive capacity.
  | reopen (n : Nat) (h : 0 < n)

def Task.query? : Task → Option Query
  | query q => some q
  | _       => none

def Task.reopens : Task → Bool
  | reopen _ _ => true
  | _          => false

namespace Database

-- The answer, if the task has one, and the database that is open then. There is nothing when the task cannot be done.
def perform (db : Database) : Task → Option (Option Answer × Database)
  | .query q =>
    match db.query q with
    | (none, _)    => none
    | (some a, db) => some (some a, db)
  | .resize alloc n => some (none, { db with pool := (db.pool.resize alloc n).snd })
  | .flushPage id   => some (none, { db with pool := (db.pool.flushPage id).snd })
  | .flushAll       => some (none, { db with pool := db.pool.flushAll.snd })
  | .reopen n _     =>
    match db.close with
    | (.error _, _)  => none
    | (.ok (), disk) =>
      match Database.open disk.files n [] with
      | (some (.ok db), _) => some (none, db)
      | _                  => none

def performAll (db : Database) : List Task → Option (List Answer × Database)
  | []      => some ([], db)
  | t :: ts => do
    let (a, db) ← db.perform t
    let (as, db) ← db.performAll ts
    return (a.toList ++ as, db)

-- No call on a file has failed, and neither are there too many fetches nor too many pages.
structure Within (db : Database) : Prop where
  ok      : db.pool.dev.Ok
  fetches : db.pool.fetches < BufferPool.maxStamp
  pages   : db.pool.dev.storage.pages.length ≤ pageLimit

-- It is like this all the time.
def Calm (db : Database) : List Task → Prop
  | []      => db.Within
  | t :: ts => db.Within ∧ (t.reopens → db.close.snd.Ok) ∧
    match db.perform t with
    | none          => True
    | some (_, db') => db'.Calm ts

instance : Decidable (Within db) :=
  have : Decidable db.pool.dev.Ok := inferInstanceAs (Decidable (∀ e ∈ db.pool.dev.trace, e.failed = false))
  decidable_of_iff (db.pool.dev.Ok ∧ db.pool.fetches < BufferPool.maxStamp ∧ db.pool.dev.storage.pages.length ≤ pageLimit)
    ⟨fun ⟨h₁, h₂, h₃⟩ => ⟨h₁, h₂, h₃⟩, fun ⟨h₁, h₂, h₃⟩ => ⟨h₁, h₂, h₃⟩⟩

instance decidableCalm (db : Database) : (ts : List Task) → Decidable (db.Calm ts)
  | []      => inferInstanceAs (Decidable db.Within)
  | t :: ts =>
    have : Decidable db.close.snd.Ok := inferInstanceAs (Decidable (∀ e ∈ db.close.snd.trace, e.failed = false))
    have : Decidable (match db.perform t with | none => True | some (_, db') => db'.Calm ts) :=
      match db.perform t with
      | none          => .isTrue trivial
      | some (_, db') => decidableCalm db' ts
    inferInstanceAs (Decidable (_ ∧ _ ∧ _))

end Database
end NexusDb
