import NexusDb.Database.Tasks

namespace NexusDb

namespace Query

-- The record that a query has written, as its answer tells.
def wrote : Query → Answer → Option (Bytes × RecordId × Bytes)
  | insert t (some bs),    .inserted (.ok id) => some (t, id, bs)
  | update t id (some bs), .status (.ok ())   => some (t, id, bs)
  | _,                     _                  => none

-- The record that a query is about to change or to remove.
def target : Query → Option (Bytes × RecordId)
  | update t id _ | delete t id => some (t, id)
  | _                           => none

end Query

namespace Database

-- What the users of a database see: the record with an id, and the records of a table.

def record? (db : Database) (t : Bytes) (id : RecordId) : Option Bytes :=
  match (db.query (.get t id)).fst with
  | some (.record (.ok bs)) => some bs
  | _                       => none

def rows (db : Database) (t : Bytes) : List (RecordId × Bytes) :=
  match (db.query (.scan t (some fun _ _ => true))).fst with
  | some (.visited (.ok ()) rows) => rows
  | _                             => []

end Database

-- What is known about the records of a database from the calls that its users have made: the ones that are there now, the
-- ones that were there when everything was written to the files for the last time and that nobody has tried to change since,
-- and everything that was ever written.
structure Ledger where
  live    : Bytes → RecordId → Bytes → Prop := fun _ _ _ => False
  saved   : Bytes → RecordId → Bytes → Prop := fun _ _ _ => False
  written : Bytes → RecordId → Bytes → Prop := fun _ _ _ => False

namespace Ledger

-- A database is opened, and has the records that it returns then.
def opened (l : Ledger) (db : Database) : Ledger :=
  { l with live := fun t id bs => db.record? t id = some bs }

-- A query that changes or removes a record may not do so when it fails, but the record counts as saved no longer.
def ask (l : Ledger) (q : Query) (a : Answer) : Ledger where
  live t id bs    := q.wrote a = some (t, id, bs) ∨
    (l.live t id bs ∧ ¬(q.target = some (t, id) ∧ a.error? = none))
  saved t id bs   := l.saved t id bs ∧ q.target ≠ some (t, id)
  written t id bs := l.written t id bs ∨ q.wrote a = some (t, id, bs)

-- Everything was written to the files, unless that has failed.
def flushed (l : Ledger) : Status → Ledger
  | .ok ()   => { l with saved := l.live }
  | .error _ => l

-- What a task does to the records. Only a query has an answer.
def perform (l : Ledger) (db : Database) : Task → Option Answer → Ledger
  | .query q,  some a => l.ask q a
  | .flushAll, _      => l.flushed db.pool.flushAll.fst
  | _,         _      => l

-- The same when it was interrupted: the query may have been done, but nothing counts as written to the files.
def interrupt (l : Ledger) : Task → Option Answer → Ledger
  | .query q, some a => l.ask q a
  | _,        _      => l

end Ledger

-- A database is closed, or it was interrupted, and there are only its files. Otherwise it is open.
inductive Stage
  | closed (f : Files)
  | opened (db : Database)

-- Everything that may happen to a database, with what is then known about its records. The only things that go wrong are
-- crashes: they may fall anywhere in the events that opening, closing or a task adds to the trace, as long as no event
-- before has failed.
inductive History : Stage → Ledger → Prop
  | new (hf : Database.isFresh f) : History (.closed f) {}
  | «open» (h : History (.closed f) l) (ho : Database.open f n [] = (some (.ok db), es)) : History (.opened db) (l.opened db)
  | openCrash (h : History (.closed f) l) (hc : f.Crash (Database.open f n []).snd f') : History (.closed f') l
  | perform (h : History (.opened db) l) (ht : task.reopens = false) (hp : db.perform task = some (a, db'))
      (hok : db'.pool.dev.Ok) : History (.opened db') (l.perform db task a)
  | performCrash (h : History (.opened db) l) (ht : task.reopens = false) (hp : db.perform task = some (a, db'))
      (hpre : db.pool.dev.trace ++ pre <+: db'.pool.dev.trace) (hok : ∀ e ∈ pre, e.failed = false)
      (hc : db.pool.dev.files.Crash pre f') : History (.closed f') (l.interrupt task a)
  | close (h : History (.opened db) l) (hc : db.close = (.ok (), disk)) (hok : disk.Ok) :
      History (.closed disk.files) (l.flushed (.ok ()))
  | closeCrash (h : History (.opened db) l) (hpre : db.pool.dev.trace ++ pre <+: db.close.snd.trace)
      (hok : ∀ e ∈ pre, e.failed = false) (hc : db.pool.dev.files.Crash pre f') : History (.closed f') l

end NexusDb
