import NexusDb.Wal.Wal
import NexusDb.Storage.Device
import NexusDb.General.Interrupted

namespace NexusDb

-- The files of a database: the database itself, the image of a database that is being created, and
-- the log.
@[ext]
structure Files where
  db       : Option PageStorage := none
  creating : Option PageStorage := none
  wal      : Option Bytes       := none

-- What happens to the files, one event for each write. Some events do not touch the files: a call
-- that failed without any effect, and the modification of a page in memory.
inductive FileEvent
  | creating (image : Option PageStorage)
  | removeWal
  | removeDb
  | publish
  | createWal
  | extend
  | overwrite (w : Writer) (id : PageId) (data : PageData) (io : IoResult)
  | log (id : PageId) (bytes : Bytes) (ok : Bool)
  | truncate
  | fail
  | modify (id : PageId) (data : PageData)

-- What a write leaves on a page. A write that fails may have replaced a first part of it.
def IoResult.leave : IoResult → PageData → PageData → PageData
  | success,   _,   data => data
  | failure n, old, data => fun i => if i.val < n then data i else old i

namespace PageStorage

def overwrite (s : PageStorage) (id : PageId) (data : PageData) (io : IoResult) : PageStorage :=
  match s.page? id with
  | none     => s
  | some old => s.setPage id (io.leave old data)

end PageStorage

namespace FileEvent

def apply (f : Files) : FileEvent → Files
  | creating image            => { f with creating := image }
  | removeWal                 => { f with wal := none }
  | removeDb                  => { f with db := none }
  | publish                   => { f with db := f.creating, creating := none }
  | createWal                 => { f with wal := some (f.wal.getD []) }
  | extend                    => { f with db := f.db.map fun s => s.allocatePage.snd }
  | overwrite _ id data io    => { f with db := f.db.map fun s => s.overwrite id data io }
  | log _ bytes _             => { f with wal := f.wal.map (· ++ bytes) }
  | truncate                  => { f with wal := some [] }
  | fail | modify _ _         => f

def failed : FileEvent → Bool
  | overwrite _ _ _ (.failure _) | log _ _ false | fail => true
  | _                                                   => false

-- The files after a crash in the middle of an event. What was on the page that was being overwritten
-- is lost, and any part of a record may have reached the log.
inductive Torn (f : Files) : FileEvent → Files → Prop
  | creating  : Torn f (.creating image) { f with creating := left }
  | overwrite : Torn f (.overwrite w i data io) { f with db := f.db.map (·.overwrite i left .success) }
  | log       : Torn f (.log i bytes ok) { f with wal := f.wal.map (· ++ bytes.take n) }

end FileEvent

namespace Files

def after (f : Files) (es : List FileEvent) : Files :=
  es.foldl FileEvent.apply f

-- The files after a crash somewhere in a sequence of events.
abbrev Crash : Files → List FileEvent → Files → Prop :=
  Interrupted FileEvent.apply fun f e => e.Torn f

end Files
end NexusDb
