import NexusDb.Manager.Manager

namespace NexusDb

-- The characters of a text are the bytes of a string.

def Text.bytes (t : Text) : Bytes :=
  t.map fun c => UInt8.ofNat c.toNat

def Bytes.text (bs : Bytes) : Text :=
  bs.map fun b => Char.ofNat b.toNat

-- A data root with its databases by their names, next to what the managers of containers work on.
-- `unclosed` is only there to tell whether a `Close` of a database has failed.
structure Host where
  world     : World := {}
  databases : Text → Files := fun _ => {}
  unclosed  : Text → Bool := fun _ => false

-- How the environment behaves in a command: the container runtime, the creation of the directory of a
-- database, and the calls on the files of the database.
structure Environment where
  outcome : Outcome := { write := .untouched }
  dirOk   : Bool := true
  io      : List IoResult := []

namespace Database

-- The files that are left when `Close` was called and the database is gone. After a failure of the flush,
-- the destructor of the pool tries again.
def leave (db : Database) : Files :=
  match db.pool.flushAll with
  | (.error _, pool) => pool.flushAll.snd.dev.files
  | (.ok (), _)      => db.close.snd.files

end Database

namespace Host

-- What the operations on a database have in common: it is opened, its executor is called, and it is closed.
-- An error of the call goes before one of `Close`.
def withDb (h : Host) (name : Text) (env : Environment) (call : QueryExecutor → Prog (Except Error α)) :
    Mem (Except Error α × Host) :=
  let f := h.databases name
  match h.world.openDb name env.dirOk f env.io with
  | (none, _)             => none
  | (some (.error e), es) => some (.error e, { h with databases := Function.update h.databases name (f.after es) })
  | (some (.ok db), _)    =>
    match (call db.executor).exec db.pool with
    | (none, _)      => none
    | (some r, pool) =>
      let db := { db with pool }
      let s := db.close.fst
      let h := { h with
        databases := Function.update h.databases name db.leave
        unclosed  := Function.update h.unclosed name (h.unclosed name || !s.isOk) }
      match r, s with
      | .error e, _        => some (.error e, h)
      | .ok _,    .error e => some (.error e, h)
      | .ok a,    .ok ()   => some (.ok a, h)

def dbInit (h : Host) (name : Text) (env : Environment) : Mem (Status × Host) :=
  h.withDb name env fun _ => return .ok ()

def tableCreate (h : Host) (name table : Text) (env : Environment) : Mem (Status × Host) :=
  h.withDb name env fun q => do
    let (s, _) ← q.createTable table.bytes
    return s

def tableList (h : Host) (name : Text) (env : Environment) : Mem (Except Error (List Bytes) × Host) :=
  h.withDb name env fun q => return .ok q.listTables

def insert (h : Host) (name table : Text) (data : Bytes) (env : Environment) : Mem (Except Error RecordId × Host) :=
  h.withDb name env fun q => q.insert table.bytes (some data) true

def get (h : Host) (name table : Text) (id : RecordId) (env : Environment) : Mem (Except Error Bytes × Host) :=
  h.withDb name env fun q => q.get table.bytes id true

def update (h : Host) (name table : Text) (id : RecordId) (data : Bytes) (env : Environment) : Mem (Status × Host) :=
  h.withDb name env fun q => q.update table.bytes id (some data)

def delete (h : Host) (name table : Text) (id : RecordId) (env : Environment) : Mem (Status × Host) :=
  h.withDb name env fun q => q.delete table.bytes id

def collectScan (out : List (RecordId × Bytes)) (id : RecordId) (data : Bytes) : List (RecordId × Bytes) × Bool :=
  (out ++ [(id, data)], true)

def scan (h : Host) (name table : Text) (env : Environment) : Mem (Except Error (List (RecordId × Bytes)) × Host) :=
  h.withDb name env fun q => do
    match ← q.scan table.bytes (some collectScan) [] with
    | (.error e, _)   => return .error e
    | (.ok (), out)   => return .ok out

end Host
end NexusDb
