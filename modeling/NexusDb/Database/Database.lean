import NexusDb.Query.QueryExecutor
import NexusDb.Storage.Theorems.Disk

open ByteBlock

namespace NexusDb

-- An open database. The storage and the log are the device of its pool.
structure Database where
  pool        : BufferPool Disk
  executor    : QueryExecutor
  catalogRoot : PageId

namespace Database

@[simp]
abbrev headerVersion : Nat := 1

-- 'N', 'D', 'B', '1'
def magic : Bytes := [0x4E, 0x44, 0x42, 0x31]

@[simp]
abbrev offMagic : Nat := 0
@[simp]
abbrev offVersion : Nat := 4
@[simp]
abbrev offCatalogRoot : Nat := 8

def readHeader (s : PageStorage) : Except Error PageId :=
  match s.readPage 0 with
  | .error e => .error e
  | .ok page =>
    let d := page.data
    if d.slice offMagic 4 ≠ magic then
      .error <| badState "database: header page has bad magic"
    else if d.natAt offVersion 2 ≠ headerVersion then
      .error <| badState "database: unsupported header version"
    else if UInt32.ofNat (d.natAt offCatalogRoot 4) = invalidId then
      .error <| badState "database: header has no catalog root"
    else
      .ok <| UInt32.ofNat (d.natAt offCatalogRoot 4)

def header (catalogRoot : PageId) : PageData :=
  zeroPage
    |>.write offMagic magic
    |>.writeNat offVersion 2 headerVersion
    |>.writeNat offCatalogRoot 4 catalogRoot.toNat

-- The complete image of a new database at the temporary path.
def buildImage (capacity : Nat) (io : List IoResult) : Mem (Except Error Disk) :=
  match Disk.allocatePage { storage := .empty, io } with
  | (.error e, _) => return .error e
  | (.ok _, disk) =>
    match BufferPool.create disk capacity with
    | .error e => return .error e
    | .ok pool => do
      match QueryExecutor.create.exec pool with
      | (none, _)             => none
      | (some (.error e), _)  => return .error e
      | (some (.ok q), pool)  =>
        match pool.dev.writePage .direct { id := 0, data := header q.catalog.root } with
        | (.error e, _)  => return .error e
        | (.ok (), disk) => return disk.close.map fun _ => disk

-- The image is removed when something fails, and renamed otherwise. A stale log is removed first.
def createFreshDatabaseAtomically (capacity : Nat) (io : List IoResult) :
    Mem (Except Error (PageStorage × List IoResult)) × List FileEvent :=
  match buildImage capacity io with
  | none              => (none, [.creating none])
  | some (.error e)   => (some (.error e), [.creating none, .creating none])
  | some (.ok disk)   =>
    (some (.ok (disk.storage, disk.io)),
     [.creating none, .creating (some disk.storage), .removeWal, .removeDb, .publish])

-- The part of `Open` that starts when the database file exists.
def openFiles (storage : PageStorage) (log : Option Bytes) (capacity : Nat) (io : List IoResult) :
    Mem (Except Error Database) × List FileEvent :=
  match Wal.open (log.getD []) with
  | .error e => (some (.error e), [.createWal])
  | .ok wal  =>
    match readHeader storage with
    | .error e        => (some (.error e), [.createWal])
    | .ok catalogRoot =>
      let r := wal.recover storage
      let es := .createWal :: r.written.map fun p => .overwrite .recovery p.id p.data .success
      match r.result with
      | .error e => (some (.error e), es)
      | .ok _    =>
        match wal.reset with
        | (.error e, _) => (some (.error e), es)
        | (.ok (), wal) =>
          match BufferPool.create { storage := r.storage, wal := some wal, io } capacity with
          | .error e => (some (.error e), es ++ [.truncate])
          | .ok pool =>
            match (QueryExecutor.open catalogRoot).exec pool with
            | (none, pool)                 => (none, es ++ .truncate :: pool.dev.trace)
            | (some (.error e), pool)      => (some (.error e), es ++ .truncate :: pool.dev.trace)
            | (some (.ok executor), pool) =>
              (some (.ok { pool, executor, catalogRoot }), es ++ .truncate :: pool.dev.trace)

def isFresh (f : Files) : Bool :=
  f.db.all (·.pages.isEmpty)

-- The result, and what happened to the files. `io` has the results of the calls that reach a file
-- through the page storage or the log of a pool; all other calls on files succeed.
def «open» (f : Files) (capacity : Nat) (io : List IoResult) :
    Mem (Except Error Database) × List FileEvent :=
  if capacity = 0 then
    (some <| .error <| bad "Database::Open: pool capacity must be positive", [])
  else if isFresh f then
    match createFreshDatabaseAtomically capacity io with
    | (none, es)                      => (none, es)
    | (some (.error e), es)           => (some (.error e), es)
    | (some (.ok (storage, io)), es) =>
      let (r, es') := openFiles storage none capacity io
      (r, es ++ es')
  else
    -- What an interrupted creation has left is removed.
    let (r, es) := openFiles (f.db.getD .empty) f.wal capacity io
    (r, .creating none :: es)

-- The disk is the one that is left, in particular its files. A failure of the flush leaves the
-- database open, but without its executor.
def close (db : Database) : Status × Disk :=
  match db.pool.flushAll with
  | (.error e, pool) => (.error e, pool.dev)
  | (.ok (), pool)   =>
    match pool.dev.wal with
    | none     => (pool.dev.close, pool.dev)
    | some wal =>
      match wal.reset with
      | (.error e, _) => (.error e, pool.dev)
      | (.ok (), wal) =>
        let (io, disk) := pool.dev.nextIo
        let (s, wal) := wal.close io
        (s.bind fun _ => disk.close, { disk with wal := some wal }.emit .truncate)

def query (db : Database) (q : Query) : Option Answer × Database :=
  match (q.run db.executor).exec db.pool with
  | (none, pool)                    => (none, { db with pool })
  | (some (answer, executor), pool) => (some answer, { db with pool, executor })

end Database

end NexusDb
