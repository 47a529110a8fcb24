import NexusDb.Benchmark.Harness
import NexusDb.Buffer.Prog
import NexusDb.Buffer.Theorems.Eviction
import NexusDb.Storage.StorageFile
import NexusDb.Storage.Theorems.Disk

namespace NexusDb

-- A database file: its pages, and whether it ends with a part of a page.
structure DbFile where
  storage : PageStorage := .empty
  torn    : Bool        := false

namespace BufferPool

def contains (p : BufferPool σ) (id : PageId) : Bool :=
  (p.findFrame id).isSome

-- The page in a frame was marked dirty, with the bytes that it has.
def markDirty [Device σ] (p : BufferPool σ) (i : Nat) : BufferPool σ :=
  p.edit i (some (p.frameAt i).page.data)

end BufferPool

-- The workload of the database engine next to the files that it finds. `opens` and `io` are the results of the calls
-- that open a file and of those that reach its pages, `allocs` how the allocations of the next resizes end. As long as a
-- storage is open, its file is the device of the pool.
structure EngineWorkload where
  files      : Text → Option DbFile
  opens      : OpenIo                          := .success
  io         : List IoResult                   := []
  allocs     : List Allocation                 := []
  pool       : Option (Text × BufferPool Disk) := none
  pageCount  : UInt64                          := 0
  dirtyEvery : UInt64                          := 0
  rng        : UInt64                          := 1
  random     : Bool                            := false

namespace EngineWorkload

def nextRand (state : UInt64) : UInt64 :=
  let x := state
  let x := x ^^^ (x <<< 13)
  let x := x ^^^ (x >>> 7)
  x ^^^ (x <<< 17)

def dbPath (cfg : BenchConfig) : Text :=
  match cfg.dbPath with
  | some (c :: path) => c :: path
  | _                => "data/benchmark.db".toList

-- The file of a storage that goes out of scope.
def closeFile (w : EngineWorkload) (path : Text) (disk : Disk) : EngineWorkload :=
  { w with files := Function.update w.files path (some { storage := disk.storage, torn := disk.torn }), io := disk.io }

-- The loop that adds the pages that are missing, with `n` of them to go. Each page that is added has the next id, and
-- there is an error before the ids wrap around.
def addPages (disk : Disk) : Nat → Status × Disk
  | 0     => (.ok (), disk)
  | n + 1 =>
    match disk.allocatePage with
    | (.error e, disk) => (.error e, disk)
    | (.ok _, disk)    => addPages disk n

-- The part of `open` that starts when the storage is open.
def openPool (w : EngineWorkload) (cfg : BenchConfig) (path : Text) (disk : Disk) : Rc × EngineWorkload :=
  match disk.countPages with
  | (.error _, disk)  => (.process, w.closeFile path disk)
  | (.ok «have», disk) =>
    match addPages disk (w.pageCount.toNat - «have».toNat) with
    | (.error _, disk) => (.process, w.closeFile path disk)
    | (.ok (), disk)   =>
      let frames := if cfg.poolFramesStart = 0 then 1 else cfg.poolFramesStart
      match BufferPool.create disk frames.toNat with
      | .error _ => (.process, w.closeFile path disk)
      | .ok pool => (.ok, { w with pool := some (path, pool) })

-- A file that does not exist is created. It is there when only the last of the calls that open it fails.
def «open» (w : EngineWorkload) (cfg : BenchConfig) : Rc × EngineWorkload :=
  let w := { w with
    pageCount  := if cfg.pageCount = 0 then 1 else cfg.pageCount
    dirtyEvery := cfg.dirtyEvery
    random     := cfg.random
    rng        := if cfg.randomSeed ≠ 0 then cfg.randomSeed else 1 }
  let path := dbPath cfg
  let file := (w.files path).getD {}
  match w.opens with
  | .openFails | .existsFails => (.process, w)
  | .reopenFails              => (.process, { w with files := Function.update w.files path (some file) })
  | .success                  =>
    let w := { w with files := Function.update w.files path (some file) }
    if file.torn then (.process, w) else w.openPool cfg path { storage := file.storage, io := w.io }

-- The page of a step, and the state of the random numbers after it.
def target (w : EngineWorkload) (index : UInt64) : PageId × UInt64 :=
  if w.random then
    let x := nextRand w.rng
    ((x % w.pageCount).toUInt32, x)
  else
    ((index % w.pageCount).toUInt32, w.rng)

-- A hit is a page that was in the pool before it was fetched.
def step (w : EngineWorkload) (index : UInt64) : Rc × Bool × EngineWorkload :=
  match w.pool with
  | none              => (.state, false, w)
  | some (path, pool) =>
    let (id, rng) := w.target index
    let hit := pool.contains id
    match pool.fetch id with
    | (.error _, pool) => (.process, hit, { w with rng, pool := some (path, pool) })
    | (.ok i, pool)    =>
      let pool := if w.dirtyEvery ≠ 0 ∧ index % w.dirtyEvery = 0 then pool.markDirty i else pool
      (.ok, hit, { w with rng, pool := some (path, pool.unpinFrame i) })

def capacity (w : EngineWorkload) : UInt64 :=
  w.pool.elim 0 fun (_, pool) => UInt64.ofNat pool.capacity

def resident (w : EngineWorkload) : UInt64 :=
  w.pool.elim 0 fun (_, pool) => UInt64.ofNat pool.size

def pinned (w : EngineWorkload) : UInt64 :=
  w.pool.elim 0 fun (_, pool) => UInt64.ofNat pool.pinnedFrames

def resize (w : EngineWorkload) (targetFrames : UInt64) : Rc × EngineWorkload :=
  match w.pool with
  | none              => (.state, w)
  | some (path, pool) =>
    let (rc, pool) := bufferPoolRequest (w.allocs.headD .success) pool targetFrames
    (rc, { w with pool := some (path, pool), allocs := w.allocs.tail })

-- The pool is flushed once more when it is destroyed.
def close (w : EngineWorkload) : EngineWorkload :=
  match w.pool with
  | none              => w
  | some (path, pool) =>
    let (_, pool) := pool.flushAll
    let (_, pool) := pool.flushAll
    { w with pool := none }.closeFile path pool.dev

end EngineWorkload

namespace Bench

def engineWorkload : BenchWorkload EngineWorkload where
  «open»   := some EngineWorkload.open
  step     := some EngineWorkload.step
  capacity := some EngineWorkload.capacity
  resident := some EngineWorkload.resident
  pinned   := some EngineWorkload.pinned
  resize   := some EngineWorkload.resize
  close    := some EngineWorkload.close

end Bench
end NexusDb
