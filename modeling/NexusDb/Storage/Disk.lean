import NexusDb.Storage.Files
import NexusDb.Storage.Theorems.PageStorage

namespace NexusDb

-- The page storage and the log sink of a pool. `io` has the results of the next calls that reach the
-- files, all others succeed, and `trace` has what happened to the files. `torn` says that the file ends
-- with a part of a page, which an allocation has left that failed. `good` is the state of the stream of the
-- database file: a call that looks for the end of the file clears it, and a failed transfer leaves it bad.
structure Disk where
  storage : PageStorage
  torn    : Bool              := false
  good    : Bool              := true
  wal     : Option Wal        := none
  io      : List IoResult     := []
  trace   : List FileEvent    := []

namespace Disk

def nextIo (d : Disk) : IoResult × Disk :=
  (d.io.headD .success, { d with io := d.io.tail })

def emit (d : Disk) (e : FileEvent) : Disk :=
  { d with trace := d.trace ++ [e] }

def countPages (d : Disk) : Except Error PageId × Disk :=
  if d.torn then
    (.error PageStorage.sizeChanged, { d with good := true }.emit .fail)
  else
    match d.nextIo with
    | (.success, d)   => (.ok d.storage.numPages, { d with good := true })
    | (.failure _, d) => (.error ⟨.ioError, "cannot stat database file"⟩, { d with good := false }.emit .fail)

def readPage (d : Disk) (id : PageId) : Except Error Page × Disk :=
  if d.torn then
    (.error PageStorage.sizeChanged, { d with good := true }.emit .fail)
  else
    match d.storage.readPage id with
    | .error e => (.error e, { d with good := true })
    | .ok page =>
      match d.nextIo with
      | (.success, d)   => (.ok page, { d with good := true })
      | (.failure n, d) =>
        (.error ⟨.ioError, "short read on page " ++ toString id.toNat ++ " (" ++ toString (min n (pageSize - 1))
          ++ " of " ++ toString pageSize ++ " bytes)"⟩, { d with good := false }.emit .fail)

def writePage (d : Disk) (w : Writer) (page : Page) : Status × Disk :=
  match d.storage.writePage page with
  | (.error e, _) =>
    if page.id = invalidId then
      (.error e, d)
    else if d.torn then
      (.error PageStorage.sizeChanged, { d with good := true }.emit .fail)
    else
      (.error e, { d with good := true })
  | (.ok (), _)   =>
    if d.torn then
      (.error PageStorage.sizeChanged, { d with good := true }.emit (.overwrite w page.id page.data (.failure 0)))
    else
      let (io, d) := d.nextIo
      let d := { d with storage := d.storage.overwrite page.id page.data io }.emit
        (.overwrite w page.id page.data io)
      match io with
      | .success   => (.ok (), { d with good := true })
      | .failure _ => (.error ⟨.ioError, "write failed on page " ++ toString page.id.toNat⟩, { d with good := false })

-- A failed call may have written a part of the page.
def allocatePage (d : Disk) : Except Error Page × Disk :=
  if d.torn then
    (.error PageStorage.sizeChanged, { d with good := true }.emit .fail)
  else
    match d.storage.allocatePage with
    | (.error e, _)     => (.error e, { d with good := true })
    | (.ok page, storage) =>
      match d.nextIo with
      | (.success, d)   => (.ok page, { d with storage, good := true }.emit .extend)
      | (.failure n, d) =>
        (.error ⟨.ioError, "extend failed on allocate"⟩,
         { d with torn := decide (0 < n), good := false }.emit .fail)

def beforePageWrite (d : Disk) (page : Page) : Status × Disk :=
  match d.wal with
  | none   => (.ok (), d)
  | some w =>
    let (io₁, d) := d.nextIo
    let (io₂, d) := d.nextIo
    let (s, w') := w.beforePageWrite io₁ io₂ page
    (s, { d with wal := some w' }.emit (.log page.id (w'.file.drop w.file.length) s.isOk))

def touch (d : Disk) (id : PageId) (data : PageData) : Disk :=
  d.emit (.modify id data)

-- The flush at the end has nothing to write, and reports the state of the stream.
def close (d : Disk) : Status :=
  if d.good then .ok () else .error ⟨.ioError, "flush failed"⟩

-- The files of a database that is open.
def files (d : Disk) : Files where
  db  := some d.storage
  wal := d.wal.map (·.file)

-- No call has failed because of the environment so far.
def Ok (d : Disk) : Prop :=
  ∀ e ∈ d.trace, e.failed = false

end Disk
end NexusDb
