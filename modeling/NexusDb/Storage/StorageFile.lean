import NexusDb.Storage.PageStorage
import NexusDb.General.Blocks
import NexusDb.Wal.Wal

namespace NexusDb

-- A page storage by the bytes of its file.
@[ext]
structure StorageFile where
  path    : String
  bytes   : Bytes
  isOpen  : Bool := true
  path_ne : path ≠ ""

-- The results of the calls to the file system that one operation makes: finding the end of the file,
-- setting the position, and reading or writing a page.
structure StorageIo where
  size     : Bool     := true
  seek     : Bool     := true
  transfer : IoResult := .success

inductive OpenIo
  | success
  -- The file cannot be opened for reading and writing, or cannot be created when it does not exist.
  | openFails
  | existsFails
  | reopenFails

namespace StorageFile

-- At most 2^44, so that no product of 64 bits overflows.
def pageOffset (id : PageId) : Nat :=
  id.toNat * pageSize

def closed : Error :=
  badState "storage is closed"

-- The number of pages is computed with 32 bits.
def numPages (s : StorageFile) (io : StorageIo) : Except Error PageId :=
  if !s.isOpen then
    .error closed
  else if !io.size then
    .error ⟨.ioError, "cannot stat database file"⟩
  else if s.bytes.length % pageSize ≠ 0 then
    .error PageStorage.sizeChanged
  else
    .ok <| UInt32.ofNat (s.bytes.length / pageSize)

def pageExists (s : StorageFile) (id : PageId) (io : StorageIo) : Bool :=
  match s.numPages io with
  | .error _  => false
  | .ok count => id < count

-- A file that does not exist is created.
def «open» (path : String) (file : Option Bytes) (result : OpenIo) (io : StorageIo) : Except Error StorageFile :=
  if h : path = "" then
    .error <| bad "empty path or null out"
  else
    match result with
    | .openFails   =>
      .error ⟨.ioError, (if file.isSome then "cannot open existing database file for read/write: "
        else "cannot create database file: ") ++ path⟩
    | .existsFails => .error ⟨.ioError, "cannot stat database file: " ++ path⟩
    | .reopenFails => .error ⟨.ioError, "cannot open database file: " ++ path⟩
    | .success     =>
      let bytes := file.getD []
      if !io.size then
        .error ⟨.ioError, "cannot stat database file: " ++ path⟩
      else if bytes.length % pageSize ≠ 0 then
        .error ⟨.ioError, "database file size is not a multiple of page size: " ++ path⟩
      else
        .ok { path, bytes, path_ne := h }

def shortRead (id : PageId) (got : Nat) : Error :=
  ⟨.ioError, "short read on page " ++ toString id.toNat ++ " (" ++ toString got ++ " of "
    ++ toString pageSize ++ " bytes)"⟩

def readPage (s : StorageFile) (id : PageId) (io : StorageIo) : Except Error Page :=
  if !s.isOpen then
    .error closed
  else
    match s.numPages io with
    | .error e  => .error e
    | .ok count =>
      if id ≥ count then
        .error <| PageStorage.beyondEnd id count
      else if !io.seek then
        .error ⟨.ioError, "seek failed for page " ++ toString id.toNat⟩
      else
        match io.transfer with
        | .failure n => .error <| shortRead id (min n (pageSize - 1))
        | .success   =>
          let got := (s.bytes.drop (pageOffset id)).take pageSize
          if got.length ≠ pageSize then
            .error <| shortRead id got.length
          else
            .ok { id, dirty := false, data := ByteBlock.ofBytes pageSize got }

-- A transfer to the file at a position. One that fails may have stored a first part of the bytes.
def transfer (s : StorageFile) (pos : Nat) (bs : Bytes) : IoResult → StorageFile
  | .success   => { s with bytes := Bytes.writeAt s.bytes pos bs }
  | .failure n => { s with bytes := Bytes.writeAt s.bytes pos (bs.take n) }

def writePage (s : StorageFile) (page : Page) (io : StorageIo) : Status × StorageFile :=
  if page.id = invalidId then
    (.error <| bad "invalid page id", s)
  else if !s.isOpen then
    (.error closed, s)
  else
    match s.numPages io with
    | .error e  => (.error e, s)
    | .ok count =>
      if page.id ≥ count then
        (.error ⟨.notFound, "page " ++ toString page.id.toNat ++ " not allocated ("
          ++ toString count.toNat ++ " pages)"⟩, s)
      else if !io.seek then
        (.error ⟨.ioError, "seek failed for page " ++ toString page.id.toNat⟩, s)
      else
        let s := s.transfer (pageOffset page.id) page.data.toBytes io.transfer
        match io.transfer with
        | .success   => (.ok (), s)
        | .failure _ => (.error ⟨.ioError, "write failed on page " ++ toString page.id.toNat⟩, s)

def allocatePage (s : StorageFile) (io : StorageIo) : Except Error Page × StorageFile :=
  if !s.isOpen then
    (.error closed, s)
  else
    match s.numPages io with
    | .error e  => (.error e, s)
    | .ok count =>
      if count = invalidId then
        (.error PageStorage.exhausted, s)
      else
        let page : Page := { id := count }
        if !io.seek then
          (.error ⟨.ioError, "seek failed on allocate"⟩, s)
        else
          let s := s.transfer (pageOffset count) page.data.toBytes io.transfer
          match io.transfer with
          | .success   => (.ok page, s)
          | .failure _ => (.error ⟨.ioError, "extend failed on allocate"⟩, s)

end StorageFile

inductive StorageOp
  | allocate
  | write (page : Page)
  | read (id : PageId)

inductive StorageAnswer
  | allocated (r : Except Error Page)
  | written (s : Status)
  | page (r : Except Error Page)

namespace StorageFile

-- A call without errors of the file system.
def step (s : StorageFile) : StorageOp → StorageAnswer × StorageFile
  | .allocate   => match s.allocatePage {} with
    | (r, s) => (.allocated r, s)
  | .write page => match s.writePage page {} with
    | (r, s) => (.written r, s)
  | .read id    => (.page (s.readPage id {}), s)

-- The calls with their answers, the first one first, and the file that they leave.
def run (s : StorageFile) : List StorageOp → List (StorageOp × StorageAnswer) × StorageFile
  | []        => ([], s)
  | op :: ops =>
    let (answer, s) := s.step op
    let (log, s) := s.run ops
    ((op, answer) :: log, s)

end StorageFile
end NexusDb
