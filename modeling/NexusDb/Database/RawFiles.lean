import NexusDb.Database.Database
import NexusDb.General.Blocks

namespace NexusDb

-- The files of a database by their bytes, which may be anything.
@[ext]
structure RawFiles where
  db       : Option Bytes := none
  creating : Option Bytes := none
  wal      : Option Bytes := none

namespace PageStorage

def toBytes (s : PageStorage) : Bytes :=
  ByteBlock.join s.pages

-- The pages of a file of whole pages. Their number is computed with 32 bits.
def ofBytes (file : Bytes) : PageStorage where
  pages := (List.range (file.length / pageSize % 2 ^ 32)).map fun i =>
    ByteBlock.ofBytes pageSize (file.drop (i * pageSize))
  bound := by simpa using Nat.mod_lt _ (by decide)

end PageStorage

namespace RawFiles

def pagePos (id : PageId) : Nat :=
  id.toNat * pageSize

def apply (f : RawFiles) : FileEvent → RawFiles
  | .creating image        => { f with creating := image.map PageStorage.toBytes }
  | .removeWal             => { f with wal := none }
  | .removeDb              => { f with db := none }
  | .publish               => { f with db := f.creating, creating := none }
  | .createWal             => { f with wal := some (f.wal.getD []) }
  | .extend                =>
    { f with db := f.db.map fun b => Bytes.writeAt b (pagePos (PageStorage.ofBytes b).numPages) zeroPage.toBytes }
  | .overwrite _ id data io =>
    let bs := match io with
      | .success   => data.toBytes
      | .failure n => data.toBytes.take n
    { f with db := f.db.map (Bytes.writeAt · (pagePos id) bs) }
  | .log _ bytes _         => { f with wal := f.wal.map (· ++ bytes) }
  | .truncate              => { f with wal := some [] }
  | .fail | .modify _ _    => f

-- The files after a crash in the middle of an event.
inductive Torn (f : RawFiles) : FileEvent → RawFiles → Prop
  | creating  : Torn f (.creating image) { f with creating := left }
  | overwrite {left : PageData} :
      Torn f (.overwrite w i data io) { f with db := f.db.map (Bytes.writeAt · (pagePos i) left.toBytes) }
  | log       : Torn f (.log i bytes ok) { f with wal := f.wal.map (· ++ bytes.take n) }

abbrev Crash : RawFiles → List FileEvent → RawFiles → Prop :=
  Interrupted apply Torn

def isFresh (f : RawFiles) : Bool :=
  f.db.all List.isEmpty

end RawFiles

-- `Open` on any files. `path` is the path of the database file.
def Database.openRaw (path : String) (f : RawFiles) (capacity : Nat) (io : List IoResult) :
    Mem (Except Error Database) × List FileEvent :=
  if capacity = 0 then
    (some <| .error <| bad "Database::Open: pool capacity must be positive", [])
  else if f.isFresh then
    Database.open { db := none, wal := f.wal } capacity io
  else
    let file := f.db.getD []
    if file.length % pageSize ≠ 0 then
      (some <| .error ⟨.ioError, "database file size is not a multiple of page size: " ++ path⟩, [.creating none])
    else
      let (r, es) := openFiles (.ofBytes file) f.wal capacity io
      (r, .creating none :: es)

end NexusDb
