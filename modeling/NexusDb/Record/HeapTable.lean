import NexusDb.Record.PageChain
import NexusDb.Record.SlottedPage

open Bytes

namespace NexusDb

@[ext]
structure RecordId where
  page : PageId := invalidId
  slot : SlotId := SlottedPage.invalidSlot
  deriving DecidableEq

namespace RecordId

def valid (id : RecordId) : Bool :=
  id.page ≠ invalidId ∧ id.slot ≠ SlottedPage.invalidSlot

end RecordId

@[ext]
structure HeapTable where
  root         : PageId
  dataPages    : List PageId := []
  lastDir      : PageId      := invalidId
  lastDirCount : Nat         := 0
  lastDataPage : PageId      := invalidId

namespace HeapTable

-- 'N', 'H', 'T', '1'
def directory : PageChain where
  magic      := [0x4E, 0x48, 0x54, 0x31]
  entrySize  := 4
  badMagic   := "heap table: directory page has bad magic"
  badVersion := "heap table: unsupported directory version"
  badCount   := "heap table: directory page count out of range"
  cyclic     := "heap table: directory chain is cyclic"
  loops      := "heap table: directory chain loops on itself"

def checkDataPage (root : PageId) (ids : List PageId) (entry : Bytes) : Prog (Except Error (List PageId)) := do
  let pid := UInt32.ofNat (leNat entry)
  if pid = invalidId ∨ pid = root then
    return .error <| badState "heap table: invalid data page id in directory"
  else if !(← Prog.pageExists pid) then
    return .error <| badState "heap table: directory references a missing page"
  else
    return .ok (ids ++ [pid])

def loadDirectory (root : PageId) : Prog (Except Error HeapTable) := do
  match ← Prog.countPages with
  | .error e  => return .error e
  | .ok total =>
    match ← directory.walk (checkDataPage root) [] root invalidId (PageChain.maxPages total) with
    | .error e              => return .error e
    | .ok (ids, dir, count) =>
      return .ok { root, dataPages := ids, lastDir := dir, lastDirCount := count,
                   lastDataPage := ids.getLastD invalidId }

def create : Prog (Except Error HeapTable) := do
  match ← Prog.addPage directory.initPage with
  | .error e => return .error e
  | .ok root => loadDirectory root

def «open» (root : PageId) : Prog (Except Error HeapTable) := do
  if root = invalidId then
    return .error <| bad "HeapTable::Open: invalid root page id"
  else
    loadDirectory root

def isDataPage (t : HeapTable) (page : PageId) : Bool :=
  page ∈ t.dataPages

def allocateDataPage : Prog (Except Error PageId) :=
  Prog.addPage SlottedPage.init

def appendDataPageId (t : HeapTable) (id : PageId) : Prog (Status × HeapTable) := do
  match ← directory.append t.lastDir t.lastDirCount (leBytes 4 id.toNat) with
  | (.error e, dir, count) => return (.error e, { t with lastDir := dir, lastDirCount := count })
  | (.ok (), dir, count)   =>
    return (.ok (), { t with lastDir := dir, lastDirCount := count, dataPages := t.dataPages ++ [id] })

-- `out` says whether the caller wants the id of the record. It is written through the pointer
-- unconditionally.
def tryInsertIntoPage (page : PageId) (record : Option Bytes) (out : Bool) :
    Prog (Except Error RecordId) :=
  Prog.onPage page fun d => do
    match ← SlottedPage.insert d record with
    | (.error e, d) => return (.error e, d)
    | (.ok slot, d) => if out then return (.ok ⟨page, slot⟩, d) else none

-- Tries one page after the other, and returns nothing when all of them are full.
def tryPages (record : Option Bytes) (out : Bool) : List PageId → Prog (Option (Except Error RecordId))
  | []            => return none
  | page :: pages => do
    match ← tryInsertIntoPage page record out with
    | .ok id   => return some (.ok id)
    | .error e => if e.code = .bufferFull then tryPages record out pages else return some (.error e)

-- The pages that an insert tries: the last one that had room, and then the others in their order.
def candidates (t : HeapTable) : List PageId :=
  (if t.lastDataPage = invalidId then [] else [t.lastDataPage])
    ++ t.dataPages.filter (· ≠ t.lastDataPage)

-- The last steps of an insert, with a page that was just allocated.
def insertFresh (t : HeapTable) (record : Option Bytes) (out : Bool) (fresh : PageId) :
    Prog (Status × RecordId × HeapTable) := do
  match ← tryInsertIntoPage fresh record out with
  | .error e => return (.error e, {}, t)
  | .ok id   =>
    match ← t.appendDataPageId fresh with
    | (.error e, t) => return (.error e, id, t)
    | (.ok (), t)   => return (.ok (), id, { t with lastDataPage := fresh })

-- The status, and what `*out` holds afterwards. It is reset at first, and only written on success of a page,
-- but not reset again when the page then cannot be put into the directory.
def insertOut (t : HeapTable) (record : Option Bytes) (out : Bool) : Prog (Status × RecordId × HeapTable) := do
  let bytes := record.getD []
  if bytes.length = 0 then
    return (.error <| bad "HeapTable::Insert: null or empty record", {}, t)
  else if bytes.length > SlottedPage.maxRecordSize then
    return (.error ⟨.bufferFull, "record is larger than a page can ever hold"⟩, {}, t)
  else
    match ← tryPages record out t.candidates with
    | some (.ok id)   => return (.ok (), id, { t with lastDataPage := id.page })
    | some (.error e) => return (.error e, {}, t)
    | none            =>
      match ← allocateDataPage with
      | .error e  => return (.error e, {}, t)
      | .ok fresh => t.insertFresh record out fresh

-- For callers that look at the id only on success.
def insert (t : HeapTable) (record : Option Bytes) (out : Bool) : Prog (Except Error RecordId × HeapTable) := do
  let (s, id, t) ← t.insertOut record out
  return (s.map fun _ => id, t)

-- `out` says whether the out-parameters are given.
def get (t : HeapTable) (id : RecordId) (out : Bool) : Prog (Except Error Bytes) := do
  if !out then
    return .error <| bad "HeapTable::Get: null out-parameter"
  else if !id.valid then
    return .error <| bad "HeapTable::Get: invalid record id"
  else if !t.isDataPage id.page then
    return .error ⟨.notFound, "heap table: record id does not name a table page"⟩
  else
    Prog.onPage id.page fun d => do return (← SlottedPage.read d id.slot, none)

def update (t : HeapTable) (id : RecordId) (record : Option Bytes) : Prog Status := do
  let bytes := record.getD []
  if bytes.length = 0 then
    return .error <| bad "HeapTable::Update: null or empty record"
  else if bytes.length > SlottedPage.maxRecordSize then
    return .error ⟨.bufferFull, "record is larger than a page can ever hold"⟩
  else if !id.valid then
    return .error <| bad "HeapTable::Update: invalid record id"
  else if !t.isDataPage id.page then
    return .error ⟨.notFound, "heap table: record id does not name a table page"⟩
  else
    Prog.onPage id.page fun d => SlottedPage.update d id.slot record

def delete (t : HeapTable) (id : RecordId) : Prog Status := do
  if !id.valid then
    return .error <| bad "HeapTable::Delete: invalid record id"
  else if !t.isDataPage id.page then
    return .error ⟨.notFound, "heap table: record id does not name a table page"⟩
  else
    Prog.onPage id.page fun d => SlottedPage.delete d id.slot

-- The visitor of a table as one of a page. The context also has whether the visitor asked to stop.
def scanBridge (page : PageId) (fn : σ → RecordId → Bytes → σ × Bool) (ctx : σ × Bool) (slot : SlotId)
    (data : Bytes) : (σ × Bool) × Bool :=
  let (c, continue_) := fn ctx.fst ⟨page, slot⟩ data
  ((c, !continue_), continue_)

def scanPages (fn : σ → RecordId → Bytes → σ × Bool) (ctx : σ) : List PageId → Prog (Status × σ)
  | []            => return (.ok (), ctx)
  | page :: pages => do
    let r ← Prog.onPage page fun d => do
      match ← SlottedPage.scan d (scanBridge page fn) (ctx, false) with
      | (.error e, _) => return (.error e, none)
      | (.ok (), ctx) => return (.ok ctx, none)
    match r with
    | .error e         => return (.error e, ctx)
    | .ok (ctx, true)  => return (.ok (), ctx)
    | .ok (ctx, false) => scanPages fn ctx pages

-- There is no visitor when the pointer to it is null.
def scan (t : HeapTable) (fn : Option (σ → RecordId → Bytes → σ × Bool)) (ctx : σ) : Prog (Status × σ) :=
  match fn with
  | none    => return (.error <| bad "HeapTable::Scan: null callback", ctx)
  | some fn => scanPages fn ctx t.dataPages

end HeapTable
end NexusDb
