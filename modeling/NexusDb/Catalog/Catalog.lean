import NexusDb.Record.HeapTable

open Bytes

namespace NexusDb

@[ext]
structure Catalog where
  root          : PageId
  lastPage      : PageId                := invalidId
  lastPageCount : Nat                   := 0
  entries       : List (Bytes × PageId) := []

namespace Catalog

@[simp]
abbrev nameFieldSize : Nat := 32
@[simp]
abbrev maxTableNameLength : Nat := nameFieldSize - 1

-- 'N', 'C', 'A', '1'
def chain : PageChain where
  magic      := [0x4E, 0x43, 0x41, 0x31]
  entrySize  := nameFieldSize + 4
  badMagic   := "catalog: page has bad magic"
  badVersion := "catalog: unsupported version"
  badCount   := "catalog: page count out of range"
  cyclic     := "catalog: chain is cyclic"
  loops      := "catalog: chain loops on itself"

-- 'A'..'Z', 'a'..'z', '0'..'9' and '_'
def isNameChar (ch : UInt8) : Bool :=
  (0x41 ≤ ch ∧ ch ≤ 0x5A) ∨ (0x61 ≤ ch ∧ ch ≤ 0x7A) ∨ (0x30 ≤ ch ∧ ch ≤ 0x39) ∨ ch = 0x5F

def isValidTableName (name : Bytes) : Bool :=
  name ≠ [] ∧ name.length ≤ maxTableNameLength ∧ name.all isNameChar

-- The name is what stands before the first zero byte of its field.
def readNameField (field : Bytes) : Option Bytes :=
  (field.findIdx? (· = 0)).map field.take

def writeNameField (name : Bytes) : Bytes :=
  name ++ List.replicate (nameFieldSize - name.length) 0

def encodeEntry (name : Bytes) (root : PageId) : Bytes :=
  writeNameField name ++ leBytes 4 root.toNat

def checkEntry (found : List (Bytes × PageId)) (entry : Bytes) : Except Error (List (Bytes × PageId)) :=
  match readNameField (entry.take nameFieldSize) with
  | none      => .error <| badState "catalog: entry name is not terminated"
  | some name =>
    let root := UInt32.ofNat (leNat (entry.drop nameFieldSize))
    if !isValidTableName name then
      .error <| badState "catalog: entry has an invalid table name"
    else if found.any (·.fst = name) then
      .error <| badState "catalog: duplicate table name"
    else if root = invalidId then
      .error <| badState "catalog: entry has an invalid table root id"
    else
      .ok (found ++ [(name, root)])

-- The loop of `Load` over the tables that were found.
def checkTables : List (Bytes × PageId) → Prog Status
  | []      => return .ok ()
  | e :: es => do
    if !(← Prog.pageExists e.snd) then
      return .error <| badState "catalog: entry references a missing table page"
    else
      match ← HeapTable.open e.snd with
      | .error _ => return .error <| badState "catalog: entry does not reference a valid table"
      | .ok _    => checkTables es

def load (root : PageId) : Prog (Except Error Catalog) := do
  match ← Prog.countPages with
  | .error e  => return .error e
  | .ok total =>
    match ← chain.walk (fun found entry => return checkEntry found entry) [] root invalidId
      (PageChain.maxPages total) with
    | .error e                => return .error e
    | .ok (found, last, count) =>
      match ← checkTables found with
      | .error e => return .error e
      | .ok ()   => return .ok { root, lastPage := last, lastPageCount := count, entries := found }

def create : Prog (Except Error Catalog) := do
  match ← Prog.addPage chain.initPage with
  | .error e => return .error e
  | .ok root => load root

def «open» (root : PageId) : Prog (Except Error Catalog) := do
  if root = invalidId then
    return .error <| bad "Catalog::Open: invalid root page id"
  else
    load root

def «exists» (c : Catalog) (name : Bytes) : Bool :=
  c.entries.any (·.fst = name)

def findTable (c : Catalog) (name : Bytes) : Except Error PageId :=
  match c.entries.find? (·.fst = name) with
  | some e => .ok e.snd
  | none   => .error ⟨.notFound, "catalog: no such table"⟩

def openTable (c : Catalog) (name : Bytes) : Prog (Except Error HeapTable) :=
  match c.findTable name with
  | .error e => return .error e
  | .ok root => HeapTable.open root

def appendEntry (c : Catalog) (name : Bytes) (root : PageId) : Prog (Status × Catalog) := do
  match ← chain.append c.lastPage c.lastPageCount (encodeEntry name root) with
  | (.error e, last, count) => return (.error e, { c with lastPage := last, lastPageCount := count })
  | (.ok (), last, count)   =>
    return (.ok (), { c with lastPage := last, lastPageCount := count, entries := c.entries ++ [(name, root)] })

def createTable (c : Catalog) (name : Bytes) : Prog (Except Error PageId × Catalog) := do
  if !isValidTableName name then
    return (.error <| bad "Catalog::CreateTable: invalid table name", c)
  else if c.exists name then
    return (.error <| bad "Catalog::CreateTable: table already exists", c)
  else
    match ← HeapTable.create with
    | .error e  => return (.error e, c)
    | .ok table =>
      match ← c.appendEntry name table.root with
      | (.error e, c) => return (.error e, c)
      | (.ok (), c)   => return (.ok table.root, c)

def listTables (c : Catalog) : List Bytes :=
  c.entries.map Prod.fst

end Catalog
end NexusDb
