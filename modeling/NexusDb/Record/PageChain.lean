import NexusDb.Buffer.Prog

open ByteBlock

namespace NexusDb

-- Pages that hold a list of entries. Each page has a header with the number of its entries and the id
-- of the next page, and then the entries, which all have the same size. The directory of a table and
-- the catalog are such chains.
structure PageChain where
  magic      : Bytes
  entrySize  : Nat
  badMagic   : String
  badVersion : String
  badCount   : String
  cyclic     : String
  loops      : String

namespace PageChain

@[simp]
abbrev headerSize : Nat := 16
@[simp]
abbrev version : Nat := 1

@[simp]
abbrev offMagic : Nat := 0
@[simp]
abbrev offVersion : Nat := 4
@[simp]
abbrev offReserved : Nat := 6
@[simp]
abbrev offCount : Nat := 8
@[simp]
abbrev offNext : Nat := 12

variable (c : PageChain)

def capacity : Nat :=
  (pageSize - headerSize) / c.entrySize

def entryOffset (i : Nat) : Nat :=
  headerSize + i * c.entrySize

def initPage : PageData :=
  zeroPage
    |>.write offMagic c.magic
    |>.writeNat offVersion 2 version
    |>.writeNat offReserved 2 0
    |>.writeNat offCount 4 0
    |>.writeNat offNext 4 invalidId.toNat

def validateHeader (d : PageData) : Mem Status := do
  if (← d.load offMagic 4) ≠ c.magic then
    return .error <| bad c.badMagic
  if (← d.loadNat offVersion 2) ≠ version then
    return .error <| bad c.badVersion
  if (← d.loadNat offCount 4) > c.capacity then
    return .error <| bad c.badCount
  return .ok ()

-- The entries of one page from `i` on, of which `n` are left.
def readEntries (d : PageData) (i : Nat) : Nat → Mem (List Bytes)
  | 0     => return []
  | n + 1 => do
    let entry ← d.load (c.entryOffset i) c.entrySize
    return entry :: (← readEntries d (i + 1) n)

-- The entries of one page and the id of the next one.
def readPage (d : PageData) : Mem (PageCall (List Bytes × PageId)) := do
  match ← c.validateHeader d with
  | .error e => return (.error e, none)
  | .ok ()   =>
    let count ← d.loadNat offCount 4
    let next ← d.loadNat offNext 4
    return (.ok (← c.readEntries d 0 count, UInt32.ofNat next), none)

-- The loop over the entries of one page. The page is still pinned, but the loop makes no call on the
-- pool.
def visitEntries (visit : α → Bytes → Prog (Except Error α)) (acc : α) : List Bytes → Prog (Except Error α)
  | []               => return .ok acc
  | entry :: entries => do
    match ← visit acc entry with
    | .error e => return .error e
    | .ok acc  => visitEntries visit acc entries

-- The loop over the chain from `page` on. It returns the last page and the number of its entries.
def walk (visit : α → Bytes → Prog (Except Error α)) (acc : α) (page prev : PageId) :
    Nat → Prog (Except Error (α × PageId × Nat))
  | 0        => return .error <| badState c.cyclic
  | fuel + 1 => do
    match ← Prog.onPage page c.readPage with
    | .error e             => return .error e
    | .ok (entries, next) =>
      match ← visitEntries visit acc entries with
      | .error e => return .error e
      | .ok acc  =>
        if next = invalidId then
          return .ok (acc, page, entries.length)
        else if next = page ∨ next = prev then
          return .error <| badState c.loops
        else
          walk visit acc next page fuel

-- How many pages the loop visits at most: the walk ends with an error when its counter is greater than
-- `max_walk`.
def maxPages (totalPages : PageId) : Nat :=
  (totalPages + 2).toNat + 1

def writeEntry (d : PageData) (i : Nat) (entry : Bytes) : Mem PageData := do
  let d ← d.store (c.entryOffset i) entry
  d.storeNat offCount 4 (i + 1)

-- Adding an entry behind the `count` entries of the last page. A full page gets a successor. The last
-- page and the number of its entries are returned, whether the call succeeds or not.
def append (last : PageId) (count : Nat) (entry : Bytes) : Prog (Status × PageId × Nat) := do
  if count < c.capacity then
    let r ← Prog.onPage last fun d => do
      match ← c.validateHeader d with
      | .error e => return (.error e, none)
      | .ok ()   => return (.ok (), ← c.writeEntry d count entry)
    match r with
    | .error e => return (.error e, last, count)
    | .ok ()   => return (.ok (), last, count + 1)
  else
    match ← Prog.addPage c.initPage with
    | .error e => return (.error e, last, count)
    | .ok new  =>
      let r ← Prog.onPage last fun d => do
        return (.ok (), ← d.storeNat offNext 4 new.toNat)
      match r with
      | .error e => return (.error e, last, count)
      | .ok ()   =>
        let r ← Prog.onPage new fun d => do
          return (.ok (), ← c.writeEntry d 0 entry)
        match r with
        | .error e => return (.error e, new, 0)
        | .ok ()   => return (.ok (), new, 1)

end PageChain
end NexusDb
