import NexusDb.Storage.Page

open ByteBlock

namespace NexusDb

abbrev SlotId := UInt16

namespace SlottedPage

abbrev invalidSlot : SlotId := 0xFFFF
@[simp]
abbrev headerSize : Nat := 16
@[simp]
abbrev slotEntrySize : Nat := 4
@[simp]
abbrev version : Nat := 1
@[simp]
abbrev maxRecordSize : Nat := pageSize - headerSize - slotEntrySize

-- 'N', 'S', 'P', '1'
def magic : Bytes := [0x4E, 0x53, 0x50, 0x31]

@[simp]
abbrev offMagic : Nat := 0
@[simp]
abbrev offVersion : Nat := 4
@[simp]
abbrev offSlotCount : Nat := 6
@[simp]
abbrev offFreeStart : Nat := 8
@[simp]
abbrev offFreeEnd : Nat := 10
@[simp]
abbrev offReserved : Nat := 12

@[simp]
abbrev entryAt (i : Nat) : Nat :=
  headerSize + i * slotEntrySize

def init : PageData :=
  zeroPage
    |>.write offMagic magic
    |>.writeNat offVersion 2 version
    |>.writeNat offSlotCount 2 0
    |>.writeNat offFreeStart 2 headerSize
    |>.writeNat offFreeEnd 2 pageSize
    |>.writeNat offReserved 2 0

-- The loop of `Validate` over the slots from `i` on, of which `n` are left.
def validateSlots (d : PageData) (freeEnd i : Nat) : Nat → Mem Status
  | 0     => return .ok ()
  | n + 1 => do
    let offset ← d.loadNat (entryAt i) 2
    let length ← d.loadNat (entryAt i + 2) 2
    if length = 0 then
      validateSlots d freeEnd (i + 1) n
    else if offset < freeEnd then
      return .error <| bad "slotted page: live slot points into the free region"
    else if offset + length > pageSize then
      return .error <| bad "slotted page: live slot extends beyond the page"
    else
      validateSlots d freeEnd (i + 1) n

def validate (d : PageData) : Mem Status := do
  if (← d.load offMagic 4) ≠ magic then
    return .error <| bad "slotted page: bad magic"
  if (← d.loadNat offVersion 2) ≠ version then
    return .error <| bad "slotted page: unsupported version"
  let slotCount ← d.loadNat offSlotCount 2
  let dirEnd := headerSize + slotCount * slotEntrySize
  if dirEnd > pageSize then
    return .error <| bad "slotted page: slot directory overflows the page"
  let freeStart ← d.loadNat offFreeStart 2
  let freeEnd ← d.loadNat offFreeEnd 2
  if freeStart < dirEnd then
    return .error <| bad "slotted page: free_start overlaps the slot directory"
  if freeEnd < freeStart then
    return .error <| bad "slotted page: free_end precedes free_start"
  if freeEnd > pageSize then
    return .error <| bad "slotted page: free_end beyond the page"
  validateSlots d freeEnd 0 slotCount

def slotCount? (d : PageData) : Mem Nat :=
  d.loadNat offSlotCount 2

-- The loop of `live_count` over the slots from `i` on, of which `n` are left.
def countLive (d : PageData) (i live : Nat) : Nat → Mem Nat
  | 0     => return live
  | n + 1 => do
    let length ← d.loadNat (entryAt i + 2) 2
    countLive d (i + 1) (if length ≠ 0 then live + 1 else live) n

def liveCount (d : PageData) : Mem Nat := do
  let count ← d.loadNat offSlotCount 2
  countLive d 0 0 count

def freeBytes (d : PageData) : Mem Nat := do
  let freeStart ← d.loadNat offFreeStart 2
  let freeEnd ← d.loadNat offFreeEnd 2
  if freeEnd < freeStart ∨ freeEnd > pageSize then
    return 0
  return freeEnd - freeStart

-- The record argument is `none` for a null pointer.
def insert (d : PageData) (record : Option Bytes) : Mem (PageCall SlotId) := do
  let bytes := record.getD []
  if bytes.length = 0 then
    return (.error <| bad "SlottedPage::Insert: null or empty record", none)
  if bytes.length > maxRecordSize then
    return (.error ⟨.bufferFull, "record exceeds the maximum page record size"⟩, none)
  match ← validate d with
  | .error e => return (.error e, none)
  | .ok () =>
    let count ← d.loadNat offSlotCount 2
    let dirEnd := headerSize + count * slotEntrySize
    let freeStart ← d.loadNat offFreeStart 2
    let freeEnd ← d.loadNat offFreeEnd 2
    if freeEnd - freeStart < slotEntrySize + bytes.length then
      return (.error ⟨.bufferFull, "page full"⟩, none)
    let newOffset := freeEnd - bytes.length
    let d ← d.store newOffset bytes
    let d ← d.storeNat dirEnd 2 newOffset
    let d ← d.storeNat (dirEnd + 2) 2 bytes.length
    let d ← d.storeNat offSlotCount 2 (count + 1)
    let d ← d.storeNat offFreeStart 2 (freeStart + slotEntrySize)
    let d ← d.storeNat offFreeEnd 2 newOffset
    return (.ok (UInt16.ofNat count), some d)

def read (d : PageData) (slot : SlotId) : Mem (Except Error Bytes) := do
  match ← validate d with
  | .error e => return .error e
  | .ok () =>
    let count ← d.loadNat offSlotCount 2
    if slot.toNat ≥ count then
      return .error <| bad "SlottedPage::Read: slot index out of range"
    let offset ← d.loadNat (entryAt slot.toNat) 2
    let length ← d.loadNat (entryAt slot.toNat + 2) 2
    if length = 0 then
      return .error ⟨.notFound, "slot is deleted"⟩
    return .ok (← d.load offset length)

def update (d : PageData) (slot : SlotId) (record : Option Bytes) : Mem (PageCall Unit) := do
  let bytes := record.getD []
  if bytes.length = 0 then
    return (.error <| bad "SlottedPage::Update: null or empty record", none)
  if bytes.length > maxRecordSize then
    return (.error ⟨.bufferFull, "record exceeds the maximum page record size"⟩, none)
  match ← validate d with
  | .error e => return (.error e, none)
  | .ok () =>
    let count ← d.loadNat offSlotCount 2
    if slot.toNat ≥ count then
      return (.error <| bad "SlottedPage::Update: slot index out of range", none)
    let e := entryAt slot.toNat
    let offset ← d.loadNat e 2
    let oldLen ← d.loadNat (e + 2) 2
    if oldLen = 0 then
      return (.error ⟨.notFound, "slot is deleted"⟩, none)
    if bytes.length ≤ oldLen then
      let d ← d.store offset bytes
      let d ← d.storeNat (e + 2) 2 bytes.length
      return (.ok (), some d)
    let freeStart ← d.loadNat offFreeStart 2
    let freeEnd ← d.loadNat offFreeEnd 2
    if freeEnd - freeStart < bytes.length then
      return (.error ⟨.bufferFull, "record cannot grow in the free region"⟩, none)
    let newOffset := freeEnd - bytes.length
    let d ← d.store newOffset bytes
    let d ← d.storeNat e 2 newOffset
    let d ← d.storeNat (e + 2) 2 bytes.length
    let d ← d.storeNat offFreeEnd 2 newOffset
    return (.ok (), some d)

def delete (d : PageData) (slot : SlotId) : Mem (PageCall Unit) := do
  match ← validate d with
  | .error e => return (.error e, none)
  | .ok () =>
    let count ← d.loadNat offSlotCount 2
    if slot.toNat ≥ count then
      return (.error <| bad "SlottedPage::Delete: slot index out of range", none)
    let e := entryAt slot.toNat
    if (← d.loadNat (e + 2) 2) = 0 then
      return (.error ⟨.notFound, "slot is already deleted"⟩, none)
    let d ← d.storeNat e 2 0
    let d ← d.storeNat (e + 2) 2 0
    return (.ok (), some d)

-- The pre-pass of `Compact`: the sum of the live lengths of the slots from `i` on, of which `n` are
-- left, or `none` inside when the sum leaves the page.
def liveTotal (d : PageData) (i total : Nat) : Nat → Mem (Option Nat)
  | 0     => return some total
  | n + 1 => do
    let length ← d.loadNat (entryAt i + 2) 2
    if length = 0 then
      liveTotal d (i + 1) total n
    else if total + length > pageSize then
      return none
    else
      liveTotal d (i + 1) (total + length) n

-- The packing loop of `Compact`. It returns the page with the rewritten slot entries, the scratch
-- buffer and the lowest byte written there.
def pack (d scratch : PageData) (destEnd i : Nat) : Nat → Mem (PageData × PageData × Nat)
  | 0     => return (d, scratch, destEnd)
  | n + 1 => do
    let offset ← d.loadNat (entryAt i) 2
    let length ← d.loadNat (entryAt i + 2) 2
    if length = 0 then
      pack d scratch destEnd (i + 1) n
    else
      let destEnd := destEnd - length
      let scratch ← scratch.store destEnd (← d.load offset length)
      let d ← d.storeNat (entryAt i) 2 destEnd
      pack d scratch destEnd (i + 1) n

def compact (d : PageData) : Mem (PageCall Unit) := do
  match ← validate d with
  | .error e => return (.error e, none)
  | .ok () =>
    let count ← d.loadNat offSlotCount 2
    let freeStart ← d.loadNat offFreeStart 2
    match ← liveTotal d 0 0 count with
    | none => return (.error <| bad "slotted page: live records exceed the page (corrupt)", none)
    | some total =>
      if total > pageSize - freeStart then
        return (.error <| bad "slotted page: live records do not fit above the directory", none)
      let (d, scratch, destEnd) ← pack d zeroPage pageSize 0 count
      let d ← d.store destEnd (← scratch.load destEnd (pageSize - destEnd))
      let d ← d.storeNat offFreeEnd 2 destEnd
      let d ← if destEnd > freeStart then d.store freeStart (List.replicate (destEnd - freeStart) 0)
              else some d
      return (.ok (), some d)

-- The loop of `Scan` over the slots from `i` on, of which `n` are left. The visitor threads a
-- context through the visits and returns `false` to stop.
def scanSlots (d : PageData) (fn : σ → SlotId → Bytes → σ × Bool) (ctx : σ) (i : Nat) : Nat → Mem σ
  | 0     => return ctx
  | n + 1 => do
    let offset ← d.loadNat (entryAt i) 2
    let length ← d.loadNat (entryAt i + 2) 2
    if length = 0 then
      scanSlots d fn ctx (i + 1) n
    else
      let (ctx, continue_) := fn ctx (UInt16.ofNat i) (← d.load offset length)
      if continue_ then scanSlots d fn ctx (i + 1) n else return ctx

def scan (d : PageData) (fn : σ → SlotId → Bytes → σ × Bool) (ctx : σ) : Mem (Status × σ) := do
  match ← validate d with
  | .error e => return (.error e, ctx)
  | .ok () =>
    let count ← d.loadNat offSlotCount 2
    return (.ok (), ← scanSlots d fn ctx 0 count)

-- The pointers that a caller passes to `Read` and to `Scan` may be null.

def readTo (d : PageData) (slot : SlotId) (outData outLen : Bool) : Mem (Except Error Bytes) :=
  if !outData || !outLen then
    return .error <| bad "SlottedPage::Read: null out-parameter"
  else
    read d slot

def scanWith (d : PageData) (fn : Option (σ → SlotId → Bytes → σ × Bool)) (ctx : σ) : Mem (Status × σ) :=
  match fn with
  | none    => return (.error <| bad "SlottedPage::Scan: null callback", ctx)
  | some fn => scan d fn ctx

end SlottedPage
end NexusDb
