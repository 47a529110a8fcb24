import NexusDb.Storage.Device

namespace NexusDb

structure Frame where
  page     : Page := {}
  pinCount : Nat  := 0
  lastUsed : Nat  := 0
  inUse    : Bool := false

-- The pool together with the storage and the log sink that it points to. `fetches` is only there to
-- count the stamps that were given out, one for each fetch that succeeded.
structure BufferPool (σ : Type) where
  dev         : σ
  capacity    : Nat
  frames      : List Frame
  accessClock : Nat := 0
  fetches     : Nat := 0

-- How the allocations of a `resize` end.
inductive Allocation
  | success
  | badAlloc
  | lengthError

namespace BufferPool

@[simp]
abbrev maxStamp : Nat := 2 ^ 64 - 1

def create (dev : σ) (capacity : Nat) : Except Error (BufferPool σ) :=
  if capacity = 0 then
    .error <| bad "buffer pool capacity must be positive"
  else
    .ok { dev, capacity, frames := List.replicate capacity {} }

def frameAt (p : BufferPool σ) (i : Nat) : Frame :=
  p.frames.getD i {}

def setFrame (p : BufferPool σ) (i : Nat) (f : Frame) : BufferPool σ :=
  { p with frames := p.frames.set i f }

def findFrame (p : BufferPool σ) (id : PageId) : Option Nat :=
  p.frames.findIdx? fun f => f.inUse && f.page.id == id

def size (p : BufferPool σ) : Nat :=
  p.frames.countP (·.inUse)

-- The frames in use, least recently used first, get the stamps 1, 2, 3, ...
def renumberClock (p : BufferPool σ) : BufferPool σ :=
  let order := (List.range p.frames.length).filter (fun i => (p.frameAt i).inUse)
    |>.mergeSort fun i j => (p.frameAt i).lastUsed ≤ (p.frameAt j).lastUsed
  { p with
    frames      := order.zipIdx.foldl (fun fs (i, n) => fs.modify i ({ · with lastUsed := n + 1 })) p.frames
    accessClock := order.length }

def nextTimestamp (p : BufferPool σ) : Nat × BufferPool σ :=
  let p := if p.accessClock = maxStamp then p.renumberClock else p
  let stamp := (p.accessClock + 1) % 2 ^ 64
  (stamp, { p with accessClock := stamp, fetches := p.fetches + 1 })

-- The least recently used frame that is not pinned, the first one of them on a tie. A frame with
-- the greatest stamp is never older than the bound that the search starts with.
def victim (frames : List Frame) : Option Nat :=
  let step := fun (acc : Option Nat × Nat) (fi : Frame × Nat) =>
    if fi.fst.inUse && fi.fst.pinCount == 0 && decide (fi.fst.lastUsed < acc.snd) then
      (some fi.snd, fi.fst.lastUsed)
    else
      acc
  (frames.zipIdx.foldl step (none, maxStamp)).fst

def unpinFrame (p : BufferPool σ) (i : Nat) : BufferPool σ :=
  if i ≥ p.frames.length then
    p
  else
    p.setFrame i { p.frameAt i with pinCount := (p.frameAt i).pinCount - 1 }

-- The loop of `trimFreeFrames`.
def trim (capacity : Nat) (frames : List Frame) : List Frame :=
  if _h : frames.length > capacity ∧ !(frames.getLastD {}).inUse then
    trim capacity frames.dropLast
  else
    frames
termination_by frames.length
decreasing_by simp; omega

def trimFreeFrames (p : BufferPool σ) : BufferPool σ :=
  { p with frames := trim p.capacity p.frames }

-- The frames that a shrink evicts, `none` when there are not enough of them.
def shrinkVictims (p : BufferPool σ) (newCapacity : Nat) : Option (List Nat) :=
  if p.size > newCapacity then
    let needed := p.size - newCapacity
    let victims := (List.range p.frames.length).filter fun i =>
      (p.frameAt i).inUse && (p.frameAt i).pinCount == 0
    if victims.length < needed then
      none
    else
      -- Equal stamps keep the order of the indices.
      some <| (victims.mergeSort fun i j => (p.frameAt i).lastUsed ≤ (p.frameAt j).lastUsed).take needed
  else
    some []

section

variable [Device σ]

def flushFrame (p : BufferPool σ) (i : Nat) : Status × BufferPool σ :=
  let f := p.frameAt i
  if !f.inUse || !f.page.dirty then
    (.ok (), p)
  else
    match Device.beforePageWrite p.dev f.page with
    | (.error e, dev) => (.error e, { p with dev })
    | (.ok (), dev)   =>
      match Device.writePage dev .pool f.page with
      | (.error e, dev) => (.error e, { p with dev })
      | (.ok (), dev)   =>
        (.ok (), { p.setFrame i { f with page := { f.page with dirty := false } } with dev })

def allPinned : Error :=
  ⟨.bufferFull, "all frames are pinned; page cannot be loaded"⟩

def acquireFrame (p : BufferPool σ) : Except Error Nat × BufferPool σ :=
  match if p.size < p.capacity then p.frames.findIdx? (!·.inUse) else none with
  | some i => (.ok i, p)
  | none   =>
    match victim p.frames with
    | none   => (.error allPinned, p)
    | some i =>
      match p.flushFrame i with
      | (.error e, p) => (.error e, p)
      | (.ok (), p)   => (.ok i, p)

-- The frame that a handle for the page then designates.
def fetch (p : BufferPool σ) (id : PageId) : Except Error Nat × BufferPool σ :=
  if id = invalidId then
    (.error <| bad "invalid page id", p)
  else
    match p.findFrame id with
    | some i =>
      let p := p.setFrame i { p.frameAt i with pinCount := (p.frameAt i).pinCount + 1 }
      let (stamp, p) := p.nextTimestamp
      (.ok i, p.setFrame i { p.frameAt i with lastUsed := stamp })
    | none =>
      match Device.readPage p.dev id with
      | (.error e, dev) => (.error e, { p with dev })
      | (.ok page, dev) =>
        match { p with dev }.acquireFrame with
        | (.error e, p) => (.error e, p)
        | (.ok i, p)    =>
          let p := p.setFrame i { p.frameAt i with page, pinCount := 1 }
          let (stamp, p) := p.nextTimestamp
          (.ok i, p.setFrame i { p.frameAt i with lastUsed := stamp, inUse := true })

def flushPage (p : BufferPool σ) (id : PageId) : Status × BufferPool σ :=
  match p.findFrame id with
  | none   => (.error ⟨.notFound, "page " ++ toString id.toNat ++ " is not resident"⟩, p)
  | some i => p.flushFrame i

def firstError : Status → Status → Status
  | .ok (),   s => s
  | .error e, _ => .error e

-- The first error is kept, and the frames after it are still flushed.
def flushEach (p : BufferPool σ) (first : Status) : List Nat → Status × BufferPool σ
  | []      => (first, p)
  | i :: is =>
    if !(p.frameAt i).inUse || !(p.frameAt i).page.dirty then
      p.flushEach first is
    else
      let (s, p) := p.flushFrame i
      p.flushEach (firstError first s) is

def flushAll (p : BufferPool σ) : Status × BufferPool σ :=
  p.flushEach (.ok ()) (List.range p.frames.length)

-- Stops at the first error.
def flushFrames (p : BufferPool σ) : List Nat → Status × BufferPool σ
  | []      => (.ok (), p)
  | i :: is =>
    match p.flushFrame i with
    | (.error e, p) => (.error e, p)
    | (.ok (), p)   => p.flushFrames is

def resize (p : BufferPool σ) (alloc : Allocation) (newCapacity : Nat) : Status × BufferPool σ :=
  if newCapacity = 0 then
    (.error <| bad "buffer pool capacity must be positive", p)
  else if newCapacity = p.capacity then
    (.ok (), p)
  else if newCapacity > p.capacity then
    match if newCapacity > p.frames.length then alloc else .success with
    | .badAlloc    => (.error ⟨.outOfMemory, "cannot allocate frame storage for resize"⟩, p)
    | .lengthError => (.error ⟨.outOfMemory, "requested buffer pool capacity is too large"⟩, p)
    | .success     =>
      (.ok (), { p with
                 frames   := p.frames ++ List.replicate (newCapacity - p.frames.length) {}
                 capacity := newCapacity })
  else
    match if p.size > newCapacity then alloc else .success with
    | .badAlloc    => (.error ⟨.outOfMemory, "cannot allocate frame storage for resize"⟩, p)
    | .lengthError => (.error ⟨.outOfMemory, "requested buffer pool capacity is too large"⟩, p)
    | .success     =>
      match p.shrinkVictims newCapacity with
      | none         =>
        (.error ⟨.bufferFull, "cannot shrink: not enough unpinned frames to evict"⟩, p)
      | some victims =>
        match p.flushFrames victims with
        | (.error e, p) => (.error e, p)
        | (.ok (), p)   =>
          let p := victims.foldl (fun p i => p.setFrame i {}) p
          (.ok (), { p with capacity := newCapacity }.trimFreeFrames)

end

end BufferPool
end NexusDb
