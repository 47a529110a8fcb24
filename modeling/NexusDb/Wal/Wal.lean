import NexusDb.Storage.PageStorage
import NexusDb.General.RecordStream

open Bytes

namespace NexusDb

structure ParsedRecord where
  type    : Nat
  lsn     : Nat
  pageId  : PageId
  payload : Bytes

-- What the environment does to one write on a file stream. A write that fails may still have put
-- a prefix of its bytes into the file.
inductive IoResult
  | success
  | failure (written : Nat)

-- The log object together with the file it has open. Bytes that were written to the stream and not
-- flushed yet are pending. A stream that has failed once stays bad.
--
-- The stream appends: `open` asks for that, and after `reset` its put position starts at the
-- beginning of an empty file that nothing else writes to.
structure Wal where
  file       : Bytes
  pending    : Bytes := []
  good       : Bool  := true
  isOpen     : Bool  := true
  nextLsn    : Nat   := 1
  durableLsn : Nat   := 0

structure RecoveryStats where
  recordsApplied : Nat  := 0
  lastLsn        : Nat  := 0
  truncatedTail  : Bool := false

-- What `recover` returns and leaves, and the pages it wrote, in order.
@[ext]
structure Recovery where
  result  : Except Error RecoveryStats
  storage : PageStorage
  written : List Page

namespace Wal

@[simp]
abbrev headerSize : Nat := 32
@[simp]
abbrev version : Nat := 1
@[simp]
abbrev maxPayload : Nat := 64 * 1024
@[simp]
abbrev pageImagePayload : Nat := pageSize
@[simp]
abbrev pageImage : Nat := 1

-- 'N', 'W', 'A', '1'
def magic : Bytes := [0x4E, 0x57, 0x41, 0x31]

@[simp]
abbrev offMagic : Nat := 0
@[simp]
abbrev offVersion : Nat := 4
@[simp]
abbrev offType : Nat := 6
@[simp]
abbrev offLsn : Nat := 8
@[simp]
abbrev offPageId : Nat := 16
@[simp]
abbrev offPayloadLen : Nat := 20
@[simp]
abbrev offChecksum : Nat := 28

-- No file is longer: positions in a stream are signed 64-bit numbers.
@[simp]
abbrev maxFileSize : Nat := 2 ^ 63 - 1

def crc32Step (crc : UInt32) : UInt32 :=
  (crc >>> 1) ^^^ (0xEDB88320 &&& (0 - (crc &&& 1)))

def crc32Update (crc : UInt32) (data : Bytes) : UInt32 :=
  data.foldl (fun crc b => Nat.repeat crc32Step 8 (crc ^^^ b.toUInt32)) crc

def crc32 (header payload : Bytes) : UInt32 :=
  crc32Update (crc32Update 0xFFFFFFFF (header.take offChecksum)) payload ^^^ 0xFFFFFFFF

def field (header : Bytes) (off w : Nat) : Nat :=
  leNat ((header.drop off).take w)

-- The checks on a complete header, in the order in which they are made.
def headerError? (header : Bytes) : Option String :=
  if header.take 4 ≠ magic then
    some "wal: record has bad magic"
  else if field header offVersion 2 ≠ version then
    some "wal: unsupported record version"
  else if field header offType 2 ≠ pageImage then
    some "wal: unknown record type"
  else if field header offPayloadLen 4 > maxPayload then
    some "wal: payload length out of range"
  else if field header offPayloadLen 4 ≠ pageImagePayload then
    some "wal: page image has an unexpected length"
  else if UInt32.ofNat (field header offPageId 4) = invalidId then
    some "wal: record names an invalid page"
  else
    none

def readRecord (s : Bytes) : ReadResult ParsedRecord String :=
  let header := s.take headerSize
  if header.length = 0 then
    .done false
  else if header.length < headerSize then
    .done true
  else
    match headerError? header with
    | some err => .corrupt err
    | none     =>
      let payload := (s.drop headerSize).take (field header offPayloadLen 4)
      if payload.length < field header offPayloadLen 4 then
        .done true
      else if UInt32.ofNat (field header offChecksum 4) ≠ crc32 header payload then
        .corrupt "wal: record checksum mismatch"
      else
        .record { type := field header offType 2, lsn := field header offLsn 8,
                  pageId := UInt32.ofNat (field header offPageId 4), payload }
          (s.drop (headerSize + field header offPayloadLen 4))

-- The header of a record without its checksum, which is computed over it.
def headerFields (lsn : Nat) (pageId : PageId) : Bytes :=
  magic ++ leBytes 2 version ++ leBytes 2 pageImage ++ leBytes 8 lsn ++ leBytes 4 pageId.toNat
    ++ leBytes 4 pageImagePayload ++ leBytes 4 0

def encodeRecord (lsn : Nat) (pageId : PageId) (data : Bytes) : Bytes :=
  let header := headerFields lsn pageId
  header ++ leBytes 4 (crc32 header data).toNat ++ data

-- A stream goes bad after a failed write, with what had reached the file by then.
def fail (w : Wal) (bytes : Bytes) (written : Nat) : Wal :=
  { w with good := false, pending := [], file := w.file ++ bytes.take written }

def appendPageImage (w : Wal) (io : IoResult) (pageId : PageId) (data : Option Bytes) :
    Except Error Nat × Wal :=
  let bytes := data.getD []
  let failed : Error := ⟨.ioError, "wal: append failed at lsn " ++ toString w.nextLsn⟩
  if !w.isOpen then
    (.error <| badState "Wal::AppendPageImage: log is closed", w)
  else if bytes.length ≠ pageImagePayload then
    (.error <| bad "Wal::AppendPageImage: bad data or length", w)
  else if pageId = invalidId then
    (.error <| bad "Wal::AppendPageImage: invalid page id", w)
  else if !w.good then
    (.error failed, w)
  else
    let record := encodeRecord w.nextLsn pageId bytes
    if (w.file ++ w.pending ++ record).length > maxFileSize then
      (.error failed, w.fail (w.pending ++ record) 0)
    else
      match io with
      | .failure n => (.error failed, w.fail (w.pending ++ record) n)
      | .success   => (.ok w.nextLsn, { w with pending := w.pending ++ record,
                                               nextLsn := (w.nextLsn + 1) % 2 ^ 64 })

def flush (w : Wal) (io : IoResult) : Status × Wal :=
  if !w.isOpen then
    (.error <| badState "Wal::Flush: log is closed", w)
  else if !w.good then
    (.error ⟨.ioError, "wal: flush failed"⟩, w)
  else
    match io with
    | .failure n => (.error ⟨.ioError, "wal: flush failed"⟩, w.fail w.pending n)
    | .success   => (.ok (), { w with file := w.file ++ w.pending, pending := [],
                                      durableLsn := (w.nextLsn + (2 ^ 64 - 1)) % 2 ^ 64 })

def beforePageWrite (w : Wal) (io₁ io₂ : IoResult) (page : Page) : Status × Wal :=
  if page.id = invalidId then
    (.error <| bad "Wal::BeforePageWrite: invalid page", w)
  else
    match w.appendPageImage io₁ page.id (some page.data.toBytes) with
    | (.error e, w) => (.error e, w)
    | (.ok _, w)    => w.flush io₂

theorem readRecord_lt (h : readRecord s = .record r rest) : rest.length < s.length := by
  simp only [readRecord] at h
  split_ifs at h with h₁ h₂ <;> split at h <;> cases h
  simp at h₁ h₂ ⊢
  omega

-- The loop of `Scan`. It returns the last sequence number and whether the tail was truncated.
def scan (s : Bytes) (lastLsn : Nat) : Except Error (Nat × Bool) :=
  match _h : readRecord s with
  | .done tail     => .ok (lastLsn, tail)
  | .corrupt err   => .error <| badState err
  | .record r rest =>
    if r.lsn ≤ lastLsn then
      .error <| badState "wal: log sequence numbers are not increasing"
    else
      scan rest r.lsn
termination_by s.length
decreasing_by exact readRecord_lt _h

-- The argument is the contents of the log file. A missing file is created empty first.
def «open» (file : Bytes) : Except Error Wal := do
  let (lastLsn, _) ← scan file 0
  return { file, nextLsn := (lastLsn + 1) % 2 ^ 64, durableLsn := lastLsn }

def close (w : Wal) (io : IoResult) : Status × Wal :=
  if !w.isOpen then
    (.ok (), w)
  else
    let (s, w) := w.flush io
    (s, { w with isOpen := false })

-- The loop of `Recover`, with the pages written so far.
def recoverFrom (s : Bytes) (storage : PageStorage) (lastLsn : Nat) (written : List Page) : Recovery :=
  match _h : readRecord s with
  | .done tail     => ⟨.ok ⟨written.length, lastLsn, tail⟩, storage, written⟩
  | .corrupt err   => ⟨.error <| badState err, storage, written⟩
  | .record r rest =>
    if r.lsn ≤ lastLsn then
      ⟨.error <| badState "wal: log sequence numbers are not increasing", storage, written⟩
    else if !storage.pageExists r.pageId then
      ⟨.error <| badState "wal: record names an unallocated page", storage, written⟩
    else
      let page : Page := { id := r.pageId, data := ByteBlock.ofBytes 4096 r.payload }
      match storage.writePage page with
      | (.error e, storage) => ⟨.error e, storage, written⟩
      | (.ok (), storage)   => recoverFrom rest storage r.lsn (written ++ [page])
termination_by s.length
decreasing_by exact readRecord_lt _h

def recover (w : Wal) (storage : PageStorage) : Recovery :=
  if !w.isOpen then
    ⟨.error <| badState "Wal::Recover: log is closed", storage, []⟩
  else
    recoverFrom w.file storage 0 []

def reset (w : Wal) : Status × Wal :=
  if !w.isOpen then
    (.error <| badState "Wal::Reset: log is closed", w)
  else
    (.ok (), { file := [] })

end Wal
end NexusDb
