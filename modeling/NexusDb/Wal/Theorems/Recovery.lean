import NexusDb.Wal.Theorems.Records

open RecordReader (Ending)

namespace NexusDb

namespace ParsedRecord

-- The page that recovery writes for a record.
def page (r : ParsedRecord) : Page :=
  { id := r.pageId, data := ByteBlock.ofBytes 4096 r.payload }

def image (r : ParsedRecord) : PageId × PageData :=
  (r.pageId, r.page.data)

end ParsedRecord

namespace PageStorage

theorem writePage_of_pageExists {s : PageStorage} (h : s.pageExists p.id) :
    s.writePage p = (.ok (), s.setPage p.id p.data) := by
  have hl := pageExists_iff.mp h
  have hi : p.id ≠ invalidId := by
    intro he
    have := s.bound
    simp only [he, invalidId, UInt32.reduceToNat] at hl
    omega
  have hn : ¬s.numPages ≤ p.id := by simpa [pageExists] using h
  simp [writePage, hi, hn]

end PageStorage

namespace Wal

def Increasing : Nat → List ParsedRecord → Prop
  | _,       []      => True
  | lastLsn, r :: rs => lastLsn < r.lsn ∧ Increasing r.lsn rs

def lastLsn : Nat → List ParsedRecord → Nat
  | last, []      => last
  | _,    r :: rs => lastLsn r.lsn rs

-- The loops of `scan` and `recover` on the records of a log instead of its bytes.

def scanRecords : Nat → List ParsedRecord → Ending String → Except Error (Nat × Bool)
  | last, [],      .tail left  => .ok (last, !left.isEmpty)
  | _,    [],      .corrupt e  => .error <| badState e
  | last, r :: rs, ending =>
    if r.lsn ≤ last then
      .error <| badState "wal: log sequence numbers are not increasing"
    else
      scanRecords r.lsn rs ending

def recoverRecords (storage : PageStorage) (last : Nat) (written : List Page) :
    List ParsedRecord → Ending String → Recovery
  | [],      .tail left => ⟨.ok ⟨written.length, last, !left.isEmpty⟩, storage, written⟩
  | [],      .corrupt e => ⟨.error <| badState e, storage, written⟩
  | r :: rs, ending =>
    if r.lsn ≤ last then
      ⟨.error <| badState "wal: log sequence numbers are not increasing", storage, written⟩
    else if !storage.pageExists r.pageId then
      ⟨.error <| badState "wal: record names an unallocated page", storage, written⟩
    else
      recoverRecords (storage.setPage r.pageId r.page.data) r.lsn (written ++ [r.page]) rs ending

theorem scan_eq (s : Bytes) (last : Nat) :
    scan s last = scanRecords last (reader.all s).fst (reader.all s).snd := by
  rcases h : readRecord s with ⟨r, rest⟩ | t | e
  · have hi := scan_eq rest r.lsn
    rw [reader.all_record h, scan, scanRecords]
    split <;> simp_all
  · obtain ⟨_, ht⟩ := readRecord_eq_done h
    rw [reader.all_done h, scan, scanRecords]
    split <;> simp_all
  · rw [reader.all_corrupt h, scan, scanRecords]
    split <;> simp_all
termination_by s.length
decreasing_by exact readRecord_lt h

theorem recoverFrom_eq (s : Bytes) (storage : PageStorage) (last : Nat) (written : List Page) :
    recoverFrom s storage last written =
      recoverRecords storage last written (reader.all s).fst (reader.all s).snd := by
  rcases h : readRecord s with ⟨r, rest⟩ | t | e
  · have hi := recoverFrom_eq rest (storage.setPage r.pageId r.page.data) r.lsn (written ++ [r.page])
    rw [reader.all_record h, recoverFrom, recoverRecords, ← hi]
    split
    case h_3 _ _ h' =>
      cases h.symm.trans h'
      by_cases he : storage.pageExists r.pageId
      case pos => simp [he, PageStorage.writePage_of_pageExists, ParsedRecord.page]
      case neg => simp [he]
    all_goals simp_all
  · obtain ⟨_, ht⟩ := readRecord_eq_done h
    rw [reader.all_done h, recoverFrom, recoverRecords]
    split <;> simp_all
  · rw [reader.all_corrupt h, recoverFrom, recoverRecords]
    split <;> simp_all
termination_by s.length
decreasing_by exact readRecord_lt h

-- The records that recovery applies: those before the first one that it rejects.
def accepted (storage : PageStorage) : Nat → List ParsedRecord → List ParsedRecord
  | _,    []      => []
  | last, r :: rs =>
    if r.lsn ≤ last ∨ !storage.pageExists r.pageId then
      []
    else
      r :: accepted storage r.lsn rs

variable {storage : PageStorage} {rs : List ParsedRecord} {ending : Ending String}

theorem accepted_setPage : accepted (storage.setPage i d) last rs = accepted storage last rs := by
  induction rs generalizing last <;> simp [accepted, *]

theorem accepted_pageExists (h : r ∈ accepted storage last rs) : storage.pageExists r.pageId := by
  induction rs generalizing last
  case nil => cases h
  case cons r' rs hi =>
    rw [accepted] at h
    split at h
    case isTrue => cases h
    case isFalse hr =>
      cases h
      case head => simp_all
      case tail h => exact hi h

theorem accepted_eq_self (hi : Increasing last rs) (he : ∀ r ∈ rs, storage.pageExists r.pageId) :
    accepted storage last rs = rs := by
  induction rs generalizing last
  case nil => rfl
  case cons r rs ih =>
    have ⟨hl, hi⟩ := hi
    have he' := he r List.mem_cons_self
    rw [accepted, if_neg (by simp [he', hl]), ih hi fun r h => he r <| List.mem_cons_of_mem _ h]

theorem scanRecords_eq_ok_iff :
    scanRecords last rs ending = .ok (l, t) ↔
      Increasing last rs ∧ l = lastLsn last rs ∧ ∃ left, ending = .tail left ∧ t = !left.isEmpty := by
  induction rs generalizing last
  case nil => cases ending <;> simp [scanRecords, Increasing, lastLsn, eq_comm]
  case cons r rs hi =>
    rw [scanRecords, Increasing, lastLsn]
    split
    case isTrue h => simp [Nat.not_lt.mpr h]
    case isFalse h => rw [hi, and_iff_right (Nat.not_le.mp h)]

-- Exactly the accepted records are applied.
theorem recoverRecords_accepted :
    (recoverRecords storage last written rs ending).storage =
        storage.replay ((accepted storage last rs).map ParsedRecord.image) ∧
      (recoverRecords storage last written rs ending).written =
        written ++ (accepted storage last rs).map ParsedRecord.page := by
  induction rs generalizing storage last written
  case nil => cases ending <;> simp [recoverRecords, accepted]
  case cons r rs hi =>
    by_cases hl : r.lsn ≤ last
    case pos => simp [recoverRecords, accepted, hl]
    case neg =>
      cases he : storage.pageExists r.pageId
      case false => simp [recoverRecords, accepted, hl, he]
      case true => simp [recoverRecords, accepted, hl, he, hi, accepted_setPage, ParsedRecord.image]

theorem recoverRecords_result (hi : Increasing last rs) (he : ∀ r ∈ rs, storage.pageExists r.pageId) :
    (recoverRecords storage last written rs (.tail left)).result =
      .ok ⟨written.length + rs.length, lastLsn last rs, !left.isEmpty⟩ := by
  induction rs generalizing storage last written
  case nil => rfl
  case cons r rs ih =>
    have ⟨hl, hi⟩ := hi
    rw [recoverRecords, if_neg (Nat.not_le.mpr hl), if_neg (by simp [he]),
      ih hi fun r h => by simpa using he r <| List.mem_cons_of_mem _ h]
    simp [lastLsn, Nat.add_comm, Nat.add_left_comm]

-- What `open` accepts and what `recover` then does, in terms of the records of the file.

theorem open_eq_ok_iff :
    Wal.open s = .ok w ↔
      Increasing 0 (reader.all s).fst ∧ (∃ left, (reader.all s).snd = .tail left) ∧
        w = { file := s, nextLsn := (lastLsn 0 (reader.all s).fst + 1) % 2 ^ 64,
              durableLsn := lastLsn 0 (reader.all s).fst } := by
  rw [Wal.open, scan_eq]
  cases h : scanRecords 0 (reader.all s).fst (reader.all s).snd
  case ok l =>
    have ⟨hi, hl, left, he, _⟩ := scanRecords_eq_ok_iff.mp h
    simp [Bind.bind, Except.bind, pure, Except.pure, hi, hl, he, eq_comm]
  case error =>
    have hn : ¬(Increasing 0 (reader.all s).fst ∧ ∃ left, (reader.all s).snd = .tail left) := by
      intro ⟨hi, left, he⟩
      rw [scanRecords_eq_ok_iff.mpr ⟨hi, rfl, left, he, rfl⟩] at h
      cases h
    simp [Bind.bind, Except.bind]
    exact fun hi left he => absurd ⟨hi, left, he⟩ hn

theorem recover_eq {w : Wal} (h : w.isOpen) :
    w.recover storage =
      recoverRecords storage 0 [] (reader.all w.file).fst (reader.all w.file).snd := by
  simp [recover, h, recoverFrom_eq]

theorem recover_of_accepted {w : Wal} (h : w.isOpen) (hr : reader.all w.file = (rs, .tail left))
    (hi : Increasing 0 rs) (he : ∀ r ∈ rs, storage.pageExists r.pageId) :
    w.recover storage =
      ⟨.ok ⟨rs.length, lastLsn 0 rs, !left.isEmpty⟩, storage.replay (rs.map ParsedRecord.image),
       rs.map ParsedRecord.page⟩ := by
  rw [recover_eq h, hr]
  ext1
  case result => simp [recoverRecords_result hi he]
  case storage => rw [recoverRecords_accepted.left, accepted_eq_self hi he]
  case written => rw [recoverRecords_accepted.right, accepted_eq_self hi he, List.nil_append]

end Wal
end NexusDb
