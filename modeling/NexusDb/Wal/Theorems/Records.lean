import NexusDb.Wal.Wal
import NexusDb.Storage.Theorems.PageStorage

open Bytes

namespace NexusDb.Wal

@[simp]
abbrev recordSize : Nat := headerSize + pageImagePayload

theorem recordSize_pos : 0 < recordSize := by
  simp

-- The fields of the record that starts a stream of at least `recordSize` bytes.
def parse (s : Bytes) : ParsedRecord where
  type    := field (s.take 32) 6 2
  lsn     := field (s.take 32) 8 8
  pageId  := UInt32.ofNat (field (s.take 32) 16 4)
  payload := (s.drop 32).take 4096

def checksumOk (s : Bytes) : Prop :=
  UInt32.ofNat (field (s.take 32) 28 4) = crc32 (s.take 32) ((s.drop 32).take 4096)

theorem headerError?_eq_none_iff : headerError? h = none ↔
    h.take 4 = magic ∧ field h 4 2 = 1 ∧ field h 6 2 = 1 ∧ field h 20 4 = 4096 ∧
      UInt32.ofNat (field h 16 4) ≠ invalidId := by
  simp only [headerError?]
  split_ifs <;> simp_all
  omega

-- How a record is read, one lemma for each way of ending.

theorem readRecord_short (h : s.length < 32) : readRecord s = .done (s ≠ []) := by
  have hl : (s.take 32).length = s.length := by simp [h.le]
  cases s
  case nil => rfl
  case cons =>
    rw [readRecord, if_neg (by simp), if_pos (hl ▸ h)]
    simp

theorem readRecord_bad (h : 32 ≤ s.length) (he : headerError? (s.take 32) = some e) :
    readRecord s = .corrupt e := by
  simp [readRecord, Nat.min_eq_left h, he]

theorem readRecord_torn (h : 32 ≤ s.length) (he : headerError? (s.take 32) = none)
    (hl : s.length < 4128) : readRecord s = .done true := by
  have hf := (headerError?_eq_none_iff.mp he).right.right.right.left
  simp [readRecord, Nat.min_eq_left h, he, hf, Nat.sub_lt_iff_lt_add h, hl]

theorem readRecord_mismatch (h : 4128 ≤ s.length) (he : headerError? (s.take 32) = none)
    (hc : ¬checksumOk s) : readRecord s = .corrupt "wal: record checksum mismatch" := by
  have hf := (headerError?_eq_none_iff.mp he).right.right.right.left
  have h₁ : 32 ≤ s.length := by omega
  have h₂ : ¬s.length < 4128 := by omega
  simp only [checksumOk] at hc
  simp [readRecord, Nat.min_eq_left h₁, he, hf, Nat.sub_lt_iff_lt_add h₁, h₂, hc]

theorem readRecord_full (h : 4128 ≤ s.length) (he : headerError? (s.take 32) = none)
    (hc : checksumOk s) : readRecord s = .record (parse s) (s.drop 4128) := by
  have hf := (headerError?_eq_none_iff.mp he).right.right.right.left
  have h₁ : 32 ≤ s.length := by omega
  have h₂ : ¬s.length < 4128 := by omega
  simp only [checksumOk] at hc
  simp [readRecord, Nat.min_eq_left h₁, he, hf, Nat.sub_lt_iff_lt_add h₁, h₂, hc, parse]

theorem readRecord_cases (s : Bytes) :
    (s.length < 4128 ∧ readRecord s = .done (s ≠ [])) ∨
    (∃ e, readRecord s = .corrupt e) ∨
    (4128 ≤ s.length ∧ headerError? (s.take 32) = none ∧ checksumOk s ∧
      readRecord s = .record (parse s) (s.drop 4128)) := by
  cases Nat.lt_or_ge s.length 32
  case inl h => exact .inl ⟨by omega, readRecord_short h⟩
  case inr h =>
    cases he : headerError? (s.take 32)
    case some => exact .inr <| .inl ⟨_, readRecord_bad h he⟩
    case none =>
      cases Nat.lt_or_ge s.length 4128
      case inl hl =>
        have hs : s ≠ [] := List.ne_nil_of_length_pos (by omega)
        exact .inl ⟨hl, by simpa [hs] using readRecord_torn h he hl⟩
      case inr hl =>
        by_cases hc : checksumOk s
        case pos => exact .inr <| .inr ⟨hl, rfl, hc, readRecord_full hl he hc⟩
        case neg => exact .inr <| .inl ⟨_, readRecord_mismatch hl he hc⟩

theorem readRecord_eq_record (h : readRecord s = .record r rest) :
    4128 ≤ s.length ∧ headerError? (s.take 32) = none ∧ checksumOk s ∧ r = parse s ∧
      rest = s.drop 4128 := by
  rcases readRecord_cases s with ⟨_, h'⟩ | ⟨_, h'⟩ | ⟨hl, he, hc, h'⟩ <;> rw [h'] at h <;> cases h
  exact ⟨hl, he, hc, rfl, rfl⟩

theorem readRecord_framed (h : readRecord s = .record r rest) : 4128 ≤ s.length ∧ rest = s.drop 4128 := by
  have ⟨hl, _, _, _, hr⟩ := readRecord_eq_record h
  exact ⟨hl, hr⟩

theorem readRecord_nil : readRecord [] = .done false :=
  rfl

theorem readRecord_eq_done (h : readRecord s = .done t) : s.length < 4128 ∧ t = !s.isEmpty := by
  rcases readRecord_cases s with ⟨hl, h'⟩ | ⟨_, h'⟩ | ⟨_, _, _, h'⟩ <;> rw [h'] at h <;> cases h
  cases s <;> simp_all

-- Only the first `recordSize` bytes matter.
theorem readRecord_local (h : readRecord s = .record r rest) :
    readRecord (s.take 4128 ++ u) = .record r u := by
  have ⟨hl, he, hc, hr, _⟩ := readRecord_eq_record h
  have hh : (s.take 4128 ++ u).take 32 = s.take 32 := by
    simp [List.take_append, List.take_take, Nat.min_eq_left hl]
  have hp : ((s.take 4128 ++ u).drop 32).take 4096 = (s.drop 32).take 4096 := by
    have hm : 4096 - min 4096 (s.length - 32) = 0 := by omega
    simp [List.drop_append, List.take_append, List.drop_take, List.take_take, Nat.min_eq_left hl, hm]
  rw [readRecord_full (by simp [hl]) (hh ▸ he) (by simpa only [checksumOk, hh, hp] using hc), hr]
  simp [parse, hh, hp, Nat.min_eq_left hl]

theorem readRecord_take (h : readRecord s = .record r rest) (hj : j < 4128) :
    readRecord (s.take j) = .done (j ≠ 0) := by
  have ⟨hl, he, _⟩ := readRecord_eq_record h
  have hs : s ≠ [] := List.ne_nil_of_length_pos (by omega)
  have hlj : (s.take j).length = j := by simp; omega
  cases Nat.lt_or_ge j 32
  case inl hj => simpa [hs] using readRecord_short (s := s.take j) (by omega)
  case inr hj' =>
    have hh : (s.take j).take 32 = s.take 32 := by rw [List.take_take, Nat.min_eq_left hj']
    have hz : j ≠ 0 := by omega
    simpa [hz] using readRecord_torn (s := s.take j) (by omega) (hh ▸ he) (by omega)

def reader : RecordReader ParsedRecord String where
  read       := readRecord
  size       := recordSize
  size_pos   := recordSize_pos
  framed     := readRecord_framed
  local_     := readRecord_local
  torn       := readRecord_take
  read_nil   := readRecord_nil
  done_short := readRecord_eq_done

@[simp]
theorem reader_read : reader.read = readRecord :=
  rfl

@[simp]
theorem reader_size : reader.size = 4128 :=
  rfl

-- Reading back what `appendPageImage` writes.

section

variable {lsn : Nat} {id : PageId} {data : Bytes}

@[simp]
theorem length_headerFields : (headerFields lsn id).length = 28 := by
  simp [headerFields, magic]

@[simp]
theorem length_encodeRecord : (encodeRecord lsn id data).length = 32 + data.length := by
  simp [encodeRecord]
  omega

theorem take_encodeRecord (lsn : Nat) (id : PageId) (data u : Bytes) :
    (encodeRecord lsn id data ++ u).take 32 =
      headerFields lsn id ++ leBytes 4 (crc32 (headerFields lsn id) data).toNat := by
  have h : (headerFields lsn id).length ≤ 32 := by simp
  simp [encodeRecord, List.take_append, List.take_of_length_le h]

theorem drop_encodeRecord : (encodeRecord lsn id data ++ u).drop 32 = data ++ u := by
  have h : (headerFields lsn id).length ≤ 32 := by simp
  simp [encodeRecord, List.drop_append, List.drop_of_length_le h]

theorem field_skip {a b : Bytes} (h : a.length ≤ off) :
    field (a ++ b) off n = field b (off - a.length) n := by
  simp [field, List.drop_append, List.drop_of_length_le h]

theorem field_here {a b : Bytes} (h : a.length = n) : field (a ++ b) 0 n = leNat a := by
  simp [field, ← h]

@[simp]
theorem length_magic : magic.length = 4 := by
  decide

variable {c : Bytes}

theorem field_version : field (headerFields lsn id ++ c) 4 2 = 1 := by
  simp [headerFields, field_skip, field_here, leNat_leBytes]

theorem field_type : field (headerFields lsn id ++ c) 6 2 = 1 := by
  simp [headerFields, field_skip, field_here, leNat_leBytes]

theorem field_lsn (h : lsn < 2 ^ 64) : field (headerFields lsn id ++ c) 8 8 = lsn := by
  simpa [headerFields, field_skip, field_here, leNat_leBytes] using h

theorem field_pageId : field (headerFields lsn id ++ c) 16 4 = id.toNat := by
  simp [headerFields, field_skip, field_here, leNat_leBytes, Nat.mod_eq_of_lt id.toNat_lt]

theorem field_payloadLen : field (headerFields lsn id ++ c) 20 4 = 4096 := by
  simp [headerFields, field_skip, field_here, leNat_leBytes]

theorem field_checksum {crc : UInt32} :
    field (headerFields lsn id ++ leBytes 4 crc.toNat) 28 4 = crc.toNat := by
  rw [field_skip (by simp), length_headerFields, ← List.append_nil (leBytes _ _),
    field_here (length_leBytes _ _), leNat_leBytes_of_lt crc.toNat_lt]

theorem headerError?_headerFields (h : id ≠ invalidId) :
    headerError? (headerFields lsn id ++ c) = none := by
  rw [headerError?_eq_none_iff, field_version, field_type, field_payloadLen, field_pageId]
  refine ⟨?_, rfl, rfl, rfl, ?_⟩
  · simp [headerFields, magic]
  · simpa using h

theorem readRecord_encodeRecord (hl : lsn < 2 ^ 64) (hi : id ≠ invalidId) (hd : data.length = 4096)
    (u : Bytes) :
    readRecord (encodeRecord lsn id data ++ u) =
      .record { type := 1, lsn, pageId := id, payload := data } u := by
  have ht := take_encodeRecord lsn id data u
  have hp : ((encodeRecord lsn id data ++ u).drop 32).take 4096 = data := by
    rw [drop_encodeRecord, ← hd, List.take_left]
  have hr : (encodeRecord lsn id data ++ u).drop 4128 = u := by
    rw [List.drop_left' (by simp [hd])]
  have hc : checksumOk (encodeRecord lsn id data ++ u) := by
    rw [checksumOk, hp, ht, field_checksum]
    have h : (headerFields lsn id).length ≤ 28 := by simp
    simp [crc32, List.take_of_length_le h]
  rw [readRecord_full (by simp [hd]) (ht ▸ headerError?_headerFields hi) hc, hr]
  simp [parse, ht, hp, field_type, field_lsn hl, field_pageId]

end

end NexusDb.Wal
