import NexusDb.Wal.Theorems.Log

open Bytes
open RecordReader (Frames)

namespace NexusDb.Wal

-- Appending one page image to the log that `w` has open, flushing and closing it, yields a log that
-- is accepted and whose recovery applies the records that it had before and then the new one.
def Resumes (w : Wal) : Prop :=
  ∀ id d lsn w₁, w.appendPageImage .success id (some (ByteBlock.toBytes d)) = (.ok lsn, w₁) →
    ∃ w₂, Wal.open ((w₁.flush .success).snd.close .success).snd.file = .ok w₂ ∧
      ∀ storage, (∀ r ∈ (reader.all w.file).fst, storage.pageExists r.pageId) →
        storage.pageExists id →
          (w₂.recover storage).written = (w.recover storage).written ++ [{ id, data := d }] ∧
          ∃ stats, (w₂.recover storage).result = .ok stats

-- A file with as many pages as there are ids.
theorem exists_all_pages : ∃ storage : PageStorage, ∀ i, i ≠ invalidId → storage.pageExists i := by
  have ⟨n, hn⟩ : ∃ n, n = 2 ^ 32 - 1 := ⟨_, rfl⟩
  refine ⟨⟨List.replicate n zeroPage, by rw [List.length_replicate]; omega⟩, fun i h => ?_⟩
  have hl := i.toNat_lt
  have hi : i.toNat ≠ 4294967295 := fun hi => h <| UInt32.toNat_inj.mp hi
  rw [PageStorage.pageExists_iff, List.length_replicate]
  omega

theorem parse_lsn_lt (s : Bytes) : (parse s).lsn < 2 ^ 64 := by
  have h := leNat_lt ((s.take 32).drop 8 |>.take 8)
  exact lt_of_lt_of_le h <| Nat.pow_le_pow_right (Nat.succ_pos 255) (List.length_take_le 8 _)

theorem frames_lsn_lt (h : Frames reader rs s) : ∀ r ∈ rs, r.lsn < 2 ^ 64 := by
  induction h
  case nil => exact nofun
  case cons f r rs s _ read _ hi =>
    have ⟨_, _, _, hr, _⟩ := readRecord_eq_record (read [])
    intro r' h'
    cases h'
    case head => exact hr ▸ parse_lsn_lt _
    case tail h => exact hi r' h

theorem frames_pageId_ne (h : Frames reader rs s) : ∀ r ∈ rs, r.pageId ≠ invalidId := by
  induction h
  case nil => exact nofun
  case cons f r rs s _ read _ hi =>
    have ⟨_, he, _, hr, _⟩ := readRecord_eq_record (read [])
    intro r' h'
    cases h'
    case head => exact hr ▸ (headerError?_eq_none_iff.mp he).right.right.right.right
    case tail h => exact hi r' h

theorem lastLsn_lt (hl : last < 2 ^ 64) (h : ∀ r ∈ rs, r.lsn < 2 ^ 64) : lastLsn last rs < 2 ^ 64 := by
  induction rs generalizing last
  case nil => exact hl
  case cons r rs hi =>
    exact hi (h r List.mem_cons_self) fun r hr => h r <| List.mem_cons_of_mem _ hr

theorem increasing_append :
    Increasing last (rs ++ rs') ↔ Increasing last rs ∧ Increasing (lastLsn last rs) rs' := by
  induction rs generalizing last <;> simp [Increasing, lastLsn, and_assoc, *]

-- The first bytes of every header that is accepted.
theorem take_of_headerError? (h : headerError? s = none) (hl : 8 ≤ s.length) :
    s.take 8 = magic ++ [1, 0, 1, 0] := by
  have ⟨hm, hv, ht, _⟩ := headerError?_eq_none_iff.mp h
  have hf : ∀ {off}, off + 2 ≤ s.length → field s off 2 = 1 → (s.drop off).take 2 = [1, 0] := by
    intro off ho hf
    have hb := leBytes_leNat ((s.drop off).take 2)
    have hl : ((s.drop off).take 2).length = 2 := by simp; omega
    rw [field] at hf
    rw [hl, hf] at hb
    exact hb.symm
  have hs : s.take 8 = s.take 4 ++ ((s.drop 4).take 2 ++ (s.drop 6).take 2) := by
    have h₄ : (s.drop 4).take (2 + 2) = (s.drop 4).take 2 ++ (s.drop 6).take 2 := by
      rw [List.take_add, List.drop_drop]
    rw [← h₄]
    exact List.take_add (i := 4) (j := 4)
  rw [hs, hm, hf (by omega) hv, hf (by omega) ht]
  rfl

theorem encodeRecord_first : (encodeRecord lsn i data)[0]? = some 0x4E := by
  simp [encodeRecord, headerFields, magic]

-- The reserved bytes are zero.
theorem encodeRecord_reserved : (encodeRecord lsn i data)[24]? = some 0 := by
  simp [encodeRecord, headerFields, List.getElem?_append]
  rfl

-- A record that follows an incomplete one is not read back: the reader takes the incomplete one and
-- the start of the new record for one record, whose payload is not the one that was appended.
theorem torn_misread {left : Bytes} (hz : 0 < left.length) (hl : left.length < 4128)
    (h : readRecord (left ++ encodeRecord lsn i data) = .record r rest) :
    ∃ b ∈ r.payload, b ≠ 0xFF := by
  have ⟨hlen, he, _, hr, _⟩ := readRecord_eq_record h
  subst hr
  have hg : ∀ {k b}, (encodeRecord lsn i data)[k]? = some b →
      (left ++ encodeRecord lsn i data)[left.length + k]? = some b := by
    intro k b hk
    rw [List.getElem?_append_right (by omega), Nat.add_sub_cancel_left, hk]
  -- The byte at position `32 + j` of the stream is byte `j` of the payload.
  have hm : ∀ {j b}, j < 4096 → (left ++ encodeRecord lsn i data)[32 + j]? = some b →
      b ∈ (parse (left ++ encodeRecord lsn i data)).payload := by
    intro j b hj hb
    apply List.mem_of_getElem? (i := j)
    rw [parse, List.getElem?_take_of_lt hj, List.getElem?_drop, hb]
  cases Nat.lt_or_ge left.length 8
  case inl h₈ =>
    -- The new record starts inside of the fields with a fixed value.
    have ht := take_of_headerError? he (by simp at hlen ⊢; omega)
    rw [List.take_take, Nat.min_eq_left (by decide)] at ht
    have hb := hg encodeRecord_first
    rw [Nat.add_zero, ← List.getElem?_take_of_lt h₈, ht] at hb
    have hn : ∀ t < 8, 0 < t → (magic ++ [1, 0, 1, 0])[t]? ≠ some 0x4E := by decide
    exact absurd hb <| hn _ h₈ hz
  case inr h₈ =>
    cases Nat.lt_or_ge left.length 32
    case inl h₃₂ =>
      refine ⟨0, hm (j := left.length - 8) (by omega) ?_, by decide⟩
      rw [show 32 + (left.length - 8) = left.length + 24 by omega]
      exact hg encodeRecord_reserved
    case inr h₃₂ =>
      refine ⟨0x4E, hm (j := left.length - 32) (by omega) ?_, by decide⟩
      rw [show 32 + (left.length - 32) = left.length + 0 by omega]
      exact hg encodeRecord_first

-- What an accepted file consists of.
theorem open_frames (h : Wal.open s = .ok w) :
    ∃ rs s₁ left, s = s₁ ++ left ∧ Frames reader rs s₁ ∧ left.length < 4128 ∧
      reader.all s = (rs, .tail left) ∧ Increasing 0 rs ∧
      w = { file := s, nextLsn := (lastLsn 0 rs + 1) % 2 ^ 64, durableLsn := lastLsn 0 rs } := by
  have ⟨hi, ⟨left, ht⟩, hw⟩ := open_eq_ok_iff.mp h
  have ⟨s₁, s₂, hs, hf, he⟩ := reader.frames_all s
  rcases he with ⟨t, hd, he⟩ | ⟨e, _, he⟩ <;> rw [ht] at he <;> cases he
  exact ⟨_, s₁, left, hs, hf, (readRecord_eq_done hd).left, Prod.ext rfl ht, hi, hw⟩

theorem append_ok_of_open (h : Wal.open s = .ok w) (hs : s.length + 4128 ≤ maxFileSize) (d : PageData) :
    ∃ l w₁, w.appendPageImage .success 0 (some d.toBytes) = (.ok l, w₁) := by
  have ⟨_, _, _, _, _, _, _, _, hw⟩ := open_frames h
  have hs : w.file.length + w.pending.length + 4128 ≤ maxFileSize := by simpa [hw] using hs
  have ha := appendPageImage_ok (by rw [hw]) (by rw [hw]) (by decide : (0 : PageId) ≠ invalidId)
    (ByteBlock.length_toBytes (d := d)) hs
  exact ⟨_, _, ha⟩

theorem appended_file (h : Wal.open s = .ok w)
    (ha : w.appendPageImage .success i (some (ByteBlock.toBytes d)) = (.ok l, w₁)) :
    i ≠ invalidId ∧ s.length + 4128 ≤ maxFileSize ∧
      ((w₁.flush .success).snd.close .success).snd.file =
        s ++ encodeRecord w.nextLsn i (ByteBlock.toBytes d) := by
  have ⟨_, _, _, _, _, _, _, _, hw⟩ := open_frames h
  rcases appendPageImage_cases ha with ⟨_, he, _⟩ | ⟨_, _, he, _⟩ | ⟨_, ho, hg, hi, _, hs, hw₁⟩
  case inl => cases he
  case inr.inl => cases he
  case inr.inr =>
    refine ⟨hi, by simpa [hw] using hs, ?_⟩
    rw [flush_ok (by rw [hw₁]; exact ho) (by rw [hw₁]; exact hg)]
    simp [close, flush, hw₁, hw]

section

variable {s : Bytes} {w : Wal} (h : Wal.open s = .ok w)

include h

theorem written_of_open (storage : PageStorage)
    (he : ∀ r ∈ (reader.all s).fst, storage.pageExists r.pageId) :
    (w.recover storage).written = (reader.all s).fst.map ParsedRecord.page ∧
      ∃ stats, (w.recover storage).result = .ok stats := by
  have ⟨rs, _, left, _, _, _, ha, hi, hw⟩ := open_frames h
  subst hw
  rw [ha] at he
  rw [recover_of_accepted rfl ha hi he, ha]
  exact ⟨rfl, _, rfl⟩

theorem resumes_of_clean (ht : s.length % 4128 = 0) (hl : w.durableLsn ≠ 2 ^ 64 - 1) :
    Resumes w := by
  obtain ⟨rs, s₁, left, hs, hf, hlt, ha, hi, hw⟩ := open_frames h
  have hleft : left = [] := by
    have hlen := hf.length_eq
    rw [hs] at ht
    simp at hlen ht
    apply List.eq_nil_of_length_eq_zero
    omega
  have hlast : lastLsn 0 rs < 2 ^ 64 := lastLsn_lt (by decide) (frames_lsn_lt hf)
  have hnext : w.nextLsn = lastLsn 0 rs + 1 ∧ w.nextLsn < 2 ^ 64 := by
    simp [hw] at hl hlast ⊢
    omega
  intro i d l w₁ hap
  obtain ⟨hid, _, hfile⟩ := appended_file h hap
  have hr := frames_encodeRecord hnext.right hid (ByteBlock.length_toBytes (d := d))
  generalize hrec : (⟨1, w.nextLsn, i, d.toBytes⟩ : ParsedRecord) = r at hr
  have hall := (hf.append hr).all_eq
  have hinc : Increasing 0 (rs ++ [r]) :=
    increasing_append.mpr ⟨hi, by simp [Increasing, ← hrec, hnext]⟩
  rw [hfile, hs, hleft, List.append_nil]
  have hopen : Wal.open (s₁ ++ encodeRecord w.nextLsn i d.toBytes) = .ok _ :=
    open_eq_ok_iff.mpr ⟨by rw [hall]; exact hinc, ⟨[], by rw [hall]⟩, rfl⟩
  refine ⟨_, hopen, fun storage he hie => ?_⟩
  have hws : w.file = s := by rw [hw]
  rw [hws] at he
  have hr : storage.pageExists r.pageId := by rwa [← hrec]
  obtain ⟨h₁, _⟩ := written_of_open h storage he
  obtain ⟨h₂, h₃⟩ := written_of_open hopen storage <| by
    rw [ha] at he
    simpa [hall, or_imp, forall_and, hr] using he
  refine ⟨?_, h₃⟩
  rw [h₁, h₂, ha, hall, ← hrec]
  simp [ParsedRecord.page, ByteBlock.ofBytes_toBytes]

-- An image without the bytes that every record has in its header.
theorem not_resumes_of_torn (hs : s.length + 4128 ≤ maxFileSize) (ht : s.length % 4128 ≠ 0) :
    ¬Resumes w := by
  intro hr
  have ⟨rs, s₁, left, hs', hf, hlt, ha, hi, hw⟩ := open_frames h
  have hz : 0 < left.length := by
    have hlen := hf.length_eq
    rw [hs'] at ht
    simp at hlen ht
    omega
  have ⟨storage, hst⟩ := exists_all_pages
  have ⟨_, _, happ⟩ := append_ok_of_open h hs (ByteBlock.fill 4096 0xFF)
  have ⟨w₂, ho, hrec⟩ := hr 0 _ _ _ happ
  rw [(appended_file h happ).right.right] at ho
  have hvalid : ∀ {s r}, r ∈ (reader.all s).fst → storage.pageExists r.pageId := by
    intro s r hm
    have ⟨_, _, _, hf, _⟩ := reader.frames_all s
    exact hst _ <| frames_pageId_ne hf r hm
  have ⟨hw', _⟩ := hrec storage (fun r => hvalid) (hst _ (by decide))
  rw [(written_of_open h storage fun r => hvalid).left, (written_of_open ho storage fun r => hvalid).left, ha, hs',
    List.append_assoc, hf.all_append, List.map_append, List.append_right_inj] at hw'
  match hread : readRecord (left ++ encodeRecord w.nextLsn 0 (ByteBlock.fill 4096 0xFF).toBytes) with
  | .done _ =>
    have := (readRecord_eq_done hread).left
    simp at this
  | .corrupt _ => simp [reader.all_corrupt hread] at hw'
  | .record r _ =>
    have ⟨b, hb, hne⟩ := torn_misread hz hlt hread
    have ⟨hlen, _, _, hr, _⟩ := readRecord_eq_record hread
    have hp : r.payload.length = 4096 := by
      rw [hr, parse]
      simp
    simp [reader.all_record hread, ParsedRecord.page] at hw'
    rw [← ByteBlock.toBytes_ofBytes hp, hw'.left.right] at hb
    exact hne <| ByteBlock.eq_of_mem_toBytes_fill hb

theorem not_resumes_of_wrap (hs : s.length + 4128 ≤ maxFileSize) (ht : s.length % 4128 = 0)
    (hl : w.durableLsn = 2 ^ 64 - 1) : ¬Resumes w := by
  intro hr
  have ⟨rs, s₁, left, hs', hf, hlt, ha, hi, hw⟩ := open_frames h
  have hleft : left = [] := by
    have hlen := hf.length_eq
    rw [hs'] at ht
    simp at hlen ht
    apply List.eq_nil_of_length_eq_zero
    omega
  have hnext : w.nextLsn = 0 := by
    simp [hw] at hl ⊢
    omega
  have ⟨_, _, happ⟩ := append_ok_of_open h hs zeroPage
  have ⟨w₂, ho, _⟩ := hr 0 _ _ _ happ
  have hf' := frames_encodeRecord (by decide : 0 < 2 ^ 64) (by decide : (0 : PageId) ≠ invalidId)
    (ByteBlock.length_toBytes (d := zeroPage))
  rw [(appended_file h happ).right.right, hs', hleft, List.append_nil, hnext] at ho
  have ⟨hinc, _⟩ := open_eq_ok_iff.mp ho
  rw [(hf.append hf').all_eq, increasing_append] at hinc
  exact absurd hinc.right.left (Nat.not_lt_zero _)

end

theorem resumes_iff (h : Wal.open s = .ok w) :
    Resumes w ↔ (s.length + recordSize ≤ maxFileSize →
      s.length % recordSize = 0 ∧ w.durableLsn ≠ 2 ^ 64 - 1) := by
  constructor
  case mp =>
    intro hr hs
    have ht : s.length % 4128 = 0 := not_not.mp fun ht => not_resumes_of_torn h hs ht hr
    exact ⟨ht, fun hl => not_resumes_of_wrap h hs ht hl hr⟩
  case mpr =>
    intro hc
    cases Nat.lt_or_ge maxFileSize (s.length + 4128)
    case inl hs =>
      intro i d l w₁ ha
      exact absurd (appended_file h ha).right.left (Nat.not_le.mpr hs)
    case inr hs =>
      have ⟨ht, hl⟩ := hc hs
      exact resumes_of_clean h ht hl

theorem open_short (h : s.length < 32) :
    Wal.open s = .ok { file := s, nextLsn := 1, durableLsn := 0 } := by
  have ha := reader.all_done (readRecord_short h)
  exact open_eq_ok_iff.mpr ⟨by rw [ha]; trivial, ⟨s, by rw [ha]⟩, by rw [ha]; rfl⟩

-- A log in which only the first byte of its first record was written.
theorem not_resumes_one_byte :
    Wal.open [0x4E] = .ok { file := [0x4E], nextLsn := 1, durableLsn := 0 } ∧
      ¬Resumes { file := [0x4E], nextLsn := 1, durableLsn := 0 } := by
  have h := open_short (s := [0x4E]) (by decide)
  exact ⟨h, not_resumes_of_torn h (by decide) (by decide)⟩

-- A log with a record.
theorem resumes_iff_record : ∃ w, Wal.open (encodeRecord 1 0 zeroPage.toBytes) = .ok w ∧ w.durableLsn = 1 ∧ Resumes w := by
  have hf := frames_encodeRecord (by decide : 1 < 2 ^ 64) (by decide : (0 : PageId) ≠ invalidId)
    (ByteBlock.length_toBytes (d := zeroPage))
  have hlen : (encodeRecord 1 0 zeroPage.toBytes).length = recordSize := hf.length_eq
  have h : Wal.open (encodeRecord 1 0 zeroPage.toBytes) =
      .ok { file := encodeRecord 1 0 zeroPage.toBytes, nextLsn := 2, durableLsn := 1 } :=
    open_eq_ok_iff.mpr ⟨by simp [hf.all_eq, Increasing], ⟨_, by rw [hf.all_eq]⟩, by rw [hf.all_eq]; rfl⟩
  exact ⟨_, h, rfl, (resumes_iff h).mpr fun _ => ⟨by rw [hlen]; decide, by decide⟩⟩

end NexusDb.Wal
