import NexusDb.General.ShiftRegister
import NexusDb.Wal.Theorems.Log

open Bytes
open RecordReader (Frames)

namespace NexusDb.Wal

-- The loop of the checksum as a shift register.

abbrev crcPoly : BitVec 32 := 0xEDB88320

theorem toBitVec_crc32Step (c : UInt32) : (crc32Step c).toBitVec = shiftStep crcPoly c.toBitVec := by
  have hm : (0 : BitVec 32) - (c.toBitVec &&& 1) = if c.toBitVec.getLsbD 0 then BitVec.allOnes 32 else 0 := by
    rw [show (1 : BitVec 32) = 1#32 from rfl, BitVec.and_one_eq_setWidth_ofBool_getLsbD]
    cases c.toBitVec.getLsbD 0 <;> decide
  have hs : (crc32Step c).toBitVec =
      (c.toBitVec >>> 1) ^^^ (crcPoly &&& ((0 : BitVec 32) - (c.toBitVec &&& 1))) := rfl
  rw [hs, hm, shiftStep]
  split <;> simp

theorem toBitVec_crc32Update (c : UInt32) (bs : Bytes) :
    (crc32Update c bs).toBitVec = shiftBytes crcPoly c.toBitVec bs := by
  have hr : ∀ k c, (Nat.repeat crc32Step k c).toBitVec = Nat.repeat (shiftStep crcPoly) k c.toBitVec := by
    intro k c
    induction k
    case zero => rfl
    case succ k hi => rw [Nat.repeat, Nat.repeat, toBitVec_crc32Step, hi]
  induction bs generalizing c
  case nil => rfl
  case cons b bs hi =>
    have h := hi (Nat.repeat crc32Step 8 (c ^^^ b.toUInt32))
    rw [hr, UInt32.toBitVec_xor, UInt8.toBitVec_toUInt32] at h
    exact h

theorem crc32_injective (h : crc32 hdr p = crc32 hdr' p') :
    shiftBytes crcPoly (BitVec.allOnes 32) (hdr.take 28 ++ p) =
      shiftBytes crcPoly (BitVec.allOnes 32) (hdr'.take 28 ++ p') := by
  have h := UInt32.toBitVec_inj.mpr <| UInt32.xor_left_inj _ |>.mp h
  rw [toBitVec_crc32Update, toBitVec_crc32Update, toBitVec_crc32Update, toBitVec_crc32Update] at h
  rw [ShiftRegister.shiftBytes_append, ShiftRegister.shiftBytes_append]
  exact h

-- A record with other bytes, all of them within four bytes of the fields that the checksum covers, of the
-- checksum, or of the payload.
structure Altered (r r' : Bytes) : Prop where
  length : r'.length = r.length
  ne     : r' ≠ r
  window : ∃ k, (k + 4 ≤ offChecksum ∨ k = offChecksum ∨ headerSize ≤ k) ∧
             ∀ i, i < k ∨ k + 4 ≤ i → r'[i]? = r[i]?

theorem Altered.split (h : Altered r r') :
    ∃ k l x x' t, (k + 4 ≤ 28 ∨ k = 28 ∨ 32 ≤ k) ∧ l.length = min k r.length ∧
      x.length = min 4 (r.length - k) ∧ x.length = x'.length ∧ x ≠ x' ∧ r = l ++ x ++ t ∧ r' = l ++ x' ++ t := by
  have ⟨k, hk, hw⟩ := h.window
  have ht : r'.take k = r.take k := by
    apply List.ext_getElem?
    intro i
    simp only [List.getElem?_take]
    split
    case isTrue hi => exact hw i (.inl hi)
    case isFalse => rfl
  have hd : r'.drop (k + 4) = r.drop (k + 4) := by
    apply List.ext_getElem?
    intro i
    simpa only [List.getElem?_drop] using hw _ (.inr (Nat.le_add_right _ _))
  have hs : ∀ s : Bytes, s = s.take k ++ (s.drop k).take 4 ++ s.drop (k + 4) := by
    intro s
    rw [List.append_assoc, ← List.drop_drop, List.take_append_drop, List.take_append_drop]
  have hr' := hs r'
  rw [ht, hd] at hr'
  refine ⟨k, _, _, _, _, hk, List.length_take, by simp, by simp [h.length], ?_, hs r, hr'⟩
  intro hx
  rw [← hx, ← hs r] at hr'
  exact h.ne hr'

theorem checksumOk_append (h : r.length = 4128) (hc : checksumOk (r ++ u)) :
    UInt32.ofNat (leNat ((r.drop 28).take 4)) = crc32 r (r.drop 32) := by
  have h₁ : (r ++ u).take 32 = r.take 32 := List.take_append_of_le_length (by omega)
  have h₂ : ((r ++ u).drop 32).take 4096 = r.drop 32 := by
    rw [List.drop_append_of_le_length (by omega), List.take_left' (by simp [h])]
  rw [checksumOk, h₁, h₂, field, List.drop_take] at hc
  simpa [crc32, List.take_take] using hc

-- The stored checksum and what it is computed from cannot both stay right.
theorem not_checksumOk_of_altered (h : r.length = 4128) (ha : Altered r r') (hc : checksumOk (r ++ u)) :
    ¬checksumOk (r' ++ u') := by
  intro hc'
  have ⟨k, l, x, x', t, hk, hl, hx, hxx, hne, hr, hr'⟩ := ha.split
  have hc := checksumOk_append h hc
  have hc' := checksumOk_append (ha.length.trans h) hc'
  rw [h] at hl hx
  -- With the same stored checksum a change of the covered bytes would have to be a burst that goes unnoticed.
  have hburst : ∀ as bs, r.take 28 ++ r.drop 32 = as ++ x ++ bs → r'.take 28 ++ r'.drop 32 = as ++ x' ++ bs →
      crc32 r (r.drop 32) ≠ crc32 r' (r'.drop 32) := by
    intro as bs he he' hcrc
    have hb := crc32_injective hcrc
    rw [he, he'] at hb
    exact hne <| ShiftRegister.burst (by decide) hxx (by omega) hb
  rcases hk with hk | hk | hk
  · have hl : l.length = k := by omega
    have hx : x.length = 4 := by omega
    have hx' : x'.length = 4 := by omega
    have hs : ∀ n, k + 4 ≤ n → r.drop n = t.drop (n - (k + 4)) ∧ r'.drop n = t.drop (n - (k + 4)) := by
      intro n hn
      simp [hr, hr', List.drop_append, hl, hx, hx', List.drop_of_length_le, (by omega : k ≤ n),
        (by omega : 4 ≤ n - k), Nat.sub_sub]
    have ht : r.take 28 = l ++ x ++ t.take (28 - (k + 4)) ∧ r'.take 28 = l ++ x' ++ t.take (28 - (k + 4)) := by
      simp [hr, hr', List.take_append, hl, hx, hx', List.take_of_length_le, (by omega : k ≤ 28),
        (by omega : 4 ≤ 28 - k), Nat.sub_sub]
    apply hburst l (t.take (28 - (k + 4)) ++ t.drop (32 - (k + 4)))
    · rw [ht.left, (hs 32 (by omega)).left, List.append_assoc]
    · rw [ht.right, (hs 32 (by omega)).right, List.append_assoc]
    · rw [← hc, ← hc', (hs 28 hk).left, (hs 28 hk).right]
  · have hl : l.length = 28 := by omega
    have hx : x.length = 4 := by omega
    have hx' : x'.length = 4 := by omega
    have hd : ∀ y : Bytes, y.length = 4 → ((l ++ y ++ t).drop 28).take 4 = y ∧ (l ++ y ++ t).drop 32 = t ∧
        (l ++ y ++ t).take 28 = l := by
      intro y hy
      simp [List.drop_append, hl, hy, List.drop_of_length_le]
    have h₁ := hd x hx
    have h₂ := hd x' hx'
    rw [← hr] at h₁
    rw [← hr'] at h₂
    rw [h₁.left, h₁.right.left, crc32, h₁.right.right] at hc
    rw [h₂.left, h₂.right.left, crc32, h₂.right.right, ← hc] at hc'
    have hn : ∀ y : Bytes, y.length = 4 → (UInt32.ofNat (leNat y)).toNat = leNat y := by
      intro y hy
      have := leNat_lt y
      rw [hy] at this
      exact UInt32.toNat_ofNat_of_lt' this
    have he : leNat x' = leNat x := by rw [← hn x hx, ← hn x' hx', hc']
    apply hne
    rw [← leBytes_leNat x, ← leBytes_leNat x', hx, hx', he]
  · have hl : 32 ≤ l.length := by omega
    have hs : ∀ n ≤ 32, ∀ y : Bytes, (l ++ y ++ t).take n = l.take n ∧ (l ++ y ++ t).drop n = l.drop n ++ y ++ t := by
      intro n hn y
      have hz : n - l.length = 0 := by omega
      simp [List.take_append, List.drop_append, hz]
    have hi : ∀ y : Bytes, ((l ++ y ++ t).drop 28).take 4 = (l.drop 28).take 4 := by
      intro y
      rw [(hs 28 (by omega) y).right, List.append_assoc, List.take_append_of_le_length]
      simp
      omega
    apply hburst (l.take 28 ++ l.drop 32) t
    · rw [hr, (hs 28 (by omega) x).left, (hs 32 le_rfl x).right]
      simp
    · rw [hr', (hs 28 (by omega) x').left, (hs 32 le_rfl x').right]
      simp
    · rw [← hc, ← hc', hr, hr', hi, hi]

theorem readRecord_altered (h : readRecord (r ++ u) = .record p u) (hr : r.length = 4128) (ha : Altered r r') :
    ∃ e, readRecord (r' ++ v) = .corrupt e := by
  have ⟨_, _, hc, _⟩ := readRecord_eq_record h
  rcases readRecord_cases (r' ++ v) with ⟨hl, _⟩ | he | ⟨_, _, hc', _⟩
  · rw [List.length_append, ha.length] at hl
    omega
  · exact he
  · exact absurd hc' <| not_checksumOk_of_altered hr ha hc

theorem scanRecords_corrupt (l : Nat) (rs : List ParsedRecord) (e : String) :
    ∃ msg, scanRecords l rs (.corrupt e) = .error (badState msg) := by
  induction rs generalizing l
  case nil => exact ⟨e, rfl⟩
  case cons r rs hi =>
    rw [scanRecords]
    split
    case isTrue => exact ⟨_, rfl⟩
    case isFalse => exact hi _

theorem open_corrupt (hf : Frames reader rs s) (hc : readRecord u = .corrupt e) :
    ∃ msg, Wal.open (s ++ u) = .error (badState msg) := by
  have ⟨msg, hm⟩ := scanRecords_corrupt 0 rs e
  have hs : scan (s ++ u) 0 = .error (badState msg) := by
    rw [scan_eq, hf.all_append, reader.all_corrupt hc, List.append_nil, hm]
  exact ⟨msg, by rw [Wal.open, hs]; rfl⟩

def recordAt (s : Bytes) (k : Nat) : Bytes :=
  (s.drop (recordSize * k)).take recordSize

def replaceRecord (s : Bytes) (k : Nat) (r : Bytes) : Bytes :=
  s.take (recordSize * k) ++ r ++ s.drop (recordSize * (k + 1))

-- Whatever a file holds, a change to one of the records that are read from it is found.
theorem open_replaceRecord (hk : k < (reader.all s).fst.length) (ha : Altered (recordAt s k) r) :
    ∃ msg, Wal.open (replaceRecord s k r) = .error (badState msg) := by
  have ⟨s₁, s₂, hs, hf, _⟩ := reader.frames_all s
  have ⟨a, f, b, p, hs₁, hfa, hl, hread⟩ := hf.split hk
  have hal : a.length = recordSize * k := by
    rw [hfa.length_eq, List.length_take, Nat.min_eq_left hk.le]
    rfl
  have hs : s = a ++ (f ++ (b ++ s₂)) := by
    rw [hs, hs₁]
    simp only [List.append_assoc]
  have hrec : recordAt s k = f := by
    rw [recordAt, hs, List.drop_left' hal]
    exact List.take_left' hl
  have ⟨e, hc⟩ := readRecord_altered (v := s.drop (4128 * (k + 1))) (hread []) hl (hrec ▸ ha)
  have ⟨msg, ho⟩ := open_corrupt hfa hc
  refine ⟨msg, ?_⟩
  have ht : s.take (recordSize * k) = a := by rw [hs, List.take_left' hal]
  rw [replaceRecord, ht, List.append_assoc]
  exact ho

-- The same for the logs that appending writes in one or more sessions, also when they were cut.
theorem corruption_detected (css : List (List LogCall)) :
    ∃ ps file, sessions [] css = .ok (ps, file) ∧ Logged css ps ∧
      file.length = recordSize * ps.length ∧ ∀ n ≤ file.length, ∀ k < n / recordSize, ∀ r,
        Altered (recordAt (file.take n) k) r →
          ∃ msg, Wal.open (replaceRecord (file.take n) k r) = .error ⟨.badState, msg⟩ := by
  have ⟨ps, hs, hv, hf, hlogged⟩ := sessions_logged css
  refine ⟨ps, _, hs, hlogged, length_encodeLog, fun n hn k hk r ha => open_replaceRecord ?_ ha⟩
  simp at hf hn hk
  have ⟨_, hall, _⟩ := all_take_encodeLog hv (by omega) hn
  rw [hall, length_numbered, List.length_take]
  omega

end NexusDb.Wal
