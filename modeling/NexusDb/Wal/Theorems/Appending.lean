import NexusDb.Wal.Theorems.Log

open RecordReader (Frames)

namespace NexusDb.Wal

-- A log object on a file that was empty at first: the images that are in the file, and perhaps a part
-- of one more record, after which the stream is bad.
structure Appending (w : Wal) (ps : List (PageId × PageData)) : Prop where
  file    : ∃ torn, w.file = encodeLog 1 ps ++ torn ∧ (∃ t, reader.read torn = .done t) ∧
              (w.good → torn = [])
  pending : w.pending = []
  isOpen  : w.isOpen
  nextLsn : w.good → w.nextLsn = ps.length + 1
  valid   : ∀ p ∈ ps, p.fst ≠ invalidId
  fits    : ps.length ≤ maxFileSize / recordSize

namespace Appending

theorem of_reset {w w' : Wal} (h : w.reset = (.ok (), w')) : Appending w' [] := by
  rw [Wal.reset] at h
  split at h <;> cases h
  exact ⟨⟨[], rfl, ⟨_, reader.read_nil⟩, fun _ => rfl⟩, rfl, rfl, fun _ => rfl, nofun, Nat.zero_le _⟩

variable {w : Wal} {ps : List (PageId × PageData)} (hw : Appending w ps)

include hw

theorem all_fst : (reader.all w.file).fst = numbered 1 ps := by
  have ⟨torn, hf, ⟨_, ht⟩, _⟩ := hw.file
  have hfit := hw.fits
  simp at hfit
  have hframes : Frames reader (numbered 1 ps) (encodeLog 1 ps) := frames_encodeLog hw.valid (by omega)
  rw [hf, hframes.all_append, reader.all_done ht, List.append_nil]

theorem images : (reader.all w.file).fst.map ParsedRecord.image = ps := by
  rw [hw.all_fst, map_image_numbered]

theorem length_file (hg : w.good) : w.file.length = 4128 * ps.length := by
  have ⟨torn, hf, _, ht⟩ := hw.file
  rw [hf, ht hg, List.append_nil, length_encodeLog]

-- One more record was written in full.
theorem whole {p : PageId × PageData} (hp : p.fst ≠ invalidId) (hg : w.good)
    (hs : w.file.length + 4128 ≤ maxFileSize)
    (hf : w'.file = w.file ++ encodeRecord w.nextLsn p.fst p.snd.toBytes) (hpe : w'.pending = [])
    (ho : w'.isOpen) (hn : w'.good → w'.nextLsn = (w.nextLsn + 1) % 2 ^ 64) : Appending w' (ps ++ [p]) := by
  have hl := hw.length_file hg
  have ⟨torn, hft, _, ht⟩ := hw.file
  have hlsn := hw.nextLsn hg
  rw [ht hg, List.append_nil] at hft
  simp at hs
  constructor
  case file =>
    refine ⟨[], ?_, ⟨_, reader.read_nil⟩, fun _ => rfl⟩
    rw [hf, hft, hlsn, encodeLog_append, List.append_nil, Nat.add_comm 1]
    simp [encodeLog]
  case pending => exact hpe
  case isOpen => exact ho
  case nextLsn =>
    intro hg'
    rw [hn hg', hlsn, List.length_append, List.length_singleton, Nat.mod_eq_of_lt]
    omega
  case valid =>
    intro q hq
    rcases List.mem_append.mp hq with h | h
    · exact hw.valid q h
    · exact List.mem_singleton.mp h ▸ hp
  case fits =>
    simp
    omega

-- The stream failed after a part of a record.
theorem part {p : PageId × PageData} (hp : p.fst ≠ invalidId) (hg : w.good) (hk : k < 4128)
    (hf : w'.file = w.file ++ (encodeRecord w.nextLsn p.fst p.snd.toBytes).take k) (hpe : w'.pending = [])
    (ho : w'.isOpen) (hb : w'.good = false) : Appending w' ps := by
  have ⟨torn, hft, _, ht⟩ := hw.file
  have hfit := hw.fits
  rw [ht hg, List.append_nil] at hft
  simp at hfit
  have hlt : w.nextLsn < 2 ^ 64 := by
    rw [hw.nextLsn hg]
    omega
  have hread := readRecord_encodeRecord hlt hp (ByteBlock.length_toBytes (d := p.snd)) []
  rw [List.append_nil, ← reader_read] at hread
  have hdone := reader.torn hread hk
  exact ⟨⟨_, by rw [hf, hft], ⟨_, hdone⟩, by simp [hb]⟩, hpe, ho, by simp [hb], hw.valid, hw.fits⟩

-- What the log step of a page write does to the file.
theorem beforePageWrite (hp : p.id ≠ invalidId) (h : w.beforePageWrite io₁ io₂ p = (res, w')) :
    ∃ bytes, w'.file = w.file ++ bytes ∧
      ((res = .ok () ∧ w.good ∧ w'.good ∧ bytes.length = 4128 ∧ Appending w' (ps ++ [(p.id, p.data)])) ∨
       ((∃ e, res = .error e) ∧ w'.good = false ∧
        ((bytes.length = 4128 ∧ Appending w' (ps ++ [(p.id, p.data)])) ∨
         (bytes.length < 4128 ∧ Appending w' ps)))) := by
  rw [Wal.beforePageWrite, if_neg hp] at h
  -- A failure after `n` bytes of the record leaves all of it or a part.
  have hfail : ∀ (w₁ : Wal) n, w₁.file = w.file ++ (encodeRecord w.nextLsn p.id p.data.toBytes).take n →
      w₁.pending = [] → w₁.isOpen → w₁.good = false → w.good → (4128 ≤ n → w.file.length + 4128 ≤ maxFileSize) →
      ∃ bytes, w₁.file = w.file ++ bytes ∧
        ((bytes.length = 4128 ∧ Appending w₁ (ps ++ [(p.id, p.data)])) ∨
         (bytes.length < 4128 ∧ Appending w₁ ps)) := by
    intro w₁ n hf hpe ho hb hg hs
    refine ⟨_, hf, ?_⟩
    cases Nat.lt_or_ge n 4128
    case inl hn => exact .inr ⟨by simp; omega, hw.part (p := (p.id, p.data)) hp hg hn hf hpe ho hb⟩
    case inr hn =>
      rw [List.take_of_length_le (by simpa using hn)] at hf ⊢
      exact .inl ⟨by simp, hw.whole (p := (p.id, p.data)) hp hg (hs hn) hf hpe ho (by simp [hb])⟩
  rcases ha : w.appendPageImage io₁ p.id (some p.data.toBytes) with ⟨e₁ | lsn, w₁⟩
  · rw [ha] at h
    cases h
    rcases appendPageImage_some ha with ⟨e, _, hw₁, hc⟩ | ⟨e, n, _, ho, hg, hn, hw₁⟩ | ⟨hr, _⟩
    · subst hw₁
      have hb : w'.good = false := by simpa [hw.isOpen, hp] using hc
      exact ⟨[], by simp, .inr ⟨⟨_, rfl⟩, hb, .inr ⟨by simp, hw⟩⟩⟩
    · have hs : 4128 ≤ n → w.file.length + 4128 ≤ maxFileSize := by
        intro h
        rcases hn with hn | hn
        · omega
        · simpa [hw.pending] using hn
      have hgood : w'.good = false := by rw [hw₁, fail]
      obtain ⟨bytes, hf, hb⟩ := hfail w' n (by simp [hw₁, fail, hw.pending]) (by rw [hw₁, fail])
        (by rw [hw₁]; exact ho) hgood hg hs
      exact ⟨bytes, hf, .inr ⟨⟨_, rfl⟩, hgood, hb⟩⟩
    · cases hr
  · rw [ha] at h
    change w₁.flush io₂ = (res, w') at h
    rcases appendPageImage_some ha with ⟨e, hr, _⟩ | ⟨e, n, hr, _⟩ | ⟨_, ho, hg, hs, hw₁⟩
    · cases hr
    · cases hr
    · have hs : w.file.length + 4128 ≤ maxFileSize := by simpa [hw.pending] using hs
      subst hw₁
      rcases flush_cases h with ⟨e, _, _, hc⟩ | ⟨e, n, hr, _, _, _, hw₂⟩ | ⟨hr, _, _, hw₂⟩
      · simp [ho, hg] at hc
      · have hgood : w'.good = false := by rw [hw₂, fail]
        obtain ⟨bytes, hf, hb⟩ := hfail w' n (by simp [hw₂, fail, hw.pending]) (by rw [hw₂, fail])
          (by rw [hw₂]; exact ho) hgood hg fun _ => hs
        exact ⟨bytes, hf, .inr ⟨⟨e, hr⟩, hgood, hb⟩⟩
      · subst hw₂
        refine ⟨_, rfl, .inl ⟨hr, hg, hg, by simp [hw.pending], ?_⟩⟩
        exact hw.whole (p := (p.id, p.data)) hp hg hs (by simp [hw.pending]) rfl ho (by simp)

end Appending
end NexusDb.Wal
