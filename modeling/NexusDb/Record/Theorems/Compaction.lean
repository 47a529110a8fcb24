import NexusDb.Record.Theorems.SlottedArray
import Mathlib.Algebra.BigOperators.Group.Finset.Basic
import Mathlib.Data.List.ReduceOption
import Mathlib.Order.Interval.Finset.Nat

open ByteBlock Bytes

namespace NexusDb.SlottedPage

variable {d d' : PageData} {bs : Bytes}

theorem get_of_slice_eq (h : d'.slice off len = d.slice off len) (hk : off ≤ k ∧ k < off + len) :
    d'.get k = d.get k := by
  have hg := slice_eq_iff.mp h (k - off) (by omega)
  rwa [Nat.add_sub_cancel' hk.left] at hg

theorem slice_of_natAt_eq (h : d'.natAt off w = d.natAt off w) : d'.slice off w = d.slice off w := by
  have h₁ := leBytes_leNat (d'.slice off w)
  have h₂ := leBytes_leNat (d.slice off w)
  rw [length_slice] at h₁ h₂
  rw [← h₁, ← h₂]
  exact congrArg (leBytes w) h

-- The bytes besides the header, the lengths and the records that a compaction leaves.
structure Cleared (d d' : PageData) : Prop where
  reserved : d'.slice 12 4 = d.slice 12 4
  dead     : ∀ i < slotCount d, slotLength d i = 0 → slotOffset d' i = slotOffset d i
  gap      : ∀ k, 16 + 4 * slotCount d ≤ k → k < freeStart d → d'.get k = d.get k
  zero     : ∀ k, freeStart d ≤ k → k < freeEnd d' → d'.get k = 0

theorem Packed.cleared (v : Valid d) (h : Packed d (slotCount d) p s)
    (hs : liveSum d (slotCount d) ≤ 4096 - freeStart d) (he : e = 4096 - liveSum d (slotCount d)) :
    Cleared d (unpacked d p s e) := by
  have hd := v.dirEnd_le
  have hf := v.free
  have hf' := v.freeEnd_le
  -- Between `free_end` and the free region nothing is written.
  have hk : ∀ off len, 12 ≤ off → off + len ≤ freeStart d →
      (unpacked d p s e).slice off len = p.slice off len := by
    intro off len h₁ h₂
    rw [unpacked, slice_write_of_disjoint (by simp; omega), slice_writeNat_of_disjoint (by omega),
      slice_write_of_disjoint (by simp; omega)]
  constructor
  case reserved => rw [hk 12 4 (by omega) (by omega), h.header 12 4 (by omega)]
  case dead =>
    intro i hi hl
    rw [← h.dead i hl]
    exact congrArg leNat <| hk _ _ (by omega) (by omega)
  case gap =>
    intro k h₁ h₂
    have hg := hk k 1 (by omega) (by omega)
    rw [h.records k 1 h₁] at hg
    exact get_of_slice_eq hg (by omega)
  case zero =>
    intro k h₁ h₂
    rw [(h.compacted v hs he).freeEnd] at h₂
    rw [unpacked, get_write, if_pos (by simp; omega), List.getD_eq_getElem?_getD,
      List.getElem?_replicate_of_lt (by omega)]
    rfl

-- A page on which a compaction has nothing to do.
structure Tight (d : PageData) : Prop extends Valid d where
  fits       : liveSum d (slotCount d) ≤ 4096 - freeStart d
  freeEnd_eq : freeEnd d = 4096 - liveSum d (slotCount d)
  offsets    : ∀ i < slotCount d, slotLength d i ≠ 0 → slotOffset d i = 4096 - liveSum d (i + 1)
  zero       : ∀ k, freeStart d ≤ k → k < freeEnd d → d.get k = 0

theorem compact_ok (h : compact d = some (.ok (), some d')) :
    Valid d ∧ liveSum d (slotCount d) ≤ 4096 - freeStart d ∧ Compacted d d' ∧ Cleared d d' := by
  obtain ⟨-, e, he⟩ | ⟨v, hs, p, s, hk, hc⟩ := compact_unpacked d
  case inl => simp [he] at h
  case inr =>
    rw [hc] at h
    cases h
    exact ⟨v, hs, hk.compacted v hs rfl, hk.cleared v hs rfl⟩

theorem compact_succeeds (v : Valid d) (hs : liveSum d (slotCount d) ≤ 4096 - freeStart d) :
    ∃ d', compact d = some (.ok (), some d') := by
  obtain ⟨hn, -⟩ | ⟨-, -, p, s, -, h⟩ := compact_unpacked d
  case inl => exact absurd ⟨v, hs⟩ hn
  case inr => exact ⟨_, h⟩

theorem Compacted.liveSum (c : Compacted d d') (h : i ≤ SlottedPage.slotCount d) :
    liveSum d' i = SlottedPage.liveSum d i := by
  induction i
  case zero => rfl
  case succ i hi => rw [SlottedPage.liveSum, SlottedPage.liveSum, hi (by omega), c.lengths i (by omega)]

theorem Compacted.tight (v : Valid d) (hs : SlottedPage.liveSum d (SlottedPage.slotCount d) ≤ 4096 - SlottedPage.freeStart d)
    (c : Compacted d d') (r : Cleared d d') : Tight d' where
  toValid := c.valid v hs
  fits := by rw [c.slotCount, c.freeStart, c.liveSum le_rfl]; exact hs
  freeEnd_eq := by rw [c.slotCount, c.liveSum le_rfl]; exact c.freeEnd
  offsets i hi hn := by
    rw [c.slotCount] at hi
    rw [c.lengths i hi] at hn
    rw [c.liveSum hi]
    exact c.offsets i hi hn
  zero k h₁ h₂ := r.zero k (c.freeStart ▸ h₁) h₂

-- Every byte below the sum of the live lengths belongs to one of the records.
theorem exists_liveSum_le (h : m < liveSum d n) :
    ∃ i < n, liveSum d i ≤ m ∧ m < liveSum d (i + 1) := by
  induction n
  case zero => simp [liveSum] at h
  case succ n hi =>
    by_cases hm : m < liveSum d n
    case pos =>
      obtain ⟨i, hin, hl⟩ := hi hm
      exact ⟨i, by omega, hl⟩
    case neg => exact ⟨n, by omega, by omega, h⟩

theorem Tight.slots_eq (t : Tight d) (c : Compacted d d') (r : Cleared d d') (hi : i < slotCount d) :
    d'.slice (16 + 4 * i) 2 = d.slice (16 + 4 * i) 2 ∧
    d'.slice (16 + 4 * i + 2) 2 = d.slice (16 + 4 * i + 2) 2 := by
  refine ⟨slice_of_natAt_eq ?_, slice_of_natAt_eq (c.lengths i hi)⟩
  by_cases hn : slotLength d i = 0
  case pos => exact r.dead i hi hn
  case neg => exact (c.offsets i hi hn).trans (t.offsets i hi hn).symm

theorem Tight.records_eq (t : Tight d) (c : Compacted d d') (hk : freeEnd d ≤ k) (hk' : k < 4096) :
    d'.get k = d.get k := by
  have hf := t.freeEnd_eq
  have ⟨i, hi, h₁, h₂⟩ := exists_liveSum_le (d := d) (m := 4095 - k) (n := slotCount d) (by omega)
  have hm := liveSum_mono (d := d) (i := i + 1) hi
  have hfit := t.fits
  have hn : slotLength d i ≠ 0 := by
    intro h
    simp only [liveSum, h] at h₂
    omega
  have ho := t.offsets i hi hn
  have hr := c.records i hi hn
  rw [c.offsets i hi hn, ← ho] at hr
  simp only [liveSum] at h₂ ho hm
  exact get_of_slice_eq hr (by omega)

theorem Tight.compacted_eq (t : Tight d) (c : Compacted d d') (r : Cleared d d') : d' = d := by
  have hfe : freeEnd d' = freeEnd d := c.freeEnd.trans t.freeEnd_eq.symm
  apply ext_get
  intro k hk
  -- From the header over the directory and the gap to the records.
  by_cases h₁ : k < 10
  case pos => exact get_of_slice_eq (c.header 0 10 (by omega)) (by omega)
  by_cases h₂ : k < 12
  case pos => exact get_of_slice_eq (slice_of_natAt_eq hfe) (by omega)
  by_cases h₃ : k < 16
  case pos => exact get_of_slice_eq r.reserved (by omega)
  by_cases h₄ : k < 16 + 4 * slotCount d
  case pos =>
    have ⟨ho, hl⟩ := t.slots_eq c r (i := (k - 16) / 4) (by omega)
    by_cases h₅ : k < 16 + 4 * ((k - 16) / 4) + 2
    case pos => exact get_of_slice_eq ho (by omega)
    case neg => exact get_of_slice_eq hl (by omega)
  by_cases h₅ : k < freeStart d
  case pos => exact r.gap k (by omega) h₅
  by_cases h₆ : k < freeEnd d
  case pos => rw [r.zero k (by omega) (by omega), t.zero k (by omega) h₆]
  case neg => exact t.records_eq c (by omega) hk

theorem Tight.compact_eq (t : Tight d) : compact d = some (.ok (), some d) := by
  have ⟨d', h⟩ := compact_succeeds t.toValid t.fits
  have ⟨_, _, c, r⟩ := compact_ok h
  rw [h, t.compacted_eq c r]

-- The bytes of the live records.
def liveBytes (d : PageData) : Nat :=
  ((records d).reduceOption.map List.length).sum

theorem liveSum_eq_sum (n : Nat) : liveSum d n = ∑ i ∈ Finset.range n, slotLength d i := by
  induction n
  case zero => rfl
  case succ n hi => rw [liveSum, hi, Finset.sum_range_succ]

theorem liveSum_eq_liveBytes : liveSum d (slotCount d) = liveBytes d := by
  rw [liveBytes, records]
  induction slotCount d
  case zero => rfl
  case succ n hi =>
    rw [liveSum, hi, List.range_succ, List.map_append, List.reduceOption_append, List.map_append,
      List.sum_append]
    by_cases hl : slotLength d n = 0
    case pos => simp [entry, hl]
    case neg => simp [entry, hl]

-- Records that do not overlap fit together into the part of the page that they lie in.
theorem WellFormed.liveSum_le (w : WellFormed d) : liveSum d (slotCount d) ≤ 4096 - freeEnd d := by
  let region i := Finset.Ico (slotOffset d i) (slotOffset d i + slotLength d i)
  have hdisj : ∀ i ∈ Finset.range (slotCount d), ∀ j ∈ Finset.range (slotCount d), i ≠ j →
      Disjoint (region i) (region j) := by
    intro i hi j hj hij
    rw [Finset.mem_range] at hi hj
    rw [Finset.disjoint_left]
    intro k hki hkj
    rw [Finset.mem_Ico] at hki hkj
    have := w.disjoint i hi j hj hij (by omega) (by omega)
    omega
  have hsub : (Finset.range (slotCount d)).biUnion region ⊆ Finset.Ico (freeEnd d) 4096 := by
    intro k hk
    have ⟨i, hi, hki⟩ := Finset.mem_biUnion.mp hk
    rw [Finset.mem_range] at hi
    rw [Finset.mem_Ico] at hki ⊢
    have := w.live i hi (by omega)
    omega
  have hcard := Finset.card_le_card hsub
  rw [Finset.card_biUnion hdisj, Nat.card_Ico] at hcard
  simp only [region, Nat.card_Ico, Nat.add_sub_cancel_left] at hcard
  rwa [liveSum_eq_sum]

theorem WellFormed.compact_frees (w : WellFormed d) : ∃ d', compact d = some (.ok (), some d') ∧
    WellFormed d' ∧ ∃ free, freeBytes d' = some free ∧ free = freeEnd d' - freeStart d' ∧
      headerSize + slotEntrySize * slotCount d + liveBytes d + free = pageSize := by
  have hle := w.liveSum_le
  have hf := w.free
  have hfe := w.freeEnd_le
  have hde := w.dirEnd_eq
  have ⟨d', h⟩ := compact_succeeds w.toValid (by omega)
  have ⟨v, hs, c, _⟩ := compact_ok h
  have w' := c.wellFormed w hs
  refine ⟨d', h, w', _, freeBytes_eq w'.toValid, rfl, ?_⟩
  rw [c.freeEnd, c.freeStart, ← liveSum_eq_liveBytes]
  simp only [headerSize, slotEntrySize, pageSize]
  omega

theorem insert_ok_iff (v : Valid d) (h₀ : 0 < bs.length) (hm : bs.length ≤ maxRecordSize) :
    (∃ slot d', insert d (some bs) = some (.ok slot, some d')) ↔ 4 + bs.length ≤ freeEnd d - freeStart d := by
  rw [insert_eq v h₀ hm]
  split
  case isTrue h => simp; omega
  case isFalse h => simp; omega

-- A compaction keeps all records, leaves nothing for another one, and reclaims all space that is wasted.
theorem compact_reclaims :
    (∀ d d', compact d = some (.ok (), some d') →
      slotCount? d' = slotCount? d ∧ (∀ slot, read d' slot = read d slot) ∧
      compact d' = some (.ok (), some d')) ∧
    (∀ ops, ∃ d d', run init ops = some d ∧ compact d = some (.ok (), some d') ∧
      ∃ free, freeBytes d' = some free ∧
        headerSize + slotEntrySize * slotCount d + liveBytes d + free = pageSize ∧
        ∀ bs : Bytes, 1 ≤ bs.length → bs.length ≤ maxRecordSize →
          ((∃ slot d'', insert d' (some bs) = some (.ok slot, some d'')) ↔ slotEntrySize + bs.length ≤ free)) := by
  constructor
  case left =>
    intro d d' h
    have ⟨v, hs, c, r⟩ := compact_ok h
    refine ⟨?_, fun slot => ?_, (c.tight v hs r).compact_eq⟩
    · rw [slotCount?, slotCount?, load_slotCount, load_slotCount, c.slotCount]
    · rw [read_eq v, read_eq (c.valid v hs), c.records_eq]
  case right =>
    intro ops
    have ⟨d, hr, w⟩ := run_wellFormed .init ops
    have ⟨d', h, w', free, hf, he, hsum⟩ := w.compact_frees
    refine ⟨d, d', hr, h, free, hf, hsum, fun bs h₀ hm => ?_⟩
    rw [insert_ok_iff w'.toValid h₀ hm, he]

end NexusDb.SlottedPage
