import NexusDb.Record.Theorems.SlottedPage

open ByteBlock Bytes

namespace NexusDb.SlottedPage

-- The record of slot `i`, or `none` for a tombstone.
def entry (d : PageData) (i : Nat) : Option Bytes :=
  if slotLength d i = 0 then none else some (d.slice (slotOffset d i) (slotLength d i))

-- The array of records that the bytes of a slotted page stand for.
def records (d : PageData) : List (Option Bytes) :=
  (List.range (slotCount d)).map (entry d)

variable {d d' : PageData} {bs : Bytes}

@[simp]
theorem length_records : (records d).length = slotCount d := by
  simp [records]

theorem getElem?_records (h : i < slotCount d) : (records d)[i]? = some (entry d i) := by
  simp [records, h]

theorem records_eq_iff : records d = rs ↔
    slotCount d = rs.length ∧ ∀ i < slotCount d, rs[i]? = some (entry d i) := by
  constructor
  case mp =>
    intro h
    subst h
    exact ⟨by simp, fun i hi => getElem?_records hi⟩
  case mpr =>
    intro ⟨hl, h⟩
    apply List.ext_getElem?
    intro i
    by_cases hi : i < slotCount d
    case pos => rw [getElem?_records hi, h i hi]
    case neg =>
      rw [List.getElem?_eq_none (by simpa using hi), List.getElem?_eq_none (by omega)]

theorem entry_congr (hl : slotLength d' i = slotLength d i)
    (hs : slotLength d i ≠ 0 → d'.slice (slotOffset d' i) (slotLength d i)
      = d.slice (slotOffset d i) (slotLength d i)) : entry d' i = entry d i := by
  by_cases h : slotLength d i = 0
  case pos => simp [entry, hl, h]
  case neg => simp [entry, hl, h, hs h]

theorem entry_live (hl : slotLength d i = bs.length) (h₀ : 0 < bs.length)
    (hs : d.slice (slotOffset d i) bs.length = bs) : entry d i = some bs := by
  have hn : bs.length ≠ 0 := by omega
  simp [entry, hl, hn, hs]

theorem WellFormed.init : WellFormed init where
  magic_eq   := by decide
  version_eq := by decide
  dirEnd_le  := by decide
  free       := by decide
  freeEnd_le := by decide
  dirEnd_eq  := by decide
  live i hi  := absurd hi (by rw [show slotCount SlottedPage.init = 0 by decide]; omega)
  disjoint i hi := absurd hi (by rw [show slotCount SlottedPage.init = 0 by decide]; omega)

section Insert

variable (v : Valid d) (h₀ : 0 < bs.length) (hr : bs.length + 4 ≤ freeEnd d - freeStart d)

include v hr

theorem inserted_header (h : off + len ≤ 6) : (inserted d bs).slice off len = d.slice off len := by
  have := v.dirEnd_le
  have := v.freeEnd_le
  simp (disch := omega) only [inserted, slice_writeNat_of_disjoint, slice_write_of_disjoint]

theorem inserted_slotCount : slotCount (inserted d bs) = slotCount d + 1 := by
  have := v.dirEnd_le
  have := v.freeEnd_le
  show (inserted d bs).natAt 6 2 = _
  simp (disch := omega) only [inserted, natAt_writeNat_of_disjoint, natAt_writeNat_self]

theorem inserted_freeStart : freeStart (inserted d bs) = freeStart d + 4 := by
  have := v.freeEnd_le
  show (inserted d bs).natAt 8 2 = _
  simp (disch := omega) only [inserted, natAt_writeNat_of_disjoint, natAt_writeNat_self]

omit hr in
theorem inserted_freeEnd : freeEnd (inserted d bs) = freeEnd d - bs.length := by
  have := v.freeEnd_le
  show (inserted d bs).natAt 10 2 = _
  simp (disch := omega) only [inserted, natAt_writeNat_self]

theorem inserted_slot_new :
    slotOffset (inserted d bs) (slotCount d) = freeEnd d - bs.length ∧
    slotLength (inserted d bs) (slotCount d) = bs.length := by
  have := v.dirEnd_le
  have := v.freeEnd_le
  constructor
  case left =>
    show (inserted d bs).natAt (16 + 4 * slotCount d) 2 = _
    simp (disch := omega) only [inserted, natAt_writeNat_of_disjoint, natAt_writeNat_self]
  case right =>
    show (inserted d bs).natAt (16 + 4 * slotCount d + 2) 2 = _
    simp (disch := omega) only [inserted, natAt_writeNat_of_disjoint, natAt_writeNat_self]

theorem inserted_slot_old (hi : i < slotCount d) :
    slotOffset (inserted d bs) i = slotOffset d i ∧
    slotLength (inserted d bs) i = slotLength d i := by
  have := v.dirEnd_le
  constructor
  case left =>
    show (inserted d bs).natAt (16 + 4 * i) 2 = d.natAt (16 + 4 * i) 2
    simp (disch := omega) only [inserted, natAt_writeNat_of_disjoint, natAt_write_of_disjoint]
  case right =>
    show (inserted d bs).natAt (16 + 4 * i + 2) 2 = d.natAt (16 + 4 * i + 2) 2
    simp (disch := omega) only [inserted, natAt_writeNat_of_disjoint, natAt_write_of_disjoint]

theorem inserted_slice_new : (inserted d bs).slice (freeEnd d - bs.length) bs.length = bs := by
  have := v.dirEnd_le
  have := v.freeEnd_le
  simp (disch := omega) only [inserted, slice_writeNat_of_disjoint]
  exact slice_write_self (by omega) rfl

theorem inserted_slice_old (h : freeEnd d ≤ off) :
    (inserted d bs).slice off len = d.slice off len := by
  have := v.dirEnd_le
  simp (disch := omega) only [inserted, slice_writeNat_of_disjoint, slice_write_of_disjoint]

include h₀ in
theorem Valid.inserted : Valid (inserted d bs) := by
  have hd := v.dirEnd_le
  have hf := v.freeEnd_le
  obtain ⟨hno, hnl⟩ := inserted_slot_new v hr
  have hc := inserted_slotCount v hr
  have hfs := inserted_freeStart v hr
  have hfe : freeEnd (SlottedPage.inserted d bs) = freeEnd d - bs.length :=
    inserted_freeEnd v
  refine ⟨?_, ?_, by omega, by omega, by omega, ?_⟩
  · rw [inserted_header v hr (by omega), v.magic_eq]
  · rw [natAt, inserted_header v hr (by omega)]
    exact v.version_eq
  · intro i hi hn
    by_cases hic : i = slotCount d
    case pos => subst hic; omega
    case neg =>
      obtain ⟨ho, hl⟩ := inserted_slot_old v hr (i := i) (by omega)
      have := v.live i (by omega) (hl ▸ hn)
      omega

include h₀ in
theorem records_inserted : records (inserted d bs) = records d ++ [some bs] := by
  have hc := inserted_slotCount v hr
  rw [records_eq_iff]
  refine ⟨by simp [hc], fun i hi => ?_⟩
  by_cases hic : i = slotCount d
  case pos =>
    subst hic
    have ⟨ho, hl⟩ := inserted_slot_new v hr
    rw [entry_live hl h₀ (by rw [ho, inserted_slice_new v hr])]
    simp
  case neg =>
    have ⟨ho, hl⟩ := inserted_slot_old v hr (i := i) (by omega)
    rw [List.getElem?_append_left (by simp; omega), getElem?_records (by omega)]
    refine congrArg some (entry_congr hl fun hn => ?_).symm
    rw [ho, inserted_slice_old v hr (v.live i (by omega) hn).left]

end Insert

theorem WellFormed.inserted (w : WellFormed d) (h₀ : 0 < bs.length)
    (hr : bs.length + 4 ≤ freeEnd d - freeStart d) : WellFormed (inserted d bs) := by
  have v := w.toValid
  have ⟨hno, hnl⟩ := inserted_slot_new v hr
  have hc := inserted_slotCount v hr
  refine ⟨v.inserted h₀ hr, ?_, ?_⟩
  · rw [inserted_freeStart v hr, hc, w.dirEnd_eq]
    omega
  -- The new record lies below `free_end`, every old one above it.
  · intro i hi j hj hij hni hnj
    by_cases hic : i = slotCount d
    case pos =>
      have ⟨ho, hl⟩ := inserted_slot_old v hr (i := j) (by omega)
      have := w.live j (by omega) (hl ▸ hnj)
      subst hic; omega
    case neg =>
      have ⟨hoi, hli⟩ := inserted_slot_old v hr (i := i) (by omega)
      by_cases hjc : j = slotCount d
      case pos =>
        have := w.live i (by omega) (hli ▸ hni)
        subst hjc; omega
      case neg =>
        have ⟨hoj, hlj⟩ := inserted_slot_old v hr (i := j) (by omega)
        rw [hoi, hoj, hli, hlj]
        exact w.disjoint i (by omega) j (by omega) hij (hli ▸ hni) (hlj ▸ hnj)

-- The page `d'` is `d` with the entry of slot `i` set to offset `o` and length `l`.
structure SlotWritten (d d' : PageData) (i o l : Nat) : Prop where
  header  : ∀ off len, off + len ≤ 10 → d'.slice off len = d.slice off len
  free    : freeStart d ≤ freeEnd d' ∧ freeEnd d' ≤ freeEnd d
  slot    : slotOffset d' i = o ∧ slotLength d' i = l
  others  : ∀ j < slotCount d, j ≠ i →
              slotOffset d' j = slotOffset d j ∧ slotLength d' j = slotLength d j

-- The bytes of the other records are also kept.
structure SlotSet (d d' : PageData) (i o l : Nat) : Prop extends SlotWritten d d' i o l where
  records : ∀ j < slotCount d, j ≠ i → slotLength d j ≠ 0 →
              d'.slice (slotOffset d j) (slotLength d j) = d.slice (slotOffset d j) (slotLength d j)

namespace SlotWritten

variable (s : SlotWritten d d' i o l)

include s

theorem slotCount_eq : slotCount d' = slotCount d :=
  congrArg leNat <| s.header 6 2 (by omega)

theorem freeStart_eq : freeStart d' = freeStart d :=
  congrArg leNat <| s.header 8 2 (by omega)

theorem valid (v : Valid d) (hl : l ≠ 0 → freeEnd d' ≤ o ∧ o + l ≤ 4096) : Valid d' := by
  have hc := s.slotCount_eq
  have hfs := s.freeStart_eq
  have hf := s.free
  have := v.dirEnd_le
  have := v.freeEnd_le
  refine ⟨?_, ?_, by omega, by omega, by omega, ?_⟩
  · rw [s.header 0 4 (by omega), v.magic_eq]
  · rw [natAt, s.header 4 2 (by omega)]
    exact v.version_eq
  · intro j hj hn
    by_cases hji : j = i
    case pos =>
      rw [hji, s.slot.left, s.slot.right]
      exact hl (by rw [← s.slot.right, ← hji]; exact hn)
    case neg =>
      obtain ⟨hoj, hlj⟩ := s.others j (by omega) hji
      have := v.live j (by omega) (hlj ▸ hn)
      omega

end SlotWritten

namespace SlotSet

variable (s : SlotSet d d' i o l)

include s

theorem wellFormed (w : WellFormed d) (hl : l ≠ 0 → freeEnd d' ≤ o ∧ o + l ≤ 4096)
    (hd : l ≠ 0 → ∀ j < slotCount d, j ≠ i → slotLength d j ≠ 0 →
      slotOffset d j + slotLength d j ≤ o ∨ o + l ≤ slotOffset d j) : WellFormed d' := by
  have hc := s.slotCount_eq
  constructor
  case toValid => exact s.valid w.toValid hl
  case dirEnd_eq => rw [s.freeStart_eq, hc, w.dirEnd_eq]
  case disjoint =>
    intro j hj k hk hjk hnj hnk
    by_cases hji : j = i
    case pos =>
      have ⟨hok, hlk⟩ := s.others k (by omega) (hji ▸ Ne.symm hjk)
      rw [hji, s.slot.left, s.slot.right, hok, hlk]
      exact (hd (by rw [← s.slot.right, ← hji]; exact hnj) k (by omega) (hji ▸ Ne.symm hjk)
        (hlk ▸ hnk)).symm
    case neg =>
      have ⟨hoj, hlj⟩ := s.others j (by omega) hji
      by_cases hki : k = i
      case pos =>
        rw [hki, s.slot.left, s.slot.right, hoj, hlj]
        exact hd (by rw [← s.slot.right, ← hki]; exact hnk) j (by omega) hji (hlj ▸ hnj)
      case neg =>
        have ⟨hok, hlk⟩ := s.others k (by omega) hki
        rw [hoj, hlj, hok, hlk]
        exact w.disjoint j (by omega) k (by omega) hjk (hlj ▸ hnj) (hlk ▸ hnk)

theorem records_eq (hi : i < slotCount d) (he : entry d' i = e) :
    SlottedPage.records d' = (SlottedPage.records d).set i e := by
  rw [records_eq_iff]
  refine ⟨by simp [s.slotCount_eq], fun j hj => ?_⟩
  rw [s.slotCount_eq] at hj
  by_cases hji : j = i
  case pos =>
    subst hji
    rw [List.getElem?_set_self (by simpa using hj), he]
  case neg =>
    have ⟨hoj, hlj⟩ := s.others j hj hji
    rw [List.getElem?_set_ne (Ne.symm hji), getElem?_records hj]
    exact congrArg some (entry_congr hlj fun hn => by rw [hoj, s.records j hj hji hn]).symm

end SlotSet

theorem slotWritten_rewritten (v : Valid d) (hi : i < slotCount d) (hn : slotLength d i ≠ 0)
    (hb : bs.length ≤ slotLength d i) :
    SlotWritten d (rewritten d i bs) i (slotOffset d i) bs.length := by
  have hd := v.dirEnd_le
  have hf := v.free
  have ⟨hlo, hhi⟩ := v.live i hi hn
  constructor
  case header =>
    intro off len h
    simp (disch := omega) only [rewritten, slice_writeNat_of_disjoint, slice_write_of_disjoint]
  case free =>
    have he : freeEnd (rewritten d i bs) = freeEnd d := by
      show (rewritten d i bs).natAt 10 2 = d.natAt 10 2
      simp (disch := omega) only [rewritten, natAt_writeNat_of_disjoint, natAt_write_of_disjoint]
    omega
  case slot =>
    constructor
    case left =>
      show (rewritten d i bs).natAt (16 + 4 * i) 2 = d.natAt (16 + 4 * i) 2
      simp (disch := omega) only [rewritten, natAt_writeNat_of_disjoint, natAt_write_of_disjoint]
    case right => exact natAt_writeNat_self (by omega) (by omega)
  case others =>
    intro j hj hji
    constructor
    case left =>
      show (rewritten d i bs).natAt (16 + 4 * j) 2 = d.natAt (16 + 4 * j) 2
      simp (disch := omega) only [rewritten, natAt_writeNat_of_disjoint, natAt_write_of_disjoint]
    case right =>
      show (rewritten d i bs).natAt (16 + 4 * j + 2) 2 = d.natAt (16 + 4 * j + 2) 2
      simp (disch := omega) only [rewritten, natAt_writeNat_of_disjoint, natAt_write_of_disjoint]

theorem slotSet_rewritten (w : WellFormed d) (hi : i < slotCount d) (hn : slotLength d i ≠ 0)
    (hb : bs.length ≤ slotLength d i) :
    SlotSet d (rewritten d i bs) i (slotOffset d i) bs.length := by
  have hd := w.dirEnd_le
  have hf := w.free
  have ⟨hlo, hhi⟩ := w.live i hi hn
  refine ⟨slotWritten_rewritten w.toValid hi hn hb, ?_⟩
  intro j hj hji hnj
  have := w.disjoint i hi j hj (Ne.symm hji) hn hnj
  have := w.live j hj hnj
  simp (disch := omega) only [rewritten, slice_writeNat_of_disjoint, slice_write_of_disjoint]

theorem slotWritten_relocated (v : Valid d) (hi : i < slotCount d)
    (hr : bs.length ≤ freeEnd d - freeStart d) :
    SlotWritten d (relocated d i bs) i (freeEnd d - bs.length) bs.length := by
  have hd := v.dirEnd_le
  have hf := v.free
  have hfe := v.freeEnd_le
  constructor
  case header =>
    intro off len h
    simp (disch := omega) only [relocated, slice_writeNat_of_disjoint, slice_write_of_disjoint]
  case free =>
    have he : freeEnd (relocated d i bs) = freeEnd d - bs.length :=
      natAt_writeNat_self (by omega) (by omega)
    omega
  case slot =>
    constructor
    case left =>
      show (relocated d i bs).natAt (16 + 4 * i) 2 = _
      simp (disch := omega) only [relocated, natAt_writeNat_of_disjoint, natAt_writeNat_self]
    case right =>
      show (relocated d i bs).natAt (16 + 4 * i + 2) 2 = _
      simp (disch := omega) only [relocated, natAt_writeNat_of_disjoint, natAt_writeNat_self]
  case others =>
    intro j hj hji
    constructor
    case left =>
      show (relocated d i bs).natAt (16 + 4 * j) 2 = d.natAt (16 + 4 * j) 2
      simp (disch := omega) only [relocated, natAt_writeNat_of_disjoint, natAt_write_of_disjoint]
    case right =>
      show (relocated d i bs).natAt (16 + 4 * j + 2) 2 = d.natAt (16 + 4 * j + 2) 2
      simp (disch := omega) only [relocated, natAt_writeNat_of_disjoint, natAt_write_of_disjoint]

theorem slotSet_relocated (w : WellFormed d) (hi : i < slotCount d)
    (hr : bs.length ≤ freeEnd d - freeStart d) :
    SlotSet d (relocated d i bs) i (freeEnd d - bs.length) bs.length := by
  have hd := w.dirEnd_le
  have hf := w.free
  refine ⟨slotWritten_relocated w.toValid hi hr, ?_⟩
  intro j hj hji hnj
  have := w.live j hj hnj
  simp (disch := omega) only [relocated, slice_writeNat_of_disjoint, slice_write_of_disjoint]

theorem slotWritten_deleted (v : Valid d) (hi : i < slotCount d) :
    SlotWritten d (deleted d i) i 0 0 := by
  have hd := v.dirEnd_le
  have hf := v.free
  have hfe := v.freeEnd_le
  constructor
  case header =>
    intro off len h
    simp (disch := omega) only [deleted, slice_writeNat_of_disjoint]
  case free =>
    have he : freeEnd (deleted d i) = freeEnd d := by
      show (deleted d i).natAt 10 2 = d.natAt 10 2
      simp (disch := omega) only [deleted, natAt_writeNat_of_disjoint]
    omega
  case slot =>
    constructor
    case left =>
      show (deleted d i).natAt (16 + 4 * i) 2 = _
      simp (disch := omega) only [deleted, natAt_writeNat_of_disjoint, natAt_writeNat_self]
    case right => exact natAt_writeNat_self (by omega) (by omega)
  case others =>
    intro j hj hji
    constructor
    case left =>
      show (deleted d i).natAt (16 + 4 * j) 2 = d.natAt (16 + 4 * j) 2
      simp (disch := omega) only [deleted, natAt_writeNat_of_disjoint]
    case right =>
      show (deleted d i).natAt (16 + 4 * j + 2) 2 = d.natAt (16 + 4 * j + 2) 2
      simp (disch := omega) only [deleted, natAt_writeNat_of_disjoint]

theorem slotSet_deleted (w : WellFormed d) (hi : i < slotCount d) :
    SlotSet d (deleted d i) i 0 0 := by
  have hd := w.dirEnd_le
  have hf := w.free
  refine ⟨slotWritten_deleted w.toValid hi, ?_⟩
  intro j hj hji hnj
  have := w.live j hj hnj
  simp (disch := omega) only [deleted, slice_writeNat_of_disjoint]

theorem Compacted.valid (v : Valid d) (c : Compacted d d')
    (hs : liveSum d (SlottedPage.slotCount d) ≤ 4096 - SlottedPage.freeStart d) : Valid d' := by
  have hd := v.dirEnd_le
  have hf := v.free
  have hfe := v.freeEnd_le
  have hc := c.slotCount
  have hfs := c.freeStart
  have he := c.freeEnd
  refine ⟨?_, ?_, by omega, by omega, by omega, ?_⟩
  · rw [c.header 0 4 (by omega), v.magic_eq]
  · rw [natAt, c.header 4 2 (by omega)]
    exact v.version_eq
  · intro i hi hn
    rw [hc] at hi
    rw [c.lengths i hi] at hn ⊢
    have hm := liveSum_mono (d := d) (i := i + 1) hi
    have ho := c.offsets i hi hn
    simp only [liveSum] at hm ho
    omega

theorem Compacted.wellFormed (w : WellFormed d) (c : Compacted d d')
    (hs : liveSum d (SlottedPage.slotCount d) ≤ 4096 - SlottedPage.freeStart d) : WellFormed d' := by
  have hc := c.slotCount
  constructor
  case toValid => exact c.valid w.toValid hs
  case dirEnd_eq => rw [c.freeStart, hc, w.dirEnd_eq]
  case disjoint =>
    -- The records are packed downwards in slot order.
    have hlt : ∀ i j, i < j → j < SlottedPage.slotCount d → slotLength d i ≠ 0 →
        slotLength d j ≠ 0 → slotOffset d' j + slotLength d j ≤ slotOffset d' i := by
      intro i j hij hj hni hnj
      have hm₁ := liveSum_mono (d := d) (i := i + 1) (j := j) hij
      have hm₂ := liveSum_mono (d := d) (i := j + 1) hj
      rw [c.offsets i (by omega) hni, c.offsets j hj hnj]
      simp only [liveSum] at hm₁ hm₂ ⊢
      omega
    intro i hi j hj hij hni hnj
    rw [hc] at hi hj
    rw [c.lengths i hi, c.lengths j hj] at *
    cases Nat.lt_or_gt_of_ne hij
    case inl h => exact .inr <| hlt i j h hj hni hnj
    case inr h => exact .inl <| hlt j i h hi hnj hni

theorem Compacted.records_eq (c : Compacted d d') : SlottedPage.records d' = SlottedPage.records d := by
  rw [records_eq_iff]
  refine ⟨by simp [c.slotCount], fun i hi => ?_⟩
  rw [c.slotCount] at hi
  rw [getElem?_records hi]
  exact congrArg some (entry_congr (c.lengths i hi) (c.records i hi)).symm

theorem read_eq (v : Valid d) (slot : SlotId) :
    read d slot = some (match (records d)[slot.toNat]? with
      | none           => .error <| bad "SlottedPage::Read: slot index out of range"
      | some none      => .error ⟨.notFound, "slot is deleted"⟩
      | some (some bs) => .ok bs) := by
  simp only [read, validate_eq_ok_iff.mpr v, load_slotCount, Option.pure_def, Option.bind_eq_bind,
    Option.bind_some]
  by_cases h₁ : slot.toNat ≥ slotCount d
  case pos => rw [if_pos h₁, List.getElem?_eq_none (by simpa using h₁)]
  have hi := Nat.lt_of_not_ge h₁
  have ⟨ho, hl⟩ := entry_load (d := d) (v.slot_bound hi)
  rw [if_neg h₁, getElem?_records hi, ho, hl]
  simp only [Option.bind_some, entry]
  by_cases h₂ : slotLength d slot.toNat = 0
  case pos => rw [if_pos h₂, if_pos h₂]
  case neg =>
    rw [if_neg h₂, if_neg h₂, load_of_le (v.live _ hi h₂).right]
    rfl

-- The live records of an array, in ascending slot order, where `i` is the slot of the first entry.
def liveFrom (i : Nat) : List (Option Bytes) → List (SlotId × Bytes)
  | []            => []
  | none :: es    => liveFrom (i + 1) es
  | some bs :: es => (UInt16.ofNat i, bs) :: liveFrom (i + 1) es

-- Visits the records of a list until the visitor asks to stop.
def visit (fn : σ → SlotId → Bytes → σ × Bool) (ctx : σ) : List (SlotId × Bytes) → σ
  | []               => ctx
  | (slot, bs) :: rs => if (fn ctx slot bs).snd then visit fn (fn ctx slot bs).fst rs
                        else (fn ctx slot bs).fst

theorem scanSlots_eq {fn : σ → SlotId → Bytes → σ × Bool} (v : Valid d) (h : i + n = slotCount d) :
    scanSlots d fn ctx i n = some (visit fn ctx (liveFrom i ((List.range' i n).map (entry d)))) := by
  induction n generalizing i ctx
  case zero => rfl
  case succ n hi =>
    have ⟨ho, hl⟩ := entry_load (d := d) (v.slot_bound (i := i) (by omega))
    rw [List.range'_succ, List.map_cons]
    simp only [scanSlots, ho, hl, Option.pure_def, Option.bind_eq_bind, Option.bind_some]
    by_cases h₁ : slotLength d i = 0
    case pos =>
      have he : entry d i = none := if_pos h₁
      rw [if_pos h₁, he, liveFrom, hi (by omega)]
    case neg =>
      have he : entry d i = some (d.slice (slotOffset d i) (slotLength d i)) := if_neg h₁
      rw [if_neg h₁, he, liveFrom, visit, load_of_le (v.live i (by omega) h₁).right,
        Option.bind_some, hi (by omega)]
      split <;> rfl

theorem scan_eq {fn : σ → SlotId → Bytes → σ × Bool} (v : Valid d) :
    scan d fn ctx = some (.ok (), visit fn ctx (liveFrom 0 (records d))) := by
  simp only [scan, validate_eq_ok_iff.mpr v, load_slotCount, Option.pure_def, Option.bind_eq_bind,
    Option.bind_some]
  rw [scanSlots_eq v (by omega), ← List.range_eq_range']
  rfl

-- The bytes of a page after a call on it.
def after (d : PageData) (c : PageCall α) : PageData :=
  c.snd.getD d

inductive Op
  | insert (record : Option Bytes)
  | update (slot : SlotId) (record : Option Bytes)
  | delete (slot : SlotId)
  | compact

def Op.run (d : PageData) : Op → Mem PageData
  | insert record      => do return after d (← SlottedPage.insert d record)
  | update slot record => do return after d (← SlottedPage.update d slot record)
  | delete slot        => do return after d (← SlottedPage.delete d slot)
  | compact            => do return after d (← SlottedPage.compact d)

def run (d : PageData) : List Op → Mem PageData
  | []        => some d
  | op :: ops => do run (← op.run d) ops

-- What each call does to the array that a page stands for. A call that fails leaves all bytes as they
-- are.

def Inserts (d : PageData) (record : Option Bytes) (c : PageCall SlotId) : Prop :=
  match c.fst with
  | .ok slot => ∃ bs, record = some bs ∧ slot.toNat = (records d).length ∧
                  records (after d c) = records d ++ [some bs]
  | .error _ => after d c = d

def Updates (d : PageData) (slot : SlotId) (record : Option Bytes) (c : PageCall Unit) : Prop :=
  match c.fst with
  | .ok ()   => ∃ old bs, (records d)[slot.toNat]? = some (some old) ∧ record = some bs ∧
                  records (after d c) = (records d).set slot.toNat (some bs)
  | .error _ => after d c = d

def Deletes (d : PageData) (slot : SlotId) (c : PageCall Unit) : Prop :=
  match c.fst with
  | .ok ()   => ∃ old, (records d)[slot.toNat]? = some (some old) ∧
                  records (after d c) = (records d).set slot.toNat none
  | .error _ => after d c = d

def Compacts (d : PageData) (c : PageCall Unit) : Prop :=
  match c.fst with
  | .ok ()   => records (after d c) = records d
  | .error _ => after d c = d

theorem getElem?_records_live (hi : i < slotCount d) (hn : slotLength d i ≠ 0) :
    ∃ old, (records d)[i]? = some (some old) :=
  ⟨_, by rw [getElem?_records hi, entry, if_neg hn]⟩

theorem getElem?_records_cases (d : PageData) (i : Nat) :
    (slotCount d ≤ i ∧ (records d)[i]? = none) ∨
    (¬slotCount d ≤ i ∧ slotLength d i = 0 ∧ (records d)[i]? = some none) ∨
    (¬slotCount d ≤ i ∧ slotLength d i ≠ 0 ∧ ∃ old, (records d)[i]? = some (some old)) := by
  by_cases hi : slotCount d ≤ i
  case pos => exact .inl ⟨hi, List.getElem?_eq_none (by simpa using hi)⟩
  case neg =>
    by_cases hn : slotLength d i = 0
    case pos => exact .inr <| .inl ⟨hi, hn, by rw [getElem?_records (Nat.lt_of_not_ge hi), entry, if_pos hn]⟩
    case neg => exact .inr <| .inr ⟨hi, hn, getElem?_records_live (Nat.lt_of_not_ge hi) hn⟩

theorem insert_spec (w : WellFormed d) (record : Option Bytes) :
    ∃ c, insert d record = some c ∧ WellFormed (after d c) ∧ Inserts d record c := by
  obtain ⟨e, h⟩ | ⟨bs, hb, v, h₀, -, hr, h⟩ := insert_cases d record
  case inl => exact ⟨_, h, w, rfl⟩
  case inr =>
    refine ⟨_, h, w.inserted h₀ hr, bs, hb, ?_, records_inserted v h₀ hr⟩
    rw [length_records, UInt16.toNat_ofNat_of_lt' slotCount_lt]

theorem update_spec (w : WellFormed d) (slot : SlotId) (record : Option Bytes) :
    ∃ c, update d slot record = some c ∧ WellFormed (after d c) ∧ Updates d slot record c := by
  obtain ⟨e, h⟩ | ⟨bs, hb, v, hi, h₀, hn, h⟩ := update_cases d slot record
  case inl => exact ⟨_, h, w, rfl⟩
  have ⟨old, ho⟩ := getElem?_records_live hi hn
  have ⟨hlo, hhi⟩ := v.live _ hi hn
  obtain ⟨hl, h⟩ | ⟨hr, hl, h⟩ := h
  case inr.inl =>
    have s := slotSet_rewritten w hi hn hl
    refine ⟨_, h, s.wellFormed w (fun _ => ⟨by have := s.free; omega, by omega⟩) ?_, old, bs, ho, hb,
      s.records_eq hi <| entry_live s.slot.right h₀ ?_⟩
    · intro _ j hj hji hnj
      have := w.disjoint _ hi j hj (Ne.symm hji) hn hnj
      omega
    · rw [s.slot.left, rewritten, slice_writeNat_of_disjoint, slice_write_self (by omega) rfl]
      have := v.dirEnd_le
      have := v.free
      omega
  case inr.inr =>
    have s := slotSet_relocated w hi hr
    have hfe := v.freeEnd_le
    have hfd : freeEnd (relocated d slot.toNat bs) = freeEnd d - bs.length :=
      natAt_writeNat_self (by omega) (by omega)
    refine ⟨_, h, s.wellFormed w (fun _ => ⟨by simp [hfd], by omega⟩) ?_, old, bs, ho, hb,
      s.records_eq hi <| entry_live s.slot.right h₀ ?_⟩
    · intro _ j hj _ hnj
      have := w.live j hj hnj
      omega
    · have := v.dirEnd_le
      have := v.free
      rw [s.slot.left, relocated]
      simp (disch := omega) only [slice_writeNat_of_disjoint]
      exact slice_write_self (by omega) rfl

theorem delete_spec (w : WellFormed d) (slot : SlotId) :
    ∃ c, delete d slot = some c ∧ WellFormed (after d c) ∧ Deletes d slot c := by
  obtain ⟨e, h⟩ | ⟨v, hi, hn, h⟩ := delete_cases d slot
  case inl => exact ⟨_, h, w, rfl⟩
  case inr =>
    have ⟨old, ho⟩ := getElem?_records_live hi hn
    have s := slotSet_deleted w hi
    exact ⟨_, h, s.wellFormed w (absurd rfl ·) (absurd rfl ·), old, ho,
      s.records_eq hi <| if_pos s.slot.right⟩

-- With the errors that the calls end with.

theorem insert_outcome (w : WellFormed d) (h₀ : 0 < bs.length) (hm : bs.length ≤ 4076) :
    (∃ d', insert d (some bs) = some (.ok (UInt16.ofNat (records d).length), some d') ∧ WellFormed d' ∧
      records d' = records d ++ [some bs]) ∨
    (insert d (some bs) = some (.error ⟨.bufferFull, "page full"⟩, none) ∧
      freeEnd d - freeStart d < 4 + bs.length) := by
  have heq := insert_eq w.toValid h₀ hm
  split at heq
  case isTrue h => exact .inr ⟨heq, h⟩
  case isFalse =>
    refine .inl ⟨_, ?_, w.inserted h₀ (by omega), records_inserted w.toValid h₀ (by omega)⟩
    rw [heq, length_records]

theorem update_outcome (w : WellFormed d) (slot : SlotId) (h₀ : 0 < bs.length) (hm : bs.length ≤ 4076) :
    match (records d)[slot.toNat]? with
    | none          =>
      update d slot (some bs) = some (.error <| bad "SlottedPage::Update: slot index out of range", none)
    | some none     => update d slot (some bs) = some (.error ⟨.notFound, "slot is deleted"⟩, none)
    | some (some _) =>
      (∃ d', update d slot (some bs) = some (.ok (), some d') ∧ WellFormed d' ∧
        records d' = (records d).set slot.toNat (some bs)) ∨
      update d slot (some bs) = some (.error ⟨.bufferFull, "record cannot grow in the free region"⟩, none) := by
  have heq := update_eq w.toValid slot h₀ hm
  have ⟨c, hc, hw, hu⟩ := update_spec w slot (some bs)
  rcases getElem?_records_cases d slot.toNat with ⟨h₁, hr⟩ | ⟨h₁, h₂, hr⟩ | ⟨h₁, h₂, _, hr⟩ <;> rw [hr]
  · rwa [if_pos h₁] at heq
  · rwa [if_neg h₁, if_pos h₂] at heq
  · rw [if_neg h₁, if_neg h₂] at heq
    have hok : ∀ d', update d slot (some bs) = some (.ok (), some d') → WellFormed d' ∧
        records d' = (records d).set slot.toNat (some bs) := by
      intro d' h
      cases hc.symm.trans h
      have ⟨_, _, _, hb, hr⟩ := hu
      cases hb
      exact ⟨hw, hr⟩
    split_ifs at heq
    · exact .inl ⟨_, heq, hok _ heq⟩
    · exact .inr heq
    · exact .inl ⟨_, heq, hok _ heq⟩

theorem delete_outcome (w : WellFormed d) (slot : SlotId) :
    match (records d)[slot.toNat]? with
    | none          => delete d slot = some (.error <| bad "SlottedPage::Delete: slot index out of range", none)
    | some none     => delete d slot = some (.error ⟨.notFound, "slot is already deleted"⟩, none)
    | some (some _) =>
      ∃ d', delete d slot = some (.ok (), some d') ∧ WellFormed d' ∧ records d' = (records d).set slot.toNat none := by
  have heq := delete_eq w.toValid slot
  have ⟨c, hc, hw, hu⟩ := delete_spec w slot
  rcases getElem?_records_cases d slot.toNat with ⟨h₁, hr⟩ | ⟨h₁, h₂, hr⟩ | ⟨h₁, h₂, _, hr⟩ <;> rw [hr]
  · rwa [if_pos h₁] at heq
  · rwa [if_neg h₁, if_pos h₂] at heq
  · rw [if_neg h₁, if_neg h₂] at heq
    cases hc.symm.trans heq
    have ⟨_, _, hr⟩ := hu
    exact ⟨_, heq, hw, hr⟩

theorem compact_spec (w : WellFormed d) :
    ∃ c, compact d = some c ∧ WellFormed (after d c) ∧ Compacts d c := by
  obtain ⟨e, h⟩ | ⟨v, hs, d', h, c⟩ := compact_cases d
  case inl => exact ⟨_, h, w, rfl⟩
  case inr => exact ⟨_, h, c.wellFormed w hs, c.records_eq⟩

theorem Op.run_wellFormed (w : WellFormed d) (op : Op) : ∃ d', op.run d = some d' ∧ WellFormed d' := by
  cases op
  case insert record =>
    have ⟨c, h, w, _⟩ := insert_spec w record
    exact ⟨_, by simp [Op.run, h], w⟩
  case update slot record =>
    have ⟨c, h, w, _⟩ := update_spec w slot record
    exact ⟨_, by simp [Op.run, h], w⟩
  case delete slot =>
    have ⟨c, h, w, _⟩ := delete_spec w slot
    exact ⟨_, by simp [Op.run, h], w⟩
  case compact =>
    have ⟨c, h, w, _⟩ := compact_spec w
    exact ⟨_, by simp [Op.run, h], w⟩

theorem run_wellFormed (w : WellFormed d) (ops : List Op) : ∃ d', run d ops = some d' ∧ WellFormed d' := by
  induction ops generalizing d
  case nil => exact ⟨d, rfl, w⟩
  case cons op ops hi =>
    have ⟨d₁, h₁, w₁⟩ := op.run_wellFormed w
    have ⟨d₂, h₂, w₂⟩ := hi w₁
    exact ⟨d₂, by simp [run, h₁, h₂], w₂⟩

-- A slotted page is an append-only array of optional byte strings.
theorem run_init_array (ops : List Op) : ∃ d, run init ops = some d ∧
    (∀ record, ∃ c, insert d record = some c ∧ Inserts d record c) ∧
    (∀ slot record, ∃ c, update d slot record = some c ∧ Updates d slot record c) ∧
    (∀ slot, ∃ c, delete d slot = some c ∧ Deletes d slot c) ∧
    (∃ c, compact d = some c ∧ Compacts d c) ∧
    (∀ slot, read d slot = some (match (records d)[slot.toNat]? with
      | none           => .error <| bad "SlottedPage::Read: slot index out of range"
      | some none      => .error ⟨.notFound, "slot is deleted"⟩
      | some (some bs) => .ok bs)) ∧
    (∀ (σ : Type) (fn : σ → SlotId → Bytes → σ × Bool) (ctx : σ),
      scan d fn ctx = some (.ok (), visit fn ctx (liveFrom 0 (records d)))) := by
  have ⟨d, h, w⟩ := run_wellFormed .init ops
  refine ⟨d, h, fun record => ?_, fun slot record => ?_, fun slot => ?_, ?_, read_eq w.toValid,
    fun _ _ _ => scan_eq w.toValid⟩
  · have ⟨c, hc, _, hs⟩ := insert_spec w record
    exact ⟨c, hc, hs⟩
  · have ⟨c, hc, _, hs⟩ := update_spec w slot record
    exact ⟨c, hc, hs⟩
  · have ⟨c, hc, _, hs⟩ := delete_spec w slot
    exact ⟨c, hc, hs⟩
  · have ⟨c, hc, _, hs⟩ := compact_spec w
    exact ⟨c, hc, hs⟩

end NexusDb.SlottedPage
