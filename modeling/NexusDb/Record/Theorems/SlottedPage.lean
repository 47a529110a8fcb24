import NexusDb.Record.SlottedPage

open ByteBlock Bytes

namespace NexusDb.SlottedPage

def slotCount (d : PageData) : Nat :=
  d.natAt 6 2

def freeStart (d : PageData) : Nat :=
  d.natAt 8 2

def freeEnd (d : PageData) : Nat :=
  d.natAt 10 2

def slotOffset (d : PageData) (i : Nat) : Nat :=
  d.natAt (16 + 4 * i) 2

def slotLength (d : PageData) (i : Nat) : Nat :=
  d.natAt (16 + 4 * i + 2) 2

-- What `validate` checks, with the on-page layout written out.
structure Valid (d : PageData) : Prop where
  magic_eq    : d.slice 0 4 = magic
  version_eq  : d.natAt 4 2 = 1
  dirEnd_le   : 16 + 4 * slotCount d ≤ freeStart d
  free        : freeStart d ≤ freeEnd d
  freeEnd_le  : freeEnd d ≤ 4096
  live        : ∀ i < slotCount d, slotLength d i ≠ 0 →
                  freeEnd d ≤ slotOffset d i ∧ slotOffset d i + slotLength d i ≤ 4096

-- What the pages have that come from `init`. The live records do not overlap, which `validate` does
-- not check.
structure WellFormed (d : PageData) : Prop extends Valid d where
  dirEnd_eq : freeStart d = 16 + 4 * slotCount d
  disjoint  : ∀ i < slotCount d, ∀ j < slotCount d, i ≠ j → slotLength d i ≠ 0 → slotLength d j ≠ 0 →
                slotOffset d i + slotLength d i ≤ slotOffset d j ∨
                slotOffset d j + slotLength d j ≤ slotOffset d i

variable {d d' : PageData}

theorem slotCount_lt : slotCount d < 65536 :=
  natAt_lt d 6 2

theorem load_slotCount : d.loadNat offSlotCount 2 = some (slotCount d) :=
  loadNat_of_le (by decide)

theorem load_freeStart : d.loadNat offFreeStart 2 = some (freeStart d) :=
  loadNat_of_le (by decide)

theorem load_freeEnd : d.loadNat offFreeEnd 2 = some (freeEnd d) :=
  loadNat_of_le (by decide)

theorem entry_load (h : 16 + 4 * i + 4 ≤ 4096) :
    d.loadNat (entryAt i) 2 = some (slotOffset d i) ∧
    d.loadNat (entryAt i + 2) 2 = some (slotLength d i) := by
  have he : entryAt i = 16 + 4 * i := by simp; omega
  rw [he, loadNat_of_le (by omega), loadNat_of_le (by omega)]
  exact ⟨rfl, rfl⟩

theorem validateSlots_total (h : 16 + 4 * (i + n) ≤ 4096) :
    ∃ s, validateSlots d fe i n = some s := by
  induction n generalizing i
  case zero => exact ⟨_, rfl⟩
  case succ n hi =>
    have ⟨ho, hl⟩ := entry_load (d := d) (i := i) (by omega)
    have ⟨s, hs⟩ := hi (i := i + 1) (by omega)
    simp only [validateSlots, ho, hl, hs, Option.pure_def, Option.bind_eq_bind, Option.bind_some]
    split_ifs <;> exact ⟨_, rfl⟩

theorem validateSlots_eq_ok_iff (h : 16 + 4 * (i + n) ≤ 4096) :
    validateSlots d fe i n = some (.ok ()) ↔
      ∀ j, i ≤ j → j < i + n → slotLength d j ≠ 0 →
        fe ≤ slotOffset d j ∧ slotOffset d j + slotLength d j ≤ 4096 := by
  induction n generalizing i
  case zero =>
    simp only [validateSlots, Option.pure_def, true_iff]
    intros
    omega
  case succ n hi =>
    have ⟨ho, hl⟩ := entry_load (d := d) (i := i) (by omega)
    specialize hi (i := i + 1) (by omega)
    -- The slots from `i` on are slot `i` and the slots from `i + 1` on.
    have hs : (∀ j, i ≤ j → j < i + (n + 1) → slotLength d j ≠ 0 →
          fe ≤ slotOffset d j ∧ slotOffset d j + slotLength d j ≤ 4096) ↔
        (slotLength d i ≠ 0 → fe ≤ slotOffset d i ∧ slotOffset d i + slotLength d i ≤ 4096) ∧
        (∀ j, i + 1 ≤ j → j < i + 1 + n → slotLength d j ≠ 0 →
          fe ≤ slotOffset d j ∧ slotOffset d j + slotLength d j ≤ 4096) := by
      constructor
      case mp => exact fun h => ⟨h i (by omega) (by omega), fun j _ _ => h j (by omega) (by omega)⟩
      case mpr =>
        intro ⟨h₁, h₂⟩ j hj hj'
        by_cases he : j = i
        case pos => exact he ▸ h₁
        case neg => exact h₂ j (by omega) (by omega)
    rw [hs, ← hi]
    simp only [validateSlots, ho, hl, Option.pure_def, Option.bind_eq_bind, Option.bind_some]
    split_ifs <;> simp at * <;> omega

theorem validate_total (d : PageData) : ∃ s, validate d = some s := by
  simp only [validate, Option.pure_def, Option.bind_eq_bind]
  rw [load_of_le (by decide), loadNat_of_le (by decide), load_slotCount, load_freeStart,
    load_freeEnd]
  simp only [Option.bind_some]
  split_ifs
  case neg => exact validateSlots_total (by simp_all; omega)
  all_goals exact ⟨_, rfl⟩

theorem validate_eq_ok_iff : validate d = some (.ok ()) ↔ Valid d := by
  simp only [validate, Option.pure_def, Option.bind_eq_bind]
  rw [load_of_le (by decide), loadNat_of_le (by decide), load_slotCount, load_freeStart,
    load_freeEnd]
  simp only [Option.bind_some]
  constructor
  case mp =>
    intro h
    split_ifs at h <;> simp at *
    case neg h₁ h₂ h₃ h₄ h₅ h₆ =>
      have hl := validateSlots_eq_ok_iff (by omega) |>.mp h
      exact ⟨h₁, h₂, by omega, h₅, h₆, fun i hi => hl i (by omega) (by simpa using hi)⟩
  case mpr =>
    intro v
    have h₁ := v.dirEnd_le
    have h₂ := v.free
    have h₃ := v.freeEnd_le
    rw [if_neg (by simpa using v.magic_eq), if_neg (by simpa using v.version_eq),
      if_neg (by simp; omega), if_neg (by simp; omega), if_neg (by simp; omega),
      if_neg (by simp; omega)]
    exact validateSlots_eq_ok_iff (by omega) |>.mpr fun i _ hi => v.live i (by simpa using hi)

theorem validate_cases (d : PageData) :
    (Valid d ∧ validate d = some (.ok ())) ∨ (¬Valid d ∧ ∃ e, validate d = some (.error e)) := by
  have ⟨s, hs⟩ := validate_total d
  match s with
  | .ok ()   => exact .inl ⟨validate_eq_ok_iff.mp hs, hs⟩
  | .error e => exact .inr ⟨fun v => by simp [validate_eq_ok_iff.mpr v] at hs, e, hs⟩

theorem Valid.slot_bound (v : Valid d) (h : i < slotCount d) : 16 + 4 * i + 4 ≤ 4096 := by
  have := v.dirEnd_le
  have := v.free
  have := v.freeEnd_le
  omega

-- The bytes that each mutating call leaves when it succeeds.

def inserted (d : PageData) (bs : Bytes) : PageData :=
  d.write (freeEnd d - bs.length) bs
    |>.writeNat (16 + 4 * slotCount d) 2 (freeEnd d - bs.length)
    |>.writeNat (16 + 4 * slotCount d + 2) 2 bs.length
    |>.writeNat 6 2 (slotCount d + 1)
    |>.writeNat 8 2 (freeStart d + 4)
    |>.writeNat 10 2 (freeEnd d - bs.length)

def rewritten (d : PageData) (i : Nat) (bs : Bytes) : PageData :=
  d.write (slotOffset d i) bs
    |>.writeNat (16 + 4 * i + 2) 2 bs.length

def relocated (d : PageData) (i : Nat) (bs : Bytes) : PageData :=
  d.write (freeEnd d - bs.length) bs
    |>.writeNat (16 + 4 * i) 2 (freeEnd d - bs.length)
    |>.writeNat (16 + 4 * i + 2) 2 bs.length
    |>.writeNat 10 2 (freeEnd d - bs.length)

def deleted (d : PageData) (i : Nat) : PageData :=
  d.writeNat (16 + 4 * i) 2 0
    |>.writeNat (16 + 4 * i + 2) 2 0

theorem store_entry (h : 16 + 4 * i + 4 ≤ 4096) :
    d.storeNat (entryAt i) 2 v = some (d.writeNat (16 + 4 * i) 2 v) ∧
    d.storeNat (entryAt i + 2) 2 v = some (d.writeNat (16 + 4 * i + 2) 2 v) := by
  have he : entryAt i = 16 + 4 * i := by simp; omega
  rw [he]
  exact ⟨storeNat_of_le (by omega), storeNat_of_le (by omega)⟩

-- What a call returns on a page that is valid.

theorem insert_eq (v : Valid d) (h₀ : 0 < bs.length) (hm : bs.length ≤ 4076) :
    insert d (some bs) = some (if freeEnd d - freeStart d < 4 + bs.length then
        (.error ⟨.bufferFull, "page full"⟩, none)
      else
        (.ok (UInt16.ofNat (slotCount d)), some (inserted d bs))) := by
  have hd := v.dirEnd_le
  have hf := v.free
  have he := v.freeEnd_le
  simp only [insert, Option.getD_some, Option.pure_def, Option.bind_eq_bind, if_neg h₀.ne']
  rw [if_neg (show ¬bs.length > maxRecordSize from Nat.not_lt.mpr hm), validate_eq_ok_iff.mpr v, load_slotCount,
    load_freeStart, load_freeEnd]
  simp only [Option.bind_some, slotEntrySize, offFreeEnd, offFreeStart, headerSize, offSlotCount]
  split
  case isTrue => rfl
  case isFalse h =>
    rw [store_of_le (by omega), Option.bind_some, storeNat_of_le (by omega), Option.bind_some,
      storeNat_of_le (by omega), Option.bind_some, storeNat_of_le (by omega), Option.bind_some,
      storeNat_of_le (by omega), Option.bind_some, storeNat_of_le (by omega), Option.bind_some]
    simp [inserted, Nat.mul_comm]

theorem update_eq (v : Valid d) (slot : SlotId) (h₀ : 0 < bs.length) (hm : bs.length ≤ 4076) :
    update d slot (some bs) = some (if slot.toNat ≥ slotCount d then
        (.error <| bad "SlottedPage::Update: slot index out of range", none)
      else if slotLength d slot.toNat = 0 then
        (.error ⟨.notFound, "slot is deleted"⟩, none)
      else if bs.length ≤ slotLength d slot.toNat then
        (.ok (), some (rewritten d slot.toNat bs))
      else if freeEnd d - freeStart d < bs.length then
        (.error ⟨.bufferFull, "record cannot grow in the free region"⟩, none)
      else
        (.ok (), some (relocated d slot.toNat bs))) := by
  have hf := v.free
  have he := v.freeEnd_le
  simp only [update, Option.getD_some, Option.pure_def, Option.bind_eq_bind, if_neg h₀.ne']
  rw [if_neg (show ¬bs.length > maxRecordSize from Nat.not_lt.mpr hm), validate_eq_ok_iff.mpr v, Option.bind_some]
  dsimp only
  rw [load_slotCount, Option.bind_some]
  by_cases h₁ : slot.toNat ≥ slotCount d
  case pos => rw [if_pos h₁, if_pos h₁]
  have hb := v.slot_bound (Nat.lt_of_not_ge h₁)
  have ⟨ho, hl⟩ := entry_load (d := d) hb
  rw [if_neg h₁, if_neg h₁, ho, Option.bind_some, hl, Option.bind_some]
  by_cases h₂ : slotLength d slot.toNat = 0
  case pos => rw [if_pos h₂, if_pos h₂]
  have ⟨hlo, hhi⟩ := v.live _ (Nat.lt_of_not_ge h₁) h₂
  rw [if_neg h₂, if_neg h₂]
  by_cases h₃ : bs.length ≤ slotLength d slot.toNat
  case pos =>
    rw [if_pos h₃, if_pos h₃, store_of_le (by omega), Option.bind_some, (store_entry hb).right]
    rfl
  rw [if_neg h₃, if_neg h₃, load_freeStart, Option.bind_some, load_freeEnd, Option.bind_some]
  by_cases h₄ : freeEnd d - freeStart d < bs.length
  case pos => rw [if_pos h₄, if_pos h₄]
  rw [if_neg h₄, if_neg h₄, store_of_le (by omega), Option.bind_some, (store_entry hb).left, Option.bind_some,
    (store_entry hb).right, Option.bind_some, storeNat_of_le (by decide)]
  rfl

theorem delete_eq (v : Valid d) (slot : SlotId) :
    delete d slot = some (if slot.toNat ≥ slotCount d then
        (.error <| bad "SlottedPage::Delete: slot index out of range", none)
      else if slotLength d slot.toNat = 0 then
        (.error ⟨.notFound, "slot is already deleted"⟩, none)
      else
        (.ok (), some (deleted d slot.toNat))) := by
  simp only [delete, Option.pure_def, Option.bind_eq_bind]
  rw [validate_eq_ok_iff.mpr v, load_slotCount]
  simp only [Option.bind_some]
  split
  case isTrue => rfl
  case isFalse h₁ =>
    have hb := v.slot_bound (Nat.lt_of_not_ge h₁)
    rw [(entry_load hb).right]
    simp only [Option.bind_some]
    split
    case isTrue => rfl
    case isFalse =>
      rw [(store_entry hb).left, Option.bind_some, (store_entry hb).right]
      rfl

theorem insert_cases (d : PageData) (record : Option Bytes) :
    (∃ e, insert d record = some (.error e, none)) ∨
    (∃ bs, record = some bs ∧ Valid d ∧ 0 < bs.length ∧ bs.length ≤ 4076 ∧
      bs.length + 4 ≤ freeEnd d - freeStart d ∧
      insert d record = some (.ok (UInt16.ofNat (slotCount d)), some (inserted d bs))) := by
  match record with
  | none    => exact .inl ⟨_, rfl⟩
  | some bs =>
    by_cases h₁ : bs.length = 0
    case pos => exact .inl ⟨_, by simp [insert, h₁]; rfl⟩
    by_cases h₂ : bs.length > maxRecordSize
    case pos => exact .inl ⟨_, by simp only [insert, Option.getD_some, if_neg h₁, if_pos h₂]; rfl⟩
    obtain ⟨v, -⟩ | ⟨-, e, he⟩ := validate_cases d
    case inr =>
      refine .inl ⟨e, ?_⟩
      simp only [insert, Option.getD_some, if_neg h₁, if_neg h₂, he]
      rfl
    case inl =>
      have heq := insert_eq v (Nat.pos_of_ne_zero h₁) (Nat.not_lt.mp h₂)
      split at heq
      case isTrue => exact .inl ⟨_, heq⟩
      case isFalse => exact .inr ⟨bs, rfl, v, by omega, by simpa using h₂, by omega, heq⟩

theorem update_cases (d : PageData) (slot : SlotId) (record : Option Bytes) :
    (∃ e, update d slot record = some (.error e, none)) ∨
    (∃ bs, record = some bs ∧ Valid d ∧ slot.toNat < slotCount d ∧ 0 < bs.length ∧
      slotLength d slot.toNat ≠ 0 ∧
      ((bs.length ≤ slotLength d slot.toNat ∧
        update d slot record = some (.ok (), some (rewritten d slot.toNat bs))) ∨
       (bs.length ≤ freeEnd d - freeStart d ∧ slotLength d slot.toNat < bs.length ∧
        update d slot record = some (.ok (), some (relocated d slot.toNat bs))))) := by
  match record with
  | none    => exact .inl ⟨_, rfl⟩
  | some bs =>
    by_cases h₁ : bs.length = 0
    case pos => exact .inl ⟨_, by simp [update, h₁]; rfl⟩
    by_cases h₂ : bs.length > maxRecordSize
    case pos => exact .inl ⟨_, by simp only [update, Option.getD_some, if_neg h₁, if_pos h₂]; rfl⟩
    obtain ⟨v, -⟩ | ⟨-, e, he⟩ := validate_cases d
    case inr =>
      refine .inl ⟨e, ?_⟩
      simp only [update, Option.getD_some, if_neg h₁, if_neg h₂, he]
      rfl
    case inl =>
      have heq := update_eq v slot (Nat.pos_of_ne_zero h₁) (Nat.not_lt.mp h₂)
      split_ifs at heq with h₃ h₄ h₅ h₆
      · exact .inl ⟨_, heq⟩
      · exact .inl ⟨_, heq⟩
      · exact .inr ⟨bs, rfl, v, by omega, by omega, h₄, .inl ⟨h₅, heq⟩⟩
      · exact .inl ⟨_, heq⟩
      · exact .inr ⟨bs, rfl, v, by omega, by omega, h₄, .inr ⟨by omega, by omega, heq⟩⟩

theorem delete_cases (d : PageData) (slot : SlotId) :
    (∃ e, delete d slot = some (.error e, none)) ∨
    (Valid d ∧ slot.toNat < slotCount d ∧ slotLength d slot.toNat ≠ 0 ∧
      delete d slot = some (.ok (), some (deleted d slot.toNat))) := by
  obtain ⟨v, -⟩ | ⟨-, e, he⟩ := validate_cases d
  case inr => exact .inl ⟨e, by simp only [delete, he]; rfl⟩
  case inl =>
    have heq := delete_eq v slot
    split_ifs at heq with h₁ h₂
    · exact .inl ⟨_, heq⟩
    · exact .inl ⟨_, heq⟩
    · exact .inr ⟨v, by omega, h₂, heq⟩

theorem freeBytes_eq (v : Valid d) : freeBytes d = some (freeEnd d - freeStart d) := by
  have hn : ¬(freeEnd d < freeStart d ∨ freeEnd d > pageSize) := by
    have := v.free
    have := v.freeEnd_le
    simp
    omega
  simp only [freeBytes, load_freeStart, load_freeEnd, Option.bind_eq_bind, Option.bind_some, if_neg hn]
  rfl

-- The bytes of the live records in the slots below `i`; a tombstone has length zero.
def liveSum (d : PageData) : Nat → Nat
  | 0     => 0
  | i + 1 => liveSum d i + slotLength d i

theorem liveSum_mono (h : i ≤ j) : liveSum d i ≤ liveSum d j := by
  induction h
  case refl      => exact le_rfl
  case step _ hi => exact hi.trans (Nat.le_add_right _ _)

theorem liveTotal_eq (h : 16 + 4 * (i + n) ≤ 4096) (hs : liveSum d i ≤ 4096) :
    liveTotal d i (liveSum d i) n
      = some (if liveSum d (i + n) ≤ 4096 then some (liveSum d (i + n)) else none) := by
  induction n generalizing i
  case zero => simp [liveTotal, hs]
  case succ n hi =>
    specialize hi (i := i + 1) (by omega)
    have hl := (entry_load (d := d) (i := i) (by omega)).right
    have hm : liveSum d i + slotLength d i ≤ liveSum d (i + (n + 1)) :=
      liveSum_mono (i := i + 1) (by omega)
    simp only [liveTotal, hl, Option.pure_def, Option.bind_eq_bind, Option.bind_some, pageSize]
    simp only [liveSum] at hi
    by_cases h₁ : slotLength d i = 0
    case pos =>
      rw [if_pos h₁]
      simpa [h₁, hs, Nat.add_assoc, Nat.add_comm 1 n] using hi
    case neg =>
      rw [if_neg h₁]
      by_cases h₂ : liveSum d i + slotLength d i > 4096
      case pos => rw [if_pos h₂, if_neg (by omega)]
      case neg =>
        rw [if_neg h₂]
        simpa [Nat.add_assoc, Nat.add_comm 1 n] using hi (by omega)

-- The state of the packing loop after the slots below `i`: the directory of `p` has their new
-- offsets and the scratch buffer `s` their records, and everything else is as in `d`.
structure Packed (d : PageData) (i : Nat) (p s : PageData) : Prop where
  moved   : ∀ j < i, slotLength d j ≠ 0 → slotOffset p j = 4096 - liveSum d (j + 1)
  kept    : ∀ j, i ≤ j → slotOffset p j = slotOffset d j
  dead    : ∀ j, slotLength d j = 0 → slotOffset p j = slotOffset d j
  lengths : ∀ j, slotLength p j = slotLength d j
  header  : ∀ off len, off + len ≤ 16 → p.slice off len = d.slice off len
  records : ∀ off len, 16 + 4 * slotCount d ≤ off → p.slice off len = d.slice off len
  scratch : ∀ j < i, slotLength d j ≠ 0 →
              s.slice (4096 - liveSum d (j + 1)) (slotLength d j)
                = d.slice (slotOffset d j) (slotLength d j)

theorem Packed.skip (h : Packed d i p s) (hl : slotLength d i = 0) : Packed d (i + 1) p s where
  moved j hj hn := by
    by_cases he : j = i
    case pos => exact absurd (he ▸ hl) hn
    case neg => exact h.moved j (by omega) hn
  kept j hj := h.kept j (by omega)
  dead := h.dead
  lengths := h.lengths
  header := h.header
  records := h.records
  scratch j hj hn := by
    by_cases he : j = i
    case pos => exact absurd (he ▸ hl) hn
    case neg => exact h.scratch j (by omega) hn

theorem Packed.step (v : Valid d) (h : Packed d i p s) (hi : i < slotCount d) (hl : slotLength d i ≠ 0)
    (hs : liveSum d (i + 1) ≤ 4096) :
    Packed d (i + 1) (p.writeNat (16 + 4 * i) 2 (4096 - liveSum d (i + 1)))
      (s.write (4096 - liveSum d (i + 1)) (p.slice (slotOffset p i) (slotLength d i))) where
  moved j hj hn := by
    by_cases he : j = i
    case pos =>
      subst he
      have := v.slot_bound hi
      exact natAt_writeNat_self (by omega) (by omega)
    case neg =>
      rw [slotOffset, natAt_writeNat_of_disjoint (by omega)]
      exact h.moved j (by omega) hn
  kept j hj := by
    rw [slotOffset, natAt_writeNat_of_disjoint (by omega)]
    exact h.kept j (by omega)
  dead j hj := by
    have hji : j ≠ i := fun he => hl (he ▸ hj)
    rw [slotOffset, natAt_writeNat_of_disjoint (by omega)]
    exact h.dead j hj
  lengths j := by
    rw [slotLength, natAt_writeNat_of_disjoint (by omega)]
    exact h.lengths j
  header off len hb := by
    rw [slice_writeNat_of_disjoint (by omega)]
    exact h.header off len hb
  records off len hb := by
    rw [slice_writeNat_of_disjoint (by omega)]
    exact h.records off len hb
  scratch j hj hn := by
    have hf := v.free
    have hd := v.dirEnd_le
    by_cases he : j = i
    case pos =>
      subst he
      have ⟨hlo, _⟩ := v.live j hi hn
      simp only [liveSum] at hs ⊢
      rw [slice_write_self (by simp; omega) (by simp), h.kept j le_rfl, h.records _ _ (by omega)]
    case neg =>
      -- Earlier records lie above the one that is copied now.
      have := liveSum_mono (d := d) (i := j + 1) (j := i) (by omega)
      simp only [liveSum] at hs this
      rw [slice_write_of_disjoint (by simp [liveSum]; omega)]
      exact h.scratch j (by omega) hn

theorem pack_spec (v : Valid d) (h : Packed d i p s) (hi : i + n = slotCount d)
    (hs : liveSum d (i + n) ≤ 4096) :
    ∃ p' s', pack p s (4096 - liveSum d i) i n = some (p', s', 4096 - liveSum d (i + n)) ∧
      Packed d (i + n) p' s' := by
  induction n generalizing i p s
  case zero => exact ⟨p, s, rfl, h⟩
  case succ n ih =>
    have hb := v.slot_bound (i := i) (by omega)
    have ⟨ho, hl⟩ := entry_load (d := p) hb
    simp only [pack, ho, hl, h.lengths, Option.bind_eq_bind, Option.bind_some]
    have hm := liveSum_mono (d := d) (i := i + 1) (j := i + (n + 1)) (by omega)
    by_cases h₁ : slotLength d i = 0
    case pos =>
      rw [if_pos h₁]
      have := ih (h.skip h₁) (by omega) (by rwa [Nat.add_assoc, Nat.add_comm 1 n])
      simpa [liveSum, h₁, Nat.add_assoc, Nat.add_comm 1 n] using this
    case neg =>
      have ⟨_, hhi⟩ := v.live i (by omega) h₁
      have hk := h.kept i le_rfl
      have he : 4096 - liveSum d i - slotLength d i = 4096 - liveSum d (i + 1) := by
        simp only [liveSum]; omega
      have hw : 4096 - liveSum d (i + 1) + slotLength d i ≤ 4096 := by
        simp only [liveSum] at hm ⊢; omega
      rw [if_neg h₁, he, load_of_le (by omega), Option.bind_some, store_of_le (by simpa using hw),
        Option.bind_some, (store_entry hb).left, Option.bind_some]
      have := ih (h.step v (by omega) h₁ (by omega)) (by omega) (by rwa [Nat.add_assoc, Nat.add_comm 1 n])
      simpa [Nat.add_assoc, Nat.add_comm 1 n] using this

-- The page that `compact` makes of `d`.
structure Compacted (d d' : PageData) : Prop where
  header    : ∀ off len, off + len ≤ 10 → d'.slice off len = d.slice off len
  freeEnd   : freeEnd d' = 4096 - liveSum d (slotCount d)
  lengths   : ∀ i < slotCount d, slotLength d' i = slotLength d i
  offsets   : ∀ i < slotCount d, slotLength d i ≠ 0 → slotOffset d' i = 4096 - liveSum d (i + 1)
  records   : ∀ i < slotCount d, slotLength d i ≠ 0 →
                d'.slice (slotOffset d' i) (slotLength d i)
                  = d.slice (slotOffset d i) (slotLength d i)

theorem Compacted.slotCount (c : Compacted d d') : slotCount d' = slotCount d :=
  congrArg leNat <| c.header 6 2 (by omega)

theorem Compacted.freeStart (c : Compacted d d') : freeStart d' = freeStart d :=
  congrArg leNat <| c.header 8 2 (by omega)

-- The last steps of `compact`: the packed records are copied back, `free_end` is set, and the free
-- region is zeroed.
def unpacked (d p s : PageData) (e : Nat) : PageData :=
  p.write e (s.slice e (4096 - e))
    |>.writeNat 10 2 e
    |>.write (freeStart d) (List.replicate (e - freeStart d) 0)

theorem Packed.compacted (v : Valid d) (h : Packed d (slotCount d) p s)
    (hs : liveSum d (slotCount d) ≤ 4096 - freeStart d) (he : e = 4096 - liveSum d (slotCount d)) :
    Compacted d (unpacked d p s e) := by
  have hd := v.dirEnd_le
  have hf := v.free
  have hf' := v.freeEnd_le
  -- Outside of `free_end`, the directory and the header are those of `p`.
  have hk : ∀ off len, off + len ≤ 10 ∨ (12 ≤ off ∧ off + len ≤ 16 + 4 * slotCount d) →
      (unpacked d p s e).slice off len = p.slice off len := by
    intro off len ho
    rw [unpacked, slice_write_of_disjoint (by simp; omega), slice_writeNat_of_disjoint (by omega),
      slice_write_of_disjoint (by simp; omega)]
  have ho : ∀ i < slotCount d, slotOffset (unpacked d p s e) i = slotOffset p i :=
    fun i hi => congrArg leNat <| hk _ _ (by omega)
  constructor
  case header =>
    intro off len hb
    rw [hk off len (.inl hb), h.header off len (by omega)]
  case freeEnd =>
    rw [SlottedPage.freeEnd, unpacked, natAt_write_of_disjoint (by simp; omega),
      natAt_writeNat_self (by omega) (by omega), he]
  case lengths =>
    intro i hi
    rw [← h.lengths i]
    exact congrArg leNat <| hk _ _ (by omega)
  case offsets =>
    intro i hi hn
    rw [ho i hi, h.moved i hi hn]
  case records =>
    intro i hi hn
    have hm := liveSum_mono (d := d) (i := i + 1) (j := slotCount d) hi
    have hl : 4096 - liveSum d (i + 1) + slotLength d i ≤ 4096 := by
      simp only [liveSum] at hm ⊢; omega
    rw [ho i hi, h.moved i hi hn, unpacked, slice_write_of_disjoint (by simp; omega),
      slice_writeNat_of_disjoint (by omega), slice_write_inside (by simp; omega) (by omega)
      (by simp; omega), slice_slice (by omega), ← h.scratch i hi hn]
    congr
    omega

theorem Packed.zero : Packed d 0 d s where
  moved _ hj  := absurd hj (Nat.not_lt_zero _)
  kept _ _    := rfl
  dead _ _    := rfl
  lengths _   := rfl
  header _ _ _  := rfl
  records _ _ _ := rfl
  scratch _ hj  := absurd hj (Nat.not_lt_zero _)

-- When `compact` succeeds, and what it leaves in terms of the packing loop.
theorem compact_unpacked (d : PageData) :
    (¬(Valid d ∧ liveSum d (slotCount d) ≤ 4096 - freeStart d) ∧ ∃ e, compact d = some (.error e, none)) ∨
    (Valid d ∧ liveSum d (slotCount d) ≤ 4096 - freeStart d ∧
      ∃ p s, Packed d (slotCount d) p s ∧
        compact d = some (.ok (), some (unpacked d p s (4096 - liveSum d (slotCount d))))) := by
  simp only [compact, Option.pure_def, Option.bind_eq_bind]
  obtain ⟨v, hv⟩ | ⟨hn, e, he⟩ := validate_cases d
  case inr => exact .inl ⟨fun h => hn h.left, e, by rw [he]; rfl⟩
  case inl =>
    have hd := v.dirEnd_le
    have hf := v.free
    have hf' := v.freeEnd_le
    have ht := liveTotal_eq (d := d) (i := 0) (n := slotCount d) (by omega) (by simp [liveSum])
    rw [Nat.zero_add] at ht
    rw [hv, load_slotCount, load_freeStart]
    simp only [liveSum] at ht
    simp only [Option.bind_some, ht]
    by_cases h₁ : liveSum d (slotCount d) ≤ 4096
    case neg => exact .inl ⟨fun h => by omega, _, by rw [if_neg h₁]⟩
    by_cases h₂ : liveSum d (slotCount d) > 4096 - freeStart d
    case pos => exact .inl ⟨fun h => by omega, _, by rw [if_pos h₁]; exact if_pos h₂⟩
    refine .inr ⟨v, by omega, ?_⟩
    have ⟨p, s, hp, hk⟩ :=
      pack_spec v (.zero (s := zeroPage)) (n := slotCount d) (by omega) (by simpa using h₁)
    simp only [Nat.zero_add, liveSum, Nat.sub_zero] at hp hk
    refine ⟨p, s, hk, ?_⟩
    rw [if_pos h₁]
    simp only [pageSize, if_neg h₂, hp, Option.bind_some]
    rw [load_of_le (by omega), Option.bind_some, store_of_le (by simp), Option.bind_some,
      storeNat_of_le (by decide), Option.bind_some]
    by_cases h₃ : 4096 - liveSum d (slotCount d) > freeStart d
    case pos =>
      rw [if_pos h₃, store_of_le (by simp; omega)]
      rfl
    case neg =>
      have hz : 4096 - liveSum d (slotCount d) - freeStart d = 0 := by omega
      simp [if_neg h₃, unpacked, hz, write_nil]

theorem compact_cases (d : PageData) :
    (∃ e, compact d = some (.error e, none)) ∨
    (Valid d ∧ liveSum d (slotCount d) ≤ 4096 - freeStart d ∧
      ∃ d', compact d = some (.ok (), some d') ∧ Compacted d d') := by
  obtain h | ⟨v, hs, p, s, hk, h⟩ := compact_unpacked d
  case inl => exact .inl h.right
  case inr => exact .inr ⟨v, hs, _, h, hk.compacted v hs rfl⟩

end NexusDb.SlottedPage
