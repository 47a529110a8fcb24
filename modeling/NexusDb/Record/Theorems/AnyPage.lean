import NexusDb.Record.Theorems.SlottedArray

open ByteBlock Bytes

namespace NexusDb.SlottedPage

-- The 16-bit fields that a mutating call writes, by their positions, with the numbers that it writes.

def insertFields (d : PageData) (record : Option Bytes) : List (Nat × Nat) :=
  let len := (record.getD []).length
  [ (entryAt (slotCount d), freeEnd d - len),
    (entryAt (slotCount d) + 2, len),
    (offSlotCount, slotCount d + 1),
    (offFreeStart, freeStart d + slotEntrySize),
    (offFreeEnd, freeEnd d - len) ]

def updateFields (d : PageData) (slot : SlotId) (record : Option Bytes) : List (Nat × Nat) :=
  let len := (record.getD []).length
  if len ≤ slotLength d slot.toNat then
    [(entryAt slot.toNat + 2, len)]
  else
    [ (entryAt slot.toNat, freeEnd d - len),
      (entryAt slot.toNat + 2, len),
      (offFreeEnd, freeEnd d - len) ]

def deleteFields (slot : SlotId) : List (Nat × Nat) :=
  [(entryAt slot.toNat, 0), (entryAt slot.toNat + 2, 0)]

def compactFields (d : PageData) : List (Nat × Nat) :=
  let live := (List.range (slotCount d)).filter (slotLength d · ≠ 0)
  (offFreeEnd, pageSize - liveSum d (slotCount d)) ::
    live.map fun i => (entryAt i, pageSize - liveSum d (i + 1))

-- A call that succeeds leaves a page that passes `Validate`, and the fields hold the numbers that were
-- written. A call that fails changes no byte.
def Safe (d : PageData) (fields : List (Nat × Nat)) (c : PageCall α) : Prop :=
  match c.fst with
  | .ok _    => validate (after d c) = some (.ok ()) ∧ ∀ f ∈ fields, (after d c).natAt f.fst 2 = f.snd
  | .error _ => after d c = d

variable {d d' : PageData} {bs : Bytes}

theorem natAt_entry (ho : slotOffset d i = o) (hl : slotLength d i = l) :
    d.natAt (entryAt i) 2 = o ∧ d.natAt (entryAt i + 2) 2 = l := by
  have he : entryAt i = 16 + 4 * i := by simp; omega
  rw [he]
  exact ⟨ho, hl⟩

theorem insert_safe (d : PageData) (record : Option Bytes) :
    ∃ c, insert d record = some c ∧ Safe d (insertFields d record) c := by
  obtain ⟨e, h⟩ | ⟨bs, hb, v, h₀, -, hr, h⟩ := insert_cases d record
  case inl => exact ⟨_, h, rfl⟩
  case inr =>
    refine ⟨_, h, validate_eq_ok_iff.mpr (v.inserted h₀ hr), ?_⟩
    have ⟨ho, hl⟩ := inserted_slot_new v hr
    have ⟨heo, hel⟩ := natAt_entry ho hl
    subst hb
    simp only [insertFields, Option.getD_some, List.forall_mem_cons]
    exact ⟨heo, hel, inserted_slotCount v hr, inserted_freeStart v hr, inserted_freeEnd v, by simp⟩

theorem update_safe (d : PageData) (slot : SlotId) (record : Option Bytes) :
    ∃ c, update d slot record = some c ∧ Safe d (updateFields d slot record) c := by
  obtain ⟨e, h⟩ | ⟨bs, hb, v, hi, h₀, hn, h⟩ := update_cases d slot record
  case inl => exact ⟨_, h, rfl⟩
  subst hb
  have ⟨hlo, hhi⟩ := v.live _ hi hn
  obtain ⟨hl, h⟩ | ⟨hr, hl, h⟩ := h
  case inr.inl =>
    have s := slotWritten_rewritten v hi hn hl
    have ⟨_, hel⟩ := natAt_entry s.slot.left s.slot.right
    have hv := s.valid v fun _ => ⟨by have := s.free; omega, by omega⟩
    refine ⟨_, h, validate_eq_ok_iff.mpr hv, ?_⟩
    simp only [updateFields, Option.getD_some, if_pos hl, List.forall_mem_singleton]
    exact hel
  case inr.inr =>
    have s := slotWritten_relocated v hi hr
    have ⟨heo, hel⟩ := natAt_entry s.slot.left s.slot.right
    have hfe := v.freeEnd_le
    have hfd : freeEnd (relocated d slot.toNat bs) = freeEnd d - bs.length :=
      natAt_writeNat_self (by omega) (by omega)
    have hv := s.valid v fun _ => ⟨by omega, by omega⟩
    refine ⟨_, h, validate_eq_ok_iff.mpr hv, ?_⟩
    simp only [updateFields, Option.getD_some, if_neg (Nat.not_le.mpr hl), List.forall_mem_cons]
    exact ⟨heo, hel, hfd, by simp⟩

theorem delete_safe (d : PageData) (slot : SlotId) :
    ∃ c, delete d slot = some c ∧ Safe d (deleteFields slot) c := by
  obtain ⟨e, h⟩ | ⟨v, hi, hn, h⟩ := delete_cases d slot
  case inl => exact ⟨_, h, rfl⟩
  case inr =>
    have s := slotWritten_deleted v hi
    have ⟨heo, hel⟩ := natAt_entry s.slot.left s.slot.right
    refine ⟨_, h, validate_eq_ok_iff.mpr (s.valid v (absurd rfl ·)), ?_⟩
    simp only [deleteFields, List.forall_mem_cons]
    exact ⟨heo, hel, by simp⟩

theorem compact_safe (d : PageData) : ∃ c, compact d = some c ∧ Safe d (compactFields d) c := by
  obtain ⟨e, h⟩ | ⟨v, hs, d', h, c⟩ := compact_cases d
  case inl => exact ⟨_, h, rfl⟩
  case inr =>
    refine ⟨_, h, validate_eq_ok_iff.mpr (c.valid v hs), ?_⟩
    simp only [compactFields, List.forall_mem_cons, List.forall_mem_map, List.mem_filter, List.mem_range]
    refine ⟨c.freeEnd, fun i ⟨hi, hn⟩ => ?_⟩
    exact (natAt_entry (c.offsets i hi (by simpa using hn)) rfl).left

theorem read_total (d : PageData) (slot : SlotId) : ∃ r, read d slot = some r := by
  obtain ⟨v, -⟩ | ⟨-, e, he⟩ := validate_cases d
  case inl => exact ⟨_, read_eq v slot⟩
  case inr => exact ⟨_, by simp only [read, he]; rfl⟩

theorem scan_total (d : PageData) (fn : σ → SlotId → Bytes → σ × Bool) (ctx : σ) :
    ∃ r, scan d fn ctx = some r := by
  obtain ⟨v, -⟩ | ⟨-, e, he⟩ := validate_cases d
  case inl => exact ⟨_, scan_eq v⟩
  case inr => exact ⟨_, by simp only [scan, he]; rfl⟩

-- On a page with any content no access leaves the page, and no number is cut off when it is written.
theorem safe_on_any_page (d : PageData) :
    (∃ s, validate d = some s) ∧
    (∀ record, ∃ c, insert d record = some c ∧ Safe d (insertFields d record) c) ∧
    (∀ slot outData outLen, ∃ r, readTo d slot outData outLen = some r) ∧
    (∀ slot record, ∃ c, update d slot record = some c ∧ Safe d (updateFields d slot record) c) ∧
    (∀ slot, ∃ c, delete d slot = some c ∧ Safe d (deleteFields slot) c) ∧
    (∃ c, compact d = some c ∧ Safe d (compactFields d) c) ∧
    (∀ (σ : Type) (fn : Option (σ → SlotId → Bytes → σ × Bool)) (ctx : σ),
      ∃ r, scanWith d fn ctx = some r) := by
  refine ⟨validate_total d, insert_safe d, fun slot outData outLen => ?_, update_safe d, delete_safe d,
    compact_safe d, fun σ fn ctx => ?_⟩
  · rw [readTo]
    split
    case isTrue => exact ⟨_, rfl⟩
    case isFalse => exact read_total d slot
  · cases fn
    case none    => exact ⟨_, rfl⟩
    case some fn => exact scan_total d fn ctx

-- The accessors read the header without validating it.

theorem countLive_eq (h : 16 + 4 * (i + n) ≤ 4096) :
    countLive d i live n = some (live + (List.range' i n).countP (slotLength d · ≠ 0)) := by
  induction n generalizing i live
  case zero => rfl
  case succ n hi =>
    have hl := (entry_load (d := d) (i := i) (by omega)).right
    rw [countLive, hl, Option.bind_eq_bind, Option.bind_some, hi (by omega), List.range'_succ, List.countP_cons]
    by_cases h₀ : slotLength d i = 0
    case pos => simp [h₀]
    case neg =>
      simp [h₀]
      omega

theorem countLive_eq_none (hi : i ≤ 1020) (h : 1020 < i + n) : countLive d i live n = none := by
  induction n generalizing i live
  case zero => omega
  case succ n ih =>
    by_cases he : i = 1020
    case pos =>
      subst he
      rfl
    case neg =>
      have hl := (entry_load (d := d) (i := i) (by omega)).right
      rw [countLive, hl, Option.bind_eq_bind, Option.bind_some, ih (by omega) (by omega)]

theorem liveCount_eq : liveCount d =
    if slotCount d ≤ 1020 then some ((List.range (slotCount d)).countP (slotLength d · ≠ 0)) else none := by
  rw [liveCount, load_slotCount, Option.bind_eq_bind, Option.bind_some]
  split
  case isTrue h => rw [countLive_eq (by omega), List.range_eq_range', Nat.zero_add]
  case isFalse h => exact countLive_eq_none (by omega) (by omega)

theorem freeBytes_eq_zero_iff : freeBytes d = some 0 ↔ freeEnd d ≤ freeStart d ∨ pageSize < freeEnd d := by
  simp only [freeBytes, load_freeStart, load_freeEnd, Option.pure_def, Option.bind_eq_bind, Option.bind_some]
  split
  case isTrue h => simp only [true_iff]; omega
  case isFalse h =>
    rw [Option.some_inj]
    omega

-- The results that are documented for a page that is not valid.
def ZeroIfInvalid (d : PageData) : Prop :=
  ∀ e, validate d = some (.error e) → slotCount? d = some 0 ∧ liveCount d = some 0 ∧ freeBytes d = some 0

-- They depend on three fields of the header only. The directory may lead out of the page.
theorem zeroIfInvalid_iff (d : PageData) :
    (ZeroIfInvalid d ↔ validate d = some (.ok ()) ∨
      (slotCount d = 0 ∧ (freeEnd d ≤ freeStart d ∨ pageSize < freeEnd d))) ∧
    ((∃ n, slotCount? d = some n) ∧ (∃ n, freeBytes d = some n) ∧
      ((∃ n, liveCount d = some n) ↔ slotCount d ≤ 1020)) := by
  have hc : slotCount? d = some (slotCount d) := load_slotCount
  refine ⟨?_, ⟨_, hc⟩, ?_, ?_⟩
  · rw [← freeBytes_eq_zero_iff]
    obtain ⟨v, hv⟩ | ⟨hn, e, he⟩ := validate_cases d
    case inl => exact iff_of_true (fun e he => by simp [hv] at he) (.inl hv)
    case inr =>
      constructor
      case mp =>
        intro h
        have ⟨h₁, _, h₃⟩ := h e he
        rw [hc, Option.some_inj] at h₁
        exact .inr ⟨h₁, h₃⟩
      case mpr =>
        intro h e _
        have ⟨h₁, h₃⟩ := h.resolve_left (hn <| validate_eq_ok_iff.mp ·)
        refine ⟨by rw [hc, h₁], ?_, h₃⟩
        rw [liveCount_eq, h₁]
        rfl
  · simp only [freeBytes, load_freeStart, load_freeEnd, Option.pure_def, Option.bind_eq_bind, Option.bind_some]
    split <;> exact ⟨_, rfl⟩
  · rw [liveCount_eq]
    split
    case isTrue h => exact iff_of_true ⟨_, rfl⟩ h
    case isFalse h => exact iff_of_false (by simp) h

-- A page without the magic bytes, with as many slots as can be written and 4096 free bytes.
def foreign : PageData :=
  zeroPage
    |>.writeNat offSlotCount 2 0xFFFF
    |>.writeNat offFreeEnd 2 pageSize

theorem foreign_not_zero :
    validate foreign = some (.error <| bad "slotted page: bad magic") ∧
    slotCount? foreign = some 65535 ∧ liveCount foreign = none ∧ freeBytes foreign = some 4096 := by
  refine ⟨by decide, by decide, ?_, by decide⟩
  rw [liveCount_eq, if_neg (by decide)]

end NexusDb.SlottedPage
