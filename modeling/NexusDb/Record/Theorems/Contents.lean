import NexusDb.Record.Theorems.HeapTable

namespace NexusDb

open SlottedPage (WellFormed records liveFrom)

namespace SlottedPage

theorem mem_liveFrom {slot : SlotId} :
    (slot, bs) ∈ liveFrom i rs ↔ ∃ k, rs[k]? = some (some bs) ∧ slot = UInt16.ofNat (i + k) := by
  induction rs generalizing i
  case nil => simp [liveFrom]
  case cons r rs ih =>
    have hsucc : (∃ k, (r :: rs)[k]? = some (some bs) ∧ slot = UInt16.ofNat (i + k)) ↔
        (r = some bs ∧ slot = UInt16.ofNat i) ∨ ∃ k, rs[k]? = some (some bs) ∧ slot = UInt16.ofNat (i + 1 + k) := by
      constructor
      case mp =>
        rintro ⟨k, hk, hs⟩
        cases k
        case zero => exact .inl ⟨Option.some.inj hk, hs⟩
        case succ k => exact .inr ⟨k, hk, by rw [hs, Nat.add_right_comm, Nat.add_assoc]⟩
      case mpr =>
        rintro (⟨rfl, hs⟩ | ⟨k, hk, hs⟩)
        · exact ⟨0, rfl, hs⟩
        · exact ⟨k + 1, hk, by rw [hs, Nat.add_right_comm, Nat.add_assoc]⟩
    rw [hsucc]
    cases r
    case none =>
      rw [liveFrom, ih]
      simp
    case some b =>
      rw [liveFrom, List.mem_cons, ih, Prod.mk.injEq, Option.some_inj, eq_comm (a := bs)]
      exact or_congr_left And.comm

-- No slot comes twice.
theorem liveFrom_nodup (h : i + rs.length ≤ 65536) : ((liveFrom i rs).map Prod.fst).Nodup := by
  induction rs generalizing i
  case nil => exact .nil
  case cons r rs ih =>
    rw [List.length_cons] at h
    have ih := ih (i := i + 1) (by omega)
    cases r
    case none => exact ih
    case some b =>
      rw [liveFrom, List.map_cons, List.nodup_cons]
      refine ⟨fun hm => ?_, ih⟩
      obtain ⟨⟨slot, bs⟩, hmem, he⟩ := List.mem_map.mp hm
      obtain ⟨k, hk, hs⟩ := mem_liveFrom.mp hmem
      have hlt := (List.getElem?_eq_some_iff.mp hk).fst
      have he : (UInt16.ofNat (i + 1 + k)).toNat = (UInt16.ofNat i).toNat := congrArg UInt16.toNat (hs.symm.trans he)
      rw [UInt16.toNat_ofNat_of_lt' (by simp [UInt16.size]; omega), UInt16.toNat_ofNat_of_lt' (by simp [UInt16.size]; omega)]
        at he
      omega

-- A page has fewer slots than the number that stands for no slot.
theorem slotCount_lt_invalid (v : Valid d) : slotCount d < 1021 := by
  have := v.dirEnd_le
  have := v.free
  have := v.freeEnd_le
  omega

-- A record is as long as a slot can say and a page can hold.
theorem length_record {i : Nat} {bs : Bytes} (v : Valid d) (h : (records d)[i]? = some (some bs)) :
    0 < bs.length ∧ bs.length ≤ maxRecordSize := by
  have hi : i < slotCount d := by
    rw [← length_records]
    exact (List.getElem?_eq_some_iff.mp h).fst
  rw [getElem?_records hi, entry, Option.some_inj] at h
  split at h
  case isTrue => cases h
  case isFalse hn =>
    have := v.dirEnd_le
    have := v.free
    obtain ⟨_, _⟩ := v.live i hi hn
    rw [← Option.some.inj h, ByteBlock.length_slice]
    simp only [maxRecordSize, pageSize, headerSize, slotEntrySize]
    omega

end SlottedPage

namespace HeapTable

-- The records of a table as a map.
def contents (s : PageStorage) (C : Chain PageId) (id : RecordId) : Option Bytes :=
  (lookup s C id).toOption

variable {s s' : PageStorage} {C C' : Chain PageId} {id : RecordId}

-- The id of a slot of a table is valid.
theorem Stored.valid (h : Stored s C) (hi : id.page ∈ C.all) (hs : id.slot.toNat ≤ (slots s id.page).length) : id.valid := by
  have ⟨d, hd, hw⟩ := h.data _ hi
  rw [slots_eq hd, SlottedPage.length_records] at hs
  have hb := SlottedPage.slotCount_lt_invalid hw.toValid
  have hslot : id.slot ≠ SlottedPage.invalidSlot := by
    intro he
    rw [he] at hs
    have : SlottedPage.invalidSlot.toNat = 65535 := rfl
    omega
  simp [RecordId.valid, PageStorage.ne_invalidId hd, hslot]

theorem contents_eq (h : Stored s C) :
    contents s C id = if id.page ∈ C.all then ((slots s id.page)[id.slot.toNat]?).join else none := by
  rw [contents, lookup]
  by_cases hi : id.page ∈ C.all
  case neg =>
    rw [if_neg hi, if_pos hi]
    split <;> rfl
  case pos =>
    rw [if_pos hi, if_neg (not_not_intro hi)]
    cases hr : (slots s id.page)[id.slot.toNat]?
    case none => split <;> rfl
    case some r =>
      have hv := h.valid hi (List.getElem?_eq_some_iff.mp hr).fst.le
      rw [hv, if_neg (by decide)]
      cases r <;> rfl

theorem contents_eq_some_iff (h : Stored s C) :
    contents s C id = some bs ↔ id.page ∈ C.all ∧ (slots s id.page)[id.slot.toNat]? = some (some bs) := by
  rw [contents_eq h]
  split
  case isTrue hi => simp [hi, Option.join_eq_some_iff]
  case isFalse hi => simp [hi]

theorem Stored.length_record {bs : Bytes} (h : Stored s C) (hr : contents s C id = some bs) :
    0 < bs.length ∧ bs.length ≤ SlottedPage.maxRecordSize := by
  have ⟨hi, hr⟩ := (contents_eq_some_iff h).mp hr
  have ⟨d, hd, hw⟩ := h.data _ hi
  rw [slots_eq hd] at hr
  exact SlottedPage.length_record hw.toValid hr

theorem Kept.lookup (h : Kept s C s' C') (id : RecordId) : lookup s' C' id = lookup s C id := by
  rw [HeapTable.lookup, HeapTable.lookup, h.all]
  by_cases hi : id.page ∈ C.all
  case pos => rw [slots_congr (h.same _ hi)]
  case neg => simp [hi]

theorem Kept.contents (h : Kept s C s' C') : contents s' C' = contents s C :=
  funext fun id => by rw [HeapTable.contents, HeapTable.contents, h.lookup]

-- The slot of a new record is the first one that was not there.
theorem Inserted.slot_toNat (h : Inserted s C s' C' bs id) : id.slot.toNat = (HeapTable.slots s id.page).length := by
  rw [h.slot, UInt16.toNat_ofNat_of_lt' length_slots_lt]

theorem eq_of_slot {id id' : RecordId} (hp : id'.page = id.page) (hs : id'.slot.toNat = id.slot.toNat) : id' = id :=
  RecordId.ext hp (UInt16.toNat_inj.mp hs)

theorem Inserted.mem (h : Inserted s C s' C' bs id) : id.page ∈ C'.all := by
  cases h.all
  case inl h => exact h.left ▸ h.right
  case inr h => simp [h.left]

theorem Inserted.contents (h : Inserted s C s' C' bs id) (hs : Stored s C) (hs' : Stored s' C') :
    contents s' C' = Function.update (contents s C) id (some bs) := by
  funext id'
  by_cases hid : id' = id
  case pos =>
    rw [hid, Function.update_self, contents_eq_some_iff hs', h.slots, h.slot_toNat]
    exact ⟨h.mem, by simp⟩
  case neg =>
    rw [Function.update_of_ne hid, contents_eq hs, contents_eq hs']
    by_cases hp : id'.page = id.page
    case pos =>
      have hne : id'.slot.toNat ≠ (HeapTable.slots s id.page).length :=
        fun he => hid (eq_of_slot hp (he.trans h.slot_toNat.symm))
      have hslots : (HeapTable.slots s id.page ++ [some bs])[id'.slot.toNat]? =
          (HeapTable.slots s id.page)[id'.slot.toNat]? := by
        rw [List.getElem?_append]
        split
        case isTrue => rfl
        case isFalse hlt => rw [List.getElem?_eq_none (by simp; omega), List.getElem?_eq_none (by omega)]
      rw [hp, if_pos h.mem, h.slots, hslots]
      rcases h.all with ⟨_, hm⟩ | ⟨_, hnone⟩
      · rw [if_pos hm]
      · have hempty : HeapTable.slots s id.page = [] := by rw [HeapTable.slots, hnone]; rfl
        rw [hempty]
        split <;> rfl
    case neg =>
      have hmem : id'.page ∈ C'.all ↔ id'.page ∈ C.all := by
        rcases h.all with ⟨he, _⟩ | ⟨he, _⟩
        · rw [he]
        · simp [he, hp]
      by_cases hm : id'.page ∈ C.all
      case pos => rw [if_pos hm, if_pos (hmem.mpr hm), slots_congr (h.same _ hm hp)]
      case neg => rw [if_neg hm, if_neg fun h => hm (hmem.mp h)]

theorem Changed.contents (h : Changed s C s' id new) (hs : Stored s C) :
    contents s' C = Function.update (contents s C) id new := by
  have ⟨old, hold⟩ := h.live
  have hlt := (List.getElem?_eq_some_iff.mp hold).fst
  funext id'
  by_cases hid : id' = id
  case pos =>
    rw [hid, Function.update_self, contents_eq h.leads.stored, if_pos h.page, h.slots, List.getElem?_set_self hlt]
    rfl
  case neg =>
    rw [Function.update_of_ne hid, contents_eq hs, contents_eq h.leads.stored]
    by_cases hp : id'.page = id.page
    case pos =>
      have hne : id.slot.toNat ≠ id'.slot.toNat := fun he => hid (eq_of_slot hp he.symm)
      rw [hp, h.slots, List.getElem?_set_ne hne]
    case neg => rw [slots_congr (h.same _ hp)]

-- The ids that a table has no record for.

theorem contents_invalid (h : id.valid = false) : contents s C id = none := by
  rw [contents, lookup, h]
  rfl

theorem contents_foreign (hs : Stored s C) (h : id.page ∉ C.all) : contents s C id = none := by
  rw [contents_eq hs, if_neg h]

theorem contents_slot (hs : Stored s C) (h : ((slots s id.page)[id.slot.toNat]?).join = none) : contents s C id = none := by
  rw [contents_eq hs, h, ite_self]

-- What the errors of an update and of a delete mean.

theorem UpdateFails.contents (h : UpdateFails s C id bs e) (hs : Stored s C) :
    contents s C id = none ∨ bs.length = 0 ∨ SlottedPage.maxRecordSize < bs.length ∨ e.code = .bufferFull := by
  cases h
  case empty h => exact .inr <| .inl h
  case large h => exact .inr <| .inr <| .inl h
  case full => exact .inr <| .inr <| .inr rfl
  case invalid h => exact .inl (contents_invalid h)
  case foreign h => exact .inl (contents_foreign hs h)
  case range h => exact .inl (contents_slot hs (by rw [h]; rfl))
  case deleted h => exact .inl (contents_slot hs (by rw [h]; rfl))

theorem DeleteFails.contents (h : DeleteFails s C id e) (hs : Stored s C) : contents s C id = none := by
  cases h
  case invalid h => exact contents_invalid h
  case foreign h => exact contents_foreign hs h
  case range h => exact contents_slot hs (by rw [h]; rfl)
  case deleted h => exact contents_slot hs (by rw [h]; rfl)

-- The slot is there, but on a page of another table.

theorem UpdateFails.notFound (h : UpdateFails s C id bs e) (h₀ : bs.length ≠ 0)
    (hm : ¬SlottedPage.maxRecordSize < bs.length) (hv : id.valid) (hp : id.page ∉ C.all)
    (hlt : id.slot.toNat < (slots s id.page).length) : e.code = .notFound := by
  cases h
  case empty h => exact absurd h h₀
  case large h => exact absurd h hm
  case full h => exact absurd h hp
  case invalid h => rw [hv] at h; cases h
  case range h => exact absurd (List.getElem?_eq_none_iff.mp h) hlt.not_ge
  all_goals rfl

theorem DeleteFails.notFound (h : DeleteFails s C id e) (hv : id.valid) (hlt : id.slot.toNat < (slots s id.page).length) :
    e.code = .notFound := by
  cases h
  case invalid h => rw [hv] at h; cases h
  case range h => exact absurd (List.getElem?_eq_none_iff.mp h) hlt.not_ge
  all_goals rfl

-- A scan lists the records.
theorem mem_rows (h : Stored s C) : (id, bs) ∈ rows s C.all ↔ contents s C id = some bs := by
  rw [contents_eq_some_iff h, rows, List.mem_flatMap]
  constructor
  case mp =>
    rintro ⟨i, hi, hm⟩
    obtain ⟨⟨slot, bs'⟩, hlive, he⟩ := List.mem_map.mp hm
    cases he
    obtain ⟨k, hk, hs⟩ := SlottedPage.mem_liveFrom.mp hlive
    have hlt := (List.getElem?_eq_some_iff.mp hk).fst.trans length_slots_lt
    subst hs
    rw [Nat.zero_add]
    exact ⟨hi, by rw [UInt16.toNat_ofNat_of_lt' hlt, hk]⟩
  case mpr =>
    rintro ⟨hi, hs⟩
    refine ⟨id.page, hi, List.mem_map.mpr ⟨(id.slot, bs), SlottedPage.mem_liveFrom.mpr ⟨_, hs, ?_⟩, rfl⟩⟩
    rw [Nat.zero_add, UInt16.ofNat_toNat]

theorem rows_nodup (h : Stored s C) : ((rows s C.all).map Prod.fst).Nodup := by
  have hall : C.all.Nodup := (List.nodup_append.mp h.nodup).right.left
  rw [rows, List.map_flatMap, List.nodup_flatMap]
  constructor
  case left =>
    intro i _
    rw [pageRows, List.map_map]
    have hn := SlottedPage.liveFrom_nodup (i := 0) (by rw [Nat.zero_add]; exact (length_slots_lt (s := s) (i := i)).le)
    have hmap := hn.map (f := RecordId.mk i) fun _ _ he => congrArg RecordId.slot he
    rwa [List.map_map] at hmap
  case right =>
    refine hall.imp fun hne id hi hj => hne ?_
    have hpage : ∀ {i}, id ∈ (pageRows i (slots s i)).map Prod.fst → id.page = i := by
      intro i hm
      obtain ⟨_, hm, he⟩ := List.mem_map.mp hm
      obtain ⟨_, _, he'⟩ := List.mem_map.mp hm
      rw [← he, ← he']
    exact (hpage hi).symm.trans (hpage hj)

end HeapTable
end NexusDb
