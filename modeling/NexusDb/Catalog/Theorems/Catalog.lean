import NexusDb.Catalog.Catalog
import NexusDb.Record.Theorems.HeapTable

open Bytes

namespace NexusDb

open PageStorage (Extends)
open PageChain (Visits walked Appended)

namespace Catalog

def encode (e : Bytes × PageId) : Bytes :=
  encodeEntry e.fst e.snd

theorem chain_lawful : chain.Lawful :=
  ⟨rfl, by decide, by decide⟩

theorem isValidTableName_iff : isValidTableName n ↔ n ≠ [] ∧ n.length ≤ maxTableNameLength ∧ n.all isNameChar := by
  simp [isValidTableName]

-- A valid name has no zero byte.
theorem ne_zero_of_valid (h : isValidTableName n) (hb : b ∈ n) : b ≠ 0 := by
  have hc := List.all_eq_true.mp (isValidTableName_iff.mp h).right.right b hb
  rintro rfl
  revert hc
  decide

theorem length_writeNameField (h : isValidTableName n) : (writeNameField n).length = nameFieldSize := by
  have hl := (isValidTableName_iff.mp h).right.left
  simp only [maxTableNameLength, nameFieldSize] at hl
  simp [writeNameField]
  omega

theorem length_encode (h : isValidTableName e.fst) : (encode e).length = chain.entrySize := by
  rw [encode, encodeEntry, List.length_append, length_writeNameField h, length_leBytes]
  rfl

theorem readNameField_writeNameField (h : isValidTableName n) : readNameField (writeNameField n) = some n := by
  have hl := (isValidTableName_iff.mp h).right.left
  have hnone : n.findIdx? (· = 0) = none := by
    rw [List.findIdx?_eq_none_iff]
    intro b hb
    simpa using ne_zero_of_valid h hb
  have hzero : (List.replicate (nameFieldSize - n.length) (0 : UInt8)).findIdx? (· = 0) = some 0 := by
    simp only [maxTableNameLength, nameFieldSize] at hl ⊢
    obtain ⟨k, hk⟩ : ∃ k, 32 - n.length = k + 1 := ⟨31 - n.length, by omega⟩
    rw [hk, List.replicate_succ, List.findIdx?_cons]
    rfl
  simp [readNameField, writeNameField, List.findIdx?_append, hnone, hzero]

theorem checkEntry_encode (h : isValidTableName e.fst) (hr : e.snd ≠ invalidId) (found : List (Bytes × PageId))
    (hn : e.fst ∉ found.map Prod.fst) : checkEntry found (encode e) = .ok (found ++ [e]) := by
  have hl := length_writeNameField h
  have hany : found.any (·.fst = e.fst) = false := by
    rw [List.any_eq_false]
    intro x hx he
    exact hn (List.mem_map.mpr ⟨x, hx, by simpa using he⟩)
  rw [checkEntry, encode, encodeEntry, List.take_left' hl, List.drop_left' hl, readNameField_writeNameField h]
  have hroot : UInt32.ofNat (leNat (leBytes 4 e.snd.toNat)) = e.snd := HeapTable.decode_encodeId e.snd
  simp only [h, Bool.not_true, Bool.false_eq_true, ↓reduceIte, hany, hroot, hr]

theorem foldlM_checkEntry (found es : List (Bytes × PageId)) (hv : ∀ e ∈ es, isValidTableName e.fst ∧ e.snd ≠ invalidId)
    (hn : ((found ++ es).map Prod.fst).Nodup) :
    es.foldlM (fun found e => checkEntry found (encode e)) found = .ok (found ++ es) := by
  induction es generalizing found
  case nil => simp; rfl
  case cons e es ih =>
    have ⟨hvalid, hr⟩ := hv e List.mem_cons_self
    have hnew : e.fst ∉ found.map Prod.fst := by
      rw [List.map_append, List.nodup_append] at hn
      exact fun hm => hn.right.right _ hm _ (by simp) rfl
    rw [List.foldlM_cons, checkEntry_encode hvalid hr found hnew]
    have hap : found ++ e :: es = found ++ [e] ++ es := by simp
    rw [hap] at hn ⊢
    exact ih _ (fun e' he => hv e' (List.mem_cons_of_mem _ he)) hn

-- The catalog as it is after it was opened.
def loaded (C : Chain (Bytes × PageId)) : Catalog where
  root          := C.root
  lastPage      := C.last
  lastPageCount := C.entries.length
  entries       := C.all

end Catalog
end NexusDb
