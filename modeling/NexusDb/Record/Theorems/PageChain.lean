import NexusDb.Record.PageChain
import NexusDb.Buffer.Theorems.Contract

open ByteBlock

namespace NexusDb

namespace PageChain

variable {c : PageChain} {d d' : PageData} {es : List Bytes}

-- At least one entry fits on a page.
structure Lawful (c : PageChain) : Prop where
  magic : c.magic.length = 4
  size  : 0 < c.entrySize
  room  : 0 < c.capacity

theorem entryOffset_le (h : k < c.capacity) : c.entryOffset k + c.entrySize ≤ 4096 := by
  have hm : (k + 1) * c.entrySize ≤ (pageSize - headerSize) / c.entrySize * c.entrySize :=
    Nat.mul_le_mul_right _ h
  have hd := Nat.div_mul_le_self (pageSize - headerSize) c.entrySize
  simp only [entryOffset, headerSize, pageSize, Nat.add_mul] at hm hd ⊢
  omega

theorem entryOffset_mono (h : j < k) : c.entryOffset j + c.entrySize ≤ c.entryOffset k := by
  have hm : (j + 1) * c.entrySize ≤ k * c.entrySize := Nat.mul_le_mul_right _ h
  simp only [entryOffset, Nat.add_mul] at hm ⊢
  omega

theorem headerSize_le : 16 ≤ c.entryOffset k :=
  Nat.le_add_right _ _

-- The entries of a page and the id of the next one.
structure Holds (c : PageChain) (d : PageData) (es : List Bytes) (next : PageId) : Prop where
  magic   : d.slice offMagic 4 = c.magic
  version : d.natAt offVersion 2 = version
  count   : d.natAt offCount 4 = es.length
  fits    : es.length ≤ c.capacity
  entry   : ∀ k e, es[k]? = some e → d.slice (c.entryOffset k) c.entrySize = e
  next    : d.natAt offNext 4 = next.toNat

theorem holds_init (hl : c.Lawful) : c.Holds c.initPage [] invalidId where
  magic := by
    rw [initPage, slice_writeNat_of_disjoint (by simp), slice_writeNat_of_disjoint (by simp),
      slice_writeNat_of_disjoint (by simp), slice_writeNat_of_disjoint (by simp),
      slice_write_self (by simp [hl.magic]) hl.magic.symm]
  version := by
    rw [initPage, natAt_writeNat_of_disjoint (by simp), natAt_writeNat_of_disjoint (by simp),
      natAt_writeNat_of_disjoint (by simp), natAt_writeNat_self (by simp) (by simp)]
  count := by
    rw [initPage, natAt_writeNat_of_disjoint (by simp), natAt_writeNat_self (by simp) (by simp)]
    rfl
  fits := Nat.zero_le _
  entry := nofun
  next := by rw [initPage, natAt_writeNat_self (by simp) (by decide)]

namespace Holds

variable {next : PageId}

theorem validateHeader (h : c.Holds d es next) : c.validateHeader d = some (.ok ()) := by
  simp only [PageChain.validateHeader, load_of_le (show offMagic + 4 ≤ 4096 by decide),
    loadNat_of_le (show offVersion + 2 ≤ 4096 by decide), loadNat_of_le (show offCount + 4 ≤ 4096 by decide)]
  simp [h.magic, h.version, h.count, h.fits]

theorem readEntries (h : c.Holds d es next) (hi : i + n = es.length) : c.readEntries d i n = some (es.drop i) := by
  induction n generalizing i
  case zero =>
    rw [List.drop_of_length_le (by omega)]
    rfl
  case succ n ih =>
    have hlt : i < es.length := by omega
    have he := h.entry i es[i] (List.getElem?_eq_getElem hlt)
    have hle := entryOffset_le (c := c) (hlt.trans_le h.fits)
    rw [PageChain.readEntries, load_of_le hle, he, List.drop_eq_getElem_cons hlt, ih (by omega)]
    rfl

theorem readPage (h : c.Holds d es next) : c.readPage d = some (.ok (es, next), none) := by
  rw [PageChain.readPage, h.validateHeader, loadNat_of_le (show offCount + 4 ≤ 4096 by decide),
    loadNat_of_le (show offNext + 4 ≤ 4096 by decide), h.count, h.next]
  simp [h.readEntries (Nat.zero_add es.length)]

theorem unique (h : c.Holds d es next) (h' : c.Holds d es' next') : es' = es ∧ next' = next := by
  have he := h.readPage.symm.trans h'.readPage
  simp at he
  exact ⟨he.left.symm, he.right.symm⟩

theorem writeEntry (h : c.Holds d es next) (hroom : es.length < c.capacity) (he : e.length = c.entrySize) :
    ∃ d', c.writeEntry d es.length e = some d' ∧ c.Holds d' (es ++ [e]) next := by
  have hle := entryOffset_le (c := c) hroom
  have hh := headerSize_le (c := c) (k := es.length)
  have hcap : c.capacity ≤ 4096 := Nat.le_trans (Nat.div_le_self _ _) (by decide)
  refine ⟨(d.write (c.entryOffset es.length) e).writeNat offCount 4 (es.length + 1), ?_, ?_⟩
  · rw [PageChain.writeEntry, store_of_le (by omega)]
    exact storeNat_of_le (show offCount + 4 ≤ 4096 by decide)
  · constructor
    case magic =>
      rw [slice_writeNat_of_disjoint (by simp), slice_write_of_disjoint (by simp; omega)]
      exact h.magic
    case version =>
      rw [natAt_writeNat_of_disjoint (by simp), natAt_write_of_disjoint (by simp; omega)]
      exact h.version
    case count =>
      rw [natAt_writeNat_self (by simp) (by simp; omega), List.length_append]
      rfl
    case fits =>
      rw [List.length_append]
      exact hroom
    case next =>
      rw [natAt_writeNat_of_disjoint (by simp), natAt_write_of_disjoint (by simp; omega)]
      exact h.next
    case entry =>
      intro k e' hk
      have hhk := headerSize_le (c := c) (k := k)
      rw [slice_writeNat_of_disjoint (by simp; omega)]
      cases Nat.lt_or_ge k es.length
      case inl hlt =>
        have hm := entryOffset_mono (c := c) hlt
        rw [slice_write_of_disjoint (by omega)]
        rw [List.getElem?_append_left hlt] at hk
        exact h.entry k e' hk
      case inr hge =>
        rw [List.getElem?_append_right hge] at hk
        have ⟨hz, hv⟩ := List.getElem?_eq_some_iff.mp hk
        simp only [List.length_cons, List.length_nil] at hz
        have hkl : k = es.length := by omega
        subst hkl
        simp only [Nat.sub_self, List.getElem_cons_zero] at hv
        rw [← hv, slice_write_self (by omega) he.symm]

theorem setNext (h : c.Holds d es next) (new : PageId) :
    ∃ d', d.storeNat offNext 4 new.toNat = some d' ∧ c.Holds d' es new := by
  refine ⟨d.writeNat offNext 4 new.toNat, storeNat_of_le (by decide), ?_⟩
  constructor
  case magic => rw [slice_writeNat_of_disjoint (by simp)]; exact h.magic
  case version => rw [natAt_writeNat_of_disjoint (by simp)]; exact h.version
  case count => rw [natAt_writeNat_of_disjoint (by simp)]; exact h.count
  case fits => exact h.fits
  case next => exact natAt_writeNat_self (by decide) new.toNat_lt
  case entry =>
    intro k e hk
    have hh := headerSize_le (c := c) (k := k)
    rw [slice_writeNat_of_disjoint (by simp; omega)]
    exact h.entry k e hk

end Holds
end PageChain
end NexusDb
