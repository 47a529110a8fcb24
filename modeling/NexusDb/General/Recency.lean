import Mathlib.Data.List.Basic

namespace List

theorem pairwise_mergeSort_key (key : α → Nat) (l : List α) :
    (l.mergeSort fun a b => key a ≤ key b).Pairwise fun a b => key a ≤ key b := by
  have h := @pairwise_mergeSort α (fun a b => key a ≤ key b)
    (fun a b c hab hbc => by simp at hab hbc ⊢; exact Nat.le_trans hab hbc)
    (fun a b => by simp; exact Nat.le_total _ _) l
  exact h.imp fun h => by simpa using h

variable [DecidableEq α] {h : List α}

-- When an element last occurred in a history that starts with its most recent element. It is 0 for
-- an element that never occurred.
def recency (h : List α) (a : α) : Nat :=
  h.length - h.idxOf a

theorem recency_cons_self : (a :: h).recency a = h.length + 1 := by
  simp [recency]

theorem recency_cons_ne (hne : b ≠ a) : (a :: h).recency b = h.recency b := by
  rw [recency, recency, idxOf_cons_ne h hne.symm]
  simp

theorem recency_inj (ha : a ∈ h) (hb : b ∈ h) (he : h.recency a = h.recency b) : a = b := by
  have hla := idxOf_lt_length_of_mem ha
  have hlb := idxOf_lt_length_of_mem hb
  rw [recency, recency] at he
  exact (idxOf_inj ha).mp (by omega)

-- The place of an element in a list that is ordered by keys, when no two elements have the same key.
theorem Pairwise.idxOf_lt_iff {key : α → Nat} {l : List α} (hs : l.Pairwise fun a b => key a ≤ key b)
    (hinj : ∀ a ∈ l, ∀ b ∈ l, key a = key b → a = b) (ha : a ∈ l) (hb : b ∈ l) :
    l.idxOf a < l.idxOf b ↔ key a < key b := by
  have hle : ∀ a ∈ l, ∀ b ∈ l, l.idxOf a < l.idxOf b → key a ≤ key b := fun a ha b hb hlt => by
    have h := pairwise_iff_getElem.mp hs _ _ (idxOf_lt_length_of_mem ha) (idxOf_lt_length_of_mem hb) hlt
    simpa using h
  constructor
  case mp =>
    intro hlt
    refine Nat.lt_of_le_of_ne (hle a ha b hb hlt) fun he => ?_
    rw [hinj a ha b hb he] at hlt
    exact Nat.lt_irrefl _ hlt
  case mpr =>
    intro hlt
    refine Nat.lt_of_not_le fun hba => ?_
    rcases Nat.lt_or_eq_of_le hba with hba | he
    · exact Nat.not_le.mpr hlt (hle b hb a ha hba)
    · rw [(idxOf_inj hb).mp he] at hlt
      exact Nat.lt_irrefl _ hlt

-- Changing the elements at different positions, each with the number of its turn.
theorem getElem?_foldl_modify {is : List Nat} (f : Nat → β → β) (hn : is.Nodup) (l : List β) (k j : Nat) :
    ((is.zipIdx k).foldl (fun l (i, n) => l.modify i (f n)) l)[j]? =
      l[j]?.map fun b => if j ∈ is then f (k + is.idxOf j) b else b := by
  induction is generalizing l k
  case nil => simp
  case cons i is hi =>
    have ⟨hni, hn⟩ := nodup_cons.mp hn
    rw [zipIdx_cons, foldl_cons, hi hn, getElem?_modify]
    by_cases hj : i = j
    case pos =>
      subst hj
      cases l[i]? <;> simp [hni]
    case neg =>
      have hidx : k + 1 + is.idxOf j = k + (i :: is).idxOf j := by
        rw [idxOf_cons_ne is hj]
        omega
      cases l[j]? <;> simp [hj, Ne.symm hj, hidx]

end List

-- `xs` has elements with the property `S`, those with the smallest keys.
structure Smallest (key : α → Nat) (S : α → Prop) (xs : List α) : Prop where
  nodup : xs.Nodup
  mem   : ∀ x ∈ xs, S x
  lt    : ∀ x ∈ xs, ∀ y, S y → y ∉ xs → key x < key y

namespace Smallest

variable {key : α → Nat} {S : α → Prop}

theorem single (hx : S x) (hinj : ∀ y, S y → key x = key y → x = y) (hle : ∀ y, S y → key x ≤ key y) :
    Smallest key S [x] where
  nodup := by simp
  mem y hy := List.mem_singleton.mp hy ▸ hx
  lt y hy z hz hn := by
    cases List.mem_singleton.mp hy
    refine Nat.lt_of_le_of_ne (hle z hz) fun he => hn ?_
    exact List.mem_singleton.mpr (hinj z hz he).symm

-- The first elements of a list that has all elements with the property, ordered by their keys.
theorem take {l : List α} (hn : l.Nodup) (hl : ∀ x, x ∈ l ↔ S x)
    (hinj : ∀ x y, S x → S y → key x = key y → x = y) (hs : l.Pairwise fun x y => key x ≤ key y)
    (k : Nat) : Smallest key S (l.take k) where
  nodup := (List.take_sublist k l).nodup hn
  mem x hx := (hl x).mp <| List.mem_of_mem_take hx
  lt x hx y hy hny := by
    have hyl := (hl y).mpr hy
    rw [← List.take_append_drop k l] at hyl hs
    have hyd := (List.mem_append.mp hyl).resolve_left hny
    refine Nat.lt_of_le_of_ne ((List.pairwise_append.mp hs).right.right x hx y hyd) fun he => ?_
    cases hinj x y ((hl x).mp <| List.mem_of_mem_take hx) hy he
    exact hny hx

end Smallest
