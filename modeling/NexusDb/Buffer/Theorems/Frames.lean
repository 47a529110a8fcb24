import NexusDb.Buffer.BufferPool
import Mathlib.Data.List.Basic

theorem List.countP_set_add {l : List α} {P : α → Bool} (h : l[i]? = some a) :
    (l.set i b).countP P + (if P a then 1 else 0) = l.countP P + (if P b then 1 else 0) := by
  have ⟨hl, ha⟩ := List.getElem?_eq_some_iff.mp h
  rw [List.countP_set hl, ha]
  cases hp : P a
  case false => simp
  case true =>
    have := List.countP_pos_iff.mpr ⟨a, List.mem_of_getElem? h, hp⟩
    simp
    omega

namespace NexusDb

namespace Frame

-- Everything of a frame that does not depend on the access clock.
def unstamped (f : Frame) : Frame :=
  { f with lastUsed := 0 }

def cleaned (f : Frame) : Frame :=
  { f with page := { f.page with dirty := false } }

theorem eq_of_unstamped {f g : Frame} (h : f.unstamped = g.unstamped) :
    f.page = g.page ∧ f.pinCount = g.pinCount ∧ f.inUse = g.inUse := by
  simpa [unstamped] using h

theorem eq_of_cleaned {f g : Frame} (h : f.cleaned = g.cleaned) :
    f.page.id = g.page.id ∧ f.page.data = g.page.data ∧ f.pinCount = g.pinCount ∧
      f.lastUsed = g.lastUsed ∧ f.inUse = g.inUse := by
  simp [cleaned] at h
  tauto

end Frame

namespace BufferPool

variable {p q r : BufferPool σ} {f g : Frame}

def frame? (p : BufferPool σ) (i : Nat) : Option Frame :=
  p.frames[i]?

theorem frameAt_eq_getD : p.frameAt i = (p.frame? i).getD {} := by
  simp [frameAt, frame?]

theorem frameAt_eq (h : p.frame? i = some f) : p.frameAt i = f := by
  rw [frameAt_eq_getD, h, Option.getD_some]

theorem frame?_of_inUse (h : (p.frameAt i).inUse) : p.frame? i = some (p.frameAt i) := by
  cases hf : p.frame? i
  case none =>
    rw [frameAt_eq_getD, hf] at h
    cases h
  case some => rw [frameAt_eq hf]

theorem mem_of_frame? (h : p.frame? i = some f) : f ∈ p.frames :=
  List.mem_of_getElem? h

theorem frame?_of_mem (h : f ∈ p.frames) : ∃ i, p.frame? i = some f :=
  List.getElem?_of_mem h

theorem lt_of_frame? (h : p.frame? i = some f) : i < p.frames.length :=
  (List.getElem?_eq_some_iff.mp h).fst

@[simp]
theorem frame?_setFrame :
    (p.setFrame i f).frame? j = if i = j then (p.frame? j).map fun _ => f else p.frame? j := by
  simp only [frame?, setFrame, List.getElem?_set]
  split
  case isTrue h =>
    subst h
    cases hf : p.frames[i]?
    case none => simpa using hf
    case some => simp [(List.getElem?_eq_some_iff.mp hf).fst]
  case isFalse => rfl

theorem frame?_setFrame_self (h : p.frame? i = some f) : (p.setFrame i g).frame? i = some g := by
  simp [h]

theorem size_setFrame (h : p.frame? i = some f) :
    (p.setFrame i g).size + (if f.inUse then 1 else 0) = p.size + (if g.inUse then 1 else 0) :=
  List.countP_set_add h

-- Two states of a pool that differ in the access clock and the stamps only.
structure SameButStamps (p q : BufferPool σ) : Prop where
  dev      : q.dev = p.dev
  capacity : q.capacity = p.capacity
  frames   : q.frames.map Frame.unstamped = p.frames.map Frame.unstamped

namespace SameButStamps

theorem trans (h₁ : SameButStamps p q) (h₂ : SameButStamps q r) : SameButStamps p r :=
  ⟨h₂.dev.trans h₁.dev, h₂.capacity.trans h₁.capacity, h₂.frames.trans h₁.frames⟩

theorem symm (h : SameButStamps p q) : SameButStamps q p :=
  ⟨h.dev.symm, h.capacity.symm, h.frames.symm⟩

theorem frame? (h : SameButStamps p q) (hf : p.frame? i = some f) :
    ∃ g, q.frame? i = some g ∧ g.unstamped = f.unstamped := by
  have he := congrArg (·[i]?) h.frames
  rw [BufferPool.frame?] at hf
  simp only [List.getElem?_map, hf, Option.map_some, Option.map_eq_some_iff] at he
  exact he

theorem length (h : SameButStamps p q) : q.frames.length = p.frames.length := by
  simpa using congrArg List.length h.frames

theorem size (h : SameButStamps p q) : q.size = p.size := by
  have hc : ∀ fs : List Frame, (fs.map Frame.unstamped).countP (·.inUse) = fs.countP (·.inUse) := by
    intro fs
    rw [List.countP_map]
    rfl
  rw [BufferPool.size, BufferPool.size, ← hc, h.frames, hc]

-- Setting a frame keeps the relation when the new frames correspond.
theorem setFrame (h : SameButStamps p q) (he : g.unstamped = f.unstamped) :
    SameButStamps (p.setFrame i f) (q.setFrame i g) := by
  refine ⟨h.dev, h.capacity, ?_⟩
  simp only [BufferPool.setFrame, List.map_set, he, h.frames]

theorem setFrame_self (hf : p.frame? i = some f) (he : g.unstamped = f.unstamped) :
    SameButStamps p (p.setFrame i g) := by
  refine ⟨rfl, rfl, ?_⟩
  simp only [BufferPool.setFrame, List.map_set, he]
  apply List.ext_getElem?
  intro j
  rw [List.getElem?_set]
  split
  case isTrue h =>
    subst h
    have hl := lt_of_frame? hf
    rw [BufferPool.frame?] at hf
    rw [if_pos (by simpa using hl), List.getElem?_map, hf, Option.map_some]
  case isFalse => rfl

end SameButStamps

-- Two states of a pool between which dirty pages were written back.
structure Cleans (p q : BufferPool σ) : Prop where
  capacity : q.capacity = p.capacity
  frames   : q.frames.map Frame.cleaned = p.frames.map Frame.cleaned
  clean    : ∀ i f g, p.frame? i = some f → q.frame? i = some g → f.page.dirty = false →
               g.page.dirty = false

namespace Cleans

theorem refl (p : BufferPool σ) : Cleans p p :=
  ⟨rfl, rfl, fun _ _ _ hf hg hd => Option.some_inj.mp (hf.symm.trans hg) ▸ hd⟩

theorem frame? (h : Cleans p q) (hf : p.frame? i = some f) :
    ∃ g, q.frame? i = some g ∧ g.cleaned = f.cleaned := by
  have he := congrArg (·[i]?) h.frames
  rw [BufferPool.frame?] at hf
  simp only [List.getElem?_map, hf, Option.map_some, Option.map_eq_some_iff] at he
  exact he

theorem trans (h₁ : Cleans p q) (h₂ : Cleans q r) : Cleans p r where
  capacity := h₂.capacity.trans h₁.capacity
  frames   := h₂.frames.trans h₁.frames
  clean i f g hf hg hd :=
    have ⟨k, hk, _⟩ := h₁.frame? hf
    h₂.clean i k g hk hg <| h₁.clean i f k hf hk hd

theorem length (h : Cleans p q) : q.frames.length = p.frames.length := by
  simpa using congrArg List.length h.frames

theorem size (h : Cleans p q) : q.size = p.size := by
  have hc : ∀ fs : List Frame, (fs.map Frame.cleaned).countP (·.inUse) = fs.countP (·.inUse) := by
    intro fs
    rw [List.countP_map]
    rfl
  rw [BufferPool.size, BufferPool.size, ← hc, h.frames, hc]

theorem setFrame (hf : p.frame? i = some f) (s : σ) : Cleans p { p.setFrame i f.cleaned with dev := s } := by
  have hl := lt_of_frame? hf
  refine ⟨rfl, ?_, ?_⟩
  · apply List.ext_getElem?
    intro j
    simp only [BufferPool.setFrame, List.getElem?_map, List.getElem?_set]
    split
    case isTrue h =>
      subst h
      rw [BufferPool.frame?] at hf
      rw [hf]
      rfl
    case isFalse => rfl
  · intro j g k hg hk hd
    change (p.setFrame i f.cleaned).frame? j = some k at hk
    rw [frame?_setFrame] at hk
    split at hk
    case isTrue h =>
      rw [hg] at hk
      cases hk
      rfl
    case isFalse =>
      rw [hg] at hk
      cases hk
      exact hd

end Cleans

theorem map_unstamped_modify (fs : List Frame) :
    (fs.modify i ({ · with lastUsed := n })).map Frame.unstamped = fs.map Frame.unstamped := by
  apply List.ext_getElem?
  intro j
  simp only [List.getElem?_map, List.getElem?_modify]
  split
  case isTrue => cases fs[j]? <;> rfl
  case isFalse => simp

theorem renumberClock_same (p : BufferPool σ) : SameButStamps p p.renumberClock := by
  refine ⟨rfl, rfl, ?_⟩
  simp only [renumberClock]
  generalize List.zipIdx _ = order
  generalize p.frames = fs
  induction order generalizing fs
  case nil => rfl
  case cons o _ hi => rw [List.foldl_cons, hi, map_unstamped_modify]

theorem nextTimestamp_same (p : BufferPool σ) : SameButStamps p p.nextTimestamp.snd := by
  simp only [nextTimestamp]
  split
  case isTrue => exact (renumberClock_same p).trans ⟨rfl, rfl, rfl⟩
  case isFalse => exact ⟨rfl, rfl, rfl⟩

-- The search for a victim.

def eligible (f : Frame) : Prop :=
  f.inUse ∧ f.pinCount = 0

def victimStep (acc : Option Nat × Nat) (fi : Frame × Nat) : Option Nat × Nat :=
  if fi.fst.inUse && fi.fst.pinCount == 0 && decide (fi.fst.lastUsed < acc.snd) then
    (some fi.snd, fi.fst.lastUsed)
  else
    acc

theorem victim_eq (fs : List Frame) :
    victim fs = (fs.zipIdx.foldl victimStep (none, maxStamp)).fst :=
  rfl

theorem foldl_victimStep (fs : List Frame) (k : Nat) (acc : Option Nat × Nat) :
    (((fs.zipIdx k).foldl victimStep acc) = acc ∧ ∀ f ∈ fs, eligible f → acc.snd ≤ f.lastUsed) ∨
    (∃ j f, fs[j]? = some f ∧ eligible f ∧ f.lastUsed < acc.snd ∧
      (∀ g ∈ fs, eligible g → f.lastUsed ≤ g.lastUsed) ∧
      (fs.zipIdx k).foldl victimStep acc = (some (k + j), f.lastUsed)) := by
  induction fs generalizing k acc
  case nil => exact .inl ⟨rfl, nofun⟩
  case cons g fs hi =>
    rw [List.zipIdx_cons, List.foldl_cons]
    by_cases hg : g.inUse && g.pinCount == 0 && decide (g.lastUsed < acc.snd)
    case pos =>
      have hs : victimStep acc (g, k) = (some k, g.lastUsed) := if_pos hg
      simp only [Bool.and_eq_true, beq_iff_eq, decide_eq_true_eq] at hg
      rw [hs]
      rcases hi (k + 1) (some k, g.lastUsed) with ⟨h, ha⟩ | ⟨j, f, hj, he, hl, ha, h⟩
      · refine .inr ⟨0, g, rfl, hg.left, hg.right, fun f hf he => ?_, by rw [h]; rfl⟩
        cases hf
        case head => exact le_rfl
        case tail hf => exact ha f hf he
      · refine .inr ⟨j + 1, f, hj, he, hl.trans hg.right, fun f' hf he => ?_, ?_⟩
        · cases hf
          case head => exact hl.le
          case tail hf => exact ha f' hf he
        · rw [h, Nat.add_assoc, Nat.add_comm 1]
    case neg =>
      have hs : victimStep acc (g, k) = acc := if_neg hg
      simp only [Bool.and_eq_true, beq_iff_eq, decide_eq_true_eq] at hg
      rw [hs]
      rcases hi (k + 1) acc with ⟨h, ha⟩ | ⟨j, f, hj, he, hl, ha, h⟩
      · refine .inl ⟨h, fun f hf he => ?_⟩
        cases hf
        case head => exact Nat.not_lt.mp fun hl => hg ⟨he, hl⟩
        case tail hf => exact ha f hf he
      · refine .inr ⟨j + 1, f, hj, he, hl, fun f' hf he' => ?_, ?_⟩
        · cases hf
          case head => exact hl.le.trans <| Nat.not_lt.mp fun hl => hg ⟨he', hl⟩
          case tail hf => exact ha f' hf he'
        · rw [h, Nat.add_assoc, Nat.add_comm 1]

theorem victim_some (h : victim fs = some i) :
    ∃ f, fs[i]? = some f ∧ eligible f ∧ ∀ g ∈ fs, eligible g → f.lastUsed ≤ g.lastUsed := by
  rw [victim_eq] at h
  rcases foldl_victimStep fs 0 (none, maxStamp) with ⟨he, _⟩ | ⟨j, f, hj, hf, _, hm, he⟩ <;> rw [he] at h <;>
    cases h
  exact ⟨f, by simpa using hj, hf, hm⟩

theorem victim_none (h : victim fs = none) (hf : f ∈ fs) (he : eligible f) : maxStamp ≤ f.lastUsed := by
  rw [victim_eq] at h
  rcases foldl_victimStep fs 0 (none, maxStamp) with ⟨_, ha⟩ | ⟨_, _, _, _, _, _, he⟩
  · exact ha f hf he
  · rw [he] at h
    cases h

-- The pages that the pool has in a frame.

def Resident (p : BufferPool σ) (id : PageId) : Prop :=
  ∃ i f, p.frame? i = some f ∧ f.inUse ∧ f.page.id = id

theorem findFrame_some (h : p.findFrame j = some i) :
    ∃ f, p.frame? i = some f ∧ f.inUse ∧ f.page.id = j := by
  have ⟨hl, hf, _⟩ := List.findIdx?_eq_some_iff_getElem.mp h
  simp only [Bool.and_eq_true, beq_iff_eq] at hf
  exact ⟨p.frames[i], List.getElem?_eq_getElem hl, hf⟩

theorem findFrame_none (h : p.findFrame j = none) : ¬Resident p j := by
  rintro ⟨i, f, hf, hu, hj⟩
  have := List.findIdx?_eq_none_iff.mp h f (mem_of_frame? hf)
  simp [hu, hj] at this

-- The frames that a shrink evicts.
theorem Resident.of_setFrame (h : (p.setFrame i g).Resident j) : p.Resident j ∨ (g.inUse ∧ g.page.id = j) := by
  have ⟨k, f, hf, hu, hj⟩ := h
  rw [frame?_setFrame] at hf
  split at hf
  case isTrue =>
    have ⟨_, _, he⟩ := Option.map_eq_some_iff.mp hf
    subst he
    exact .inr ⟨hu, hj⟩
  case isFalse => exact .inl ⟨k, f, hf, hu, hj⟩

theorem Resident.of_same (h : q.Resident j) (hs : SameButStamps p q) : p.Resident j := by
  have ⟨i, g, hg, hu, hj⟩ := h
  have ⟨f, hf, he⟩ := hs.symm.frame? hg
  have ⟨hp, _, hin⟩ := Frame.eq_of_unstamped he
  exact ⟨i, f, hf, hin ▸ hu, hp ▸ hj⟩

theorem Resident.of_unpin (h : (p.unpinFrame i).Resident j) : p.Resident j := by
  rw [unpinFrame] at h
  split at h
  case isTrue => exact h
  case isFalse =>
    rcases h.of_setFrame with h | ⟨hu, hj⟩
    · exact h
    · exact ⟨i, p.frameAt i, frame?_of_inUse hu, hu, hj⟩

theorem shrinkVictims_spec (h : p.shrinkVictims n = some is) :
    is.Nodup ∧ (∀ i ∈ is, ∃ f, p.frame? i = some f ∧ eligible f) ∧ p.size ≤ n + is.length := by
  simp only [shrinkVictims] at h
  split at h
  case isFalse hs => cases h; exact ⟨.nil, nofun, by simpa using hs⟩
  case isTrue hs =>
    split at h
    case isTrue => cases h
    case isFalse hl =>
      cases h
      refine ⟨?_, fun i hi => ?_, ?_⟩
      · refine (List.take_sublist _ _).nodup ?_
        exact (List.mergeSort_perm _ _).nodup_iff.mpr <| List.nodup_range.filter _
      · have hm := (List.mergeSort_perm _ _).mem_iff.mp <| List.mem_of_mem_take hi
        simp only [List.mem_filter, Bool.and_eq_true, beq_iff_eq] at hm
        exact ⟨_, frame?_of_inUse hm.right.left, hm.right⟩
      · simp only [List.length_take, List.length_mergeSort]
        omega

-- Trimming removes free frames from the end.
theorem trim_spec (n : Nat) (fs : List Frame) :
    ∃ rest, fs = trim n fs ++ rest ∧ (∀ f ∈ rest, f.inUse = false) ∧
      (n ≤ fs.length → n ≤ (trim n fs).length) := by
  rw [trim]
  split
  case isTrue h =>
    have ⟨hl, hu⟩ := h
    have hne : fs ≠ [] := List.ne_nil_of_length_pos (by omega)
    have ⟨rest, he, hr, hn⟩ := trim_spec n fs.dropLast
    refine ⟨rest ++ [fs.getLast hne], ?_, ?_, ?_⟩
    · rw [← List.append_assoc, ← he, List.dropLast_append_getLast]
    · intro f hf
      rcases List.mem_append.mp hf with hf | hf
      · exact hr f hf
      · rw [List.mem_singleton.mp hf]
        simpa [List.getLastD_eq_getLast?, List.getLast?_eq_some_getLast hne] using hu
    · intro _
      apply hn
      simp
      omega
  case isFalse => exact ⟨[], by simp, nofun, id⟩
termination_by fs.length
decreasing_by
  simp
  omega

-- Two states of a pool between which frames were stamped, added, removed or given up. The frames
-- that are given up were clean and not pinned.
structure Reframes (p q : BufferPool σ) : Prop where
  dev      : q.dev = p.dev
  keep     : ∀ i g, q.frame? i = some g → g.inUse → ∃ f, p.frame? i = some f ∧ f.unstamped = g.unstamped
  lost     : ∀ i f, p.frame? i = some f → f.inUse →
               (∃ g, q.frame? i = some g ∧ g.unstamped = f.unstamped) ∨
               (f.pinCount = 0 ∧ f.page.dirty = false)
  free     : ∀ i g, q.frame? i = some g → g.inUse = false →
               (∃ f, p.frame? i = some f ∧ f.unstamped = g.unstamped) ∨ g.pinCount = 0
  size_le  : p.size ≤ p.capacity → q.size ≤ q.capacity
  frame_le : p.capacity ≤ p.frames.length → q.capacity ≤ q.frames.length
  positive : 0 < p.capacity → 0 < q.capacity

namespace Reframes

theorem of_same (h : SameButStamps p q) : Reframes p q where
  dev := h.dev
  keep i g hg _ := have ⟨f, hf, he⟩ := h.symm.frame? hg; ⟨f, hf, he⟩
  lost i f hf _ := have ⟨g, hg, he⟩ := h.frame? hf; .inl ⟨g, hg, he⟩
  free i g hg _ := have ⟨f, hf, he⟩ := h.symm.frame? hg; .inl ⟨f, hf, he⟩
  size_le := by rw [h.size, h.capacity]; exact id
  frame_le := by rw [h.length, h.capacity]; exact id
  positive := by rw [h.capacity]; exact id

theorem drop (hf : p.frame? i = some f) (he : eligible f) (hc : f.page.dirty = false) :
    Reframes p (p.setFrame i {}) where
  dev := rfl
  keep j g hg hu := by
    rw [frame?_setFrame] at hg
    split at hg
    case isTrue h => subst h; simp [hf] at hg; subst hg; cases hu
    case isFalse => exact ⟨g, hg, rfl⟩
  lost j g hg _ := by
    rw [frame?_setFrame]
    split
    case isTrue h =>
      subst h
      cases hf.symm.trans hg
      exact .inr ⟨he.right, hc⟩
    case isFalse => exact .inl ⟨g, hg, rfl⟩
  free j g hg _ := by
    rw [frame?_setFrame] at hg
    split at hg
    case isTrue h => subst h; simp [hf] at hg; subst hg; exact .inr rfl
    case isFalse => exact .inl ⟨g, hg, rfl⟩
  size_le h := by
    have hs := size_setFrame (g := {}) hf
    simp [he.left] at hs
    exact le_trans (by omega) h
  frame_le h := by simpa [setFrame] using h
  positive := id

theorem grow (h : p.capacity < n) :
    Reframes p { p with frames   := p.frames ++ List.replicate (n - p.frames.length) {}
                        capacity := n } where
  dev := rfl
  keep i g hg hu := by
    simp only [frame?, List.getElem?_append] at hg ⊢
    split at hg
    case isTrue => exact ⟨g, hg, rfl⟩
    case isFalse =>
      have := List.eq_of_mem_replicate <| List.mem_of_getElem? hg
      subst this
      cases hu
  lost i f hf _ := by
    have hl := lt_of_frame? hf
    exact .inl ⟨f, by simpa [frame?, List.getElem?_append, hl] using hf, rfl⟩
  free i g hg _ := by
    simp only [frame?, List.getElem?_append] at hg ⊢
    split at hg
    case isTrue => exact .inl ⟨g, hg, rfl⟩
    case isFalse =>
      have := List.eq_of_mem_replicate <| List.mem_of_getElem? hg
      exact .inr <| this ▸ rfl
  size_le hs := by
    simp only [size, List.countP_append, List.countP_replicate] at hs ⊢
    simp
    omega
  frame_le _ := by
    simp
    omega
  positive hp := hp.trans h

theorem shrink (hn : 0 < n) (h : n < p.capacity) (hs : p.size ≤ n) :
    Reframes p { p with capacity := n }.trimFreeFrames := by
  have ⟨rest, he, hr, hl⟩ := trim_spec n p.frames
  have hq : ∀ {i g}, (trim n p.frames)[i]? = some g → p.frame? i = some g := by
    intro i g hg
    rw [frame?, he, List.getElem?_append_left (List.getElem?_eq_some_iff.mp hg).fst]
    exact hg
  refine ⟨rfl, ?_, ?_, ?_, ?_, ?_, fun _ => hn⟩
  · exact fun i g hg _ => ⟨g, hq hg, rfl⟩
  · intro i f hf hu
    refine .inl ⟨f, ?_, rfl⟩
    rw [frame?, he, List.getElem?_append] at hf
    split at hf
    case isTrue => exact hf
    case isFalse =>
      have := hr f <| List.mem_of_getElem? hf
      rw [this] at hu
      cases hu
  · exact fun i g hg _ => .inl ⟨g, hq hg, rfl⟩
  · intro _
    have hc : p.size = (trim n p.frames).countP (·.inUse) := by
      have hz : rest.countP (·.inUse) = 0 := List.countP_eq_zero.mpr fun f hf => by simp [hr f hf]
      rw [size, he, List.countP_append, hz, Nat.add_zero, ← he]
    simpa only [trimFreeFrames, size, ← hc] using hs
  · exact fun hc => hl <| h.le.trans hc

end Reframes

end BufferPool
end NexusDb
