import NexusDb.Storage.PageStorage
import NexusDb.General.LastWrite
import Mathlib.Data.List.Nodup
import Mathlib.Data.List.Perm.Basic

namespace NexusDb.PageStorage

variable {s : PageStorage} {i j : PageId} {ws : List (PageId × PageData)}

theorem lt_numPages_iff : i < s.numPages ↔ i.toNat < s.pages.length := by
  rw [UInt32.lt_iff_toNat_lt, toNat_numPages]

theorem pageExists_iff : s.pageExists i ↔ i.toNat < s.pages.length := by
  rw [pageExists, decide_eq_true_eq, lt_numPages_iff]

theorem page?_isSome_iff : (s.page? i).isSome ↔ i < s.numPages := by
  simp [page?, lt_numPages_iff]

theorem page?_isSome_of_pageExists (h : s.pageExists i) : (s.page? i).isSome :=
  page?_isSome_iff.mpr <| by simpa [pageExists] using h

theorem page?_ext {s' : PageStorage} (h : ∀ i, s.page? i = s'.page? i) : s = s' := by
  ext1
  apply List.ext_getElem?
  intro i
  cases Nat.lt_or_ge i (2 ^ 32)
  case inl hi =>
    have h := h (UInt32.ofNat i)
    simpa only [page?, UInt32.toNat_ofNat_of_lt' hi] using h
  case inr hi =>
    rw [List.getElem?_eq_none (s.bound.le.trans hi), List.getElem?_eq_none (s'.bound.le.trans hi)]

theorem page?_setPage (h : (s.page? i).isSome) :
    (s.setPage i d).page? j = if i = j then some d else s.page? j := by
  simp only [page?, setPage, List.getElem?_set, UInt32.toNat_inj]
  split
  case isTrue h' => simpa [h'.symm, page?] using h
  case isFalse => rfl

@[simp]
theorem length_setPage : (s.setPage i d).pages.length = s.pages.length := by
  simp [setPage]

@[simp]
theorem numPages_setPage : (s.setPage i d).numPages = s.numPages := by
  simp [numPages]

@[simp]
theorem pageExists_setPage : (s.setPage i d).pageExists j = s.pageExists j := by
  simp [pageExists]

theorem isSome_setPage : ((s.setPage i d).page? j).isSome = (s.page? j).isSome := by
  rw [Bool.eq_iff_iff]
  simp [page?, setPage]

-- Writing one page image after the other.
def replay (s : PageStorage) (ws : List (PageId × PageData)) : PageStorage :=
  ws.foldl (fun s w => s.setPage w.fst w.snd) s

@[simp]
theorem replay_nil : s.replay [] = s :=
  rfl

@[simp]
theorem replay_cons : s.replay (w :: ws) = (s.setPage w.fst w.snd).replay ws :=
  rfl

@[simp]
theorem length_replay : (s.replay ws).pages.length = s.pages.length := by
  induction ws generalizing s <;> simp [*]

theorem page?_replay (h : ∀ w ∈ ws, (s.page? w.fst).isSome) :
    (s.replay ws).page? i = (lastWrite ws i).or (s.page? i) := by
  induction ws generalizing s
  case nil => rfl
  case cons w ws hi =>
    rw [replay_cons, hi fun w' h' => isSome_setPage.trans <| h w' (List.mem_cons_of_mem _ h'),
      page?_setPage <| h w List.mem_cons_self, lastWrite, Option.or_assoc]
    split <;> rfl

theorem replay_eq_self_iff (h : ∀ w ∈ ws, (s.page? w.fst).isSome) :
    s.replay ws = s ↔ ∀ i d, lastWrite ws i = some d → s.page? i = some d := by
  constructor
  case mp =>
    intro he i d hl
    rw [← he, page?_replay h, hl, Option.some_or]
  case mpr =>
    intro hl
    apply page?_ext
    intro i
    rw [page?_replay h]
    cases hw : lastWrite ws i
    case none => rfl
    case some d => rw [hl i d hw, Option.some_or]

theorem page?_push {s' : PageStorage} (hp : s'.pages = s.pages ++ [d]) :
    s'.page? j = if j = s.numPages then some d else s.page? j := by
  rw [page?, hp, page?, List.getElem?_append]
  split
  case isTrue hj =>
    rw [if_neg]
    intro h
    rw [h, toNat_numPages] at hj
    exact lt_irrefl _ hj
  case isFalse hj =>
    split
    case isTrue h => rw [h, toNat_numPages, Nat.sub_self]; rfl
    case isFalse h =>
      have hne : j.toNat ≠ s.pages.length := fun he => h <| UInt32.toNat_inj.mp (he.trans s.toNat_numPages.symm)
      rw [List.getElem?_eq_none (by simp; omega), List.getElem?_eq_none (by omega)]

theorem page?_numPages : s.page? s.numPages = none := by
  have : ¬(s.page? s.numPages).isSome := fun h => UInt32.lt_irrefl _ (page?_isSome_iff.mp h)
  simpa using this

theorem ne_numPages (h : (s.page? i).isSome) : i ≠ s.numPages := by
  rintro rfl
  rw [page?_numPages] at h
  cases h

theorem readPage_ok (h : s.readPage i = .ok p) : p.id = i ∧ p.dirty = false ∧ s.page? i = some p.data := by
  rw [readPage] at h
  split at h <;> cases h
  case isFalse hi =>
    refine ⟨rfl, rfl, ?_⟩
    have hs := page?_isSome_iff.mpr (UInt32.not_le.mp hi)
    cases hp : s.page? i
    case none => rw [hp] at hs; cases hs
    case some => rfl

theorem readPage_error (h : s.readPage i = .error e) : ¬i < s.numPages ∧ e = beyondEnd i s.numPages := by
  rw [readPage] at h
  split at h <;> cases h
  case isTrue hi => exact ⟨UInt32.not_lt.mpr hi, rfl⟩

theorem not_invalidId_lt : ¬invalidId < s.numPages :=
  UInt32.not_lt.mpr <| UInt32.le_iff_toNat_le.mpr <| Nat.le_of_lt_succ <| s.numPages.toNat_lt

theorem writePage_cases (h : s.writePage p = (res, s')) :
    (∃ e, res = .error e ∧ s' = s ∧ ¬p.id < s.numPages) ∨
    (res = .ok () ∧ s' = s.setPage p.id p.data ∧ p.id < s.numPages) := by
  rw [writePage] at h
  split at h
  case isTrue hi =>
    cases h
    exact .inl ⟨_, rfl, rfl, hi ▸ not_invalidId_lt⟩
  case isFalse =>
    split at h <;> cases h
    case isTrue hi => exact .inl ⟨_, rfl, rfl, UInt32.not_lt.mpr hi⟩
    case isFalse hi => exact .inr ⟨rfl, rfl, UInt32.not_le.mp hi⟩

-- Adding a page with given bytes.
def push (s : PageStorage) (d : PageData) : PageStorage :=
  s.allocatePage.snd.setPage s.numPages d

theorem pages_push (h : s.numPages ≠ invalidId) : (s.push d).pages = s.pages ++ [d] := by
  rw [push, allocatePage, dif_neg h]
  simp [setPage, toNat_numPages]

theorem page?_push_self (h : s.numPages ≠ invalidId) : (s.push d).page? s.numPages = some d :=
  (page?_push (pages_push h)).trans (if_pos rfl)

theorem numPages_push_ne (h : s.numPages ≠ invalidId) : (s.push d).numPages ≠ s.numPages := by
  intro hn
  have hl := congrArg UInt32.toNat hn
  rw [toNat_numPages, toNat_numPages, pages_push h, List.length_append, List.length_singleton] at hl
  omega

theorem numPages_ne_invalidId (h : s.pages.length < 2 ^ 32 - 1) : s.numPages ≠ invalidId := by
  intro hn
  have hl : s.numPages.toNat = 2 ^ 32 - 1 := by rw [hn]; rfl
  rw [toNat_numPages] at hl
  omega

theorem ne_invalidId (h : s.page? i = some d) : i ≠ invalidId := by
  rintro rfl
  have hl : invalidId.toNat < s.pages.length := (List.getElem?_eq_some_iff.mp h).choose
  have hi : invalidId.toNat = 2 ^ 32 - 1 := rfl
  have hb := s.bound
  omega

-- There are at most as many different pages as the file has.
theorem length_le {is : List PageId} (hn : is.Nodup) (hs : ∀ i ∈ is, (s.page? i).isSome) :
    is.length ≤ s.pages.length := by
  have hmap : (is.map UInt32.toNat).Nodup := List.Nodup.map (fun _ _ => UInt32.toNat_inj.mp) hn
  have hsub : is.map UInt32.toNat ⊆ List.range s.pages.length := by
    intro n hn
    have ⟨i, hi, he⟩ := List.mem_map.mp hn
    rw [List.mem_range, ← he, ← lt_numPages_iff, ← page?_isSome_iff]
    exact hs i hi
  simpa using (List.subperm_of_subset hmap hsub).length_le

-- Pages were added, and only some of the old ones have changed.
structure Extends (S : PageId → Prop) (s s' : PageStorage) : Prop where
  length : s.pages.length ≤ s'.pages.length
  same   : ∀ i, (s.page? i).isSome → ¬S i → s'.page? i = s.page? i

namespace Extends

variable {S S' : PageId → Prop} {s s₁ s₂ : PageStorage}

theorem refl : Extends S s s :=
  ⟨le_rfl, fun _ _ _ => rfl⟩

theorem isSome (h : Extends S s s₁) (hi : (s.page? i).isSome) : (s₁.page? i).isSome := by
  rw [page?_isSome_iff, lt_numPages_iff] at hi ⊢
  exact hi.trans_le h.length

theorem trans (h₁ : Extends S s s₁) (h₂ : Extends S s₁ s₂) : Extends S s s₂ where
  length     := h₁.length.trans h₂.length
  same i h n := (h₂.same i (h₁.isSome h) n).trans (h₁.same i h n)

theorem mono (h : Extends S s s₁) (hS : ∀ i, S i → S' i) : Extends S' s s₁ where
  length     := h.length
  same i h' n := h.same i h' fun hi => n (hS i hi)

theorem setPage (hi : S i) : Extends S s (s.setPage i d) where
  length     := length_setPage.ge
  same j h n := by
    have hne : i ≠ j := fun he => n (he ▸ hi)
    simp only [page?, PageStorage.setPage]
    rw [List.getElem?_set_ne fun he => hne (UInt32.toNat_inj.mp he)]

-- A page that was not there before.
theorem setPage_new (h : Extends S s s₁) (hn : s.page? i = none) : Extends S s (s₁.setPage i d) where
  length       := h.length.trans length_setPage.ge
  same j hj hS := by
    have hne : i ≠ j := by
      rintro rfl
      rw [hn] at hj
      cases hj
    have hx : Extends (· = i) s₁ (s₁.setPage i d) := setPage rfl
    exact (hx.same j (h.isSome hj) hne.symm).trans (h.same j hj hS)

theorem page?_eq_none (h : Extends S s s₁) (hi : s₁.page? i = none) : s.page? i = none := by
  by_contra hn
  have := h.isSome (Option.isSome_iff_ne_none.mpr hn)
  rw [hi] at this
  cases this

theorem push (hn : s.numPages ≠ invalidId) : Extends S s (s.push d) where
  length     := by rw [pages_push hn]; simp
  same j h _ := by
    rw [page?_push (pages_push hn), if_neg (ne_numPages h)]

end Extends

end NexusDb.PageStorage
