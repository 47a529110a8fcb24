import NexusDb.General.Recency
import NexusDb.Buffer.Theorems.Clock
import NexusDb.Buffer.Theorems.BufferFull
import NexusDb.Buffer.Theorems.Atomic

theorem List.countP_range_getD {l : List α} {P : α → Bool} (d : α) :
    (List.range l.length).countP (fun i => P (l.getD i d)) = l.countP P := by
  have hl : (List.range l.length).map (l.getD · d) = l := by
    refine List.ext_getElem (by simp) fun i _ h => ?_
    simp [List.getD, h]
  conv_rhs => rw [← hl, List.countP_map]
  rfl

namespace NexusDb

namespace BufferPool

-- A page that the pool holds, with the stamp of its frame.
def Stamped (p : BufferPool σ) (id : PageId) (n : Nat) : Prop :=
  ∃ i f, p.frame? i = some f ∧ f.inUse ∧ f.page.id = id ∧ f.lastUsed = n

def Unpinned (p : BufferPool σ) (id : PageId) : Prop :=
  ∃ i f, p.frame? i = some f ∧ eligible f ∧ f.page.id = id

def pinnedFrames (p : BufferPool σ) : Nat :=
  p.frames.countP (0 < ·.pinCount)

-- The frames that a shrink can evict, in the order in which it does.
def victimOrder (p : BufferPool σ) : List Nat :=
  (List.range p.frames.length).filter (fun i => (p.frameAt i).inUse && (p.frameAt i).pinCount == 0)
    |>.mergeSort fun i j => (p.frameAt i).lastUsed ≤ (p.frameAt j).lastUsed

section

variable {p q r : BufferPool σ} {P : Frame → Prop}

theorem Resident.iff_stamped : p.Resident j ↔ ∃ n, p.Stamped j n := by
  constructor
  case mp => exact fun ⟨i, f, hf, hu, hj⟩ => ⟨f.lastUsed, i, f, hf, hu, hj, rfl⟩
  case mpr => exact fun ⟨_, i, f, hf, hu, hj, _⟩ => ⟨i, f, hf, hu, hj⟩

theorem Unpinned.resident (h : p.Unpinned j) : p.Resident j :=
  have ⟨i, f, hf, he, hj⟩ := h
  ⟨i, f, hf, he.left, hj⟩

-- What holds of some frame after one frame was replaced.
theorem exists_frame_set (hf : p.frame? i = some f) (h : q.frames = p.frames.set i g) :
    (∃ k x, q.frame? k = some x ∧ P x) ↔ P g ∨ ∃ k x, p.frame? k = some x ∧ k ≠ i ∧ P x := by
  have hq : ∀ k, q.frame? k = (p.setFrame i g).frame? k := fun k => by rw [frame?, h]; rfl
  simp only [hq, frame?_setFrame]
  constructor
  case mp =>
    rintro ⟨k, x, hx, hp⟩
    split at hx
    case isTrue hk =>
      subst hk
      rw [hf, Option.map_some] at hx
      cases hx
      exact .inl hp
    case isFalse hk => exact .inr ⟨k, x, hx, Ne.symm hk, hp⟩
  case mpr =>
    rintro (hp | ⟨k, x, hx, hk, hp⟩)
    · exact ⟨i, g, by simp [hf], hp⟩
    · exact ⟨k, x, by rw [if_neg (Ne.symm hk)]; exact hx, hp⟩

-- A frame other than `i` holds another page.
theorem Inv.resident_other (hi : p.Inv) (hf : p.frame? i = some f) (hu : f.inUse) :
    (∃ k x, p.frame? k = some x ∧ k ≠ i ∧ x.inUse ∧ x.page.id = j) ↔ p.Resident j ∧ j ≠ f.page.id := by
  constructor
  case mp =>
    intro ⟨k, x, hx, hk, hxu, hj⟩
    refine ⟨⟨k, x, hx, hxu, hj⟩, fun he => hk ?_⟩
    exact hi.unique k i x f hx hf hxu hu (hj.trans he)
  case mpr =>
    intro ⟨⟨k, x, hx, hxu, hj⟩, hne⟩
    refine ⟨k, x, hx, fun hk => hne ?_, hxu, hj⟩
    subst hk
    cases hf.symm.trans hx
    exact hj.symm

theorem Cleans.exists_frame (h : Cleans p q) (hP : ∀ f g : Frame, f.cleaned = g.cleaned → P f → P g) :
    (∃ k x, q.frame? k = some x ∧ P x) ↔ ∃ k x, p.frame? k = some x ∧ P x := by
  constructor
  case mp =>
    intro ⟨k, x, hx, hp⟩
    have ⟨f, hf, he⟩ := h.back hx
    exact ⟨k, f, hf, hP _ _ he hp⟩
  case mpr =>
    intro ⟨k, x, hx, hp⟩
    have ⟨g, hg, he⟩ := h.frame? hx
    exact ⟨k, g, hg, hP _ _ he.symm hp⟩

theorem Cleans.resident (h : Cleans p q) : q.Resident j ↔ p.Resident j :=
  h.exists_frame fun _ _ he ⟨hu, hj⟩ =>
    have ⟨hid, _, _, _, hin⟩ := Frame.eq_of_cleaned he
    ⟨hin ▸ hu, hid ▸ hj⟩

theorem Cleans.stamped (h : Cleans p q) : q.Stamped j n ↔ p.Stamped j n :=
  h.exists_frame fun _ _ he ⟨hu, hj, hn⟩ =>
    have ⟨hid, _, _, hl, hin⟩ := Frame.eq_of_cleaned he
    ⟨hin ▸ hu, hid ▸ hj, hl ▸ hn⟩

-- The order in which pages are evicted.

theorem shrinkVictims_eq (h : p.shrinkVictims n = some is) : is = p.victimOrder.take (p.size - n) := by
  simp only [shrinkVictims] at h
  split at h
  case isFalse hs =>
    cases h
    rw [Nat.sub_eq_zero_of_le (Nat.not_lt.mp hs), List.take_zero]
  case isTrue =>
    split at h <;> cases h
    rfl

theorem shrinkVictims_length (h : p.shrinkVictims n = some is) : p.size - n ≤ p.victimOrder.length := by
  have ⟨_, _, hs⟩ := shrinkVictims_spec h
  have hlen : is.length ≤ p.victimOrder.length := by
    rw [shrinkVictims_eq h]
    exact List.length_take_le' _ _
  omega

theorem mem_victimOrder : i ∈ p.victimOrder ↔ ∃ f, p.frame? i = some f ∧ eligible f := by
  rw [victimOrder, (List.mergeSort_perm _ _).mem_iff]
  simp only [List.mem_filter, Bool.and_eq_true, beq_iff_eq]
  constructor
  case mp => exact fun ⟨_, hu, hp⟩ => ⟨_, frame?_of_inUse hu, hu, hp⟩
  case mpr =>
    intro ⟨f, hf, he⟩
    rw [frameAt_eq hf]
    exact ⟨List.mem_range.mpr (lt_of_frame? hf), he⟩

theorem victimOrder_nodup : p.victimOrder.Nodup :=
  (List.mergeSort_perm _ _).nodup_iff.mpr <| List.nodup_range.filter _

theorem victimOrder_sorted :
    p.victimOrder.Pairwise fun i j => (p.frameAt i).lastUsed ≤ (p.frameAt j).lastUsed :=
  List.pairwise_mergeSort_key _ _

-- A frame in use is pinned or can be evicted.
theorem Inv.size_eq (hi : p.Inv) : p.size = p.pinnedFrames + p.victimOrder.length := by
  have hlen : p.victimOrder.length = p.frames.countP fun f => f.inUse && f.pinCount == 0 := by
    rw [victimOrder, List.length_mergeSort, ← List.countP_eq_length_filter]
    exact List.countP_range_getD (P := fun f : Frame => f.inUse && f.pinCount == 0) {}
  have hfree : ∀ f ∈ p.frames, f.inUse = false → f.pinCount = 0 := fun f hf =>
    have ⟨i, hf⟩ := frame?_of_mem hf
    hi.free i f hf
  rw [hlen, size, pinnedFrames]
  generalize p.frames = fs at hfree
  induction fs
  case nil => rfl
  case cons f fs hi =>
    have hi := hi fun g hg => hfree g (List.mem_cons_of_mem _ hg)
    have hf := hfree f List.mem_cons_self
    simp only [List.countP_cons, hi]
    cases hu : f.inUse
    case false => simp [hf hu]
    case true =>
      by_cases hp : f.pinCount = 0
      case pos => simp [hp]; omega
      case neg => simp [hp, Nat.pos_of_ne_zero hp]; omega

-- What holds of some frame after frames were given up.
theorem exists_frame_drop (h₀ : ¬P {}) (is : List Nat) :
    (∃ k x, (is.foldl (fun p i => p.setFrame i {}) p).frame? k = some x ∧ P x) ↔
      ∃ k x, p.frame? k = some x ∧ k ∉ is ∧ P x := by
  induction is generalizing p
  case nil => simp
  case cons i is hi =>
    rw [List.foldl_cons, hi]
    simp only [frame?_setFrame, List.mem_cons, not_or]
    constructor
    case mp =>
      intro ⟨k, x, hx, hk, hp⟩
      split at hx
      case isTrue =>
        have ⟨_, _, he⟩ := Option.map_eq_some_iff.mp hx
        exact absurd (he ▸ hp) h₀
      case isFalse hne => exact ⟨k, x, hx, ⟨Ne.symm hne, hk⟩, hp⟩
    case mpr =>
      intro ⟨k, x, hx, ⟨hne, hk⟩, hp⟩
      exact ⟨k, x, by rw [if_neg (Ne.symm hne)]; exact hx, hk, hp⟩

theorem exists_frame_trim (hP : ∀ f, P f → f.inUse) :
    (∃ k x, p.trimFreeFrames.frame? k = some x ∧ P x) ↔ ∃ k x, p.frame? k = some x ∧ P x := by
  obtain ⟨rest, he, hr, _⟩ := trim_spec p.capacity p.frames
  constructor
  case mp =>
    rintro ⟨k, x, hx, hp⟩
    have hl : k < (trim p.capacity p.frames).length := lt_of_frame? hx
    exact ⟨k, x, by rw [frame?, he, List.getElem?_append_left hl]; exact hx, hp⟩
  case mpr =>
    rintro ⟨k, x, hx, hp⟩
    have hm := mem_of_frame? hx
    rw [he] at hm
    rcases List.mem_append.mp hm with hm | hm
    · obtain ⟨k, hk⟩ := List.getElem?_of_mem hm
      exact ⟨k, x, hk, hp⟩
    · cases (hr x hm).symm.trans (hP x hp)

theorem exists_frame_grow (hP : ∀ f, P f → f.inUse) (n m : Nat) :
    (∃ k x, ({ p with frames := p.frames ++ List.replicate n {}, capacity := m } : BufferPool σ).frame? k =
      some x ∧ P x) ↔ ∃ k x, p.frame? k = some x ∧ P x := by
  constructor
  case mp =>
    intro ⟨k, x, hx, hp⟩
    rcases List.mem_append.mp (mem_of_frame? hx) with hm | hm
    · have ⟨k, hk⟩ := frame?_of_mem hm
      exact ⟨k, x, hk, hp⟩
    · rw [List.eq_of_mem_replicate hm] at hp
      cases hP _ hp
  case mpr =>
    intro ⟨k, x, hx, hp⟩
    exact ⟨k, x, by rw [frame?, List.getElem?_append_left (lt_of_frame? hx)]; exact hx, hp⟩

-- How a fetch that succeeds with frame `i` changes the frames, as long as there are stamps.
inductive Fetches (p : BufferPool σ) (j : PageId) (i : Nat) (q : BufferPool σ) : Prop
  | hit (hf : p.frame? i = some f) (use : f.inUse) (hid : f.page.id = j)
      (frames : q.frames = p.frames.set i { f with pinCount := f.pinCount + 1, lastUsed := p.fetches + 1 })
  | load (absent : ¬p.Resident j) (clean : Cleans p p₁) (hf : p₁.frame? i = some f)
      (avail : (f.inUse = false ∧ p.size < p.capacity) ∨ (¬p.size < p.capacity ∧ eligible f ∧
        ∀ k ∈ p₁.frames, eligible k → f.lastUsed ≤ k.lastUsed))
      (hid : g.page.id = j) (use : g.inUse) (stamp : g.lastUsed = p.fetches + 1)
      (frames : q.frames = p₁.frames.set i g)

-- Frames other than `i` hold other pages than the one that was fetched.
theorem Fetches.stamped (h : Fetches p j i q) (hi : p.Inv) (hq : q.Stamped k n) :
    (k = j ∧ n = p.fetches + 1) ∨ (k ≠ j ∧ p.Stamped k n) := by
  cases h
  case hit hf hu hid hframes =>
    rcases (exists_frame_set hf hframes).mp hq with ⟨_, hk, hn⟩ | ⟨l, x, hx, hl, hxu, hk, hn⟩
    · exact .inl ⟨hk.symm.trans hid, hn.symm⟩
    · refine .inr ⟨fun hkj => hl ?_, l, x, hx, hxu, hk, hn⟩
      exact hi.unique l i x _ hx hf hxu hu (by rw [hk, hkj, hid])
  case load habs hc hf _ hid _ hst hframes =>
    rcases (exists_frame_set hf hframes).mp hq with ⟨_, hk, hn⟩ | ⟨l, x, hx, _, hxu, hk, hn⟩
    · exact .inl ⟨hk.symm.trans hid, hn.symm.trans hst⟩
    · refine .inr ⟨fun hkj => habs ?_, hc.stamped.mp ⟨l, x, hx, hxu, hk, hn⟩⟩
      exact hc.resident.mp ⟨l, x, hx, hxu, hk.trans hkj⟩

theorem Fetches.resident (h : Fetches p j i q) (hi : p.Inv) :
    (p.Resident j ∧ ∀ k, q.Resident k ↔ p.Resident k) ∨
    (¬p.Resident j ∧ p.size < p.capacity ∧ ∀ k, q.Resident k ↔ k = j ∨ p.Resident k) ∨
    (¬p.Resident j ∧ ¬p.size < p.capacity ∧ ∃ f, p.frame? i = some f ∧ eligible f ∧
      (∀ g ∈ p.frames, eligible g → f.lastUsed ≤ g.lastUsed) ∧
      ∀ k, q.Resident k ↔ k = j ∨ (p.Resident k ∧ k ≠ f.page.id)) := by
  cases h
  case hit f hf hu hid hframes =>
    refine .inl ⟨⟨i, f, hf, hu, hid⟩, fun k => (exists_frame_set hf hframes).trans ?_⟩
    rw [hi.resident_other hf hu]
    constructor
    case mp =>
      rintro (⟨_, hk⟩ | h)
      · exact ⟨i, f, hf, hu, hk⟩
      · exact h.left
    case mpr =>
      intro h
      by_cases hk : k = f.page.id
      case pos => exact .inl ⟨hu, hk.symm⟩
      case neg => exact .inr ⟨h, hk⟩
  case load p₁ f g habs hc hf havail hid hu _ hframes =>
    have hi₁ := (hi.keeps_cleans hc).inv
    have hnew : ∀ k, (g.inUse ∧ g.page.id = k) ↔ k = j := fun k => by
      rw [hid]
      exact ⟨fun h => h.right.symm, fun h => ⟨hu, h.symm⟩⟩
    rcases havail with ⟨hfree, hs⟩ | ⟨hs, he, hle⟩
    · refine .inr <| .inl ⟨habs, hs, fun k => (exists_frame_set hf hframes).trans ?_⟩
      rw [hnew, ← hc.resident]
      refine or_congr_right ⟨fun ⟨l, x, hx, _, h⟩ => ⟨l, x, hx, h⟩, fun ⟨l, x, hx, hxu, h⟩ => ?_⟩
      refine ⟨l, x, hx, fun hl => ?_, hxu, h⟩
      subst hl
      cases hf.symm.trans hx
      rw [hfree] at hxu
      cases hxu
    · have ⟨f', hf', hcl⟩ := hc.back hf
      have ⟨hpid, _, hp, hlu, hin⟩ := Frame.eq_of_cleaned hcl
      refine .inr <| .inr ⟨habs, hs, f', hf', ⟨hin ▸ he.left, hp ▸ he.right⟩, fun x hx hxe => ?_, fun k => ?_⟩
      · have ⟨l, hl⟩ := frame?_of_mem hx
        have ⟨y, hy, hcl'⟩ := hc.frame? hl
        have ⟨_, _, hp', hlu', hin'⟩ := Frame.eq_of_cleaned hcl'
        rw [← hlu, ← hlu']
        exact hle y (mem_of_frame? hy) ⟨hin' ▸ hxe.left, hp' ▸ hxe.right⟩
      · refine (exists_frame_set hf hframes).trans ?_
        rw [hnew, hi₁.resident_other hf he.left, hc.resident, hpid]

theorem unpin_resident (p : BufferPool σ) (i : Nat) :
    (∀ j, (p.unpinFrame i).Resident j ↔ p.Resident j) ∧ (p.unpinFrame i).size = p.size ∧
      (p.unpinFrame i).capacity = p.capacity := by
  rw [unpinFrame]
  split
  case isTrue => exact ⟨fun _ => .rfl, rfl, rfl⟩
  case isFalse h =>
    have hf : p.frame? i = some (p.frameAt i) := by
      have hl : i < p.frames.length := Nat.lt_of_not_le h
      simp [frame?, frameAt, hl]
    have hs := size_setFrame (g := { p.frameAt i with pinCount := (p.frameAt i).pinCount - 1 }) hf
    refine ⟨fun j => (exists_frame_set hf rfl).trans ?_, Nat.add_right_cancel hs, rfl⟩
    constructor
    case mp =>
      rintro (h | ⟨k, x, hx, _, h⟩)
      · exact ⟨i, _, hf, h⟩
      · exact ⟨k, x, hx, h⟩
    case mpr =>
      rintro ⟨k, x, hx, h⟩
      by_cases hk : k = i
      case neg => exact .inr ⟨k, x, hx, hk, h⟩
      case pos =>
        subst hk
        cases hf.symm.trans hx
        exact .inl h

-- Every page that the second state has was there before, with the same stamp.
structure Retains (p q : BufferPool σ) : Prop where
  same  : SameStamps p q
  pages : ∀ id n, q.Stamped id n → p.Stamped id n

theorem Retains.refl (p : BufferPool σ) : Retains p p :=
  ⟨.refl p, fun _ _ => id⟩

theorem Retains.trans (h₁ : Retains p q) (h₂ : Retains q r) : Retains p r :=
  ⟨h₁.same.trans h₂.same, fun id n h => h₁.pages id n (h₂.pages id n h)⟩

theorem Retains.of_cleans (h : Cleans p q) (hs : SameStamps p q) : Retains p q :=
  ⟨hs, fun _ _ => h.stamped.mp⟩

theorem Retains.dev (p : BufferPool σ) (s : σ) : Retains p { p with dev := s } :=
  ⟨.of_frames rfl rfl rfl, fun _ _ h => h⟩

theorem Retains.setFrame (p : BufferPool σ) (hu : g.inUse = (p.frameAt i).inUse)
    (hid : g.page.id = (p.frameAt i).page.id) (hl : g.lastUsed = (p.frameAt i).lastUsed) :
    Retains p (p.setFrame i g) := by
  refine ⟨.setFrame_at p hl, fun id n ⟨k, f, hf, hfu, hfid, hfn⟩ => ?_⟩
  rw [frame?_setFrame] at hf
  split at hf
  case isFalse => exact ⟨k, f, hf, hfu, hfid, hfn⟩
  case isTrue hk =>
    have ⟨_, hx, he⟩ := Option.map_eq_some_iff.mp hf
    subst hk he
    rw [frameAt_eq hx] at hu hid hl
    exact ⟨i, _, hx, hu ▸ hfu, hid ▸ hfid, hl ▸ hfn⟩

theorem Retains.unpin (p : BufferPool σ) (i : Nat) : Retains p (p.unpinFrame i) := by
  rw [unpinFrame]
  split
  case isTrue => exact .refl p
  case isFalse => exact .setFrame p rfl rfl rfl

end

variable [Device σ] {p q : BufferPool σ}

theorem acquireFrame_oldest (hi : p.Inv) (h : p.acquireFrame = (.ok i, q)) :
    Cleans p q ∧ ∃ f, q.frame? i = some f ∧
      ((f.inUse = false ∧ p.size < p.capacity) ∨ (¬p.size < p.capacity ∧ eligible f ∧
        ∀ k ∈ q.frames, eligible k → f.lastUsed ≤ k.lastUsed)) := by
  rw [acquireFrame] at h
  by_cases hs : p.size < p.capacity
  case pos =>
    obtain ⟨j, hj⟩ := free_of_size_lt (hs.trans_le hi.frame_le)
    rw [if_pos hs, hj] at h
    cases h
    obtain ⟨hl, hf, _⟩ := List.findIdx?_eq_some_iff_getElem.mp hj
    exact ⟨.refl p, _, List.getElem?_eq_getElem hl, .inl ⟨by simpa using hf, hs⟩⟩
  case neg =>
    rw [if_neg hs] at h
    simp only at h
    split at h
    case h_1 => cases h
    case h_2 v hv =>
      obtain ⟨f, hf, he, hle⟩ := victim_some hv
      split at h <;> cases h
      case h_2 hfl =>
        have hc := (flushFrame_cleans hfl).left
        obtain ⟨g, hg, hcl⟩ := hc.frame? hf
        obtain ⟨_, _, hp, hlu, hu⟩ := Frame.eq_of_cleaned hcl
        refine ⟨hc, g, hg, .inr ⟨hs, ⟨hu ▸ he.left, hp ▸ he.right⟩, fun k hk hke => ?_⟩⟩
        obtain ⟨l, hl⟩ := frame?_of_mem hk
        obtain ⟨k', hk', hcl'⟩ := hc.back hl
        obtain ⟨_, _, hp', hlu', hu'⟩ := Frame.eq_of_cleaned hcl'
        rw [hlu, hlu']
        exact hle k' (mem_of_frame? hk') ⟨hu' ▸ hke.left, hp' ▸ hke.right⟩

theorem fetch_fetches (hi : p.Inv) (hc : p.Clock) (hn : p.fetches < maxStamp)
    (h : p.fetch j = (.ok i, q)) : Fetches p j i q := by
  simp only [fetch] at h
  split at h
  case isTrue => cases h
  case isFalse =>
    split at h
    case h_1 i hfind =>
      obtain ⟨f, hf, hu, hj⟩ := findFrame_some hfind
      rw [frameAt_eq hf] at h
      have hc := hc.of_same <| .setFrame_at (i := i) p
        (g := { f with pinCount := f.pinCount + 1 }) (by rw [frameAt_eq hf])
      rw [hc.nextTimestamp hn] at h
      cases h
      refine .hit hf hu hj ?_
      have hl := lt_of_frame? hf
      simp [BufferPool.setFrame, frameAt, hl]
    case h_2 hfind =>
      split at h
      case h_1 => cases h
      case h_2 page s hr =>
        split at h <;> cases h
        case h_2 p₁ ha =>
          have hdev : Cleans p { p with dev := s } := ⟨rfl, rfl, (Cleans.refl p).clean⟩
          obtain ⟨hcl, f, hf, havail⟩ := acquireFrame_oldest (hi.keeps_dev s).inv ha
          have hs : SameStamps p { p with dev := s } := .of_frames rfl rfl rfl
          have hs := hs.trans (acquireFrame_stamps ha) |>.trans <|
            .setFrame_at (i := i) p₁ (g := { p₁.frameAt i with page, pinCount := 1 }) rfl
          have hc := hc.of_same hs
          rw [hc.nextTimestamp (hs.fetches ▸ hn)]
          refine .load (g := { page, pinCount := 1, lastUsed := p.fetches + 1, inUse := true })
            (findFrame_none hfind) (hdev.trans hcl) hf havail (Device.read_ok hr).left rfl rfl ?_
          have hl := lt_of_frame? hf
          have hfetches : p₁.fetches = p.fetches := hs.fetches
          simp [BufferPool.setFrame, frameAt, hl, hfetches]

theorem fetch_capacity (hi : p.Inv) (h : p.fetch j = (.ok i, q)) : q.capacity = p.capacity := by
  simp only [fetch] at h
  split at h
  case isTrue => cases h
  case isFalse =>
    split at h
    case h_1 => cases h; exact (nextTimestamp_same _).capacity
    case h_2 =>
      split at h
      case h_1 => cases h
      case h_2 s _ =>
        split at h <;> cases h
        case h_2 ha => exact (nextTimestamp_same _).capacity.trans (acquireFrame_oldest (hi.keeps_dev s).inv ha).left.capacity

-- What a resize leaves of the frames.
theorem resize_frames (h : p.resize a n = (.ok (), q)) (hi : p.Inv) :
    p.size - n ≤ p.victimOrder.length ∧ ∃ p₁, Cleans p p₁ ∧ ∀ P : Frame → Prop, (∀ f, P f → f.inUse) →
      ((∃ k x, q.frame? k = some x ∧ P x) ↔
        ∃ k x, p₁.frame? k = some x ∧ k ∉ p.victimOrder.take (p.size - n) ∧ P x) := by
  have hz : p.capacity ≤ n → p.size - n = 0 := fun hn =>
    Nat.sub_eq_zero_of_le (hi.size_le.trans hn)
  cases resize_cases h
  case same hn =>
    rw [hz (le_of_eq hn.symm)]
    exact ⟨Nat.zero_le _, p, .refl p, fun P _ => by simp⟩
  case grown hn _ =>
    rw [hz hn.le]
    exact ⟨Nat.zero_le _, p, .refl p, fun P hP => by rw [exists_frame_grow hP]; simp⟩
  case shrunk is p₁ _ _ hv hf =>
    refine ⟨shrinkVictims_length hv, p₁, (flushFrames_cleans hf).left, fun P hP => ?_⟩
    rw [exists_frame_trim hP, ← shrinkVictims_eq hv, ← exists_frame_drop (fun h => nomatch hP _ h)]
    rfl

-- A shrink that has enough frames to evict fails only when a page cannot be written back.
theorem resize_pinned (hi : p.Inv) (hn : n ≠ 0) (h : p.resize .success n = (res, q)) :
    (p.pinnedFrames ≤ n ∧ (res = .ok () ∨ ∃ is e, p.flushFrames is = (.error e, q))) ∨
      (n < p.pinnedFrames ∧ res ≠ .ok ()) := by
  have hsize := hi.size_eq
  have hcap := hi.size_le
  simp only [resize, if_neg hn, ite_self] at h
  split at h
  case isTrue => cases h; exact .inl ⟨by omega, .inl rfl⟩
  case isFalse =>
    split at h
    case isTrue => cases h; exact .inl ⟨by omega, .inl rfl⟩
    case isFalse =>
      split at h
      case h_1 hv =>
        cases h
        refine .inr ⟨?_, by rintro ⟨⟩⟩
        have hlen : p.victimOrder.length < p.size - n ∧ n < p.size := by
          simp only [shrinkVictims] at hv
          split at hv
          case isFalse => cases hv
          case isTrue hs =>
            split at hv
            case isFalse => cases hv
            case isTrue hl =>
              rw [victimOrder, List.length_mergeSort]
              exact ⟨hl, hs⟩
        omega
      case h_2 is hv =>
        have hlen := shrinkVictims_length hv
        have hle : p.pinnedFrames ≤ n := by omega
        split at h
        case h_1 hf => cases h; exact .inl ⟨hle, .inr ⟨is, _, hf⟩⟩
        case h_2 => cases h; exact .inl ⟨hle, .inl rfl⟩

theorem resize_retains (h : p.resize a n = (res, q)) (hi : p.Inv) : Retains p q := by
  cases res
  case error e =>
    refine .of_cleans ?_ (resize_stamps h)
    rcases resize_error h with hq | ⟨_, hf⟩
    · exact hq ▸ .refl p
    · exact (flushFrames_cleans hf).left
  case ok =>
    have ⟨_, p₁, hc, hq⟩ := resize_frames h hi
    refine ⟨resize_stamps h, fun id n hs => ?_⟩
    have ⟨k, x, hx, _, hp⟩ := (hq (fun f => f.inUse ∧ f.page.id = id ∧ f.lastUsed = n) fun _ h => h.left).mp hs
    exact hc.stamped.mp ⟨k, x, hx, hp⟩

end BufferPool
end NexusDb
