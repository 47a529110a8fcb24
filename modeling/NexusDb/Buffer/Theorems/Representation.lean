import NexusDb.Buffer.Theorems.Steps
import NexusDb.Buffer.Client

namespace NexusDb

namespace BufferPool

-- The representation invariant of a pool.
structure Inv (p : BufferPool σ) : Prop where
  positive : 0 < p.capacity
  size_le  : p.size ≤ p.capacity
  frame_le : p.capacity ≤ p.frames.length
  unique   : ∀ i j f g, p.frame? i = some f → p.frame? j = some g → f.inUse → g.inUse →
               f.page.id = g.page.id → i = j
  free     : ∀ i f, p.frame? i = some f → f.inUse = false → f.pinCount = 0

-- Frame `i` holds page `id`.
def Has (p : BufferPool σ) (i : Nat) (id : PageId) : Prop :=
  ∃ f, p.frame? i = some f ∧ f.inUse ∧ f.page.id = id

def pins (p : BufferPool σ) (i : Nat) : Nat :=
  (p.frameAt i).pinCount

-- What the steps of a pool leave to those that have pinned a frame.
structure Keeps (p q : BufferPool σ) : Prop where
  inv  : Inv q
  pins : ∀ i, q.pins i = p.pins i
  has  : ∀ i id, 0 < p.pins i → p.Has i id → q.Has i id

variable {p q : BufferPool σ}

theorem pins_eq (h : p.frame? i = some f) : p.pins i = f.pinCount := by
  rw [pins, frameAt_eq h]

theorem pins_eq_zero (h : p.frame? i = none) : p.pins i = 0 := by
  rw [pins, frameAt_eq_getD, h]
  rfl

theorem create_inv {s : σ} (h : create s n = .ok p) :
    Inv p ∧ (∀ i, p.pins i = 0) ∧ p.dev = s ∧ ∀ id, ¬Resident p id := by
  rw [create] at h
  split at h <;> cases h
  case isFalse hn =>
    have hf : ∀ {i f}, (⟨s, n, List.replicate n {}, 0, 0⟩ : BufferPool σ).frame? i = some f → f = {} :=
      fun h => List.eq_of_mem_replicate <| List.mem_of_getElem? h
    refine ⟨⟨Nat.pos_of_ne_zero hn, by simp [size, List.countP_replicate], by simp, ?_, ?_⟩, ?_, rfl, ?_⟩
    · intro i j f g hi _ hu
      rw [hf hi] at hu
      cases hu
    · exact fun i f h _ => hf h ▸ rfl
    · intro i
      rcases h : (⟨s, n, List.replicate n {}, 0, 0⟩ : BufferPool σ).frame? i with _ | f
      · exact pins_eq_zero h
      · rw [pins_eq h, hf h]
    · rintro id ⟨i, f, h, hu, _⟩
      rw [hf h] at hu
      cases hu

theorem Keeps.trans (h₁ : Keeps p q) (h₂ : Keeps q r) : Keeps p r where
  inv := h₂.inv
  pins i := (h₂.pins i).trans (h₁.pins i)
  has i id hp hh := h₂.has i id (h₁.pins i ▸ hp) <| h₁.has i id hp hh

-- Changing the device only.
theorem Inv.keeps_dev (hi : Inv p) (s : σ) : Keeps p { p with dev := s } :=
  ⟨⟨hi.positive, hi.size_le, hi.frame_le, hi.unique, hi.free⟩, fun _ => rfl, fun _ _ _ h => h⟩

theorem Inv.keeps_reframe (hi : Inv p) (h : Reframes p q) : Keeps p q := by
  -- A frame in use is the same frame as before.
  have hkeep : ∀ {i g}, q.frame? i = some g → g.inUse →
      ∃ f, p.frame? i = some f ∧ f.inUse ∧ f.page = g.page ∧ f.pinCount = g.pinCount := by
    intro i g hg hu
    have ⟨f, hf, he⟩ := h.keep i g hg hu
    have ⟨hp, hpin, hin⟩ := Frame.eq_of_unstamped he
    exact ⟨f, hf, hin ▸ hu, hp, hpin⟩
  have hfree : ∀ {i g}, q.frame? i = some g → g.inUse = false → g.pinCount = 0 := by
    intro i g hg hu
    rcases h.free i g hg hu with ⟨f, hf, he⟩ | hz
    · have ⟨_, hpin, hin⟩ := Frame.eq_of_unstamped he
      exact hpin ▸ hi.free i f hf (hin ▸ hu)
    · exact hz
  have hpos : ∀ {i f}, p.frame? i = some f → 0 < f.pinCount →
      f.inUse ∧ ∃ g, q.frame? i = some g ∧ g.unstamped = f.unstamped := by
    intro i f hf hp
    have hu : f.inUse := by
      by_contra hu
      have := hi.free i f hf (by simpa using hu)
      omega
    refine ⟨hu, (h.lost i f hf hu).resolve_right fun hz => ?_⟩
    omega
  refine ⟨⟨h.positive hi.positive, h.size_le hi.size_le, h.frame_le hi.frame_le, ?_, ?_⟩, ?_, ?_⟩
  · intro i j f g hf hg hfu hgu he
    have ⟨f', hf', hfu', hfp, _⟩ := hkeep hf hfu
    have ⟨g', hg', hgu', hgp, _⟩ := hkeep hg hgu
    exact hi.unique i j f' g' hf' hg' hfu' hgu' (by rw [hfp, hgp, he])
  · exact fun i g => hfree
  · intro i
    -- A frame that is pinned is kept, so that one of the two counts being positive is enough.
    by_contra hne
    match hf : p.frame? i, hg : q.frame? i with
    | none, none => exact hne <| (pins_eq_zero hg).trans (pins_eq_zero hf).symm
    | none, some g =>
      rw [pins_eq_zero hf, pins_eq hg] at hne
      cases hu : g.inUse
      case false => exact hne <| hfree hg hu
      case true =>
        have ⟨f, hf', _⟩ := hkeep hg hu
        cases hf.symm.trans hf'
    | some f, none =>
      rw [pins_eq hf, pins_eq_zero hg] at hne
      have ⟨_, g, hg', _⟩ := hpos hf (by omega)
      cases hg.symm.trans hg'
    | some f, some g =>
      rw [pins_eq hf, pins_eq hg] at hne
      cases hu : g.inUse
      case true =>
        have ⟨f', hf', _, _, hpin⟩ := hkeep hg hu
        cases hf.symm.trans hf'
        exact hne hpin.symm
      case false =>
        have hz := hfree hg hu
        have ⟨_, g', hg', he⟩ := hpos hf (by omega)
        cases hg.symm.trans hg'
        exact hne (Frame.eq_of_unstamped he).right.left
  · rintro i id hp ⟨f, hf, hu, hid⟩
    rw [pins_eq hf] at hp
    have ⟨_, g, hg, he⟩ := hpos hf hp
    have ⟨hpg, _, hin⟩ := Frame.eq_of_unstamped he
    exact ⟨g, hg, hin ▸ hu, hpg ▸ hid⟩

theorem Cleans.back (h : Cleans p q) (hg : q.frame? i = some g) :
    ∃ f, p.frame? i = some f ∧ g.cleaned = f.cleaned := by
  have ⟨f, hf⟩ : ∃ f, p.frame? i = some f :=
    ⟨_, List.getElem?_eq_getElem <| h.length ▸ lt_of_frame? hg⟩
  have ⟨g', hg', he⟩ := h.frame? hf
  exact ⟨f, hf, Option.some_inj.mp (hg'.symm.trans hg) ▸ he⟩

theorem Inv.keeps_cleans (hi : Inv p) (h : Cleans p q) : Keeps p q := by
  refine ⟨⟨h.capacity ▸ hi.positive, ?_, ?_, ?_, ?_⟩, ?_, ?_⟩
  · rw [h.size, h.capacity]
    exact hi.size_le
  · rw [h.length, h.capacity]
    exact hi.frame_le
  · intro i j f g hf hg hfu hgu he
    have ⟨f', hf', hfe⟩ := h.back hf
    have ⟨g', hg', hge⟩ := h.back hg
    have ⟨hfi, _, _, _, hfin⟩ := Frame.eq_of_cleaned hfe
    have ⟨hgi, _, _, _, hgin⟩ := Frame.eq_of_cleaned hge
    exact hi.unique i j f' g' hf' hg' (hfin ▸ hfu) (hgin ▸ hgu) (by rw [← hfi, ← hgi, he])
  · intro i g hg hu
    have ⟨f, hf, he⟩ := h.back hg
    have ⟨_, _, hpin, _, hin⟩ := Frame.eq_of_cleaned he
    exact hpin ▸ hi.free i f hf (hin ▸ hu)
  · intro i
    match hg : q.frame? i with
    | some g =>
      have ⟨f, hf, he⟩ := h.back hg
      rw [pins_eq hf, pins_eq hg, (Frame.eq_of_cleaned he).right.right.left]
    | none =>
      have hf : p.frame? i = none := by
        cases hf : p.frame? i
        case none => rfl
        case some f =>
          have ⟨g, hg', _⟩ := h.frame? hf
          cases hg.symm.trans hg'
      rw [pins_eq_zero hf, pins_eq_zero hg]
  · rintro i id _ ⟨f, hf, hu, hid⟩
    have ⟨g, hg, he⟩ := h.frame? hf
    have ⟨hid', _, _, _, hin⟩ := Frame.eq_of_cleaned he
    exact ⟨g, hg, hin ▸ hu, hid' ▸ hid⟩

-- Replacing the frame that is at `i`.
theorem pins_setFrame (hf : p.frame? i = some f) (j : Nat) :
    (p.setFrame i g).pins j = if i = j then g.pinCount else p.pins j := by
  rw [pins, pins, frameAt_eq_getD, frameAt_eq_getD, frame?_setFrame]
  split
  case isTrue h => subst h; rw [hf]; rfl
  case isFalse => rfl

theorem Inv.setFrame (hi : Inv p) (hf : p.frame? i = some f) (hs : (p.setFrame i g).size ≤ p.capacity)
    (hid : g.inUse → ∀ j f', j ≠ i → p.frame? j = some f' → f'.inUse → f'.page.id ≠ g.page.id)
    (hfree : g.inUse = false → g.pinCount = 0) : Inv (p.setFrame i g) := by
  refine ⟨hi.positive, hs, by simpa [BufferPool.setFrame] using hi.frame_le, ?_, ?_⟩
  · intro j k f₁ f₂ h₁ h₂ hu₁ hu₂ he
    rw [frame?_setFrame] at h₁ h₂
    by_cases hj : i = j <;> by_cases hk : i = k
    · exact hj.symm.trans hk
    · subst hj
      simp only [if_pos, hf, Option.map_some, Option.some_inj, if_neg hk] at h₁ h₂
      subst h₁
      exact absurd he.symm <| hid hu₁ k f₂ (Ne.symm hk) h₂ hu₂
    · subst hk
      simp only [if_pos, hf, Option.map_some, Option.some_inj, if_neg hj] at h₁ h₂
      subst h₂
      exact absurd he <| hid hu₂ j f₁ (Ne.symm hj) h₁ hu₁
    · rw [if_neg hj] at h₁
      rw [if_neg hk] at h₂
      exact hi.unique j k f₁ f₂ h₁ h₂ hu₁ hu₂ he
  · intro j k hk hu
    rw [frame?_setFrame] at hk
    split at hk
    case isTrue h =>
      subst h
      simp only [hf, Option.map_some, Option.some_inj] at hk
      subst hk
      exact hfree hu
    case isFalse => exact hi.free j k hk hu

-- Replacing a frame by one with the same page and use.
theorem Inv.setFrame_same (hi : Inv p) (hf : p.frame? i = some f) (hin : g.inUse = f.inUse)
    (hid : g.page.id = f.page.id) (hpin : f.inUse = false → g.pinCount = 0) :
    Inv (p.setFrame i g) ∧ ∀ j id, p.Has j id → (p.setFrame i g).Has j id := by
  have hs := size_setFrame (g := g) hf
  rw [hin] at hs
  refine ⟨hi.setFrame hf (by have := hi.size_le; omega) ?_ (hin ▸ hpin), ?_⟩
  · intro hu j f' hj hf' hu' he
    exact hj <| hi.unique j i f' f hf' hf hu' (hin ▸ hu) (he.trans hid)
  · rintro j id ⟨k, hk, hu, he⟩
    rw [Has]
    simp only [frame?_setFrame]
    split
    case isTrue h =>
      subst h
      cases hf.symm.trans hk
      exact ⟨g, by rw [hf]; rfl, hin ▸ hu, hid ▸ he⟩
    case isFalse => exact ⟨k, hk, hu, he⟩

theorem Inv.unpin (hi : Inv p) (i : Nat) :
    Inv (p.unpinFrame i) ∧ (∀ j, (p.unpinFrame i).pins j = if i = j then p.pins j - 1 else p.pins j) ∧
      ∀ j id, p.Has j id → (p.unpinFrame i).Has j id := by
  rw [unpinFrame]
  rcases hf : p.frame? i with _ | f
  · have hl : i ≥ p.frames.length := List.getElem?_eq_none_iff.mp hf
    rw [if_pos hl]
    refine ⟨hi, fun j => ?_, fun _ _ h => h⟩
    split
    case isTrue h => subst h; rw [pins_eq_zero hf]
    case isFalse => rfl
  · rw [if_neg <| Nat.not_le.mpr <| lt_of_frame? hf, frameAt_eq hf]
    obtain ⟨h₁, h₂⟩ := hi.setFrame_same (g := { f with pinCount := f.pinCount - 1 }) hf rfl rfl
      fun hu => by simp [hi.free i f hf hu]
    refine ⟨h₁, fun j => ?_, h₂⟩
    rw [pins_setFrame hf]
    split
    case isTrue h => subst h; rw [pins_eq hf]
    case isFalse => rfl

theorem SameButStamps.has (h : SameButStamps p q) (hh : p.Has j k) : q.Has j k := by
  have ⟨f, hf, hu, he⟩ := hh
  have ⟨g, hg, heq⟩ := h.frame? hf
  have ⟨hp, _, hin⟩ := Frame.eq_of_unstamped heq
  exact ⟨g, hg, hin ▸ hu, hp ▸ he⟩

variable [Device σ]

theorem Inv.keeps_step {p q : BufferPool σ} (hi : Inv p) (st : Step p q) : Keeps p q := by
  cases st
  case reframe h => exact hi.keeps_reframe h
  case read => exact hi.keeps_dev _
  case logFailed => exact hi.keeps_dev _
  case writeFailed => exact hi.keeps_dev _
  case flushed hf _ _ _ _ => exact hi.keeps_cleans <| .setFrame hf _

theorem Inv.keeps_steps {p q : BufferPool σ} (hi : Inv p) (st : Steps p q) : Keeps p q := by
  induction st
  case refl => exact ⟨hi, fun _ => rfl, fun _ _ _ h => h⟩
  case tail _ st ih => exact ih.trans <| ih.inv.keeps_step st

theorem Inv.pinned {p q : BufferPool σ} {id : PageId} (hi : Inv p) (h : Pinned p id i q) :
    Inv q ∧ (∀ j, q.pins j = if i = j then p.pins j + 1 else p.pins j) ∧ q.Has i id ∧
      ∀ j k, 0 < p.pins j → p.Has j k → q.Has j k := by
  cases h
  case hit f hf hu hid same =>
    have ⟨h₁, h₂⟩ := hi.setFrame_same (g := { f with pinCount := f.pinCount + 1 }) hf rfl rfl
      fun h => by rw [hu] at h; cases h
    have hk := h₁.keeps_reframe <| .of_same same
    refine ⟨hk.inv, fun j => ?_, same.has <| h₂ i id ⟨f, hf, hu, hid⟩,
      fun j k _ hh => same.has <| h₂ j k hh⟩
    rw [hk.pins, pins_setFrame hf]
    split
    case isTrue h => subst h; rw [pins_eq hf]
    case isFalse => rfl
  case load f d hf avail fresh _ same =>
    let g : Frame := { page := { id, data := d }, pinCount := 1, inUse := true }
    have hz : f.pinCount = 0 := avail.elim (fun h => hi.free i f hf h.left) (·.left.right)
    have hs : (p.setFrame i g).size ≤ p.capacity := by
      have hs := size_setFrame (g := g) hf
      rcases avail with ⟨hu, hc⟩ | ⟨he, _⟩
      · have : (if g.inUse then 1 else 0) = 1 := rfl
        rw [hu, this] at hs
        exact hs.trans_le hc
      · have : (if g.inUse then 1 else 0) = 1 := rfl
        rw [he.left, this] at hs
        exact (Nat.add_right_cancel hs).trans_le hi.size_le
    have h₁ : Inv (p.setFrame i g) := by
      refine hi.setFrame hf hs (fun _ j f' _ hf' hu' he => ?_) nofun
      exact fresh ⟨j, f', hf', hu', he⟩
    have hk := h₁.keeps_reframe <| .of_same same
    refine ⟨hk.inv, fun j => ?_, same.has ⟨g, frame?_setFrame_self hf, rfl, rfl⟩, ?_⟩
    · rw [hk.pins, pins_setFrame hf]
      split
      case isTrue h => subst h; rw [pins_eq hf, hz]
      case isFalse => rfl
    · rintro j k hp ⟨f', hf', hu', he⟩
      have hj : i ≠ j := by
        rintro rfl
        rw [pins_eq hf, hz] at hp
        cases hp
      exact same.has ⟨f', by rw [frame?_setFrame, if_neg hj, hf'], hu', he⟩

end BufferPool

namespace Client

def designates (i : Nat) (h : Option Handle) : Bool :=
  h.any (·.frame == i)

-- The representation invariant of a pool together with its handles.
structure Consistent (c : Client σ) : Prop where
  resident : c.pool.size ≤ c.pool.capacity
  capacity : c.pool.capacity ≤ c.pool.frames.length
  unique   : ∀ (i j : Nat) (f g : Frame), c.pool.frames[i]? = some f → c.pool.frames[j]? = some g →
               f.inUse → g.inUse → f.page.id = g.page.id → i = j
  free     : ∀ f ∈ c.pool.frames, f.inUse = false → f.pinCount = 0
  pinCount : ∀ (i : Nat) (f : Frame), c.pool.frames[i]? = some f →
               f.pinCount = c.handles.countP (designates i)
  live     : ∀ k : Handle, some k ∈ c.handles →
               ∃ f : Frame, c.pool.frames[k.frame]? = some f ∧ f.inUse ∧ f.page.id = k.id

-- The same in terms of the pool's own invariant, as it is proved.
structure Inv (c : Client σ) : Prop where
  pool : c.pool.Inv
  pins : ∀ i, c.pool.pins i = c.handles.countP (designates i)
  live : ∀ k, some k ∈ c.handles → c.pool.Has k.frame k.id

variable {c : Client σ}

theorem Inv.consistent (hi : Inv c) : Consistent c where
  resident := hi.pool.size_le
  capacity := hi.pool.frame_le
  unique := hi.pool.unique
  free f hf hu := have ⟨i, hi'⟩ := BufferPool.frame?_of_mem hf; hi.pool.free i f hi' hu
  pinCount i _ hf := (BufferPool.pins_eq hf).symm.trans (hi.pins i)
  live := hi.live

theorem countP_pos_of_mem {hs : List (Option Handle)} (h : some k ∈ hs) :
    0 < hs.countP (designates k.frame) :=
  List.countP_pos_iff.mpr ⟨some k, h, by simp [designates]⟩

theorem Inv.keeps (hi : Inv c) (h : BufferPool.Keeps c.pool q) : Inv { c with pool := q } where
  pool := h.inv
  pins i := (h.pins i).trans (hi.pins i)
  live k hk := h.has _ _ (hi.pins k.frame ▸ countP_pos_of_mem hk) (hi.live k hk)

theorem handle?_eq_some (h : c.handle? i = some k) : c.handles[i]? = some (some k) := by
  simpa [handle?, Option.join_eq_some_iff] using h

theorem mem_set {hs : List (Option Handle)} (h : some k ∈ hs.set i x) : some k ∈ hs ∨ x = some k := by
  rcases List.mem_or_eq_of_mem_set h with h | h
  · exact .inl h
  · exact .inr h.symm

theorem Inv.release (hi : Inv c) (h : Nat) : Inv (c.release h) ∧ (c.release h).handle? h = none ∧
    (c.release h).handles.length = c.handles.length := by
  rw [Client.release]
  split
  case h_1 hh => exact ⟨hi, hh, rfl⟩
  case h_2 k hk =>
    have hk := handle?_eq_some hk
    have ⟨h₁, h₂, h₃⟩ := hi.pool.unpin k.frame
    have hl : h < c.handles.length := (List.getElem?_eq_some_iff.mp hk).fst
    refine ⟨⟨h₁, fun i => ?_, fun k' hk' => ?_⟩, by simp [handle?, hl], by simp⟩
    · have hc := List.countP_set_add (P := designates i) (b := none) hk
      rw [h₂, hi.pins]
      split
      case isTrue h => subst h; simp [designates] at hc ⊢; omega
      case isFalse h => simp [designates, h] at hc ⊢; omega
    · exact h₃ _ _ <| hi.live k' <| (mem_set hk').resolve_right nofun

-- Moving a handle over an empty one keeps the number of handles that designate a frame.
theorem countP_move {hs : List (Option Handle)} (hne : dst ≠ src) (hd : hs[dst]? = some none) :
    ((hs.set dst hs[src]?.join).set src none).countP (designates i) = hs.countP (designates i) := by
  have h₁ := List.countP_set_add (P := designates i) (b := hs[src]?.join) hd
  match hs' : hs[src]? with
  | none =>
    rw [hs'] at h₁
    rw [List.set_eq_of_length_le (by simpa using hs')]
    simpa [designates] using h₁
  | some x =>
    have hx : (hs.set dst hs[src]?.join)[src]? = some x := by
      rw [List.getElem?_set_ne hne, hs']
    have h₂ := List.countP_set_add (P := designates i) (b := none) hx
    rw [hs'] at h₁ h₂
    simp [designates] at h₁ h₂ ⊢
    omega

theorem Inv.moveAssign (hi : Inv c) (dst src : Nat) (hl : dst < c.handles.length) :
    Inv (c.moveAssign dst src) := by
  rw [Client.moveAssign]
  split
  case isTrue => exact hi
  case isFalse hne =>
    have ⟨hr, hn, hlr⟩ := hi.release dst
    generalize c.release dst = c' at hr hn hlr
    have hd : c'.handles[dst]? = some none := by
      have hl' : dst < c'.handles.length := hlr ▸ hl
      simpa [handle?, hl'] using hn
    refine ⟨hr.pool, fun i => (hr.pins i).trans (countP_move hne hd).symm, fun k hk => ?_⟩
    rcases mem_set <| (mem_set hk).resolve_right nofun with h | h
    · exact hr.live k h
    · exact hr.live k <| List.mem_of_getElem? <| handle?_eq_some h

theorem Inv.moveConstruct (hi : Inv c) (src : Nat) :
    Inv { c with handles := c.handles.set src none ++ [c.handle? src] } := by
  refine ⟨hi.pool, fun i => (hi.pins i).trans ?_, fun k hk => ?_⟩
  · match hs : c.handles[src]? with
    | none =>
      have hl : c.handles.length ≤ src := by simpa using hs
      simp [handle?, hs, designates, List.set_eq_of_length_le hl]
    | some x =>
      have h₁ := List.countP_set_add (P := designates i) (b := none) hs
      simp only [handle?, hs, Option.join_some, List.countP_append, List.countP_singleton]
      simpa [designates] using h₁.symm
  · rcases List.mem_append.mp hk with hk | hk
    · exact hi.live k <| (mem_set hk).resolve_right nofun
    · exact hi.live k <| List.mem_of_getElem? <| handle?_eq_some (List.mem_singleton.mp hk).symm

section

variable [Device σ] {c : Client σ}

theorem Inv.fetch (hi : Inv c) (h : Nat) (id : PageId) (hl : h < c.handles.length) :
    Inv (c.fetch h id).snd := by
  have ⟨hr, hn, hlr⟩ := hi.release h
  generalize hc : c.release h = c' at hr hn hlr
  have hn' : c'.handles[h]? = some none := by
    have hl' : h < c'.handles.length := hlr ▸ hl
    simpa [handle?, hl'] using hn
  rw [Client.fetch, hc]
  match hf : c'.pool.fetch id with
  | (res, pool) =>
    rcases BufferPool.fetch_cases hf with ⟨e, hres, st⟩ | ⟨i, p₁, hres, st, hp⟩ <;> subst hres
    · exact hr.keeps <| hr.pool.keeps_steps st
    · have hk := hr.pool.keeps_steps st
      have ⟨h₁, h₂, h₃, h₄⟩ := hk.inv.pinned hp
      refine ⟨h₁, fun j => ?_, fun k hmem => ?_⟩
      · have hs := List.countP_set_add (P := designates j) (b := some ⟨i, id⟩) hn'
        rw [h₂, hk.pins, hr.pins]
        split
        case isTrue h => subst h; simp [designates] at hs ⊢; omega
        case isFalse h => simp [designates, h] at hs ⊢; omega
      · rcases mem_set hmem with hm | hm
        · have hpos : 0 < c'.pool.pins k.frame := hr.pins k.frame ▸ countP_pos_of_mem hm
          exact h₄ _ _ (hk.pins k.frame ▸ hpos) <| hk.has _ _ hpos <| hr.live k hm
        · cases hm
          exact h₃

theorem Inv.modify (hi : Inv c) (h : Nat) (f : PageData → PageData) : Inv (c.modify h f) := by
  rw [Client.modify]
  split
  case h_1 => exact hi
  case h_2 k hk =>
    have ⟨g, hg, hu, _⟩ := hi.live k <| List.mem_of_getElem? <| handle?_eq_some hk
    rw [BufferPool.frameAt_eq hg]
    have ⟨h₁, h₂⟩ := hi.pool.setFrame_same
      (g := { g with page := { g.page with data := f g.page.data, dirty := true } }) hg rfl rfl
      fun h => by rw [hu] at h; cases h
    have hk := h₁.keeps_dev (Device.touch c.pool.dev g.page.id (f g.page.data))
    refine ⟨hk.inv, fun i => ?_, fun k hk => h₂ _ _ <| hi.live k hk⟩
    rw [hk.pins, BufferPool.pins_setFrame hg, ← hi.pins]
    split
    case isTrue h => subst h; rw [BufferPool.pins_eq hg]
    case isFalse => rfl

theorem Inv.step (hi : Inv c) (op : PoolOp) : Inv (c.step op).snd := by
  cases op <;> rw [Client.step]
  case declare =>
    refine ⟨hi.pool, fun i => by simp [hi.pins, designates], fun k hk => hi.live k ?_⟩
    simpa using hk
  case fetch h id =>
    split
    case isTrue hl => exact hi.fetch h id hl
    case isFalse => exact hi
  case moveConstruct src => exact hi.moveConstruct src
  case moveAssign dst src =>
    split
    case isTrue hl => exact hi.moveAssign dst src hl
    case isFalse => exact hi
  case unpin h =>
    split
    case isTrue => exact hi
    case isFalse => exact (hi.release h).left
  case destroy h => exact (hi.release h).left
  case modify h f => exact hi.modify h f
  case flushPage => exact hi.keeps <| hi.pool.keeps_steps <| BufferPool.flushPage_steps rfl
  case flushAll => exact hi.keeps <| hi.pool.keeps_steps <| BufferPool.flushAll_steps rfl
  case resize => exact hi.keeps <| hi.pool.keeps_steps <| BufferPool.resize_steps rfl
  case allocate => split <;> exact hi.keeps <| hi.pool.keeps_dev _
  case write page =>
    split
    case isTrue => exact hi
    case isFalse => exact hi.keeps <| hi.pool.keeps_dev _

-- What the steps of a pool keep, and pinning and giving up a frame, the operations keep that write nothing.
theorem step_rule (J : BufferPool σ → Prop) (hsteps : ∀ p q, p.Inv → J p → BufferPool.Steps p q → J q)
    (hpin : ∀ p id i q, J p → BufferPool.Pinned p id i q → J q) (hunpin : ∀ p i, J p → J (p.unpinFrame i))
    (hi : Inv c) (h : J c.pool) (op : PoolOp) (hm : ∀ i f, op ≠ .modify i f) (ha : op ≠ .allocate)
    (hw : ∀ page, op ≠ .write page) : J (c.step op).snd.pool := by
  have hrelease : ∀ i, J (c.release i).pool := by
    intro i
    rw [Client.release]
    split
    case h_1 => exact h
    case h_2 => exact hunpin _ _ h
  cases op <;> rw [Client.step]
  case declare => exact h
  case fetch i id =>
    split
    case isFalse => exact h
    case isTrue =>
      have hr := hrelease i
      have hir := (hi.release i).left.pool
      rw [Client.fetch]
      generalize c.release i = c' at hr hir ⊢
      match hf : c'.pool.fetch id with
      | (res, pool) =>
        rcases BufferPool.fetch_cases hf with ⟨_, hres, st⟩ | ⟨_, _, hres, st, hp⟩ <;> subst hres
        · exact hsteps _ _ hir hr st
        · exact hpin _ _ _ _ (hsteps _ _ hir hr st) hp
  case moveConstruct => exact h
  case moveAssign dst src =>
    split
    case isFalse => exact h
    case isTrue =>
      rw [Client.moveAssign]
      split
      case isTrue => exact h
      case isFalse => exact hrelease dst
  case unpin i =>
    split
    case isTrue => exact h
    case isFalse => exact hrelease i
  case destroy i => exact hrelease i
  case modify i f => exact absurd rfl (hm i f)
  case flushPage => exact hsteps _ _ hi.pool h <| BufferPool.flushPage_steps rfl
  case flushAll => exact hsteps _ _ hi.pool h <| BufferPool.flushAll_steps rfl
  case resize => exact hsteps _ _ hi.pool h <| BufferPool.resize_steps rfl
  case allocate => exact absurd rfl ha
  case write page => exact absurd rfl (hw page)

theorem Inv.run (hi : Inv c) (ops : List PoolOp) : Inv (c.run ops) := by
  induction ops generalizing c
  case nil => exact hi
  case cons op ops ih => exact ih <| hi.step op

theorem run_consistent (dev : σ) (n : Nat) (ops : List PoolOp) :
    ∃ pool, BufferPool.create dev (n + 1) = .ok pool ∧ Consistent (run { pool } ops) := by
  refine ⟨_, rfl, ?_⟩
  have ⟨h₁, h₂, _⟩ := BufferPool.create_inv (s := dev) (n := n + 1) rfl
  have hi : Inv { pool := { dev, capacity := n + 1, frames := List.replicate (n + 1) {} } } :=
    ⟨h₁, h₂, nofun⟩
  exact (hi.run ops).consistent

end

end Client
end NexusDb
