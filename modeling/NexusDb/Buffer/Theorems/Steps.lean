import NexusDb.Buffer.Theorems.Frames
import Mathlib.Logic.Relation

open Relation (ReflTransGen)

namespace NexusDb.BufferPool

variable [Device σ]

-- What the pool does on its own: each operation is a sequence of such steps, and a fetch then pins
-- a frame.
inductive Step (p : BufferPool σ) : BufferPool σ → Prop
  | reframe (h : Reframes p q) : Step p q
  | read : Step p { p with dev := (Device.readPage p.dev j).snd }
  | logFailed (hf : p.frame? i = some f) (use : f.inUse) (dirty : f.page.dirty)
      (log : Device.beforePageWrite p.dev f.page = (.error e, s)) : Step p { p with dev := s }
  | writeFailed (hf : p.frame? i = some f) (use : f.inUse) (dirty : f.page.dirty)
      (log : Device.beforePageWrite p.dev f.page = (.ok (), s₁))
      (write : Device.writePage s₁ .pool f.page = (.error e, s)) : Step p { p with dev := s }
  | flushed (hf : p.frame? i = some f) (use : f.inUse) (dirty : f.page.dirty)
      (log : Device.beforePageWrite p.dev f.page = (.ok (), s₁))
      (write : Device.writePage s₁ .pool f.page = (.ok (), s)) :
      Step p { p.setFrame i f.cleaned with dev := s }

abbrev Steps : BufferPool σ → BufferPool σ → Prop :=
  ReflTransGen Step

-- How a fetch ends when it succeeds with frame `i`.
inductive Pinned (p : BufferPool σ) (id : PageId) (i : Nat) (q : BufferPool σ) : Prop
  | hit (hf : p.frame? i = some f) (use : f.inUse) (hid : f.page.id = id)
      (same : SameButStamps (p.setFrame i { f with pinCount := f.pinCount + 1 }) q)
  | load (hf : p.frame? i = some f)
      (avail : (f.inUse = false ∧ p.size < p.capacity) ∨ (eligible f ∧ f.page.dirty = false))
      (fresh : ¬Resident p id) (content : Device.page? p.dev id = some d)
      (same : SameButStamps
        (p.setFrame i { page := { id, data := d }, pinCount := 1, inUse := true }) q)

variable {p : BufferPool σ}

theorem flushFrame_cases (h : p.flushFrame i = (res, p')) :
    (res = .ok () ∧ p' = p ∧ ∀ f, p.frame? i = some f → f.inUse → f.page.dirty = false) ∨
    (∃ f e s, res = .error e ∧ p.frame? i = some f ∧ f.inUse ∧ f.page.dirty ∧
      Device.beforePageWrite p.dev f.page = (.error e, s) ∧ p' = { p with dev := s }) ∨
    (∃ f e s₁ s, res = .error e ∧ p.frame? i = some f ∧ f.inUse ∧ f.page.dirty ∧
      Device.beforePageWrite p.dev f.page = (.ok (), s₁) ∧
      Device.writePage s₁ .pool f.page = (.error e, s) ∧ p' = { p with dev := s }) ∨
    (∃ f s₁ s, res = .ok () ∧ p.frame? i = some f ∧ f.inUse ∧ f.page.dirty ∧
      Device.beforePageWrite p.dev f.page = (.ok (), s₁) ∧
      Device.writePage s₁ .pool f.page = (.ok (), s) ∧
      p' = { p.setFrame i f.cleaned with dev := s }) := by
  cases hf : p.frame? i
  case none =>
    have hz : p.frameAt i = {} := by rw [frameAt_eq_getD, hf]; rfl
    simp [flushFrame, hz] at h
    exact .inl ⟨h.left.symm, h.right.symm, nofun⟩
  case some f =>
    simp only [flushFrame, frameAt_eq hf] at h
    split at h
    case isTrue hc =>
      cases h
      refine .inl ⟨rfl, rfl, fun g hg => ?_⟩
      cases hg
      simpa [or_iff_not_imp_left] using hc
    case isFalse hc =>
      simp at hc
      split at h
      case h_1 hl => cases h; exact .inr <| .inl ⟨f, _, _, rfl, rfl, hc.left, hc.right, hl, rfl⟩
      case h_2 hl =>
        split at h
        case h_1 hw =>
          cases h
          exact .inr <| .inr <| .inl ⟨f, _, _, _, rfl, rfl, hc.left, hc.right, hl, hw, rfl⟩
        case h_2 hw =>
          cases h
          exact .inr <| .inr <| .inr ⟨f, _, _, rfl, rfl, hc.left, hc.right, hl, hw, rfl⟩

theorem flushFrame_steps (h : p.flushFrame i = (res, p')) : Steps p p' := by
  rcases flushFrame_cases h with ⟨_, hp, _⟩ | ⟨_, _, _, _, hf, hu, hd, hl, hp⟩ |
    ⟨_, _, _, _, _, hf, hu, hd, hl, hw, hp⟩ | ⟨_, _, _, _, hf, hu, hd, hl, hw, hp⟩ <;> subst hp
  · exact .refl
  · exact .single <| .logFailed hf hu hd hl
  · exact .single <| .writeFailed hf hu hd hl hw
  · exact .single <| .flushed hf hu hd hl hw

theorem flushEach_steps (h : p.flushEach first is = (res, p')) : Steps p p' := by
  induction is generalizing p first
  case nil => cases h; exact .refl
  case cons i is hi =>
    rw [flushEach] at h
    split at h
    case isTrue => exact hi h
    case isFalse => exact (flushFrame_steps rfl).trans <| hi h

theorem flushFrames_steps (h : p.flushFrames is = (res, p')) : Steps p p' := by
  induction is generalizing p
  case nil => cases h; exact .refl
  case cons i is hi =>
    rw [flushFrames] at h
    split at h
    case h_1 hf => cases h; exact flushFrame_steps hf
    case h_2 hf => exact (flushFrame_steps hf).trans <| hi h

theorem flushAll_steps (h : p.flushAll = (res, p')) : Steps p p' :=
  flushEach_steps h

theorem flushPage_steps (h : p.flushPage j = (res, p')) : Steps p p' := by
  rw [flushPage] at h
  split at h
  case h_1 => cases h; exact .refl
  case h_2 => exact flushFrame_steps h

theorem flushFrame_cleans (h : p.flushFrame i = (res, p')) :
    Cleans p p' ∧ (res = .ok () → ∀ f, p'.frame? i = some f → f.inUse → f.page.dirty = false) := by
  rcases flushFrame_cases h with ⟨_, hp, hc⟩ | ⟨_, _, _, hr, _, _, _, _, hp⟩ |
    ⟨_, _, _, _, hr, _, _, _, _, _, hp⟩ | ⟨f, _, _, hr, hf, _, _, _, _, hp⟩ <;> subst hp
  · exact ⟨.refl p', fun _ => hc⟩
  · exact ⟨⟨rfl, rfl, (Cleans.refl p).clean⟩, fun h => by rw [hr] at h; cases h⟩
  · exact ⟨⟨rfl, rfl, (Cleans.refl p).clean⟩, fun h => by rw [hr] at h; cases h⟩
  · refine ⟨.setFrame hf _, fun _ g hg _ => ?_⟩
    have hs : (p.setFrame i f.cleaned).frame? i = some g := hg
    rw [frame?_setFrame_self hf] at hs
    cases hs
    rfl

theorem flushFrames_cleans (h : p.flushFrames is = (res, p')) :
    Cleans p p' ∧ (res = .ok () →
      ∀ i ∈ is, ∀ f, p'.frame? i = some f → f.inUse → f.page.dirty = false) := by
  induction is generalizing p
  case nil => cases h; exact ⟨.refl _, fun _ => nofun⟩
  case cons i is hi =>
    rw [flushFrames] at h
    split at h
    case h_1 hf =>
      cases h
      exact ⟨(flushFrame_cleans hf).left, nofun⟩
    case h_2 p₁ hf =>
      have ⟨hc₁, hd₁⟩ := flushFrame_cleans hf
      have ⟨hc₂, hd₂⟩ := hi h
      refine ⟨hc₁.trans hc₂, fun hr j hj f hf' hu => ?_⟩
      cases hj
      case tail hj => exact hd₂ hr j hj f hf' hu
      case head =>
        have ⟨g, hg, he⟩ : ∃ g, p₁.frame? i = some g ∧ g.cleaned = f.cleaned := by
          have ⟨g, hg⟩ : ∃ g, p₁.frame? i = some g :=
            ⟨_, List.getElem?_eq_getElem <| hc₂.length ▸ lt_of_frame? hf'⟩
          have ⟨f', hf'', he⟩ := hc₂.frame? hg
          exact ⟨g, hg, Option.some_inj.mp (hf''.symm.trans hf') ▸ he.symm⟩
        have hu' : g.inUse := (Frame.eq_of_cleaned he).right.right.right.right ▸ hu
        exact hc₂.clean i g f hg hf' <| hd₁ rfl g hg hu'

-- Dropping frames that are in use, not pinned and clean.
theorem drop_steps {is : List Nat} (hn : is.Nodup)
    (hd : ∀ i ∈ is, ∃ f, p.frame? i = some f ∧ f.inUse ∧ f.pinCount = 0 ∧ f.page.dirty = false) :
    Steps p (is.foldl (fun p i => p.setFrame i {}) p) ∧
      (is.foldl (fun p i => p.setFrame i {}) p).capacity = p.capacity ∧
      (is.foldl (fun p i => p.setFrame i {}) p).size + is.length = p.size := by
  induction is generalizing p
  case nil => exact ⟨.refl, rfl, rfl⟩
  case cons i is hi =>
    have ⟨hni, hn⟩ := List.nodup_cons.mp hn
    have ⟨f, hf, hu, hp, hc⟩ := hd i List.mem_cons_self
    have hs := size_setFrame (g := {}) hf
    have ⟨h₁, h₂, h₃⟩ := hi (p := p.setFrame i {}) hn fun j hj => by
      have hij : i ≠ j := fun h => hni (h ▸ hj)
      simpa [hij] using hd j <| List.mem_cons_of_mem _ hj
    refine ⟨.head (.reframe <| .drop hf ⟨hu, hp⟩ hc) h₁, h₂, ?_⟩
    simp [hu] at hs h₃ ⊢
    omega

-- How a resize can end. Memory is needed only for frames that are not there yet.
inductive Resizes (p : BufferPool σ) (a : Allocation) (n : Nat) : Status → BufferPool σ → Prop
  | refused : Resizes p a n (.error e) p
  | same (hn : n = p.capacity) : Resizes p a n (.ok ()) p
  | grown (hn : p.capacity < n) (alloc : p.frames.length < n → a = .success) :
      Resizes p a n (.ok ()) { p with frames   := p.frames ++ List.replicate (n - p.frames.length) {}
                                      capacity := n }
  | unflushed (hf : p.flushFrames is = (.error e, q)) : Resizes p a n (.error e) q
  | shrunk (pos : 0 < n) (hn : n < p.capacity) (hv : p.shrinkVictims n = some is)
      (hf : p.flushFrames is = (.ok (), p₁)) :
      Resizes p a n (.ok ())
        { is.foldl (fun (p : BufferPool σ) i => p.setFrame i {}) p₁ with capacity := n }.trimFreeFrames

theorem resize_cases (h : p.resize a n = (res, q)) : Resizes p a n res q := by
  simp only [resize] at h
  split at h
  case isTrue => cases h; exact .refused
  case isFalse hz =>
    split at h
    case isTrue hn => cases h; exact .same hn
    case isFalse hne =>
      split at h
      case isTrue hn =>
        split at h <;> cases h
        case h_1 => exact .refused
        case h_2 => exact .refused
        case h_3 ha => exact .grown hn fun hl => by rwa [if_pos hl] at ha
      case isFalse hn =>
        split at h
        case h_1 => cases h; exact .refused
        case h_2 => cases h; exact .refused
        case h_3 =>
          split at h
          case h_1 => cases h; exact .refused
          case h_2 hv =>
            split at h <;> cases h
            case h_1 hf => exact .unflushed hf
            case h_2 hf => exact .shrunk (Nat.pos_of_ne_zero hz) (by omega) hv hf

theorem resize_steps (h : p.resize a n = (res, p')) : Steps p p' := by
  cases resize_cases h
  case refused => exact .refl
  case same => exact .refl
  case grown hn _ => exact .single <| .reframe <| .grow hn
  case unflushed hf => exact flushFrames_steps hf
  case shrunk is p₁ hpos hn hv hf =>
    have ⟨hnd, hel, hsz⟩ := shrinkVictims_spec hv
    have ⟨hc, hcl⟩ := flushFrames_cleans hf
    have ⟨h₁, h₂, h₃⟩ := drop_steps (p := p₁) hnd fun i hi => by
      have ⟨f, hf, hu, hp⟩ := hel i hi
      have ⟨g, hg, he⟩ := hc.frame? hf
      have ⟨_, _, hpc, _, hin⟩ := Frame.eq_of_cleaned he
      exact ⟨g, hg, hin ▸ hu, hpc ▸ hp, hcl rfl i hi g hg (hin ▸ hu)⟩
    have hs := hc.size
    have hcap := hc.capacity
    exact (flushFrames_steps hf).trans <| h₁.tail <| .reframe <| .shrink hpos (by omega) (by omega)

theorem log_same {s s' : σ} {page : Page} (log : Device.beforePageWrite s page = (res, s'))
    (j : PageId) : Device.page? s' j = Device.page? s j := by
  have h : Device.page? (Device.beforePageWrite s page).snd = Device.page? s := Device.log_page?
  rw [log] at h
  exact congrFun h j

-- No step touches a page that is not resident.
theorem Step.not_resident (st : Step p q) (hr : ¬Resident p j) :
    ¬Resident q j ∧ Device.page? q.dev j = Device.page? p.dev j := by
  cases st
  case reframe h =>
    refine ⟨fun ⟨i, g, hg, hu, hj⟩ => hr ?_, by rw [h.dev]⟩
    have ⟨f, hf, he⟩ := h.keep i g hg hu
    have ⟨hp, _, hin⟩ := Frame.eq_of_unstamped he
    exact ⟨i, f, hf, hin ▸ hu, hp ▸ hj⟩
  case read => exact ⟨hr, congrFun Device.read_page? j⟩
  case logFailed log => exact ⟨hr, log_same log j⟩
  case writeFailed i f _ _ _ hf hu _ log write =>
    have hj : j ≠ f.page.id := fun h => hr ⟨i, f, hf, hu, h.symm⟩
    exact ⟨hr, (Device.write_error write j).right hj |>.trans <| log_same log j⟩
  case flushed i f _ _ hf hu _ log write =>
    have hj : j ≠ f.page.id := fun h => hr ⟨i, f, hf, hu, h.symm⟩
    refine ⟨fun ⟨k, g, hg, hug, hgj⟩ => ?_, ?_⟩
    · change (p.setFrame i f.cleaned).frame? k = some g at hg
      rw [frame?_setFrame] at hg
      split at hg
      case isTrue h =>
        subst h
        simp only [hf, Option.map_some, Option.some_inj] at hg
        subst hg
        exact hj hgj.symm
      case isFalse => exact hr ⟨k, g, hg, hug, hgj⟩
    · rw [Device.write_ok write j, if_neg hj, log_same log j]

theorem Steps.not_resident (st : Steps p q) (hr : ¬Resident p j) :
    ¬Resident q j ∧ Device.page? q.dev j = Device.page? p.dev j := by
  induction st
  case refl => exact ⟨hr, rfl⟩
  case tail _ st hi =>
    have ⟨h₁, h₂⟩ := st.not_resident hi.left
    exact ⟨h₁, h₂.trans hi.right⟩

theorem acquireFrame_cases (h : p.acquireFrame = (res, p')) :
    Steps p p' ∧ ∀ i, res = .ok i → ∃ f, p'.frame? i = some f ∧
      ((f.inUse = false ∧ p'.size < p'.capacity) ∨ (eligible f ∧ f.page.dirty = false)) := by
  rw [acquireFrame] at h
  split at h
  case h_1 i hi =>
    cases h
    refine ⟨.refl, fun j hj => ?_⟩
    cases hj
    split at hi
    case isFalse => cases hi
    case isTrue hs =>
      have ⟨hl, hf, _⟩ := List.findIdx?_eq_some_iff_getElem.mp hi
      exact ⟨_, List.getElem?_eq_getElem hl, .inl ⟨by simpa using hf, hs⟩⟩
  case h_2 =>
    split at h
    case h_1 => cases h; exact ⟨.refl, nofun⟩
    case h_2 i hv =>
      have ⟨f, hf, he, _⟩ := victim_some hv
      split at h <;> cases h
      case h_1 hfl => exact ⟨flushFrame_steps hfl, nofun⟩
      case h_2 hfl =>
        refine ⟨flushFrame_steps hfl, fun j hj => ?_⟩
        cases hj
        have ⟨hc, hd⟩ := flushFrame_cleans hfl
        have ⟨g, hg, hcl⟩ := hc.frame? hf
        have ⟨_, _, hp, _, hu⟩ := Frame.eq_of_cleaned hcl
        exact ⟨g, hg, .inr ⟨⟨hu ▸ he.left, hp ▸ he.right⟩, hd rfl g hg (hu ▸ he.left)⟩⟩

theorem fetch_cases (h : p.fetch j = (res, p')) :
    (∃ e, res = .error e ∧ Steps p p') ∨
    (∃ i p₁, res = .ok i ∧ Steps p p₁ ∧ Pinned p₁ j i p') := by
  simp only [fetch] at h
  split at h
  case isTrue => cases h; exact .inl ⟨_, rfl, .refl⟩
  case isFalse =>
    split at h
    case h_1 i hfind =>
      have ⟨f, hf, hu, hj⟩ := findFrame_some hfind
      cases h
      refine .inr ⟨i, p, rfl, .refl, .hit hf hu hj ?_⟩
      rw [frameAt_eq hf]
      have hs := nextTimestamp_same (p.setFrame i { f with pinCount := f.pinCount + 1 })
      have ⟨g, hg, he⟩ := hs.frame? (frame?_setFrame_self hf)
      refine hs.trans <| .setFrame_self hg ?_
      rw [frameAt_eq hg]
      rfl
    case h_2 hfind =>
      have hr := findFrame_none hfind
      split at h
      case h_1 e s hread =>
        cases h
        have hst : Step p { p with dev := (Device.readPage p.dev j).snd } := .read
        rw [hread] at hst
        exact .inl ⟨e, rfl, .single hst⟩
      case h_2 page s hread =>
        have hst : Step p { p with dev := (Device.readPage p.dev j).snd } := .read
        rw [hread] at hst
        split at h
        case h_1 hacq =>
          cases h
          exact .inl ⟨_, rfl, .head hst (acquireFrame_cases hacq).left⟩
        case h_2 i p₁ hacq =>
          cases h
          have ⟨hsteps, hok⟩ := acquireFrame_cases hacq
          have ⟨f, hf, havail⟩ := hok i rfl
          have ⟨hid, hd, hcont⟩ := Device.read_ok hread
          have ⟨hnr, hpage⟩ := Steps.not_resident (.head hst hsteps) hr
          have hp : page = { id := j, data := page.data } := Page.ext hid hd rfl
          refine .inr ⟨i, p₁, rfl, .head hst hsteps, .load hf havail hnr (hpage.trans hcont) ?_⟩
          have hs := nextTimestamp_same (p₁.setFrame i { p₁.frameAt i with page, pinCount := 1 })
          have ⟨g, hg, he⟩ := hs.frame? (frame?_setFrame_self hf)
          have ⟨hpg, hpin, _⟩ := Frame.eq_of_unstamped he
          rw [frameAt_eq hg]
          refine SameButStamps.trans ?_ (hs.setFrame rfl)
          refine ⟨rfl, rfl, ?_⟩
          simp [BufferPool.setFrame, Frame.unstamped, hpg, hpin, ← hp]

end NexusDb.BufferPool
