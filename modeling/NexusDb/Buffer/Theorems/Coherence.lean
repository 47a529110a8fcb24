import NexusDb.Buffer.Theorems.Representation

namespace NexusDb

namespace BufferPool

variable [Device σ]

-- The pool and its storage together hold the contents `m` of the pages.
structure Coherent (p : BufferPool σ) (m : PageId → Option PageData) : Prop where
  resident : ∀ i f, p.frame? i = some f → f.inUse → m f.page.id = some f.page.data
  clean    : ∀ i f, p.frame? i = some f → f.inUse → f.page.dirty = false →
               Device.page? p.dev f.page.id = some f.page.data
  absent   : ∀ id, ¬Resident p id → Device.page? p.dev id = m id
  allocated : ∀ id, (Device.page? p.dev id).isSome = (m id).isSome

variable {p q : BufferPool σ} {m : PageId → Option PageData} {s : σ}

-- Changing the device, but not what it has for the pages that the pool does not hold dirty.
theorem Coherent.dev (hc : Coherent p m)
    (h : ∀ id, (Device.page? s id).isSome = (Device.page? p.dev id).isSome ∧
      ((∀ i f, p.frame? i = some f → f.inUse → f.page.dirty → f.page.id ≠ id) →
        Device.page? s id = Device.page? p.dev id))
    (hi : Inv p) : Coherent { p with dev := s } m := by
  refine ⟨hc.resident, fun i f hf hu hd => ?_, fun id hr => ?_, fun id => ?_⟩
  · refine ((h f.page.id).right fun j g hg hgu hgd he => ?_).trans (hc.clean i f hf hu hd)
    cases hi.unique j i g f hg hf hgu hu he
    cases hf.symm.trans hg
    rw [hd] at hgd
    cases hgd
  · refine ((h id).right fun j g hg hgu _ he => ?_).trans (hc.absent id hr)
    exact hr ⟨j, g, hg, hgu, he⟩
  · exact (h id).left.trans (hc.allocated id)

theorem Coherent.same_pages (hc : Coherent p m) (h : Device.page? s = Device.page? p.dev) :
    Coherent { p with dev := s } m := by
  refine ⟨hc.resident, fun i f hf hu hd => ?_, fun id hr => ?_, fun id => ?_⟩ <;> rw [h]
  · exact hc.clean i f hf hu hd
  · exact hc.absent id hr
  · exact hc.allocated id

theorem Coherent.reframe (hc : Coherent p m) (h : Reframes p q) : Coherent q m := by
  have hkeep : ∀ {i g}, q.frame? i = some g → g.inUse →
      ∃ f, p.frame? i = some f ∧ f.inUse ∧ f.page = g.page := by
    intro i g hg hu
    have ⟨f, hf, he⟩ := h.keep i g hg hu
    have ⟨hp, _, hin⟩ := Frame.eq_of_unstamped he
    exact ⟨f, hf, hin ▸ hu, hp⟩
  refine ⟨fun i g hg hu => ?_, fun i g hg hu hd => ?_, fun id hr => ?_, ?_⟩
  · have ⟨f, hf, hfu, hp⟩ := hkeep hg hu
    exact hp ▸ hc.resident i f hf hfu
  · have ⟨f, hf, hfu, hp⟩ := hkeep hg hu
    rw [h.dev, ← hp]
    exact hc.clean i f hf hfu (hp ▸ hd)
  · rw [h.dev]
    by_cases hrp : Resident p id
    case neg => exact hc.absent id hrp
    case pos =>
      have ⟨i, f, hf, hu, hid⟩ := hrp
      rcases h.lost i f hf hu with ⟨g, hg, he⟩ | ⟨_, hd⟩
      · have ⟨hp, _, hin⟩ := Frame.eq_of_unstamped he
        exact absurd ⟨i, g, hg, hin ▸ hu, hp ▸ hid⟩ hr
      · rw [← hid, hc.clean i f hf hu hd, hc.resident i f hf hu]
  · rw [h.dev]
    exact hc.allocated

theorem Coherent.flushed (hc : Coherent p m) (hi : Inv p) (hf : p.frame? i = some f) (hu : f.inUse)
    (h : ∀ id, Device.page? s id = if id = f.page.id then some f.page.data else Device.page? p.dev id) :
    Coherent { p.setFrame i f.cleaned with dev := s } m := by
  -- The frames are the ones of `p` except for a dirty flag.
  have hframe : ∀ {j g}, (p.setFrame i f.cleaned).frame? j = some g →
      ∃ g', p.frame? j = some g' ∧ g.cleaned = g'.cleaned ∧ (j ≠ i → g = g') := by
    intro j g hg
    rw [frame?_setFrame] at hg
    split at hg
    case isTrue h =>
      subst h
      simp only [hf, Option.map_some, Option.some_inj] at hg
      exact ⟨f, hf, hg ▸ rfl, fun h => absurd rfl h⟩
    case isFalse h => exact ⟨g, hg, rfl, fun _ => rfl⟩
  refine ⟨fun j g hg hgu => ?_, fun j g hg hgu hd => ?_, fun id hr => ?_, fun id => ?_⟩
  · have ⟨g', hg', he, _⟩ := hframe hg
    have ⟨hid, hdata, _, _, hin⟩ := Frame.eq_of_cleaned he
    rw [hid, hdata]
    exact hc.resident j g' hg' (hin ▸ hgu)
  · have ⟨g', hg', he, hne⟩ := hframe hg
    have ⟨hid, hdata, _, _, hin⟩ := Frame.eq_of_cleaned he
    change Device.page? s g.page.id = _
    rw [h]
    by_cases hj : j = i
    case pos =>
      subst hj
      cases hf.symm.trans hg'
      rw [if_pos hid, hdata]
    case neg =>
      cases hne hj
      rw [if_neg fun he => hj <| hi.unique j i g f hg' hf hgu hu he]
      exact hc.clean j g hg' hgu hd
  · change Device.page? s id = _
    have hrp : ¬Resident p id := by
      rintro ⟨j, g, hg, hgu, hid⟩
      refine hr ?_
      by_cases hj : i = j
      case pos =>
        subst hj
        cases hf.symm.trans hg
        exact ⟨i, f.cleaned, frame?_setFrame_self hf, hu, hid⟩
      case neg => exact ⟨j, g, (frame?_setFrame.trans (if_neg hj)).trans hg, hgu, hid⟩
    rw [h, if_neg fun he => hrp ⟨i, f, hf, hu, he.symm⟩]
    exact hc.absent id hrp
  · change (Device.page? s id).isSome = _
    rw [h]
    split
    case isTrue he => rw [he, hc.resident i f hf hu]
    case isFalse => exact hc.allocated id

theorem Coherent.step (hc : Coherent p m) (hi : Inv p) (st : Step p q) : Coherent q m := by
  cases st
  case reframe h => exact hc.reframe h
  case read => exact hc.same_pages Device.read_page?
  case logFailed log => exact hc.same_pages <| funext <| log_same log
  case writeFailed i f _ _ _ hf hu hd log write =>
    refine hc.dev (fun id => ?_) hi
    have ⟨h₁, h₂⟩ := Device.write_error write id
    rw [log_same log] at h₁ h₂
    exact ⟨h₁, fun h => h₂ <| Ne.symm <| h i f hf hu hd⟩
  case flushed hf hu hd log write =>
    exact hc.flushed hi hf hu fun id => by rw [Device.write_ok write, log_same log]

theorem Coherent.steps (hc : Coherent p m) (hi : Inv p) (st : Steps p q) : Coherent q m := by
  induction st
  case refl => exact hc
  case tail st' st ih => exact ih.step (hi.keeps_steps st').inv st

-- Replacing a frame that is free, or clean and not in use by anyone, by one with the contents that
-- `m` has for its page.
theorem Coherent.setFrame (hc : Coherent p m) (hf : p.frame? i = some f) (hu : g.inUse)
    (hold : f.inUse → f.page.dirty = false ∨ f.page.id = g.page.id)
    (hm : m g.page.id = some g.page.data)
    (hd : g.page.dirty = false → Device.page? p.dev g.page.id = some g.page.data) :
    Coherent (p.setFrame i g) m := by
  have hframe : ∀ {j k}, (p.setFrame i g).frame? j = some k → k = g ∨ p.frame? j = some k := by
    intro j k hk
    rw [frame?_setFrame] at hk
    split at hk
    case isTrue h =>
      subst h
      simp only [hf, Option.map_some, Option.some_inj] at hk
      exact .inl hk.symm
    case isFalse h => exact .inr hk
  refine ⟨fun j k hk hku => ?_, fun j k hk hku hkd => ?_, fun id hr => ?_, hc.allocated⟩
  · rcases hframe hk with rfl | hk
    · exact hm
    · exact hc.resident j k hk hku
  · rcases hframe hk with rfl | hk
    · exact hd hkd
    · exact hc.clean j k hk hku hkd
  · by_cases hrp : Resident p id
    case neg => exact hc.absent id hrp
    case pos =>
      have ⟨j, k, hk, hku, hid⟩ := hrp
      by_cases hj : i = j
      case neg => exact absurd ⟨j, k, (frame?_setFrame.trans (if_neg hj)).trans hk, hku, hid⟩ hr
      case pos =>
        subst hj
        cases hf.symm.trans hk
        rcases hold hku with hcl | he
        · change Device.page? p.dev id = _
          rw [← hid, hc.clean i f hf hku hcl, hc.resident i f hf hku]
        · exact absurd ⟨i, g, frame?_setFrame_self hf, hu, he ▸ hid⟩ hr

theorem Coherent.same (hc : Coherent p m) (h : SameButStamps p q) : Coherent q m :=
  hc.reframe <| .of_same h

-- A frame whose page is the same as before keeps the contents, whatever its pin count is.
theorem Coherent.setFrame_page (hc : Coherent p m) (hf : p.frame? i = some f) (hin : g.inUse = f.inUse)
    (hp : g.page = f.page) : Coherent (p.setFrame i g) m := by
  cases hu : f.inUse
  case true =>
    refine hc.setFrame hf (hin ▸ hu) (fun _ => .inr (by rw [hp])) ?_ ?_ <;> rw [hp]
    · exact hc.resident i f hf hu
    · exact hc.clean i f hf hu
  case false =>
    have hframe : ∀ {j k}, (p.setFrame i g).frame? j = some k → k.inUse → p.frame? j = some k := by
      intro j k hk hku
      rw [frame?_setFrame] at hk
      split at hk
      case isTrue h =>
        subst h
        simp only [hf, Option.map_some, Option.some_inj] at hk
        rw [← hk, hin, hu] at hku
        cases hku
      case isFalse h => exact hk
    refine ⟨fun j k hk hku => hc.resident j k (hframe hk hku) hku,
      fun j k hk hku => hc.clean j k (hframe hk hku) hku, fun id hr => hc.absent id ?_, hc.allocated⟩
    rintro ⟨j, k, hk, hku, hid⟩
    by_cases hj : i = j
    case neg => exact hr ⟨j, k, (frame?_setFrame.trans (if_neg hj)).trans hk, hku, hid⟩
    case pos =>
      subst hj
      cases hf.symm.trans hk
      rw [hu] at hku
      cases hku

-- There is only one way to see the pages.
theorem Coherent.unique (hc : Coherent p m) (hc' : Coherent p m') : m' = m := by
  funext id
  by_cases hr : Resident p id
  case pos =>
    have ⟨i, f, hf, hu, hid⟩ := hr
    rw [← hid, hc.resident i f hf hu, hc'.resident i f hf hu]
  case neg => rw [← hc.absent id hr, ← hc'.absent id hr]

theorem Coherent.unpin (hc : Coherent p m) (i : Nat) : Coherent (p.unpinFrame i) m := by
  rw [unpinFrame]
  split
  case isTrue => exact hc
  case isFalse hl =>
    have hf : p.frame? i = some (p.frameAt i) := by
      have hl : i < p.frames.length := Nat.not_le.mp hl
      simp [frame?, frameAt, hl]
    exact hc.setFrame_page hf rfl rfl

theorem Coherent.pinned {id : PageId} (hc : Coherent p m) (h : Pinned p id i q) :
    Coherent q m ∧ ∃ f, q.frame? i = some f ∧ f.inUse ∧ f.page.id = id ∧ m id = some f.page.data := by
  cases h
  case hit f hf hu hid same =>
    have hs := hc.setFrame_page (g := { f with pinCount := f.pinCount + 1 }) hf rfl rfl
    refine ⟨hs.same same, ?_⟩
    have ⟨g, hg, he⟩ := same.frame? (frame?_setFrame_self hf)
    have ⟨hp, _, hin⟩ := Frame.eq_of_unstamped he
    exact ⟨g, hg, hin ▸ hu, hp ▸ hid, hp ▸ hid ▸ hc.resident i f hf hu⟩
  case load f d hf avail fresh content same =>
    have hm := (hc.absent id fresh).symm.trans content
    have hs : Coherent (p.setFrame i { page := { id, data := d }, pinCount := 1, inUse := true }) m := by
      refine hc.setFrame hf rfl (fun hu => .inl ?_) hm fun _ => content
      rcases avail with ⟨h, _⟩ | ⟨_, h⟩
      · rw [hu] at h
        cases h
      · exact h
    refine ⟨hs.same same, ?_⟩
    have ⟨g, hg, he⟩ := same.frame? (frame?_setFrame_self hf)
    have ⟨hp, _, hin⟩ := Frame.eq_of_unstamped he
    exact ⟨g, hg, hin, by rw [hp], by rw [hp]; exact hm⟩

-- Modifying a page through the frame that holds it.
theorem Coherent.modify (hc : Coherent p m) (hi : Inv p) (hf : p.frame? i = some f) (hu : f.inUse)
    (hid : g.page.id = f.page.id) (hgu : g.inUse) (hd : g.page.dirty) :
    Coherent (p.setFrame i g) (Function.update m f.page.id (some g.page.data)) := by
  have hother : ∀ {j k}, i ≠ j → p.frame? j = some k → k.inUse → k.page.id ≠ f.page.id :=
    fun hj hk hku he => hj <| (hi.unique _ _ _ _ hk hf hku hu he).symm
  have hframe : ∀ {j k}, (p.setFrame i g).frame? j = some k → k = g ∨ (i ≠ j ∧ p.frame? j = some k) := by
    intro j k hk
    rw [frame?_setFrame] at hk
    split at hk
    case isTrue h =>
      subst h
      simp only [hf, Option.map_some, Option.some_inj] at hk
      exact .inl hk.symm
    case isFalse h => exact .inr ⟨h, hk⟩
  refine ⟨fun j k hk hku => ?_, fun j k hk hku hkd => ?_, fun id hr => ?_, fun id => ?_⟩
  · rcases hframe hk with rfl | ⟨hj, hk⟩
    · rw [hid, Function.update_self]
    · rw [Function.update_of_ne (hother hj hk hku)]
      exact hc.resident j k hk hku
  · rcases hframe hk with rfl | ⟨hj, hk⟩
    · rw [hd] at hkd
      cases hkd
    · exact hc.clean j k hk hku hkd
  · have hne : id ≠ f.page.id := fun he => hr ⟨i, g, frame?_setFrame_self hf, hgu, hid.trans he.symm⟩
    rw [Function.update_of_ne hne]
    refine hc.absent id ?_
    rintro ⟨j, k, hk, hku, hkid⟩
    by_cases hj : i = j
    case neg => exact hr ⟨j, k, (frame?_setFrame.trans (if_neg hj)).trans hk, hku, hkid⟩
    case pos =>
      subst hj
      cases hf.symm.trans hk
      exact hne hkid.symm
  · by_cases hne : id = f.page.id
    case pos =>
      subst hne
      rw [Function.update_self]
      exact (hc.allocated _).trans (by rw [hc.resident i f hf hu]; rfl)
    case neg =>
      rw [Function.update_of_ne hne]
      exact hc.allocated id

theorem flushEach_clean (h : p.flushEach first is = (.ok (), p')) :
    first = .ok () ∧ Cleans p p' ∧
      ∀ i ∈ is, ∀ f, p'.frame? i = some f → f.inUse → f.page.dirty = false := by
  induction is generalizing p first
  case nil =>
    cases h
    exact ⟨rfl, .refl _, nofun⟩
  case cons i is hi =>
    rw [flushEach] at h
    -- What held of frame `i` before the rest of the frames was flushed still holds afterwards.
    have hafter : ∀ {p₁}, Cleans p₁ p' →
        (∀ f, p₁.frame? i = some f → f.inUse → f.page.dirty = false) →
        ∀ f, p'.frame? i = some f → f.inUse → f.page.dirty = false := by
      intro p₁ hc hd f hf hu
      obtain ⟨g, hg, he⟩ := hc.back hf
      have hin := (Frame.eq_of_cleaned he).right.right.right.right
      exact hc.clean i g f hg hf <| hd g hg (hin ▸ hu)
    split at h
    case isTrue hskip =>
      obtain ⟨hfirst, hc, hd⟩ := hi h
      refine ⟨hfirst, hc, fun j hj f hf hu => ?_⟩
      cases hj
      case tail hj => exact hd j hj f hf hu
      case head =>
        refine hafter hc (fun g hg hgu => ?_) f hf hu
        simpa [frameAt_eq hg, hgu] using hskip
    case isFalse =>
      obtain ⟨hfirst, hc, hd⟩ := hi h
      obtain ⟨hc₁, hd₁⟩ := flushFrame_cleans (p := p) (i := i) rfl
      have hok : first = .ok () ∧ (p.flushFrame i).fst = .ok () := by
        cases first
        case ok => exact ⟨rfl, hfirst⟩
        case error => cases hfirst
      refine ⟨hok.left, hc₁.trans hc, fun j hj f hf hu => ?_⟩
      cases hj
      case tail hj => exact hd j hj f hf hu
      case head => exact hafter hc (hd₁ hok.right) f hf hu

theorem flushAll_clean (h : p.flushAll = (.ok (), p')) (hf : p'.frame? i = some f) (hu : f.inUse) :
    f.page.dirty = false := by
  have ⟨_, hc, hd⟩ := flushEach_clean h
  exact hd i (List.mem_range.mpr <| hc.length ▸ lt_of_frame? hf) f hf hu

theorem Coherent.of_clean (hc : Coherent p m)
    (hd : ∀ i f, p.frame? i = some f → f.inUse → f.page.dirty = false) (id : PageId) :
    Device.page? p.dev id = m id := by
  by_cases hr : Resident p id
  case neg => exact hc.absent id hr
  case pos =>
    have ⟨i, f, hf, hu, hid⟩ := hr
    rw [← hid, hc.clean i f hf hu (hd i f hf hu), hc.resident i f hf hu]

end BufferPool

namespace Client

variable [Device σ]

-- What the pages hold after an operation, from what they held before: a modification through a
-- handle replaces the bytes of its page, and the storage provides the bytes of the pages that were
-- never fetched.
def contents (c : Client σ) (m : PageId → Option PageData) (op : PoolOp) : PageId → Option PageData :=
  match op with
  | .modify h f =>
    match c.handle? h with
    | none   => m
    | some k => Function.update m k.id ((m k.id).map f)
  | .allocate | .write _ =>
    fun id => if id ∈ c.fetched then m id else Device.page? (c.step op).snd.pool.dev id
  | _ => m

def runContents (c : Client σ) (m : PageId → Option PageData) : List PoolOp → PageId → Option PageData
  | []        => m
  | op :: ops => (c.step op).snd.runContents (c.contents m op) ops

structure Coherent (c : Client σ) (m : PageId → Option PageData) : Prop where
  inv      : Inv c
  pool     : c.pool.Coherent m
  fetched  : ∀ id, c.pool.Resident id → id ∈ c.fetched
  existing : ∀ id ∈ c.fetched, (m id).isSome

variable {c : Client σ} {m : PageId → Option PageData}

theorem Coherent.steps (hc : Coherent c m) (st : BufferPool.Steps c.pool q) :
    Coherent { c with pool := q } m where
  inv      := hc.inv.keeps <| hc.inv.pool.keeps_steps st
  pool     := hc.pool.steps hc.inv.pool st
  fetched id := by
    intro hr
    by_cases hp : c.pool.Resident id
    case pos => exact hc.fetched id hp
    case neg => exact absurd hr (st.not_resident hp).left
  existing := hc.existing

theorem Coherent.release (hc : Coherent c m) (h : Nat) : Coherent (c.release h) m := by
  have hi := (hc.inv.release h).left
  rw [Client.release] at hi ⊢
  split
  case h_1 => exact hc
  case h_2 k hk =>
    rw [hk] at hi
    exact ⟨hi, hc.pool.unpin k.frame, fun id hr => hc.fetched id hr.of_unpin, hc.existing⟩

-- Operations that only move handles around.
theorem Coherent.handles (hc : Coherent c m) (hi : Inv { c with handles := hs }) :
    Coherent { c with handles := hs } m :=
  ⟨hi, hc.pool, hc.fetched, hc.existing⟩

theorem Coherent.moveAssign (hc : Coherent c m) (dst src : Nat) (hl : dst < c.handles.length) :
    Coherent (c.moveAssign dst src) m := by
  have hi := hc.inv.moveAssign dst src hl
  rw [Client.moveAssign] at hi ⊢
  split
  case isTrue => exact hc
  case isFalse hne =>
    rw [if_neg hne] at hi
    exact (hc.release dst).handles hi

-- A fetch that succeeds exposes the contents of its page.
theorem Coherent.fetch (hc : Coherent c m) (h : Nat) (id : PageId) (hl : h < c.handles.length) :
    Coherent (c.fetch h id).snd m ∧ ((c.fetch h id).fst = .ok () →
      ∃ k f, (c.fetch h id).snd.handle? h = some k ∧ (c.fetch h id).snd.pool.frame? k.frame = some f ∧
        f.page.id = id ∧ m id = some f.page.data) := by
  have hi := hc.inv.fetch h id hl
  have hr := hc.release h
  have hlr := (hc.inv.release h).right.right
  rw [Client.fetch] at hi ⊢
  generalize c.release h = c' at hi hr hlr ⊢
  rcases hf : c'.pool.fetch id with ⟨res, pool⟩
  rw [hf] at hi
  rcases BufferPool.fetch_cases hf with ⟨e, hres, st⟩ | ⟨i, p₁, hres, st, hp⟩ <;> subst hres
  · exact ⟨hr.steps st, by rintro ⟨⟩⟩
  · have hs := hr.steps st
    obtain ⟨hpool, f, hf, hu, hid, hm⟩ := hs.pool.pinned hp
    refine ⟨⟨hi, hpool, fun j hj => ?_, fun j hj => ?_⟩, fun _ => ⟨⟨i, id⟩, f, ?_, hf, hid, hm⟩⟩
    · have hj : p₁.Resident j ∨ id = j := by
        cases hp
        case hit hf hu hid same =>
          rcases (hj.of_same same).of_setFrame with h | ⟨_, h⟩
          · exact .inl h
          · exact .inr (hid ▸ h)
        case load same =>
          rcases (hj.of_same same).of_setFrame with h | ⟨_, h⟩
          · exact .inl h
          · exact .inr h
      rcases hj with hj | hj
      · exact List.mem_cons_of_mem _ <| hs.fetched j hj
      · exact hj ▸ List.mem_cons_self
    · rcases List.mem_cons.mp hj with h | h
      · rw [h, hm]
        rfl
      · exact hr.existing j h
    · simp [handle?, hlr, hl]

theorem Coherent.modify (hc : Coherent c m) (h : Nat) (f : PageData → PageData) :
    Coherent (c.modify h f) (c.contents m (.modify h f)) := by
  have hi := hc.inv.modify h f
  rw [Client.modify] at hi ⊢
  rw [contents]
  cases hk : c.handle? h
  case none => exact hc
  case some k =>
    obtain ⟨g, hg, hu, hid⟩ := hc.inv.live k <| List.mem_of_getElem? <| handle?_eq_some hk
    simp only [hk, BufferPool.frameAt_eq hg] at hi ⊢
    have hm : m k.id = some g.page.data := hid ▸ hc.pool.resident _ g hg hu
    rw [hm, Option.map_some, ← hid]
    have hp := hc.pool.modify hc.inv.pool (g := { g with page := { g.page with data := f g.page.data, dirty := true } })
      hg hu rfl hu rfl
    refine ⟨hi, ?_, fun id hr => ?_, fun id hf => ?_⟩
    · exact hp.same_pages Device.touch_page?
    · rcases BufferPool.Resident.of_setFrame hr with h | ⟨_, h⟩
      · exact hc.fetched id h
      · exact hc.fetched id ⟨_, g, hg, hu, h⟩
    · by_cases he : id = g.page.id
      case pos => simp [he]
      case neg => simpa [he] using hc.existing id hf

-- Storage may change under the pool where it was never fetched from.
theorem Coherent.storage {s : σ} (hc : Coherent c m)
    (hsame : ∀ id ∈ c.fetched, Device.page? s id = Device.page? c.pool.dev id) :
    Coherent { c with pool := { c.pool with dev := s } }
      fun id => if id ∈ c.fetched then m id else Device.page? s id where
  inv := hc.inv.keeps <| hc.inv.pool.keeps_dev s
  pool := by
    refine ⟨fun i f hf hu => ?_, fun i f hf hu hd => ?_, fun id hr => ?_, fun id => ?_⟩
    · rw [if_pos <| hc.fetched _ ⟨i, f, hf, hu, rfl⟩]
      exact hc.pool.resident i f hf hu
    · exact (hsame _ <| hc.fetched _ ⟨i, f, hf, hu, rfl⟩).trans (hc.pool.clean i f hf hu hd)
    · split
      case isTrue hid => exact (hsame id hid).trans (hc.pool.absent id hr)
      case isFalse => rfl
    · split
      case isTrue hid => exact (congrArg _ (hsame id hid)).trans (hc.pool.allocated id)
      case isFalse => rfl
  fetched := hc.fetched
  existing id hid := by
    rw [if_pos hid]
    exact hc.existing id hid

theorem Coherent.step (hc : Coherent c m) (op : PoolOp) : Coherent (c.step op).snd (c.contents m op) := by
  cases op
  case declare => exact hc.handles <| hc.inv.step .declare
  case fetch h id =>
    rw [Client.step]
    split
    case isTrue hl => exact (hc.fetch h id hl).left
    case isFalse => exact hc
  case moveConstruct src => exact hc.handles <| hc.inv.moveConstruct src
  case moveAssign dst src =>
    rw [Client.step]
    split
    case isTrue hl => exact hc.moveAssign dst src hl
    case isFalse => exact hc
  case unpin h =>
    rw [Client.step]
    split
    case isTrue => exact hc
    case isFalse => exact hc.release h
  case destroy h => exact hc.release h
  case modify h f => exact hc.modify h f
  case flushPage => exact hc.steps <| BufferPool.flushPage_steps rfl
  case flushAll => exact hc.steps <| BufferPool.flushAll_steps rfl
  case resize => exact hc.steps <| BufferPool.resize_steps rfl
  case allocate =>
    rw [contents, Client.step]
    split
    case h_1 s ha =>
      exact hc.storage fun id _ => congrFun (Device.alloc_error ha) id
    case h_2 page s ha =>
      refine hc.storage fun id hid => ?_
      obtain ⟨_, hp, h⟩ := Device.alloc_ok ha
      have hlt : id < Device.numPages c.pool.dev :=
        Device.page?_isSome.mp <| (hc.pool.allocated id).trans (hc.existing id hid)
      rw [h, if_neg fun he => ?_]
      rw [he, hp] at hlt
      exact UInt32.lt_irrefl _ hlt
  case write page =>
    rw [contents, Client.step]
    split
    case isTrue => exact hc.storage fun _ _ => rfl
    case isFalse hn =>
      refine hc.storage fun id hid => ?_
      have hne : id ≠ page.id := fun h => hn (h ▸ hid)
      rcases hw : Device.writePage c.pool.dev .direct page with ⟨e | ⟨⟩, s⟩
      · exact (Device.write_error hw id).right hne
      · rw [Device.write_ok hw, if_neg hne]

theorem Coherent.run (hc : Coherent c m) (ops : List PoolOp) :
    Coherent (c.run ops) (c.runContents m ops) := by
  induction ops generalizing c m
  case nil => exact hc
  case cons op ops ih => exact ih <| hc.step op

theorem create_coherent {s : σ} {pool : BufferPool σ} (h : BufferPool.create s n = .ok pool) :
    Coherent { pool } (Device.page? s) := by
  have ⟨h₁, h₂, hs, hr⟩ := BufferPool.create_inv h
  have hr : ∀ {i f}, pool.frame? i = some f → f.inUse → False := fun hf hu => hr _ ⟨_, _, hf, hu, rfl⟩
  exact ⟨⟨h₁, h₂, nofun⟩,
    ⟨fun i f hf hu => (hr hf hu).elim, fun i f hf hu => (hr hf hu).elim, fun id _ => by rw [hs], fun id => by rw [hs]⟩,
    fun id ⟨i, f, hf, hu, _⟩ => (hr hf hu).elim, nofun⟩

theorem run_coherent (dev : σ) (n : Nat) (ops : List PoolOp) :
    ∃ pool, BufferPool.create dev (n + 1) = .ok pool ∧
      let c := run { pool } ops
      let m := runContents { pool } (Device.page? dev) ops
      (∀ h id c', h < c.handles.length → c.step (.fetch h id) = (.ok (), c') →
        ∃ k f, c'.handle? h = some k ∧ c'.pool.frames[k.frame]? = some f ∧ f.page.id = id ∧
          m id = some f.page.data) ∧
      (∀ id, (∀ f ∈ c.pool.frames, f.inUse → f.page.id ≠ id) → Device.page? c.pool.dev id = m id) ∧
      (∀ f ∈ c.pool.frames, f.inUse → f.page.dirty = false →
        Device.page? c.pool.dev f.page.id = m f.page.id) ∧
      (∀ c', c.step .flushAll = (.ok (), c') → ∀ id, Device.page? c'.pool.dev id = m id) := by
  refine ⟨_, rfl, ?_⟩
  intro c m
  have hc : Coherent c m := (create_coherent (n := n + 1) rfl).run ops
  refine ⟨fun h id c' hl hs => ?_, fun id hr => ?_, fun f hf hu hd => ?_, fun c' hs id => ?_⟩
  · rw [Client.step, if_pos hl] at hs
    have hf := (hc.fetch h id hl).right
    rw [hs] at hf
    exact hf rfl
  · apply hc.pool.absent id
    rintro ⟨_, f, hf, hu, he⟩
    exact hr f (BufferPool.mem_of_frame? hf) hu he
  · obtain ⟨i, hi⟩ := BufferPool.frame?_of_mem hf
    exact (hc.pool.clean i f hi hu hd).trans (hc.pool.resident i f hi hu).symm
  · have hst := hc.step .flushAll
    rw [hs] at hst
    rw [Client.step] at hs
    obtain ⟨hok, hc'⟩ := Prod.mk.inj hs
    subst hc'
    exact hst.pool.of_clean (fun i f hf hu => BufferPool.flushAll_clean (Prod.ext hok rfl) hf hu) id

end Client
end NexusDb
