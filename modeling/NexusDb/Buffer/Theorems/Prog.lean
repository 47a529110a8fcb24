import NexusDb.Buffer.Prog
import NexusDb.Buffer.Theorems.Representation

open Relation (ReflTransGen)

namespace NexusDb

namespace Prog

@[simp]
theorem pure_eq (a : α) : (pure a : Prog α) = ret a :=
  rfl

@[simp]
theorem bind_eq (p : Prog α) (g : α → Prog β) : (p >>= g) = p.bind g :=
  rfl

@[simp]
theorem ret_bind (a : α) (g : α → Prog β) : (ret a).bind g = g a :=
  rfl

theorem bind_ret (g : Prog α) : g.bind ret = g := by
  induction g
  case ret => rfl
  case numPages ih => exact congrArg _ (funext ih)
  case newPage ih => exact congrArg _ (funext ih)
  case withPage ih => exact congrArg _ (funext ih)

-- Programs that only look at pages, whatever the pages hold.
def ReadOnly : Prog α → Prop
  | ret _          => True
  | numPages k     => ∀ r, (k r).ReadOnly
  | newPage _ _    => False
  | withPage _ f k => (∀ d, ∃ r, f d = some (r, none)) ∧ ∀ r, (k r).ReadOnly

namespace ReadOnly

theorem bind {p : Prog α} (hp : p.ReadOnly) (hg : ∀ a, (g a : Prog β).ReadOnly) : (p.bind g).ReadOnly := by
  induction p
  case ret a => exact hg a
  case numPages hi => exact fun r => hi r (hp r)
  case newPage => cases hp
  case withPage hi => exact ⟨hp.left, fun r => hi r (hp.right r)⟩

theorem countPages : Prog.countPages.ReadOnly :=
  fun _ => trivial

theorem pageExists : (Prog.pageExists i).ReadOnly
  | .error _ => trivial
  | .ok _    => trivial

theorem onPage {f : PageData → Mem (PageCall β)} (h : ∀ d, ∃ r, f d = some (r, none)) :
    (Prog.onPage i f).ReadOnly :=
  ⟨h, fun _ => trivial⟩

end ReadOnly

-- Programs that do not change any page in memory. They may add pages.
def NoEdit : Prog α → Prop
  | ret _          => True
  | numPages k     => ∀ r, (k r).NoEdit
  | newPage _ k    => ∀ r, (k r).NoEdit
  | withPage _ f k => (∀ d r, f d = some r → r.snd = none) ∧ ∀ r, (k r).NoEdit

namespace NoEdit

theorem bind {p : Prog α} (hp : p.NoEdit) (hg : ∀ a, (g a : Prog β).NoEdit) : (p.bind g).NoEdit := by
  induction p
  case ret a => exact hg a
  case numPages hi => exact fun r => hi r (hp r)
  case newPage hi => exact fun r => hi r (hp r)
  case withPage hi => exact ⟨hp.left, fun r => hi r (hp.right r)⟩

theorem addPage : (Prog.addPage d).NoEdit :=
  fun _ => trivial

end NoEdit

theorem ReadOnly.noEdit {g : Prog α} (hg : g.ReadOnly) : g.NoEdit := by
  induction g
  case ret => trivial
  case numPages hi => exact fun r => hi r (hg r)
  case newPage => cases hg
  case withPage hi =>
    refine ⟨fun d r hr => ?_, fun r => hi r (hg.right r)⟩
    have ⟨_, hd⟩ := hg.left d
    rw [hd] at hr
    cases hr
    rfl

end Prog

namespace BufferPool

def Clean (p : BufferPool σ) : Prop :=
  ∀ i f, p.frame? i = some f → f.inUse → f.page.dirty = false

section

variable {p q : BufferPool σ}

theorem Clean.reframe (hc : Clean p) (h : Reframes p q) : Clean q := by
  intro i g hg hu
  have ⟨f, hf, he⟩ := h.keep i g hg hu
  have ⟨hp, _, hin⟩ := Frame.eq_of_unstamped he
  exact hp ▸ hc i f hf (hin ▸ hu)

theorem Clean.setFrame (hc : Clean p) (hg : g.inUse → g.page.dirty = false) : Clean (p.setFrame i g) := by
  intro j f hf hu
  rw [frame?_setFrame] at hf
  split at hf
  case isTrue =>
    have ⟨_, _, he⟩ := Option.map_eq_some_iff.mp hf
    exact he ▸ hg (he ▸ hu)
  case isFalse => exact hc j f hf hu

theorem Clean.unpin (hc : Clean p) (i : Nat) : Clean (p.unpinFrame i) := by
  rw [unpinFrame]
  split
  case isTrue => exact hc
  case isFalse => exact hc.setFrame fun hu => hc i (p.frameAt i) (frame?_of_inUse hu) hu

theorem unpinFrame_dev (p : BufferPool σ) (i : Nat) : (p.unpinFrame i).dev = p.dev := by
  rw [unpinFrame]
  split <;> rfl

theorem create_clean {s : σ} (h : create s n = .ok p) : Clean p :=
  fun i f hf hu => absurd ⟨i, f, hf, hu, rfl⟩ <| (create_inv h).right.right.right f.page.id

end

variable [Device σ] {p q : BufferPool σ}

theorem Pinned.dev {j : PageId} (h : Pinned p j i q) : q.dev = p.dev := by
  cases h
  case hit same => exact same.dev
  case load same => exact same.dev

-- The device after calls that only read.
def Reads : σ → σ → Prop :=
  ReflTransGen fun s s' => s' = (Device.countPages s).snd ∨ ∃ j, s' = (Device.readPage s j).snd

-- A pool without dirty pages never writes.
theorem Clean.steps (hc : Clean p) (st : Steps p q) : Clean q ∧ Reads p.dev q.dev := by
  induction st
  case refl => exact ⟨hc, .refl⟩
  case tail q _ _ st hi =>
    have ⟨hc, hr⟩ := hi
    have hn : ∀ {i} {f : Frame}, q.frame? i = some f → f.inUse → f.page.dirty → False := by
      intro i f hf hu hd
      rw [hc i f hf hu] at hd
      cases hd
    cases st
    case reframe h => exact ⟨hc.reframe h, h.dev ▸ hr⟩
    case read => exact ⟨hc, hr.tail <| .inr ⟨_, rfl⟩⟩
    case logFailed hf hu hd _ => exact (hn hf hu hd).elim
    case writeFailed hf hu hd _ _ => exact (hn hf hu hd).elim
    case flushed hf hu hd _ _ => exact (hn hf hu hd).elim

theorem Clean.pinned {id : PageId} (hc : Clean p) (h : Pinned p id i q) : Clean q ∧ q.dev = p.dev := by
  cases h
  case hit f hf hu _ same =>
    have hs := hc.setFrame (i := i) (g := { f with pinCount := f.pinCount + 1 }) fun _ => hc i f hf hu
    exact ⟨hs.reframe (.of_same same), same.dev⟩
  case load same => exact ⟨Clean.reframe (hc.setFrame fun _ => rfl) (.of_same same), same.dev⟩

theorem Clean.fetch (hc : Clean p) (h : p.fetch j = (res, q)) : Clean q ∧ Reads p.dev q.dev := by
  rcases fetch_cases h with ⟨_, _, st⟩ | ⟨_, _, _, st, hp⟩
  · exact hc.steps st
  · have ⟨hc, hr⟩ := hc.steps st
    have ⟨hc, hd⟩ := hc.pinned hp
    exact ⟨hc, hd ▸ hr⟩

end BufferPool

namespace BufferPool

section

variable [Device σ] {p q : BufferPool σ}

theorem edit_eq (hf : p.frame? i = some f) (d : PageData) :
    p.edit i (some d) =
      { p.setFrame i { f with page := { f.page with data := d, dirty := true } } with
        dev := Device.touch p.dev f.page.id d } := by
  rw [edit, frameAt_eq hf]

-- Modifying the page of a frame that is in use.
theorem Inv.keeps_edit (hi : Inv p) (hf : p.frame? i = some f) (hu : f.inUse) (d : Option PageData) :
    Keeps p (p.edit i d) := by
  cases d
  case none => exact ⟨hi, fun _ => rfl, fun _ _ _ h => h⟩
  case some d =>
    rw [edit_eq hf]
    have ⟨h₁, h₂⟩ := hi.setFrame_same (g := { f with page := { f.page with data := d, dirty := true } })
      hf rfl rfl fun h => by rw [hu] at h; cases h
    have hk := h₁.keeps_dev (Device.touch p.dev f.page.id d)
    refine ⟨hk.inv, fun j => ?_, fun j id _ hh => h₂ j id hh⟩
    rw [hk.pins, pins_setFrame hf]
    split
    case isTrue h => subst h; rw [pins_eq hf]
    case isFalse => rfl

-- Fetching a page, working on it and giving it up again.
theorem Inv.keeps_use (hi : Inv p) (h : p.fetch j = (.ok i, q)) (d : Option PageData) :
    Keeps p ((q.edit i d).unpinFrame i) := by
  rcases fetch_cases h with ⟨_, hr, _⟩ | ⟨_, p₁, hr, st, hp⟩ <;> cases hr
  have hk := hi.keeps_steps st
  have ⟨h₁, hpins, ⟨f, hf, hu, _⟩, hhas⟩ := hk.inv.pinned hp
  have hke := h₁.keeps_edit hf hu d
  have ⟨hi', hpins', hhas'⟩ := hke.inv.unpin i
  refine ⟨hi', fun k => ?_, fun k id hpos hh => hhas' k id <| hke.has k id ?_ <| hhas k id ?_ <| hk.has k id hpos hh⟩
  · rw [hpins', hke.pins, hpins, hk.pins]
    split <;> rfl
  · rw [hpins, hk.pins]
    split <;> omega
  · rw [hk.pins]
    exact hpos

end

end BufferPool

-- What all calls on a device keep, whether they succeed or not.
structure Device.Stable [Device σ] (P : σ → Prop) : Prop where
  count : P s → Device.countPages s = (res, s') → P s'
  read  : P s → Device.readPage s j = (res, s') → P s'
  write : P s → Device.writePage s w page = (res, s') → P s'
  alloc : P s → Device.allocatePage s = (res, s') → P s'
  log   : P s → Device.beforePageWrite s page = (res, s') → P s'
  touch : P s → P (Device.touch s i d)

namespace Device.Stable

variable [Device σ] {P : σ → Prop} {p q : BufferPool σ}

theorem steps (hs : Stable P) (st : BufferPool.Steps p q) (h : P p.dev) : P q.dev := by
  induction st
  case refl => exact h
  case tail _ st ih =>
    cases st
    case reframe hr => exact hr.dev ▸ ih
    case read => exact hs.read ih rfl
    case logFailed log => exact hs.log ih log
    case writeFailed log write => exact hs.write (hs.log ih log) write
    case flushed log write => exact hs.write (hs.log ih log) write

theorem fetch (hs : Stable P) (h : P p.dev) (hf : p.fetch j = (res, q)) : P q.dev := by
  rcases BufferPool.fetch_cases hf with ⟨_, _, st⟩ | ⟨_, _, _, st, hp⟩
  · exact hs.steps st h
  · exact hp.dev ▸ hs.steps st h

theorem edit (hs : Stable P) (h : P p.dev) (i : Nat) (d : Option PageData) : P (p.edit i d).dev := by
  cases d
  case none => exact h
  case some => exact hs.touch h

end Device.Stable

namespace Prog

variable [Device σ] {p : BufferPool σ}

theorem ReadOnly.exec {g : Prog α} (hg : g.ReadOnly) (hc : p.Clean) :
    (g.exec p).snd.Clean ∧ BufferPool.Reads p.dev (g.exec p).snd.dev := by
  induction g generalizing p
  case ret => exact ⟨hc, .refl⟩
  case numPages hi =>
    have ⟨hc', hr⟩ := hi _ (hg (Device.countPages p.dev).fst) (p := { p with dev := (Device.countPages p.dev).snd }) hc
    exact ⟨hc', .head (.inl rfl) hr⟩
  case newPage => cases hg
  case withPage id f k hi =>
    rw [Prog.exec]
    match h : p.fetch id with
    | (.error e, q) =>
      have ⟨hc, hr⟩ := hc.fetch h
      have ⟨hc', hr'⟩ := hi (.error e) (hg.right _) hc
      exact ⟨hc', hr.trans hr'⟩
    | (.ok i, q) =>
      have ⟨hc, hr⟩ := hc.fetch h
      have ⟨r, hf⟩ := hg.left (q.frameAt i).page.data
      simp only [hf]
      have ⟨hc', hr'⟩ := hi r (hg.right _) (hc.unpin i)
      exact ⟨hc', hr.trans (BufferPool.unpinFrame_dev q i ▸ hr')⟩

theorem ReadOnly.returns {g : Prog α} (hg : g.ReadOnly) (p : BufferPool σ) : ∃ a, (g.exec p).fst = some a := by
  induction g generalizing p
  case ret a => exact ⟨a, rfl⟩
  case numPages hi => exact hi _ (hg _) _
  case newPage => cases hg
  case withPage id f k hi =>
    rw [Prog.exec]
    match p.fetch id with
    | (.error e, q) => exact hi _ (hg.right _) q
    | (.ok i, q) =>
      have ⟨r, hf⟩ := hg.left (q.frameAt i).page.data
      simp only [hf]
      exact hi _ (hg.right _) _

-- What reading and adding pages keep, on a pool without dirty pages.
theorem NoEdit.exec {g : Prog α} (J : σ → Prop)
    (hread : ∀ s s', J s → BufferPool.Reads s s' → J s')
    (hnew : ∀ s res s', J s → Device.allocatePage s = (res, s') → J s' ∧
      ∀ page d st s'', res = .ok page →
        Device.writePage s' .direct { page with data := d, dirty := true } = (st, s'') → J s'')
    (hg : g.NoEdit) (hc : p.Clean) (hj : J p.dev) : (g.exec p).snd.Clean ∧ J (g.exec p).snd.dev := by
  induction g generalizing p
  case ret => exact ⟨hc, hj⟩
  case numPages hi =>
    exact hi _ (hg _) (p := { p with dev := (Device.countPages p.dev).snd }) hc <| hread _ _ hj <| .single <| .inl rfl
  case newPage d k hi =>
    rw [Prog.exec]
    split
    case h_1 dev ha => exact hi _ (hg _) (p := { p with dev }) hc (hnew _ _ _ hj ha).left
    case h_2 page dev ha =>
      have hj := (hnew _ _ _ hj ha).right page d
      split
      case h_1 dev hw => exact hi _ (hg _) (p := { p with dev }) hc (hj _ _ rfl hw)
      case h_2 dev hw => exact hi _ (hg _) (p := { p with dev }) hc (hj _ _ rfl hw)
  case withPage id f k hi =>
    rw [Prog.exec]
    match h : p.fetch id with
    | (.error e, q) =>
      have ⟨hc, hr⟩ := hc.fetch h
      exact hi _ (hg.right _) hc (hread _ _ hj hr)
    | (.ok i, q) =>
      have ⟨hc, hr⟩ := hc.fetch h
      have hj := hread _ _ hj hr
      rw [← BufferPool.unpinFrame_dev q i] at hj
      simp only
      split
      case h_1 => exact ⟨hc.unpin i, hj⟩
      case h_2 r d hf =>
        have hd : d = none := hg.left _ _ hf
        subst hd
        exact hi r (hg.right _) (hc.unpin i) hj

theorem exec_bind (g : Prog α) (k : α → Prog β) (p : BufferPool σ) :
    (g.bind k).exec p =
      match g.exec p with
      | (some a, q) => (k a).exec q
      | (none, q)   => (none, q) := by
  induction g generalizing p
  case ret => rfl
  case numPages hi => exact hi _ _
  case newPage hi =>
    rw [bind, exec, exec]
    split
    case h_1 => exact hi _ _
    case h_2 =>
      split
      case h_1 => exact hi _ _
      case h_2 => exact hi _ _
  case withPage hi =>
    rw [bind, exec, exec]
    split
    case h_1 => exact hi _ _
    case h_2 =>
      split
      case h_1 => rfl
      case h_2 => exact hi _ _

-- What every page call keeps, a program keeps.
theorem exec_rule (J : BufferPool σ → Prop)
    (hcount : ∀ p res s, J p → Device.countPages p.dev = (res, s) → J { p with dev := s })
    (hnew : ∀ p res s, J p → Device.allocatePage p.dev = (res, s) → J { p with dev := s } ∧
      ∀ page d st s', res = .ok page →
        Device.writePage s .direct { page with data := d, dirty := true } = (st, s') → J { p with dev := s' })
    (herr : ∀ p j e q, J p → p.fetch j = (.error e, q) → J q)
    (huse : ∀ p j i q d, J p → p.fetch j = (.ok i, q) → J ((q.edit i d).unpinFrame i))
    (g : Prog α) (hp : J p) : J (g.exec p).snd := by
  induction g generalizing p
  case ret => exact hp
  case numPages hi => exact hi _ <| hcount p _ _ hp rfl
  case newPage d k hi =>
    rw [Prog.exec]
    split
    case h_1 h => exact hi _ (hnew p _ _ hp h).left
    case h_2 page _ h =>
      have hj := (hnew p _ _ hp h).right page d
      split
      case h_1 hw => exact hi _ <| hj _ _ rfl hw
      case h_2 hw => exact hi _ <| hj _ _ rfl hw
  case withPage j f k hi =>
    rw [Prog.exec]
    split
    case h_1 h => exact hi _ <| herr p j _ _ hp h
    case h_2 h =>
      split
      case h_1 => exact huse p j _ _ none hp h
      case h_2 d _ => exact hi _ <| huse p j _ _ d hp h

-- What all calls on a device keep, a program keeps.
theorem exec_stable {P : σ → Prop} (hs : Device.Stable P) (g : Prog α) (h : P p.dev) : P (g.exec p).snd.dev := by
  refine exec_rule (fun p => P p.dev) ?_ ?_ ?_ ?_ g h
  · exact fun _ _ _ h hc => hs.count h hc
  · exact fun _ _ _ h ha => ⟨hs.alloc h ha, fun _ _ _ _ _ hw => hs.write (hs.alloc h ha) hw⟩
  · exact fun _ _ _ _ h hf => hs.fetch h hf
  · intro p j i q d h hf
    rw [BufferPool.unpinFrame_dev]
    exact hs.edit (hs.fetch h hf) i d

theorem exec_keeps (hi : p.Inv) (g : Prog α) : BufferPool.Keeps p (g.exec p).snd := by
  refine exec_rule (BufferPool.Keeps p) ?_ ?_ ?_ ?_ g ⟨hi, fun _ => rfl, fun _ _ _ h => h⟩
  · exact fun q _ s hk _ => hk.trans <| hk.inv.keeps_dev s
  · exact fun q _ s hk _ => ⟨hk.trans <| hk.inv.keeps_dev s, fun _ _ _ s' _ _ => hk.trans <| hk.inv.keeps_dev s'⟩
  · intro q j e q' hk hf
    rcases BufferPool.fetch_cases hf with ⟨_, _, st⟩ | ⟨_, _, hr, _⟩
    · exact hk.trans <| hk.inv.keeps_steps st
    · cases hr
  · exact fun q j i q' d hk hf => hk.trans <| hk.inv.keeps_use hf d

end Prog
end NexusDb
