import NexusDb.Manager.Theorems.Persisted

namespace NexusDb

theorem Registry.nextId_containerAdopt {r : Registry} :
    (r.containerAdopt name ident memory cpu engine cgroup pid state now).snd.nextId = r.nextId := by
  rw [containerAdopt]
  repeat' split
  all_goals rfl

theorem Registry.nextId_containerDelete {r : Registry} :
    (r.containerDelete name os).snd.snd.nextId = r.nextId := by
  rw [containerDelete]
  repeat' split
  all_goals rfl

theorem World.nextId_adopt (w : World) (name : Text) (now : Int) :
    (w.adopt name now).snd.registry.nextId = w.registry.nextId := by
  rw [adopt]
  split
  case h_1 => rfl
  case h_2 =>
    simp only
    split
    all_goals exact Registry.nextId_containerAdopt

theorem World.nextId_containerDelete {w : World} :
    (w.containerDelete name o).snd.registry.nextId = w.registry.nextId := by
  have hadopt := w.nextId_adopt name o.os.now
  rw [containerDelete]
  split
  case isTrue => rfl
  case isFalse =>
    split
    case h_1 ha => rw [ha] at hadopt; exact hadopt
    case h_2 w₁ ha =>
      rw [ha] at hadopt
      simp only
      split
      case h_1 => exact Registry.nextId_containerDelete.trans hadopt
      case h_2 =>
        rw [removeMeta]
        split
        all_goals exact Registry.nextId_containerDelete.trans hadopt

theorem World.step_registered {w : World} (h : w.register name memory cpu engine o = (.ok m, w₁)) :
    (w.step (.call (.create name memory cpu engine) o)).files = leave w₁.files m o.write ∧
      (w.step (.call (.create name memory cpu engine) o)).registry.nextId = w₁.registry.nextId := by
  rw [step, call, containerCreate, h]
  cases o.write
  · exact ⟨rfl, rfl⟩
  · exact ⟨rfl, rfl⟩

-- The creation that wrote a file: its process, its number among the creations of the process, and how
-- much of the record is in the file.
structure Origin where
  process : Nat
  number  : Nat
  record  : ContainerMeta
  upTo    : Nat

-- The part of the id that is in the file, whose first line is the one of the name.
def Origin.writtenId (x : Origin) : Text :=
  (Registry.idText (UInt64.ofNat x.number)).take (x.upTo - (x.record.name.length + 9))

-- The file has the record, perhaps without the last newline.
def Origin.Whole (x : Origin) : Prop :=
  x.record.text.length ≤ x.upTo + 1

inductive IdCommand
  | create (name : Text) (memory : UInt64) (cpu : UInt32) (engine : Text) (o : Outcome)
  | delete (name : Text) (o : Outcome)
  | newProcess

-- The world with the origins of its files, and how many containers the current process has created.
structure Issued where
  world   : World
  process : Nat := 0
  made    : Nat := 0
  origin  : Text → Option Origin := fun _ => none

namespace Issued

def step (s : Issued) : IdCommand → Issued
  | .create name memory cpu engine o =>
    let world := s.world.step (.call (.create name memory cpu engine) o)
    match (s.world.register name memory cpu engine o).fst, o.write with
    | .error _, _             => { s with world }
    | .ok _, .untouched       => { s with world, made := s.made + 1 }
    | .ok m, .written upTo _  =>
      { s with world
               made   := s.made + 1
               origin := Function.update s.origin name (some ⟨s.process, s.made + 1, m, upTo⟩) }
  | .delete name o                   =>
    let world := s.world.step (.call (.delete name) o)
    { s with world
             origin := if world.files name = none then Function.update s.origin name none else s.origin }
  | .newProcess                      =>
    { s with world := s.world.step .newProcess, process := s.process + 1, made := 0 }

def run (s : Issued) : List IdCommand → Issued
  | []      => s
  | c :: cs => (s.step c).run cs

end Issued

-- What is known of a file with an origin.
structure Origin.Describes (x : Origin) (name : Text) (text : Option Text) : Prop where
  named : x.record.name = name
  valid : Container.nameValid name
  id    : x.record.id = Registry.idText (UInt64.ofNat x.number)
  pid   : x.record.pid = -1
  state : x.record.state = Container.State.created.code
  file  : text = some (x.record.text.take x.upTo)

theorem Origin.Describes.id_load {text : Option Text} (h : Origin.Describes x name text) (hp : x.record.Plain) :
    (text.map (ContainerMeta.load name)).map (·.id) = some x.writtenId := by
  have hn : '\n' ∉ x.record.name := h.named ▸ World.newline_not_mem_of_nameValid h.valid
  rw [h.file, Option.map_some, Option.map_some, ContainerMeta.load_take_id hp hn, h.id]
  rfl

theorem Origin.Describes.writtenId_whole {text : Option Text} (h : Origin.Describes x name text)
    (hw : x.Whole) : x.writtenId = Registry.idText (UInt64.ofNat x.number) := by
  have hlength : x.record.name.length + x.record.id.length + 11 ≤ x.record.text.length := by
    simp [ContainerMeta.text, ContainerMeta.entries, KeyValue.encode, KeyValue.length_line]
    omega
  rw [h.id] at hlength
  rw [Whole] at hw
  exact List.take_of_length_le (by omega)

namespace Issued

variable {s : Issued} {name : Text}

structure Sound (s : Issued) : Prop where
  counter : s.world.registry.nextId = UInt64.ofNat (s.made + 1)
  absent  : ∀ a, s.origin a = none → s.world.files a = none
  present : ∀ a x, s.origin a = some x → x.Describes a (s.world.files a)
  before  : ∀ a x, s.origin a = some x → x.process < s.process ∨ x.process = s.process ∧ x.number ≤ s.made
  inj     : ∀ a b x y, s.origin a = some x → s.origin b = some y → x.process = y.process →
              x.number = y.number → a = b

theorem Sound.init : Sound { world := { dataRoot } } where
  counter              := rfl
  absent _ _           := rfl
  present _ _ hx       := nomatch hx
  before _ _ hx        := nomatch hx
  inj _ _ _ _ hx _ _ _ := nomatch hx

-- The container is created. Its record may not reach a file.
theorem Sound.made (h : Sound s) (hfiles : w.files = s.world.files)
    (hcounter : w.registry.nextId = s.world.registry.nextId + 1) :
    Sound { s with world := w, made := s.made + 1 } where
  counter := by
    rw [hcounter, h.counter, UInt64.ofNat_add (s.made + 1)]
    rfl
  absent a ha := by
    rw [hfiles]
    exact h.absent a ha
  present a x hx := by
    rw [hfiles]
    exact h.present a x hx
  before a x hx := by
    have hb := h.before a x hx
    simp only
    omega
  inj := h.inj

-- A file is written for a container that is the last one so far.
theorem Sound.written (h : Sound s) (hfiles : w.files = Function.update s.world.files name text)
    (hcounter : w.registry.nextId = s.world.registry.nextId) (hx : x.Describes name text)
    (hlast : x.process = s.process ∧ x.number = s.made)
    (hnew : ∀ b y, s.origin b = some y → y.process = s.process → y.number ≠ s.made) :
    Sound { s with world := w, origin := Function.update s.origin name (some x) } where
  counter := hcounter.trans h.counter
  absent a ha := by
    simp only [Function.update_apply] at ha
    split at ha
    case isTrue => cases ha
    case isFalse hne =>
      rw [hfiles, Function.update_of_ne hne]
      exact h.absent a ha
  present a y hy := by
    simp only [Function.update_apply] at hy
    rw [hfiles, Function.update_apply]
    split at hy
    case isTrue heq => cases hy; rw [if_pos heq, heq]; exact hx
    case isFalse hne => rw [if_neg hne]; exact h.present a y hy
  before a y hy := by
    simp only [Function.update_apply] at hy
    split at hy
    case isTrue => cases hy; exact .inr ⟨hlast.left, Nat.le_of_eq hlast.right⟩
    case isFalse => exact h.before a y hy
  inj a b y z hy hz hp hn := by
    simp only [Function.update_apply] at hy hz
    split at hy <;> split at hz
    case isTrue.isTrue ha hb => rw [ha, hb]
    case isTrue.isFalse =>
      cases hy
      exact absurd (hn ▸ hlast.right) (hnew b z hz (hp ▸ hlast.left))
    case isFalse.isTrue =>
      cases hz
      exact absurd (hn ▸ hlast.right) (hnew a y hy (hp ▸ hlast.left))
    case isFalse.isFalse => exact h.inj a b y z hy hz hp hn

theorem Sound.removed (h : Sound s) (hfiles : w.files = Function.update s.world.files name none)
    (hcounter : w.registry.nextId = s.world.registry.nextId) :
    Sound { s with world := w, origin := Function.update s.origin name none } := by
  have hold : ∀ {a x}, Function.update s.origin name none a = some x → a ≠ name ∧ s.origin a = some x := by
    intro a x hx
    rw [Function.update_apply] at hx
    split at hx
    case isTrue => cases hx
    case isFalse hne => exact ⟨hne, hx⟩
  refine ⟨hcounter.trans h.counter, fun a ha => ?_, fun a x hx => ?_, fun a x hx => h.before a x (hold hx).right,
    fun a b x y hx hy => h.inj a b x y (hold hx).right (hold hy).right⟩
  · simp only [Function.update_apply] at ha
    rw [hfiles, Function.update_apply]
    split
    case isTrue => rfl
    case isFalse hne =>
      rw [if_neg hne] at ha
      exact h.absent a ha
  · have ⟨hne, hx⟩ := hold hx
    rw [hfiles, Function.update_of_ne hne]
    exact h.present a x hx

-- Nothing that is counted or written changes.
theorem Sound.same (h : Sound s) (hfiles : w.files = s.world.files)
    (hcounter : w.registry.nextId = s.world.registry.nextId) : Sound { s with world := w } where
  counter        := hcounter.trans h.counter
  absent a ha    := hfiles ▸ h.absent a ha
  present a x hx := by
    rw [hfiles]
    exact h.present a x hx
  before         := h.before
  inj            := h.inj

theorem Sound.newProcess (h : Sound s) : Sound (s.step .newProcess) where
  counter        := rfl
  absent         := h.absent
  present        := h.present
  before a x hx  := by
    have hb := h.before a x hx
    simp only [Issued.step]
    omega
  inj            := h.inj

theorem Sound.delete (h : Sound s) : Sound (s.step (.delete name o)) := by
  have hcounter : (s.world.step (.call (.delete name) o)).registry.nextId = s.world.registry.nextId :=
    World.nextId_containerDelete
  have hcases := World.containerDelete_cases (s.world.containerDelete name o).eta.symm
  rw [Issued.step]
  rcases hcases.right with hfiles | ⟨hfiles, _⟩
  · have hfiles : (s.world.step (.call (.delete name) o)).files = s.world.files := hfiles
    split
    case isFalse => exact h.same hfiles hcounter
    case isTrue hnone =>
      refine h.removed ?_ hcounter
      rw [hfiles] at hnone ⊢
      rw [← hnone, Function.update_eq_self]
  · have hfiles : (s.world.step (.call (.delete name) o)).files = Function.update s.world.files name none := hfiles
    rw [if_pos (by rw [hfiles, Function.update_self])]
    exact h.removed hfiles hcounter

theorem Sound.create (h : Sound s) : Sound (s.step (.create name memory cpu engine o)) := by
  rcases hr : s.world.register name memory cpu engine o with ⟨res, w⟩
  obtain ⟨hfiles, _, hcases⟩ := World.register_cases hr
  rw [Issued.step, hr]
  rcases hcases with ⟨e, hres, hreg⟩ | ⟨m, hres, hreg⟩
  · have hstep : (s.world.step (.call (.create name memory cpu engine) o)).files = s.world.files ∧
        (s.world.step (.call (.create name memory cpu engine) o)).registry = s.world.registry := by
      rw [World.step, World.call, World.containerCreate, hr, hres]
      exact ⟨hfiles, hreg⟩
    rw [hres]
    exact h.same hstep.left (congrArg Registry.nextId hstep.right)
  · rw [hres] at hr ⊢
    obtain ⟨hf, hc⟩ := World.step_registered hr
    rw [hfiles] at hf
    rw [hreg.counter] at hc
    generalize s.world.step (.call (.create name memory cpu engine) o) = w' at hf hc
    cases hw : o.write
    case untouched =>
      rw [hw] at hf
      exact h.made hf hc
    case written upTo ok =>
      rw [hw] at hf
      have hname : m.name = name := by rw [hreg.record]
      have hmade := h.made (w := { w' with files := s.world.files }) rfl hc
      have hupdate : w'.files = Function.update s.world.files name (some (m.text.take upTo)) := by
        rw [hf, ← hname]
        rfl
      refine hmade.written (x := ⟨s.process, s.made + 1, m, upTo⟩) hupdate rfl ?_ ⟨rfl, rfl⟩
        fun b y hy (hp : y.process = s.process) => ?_
      · refine ⟨hname, hreg.valid, ?_, ?_, ?_, rfl⟩
        all_goals rw [hreg.record]
        rw [h.counter]
      · have hb := h.before b y hy
        simp only
        omega

theorem Sound.step (h : Sound s) (c : IdCommand) : Sound (s.step c) := by
  cases c
  case create => exact h.create
  case delete => exact h.delete
  case newProcess => exact h.newProcess

theorem Sound.run (h : Sound s) (cs : List IdCommand) : Sound (s.run cs) := by
  induction cs generalizing s
  case nil => exact h
  case cons c cs hi => exact hi (h.step c)

theorem Sound.id_loadMeta (h : Sound s) (hx : s.origin name = some x) (hp : x.record.Plain) :
    (s.world.loadMeta name).map (·.id) = some x.writtenId :=
  (h.present name x hx).id_load hp

theorem Sound.origin_isSome (h : Sound s) : (s.origin name).isSome ↔ (s.world.loadMeta name).isSome := by
  rw [World.loadMeta, Option.isSome_map]
  cases hx : s.origin name
  case none => simp [h.absent name hx]
  case some x => simp [(h.present name x hx).file]

-- Two containers whose metadata is persisted have different ids.
def Identified (s : Issued) : Prop :=
  ∀ a b m m', a ≠ b → s.world.loadMeta a = some m → s.world.loadMeta b = some m' → m.id ≠ m'.id

theorem Sound.identified_iff (h : Sound s) (hp : ∀ a x, s.origin a = some x → x.record.Plain) :
    s.Identified ↔ ∀ a b x y, a ≠ b → s.origin a = some x → s.origin b = some y → x.writtenId ≠ y.writtenId := by
  constructor
  case mp =>
    intro hids a b x y hne hx hy heq
    obtain ⟨m, hm, hid⟩ := Option.map_eq_some_iff.mp (h.id_loadMeta hx (hp a x hx))
    obtain ⟨m', hm', hid'⟩ := Option.map_eq_some_iff.mp (h.id_loadMeta hy (hp b y hy))
    exact hids a b m m' hne hm hm' (by rw [hid, hid', heq])
  case mpr =>
    intro hwritten a b m m' hne hm hm' heq
    obtain ⟨x, hx⟩ := Option.isSome_iff_exists.mp (h.origin_isSome.mpr (Option.isSome_of_eq_some hm))
    obtain ⟨y, hy⟩ := Option.isSome_iff_exists.mp (h.origin_isSome.mpr (Option.isSome_of_eq_some hm'))
    have hid := h.id_loadMeta hx (hp a x hx)
    have hid' := h.id_loadMeta hy (hp b y hy)
    rw [hm, Option.map_some, Option.some_inj] at hid
    rw [hm', Option.map_some, Option.some_inj] at hid'
    exact hwritten a b x y hne hx hy (by rw [← hid, ← hid', heq])

-- The ids are the numbers of the creations, which begin again with every process. When the records are in their
-- files as a whole, they differ as the numbers do.
theorem ids_differ_iff (dataRoot : String) (commands : List IdCommand) :
    let s := run { world := { dataRoot } } commands
    ((∀ a x, s.origin a = some x → x.record.Plain) →
      (s.Identified ↔
        ∀ a b x y, a ≠ b → s.origin a = some x → s.origin b = some y → x.writtenId ≠ y.writtenId)) ∧
    (∀ a b x y, s.origin a = some x → s.origin b = some y → x.Whole → y.Whole →
      (x.writtenId = y.writtenId ↔ UInt64.ofNat x.number = UInt64.ofNat y.number)) ∧
    (∀ a, (s.origin a).isSome ↔ (s.world.loadMeta a).isSome) ∧
    ∀ a b x y, a ≠ b → s.origin a = some x → s.origin b = some y → x.process = y.process →
      x.number ≠ y.number := by
  intro s
  have hs : Sound s := Sound.init.run commands
  refine ⟨hs.identified_iff, fun a b x y hx hy hwx hwy => ?_, fun _ => hs.origin_isSome,
    fun a b x y hne hx hy hp hn => hne (hs.inj a b x y hx hy hp hn)⟩
  rw [(hs.present a x hx).writtenId_whole hwx, (hs.present b y hy).writtenId_whole hwy]
  exact ⟨Registry.idText_injective, congrArg _⟩

-- Two containers are created, each by a process of its own.
def separately : List IdCommand :=
  [ .create nameA 0 0 [] { write := .written 1000 true, pidFits := World.noSpawn_fits },
    .newProcess,
    .create nameB 0 0 [] { write := .written 1000 true, pidFits := World.noSpawn_fits } ]

theorem separately_same_id :
    let w := (run { world := {} } separately).world
    (w.loadMeta nameA).map (·.id) = some (Registry.idText 1) ∧
    (w.loadMeta nameB).map (·.id) = some (Registry.idText 1) := by
  decide +kernel

end Issued
end NexusDb
