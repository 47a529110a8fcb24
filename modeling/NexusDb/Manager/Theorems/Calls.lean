import NexusDb.Container.Theorems.Registry
import NexusDb.Manager.Theorems.Metadata

namespace NexusDb

theorem Container.State.code_ofInt {s : Container.State} (h : State.ofInt n = some s) : s.code = n := by
  rw [ofInt.eq_def] at h
  split at h <;> cases h <;> rfl

theorem fromContainerRc_ok (h : fromContainerRc rc what = .ok ()) : rc = .ok := by
  cases rc
  case ok => rfl
  all_goals cases h

namespace Registry

variable {r r' : Registry} {name : Text}

theorem containerAdopt_ok {state pid : Int}
    (h : r.containerAdopt name ident memory cpu engine cgroup pid state now = (.ok, r')) :
    Container.nameValid name ∧ (∃ s : Container.State, s.code = state) ∧
      ∃ i c, r' = r.setSlot i c ∧ r'.find? name = some (i, c) ∧ c.state.code = state ∧ c.pid = pid := by
  rw [containerAdopt] at h
  split at h
  case isTrue => cases h
  case isFalse hn =>
    split at h
    case isTrue => cases h
    case isFalse =>
      split at h
      case h_1 => cases h
      case h_2 s hs =>
        have hcode := Container.State.code_ofInt hs
        iterate 3 split at h; next => cases h
        split at h
        case h_1 => cases h
        case h_2 i hslot =>
          cases h
          exact ⟨by simpa using hn, ⟨s, hcode⟩, i, _, rfl, find?_setSlot hslot, hcode, rfl⟩

theorem containerStart_ok (h : r.containerStart name os = (.ok, events, r')) :
    ∃ i c, r.find? name = some (i, c) ∧ c.state ≠ .running ∧ 0 < os.spawn ∧
      r' = r.setSlot i { c with pid := os.spawn, state := .running } := by
  rw [containerStart] at h
  split at h
  case isTrue => cases h
  case isFalse =>
    split at h
    case h_1 => cases h
    case h_2 i c hfind =>
      split at h
      case isTrue => cases h
      case isFalse hst =>
        split at h
        case isTrue => cases h
        case isFalse =>
          split at h
          case h_1 => cases h
          case h_2 =>
            simp only at h
            split at h
            case isTrue => cases h
            case isFalse hpid =>
              iterate 2 split at h; next => cases h
              cases h
              refine ⟨i, c, hfind, fun hr => hst ?_, by omega, rfl⟩
              rw [hr]
              exact ⟨by rintro ⟨⟩, by rintro ⟨⟩⟩

theorem containerStop_ok (h : r.containerStop name os = (.ok, events, r')) :
    ∃ i c, r.find? name = some (i, c) ∧ c.state = .running := by
  rw [containerStop] at h
  split at h
  case isTrue => cases h
  case isFalse =>
    split at h
    case h_1 => cases h
    case h_2 i c hfind =>
      split at h
      case isTrue => cases h
      case isFalse hst => exact ⟨i, c, hfind, not_not.mp hst⟩

theorem containerDelete_ok (h : r.containerDelete name os = (.ok, events, r')) :
    ∃ i c, r.find? name = some (i, c) ∧ c.state ≠ .running := by
  rw [containerDelete] at h
  split at h
  case isTrue => cases h
  case isFalse =>
    split at h
    case h_1 => cases h
    case h_2 i c hfind =>
      split at h
      case isTrue => cases h
      case isFalse hst => exact ⟨i, c, hfind, hst⟩

end Registry

namespace World

variable {w w' : World} {name : Text} {m : ContainerMeta} {x : Workload} {o : Outcome}

-- The files after a write.
def leave (files : Text → Option Text) (m : ContainerMeta) : MetaWrite → Text → Option Text
  | .untouched      => files
  | .written upTo _ => Function.update files m.name (some (m.text.take upTo))

theorem files_saveMeta : (w.saveMeta m write).snd.files = leave w.files m write := by
  cases write <;> rfl

theorem workloads_saveMeta : (w.saveMeta m write).snd.workloads = w.workloads := by
  cases write <;> rfl

-- What is loaded can be written again.
theorem loadMeta_plain (h : w.loadMeta name = some m) : m.Plain := by
  have ⟨text, _, hm⟩ := Option.map_eq_some_iff.mp h
  rw [← hm]
  exact ContainerMeta.load_plain name text

theorem newline_not_mem_of_nameValid (h : Container.nameValid name) : '\n' ∉ name := by
  intro hm
  simp only [Container.nameValid, Bool.and_eq_true, List.all_eq_true] at h
  exact absurd (h.right _ hm) (by decide)

-- The record that an adoption restores is the one of the metadata, under the name that stands there.
structure Adopted (w w' : World) (name : Text) (m : ContainerMeta) : Prop where
  loaded : w.loadMeta name = some m
  valid  : Container.nameValid m.name
  state  : ∃ s : Container.State, s.code = m.state
  slot   : ∃ i c, w'.registry = w.registry.setSlot i c ∧ w'.registry.find? m.name = some (i, c) ∧
    c.state.code = m.state ∧ c.pid = m.pid

-- In a new process there is no other record.
theorem Adopted.fresh (ha : Adopted w w' name m) (hr : w.registry = {})
    (hf : w'.registry.find? name' = some (j, d)) : m.name = name' := by
  have ⟨i, c, hset, hfind, _⟩ := ha.slot
  have ⟨hd, hdn⟩ := Registry.find?_some hf
  have ⟨_, hcn⟩ := Registry.find?_some hfind
  rw [hset, hr, Registry.slots_setSlot] at hd
  split at hd
  case isFalse => cases hd
  case isTrue => cases hd; exact hcn.symm.trans hdn

theorem adopt_cases (h : w.adopt name now = (res, w')) :
    w'.files = w.files ∧ w'.workloads = w.workloads ∧ ∀ m, res = .ok m → Adopted w w' name m := by
  rw [adopt] at h
  split at h
  case h_1 => cases h; exact ⟨rfl, rfl, nofun⟩
  case h_2 m hm =>
    match hr : w.registry.containerAdopt m.name m.id m.memory m.cpu m.engine m.cgroup m.pid m.state now with
    | (rc, registry) =>
      rw [hr] at h
      simp only at h
      split at h
      case h_1 => cases h; exact ⟨rfl, rfl, nofun⟩
      case h_2 hrc =>
        cases h
        rw [fromContainerRc_ok hrc] at hr
        have ⟨hv, hs, hslot⟩ := Registry.containerAdopt_ok hr
        refine ⟨rfl, rfl, fun _ he => ?_⟩
        cases he
        exact ⟨hm, hv, hs, hslot⟩

-- What a start has done when it saves the metadata.
structure Launched (w : World) (name : Text) (o : Outcome) (m : ContainerMeta) (x : Workload) (w' : World) :
    Prop where
  loaded : ∃ m₀, w.loadMeta name = some m₀ ∧ m₀.state ≠ Container.State.running.code ∧
    m = { m₀ with pid := x.pid, state := Container.State.running.code }
  named  : x.name = name
  valid  : Container.nameValid m.name
  pos    : 0 < x.pid
  fits   : x.pid < 2 ^ 31
  files  : w'.files = w.files
  added  : w'.workloads = w.workloads ++ [x]
  fresh  : w.registry = {} → m.name = name

theorem launch_cases (h : w.launch name o = (res, w')) :
    (∃ e, res = .error e ∧ w'.files = w.files ∧ w'.workloads = w.workloads) ∨
    (∃ m x, res = .ok (m, x) ∧ Launched w name o m x w') := by
  rw [launch] at h
  split at h
  case isTrue => cases h; exact .inl ⟨_, rfl, rfl, rfl⟩
  case isFalse =>
    match ha : w.adopt name o.os.now with
    | (.error e, w₁) =>
      have ⟨hf, hw, _⟩ := adopt_cases ha
      rw [ha] at h
      cases h
      exact .inl ⟨e, rfl, hf, hw⟩
    | (.ok m₀, w₁) =>
      have ⟨hf, hw, had⟩ := adopt_cases ha
      have had := had m₀ rfl
      rw [ha] at h
      simp only at h
      split at h
      case isTrue => cases h; exact .inl ⟨_, rfl, hf, hw⟩
      case isFalse hstate =>
        match hs : w₁.registry.containerStart name o.os with
        | (rc, events, registry) =>
          rw [hs] at h
          simp only at h
          split at h
          case h_1 => cases h; exact .inl ⟨_, rfl, hf, hw⟩
          case h_2 hrc =>
            rw [fromContainerRc_ok hrc] at hs
            have ⟨i, c, hfind, _, hpos, hreg⟩ := Registry.containerStart_ok hs
            have ⟨hslot, hname⟩ := Registry.find?_some hfind
            have hfound : registry.find? name = some (i, { c with pid := o.os.spawn, state := .running }) := by
              have ⟨j, hj, hm⟩ := Option.bind_eq_some_iff.mp hfind
              have ⟨d, hd, he⟩ := Option.map_eq_some_iff.mp hm
              cases he
              have hor : (w₁.registry.findSlot c.name).or w₁.registry.freeSlot = some i := by
                rw [hname, hj, Option.some_or]
              rw [hreg, ← hname]
              exact Registry.find?_setSlot (c := { c with pid := o.os.spawn, state := .running }) hor
            simp only [hfound, Option.map_some, Option.getD_some] at h
            cases h
            exact .inr ⟨_, _, rfl, ⟨m₀, had.loaded, hstate, rfl⟩, rfl, had.valid, hpos, o.pidFits, hf,
              congrArg (· ++ _) hw, fun hr => had.fresh hr hfind⟩

-- What a stop has done when it saves the metadata.
structure Halted (w : World) (name : Text) (m : ContainerMeta) (w' : World) : Prop where
  loaded : ∃ m₀, w.loadMeta name = some m₀ ∧ m = { m₀ with pid := -1, state := Container.State.stopped.code }
  valid  : Container.nameValid m.name
  files  : w'.files = w.files
  same   : w'.workloads = w.workloads
  fresh  : w.registry = {} → m.name = name

theorem halt_cases (h : w.halt name o = (res, w')) :
    (∃ e, res = .error e ∧ w'.files = w.files ∧ w'.workloads = w.workloads) ∨
    (∃ m, res = .ok m ∧ Halted w name m w') := by
  rw [halt] at h
  split at h
  case isTrue => cases h; exact .inl ⟨_, rfl, rfl, rfl⟩
  case isFalse =>
    match ha : w.adopt name o.os.now with
    | (.error e, w₁) =>
      have ⟨hf, hw, _⟩ := adopt_cases ha
      rw [ha] at h
      cases h
      exact .inl ⟨e, rfl, hf, hw⟩
    | (.ok m₀, w₁) =>
      have ⟨hf, hw, had⟩ := adopt_cases ha
      have had := had m₀ rfl
      rw [ha] at h
      match hs : w₁.registry.containerStop name o.os with
      | (rc, events, registry) =>
        simp only [hs] at h
        split at h
        case h_1 => cases h; exact .inl ⟨_, rfl, hf, hw⟩
        case h_2 hrc =>
          cases h
          rw [fromContainerRc_ok hrc] at hs
          have ⟨i, c, hfind, _⟩ := Registry.containerStop_ok hs
          exact .inr ⟨_, rfl, ⟨m₀, had.loaded, rfl⟩, had.valid, hf, hw, fun hr => had.fresh hr hfind⟩

-- What a creation has done when it saves the metadata.
structure Registered (w : World) (name : Text) (memory : UInt64) (cpu : UInt32) (engine : Text) (o : Outcome)
    (m : ContainerMeta) (w' : World) : Prop where
  valid   : Container.nameValid name
  absent  : w.loadMeta name = none
  record  : m = { name, memory, cpu, engine
                  id     := Registry.idText w.registry.nextId
                  cgroup := o.os.cgroupCreate.snd }
  counter : w'.registry.nextId = w.registry.nextId + 1

theorem register_cases (h : w.register name memory cpu engine o = (res, w')) :
    w'.files = w.files ∧ w'.workloads = w.workloads ∧
      ((∃ e, res = .error e ∧ w'.registry = w.registry) ∨
        ∃ m, res = .ok m ∧ Registered w name memory cpu engine o m w') := by
  rw [register] at h
  split at h
  case isTrue => cases h; exact ⟨rfl, rfl, .inl ⟨_, rfl, rfl⟩⟩
  case isFalse hvalid =>
    split at h
    case isTrue => cases h; exact ⟨rfl, rfl, .inl ⟨_, rfl, rfl⟩⟩
    case isFalse hn =>
      split at h
      case h_1 => cases h; exact ⟨rfl, rfl, .inl ⟨_, rfl, rfl⟩⟩
      case h_2 =>
        match hc : w.registry.containerCreateEx name memory cpu (if engine = [] then none else some engine) none o.os with
        | (rc, registry) =>
          simp only [hc] at h
          split at h
          case h_1 hrc =>
            cases h
            rcases Registry.containerCreateEx_cases hc with ⟨hok, _⟩ | ⟨_, hr⟩
            · rw [hok] at hrc
              cases hrc
            · exact ⟨rfl, rfl, .inl ⟨_, rfl, hr⟩⟩
          case h_2 hrc =>
            rcases Registry.containerCreateEx_cases hc with ⟨_, i, hmade⟩ | ⟨hne, _⟩
            · simp only [hmade.find?, Option.map_some, Option.getD_some] at h
              cases h
              refine ⟨rfl, rfl, .inr ⟨_, rfl, hmade.valid, by simpa using hn, rfl, ?_⟩⟩
              rw [hmade.made]
            · exact absurd (fromContainerRc_ok hrc) hne

theorem containerDelete_cases (h : w.containerDelete name o = (res, w')) :
    w'.workloads = w.workloads ∧ (w'.files = w.files ∨ w'.files = Function.update w.files name none ∧
      ∃ m, w.loadMeta name = some m ∧ (m.name = name → m.state ≠ Container.State.running.code)) := by
  rw [containerDelete] at h
  split at h
  case isTrue => cases h; exact ⟨rfl, .inl rfl⟩
  case isFalse =>
    match ha : w.adopt name o.os.now with
    | (.error e, w₁) =>
      have ⟨hf, hw, _⟩ := adopt_cases ha
      rw [ha] at h
      cases h
      exact ⟨hw, .inl hf⟩
    | (.ok m, w₁) =>
      have ⟨hf, hw, had⟩ := adopt_cases ha
      have had := had m rfl
      rw [ha] at h
      simp only at h
      match hd : w₁.registry.containerDelete name o.os with
      | (rc, events, registry) =>
        rw [hd] at h
        simp only at h
        split at h
        case h_1 => cases h; exact ⟨hw, .inl hf⟩
        case h_2 hrc =>
          rw [fromContainerRc_ok hrc] at hd
          rw [removeMeta] at h
          cases h
          split
          case isFalse => exact ⟨hw, .inl hf⟩
          case isTrue =>
            refine ⟨hw, .inr ⟨by rw [hf], m, had.loaded, fun hn hr => ?_⟩⟩
            have ⟨i, c, hfind, hc⟩ := Registry.containerDelete_ok hd
            have ⟨j, d, _, hfind', hd', _⟩ := had.slot
            rw [hn, hfind] at hfind'
            cases hfind'
            rw [hr] at hd'
            cases hst : c.state
            all_goals rw [hst] at hd' hc
            case running => exact hc rfl
            all_goals cases hd'

end World
end NexusDb
