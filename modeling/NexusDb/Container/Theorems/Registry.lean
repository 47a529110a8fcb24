import NexusDb.Container.Container

namespace NexusDb

namespace Registry

-- What a call that succeeds does to the registry.
inductive Effect (r : Registry) : ContainerCall → List ProcessEvent → Registry → Prop
  | create (named : c.name = name)
      (free : r.slots i = none ∧ (∀ j d, r.slots j = some d → d.name ≠ name) ∨
        ∃ d, r.slots i = some d ∧ d.state = .deleted ∧ d.name = name)
      (state : c.state = .created) (pid : c.pid = -1) (id : c.id = idText r.nextId) :
      Effect r (.create name memory cpu engine ns) [] { r.setSlot i c with nextId := r.nextId + 1 }
  | start (slot : r.slots i = some c) (named : c.name = name)
      (state : c.state = .created ∨ c.state = .stopped) (pos : 0 < pid) :
      Effect r (.start name) [.spawn spec pid, .attach c.cgroupPath pid .ok, .release pid true]
        (r.setSlot i { c with pid, state := .running })
  | stop (slot : r.slots i = some c) (named : c.name = name) (state : c.state = .running) :
      Effect r (.stop name) events (r.setSlot i { c with pid := -1, state := .stopped })
  | delete (slot : r.slots i = some c) (named : c.name = name)
      (state : c.state = .created ∨ c.state = .stopped) :
      Effect r (.delete name) events (r.setSlot i { c with pid := -1, state := .deleted })

variable {r r' : Registry} {name : Text} {i : Fin maxContainers} {c d : Container}

theorem findSlot_some (h : r.findSlot name = some i) : ∃ c, r.slots i = some c ∧ c.name = name := by
  have hp := List.find?_some h
  cases hs : r.slots i
  case none => simp [hs] at hp
  case some c => exact ⟨c, rfl, by simpa [hs] using hp⟩

theorem findSlot_none (h : r.findSlot name = none) (hs : r.slots i = some c) : c.name ≠ name := by
  have hp := List.find?_eq_none.mp h i (List.mem_finRange i)
  simpa [hs] using hp

theorem freeSlot_some (h : r.freeSlot = some i) : r.slots i = none := by
  simpa using List.find?_some h

theorem find?_some (h : r.find? name = some (i, c)) : r.slots i = some c ∧ c.name = name := by
  have ⟨j, hj, hm⟩ := Option.bind_eq_some_iff.mp h
  have ⟨d, hd, he⟩ := Option.map_eq_some_iff.mp hm
  cases he
  have ⟨c, hc, hn⟩ := findSlot_some hj
  cases hd.symm.trans hc
  exact ⟨hd, hn⟩

theorem find?_none (h : r.find? name = none) : r.findSlot name = none := by
  cases hf : r.findSlot name
  case none => rfl
  case some i =>
    have ⟨c, hc, _⟩ := findSlot_some hf
    simp [find?, hf, hc] at h

theorem slots_setSlot : (r.setSlot i c).slots j = if j = i then some c else r.slots j := by
  simp [setSlot, Function.update_apply]

-- What holds of every record after one of them was replaced.
theorem forall_setSlot {P : Fin maxContainers → Container → Prop} (hr : r'.slots = (r.setSlot i c).slots)
    (hc : P i c) (h : ∀ j d, j ≠ i → r.slots j = some d → P j d) : ∀ j d, r'.slots j = some d → P j d := by
  intro j d hd
  rw [hr, slots_setSlot] at hd
  split at hd
  case isTrue hj => cases hd; exact hj ▸ hc
  case isFalse hj => exact h j d hj hd

-- The names identify the slots.
def Named (r : Registry) : Prop :=
  ∀ i j c d, r.slots i = some c → r.slots j = some d → c.name = d.name → i = j

-- A slot gets a record whose name no other slot has.
theorem Named.setSlot (h : r.Named) (hr : r'.slots = (r.setSlot i c).slots)
    (hother : ∀ j d, r.slots j = some d → j ≠ i → d.name ≠ c.name) : r'.Named := by
  intro j k d e hd he hde
  rw [hr, slots_setSlot] at hd he
  split at hd <;> split at he
  case isTrue.isTrue hj hk => rw [hj, hk]
  case isTrue.isFalse hk => cases hd; exact absurd hde.symm (hother k e he hk)
  case isFalse.isTrue hj _ => cases he; exact absurd hde (hother j d hd hj)
  case isFalse.isFalse => exact h j k d e hd he hde

theorem Named.other (h : r.Named) (hc : r.slots i = some c) (j : Fin maxContainers) (d : Container)
    (hd : r.slots j = some d) (hj : j ≠ i) : d.name ≠ c.name :=
  fun he => hj (h j i d c hd hc he)

-- A new record has a name that no other slot has.
theorem Named.free (h : r.Named) (hfree : r.slots i = none ∧ (∀ j d, r.slots j = some d → d.name ≠ name) ∨
    ∃ d, r.slots i = some d ∧ d.state = .deleted ∧ d.name = name) (j : Fin maxContainers) (d : Container)
    (hd : r.slots j = some d) (hj : j ≠ i) : d.name ≠ name := by
  rcases hfree with ⟨_, hfree⟩ | ⟨e, he, _, hen⟩
  · exact hfree j d hd
  · exact hen ▸ h.other he j d hd hj

theorem setSlot_self (h : r.slots i = some c) : r.setSlot i c = r := by
  simp [setSlot, ← h]

theorem idText_injective (h : idText n = idText m) : n = m :=
  UInt64.toNat_inj.mp <| Decimal.padded_injective <| List.append_cancel_left h

-- A record is found again when it was put where its name was, or into a free slot.
theorem find?_setSlot (hslot : (r.findSlot c.name).or r.freeSlot = some i) :
    (r.setSlot i c).find? c.name = some (i, c) := by
  have hself : (r.setSlot i c).slots i = some c := by rw [slots_setSlot, if_pos rfl]
  have hfind : (r.setSlot i c).findSlot c.name = some i := by
    cases hj : (r.setSlot i c).findSlot c.name
    case none => exact absurd rfl (findSlot_none hj hself)
    case some j =>
      by_cases hji : j = i
      case pos => rw [hji]
      case neg =>
        have ⟨d, hd, hn⟩ := findSlot_some hj
        rw [slots_setSlot, if_neg hji] at hd
        cases hf : r.findSlot c.name
        case none => exact absurd hn (findSlot_none hf hd)
        case some k =>
          -- The name was in the slot already, and the search stops at it as before.
          rw [hf, Option.some_or, Option.some_inj] at hslot
          have ⟨b, hb, hbn⟩ := findSlot_some hf
          have hsame : (r.setSlot i c).findSlot c.name = r.findSlot c.name := by
            rw [findSlot, findSlot]
            congr 1
            funext l
            rw [slots_setSlot]
            split
            case isTrue hl => rw [hl, ← hslot, hb]; simp [hbn]
            case isFalse => rfl
          rw [← hj, hsame, hf, hslot]
  rw [find?, hfind, Option.bind_some, hself]
  rfl

-- The slots have a process exactly when they are running.
def Tracked (r : Registry) : Prop :=
  ∀ i c, r.slots i = some c → (c.state = .running ↔ c.pid ≠ -1)

theorem setSlot_pid (ht : r.Tracked) (h : r.slots i = some c) (hn : c.state ≠ .running) :
    r.setSlot i { c with pid := -1 } = r := by
  have hp : c.pid = -1 := by
    by_contra hp
    exact hn ((ht i c h).mpr hp)
  rw [← hp]
  exact setSlot_self h

-- The slot of a new record is free, or it has a record of this name that was deleted.
theorem createSlot (hdup : ¬(r.find? name).any (·.snd.state ≠ .deleted))
    (hslot : (r.findSlot name).or r.freeSlot = some i) :
    r.slots i = none ∧ (∀ j d, r.slots j = some d → d.name ≠ name) ∨
      ∃ d, r.slots i = some d ∧ d.state = .deleted ∧ d.name = name := by
  cases hf : r.findSlot name
  case none =>
    rw [hf, Option.none_or] at hslot
    exact .inl ⟨freeSlot_some hslot, fun _ _ => findSlot_none hf⟩
  case some j =>
    rw [hf, Option.some_or] at hslot
    cases hslot
    have ⟨c, hc, hn⟩ := findSlot_some hf
    simp [find?, hf, hc] at hdup
    exact .inr ⟨c, hc, hdup, hn⟩

-- The record that a creation puts into a slot.
def newRecord (r : Registry) (name : Text) (memoryBytes : UInt64) (cpuPercent : UInt32)
    (dbEngine : Option Text) (namespaces : Option NamespaceConfig) (os : Primitives) : Container where
  name        := name
  id          := idText r.nextId
  memoryBytes := memoryBytes
  cpuPercent  := cpuPercent
  cgroupPath  := os.cgroupCreate.snd
  dbEngine    := dbEngine.getD []
  createdAt   := os.now
  nsPid       := (namespaces.getD {}).isolatePid
  nsMount     := (namespaces.getD {}).isolateMount
  nsNet       := (namespaces.getD {}).isolateNet
  nsUts       := (namespaces.getD {}).isolateUts
  nsIpc       := (namespaces.getD {}).isolateIpc
  nsHostname  := (namespaces.getD {}).hostname.getD []

-- What a creation has checked, and what it leaves.
structure Created (r : Registry) (name : Text) (memory : UInt64) (cpu : UInt32) (engine : Option Text)
    (ns : Option NamespaceConfig) (os : Primitives) (i : Fin maxContainers) (r' : Registry) : Prop where
  valid  : Container.nameValid name
  limit  : ¬cpu > 100
  fits   : (engine.getD []).length < Container.pathMax
  free   : r.slots i = none ∧ (∀ j d, r.slots j = some d → d.name ≠ name) ∨
             ∃ d, r.slots i = some d ∧ d.state = .deleted ∧ d.name = name
  slot   : (r.findSlot name).or r.freeSlot = some i
  made   : r' = { r.setSlot i (r.newRecord name memory cpu engine ns os) with nextId := r.nextId + 1 }

theorem Created.find? (h : Created r name memory cpu engine ns os i r') :
    r'.find? name = some (i, r.newRecord name memory cpu engine ns os) := by
  rw [h.made]
  exact find?_setSlot (c := r.newRecord name memory cpu engine ns os) h.slot

theorem containerCreateEx_cases (h : r.containerCreateEx name memory cpu engine ns os = (rc, r')) :
    (rc = .ok ∧ ∃ i, Created r name memory cpu engine ns os i r') ∨ (rc ≠ .ok ∧ r' = r) := by
  rw [containerCreateEx] at h
  split at h
  case isTrue => cases h; exact .inr ⟨nofun, rfl⟩
  case isFalse hvalid =>
    split at h
    case isTrue => cases h; exact .inr ⟨nofun, rfl⟩
    case isFalse hcpu =>
      split at h
      case isTrue => cases h; exact .inr ⟨nofun, rfl⟩
      case isFalse hengine =>
        split at h
        case isTrue => cases h; exact .inr ⟨nofun, rfl⟩
        case isFalse =>
          split at h
          case isTrue => cases h; exact .inr ⟨nofun, rfl⟩
          case isFalse hdup =>
            split at h
            case h_1 => cases h; exact .inr ⟨nofun, rfl⟩
            case h_2 i hslot =>
              simp only at h
              split at h
              case isTrue hrc => cases h; exact .inr ⟨hrc, rfl⟩
              case isFalse =>
                split at h
                case isTrue hrc => cases h; exact .inr ⟨hrc, rfl⟩
                case isFalse =>
                  cases h
                  refine .inl ⟨rfl, i, by simpa using hvalid, hcpu, ?_, createSlot hdup hslot, hslot, rfl⟩
                  cases engine
                  case none => exact Nat.zero_lt_succ _
                  case some e => simpa using hengine

theorem containerCreateEx_effect (h : r.containerCreateEx name memory cpu engine ns os = (rc, r')) :
    (rc = .ok ∧ Effect r (.create name memory cpu engine ns) [] r') ∨ (rc ≠ .ok ∧ r' = r) := by
  refine (containerCreateEx_cases h).imp_left fun ⟨hok, i, hc⟩ => ⟨hok, ?_⟩
  rw [hc.made]
  exact .create rfl hc.free rfl rfl rfl

theorem containerStart_effect (ht : r.Tracked) (h : r.containerStart name os = (rc, events, r')) :
    (rc = .ok ∧ Effect r (.start name) events r') ∨ (rc ≠ .ok ∧ r' = r) := by
  rw [containerStart] at h
  split at h
  case isTrue => cases h; exact .inr ⟨nofun, rfl⟩
  case isFalse =>
    split at h
    case h_1 => cases h; exact .inr ⟨nofun, rfl⟩
    case h_2 i c hfind =>
      have ⟨hs, hn⟩ := find?_some hfind
      split at h
      case isTrue => cases h; exact .inr ⟨nofun, rfl⟩
      case isFalse hst =>
        have hst : c.state = .created ∨ c.state = .stopped := by
          rw [not_and_or, not_not, not_not] at hst
          exact hst
        have hnr : c.state ≠ .running := by
          rcases hst with h | h <;> rw [h] <;> nofun
        split at h
        case isTrue => cases h; exact .inr ⟨nofun, rfl⟩
        case isFalse =>
          split at h
          case h_1 => cases h; exact .inr ⟨nofun, rfl⟩
          case h_2 =>
            simp only at h
            split at h
            case isTrue => cases h; exact .inr ⟨nofun, rfl⟩
            case isFalse hp =>
              split at h
              case isTrue => cases h; exact .inr ⟨nofun, setSlot_pid ht hs hnr⟩
              case isFalse =>
                split at h
                case isTrue => cases h; exact .inr ⟨nofun, setSlot_pid ht hs hnr⟩
                case isFalse =>
                  cases h
                  exact .inl ⟨rfl, .start hs hn hst (Int.not_le.mp hp)⟩

theorem containerStop_effect (h : r.containerStop name os = (rc, events, r')) :
    (rc = .ok ∧ Effect r (.stop name) events r') ∨ (rc ≠ .ok ∧ r' = r) := by
  rw [containerStop] at h
  split at h
  case isTrue => cases h; exact .inr ⟨nofun, rfl⟩
  case isFalse =>
    split at h
    case h_1 => cases h; exact .inr ⟨nofun, rfl⟩
    case h_2 i c hfind =>
      have ⟨hs, hn⟩ := find?_some hfind
      split at h
      case isTrue => cases h; exact .inr ⟨nofun, rfl⟩
      case isFalse hst =>
        have hst := not_not.mp hst
        split at h
        case isFalse hp =>
          cases h
          have hp := not_not.mp hp
          have he : ({ c with state := .stopped } : Container) = { c with pid := -1, state := .stopped } := by
            rw [← hp]
          exact .inl ⟨rfl, he ▸ .stop hs hn hst⟩
        case isTrue =>
          split at h
          case isTrue => cases h; exact .inr ⟨nofun, rfl⟩
          case isFalse => cases h; exact .inl ⟨rfl, .stop hs hn hst⟩

theorem containerDelete_effect (ht : r.Tracked) (h : r.containerDelete name os = (rc, events, r')) :
    (rc = .ok ∧ Effect r (.delete name) events r') ∨ (rc ≠ .ok ∧ r' = r) := by
  rw [containerDelete] at h
  split at h
  case isTrue => cases h; exact .inr ⟨nofun, rfl⟩
  case isFalse =>
    split at h
    case h_1 => cases h; exact .inr ⟨nofun, rfl⟩
    case h_2 i c hfind =>
      have ⟨hs, hn⟩ := find?_some hfind
      split at h
      case isTrue => cases h; exact .inr ⟨nofun, rfl⟩
      case isFalse hrun =>
        split at h
        case isTrue => cases h; exact .inr ⟨nofun, rfl⟩
        case isFalse hdel =>
          simp only at h
          split at h
          case isTrue => cases h; exact .inr ⟨nofun, setSlot_pid ht hs hrun⟩
          case isFalse =>
            cases h
            refine .inl ⟨rfl, .delete hs hn ?_⟩
            cases hst : c.state
            case created => exact .inl rfl
            case stopped => exact .inr rfl
            case running => exact absurd hst hrun
            case deleted => exact absurd hst hdel

end Registry

namespace ContainerRuntime

variable {s s' : ContainerRuntime}

-- A call succeeds and has its effect, or it fails and leaves the registry as it is.
theorem step_effect (ht : s.registry.Tracked) (h : s.step call os = (rc, s')) :
    ∃ events, s'.history = (call, rc, events) :: s.history ∧
      ((rc = .ok ∧ s.registry.Effect call events s'.registry) ∨ (rc ≠ .ok ∧ s'.registry = s.registry)) := by
  cases call
  case create name memory cpu engine ns =>
    cases h
    exact ⟨_, rfl, Registry.containerCreateEx_effect rfl⟩
  case start name => cases h; exact ⟨_, rfl, Registry.containerStart_effect ht rfl⟩
  case stop name => cases h; exact ⟨_, rfl, Registry.containerStop_effect rfl⟩
  case delete name => cases h; exact ⟨_, rfl, Registry.containerDelete_effect ht rfl⟩

-- The names identify the slots, and a slot that is running has the process that its last start has
-- attached and released.
structure Sound (s : ContainerRuntime) : Prop where
  names   : ∀ i j c d, s.registry.slots i = some c → s.registry.slots j = some d → c.name = d.name → i = j
  tracked : s.registry.Tracked
  started : ∀ i c, s.registry.slots i = some c → c.state = .running →
              ∃ spec, s.lastStart c.name =
                some [.spawn spec c.pid, .attach c.cgroupPath c.pid .ok, .release c.pid true]

-- Each record has the number of its creation.
structure Numbered (s : ContainerRuntime) (born : Fin maxContainers → Nat) : Prop where
  next : s.registry.nextId = UInt64.ofNat (1 + s.creations)
  id   : ∀ i c, s.registry.slots i = some c →
           born i < s.creations ∧ c.id = Registry.idText (UInt64.ofNat (1 + born i))
  inj  : ∀ i j c d, s.registry.slots i = some c → s.registry.slots j = some d → born i = born j → i = j

theorem lastStart_cons (h : s'.history = (call, rc, events) :: s.history) (name : Text) :
    s'.lastStart name = if call.isStart name && rc = .ok then some events else s.lastStart name := by
  rw [lastStart, h, List.find?_cons]
  split
  case h_1 hc => rw [if_pos hc]; rfl
  case h_2 hc => rw [if_neg (by simp [hc])]; rfl

theorem creations_cons (h : s'.history = (call, rc, events) :: s.history) :
    s'.creations = s.creations + if call.isCreate && rc = .ok then 1 else 0 := by
  rw [creations, h, List.countP_cons]
  rfl

-- A slot gets a record whose name no other slot has.
theorem Sound.setSlot (hs : Sound s) (hslots : s'.registry.slots = (s.registry.setSlot i c).slots)
    (hother : ∀ j d, s.registry.slots j = some d → j ≠ i → d.name ≠ c.name)
    (ht : c.state = .running ↔ c.pid ≠ -1)
    (hlast : ∀ n, n ≠ c.name → s'.lastStart n = s.lastStart n)
    (hst : c.state = .running → ∃ spec, s'.lastStart c.name =
      some [.spawn spec c.pid, .attach c.cgroupPath c.pid .ok, .release c.pid true]) : Sound s' := by
  refine ⟨Registry.Named.setSlot hs.names hslots hother, Registry.forall_setSlot hslots ht fun j d _ => hs.tracked j d,
    Registry.forall_setSlot hslots hst fun j d hj hd hrun => ?_⟩
  rw [hlast d.name (hother j d hd hj)]
  exact hs.started j d hd hrun

theorem Sound.step (hs : Sound s) (h : s.step call os = (rc, s')) : Sound s' := by
  have ⟨events, hh, heffect⟩ := step_effect hs.tracked h
  have hlast := lastStart_cons hh
  rcases heffect with ⟨hok, heffect⟩ | ⟨hne, hr⟩
  case inr =>
    have hlast : ∀ name, s'.lastStart name = s.lastStart name := fun name => by simp [hlast, hne]
    refine ⟨by rw [hr]; exact hs.names, by rw [hr]; exact hs.tracked, fun i c hc => ?_⟩
    rw [hlast]
    exact hs.started i c (hr ▸ hc)
  case inl =>
    generalize hr : s'.registry = r' at heffect
    cases heffect
    case create _ i _ _ _ _ c hn hfree hst hpid _ =>
      have hother := hn ▸ Registry.Named.free hs.names hfree
      refine hs.setSlot (i := i) (c := c) (by rw [hr]) hother ?_ (fun n _ => ?_) ?_
      · simp [hst, hpid]
      · simp [hlast, ContainerCall.isStart]
      · simp [hst]
    case start i c _ pid spec hslot hn hst hpos =>
      have hother := Registry.Named.other hs.names hslot
      refine hs.setSlot (congrArg Registry.slots hr) hother ?_ (fun n hne => ?_) fun _ => ⟨spec, ?_⟩
      · simp only [true_iff]
        omega
      · have hne : ¬c.name = n := Ne.symm hne
        simp [hlast, ContainerCall.isStart, ← hn, hne]
      · simp [hlast, ContainerCall.isStart, hn, hok]
    case stop i c _ hslot hn hst =>
      have hother := Registry.Named.other hs.names hslot
      refine hs.setSlot (congrArg Registry.slots hr) hother ?_ (fun n _ => ?_) nofun
      · simp
      · simp [hlast, ContainerCall.isStart]
    case delete i c _ hslot hn hst =>
      have hother := Registry.Named.other hs.names hslot
      refine hs.setSlot (congrArg Registry.slots hr) hother ?_ (fun n _ => ?_) nofun
      · simp
      · simp [hlast, ContainerCall.isStart]

-- A record that keeps its id.
theorem Numbered.setSlot (hn : Numbered s born) (hc : s.registry.slots i = some c)
    (hr : s'.registry = s.registry.setSlot i c') (hid : c'.id = c.id) (hcount : s'.creations = s.creations) :
    Numbered s' born := by
  have hslots : ∀ {j d}, s'.registry.slots j = some d →
      ∃ e, s.registry.slots j = some e ∧ d.id = e.id := by
    intro j d hd
    rw [hr, Registry.slots_setSlot] at hd
    split at hd
    case isTrue hj => cases hd; exact ⟨c, hj ▸ hc, hid⟩
    case isFalse => exact ⟨d, hd, rfl⟩
  refine ⟨by rw [hr, hcount]; exact hn.next, fun j d hd => ?_, fun j k d e hd he hb => ?_⟩
  · have ⟨e, he, hde⟩ := hslots hd
    rw [hcount, hde]
    exact hn.id j e he
  · have ⟨d', hd', _⟩ := hslots hd
    have ⟨e', he', _⟩ := hslots he
    exact hn.inj j k d' e' hd' he' hb

theorem Numbered.step (hn : Numbered s born) (hs : Sound s) (h : s.step call os = (rc, s')) :
    ∃ born', Numbered s' born' := by
  have ⟨events, hh, heffect⟩ := step_effect hs.tracked h
  have hcount := creations_cons hh
  rcases heffect with ⟨hok, heffect⟩ | ⟨hne, hr⟩
  case inr =>
    have hcount : s'.creations = s.creations := by simp [hcount, hne]
    exact ⟨born, by rw [hr, hcount]; exact hn.next, by rw [hr, hcount]; exact hn.id, by rw [hr]; exact hn.inj⟩
  case inl =>
    generalize hr : s'.registry = r' at heffect
    cases heffect
    case start hslot _ _ _ =>
      exact ⟨born, hn.setSlot hslot hr rfl (by simp [hcount, ContainerCall.isCreate])⟩
    case stop hslot _ _ => exact ⟨born, hn.setSlot hslot hr rfl (by simp [hcount, ContainerCall.isCreate])⟩
    case delete hslot _ _ => exact ⟨born, hn.setSlot hslot hr rfl (by simp [hcount, ContainerCall.isCreate])⟩
    case create i _ _ _ _ c _ _ _ _ hid =>
      have hcount : s'.creations = s.creations + 1 := by simp [hcount, ContainerCall.isCreate, hok]
      have hslots : ∀ j, s'.registry.slots j = if j = i then some c else s.registry.slots j := fun j => by
        rw [hr]
        exact Registry.slots_setSlot
      refine ⟨Function.update born i s.creations, ?_, fun j d hd => ?_, fun j k d e hd he hb => ?_⟩
      · rw [hr, hcount]
        rw [hn.next, ← add_assoc, UInt64.ofNat_add (1 + s.creations)]
        rfl
      · rw [hslots] at hd
        rw [Function.update_apply, hcount]
        split at hd
        case isTrue hj =>
          cases hd
          rw [if_pos hj, hid, hn.next]
          exact ⟨Nat.lt_succ_self _, rfl⟩
        case isFalse hj =>
          rw [if_neg hj]
          have ⟨hlt, hid⟩ := hn.id j d hd
          exact ⟨Nat.lt_succ_of_lt hlt, hid⟩
      · rw [hslots] at hd he
        rw [Function.update_apply, Function.update_apply] at hb
        split at hd <;> split at he
        case isTrue.isTrue hj hk => rw [hj, hk]
        case isTrue.isFalse hj hk =>
          rw [if_pos hj, if_neg hk] at hb
          exact absurd hb.symm (Nat.ne_of_lt (hn.id k e he).left)
        case isFalse.isTrue hj hk =>
          rw [if_neg hj, if_pos hk] at hb
          exact absurd hb (Nat.ne_of_lt (hn.id j d hd).left)
        case isFalse.isFalse hj hk =>
          rw [if_neg hj, if_neg hk] at hb
          exact hn.inj j k d e hd he hb

-- The ids repeat only when the counter has wrapped around.
theorem Numbered.ids (hn : Numbered s born) (hle : s.creations ≤ 2 ^ 64)
    (hc : s.registry.slots i = some c) (hd : s.registry.slots j = some d) (he : c.id = d.id) : i = j := by
  have ⟨hi, hci⟩ := hn.id i c hc
  have ⟨hj, hdj⟩ := hn.id j d hd
  have hnum := Registry.idText_injective (hci.symm.trans (he.trans hdj))
  refine hn.inj i j c d hc hd ?_
  have hmod := congrArg UInt64.toNat hnum
  simp only [UInt64.toNat_ofNat'] at hmod
  omega

theorem Sound.init : Sound {} where
  names _ _ _ _ hc := by cases hc
  tracked _ _ hc   := by cases hc
  started _ _ hc   := by cases hc

theorem Numbered.init : Numbered {} fun _ => 0 where
  next             := rfl
  id _ _ hc        := by cases hc
  inj _ _ _ _ hc   := by cases hc

theorem run_sound (hs : Sound s) (hn : Numbered s born) (calls : List (ContainerCall × Primitives)) :
    Sound (s.run calls) ∧ ∃ born', Numbered (s.run calls) born' := by
  induction calls generalizing s born
  case nil => exact ⟨hs, born, hn⟩
  case cons call calls hi =>
    have ⟨born', hn'⟩ := hn.step hs (s.step call.fst call.snd).eta.symm
    exact hi (hs.step (s.step call.fst call.snd).eta.symm) hn'

end ContainerRuntime

-- The states that a record can take next.
def Container.State.next : State → State → Bool
  | created, running | stopped, running => true
  | running, stopped                    => true
  | created, deleted | stopped, deleted => true
  | deleted, created                    => true
  | _,       _                          => false

-- What a call does to a slot.
inductive SlotStep : Option Container → Option Container → Prop
  | same : SlotStep x x
  | fresh (state : c.state = .created) : SlotStep none (some c)
  | move (name : c'.name = c.name) (next : c.state.next c'.state) : SlotStep (some c) (some c')

theorem Registry.Effect.slotStep (h : Registry.Effect r call events r') (i : Fin maxContainers) :
    SlotStep (r.slots i) (r'.slots i) := by
  have hset : ∀ {c j}, SlotStep (r.slots j) (some c) → SlotStep (r.slots i) ((r.setSlot j c).slots i) := by
    intro c j h
    rw [Registry.slots_setSlot]
    split
    case isTrue hi => exact hi ▸ h
    case isFalse => exact .same
  cases h
  case create hn hfree hst _ _ =>
    refine hset ?_
    rcases hfree with ⟨hnone, _⟩ | ⟨d, hd, hdel, hdn⟩
    · exact hnone ▸ .fresh hst
    · exact hd ▸ .move (hn.trans hdn.symm) (by rw [hdel, hst]; rfl)
  case start hslot _ hst _ =>
    refine hset (hslot ▸ .move rfl ?_)
    rcases hst with h | h <;> rw [h] <;> rfl
  case stop hslot _ hst => exact hset (hslot ▸ .move rfl (by rw [hst]; rfl))
  case delete hslot _ hst =>
    refine hset (hslot ▸ .move rfl ?_)
    rcases hst with h | h <;> rw [h] <;> rfl

namespace ContainerRuntime

-- Everything that is said about a registry after any calls, and about the next call.
theorem run_registry (calls : List (ContainerCall × Primitives)) :
    let s := run {} calls
    (∀ i j c d, s.registry.slots i = some c → s.registry.slots j = some d →
      (c.name = d.name → i = j) ∧ (s.creations ≤ 2 ^ 64 → c.id = d.id → i = j)) ∧
    (∀ i c, s.registry.slots i = some c → (c.state = .running ↔ c.pid ≠ -1) ∧
      (c.state = .running → ∃ spec, s.lastStart c.name =
        some [.spawn spec c.pid, .attach c.cgroupPath c.pid .ok, .release c.pid true])) ∧
    ∀ call os rc s', s.step call os = (rc, s') →
      (∀ i, SlotStep (s.registry.slots i) (s'.registry.slots i)) ∧
      (rc ≠ .ok → s'.registry = s.registry) := by
  intro s
  have ⟨hs, born, hn⟩ := run_sound .init .init calls
  refine ⟨fun i j c d hc hd => ⟨hs.names i j c d hc hd, fun hle => hn.ids hle hc hd⟩,
    fun i c hc => ⟨hs.tracked i c hc, hs.started i c hc⟩, fun call os rc s' hstep => ?_⟩
  have ⟨_, _, heffect⟩ := step_effect hs.tracked hstep
  rcases heffect with ⟨hok, heffect⟩ | ⟨_, hr⟩
  · exact ⟨heffect.slotStep, fun hne => absurd hok hne⟩
  · exact ⟨fun i => hr ▸ .same, fun _ => hr⟩

theorem run_append (s : ContainerRuntime) (as bs : List (ContainerCall × Primitives)) :
    s.run (as ++ bs) = (s.run as).run bs := by
  induction as generalizing s
  case nil => rfl
  case cons a as hi => exact hi _

end ContainerRuntime

section

def nameA : Text := ['a']

def nameB : Text := ['b']

-- The first slot has the first container that was created. The second one may have another one.
def oneAnd (b : Option Container) (next : UInt64) : Registry where
  slots i := if i = 0 then some { name := nameA, id := Registry.idText 1 } else if i = 1 then b else none
  nextId  := next

def recordB (next : UInt64) (state : Container.State) : Container :=
  { name := nameB, id := Registry.idText next, state }

def createB : ContainerCall :=
  .create nameB 0 0 none none

-- A container that is created and deleted again and again.
def rounds (k : Nat) : List (ContainerCall × Primitives) :=
  (List.replicate k [(createB, {}), (.delete nameB, {})]).flatten

theorem setSlot_oneAnd : (oneAnd b next).setSlot 1 c = oneAnd (some c) next := by
  rw [Registry.setSlot, oneAnd, oneAnd]
  congr 1
  funext i
  rw [Function.update_apply]
  by_cases hi : i = 1
  case pos => subst hi; rfl
  case neg => simp [hi]

theorem createB_step {s : ContainerRuntime} (h : s.registry = oneAnd b next)
    (hb : b = none ∨ ∃ n, b = some (recordB n .deleted)) :
    (s.step createB {}).snd.registry = oneAnd (some (recordB next .created)) (next + 1) := by
  have hcreate : ∀ r : Registry, r = oneAnd b next →
      (r.containerCreateEx nameB 0 0 none none {}).snd =
        { r.setSlot 1 (recordB next .created) with nextId := next + 1 } := by
    rintro r rfl
    rcases hb with hb | ⟨n, hb⟩ <;> subst hb <;> rfl
  change (s.registry.containerCreateEx nameB 0 0 none none {}).snd = _
  rw [hcreate _ h, h, setSlot_oneAnd]
  rfl

theorem deleteB_step {s : ContainerRuntime} (h : s.registry = oneAnd (some (recordB n .created)) next) :
    (s.step (.delete nameB) {}).snd.registry = oneAnd (some (recordB n .deleted)) next := by
  have hdelete : ∀ r : Registry, r = oneAnd (some (recordB n .created)) next →
      (r.containerDelete nameB {}).snd.snd = r.setSlot 1 (recordB n .deleted) := by
    rintro r rfl
    rfl
  change (s.registry.containerDelete nameB {}).snd.snd = _
  rw [hdelete _ h, h, setSlot_oneAnd]

theorem rounds_run {s : ContainerRuntime} (h : s.registry = oneAnd b next)
    (hb : b = none ∨ ∃ n, b = some (recordB n .deleted)) (k : Nat) :
    ∃ b', (s.run (rounds k)).registry = oneAnd b' (next + UInt64.ofNat k) ∧
      (b' = none ∨ ∃ n, b' = some (recordB n .deleted)) := by
  induction k generalizing s b next
  case zero => exact ⟨b, by simpa [rounds, ContainerRuntime.run] using h, hb⟩
  case succ k hi =>
    have hround := deleteB_step (createB_step h hb)
    have ⟨b', hr, hb'⟩ := hi hround (.inr ⟨_, rfl⟩)
    refine ⟨b', ?_, hb'⟩
    have hk : UInt64.ofNat (k + 1) = 1 + UInt64.ofNat k := by rw [Nat.add_comm, UInt64.ofNat_add]; rfl
    rw [hk, ← UInt64.add_assoc]
    exact hr

def wrappingCalls (k : Nat) : List (ContainerCall × Primitives) :=
  (.create nameA 0 0 none none, {}) :: (rounds k).concat (createB, {})

theorem wrappingCalls_run (hk : 2 + UInt64.ofNat k = 1) :
    (ContainerRuntime.run {} (wrappingCalls k)).registry = oneAnd (some (recordB 1 .created)) 2 := by
  have hfirst : (ContainerRuntime.step {} (.create nameA 0 0 none none) {}).snd.registry = oneAnd none 2 := by
    change (Registry.mk (Registry.setSlot {} 0 { name := nameA, id := Registry.idText 1 }).slots 2) = _
    rw [oneAnd]
    congr 1
    funext i
    rw [Registry.slots_setSlot]
    simp
  have ⟨b, hr, hb⟩ := rounds_run hfirst (.inl rfl) k
  rw [hk] at hr
  rw [wrappingCalls, List.concat_eq_append, ContainerRuntime.run, ContainerRuntime.run_append]
  exact createB_step hr hb

-- The counter of the ids has 64 bits. The container that is created after 2^64 others gets the id of
-- the first one, which still exists.
theorem ids_repeat :
    ∃ calls c d, (ContainerRuntime.run {} calls).registry.slots 0 = some c ∧
      (ContainerRuntime.run {} calls).registry.slots 1 = some d ∧ c.id = d.id := by
  have ⟨k, hk⟩ : ∃ k, 2 + UInt64.ofNat k = 1 := ⟨2 ^ 64 - 1, by decide⟩
  refine ⟨wrappingCalls k, { name := nameA, id := Registry.idText 1 }, recordB 1 .created, ?_⟩
  rw [wrappingCalls_run hk]
  exact ⟨rfl, rfl, rfl⟩

end

end NexusDb
