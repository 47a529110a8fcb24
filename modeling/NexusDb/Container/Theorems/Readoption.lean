import NexusDb.Container.Theorems.Registry

namespace NexusDb

-- The namespaces that a creation asks for. An empty hostname is none.
def NamespaceConfig.asked (namespaces : Option NamespaceConfig) : NamespaceConfig :=
  let ns := namespaces.getD {}
  { ns with hostname := ns.hostname.filter (· ≠ []) }

def NamespaceConfig.requested (ns : NamespaceConfig) : Bool :=
  ns.isolatePid || ns.isolateMount || ns.isolateNet || ns.isolateUts || ns.isolateIpc

namespace Container

-- A record passes the checks of an adoption.
structure Adoptable (c : Container) : Prop where
  name   : nameValid c.name
  cpu    : ¬c.cpuPercent > 100
  id     : c.id.length < idMax
  engine : c.dbEngine.length < pathMax
  cgroup : c.cgroupPath.length < pathMax

-- An adoption has no arguments for the namespaces.
def readopted (c : Container) (now : Int) : Container :=
  { c with
    createdAt  := now
    nsPid      := false
    nsMount    := false
    nsNet      := false
    nsUts      := false
    nsIpc      := false
    nsHostname := [] }

variable {c : Container}

theorem ofInt_code_state (s : State) : State.ofInt s.code = some s := by
  cases s <;> rfl

theorem nsConfig_readopted : (c.readopted now).nsConfig = {} :=
  rfl

theorem nsConfig_eq_empty : c.nsConfig = {} ↔ c.readopted now = { c with createdAt := now } := by
  simp only [nsConfig, readopted, NamespaceConfig.mk.injEq, Container.mk.injEq, true_and]
  constructor
  case mp =>
    intro ⟨hpid, hmount, hnet, huts, hipc, hhost⟩
    refine ⟨hpid.symm, hmount.symm, hnet.symm, huts.symm, hipc.symm, ?_⟩
    by_contra hne
    rw [if_neg (Ne.symm hne)] at hhost
    cases hhost
  case mpr =>
    intro ⟨hpid, hmount, hnet, huts, hipc, hhost⟩
    exact ⟨hpid.symm, hmount.symm, hnet.symm, huts.symm, hipc.symm, if_pos hhost.symm⟩

theorem startNamespaces_eq : c.startNamespaces = if c.nsConfig.requested then some c.nsConfig else none :=
  rfl

end Container

namespace Registry

variable {r r' : Registry} {i : Fin maxContainers} {c d : Container}

-- An adoption with what the slot of a name has.
def readopt (r : Registry) (name : Text) (now : Int) : Rc × Registry :=
  match r.find? name with
  | none        => (.notFound, r)
  | some (_, c) =>
    r.containerAdopt c.name c.id c.memoryBytes c.cpuPercent c.dbEngine c.cgroupPath c.pid c.state.code now

-- The names identify the slots, and every record can be adopted again.
structure Regular (r : Registry) : Prop where
  names   : r.Named
  tracked : r.Tracked
  fits    : ∀ i c, r.slots i = some c → c.Adoptable

theorem idText_length (n : UInt64) : (idText n).length < Container.idMax := by
  have hlt : n.toNat < 10 ^ 20 := Nat.lt_trans n.toNat_lt (by decide)
  have hp := Decimal.length_padded_le (w := 6) hlt
  have hmax : max 6 20 = 20 := rfl
  rw [idText, List.length_append, Container.idMax]
  have hnx : "nx-".toList.length = 3 := by decide
  omega

theorem nsConfig_newRecord :
    (r.newRecord name memory cpu engine ns os).nsConfig = .asked ns := by
  rw [Container.nsConfig, NamespaceConfig.asked, newRecord]
  simp only [NamespaceConfig.mk.injEq, true_and]
  cases (ns.getD {}).hostname
  case none => rfl
  case some host => cases host <;> rfl

theorem Created.adoptable (h : Created r name memory cpu engine ns os i r')
    (hpath : os.cgroupCreate.snd.length < Container.pathMax) :
    (r.newRecord name memory cpu engine ns os).Adoptable :=
  ⟨h.valid, h.limit, idText_length _, h.fits, hpath⟩

namespace Regular

theorem find? (h : r.Regular) (hc : r.slots i = some c) : r.find? c.name = some (i, c) := by
  cases hf : r.find? c.name
  case none => exact absurd rfl (findSlot_none (find?_none hf) hc)
  case some x =>
    have ⟨hd, hn⟩ := find?_some (i := x.fst) (c := x.snd) hf
    have hi := h.names _ _ _ _ hd hc hn
    rw [hi] at hd
    cases hd.symm.trans hc
    rw [← hi]

theorem findSlot (h : r.Regular) (hc : r.slots i = some c) : r.findSlot c.name = some i := by
  have ⟨j, hj, hm⟩ := Option.bind_eq_some_iff.mp (h.find? hc)
  have ⟨_, _, he⟩ := Option.map_eq_some_iff.mp hm
  cases he
  exact hj

-- An adoption of the own record succeeds. It forgets the namespaces.
theorem containerAdopt (h : r.Regular) (hc : r.slots i = some c) (now : Int) :
    r.containerAdopt c.name c.id c.memoryBytes c.cpuPercent c.dbEngine c.cgroupPath c.pid c.state.code now =
      (.ok, r.setSlot i (c.readopted now)) := by
  have ha := h.fits i c hc
  simp only [Registry.containerAdopt, ha.name, ha.cpu, Container.ofInt_code_state, h.findSlot hc, Option.some_or,
    Nat.not_le.mpr ha.id, Nat.not_le.mpr ha.engine, Nat.not_le.mpr ha.cgroup]
  rfl

theorem readopt (h : r.Regular) (hc : r.slots i = some c) (now : Int) :
    r.readopt c.name now = (.ok, r.setSlot i (c.readopted now)) := by
  rw [Registry.readopt, h.find? hc]
  exact h.containerAdopt hc now

theorem readopt_none (h : r.find? name = none) : r.readopt name now = (.notFound, r) := by
  rw [Registry.readopt, h]

theorem setSlot (h : r.Regular) (hr : r'.slots = (r.setSlot i c).slots)
    (hother : ∀ j d, r.slots j = some d → j ≠ i → d.name ≠ c.name)
    (ht : c.state = .running ↔ c.pid ≠ -1) (ha : c.Adoptable) : r'.Regular where
  names   := h.names.setSlot hr hother
  tracked := forall_setSlot hr ht fun j d _ => h.tracked j d
  fits    := forall_setSlot hr ha fun j d _ => h.fits j d

end Regular
end Registry

-- A call of the runtime, or an adoption of what the registry has. The path of a cgroup is written into
-- a buffer.
inductive AdoptCall
  | call (c : ContainerCall) (os : Primitives)
      (fits : os.cgroupCreate.snd.length < Container.pathMax := by decide)
  | readopt (name : Text) (now : Int)

-- The registry, what the last creation of a name asked for, and whether there was an adoption since.
structure Rehydration where
  registry : Registry := {}
  asked    : Text → NamespaceConfig := fun _ => {}
  adopted  : Text → Bool := fun _ => false

namespace Rehydration

def step (s : Rehydration) : AdoptCall → Rehydration
  | .call (.create name memory cpu engine ns) os _ =>
    let (rc, registry) := s.registry.containerCreateEx name memory cpu engine ns os
    if rc = .ok then
      { registry
        asked   := Function.update s.asked name (.asked ns)
        adopted := Function.update s.adopted name false }
    else
      { s with registry }
  | .call (.start name) os _  => { s with registry := (s.registry.containerStart name os).snd.snd }
  | .call (.stop name) os _   => { s with registry := (s.registry.containerStop name os).snd.snd }
  | .call (.delete name) os _ => { s with registry := (s.registry.containerDelete name os).snd.snd }
  | .readopt name now         =>
    let (rc, registry) := s.registry.readopt name now
    if rc = .ok then
      { s with registry, adopted := Function.update s.adopted name true }
    else
      { s with registry }

def run (s : Rehydration) : List AdoptCall → Rehydration
  | []      => s
  | a :: as => (s.step a).run as

variable {s s' : Rehydration} {i : Fin maxContainers} {c c' : Container}

-- What is left of the namespaces that were asked for.
def remaining (s : Rehydration) (name : Text) : NamespaceConfig :=
  if s.adopted name then {} else s.asked name

structure Kept (s : Rehydration) : Prop where
  regular : s.registry.Regular
  config  : ∀ i c, s.registry.slots i = some c → c.nsConfig = s.remaining c.name

-- A record changes its process and its state.
theorem Kept.move (h : Kept s) (hc : s.registry.slots i = some c)
    (ht : state = .running ↔ pid ≠ -1) (hr : r = s.registry.setSlot i { c with pid, state }) :
    Kept { s with registry := r } := by
  have hslots := congrArg Registry.slots hr
  have hother := h.regular.names.other hc
  refine ⟨h.regular.setSlot hslots hother ht ?_, ?_⟩
  · have ha := h.regular.fits i c hc
    exact ⟨ha.name, ha.cpu, ha.id, ha.engine, ha.cgroup⟩
  · exact Registry.forall_setSlot hslots (h.config i c hc) fun j d _ => h.config j d

theorem Kept.effect (h : Kept s) (he : s.registry.Effect call events r) (hn : call.isCreate = false) :
    Kept { s with registry := r } := by
  cases he
  case create => cases hn
  case start hc _ _ hpos =>
    refine h.move hc ?_ rfl
    simp only [true_iff]
    omega
  case stop hc _ _ => exact h.move hc (by simp) rfl
  case delete hc _ _ => exact h.move hc (by simp) rfl

theorem Kept.call {call : ContainerCall} (h : Kept s)
    (he : (rc = .ok ∧ s.registry.Effect call events r) ∨ (rc ≠ Rc.ok ∧ r = s.registry))
    (hn : call.isCreate = false) : Kept { s with registry := r } := by
  rcases he with ⟨_, he⟩ | ⟨_, he⟩
  · exact h.effect he hn
  · exact he ▸ h

theorem Kept.create (h : Kept s) (hc : s.registry.Created name memory cpu engine ns os i r)
    (hpath : os.cgroupCreate.snd.length < Container.pathMax) :
    Kept ⟨r, Function.update s.asked name (.asked ns), Function.update s.adopted name false⟩ := by
  have hslots : r.slots = (s.registry.setSlot i (s.registry.newRecord name memory cpu engine ns os)).slots := by
    rw [hc.made]
  have hother := h.regular.names.free hc.free
  refine ⟨h.regular.setSlot hslots hother (by simp [Registry.newRecord]) (hc.adoptable hpath), ?_⟩
  refine Registry.forall_setSlot hslots ?_ fun j d hj hd => ?_
  · rw [Registry.nsConfig_newRecord, remaining]
    simp [Registry.newRecord]
  · have hn := hother j d hd hj
    rw [h.config j d hd]
    simp [remaining, hn]

theorem Kept.readopt (h : Kept s) (hc : s.registry.slots i = some c) (now : Int) :
    Kept { s with registry := s.registry.setSlot i (c.readopted now)
                  adopted  := Function.update s.adopted c.name true } := by
  have hother := h.regular.names.other hc
  have ha := h.regular.fits i c hc
  refine ⟨h.regular.setSlot rfl hother (h.regular.tracked i c hc)
    ⟨ha.name, ha.cpu, ha.id, ha.engine, ha.cgroup⟩, ?_⟩
  refine Registry.forall_setSlot rfl ?_ fun j d hj hd => ?_
  · rw [Container.nsConfig_readopted, remaining]
    simp [Container.readopted]
  · have hn := hother j d hd hj
    rw [h.config j d hd]
    simp [remaining, hn]

theorem Kept.step (h : Kept s) (a : AdoptCall) : Kept (s.step a) := by
  cases a
  case readopt name now =>
    rw [Rehydration.step]
    cases hf : s.registry.find? name
    case none => rw [Registry.Regular.readopt_none hf]; exact h
    case some x =>
      have ⟨hc, hn⟩ := Registry.find?_some (i := x.fst) (c := x.snd) hf
      rw [← hn, h.regular.readopt hc]
      exact h.readopt hc now
  case call call os hpath =>
    cases call
    case start name => exact h.call (Registry.containerStart_effect h.regular.tracked rfl) rfl
    case stop name => exact h.call (Registry.containerStop_effect rfl) rfl
    case delete name => exact h.call (Registry.containerDelete_effect h.regular.tracked rfl) rfl
    case create name memory cpu engine ns =>
      rw [Rehydration.step]
      match hcreate : s.registry.containerCreateEx name memory cpu engine ns os with
      | (rc, r) =>
        simp only
        rcases Registry.containerCreateEx_cases hcreate with ⟨hok, i, hc⟩ | ⟨hne, hr⟩
        · rw [if_pos hok]
          exact h.create hc hpath
        · rw [if_neg hne, hr]
          exact h

theorem Kept.init : Kept {} where
  regular := ⟨fun _ _ _ _ hc => (nomatch hc), fun _ _ hc => (nomatch hc), fun _ _ hc => (nomatch hc)⟩
  config _ _ hc := nomatch hc

theorem Kept.run (h : Kept s) (as : List AdoptCall) : Kept (s.run as) := by
  induction as generalizing s
  case nil => exact h
  case cons a as hi => exact hi (h.step a)

-- A start takes the namespaces that are left.
theorem Kept.start (h : Kept s) (hok : (s.registry.containerStart name os).fst = .ok) :
    ∃ i c, s.registry.slots i = some c ∧ c.name = name ∧ c.nsConfig = s.remaining name := by
  match hstart : s.registry.containerStart name os with
  | (rc, events, r') =>
    rw [hstart] at hok
    rcases Registry.containerStart_effect h.regular.tracked hstart with ⟨_, heffect⟩ | ⟨hne, _⟩
    case inr => exact absurd hok hne
    case inl =>
      cases heffect
      case start i c _ _ hc _ _ hn => exact ⟨i, c, hc, hn, hn ▸ h.config i c hc⟩

-- The namespaces that a start has to create the child in.
def wanted (s : Rehydration) (name : Text) : Option NamespaceConfig :=
  if (s.asked name).requested then some (s.asked name) else none

theorem readoption_iff (calls : List AdoptCall) :
    let s := run {} calls
    (∀ i c now, s.registry.slots i = some c →
      ∃ c', s.registry.containerAdopt c.name c.id c.memoryBytes c.cpuPercent c.dbEngine c.cgroupPath c.pid
          c.state.code now = (.ok, s.registry.setSlot i c') ∧
        (c' = { c with createdAt := now } ↔ c.nsConfig = {})) ∧
    ∀ name os, (s.registry.containerStart name os).fst = .ok →
      ∃ i c, s.registry.slots i = some c ∧ c.name = name ∧
        (c.startNamespaces = s.wanted name ↔ (s.asked name).requested = false ∨ s.adopted name = false) := by
  intro s
  have hk : Kept s := Kept.init.run calls
  refine ⟨fun i c now hc => ⟨_, hk.regular.containerAdopt hc now, Container.nsConfig_eq_empty.symm⟩,
    fun name os hok => ?_⟩
  have ⟨i, c, hc, hn, hleft⟩ := hk.start hok
  refine ⟨i, c, hc, hn, ?_⟩
  rw [Container.startNamespaces_eq, hleft, wanted, remaining]
  cases s.adopted name
  case false => simp
  case true => simp [NamespaceConfig.requested]

-- A container is created in a namespace of its own for processes, and is adopted again.
def isolated : AdoptCall :=
  .call (.create nameA 0 0 none (some { isolatePid := true })) {}

theorem isolation_lost :
    let s := run {} [isolated, .readopt nameA 5]
    ((run {} [isolated]).registry.slots 0).map (·.nsPid) = some true ∧
    (s.registry.slots 0).map (·.nsPid) = some false ∧
    (s.registry.containerStart nameA { spawn := 7, release := 1 }).fst = .ok ∧
    (s.asked nameA).requested = true ∧ (s.registry.slots 0).map (·.startNamespaces.isSome) = some false := by
  decide +kernel

end Rehydration
end NexusDb
