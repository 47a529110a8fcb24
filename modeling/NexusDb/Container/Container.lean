import NexusDb.General.Decimal
import Mathlib.Data.List.FinRange
import Mathlib.Logic.Function.Basic

namespace NexusDb

-- A C string, one character for each byte.
abbrev Text := List Char

inductive Rc
  | ok
  | invalid
  | notFound
  | alreadyExists
  | state
  | noMemory
  | process
  | unsupported
deriving DecidableEq

def containerStrerror : Rc → String
  | .ok            => "ok"
  | .invalid       => "invalid argument"
  | .notFound      => "container not found"
  | .alreadyExists => "container already exists"
  | .state         => "illegal state for this operation"
  | .noMemory      => "container registry full"
  | .process       => "child process operation failed"
  | .unsupported   => "not supported on this platform"

structure NamespaceConfig where
  isolatePid   : Bool := false
  isolateMount : Bool := false
  isolateNet   : Bool := false
  isolateUts   : Bool := false
  isolateIpc   : Bool := false
  hostname     : Option Text := none

namespace Container

inductive State
  | created
  | running
  | stopped
  | deleted
deriving DecidableEq

def State.ofInt : Int → Option State
  | 0 => some .created
  | 1 => some .running
  | 2 => some .stopped
  | 3 => some .deleted
  | _ => none

def State.code : State → Int
  | created => 0
  | running => 1
  | stopped => 2
  | deleted => 3

def containerStateStr : State → String
  | .created => "CREATED"
  | .running => "RUNNING"
  | .stopped => "STOPPED"
  | .deleted => "DELETED"

def nameMax : Nat := 64

def idMax : Nat := 32

def pathMax : Nat := 256

def nameValid (name : Text) : Bool :=
  name.length ≠ 0 && name.length < nameMax && name.all fun c => c.isAlphanum || c = '_' || c = '-'

end Container

-- The record of a container. There is no child process when `pid` is -1.
structure Container where
  name        : Text
  id          : Text := []
  state       : Container.State := .created
  pid         : Int := -1
  memoryBytes : UInt64 := 0
  cpuPercent  : UInt32 := 0
  cgroupPath  : Text := []
  dbEngine    : Text := []
  createdAt   : Int := 0
  nsPid       : Bool := false
  nsMount     : Bool := false
  nsNet       : Bool := false
  nsUts       : Bool := false
  nsIpc       : Bool := false
  nsHostname  : Text := []

namespace Container

def nsRequested (c : Container) : Bool :=
  c.nsPid || c.nsMount || c.nsNet || c.nsUts || c.nsIpc

def nsConfig (c : Container) : NamespaceConfig where
  isolatePid   := c.nsPid
  isolateMount := c.nsMount
  isolateNet   := c.nsNet
  isolateUts   := c.nsUts
  isolateIpc   := c.nsIpc
  hostname     := if c.nsHostname = [] then none else some c.nsHostname

def statusText (c : Container) : Text :=
  "Container: ".toList ++ c.name
    ++ "\nID: ".toList ++ c.id
    ++ "\nState: ".toList ++ (containerStateStr c.state).toList
    ++ "\nPID: ".toList ++ Decimal.ofInt c.pid
    ++ "\nMemory limit: ".toList ++ Decimal.padded 1 c.memoryBytes.toNat
    ++ " bytes\nCPU limit: ".toList ++ Decimal.padded 1 c.cpuPercent.toNat
    ++ "%\nCgroup: ".toList ++ c.cgroupPath
    ++ "\nDB engine: ".toList ++ (if c.dbEngine = [] then "(none configured)".toList else c.dbEngine)
    ++ ['\n']

-- The namespaces that a start creates the child in, if there are any.
def startNamespaces (c : Container) : Option NamespaceConfig :=
  if c.nsRequested then some c.nsConfig else none

end Container

-- What the program of a workload and its arguments are.
structure ExecSpec where
  path : Text
  argv : List Text

-- How the primitives behave that a call uses: the functions of the cgroup and the process modules, the
-- clock and the environment variable with the data directory.
structure Primitives where
  cgroupCreate    : Rc × Text := (.ok, [])
  cgroupSetLimits : Rc        := .ok
  cgroupAttach    : Rc        := .ok
  cgroupDestroy   : Rc        := .ok
  isAlive         : Bool      := false
  spawn           : Int       := -1
  release         : Int       := -1
  stop            : Int       := 0
  now             : Int       := 0
  dataRoot        : Option Text := none

-- What a call does to processes: a child is created that is blocked before it executes the workload,
-- is added to a cgroup, released or given up, and a process is stopped.
inductive ProcessEvent
  | spawn (spec : ExecSpec) (pid : Int)
  | attach (path : Text) (pid : Int) (rc : Rc)
  | release (pid : Int) (started : Bool)
  | abort (pid : Int)
  | stop (pid : Int) (code : Int)

abbrev maxContainers : Nat := 64

instance : NeZero maxContainers :=
  ⟨by decide⟩

structure Registry where
  slots  : Fin maxContainers → Option Container := fun _ => none
  nextId : UInt64 := 1

namespace Registry

open Container (nameValid pathMax nameMax idMax)

def findSlot (r : Registry) (name : Text) : Option (Fin maxContainers) :=
  (List.finRange maxContainers).find? fun i => (r.slots i).any (·.name == name)

def freeSlot (r : Registry) : Option (Fin maxContainers) :=
  (List.finRange maxContainers).find? fun i => (r.slots i).isNone

def setSlot (r : Registry) (i : Fin maxContainers) (c : Container) : Registry :=
  { r with slots := Function.update r.slots i (some c) }

-- The record in the slot with this name.
def find? (r : Registry) (name : Text) : Option (Fin maxContainers × Container) :=
  (r.findSlot name).bind fun i => (r.slots i).map (i, ·)

-- The text `nx-%06lu`.
def idText (n : UInt64) : Text :=
  "nx-".toList ++ Decimal.padded 6 n.toNat

def containerCreateEx (r : Registry) (name : Text) (memoryBytes : UInt64) (cpuPercent : UInt32)
    (dbEngine : Option Text) (namespaces : Option NamespaceConfig) (os : Primitives) : Rc × Registry :=
  if !nameValid name then
    (.invalid, r)
  else if cpuPercent > 100 then
    (.invalid, r)
  else if dbEngine.any (·.length ≥ pathMax) then
    (.invalid, r)
  else if (namespaces.bind (·.hostname)).any (·.length ≥ nameMax) then
    (.invalid, r)
  else if (r.find? name).any (·.snd.state ≠ .deleted) then
    (.alreadyExists, r)
  else
    -- A slot that has been deleted is used again.
    match (r.findSlot name).or r.freeSlot with
    | none   => (.noMemory, r)
    | some i =>
      let (rc, path) := os.cgroupCreate
      if rc ≠ .ok then
        (rc, r)
      else if os.cgroupSetLimits ≠ .ok then
        (os.cgroupSetLimits, r)
      else
        let ns := namespaces.getD {}
        (.ok, { r.setSlot i { name, memoryBytes, cpuPercent
                              id         := idText r.nextId
                              cgroupPath := path
                              dbEngine   := dbEngine.getD []
                              createdAt  := os.now
                              nsPid      := ns.isolatePid
                              nsMount    := ns.isolateMount
                              nsNet      := ns.isolateNet
                              nsUts      := ns.isolateUts
                              nsIpc      := ns.isolateIpc
                              nsHostname := ns.hostname.getD [] } with nextId := r.nextId + 1 })

-- Restores a record as it is. Nothing is provisioned, and no process is created.
def containerAdopt (r : Registry) (name id : Text) (memoryBytes : UInt64) (cpuPercent : UInt32)
    (dbEngine cgroupPath : Text) (pid state : Int) (now : Int) : Rc × Registry :=
  if !nameValid name then
    (.invalid, r)
  else if cpuPercent > 100 then
    (.invalid, r)
  else
    match Container.State.ofInt state with
    | none       => (.invalid, r)
    | some state =>
      if id.length ≥ idMax then
        (.invalid, r)
      else if dbEngine.length ≥ pathMax then
        (.invalid, r)
      else if cgroupPath.length ≥ pathMax then
        (.invalid, r)
      else
        match (r.findSlot name).or r.freeSlot with
        | none   => (.noMemory, r)
        | some i =>
          (.ok, r.setSlot i { name, id, state, pid, memoryBytes, cpuPercent, cgroupPath, dbEngine
                              createdAt := now })

-- The built-in placeholder, or the engine with the directory of its data.
def workloadSpec (c : Container) (dataRoot : Option Text) : Option ExecSpec :=
  if c.dbEngine = [] then
    some ⟨"sleep".toList, ["sleep".toList, "3600".toList]⟩
  else
    let root := if dataRoot.getD [] = [] then "nexusdb_data".toList else dataRoot.getD []
    let dataDir := root ++ '/' :: c.name
    if dataDir.length ≥ pathMax then
      none
    else
      some ⟨c.dbEngine, [c.dbEngine, "--data-dir".toList, dataDir]⟩

def containerStart (r : Registry) (name : Text) (os : Primitives) : Rc × List ProcessEvent × Registry :=
  if !nameValid name then
    (.invalid, [], r)
  else
    match r.find? name with
    | none        => (.notFound, [], r)
    | some (i, c) =>
      if c.state ≠ .created ∧ c.state ≠ .stopped then
        (.state, [], r)
      else if c.pid ≠ -1 ∧ os.isAlive then
        (.state, [], r)
      else
        match workloadSpec c os.dataRoot with
        | none      => (.invalid, [], r)
        | some spec =>
          let pid := os.spawn
          if pid ≤ 0 then
            (.process, [], r)
          else if os.cgroupAttach ≠ .ok then
            (.process, [.spawn spec pid, .attach c.cgroupPath pid os.cgroupAttach, .abort pid],
              r.setSlot i { c with pid := -1 })
          else if ¬os.release > 0 then
            (.process, [.spawn spec pid, .attach c.cgroupPath pid .ok, .release pid false],
              r.setSlot i { c with pid := -1 })
          else
            (.ok, [.spawn spec pid, .attach c.cgroupPath pid .ok, .release pid true],
              r.setSlot i { c with pid, state := .running })

def containerStop (r : Registry) (name : Text) (os : Primitives) : Rc × List ProcessEvent × Registry :=
  if !nameValid name then
    (.invalid, [], r)
  else
    match r.find? name with
    | none        => (.notFound, [], r)
    | some (i, c) =>
      if c.state ≠ .running then
        (.state, [], r)
      else if c.pid ≠ -1 then
        if os.stop ≠ 0 then
          (.process, [.stop c.pid os.stop], r)
        else
          (.ok, [.stop c.pid os.stop], r.setSlot i { c with pid := -1, state := .stopped })
      else
        (.ok, [], r.setSlot i { c with state := .stopped })

def containerDelete (r : Registry) (name : Text) (os : Primitives) : Rc × List ProcessEvent × Registry :=
  if !nameValid name then
    (.invalid, [], r)
  else
    match r.find? name with
    | none        => (.notFound, [], r)
    | some (i, c) =>
      if c.state = .running then
        (.state, [], r)
      else if c.state = .deleted then
        (.state, [], r)
      else
        let events := if c.pid ≠ -1 ∧ os.isAlive then [.stop c.pid os.stop] else []
        let c := { c with pid := -1 }
        if os.cgroupDestroy ≠ .ok then
          (.process, events, r.setSlot i c)
        else
          (.ok, events, r.setSlot i { c with state := .deleted })

-- The text is only there when it fits into the buffer.
def containerStatus (r : Registry) (name : Text) (buflen : Nat) : Rc × Text :=
  if !nameValid name || buflen = 0 then
    (.invalid, [])
  else
    match r.find? name with
    | none        => (.notFound, [])
    | some (_, c) => if c.statusText.length ≥ buflen then (.invalid, []) else (.ok, c.statusText)

end Registry

inductive ContainerCall
  | create (name : Text) (memoryBytes : UInt64) (cpuPercent : UInt32) (dbEngine : Option Text)
      (namespaces : Option NamespaceConfig)
  | start (name : Text)
  | stop (name : Text)
  | delete (name : Text)

namespace ContainerCall

def isCreate : ContainerCall → Bool
  | create .. => true
  | _         => false

def isStart (name : Text) : ContainerCall → Bool
  | start n => n == name
  | _       => false

end ContainerCall

-- The calls that were made, the most recent one first, each with its result and what it did to
-- processes.
structure ContainerRuntime where
  registry : Registry := {}
  history  : List (ContainerCall × Rc × List ProcessEvent) := []

namespace ContainerRuntime

def step (s : ContainerRuntime) (call : ContainerCall) (os : Primitives) : Rc × ContainerRuntime :=
  let (rc, events, registry) :=
    match call with
    | .create name memory cpu engine ns =>
      let (rc, registry) := s.registry.containerCreateEx name memory cpu engine ns os
      (rc, [], registry)
    | .start name  => s.registry.containerStart name os
    | .stop name   => s.registry.containerStop name os
    | .delete name => s.registry.containerDelete name os
  (rc, { registry, history := (call, rc, events) :: s.history })

def run (s : ContainerRuntime) : List (ContainerCall × Primitives) → ContainerRuntime
  | []                  => s
  | (call, os) :: calls => (s.step call os).snd.run calls

-- How many containers were created so far.
def creations (s : ContainerRuntime) : Nat :=
  s.history.countP fun (call, rc, _) => call.isCreate && rc = .ok

-- What the last start of a container that succeeded did to processes.
def lastStart (s : ContainerRuntime) (name : Text) : Option (List ProcessEvent) :=
  (s.history.find? fun (call, rc, _) => call.isStart name && rc = .ok).map fun (_, _, events) => events

end ContainerRuntime
end NexusDb
