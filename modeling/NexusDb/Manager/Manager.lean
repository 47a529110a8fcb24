import NexusDb.Container.Container
import NexusDb.Database.Database
import NexusDb.General.KeyValue

namespace NexusDb

def strtol (cs : Text) : Int :=
  match Decimal.scan cs with
  | (true, n)  => max (-n) (-2 ^ 63)
  | (false, n) => min n (2 ^ 63 - 1)

def strtoul (cs : Text) : UInt64 :=
  let (negative, n) := Decimal.scan cs
  if n ≥ 2 ^ 64 then 0xFFFFFFFFFFFFFFFF else if negative then -UInt64.ofNat n else UInt64.ofNat n

-- The record of a container that is kept between two processes.
structure ContainerMeta where
  name   : Text
  id     : Text   := []
  memory : UInt64 := 0
  cpu    : UInt32 := 0
  engine : Text   := []
  cgroup : Text   := []
  pid    : Int    := -1
  state  : Int    := Container.State.created.code

namespace ContainerMeta

def set (m : ContainerMeta) : KeyValue.Entry → ContainerMeta
  | (key, val) =>
    if key = "name".toList then
      { m with name := val }
    else if key = "id".toList then
      { m with id := val }
    else if key = "memory".toList then
      { m with memory := strtoul val }
    else if key = "cpu".toList then
      { m with cpu := (strtoul val).toUInt32 }
    else if key = "engine".toList then
      { m with engine := val }
    else if key = "cgroup".toList then
      { m with cgroup := val }
    else if key = "pid".toList then
      { m with pid := strtol val }
    else if key = "state".toList then
      { m with state := (strtol val).bmod (2 ^ 32) }
    else
      m

-- What a file of metadata says. A key that is missing has its default.
def load (name text : Text) : ContainerMeta :=
  (KeyValue.entries text).foldl set { name }

def entries (m : ContainerMeta) : List KeyValue.Entry :=
  [ ("name".toList,   m.name),
    ("id".toList,     m.id),
    ("memory".toList, Decimal.padded 1 m.memory.toNat),
    ("cpu".toList,    Decimal.padded 1 m.cpu.toNat),
    ("engine".toList, m.engine),
    ("cgroup".toList, m.cgroup),
    ("pid".toList,    Decimal.ofInt m.pid),
    ("state".toList,  Decimal.ofInt m.state) ]

def text (m : ContainerMeta) : Text :=
  KeyValue.encode m.entries

end ContainerMeta

-- What the write of a file of metadata leaves: nothing is changed when the file cannot be opened.
-- Otherwise the file was truncated, and some part of the text reaches it. The stream is not flushed
-- before its state is looked at, so that the result need not be an error when a part is missing.
inductive MetaWrite
  | untouched
  | written (upTo : Nat) (ok : Bool)

-- The process of a container.
structure Workload where
  name   : Text
  pid    : Int
  engine : Text
deriving DecidableEq

-- What the managers of successive processes work on: the files of metadata by the names of containers,
-- the registry of the current process, and the workloads that were started and are alive.
structure World where
  dataRoot  : String := "nexusdb_data"
  files     : Text → Option Text := fun _ => none
  registry  : Registry := {}
  workloads : List Workload := []

-- How the environment behaves in a call: the primitives of the container runtime, the creation of the
-- directory for the metadata, the write or the removal of a file, and which workloads are alive at the
-- end.
structure Outcome where
  os       : Primitives := {}
  initOk   : Bool := true
  write    : MetaWrite
  removed  : Bool := true
  survives : Workload → Bool := fun _ => true
  -- A pid is a value of `pid_t`.
  pidFits  : os.spawn < 2 ^ 31 := by decide

def mapContainerRc : Rc → Option DbError
  | .ok                                     => none
  | .invalid                                => some .invalidArgument
  | .notFound                               => some .notFound
  | .noMemory                               => some .outOfMemory
  | .process                                => some .ioError
  | .alreadyExists | .state | .unsupported  => some .badState

def fromContainerRc (rc : Rc) (what : String) : Status :=
  match mapContainerRc rc with
  | none      => .ok ()
  | some code => .error ⟨code, what ++ ": " ++ containerStrerror rc⟩

namespace World

def isValidName (name : Text) : Bool :=
  Container.nameValid name

def dbDir (w : World) (name : Text) : String :=
  w.dataRoot ++ "/" ++ String.ofList name

def metaDir (w : World) : String :=
  w.dataRoot ++ "/.nexus/containers"

def invalidName (name : Text) : Error :=
  bad ("invalid container name: " ++ String.ofList name)

def init (w : World) (o : Outcome) : Status :=
  if o.initOk then .ok () else .error ⟨.ioError, "cannot create metadata directory: " ++ w.metaDir⟩

def loadMeta (w : World) (name : Text) : Option ContainerMeta :=
  (w.files name).map (ContainerMeta.load name)

def saveMeta (w : World) (m : ContainerMeta) : MetaWrite → Status × World
  | .untouched       => (.error ⟨.ioError, "cannot write metadata for " ++ String.ofList m.name⟩, w)
  | .written upTo ok =>
    (if ok then .ok () else .error ⟨.ioError, "failed writing metadata for " ++ String.ofList m.name⟩,
     { w with files := Function.update w.files m.name (some (m.text.take upTo)) })

def removeMeta (w : World) (name : Text) (removed : Bool) : Status × World :=
  (.ok (), if removed then { w with files := Function.update w.files name none } else w)

def adopt (w : World) (name : Text) (now : Int) : Except Error ContainerMeta × World :=
  match w.loadMeta name with
  | none   => (.error ⟨.notFound, "no such container: " ++ String.ofList name⟩, w)
  | some m =>
    let (rc, registry) :=
      w.registry.containerAdopt m.name m.id m.memory m.cpu m.engine m.cgroup m.pid m.state now
    match fromContainerRc rc ("adopt container " ++ String.ofList name) with
    | .error e => (.error e, { w with registry })
    | .ok ()   => (.ok m, { w with registry })

-- The part of `ContainerCreate` before the metadata is saved.
def register (w : World) (name : Text) (memory : UInt64) (cpu : UInt32) (engine : Text) (o : Outcome) :
    Except Error ContainerMeta × World :=
  if !isValidName name then
    (.error (invalidName name), w)
  else if (w.loadMeta name).isSome then
    (.error <| badState <| "container already exists: " ++ String.ofList name, w)
  else
    match w.init o with
    | .error e => (.error e, w)
    | .ok ()   =>
      let engineArg := if engine = [] then none else some engine
      let (rc, registry) := w.registry.containerCreateEx name memory cpu engineArg none o.os
      match fromContainerRc rc ("create container " ++ String.ofList name) with
      | .error e => (.error e, { w with registry })
      | .ok ()   =>
        let c := (registry.find? name).map (·.snd)
        (.ok { name, memory, cpu, engine
               pid    := -1
               state  := Container.State.created.code
               id     := (c.map (·.id)).getD []
               cgroup := (c.map (·.cgroupPath)).getD [] }, { w with registry })

def containerCreate (w : World) (name : Text) (memory : UInt64) (cpu : UInt32) (engine : Text)
    (o : Outcome) : Status × World :=
  match w.register name memory cpu engine o with
  | (.error e, w) => (.error e, w)
  | (.ok m, w)    => w.saveMeta m o.write

-- The part of `ContainerStart` before the metadata is saved. The workload is started here.
def launch (w : World) (name : Text) (o : Outcome) : Except Error (ContainerMeta × Workload) × World :=
  if !isValidName name then
    (.error (invalidName name), w)
  else
    match w.adopt name o.os.now with
    | (.error e, w) => (.error e, w)
    | (.ok m, w)    =>
      if m.state = Container.State.running.code then
        (.error <| badState <| "container already running: " ++ String.ofList name, w)
      else
        let (rc, _, registry) := w.registry.containerStart name o.os
        match fromContainerRc rc ("start container " ++ String.ofList name) with
        | .error e => (.error e, { w with registry })
        | .ok ()   =>
          let c := (registry.find? name).map (·.snd)
          let pid := (c.map (·.pid)).getD (-1)
          let workload := { name, pid, engine := (c.map (·.dbEngine)).getD [] }
          (.ok ({ m with pid, state := Container.State.running.code }, workload),
           { w with registry, workloads := w.workloads ++ [workload] })

def containerStart (w : World) (name : Text) (o : Outcome) : Status × World :=
  match w.launch name o with
  | (.error e, w)   => (.error e, w)
  | (.ok (m, _), w) => w.saveMeta m o.write

-- The part of `ContainerStop` before the metadata is saved.
def halt (w : World) (name : Text) (o : Outcome) : Except Error ContainerMeta × World :=
  if !isValidName name then
    (.error (invalidName name), w)
  else
    match w.adopt name o.os.now with
    | (.error e, w) => (.error e, w)
    | (.ok m, w)    =>
      let (rc, _, registry) := w.registry.containerStop name o.os
      match fromContainerRc rc ("stop container " ++ String.ofList name) with
      | .error e => (.error e, { w with registry })
      | .ok ()   => (.ok { m with pid := -1, state := Container.State.stopped.code }, { w with registry })

def containerStop (w : World) (name : Text) (o : Outcome) : Status × World :=
  match w.halt name o with
  | (.error e, w) => (.error e, w)
  | (.ok m, w)    => w.saveMeta m o.write

def containerDelete (w : World) (name : Text) (o : Outcome) : Status × World :=
  if !isValidName name then
    (.error (invalidName name), w)
  else
    match w.adopt name o.os.now with
    | (.error e, w) => (.error e, w)
    | (.ok _, w)    =>
      let (rc, _, registry) := w.registry.containerDelete name o.os
      match fromContainerRc rc ("delete container " ++ String.ofList name) with
      | .error e => (.error e, { w with registry })
      | .ok ()   => { w with registry }.removeMeta name o.removed

def containerStatus (w : World) (name : Text) (o : Outcome) : Except Error Text × World :=
  if !isValidName name then
    (.error (invalidName name), w)
  else
    match w.adopt name o.os.now with
    | (.error e, w) => (.error e, w)
    | (.ok _, w)    =>
      let (rc, buf) := w.registry.containerStatus name 512
      match fromContainerRc rc ("status container " ++ String.ofList name) with
      | .error e => (.error e, w)
      | .ok ()   => (.ok buf, w)

def defaultPoolFrames : Nat := 64

def openDb (w : World) (name : Text) (dirOk : Bool) (f : Files) (io : List IoResult) :
    Mem (Except Error Database) × List FileEvent :=
  if !isValidName name then
    (some <| .error <| bad <| "invalid database name: " ++ String.ofList name, [])
  else if (w.loadMeta name).any (·.state = Container.State.running.code) then
    (some <| .error <| badState <| "container " ++ String.ofList name
      ++ " is running; stop it before direct database access (no client protocol exists)", [])
  else if !dirOk then
    (some <| .error ⟨.ioError, "cannot create database directory: " ++ w.dbDir name⟩, [])
  else
    Database.open f defaultPoolFrames io

end World

inductive ManagerCall
  | create (name : Text) (memory : UInt64) (cpu : UInt32) (engine : Text)
  | start (name : Text)
  | stop (name : Text)
  | delete (name : Text)

-- What happens to the world. A process that dies in a call is one whose write ends there, and that is
-- replaced by a new process.
inductive WorldEvent
  | call (c : ManagerCall) (o : Outcome)
  | exit (pid : Int)
  | newProcess

namespace World

def call (w : World) (o : Outcome) : ManagerCall → Status × World
  | .create name memory cpu engine => w.containerCreate name memory cpu engine o
  | .start name                    => w.containerStart name o
  | .stop name                     => w.containerStop name o
  | .delete name                   => w.containerDelete name o

def step (w : World) : WorldEvent → World
  | .call c o   =>
    let (_, w) := w.call o c
    { w with workloads := w.workloads.filter o.survives }
  | .exit pid   => { w with workloads := w.workloads.filter (·.pid ≠ pid) }
  | .newProcess => { w with registry := {} }

def run (w : World) : List WorldEvent → World
  | []      => w
  | e :: es => (w.step e).run es

end World
end NexusDb
