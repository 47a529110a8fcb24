namespace NexusDb

-- Where the parent is in `container_start`, once the checks have passed.
inductive ParentPc
  -- `process_spawn_gated`: before the child exists, and before the parent closes the ends of the child.
  | spawning
  | spawned
  -- `cgroup_attach`.
  | attaching
  -- `process_gate_release`: the release byte, closing the channel, the status of the child.
  | sending
  | closing
  | reading
  -- `process_gate_abort`: the signal.
  | killing
  -- `waitpid`, after which an error is returned.
  | reaping
  | returned (ok : Bool)
  | dead
deriving DecidableEq

-- Where the child is in `gated_child_run`.
inductive ChildPc
  | none
  -- It still has the parent's ends of both channels.
  | born
  | waiting
  | preparing
  | changingDir
  | executing
  | failing (errno : Int)
  | exiting
  -- The workload has replaced the child.
  | workload
  | zombie
  | reaped
deriving DecidableEq

structure GateConfig where
  hasPrepare : Bool
  hasCwd     : Bool

-- The two processes and the channels between them. A bit for an end of a channel says that the parent
-- has it open; the ends of the child are given by what it is doing.
structure Gate where
  parent      : ParentPc := .spawning
  child       : ChildPc  := .none
  releaseEnd  : Bool := false
  statusEnd   : Bool := false
  inFlight    : Bool := false
  status      : Option Int := none
  -- What has happened so far.
  attached     : Bool := false
  attachFailed : Bool := false
  sent         : Bool := false
  prepared     : Bool := false
  executed     : Bool := false

-- A step of one of the processes, with the result of its system call. Calls that are interrupted are
-- repeated and do not appear.
inductive GateAction
  | spawn (ok : Bool)
  | closeEnds
  | attach (ok : Bool)
  | send (ok : Bool)
  | closeRelease
  | readStatus (ok : Bool)
  | kill
  | waitpid
  | parentDies
  | childCloses
  | readRelease (ok : Bool)
  | prepare (errno : Int)
  | chdir (errno : Int)
  | exec (errno : Int)
  | report (ok : Bool)
  | exit
  | childDies
  | collect

namespace Gate

-- No process has the write end of the status pipe open. An exec closes the end of the child.
def statusClosed (g : Gate) : Bool :=
  !g.statusEnd && (g.child = .workload || g.child = .zombie || g.child = .reaped)

def childAlive (g : Gate) : Bool :=
  g.child ≠ .none && g.child ≠ .zombie && g.child ≠ .reaped

-- There is no step when a process is not at the call, or when the call blocks.
def step (cfg : GateConfig) (g : Gate) : GateAction → Option Gate
  | .spawn ok =>
    if g.parent = .spawning then
      if ok then
        some { g with parent := .spawned, child := .born, releaseEnd := true, statusEnd := true }
      else
        some { g with parent := .returned false }
    else none
  | .closeEnds =>
    if g.parent = .spawned then some { g with parent := .attaching, statusEnd := false } else none
  | .attach ok =>
    if g.parent = .attaching then
      if ok then
        some { g with parent := .sending, attached := true }
      else
        some { g with parent := .killing, attachFailed := true }
    else none
  | .send ok =>
    if g.parent = .sending then
      if ok then
        some { g with parent := .closing, inFlight := true, sent := true }
      else
        some { g with parent := .reaping, releaseEnd := false }
    else none
  | .closeRelease =>
    if g.parent = .closing then some { g with parent := .reading, releaseEnd := false } else none
  | .readStatus ok =>
    if g.parent = .reading then
      if !ok then
        some { g with parent := .reaping }
      else
        match g.status with
        | some _ => some { g with parent := .reaping }
        | none   => if g.statusClosed then some { g with parent := .returned true } else none
    else none
  -- The child dies at some later point.
  | .kill => if g.parent = .killing then some { g with parent := .reaping } else none
  -- The child may have been collected by the system when it died.
  | .waitpid =>
    if g.parent = .reaping ∧ (g.child = .zombie ∨ g.child = .reaped) then
      some { g with parent := .returned false, child := .reaped, releaseEnd := false }
    else none
  | .parentDies =>
    match g.parent with
    | .returned _ | .dead => none
    | _ => some { g with parent := .dead, releaseEnd := false, statusEnd := false }
  | .childCloses => if g.child = .born then some { g with child := .waiting } else none
  | .readRelease ok =>
    if g.child = .waiting then
      if !ok then
        some { g with child := .exiting }
      else if g.inFlight then
        some { g with child := .preparing, inFlight := false }
      else if !g.releaseEnd then
        some { g with child := .exiting }
      else
        none
    else none
  | .prepare errno =>
    if g.child = .preparing then
      if !cfg.hasPrepare then
        some { g with child := .changingDir }
      else if errno = 0 then
        some { g with child := .changingDir, prepared := true }
      else
        some { g with child := .failing errno }
    else none
  | .chdir errno =>
    if g.child = .changingDir then
      if !cfg.hasCwd || errno = 0 then
        some { g with child := .executing }
      else
        some { g with child := .failing errno }
    else none
  | .exec errno =>
    if g.child = .executing then
      if errno = 0 then
        some { g with child := .workload, executed := true }
      else
        some { g with child := .failing errno }
    else none
  | .report ok =>
    match g.child with
    | .failing errno =>
      some { g with child := .exiting, status := if ok then some errno else g.status }
    | _ => none
  | .exit => if g.child = .exiting then some { g with child := .zombie } else none
  | .childDies => if g.childAlive then some { g with child := .zombie } else none
  | .collect => if g.child = .zombie then some { g with child := .reaped } else none

def run (cfg : GateConfig) (g : Gate) : List GateAction → Gate
  | []      => g
  | a :: as => ((g.step cfg a).getD g).run cfg as

end Gate
end NexusDb
