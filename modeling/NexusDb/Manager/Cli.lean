import NexusDb.Container.Process
import NexusDb.Manager.Manager

namespace NexusDb

-- A command that is given on the command line: a process of its own that makes one call. Since the
-- workloads were started by earlier commands, none of them is its child. The last three fields are about
-- the process that a stop is aimed at: whether the command may send signals to it, when it exits, and
-- whether a signal interrupts the command.
structure Command where
  call        : ManagerCall
  outcome     : Outcome
  permitted   : Bool       := true
  exitsAt     : Option Nat := none
  interrupted : Bool       := false

namespace Command

def kernel (c : Command) (w : World) (pid : Int) : Kernel where
  process :=
    if w.workloads.any (·.pid = pid) then
      some { child := false, permitted := c.permitted, exitsAt := c.exitsAt }
    else
      none

-- The outcome with what `process_stop` does. Only the workloads are followed that have the database
-- open, which the built-in placeholder has not.
def resolve (c : Command) (w : World) : Outcome :=
  match c.call with
  | .stop name =>
    let pid := ((w.loadMeta name).map (·.pid)).getD (-1)
    let (code, k) := processStop pid c.interrupted (c.kernel w pid)
    { c.outcome with
      os       := { c.outcome.os with stop := code }
      survives := fun x => x.engine ≠ [] && if x.pid = pid then k.present else c.outcome.survives x }
  | _          => { c.outcome with survives := fun x => x.engine ≠ [] && c.outcome.survives x }

end Command

namespace World

def command (w : World) (c : Command) : World :=
  (w.step .newProcess).step (.call c.call (c.resolve w))

def commands (w : World) : List Command → World
  | []      => w
  | c :: cs => (w.command c).commands cs

end World
end NexusDb
