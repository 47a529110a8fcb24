import NexusDb.Database.Engine
import NexusDb.Manager.Router

namespace NexusDb

namespace Cli

-- What a process prints, and how it ends.
structure Exit where
  code   : Nat
  stdout : Text := []
  stderr : Text := []

-- `fputs` stops at the first zero byte.
def Result.exit (r : Result) : Exit :=
  let text :=
    if r.output = [] then
      []
    else
      r.output.takeWhile (· ≠ '\x00') ++ if r.output.getLast? = some '\n' then [] else ['\n']
  if r.exitCode = .ok then { code := r.exitCode.code, stdout := text } else { code := r.exitCode.code, stderr := text }

-- Every command is a process of its own.
def main (h : Host) (env : Environment) (args : List Text) : Mem (Exit × Host) := do
  let (r, h) ← run { h with world := h.world.step .newProcess } env args
  return (r.exit, h)

-- Commands one after the other, in an environment where nothing fails.
def mainAll (h : Host) : List (List Text) → Mem (List Exit × Host)
  | []            => some ([], h)
  | args :: argss => do
    let (x, h) ← main h {} args
    let (xs, h) ← mainAll h argss
    return (x :: xs, h)

-- The query that a command makes. To initialize a database nothing is done once it is open, like for the list of tables.
def Command.query (cmd : Command) : Option Query :=
  let { table, data, .. } := cmd
  let record : RecordId := ⟨cmd.page, cmd.slot⟩
  match cmd.kind with
  | .dbInit | .tableList => some .listTables
  | .tableCreate         => some (.createTable table.bytes)
  | .insert              => some (.insert table.bytes (some data))
  | .get                 => some (.get table.bytes record)
  | .update              => some (.update table.bytes record (some data))
  | .delete              => some (.delete table.bytes record)
  | .scan                => some (.scan table.bytes (some fun _ _ => true))
  | _                    => none

end Cli

namespace Engine

inductive Exit
  | ok
  | usage
  | storage
  | pool
  | shutdown
deriving DecidableEq

def Exit.code : Exit → Nat
  | ok       => 0
  | usage    => 2
  | storage  => 3
  | pool     => 4
  | shutdown => 5

end Engine

-- The engine on a database with an accepted command line: it opens the database, counts its pages, waits for a signal and
-- closes the database.
def Host.engine (h : Host) (name : Text) (frames : Nat) (env : Environment) : Mem (Engine.Exit × Host) :=
  let f := h.databases name
  if !env.dirOk then
    some (.storage, h)
  else
    match Database.open f frames env.io with
    | (none, _)             => none
    | (some (.error e), es) =>
      let exit := if e.code = .outOfMemory ∨ e.code = .bufferFull then Engine.Exit.pool else .storage
      some (exit, { h with databases := Function.update h.databases name (f.after es) })
    | (some (.ok db), _)    =>
      match Prog.countPages.exec db.pool with
      | (none, _)      => none
      | (some r, pool) =>
        let db := { db with pool }
        let s := db.close.fst
        let h := { h with
          databases := Function.update h.databases name db.leave
          unclosed  := Function.update h.unclosed name (h.unclosed name || !s.isOk) }
        match r, s with
        | .error _, _        => some (.storage, h)
        | .ok _,    .error _ => some (.shutdown, h)
        | .ok _,    .ok ()   => some (.ok, h)

-- What is left of the files when a process is killed that has opened them with this code to run. Up to then no call on them
-- has failed.
inductive Killed (opening : Mem (Except Error Database) × List FileEvent) (code : QueryExecutor → Prog α) (f : Files) :
    Files → Prop
  | opening (hc : f.Crash opening.snd f') : Killed opening code f f'
  | running (ho : opening = (some (.ok db), es)) (he : (code db.executor).exec db.pool = (r, pool))
      (hpre : db.pool.dev.trace ++ pre <+: (Database.close { db with pool }).snd.trace)
      (hok : ∀ e ∈ pre, e.failed = false) (hc : db.pool.dev.files.Crash pre f') : Killed opening code f f'

-- What the users of a host start.
inductive Job
  | command (args : List Text)
  | engine (name : Text) (args : List Text)

-- What then happens. Processes do not overlap. What the engine prints is not looked at, and nothing is seen of a process
-- that is killed; what it does to containers is left open.
inductive Host.Happens (h : Host) : Job → Option Cli.Exit → Host → Prop
  | command (hm : Cli.main h env args = some (x, h')) : Happens h (.command args) (some x) h'
  | commandKilled {env : Environment} (hp : Cli.parseArgs args = .ok cmd) (hq : cmd.query = some q)
      (hk : Killed (h.world.openDb cmd.name env.dirOk (h.databases cmd.name) env.io) q.run (h.databases cmd.name) f) :
      Happens h (.command args) none { h with databases := Function.update h.databases cmd.name f }
  | containerKilled (hp : Cli.parseArgs args = .ok cmd) (hq : cmd.query = none) (world : World) :
      Happens h (.command args) none { h with world }
  | engine (ho : Engine.parseOptions {} args = some o) (hd : o.dataDir = (h.world.dbDir name).toList)
      (hm : h.engine name o.poolFrames.toNat env = some (x, h')) : Happens h (.engine name args) none h'
  | engineKilled (ho : Engine.parseOptions {} args = some o) (hd : o.dataDir = (h.world.dbDir name).toList)
      (hk : Killed (Database.open (h.databases name) o.poolFrames.toNat io) (fun _ => Prog.countPages) (h.databases name) f) :
      Happens h (.engine name args) none { h with databases := Function.update h.databases name f }

inductive Host.Runs : Host → List Job → List (Option Cli.Exit) → Host → Prop
  | nil : Runs h [] [] h
  | cons (hs : Happens h job r h₁) (hr : Runs h₁ jobs rs h') : Runs h (job :: jobs) (r :: rs) h'

end NexusDb
