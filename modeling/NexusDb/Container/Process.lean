namespace NexusDb

-- A process as the one sees it that wants to stop it. Time is counted in the rounds in which the
-- caller looks for the process.
structure Process where
  child     : Bool
  permitted : Bool
  -- The round before which it exits, by itself or since it was asked to. It may never do so.
  exitsAt   : Option Nat

inductive Errno
  | search
  | permission
  | noChild
  | interrupted

inductive Signal
  | terminate
  | kill
deriving DecidableEq

-- The entry of one pid in the table of processes.
structure Kernel where
  process : Option Process
  round   : Nat  := 0
  killed  : Bool := false

namespace Kernel

def exited (k : Kernel) (p : Process) : Bool :=
  k.killed || p.exitsAt.any (· ≤ k.round)

-- A process that has exited is there until its parent waits for it. The parent of a process that was
-- not started by the caller does that at once.
def present (k : Kernel) : Bool :=
  k.process.any fun p => p.child || !k.exited p

def kill (k : Kernel) (s : Signal) : Except Errno Unit × Kernel :=
  match k.process with
  | none   => (.error .search, k)
  | some p =>
    if !k.present then
      (.error .search, k)
    else if !p.permitted then
      (.error .permission, k)
    else
      (.ok (), { k with killed := k.killed || s = .kill })

-- With `WNOHANG`. The result says whether the child was reaped.
def waitpid (k : Kernel) : Except Errno Bool × Kernel :=
  match k.process with
  | none   => (.error .noChild, k)
  | some p =>
    if !p.child then
      (.error .noChild, k)
    else if k.exited p then
      (.ok true, { k with process := none })
    else
      (.ok false, k)

-- Without options it returns when the child has exited, or when a signal interrupts it.
def waitpidBlocking (k : Kernel) (interrupted : Bool) : Except Errno Bool × Kernel :=
  match k.process with
  | none   => (.error .noChild, k)
  | some p =>
    if !p.child then
      (.error .noChild, k)
    else if interrupted then
      (.error .interrupted, k)
    else
      (.ok true, { k with process := none })

-- Whether the process was reaped, or is not a child of the caller, in one of the rounds.
def poll (k : Kernel) : Nat → Bool × Kernel
  | 0         => (false, k)
  | tries + 1 =>
    match k.waitpid with
    | (.ok true, k)        => (true, k)
    | (.error .noChild, k) => (true, k)
    | (_, k)               => { k with round := k.round + 1 }.poll tries

-- The rounds, of 100 ms each, then a signal that cannot be ignored.
def reap (k : Kernel) (interrupted : Bool) : Int × Kernel :=
  match k.poll 20 with
  | (true, k)  => (0, k)
  | (false, k) =>
    match (k.kill .kill).snd.waitpidBlocking interrupted with
    | (.ok true, k)        => (0, k)
    | (.error .noChild, k) => (0, k)
    | (_, k)               => (-1, k)

end Kernel

def processStop (pid : Int) (interrupted : Bool) (k : Kernel) : Int × Kernel :=
  if pid ≤ 0 then
    (-1, k)
  else
    match k.kill .terminate with
    | (.ok (), k)         => k.reap interrupted
    | (.error .search, k) => k.reap interrupted
    | (.error _, k)       => (-1, k)

end NexusDb
