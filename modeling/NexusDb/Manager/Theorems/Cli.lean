import NexusDb.Container.Theorems.Process
import NexusDb.Manager.Cli
import NexusDb.Manager.Theorems.Persisted

namespace NexusDb

theorem Registry.containerStop_running {r : Registry} (hfind : r.find? name = some (i, c))
    (hvalid : Container.nameValid name) (hstate : c.state = .running) (hpid : c.pid ≠ -1) :
    (r.containerStop name os).fst = if os.stop = 0 then .ok else .process := by
  rw [containerStop]
  simp only [hvalid, hfind, hstate]
  by_cases hs : os.stop = 0
  case pos => simp [hs, hpid]
  case neg => simp [hs, hpid]

namespace Command

-- What a command has to do: the metadata is complete before an engine is used, and an engine exits
-- before it is looked for the first time.
def Stops (c : Command) (w : World) : Prop :=
  match c.call with
  | .start name => ∀ m x w', (w.step .newProcess).launch name (c.resolve w) = (.ok (m, x), w') →
    x.engine ≠ [] → c.outcome.survives x → c.outcome.write.Complete m
  | .stop name  => ∀ m w', (w.step .newProcess).halt name (c.resolve w) = (.ok m, w') →
    ∀ x ∈ w.workloads, x.name = name → c.outcome.write = .untouched ∨ c.exitsAt = some 0
  | _           => True

end Command

namespace World

variable {w : World} {c : Command} {x : Workload}

def Engines (w : World) : Prop :=
  ∀ x ∈ w.workloads, x.engine ≠ []

theorem Command.resolve_write : (c.resolve w).write = c.outcome.write := by
  rw [Command.resolve]
  split <;> rfl

theorem Command.engine_of_survives (h : (c.resolve w).survives x) : x.engine ≠ [] := by
  rw [Command.resolve] at h
  split at h
  all_goals
    rw [Bool.and_eq_true, decide_eq_true_eq] at h
    exact h.left

theorem command_engines : (w.command c).Engines := by
  intro x hx
  rw [command, step] at hx
  exact Command.engine_of_survives (List.mem_filter.mp hx).right

-- An engine that is asked to stop is still there, unless it exits at once.
theorem Tracked.survives_stop (ht : w.Tracked) (he : w.Engines) (hc : c.call = .stop name)
    (hx : x ∈ w.workloads) (hn : x.name = name) : (c.resolve w).survives x ↔ c.exitsAt ≠ some 0 := by
  have ⟨hpos, m, hm, _, _, hpid⟩ := ht x hx
  have hload : ((w.loadMeta name).map (·.pid)).getD (-1) = x.pid := by
    rw [← hn, hm, Option.map_some, Option.getD_some, hpid]
  have hkernel : c.kernel w x.pid =
      { process := some { child := false, permitted := c.permitted, exitsAt := c.exitsAt } } := by
    rw [Command.kernel, if_pos]
    simpa using ⟨x, hx, rfl⟩
  have hstop := processStop_foreign c.interrupted hpos
    (show ({ child := false, permitted := c.permitted, exitsAt := c.exitsAt } : Process).child = false from rfl)
  simp only [Command.resolve, hc, hload, hkernel, hstop]
  simp [Kernel.present, Kernel.exited_fresh, he x hx]

theorem Tracked.kept_command (ht : w.Tracked) (he : w.Engines) (h : c.Stops w) :
    (w.step .newProcess).Kept (.call c.call (c.resolve w)) := by
  cases hc : c.call
  case create => trivial
  case delete => trivial
  case start name =>
    intro m x w' hl
    have hname := (step_launched hl).left.fresh rfl
    refine ⟨fun hsv => ⟨hname, ?_⟩, fun hne => absurd hname hne⟩
    rw [Command.Stops, hc] at h
    rw [Command.resolve_write]
    have hsv' : c.outcome.survives x := by
      rw [Command.resolve, hc, Bool.and_eq_true] at hsv
      exact hsv.right
    exact h m x w' hl (Command.engine_of_survives hsv) hsv'
  case stop name =>
    intro m w' hl
    have hname := (step_halted hl).left.fresh rfl
    rw [Command.Stops, hc] at h
    rw [Command.resolve_write]
    by_cases hu : c.outcome.write = .untouched
    case pos => exact .inl hu
    case neg =>
      refine .inr fun y hy hyn hsv => ?_
      have hyn := hyn.trans hname
      have hexit := (h m w' hl y hy hyn).resolve_left hu
      exact (ht.survives_stop he hc hy hyn).mp hsv hexit

theorem Tracked.command (ht : w.Tracked) (he : w.Engines) (h : c.Stops w) : (w.command c).Tracked :=
  Tracked.step (ht.step trivial) (ht.kept_command he h)

theorem Tracked.stops (ht : w.Tracked) (he : w.Engines)
    (hr : ∀ x ∈ (w.command c).workloads, (w.command c).Running x.name) : c.Stops w := by
  rw [World.command] at hr
  rw [Command.Stops]
  cases hc : c.call
  case create => trivial
  case delete => trivial
  case start name =>
    intro m x w' hl hengine hsv
    rw [hc] at hr
    have ⟨hlaunched, _, hw⟩ := step_launched hl
    have hsv' : (c.resolve w).survives x := by
      rw [Command.resolve, hc, Bool.and_eq_true]
      exact ⟨decide_eq_true hengine, hsv⟩
    have hrx := hr x (by rw [hw]; exact List.mem_filter.mpr ⟨by simp, hsv'⟩)
    rw [hlaunched.named] at hrx
    rw [← Command.resolve_write (w := w)]
    exact (launched_recorded hl hrx).right
  case stop name =>
    intro m w' hl x hx hn
    rw [hc] at hr
    have ⟨hhalted, _, hw⟩ := step_halted hl
    by_cases hexit : c.exitsAt = some 0
    case pos => exact .inr hexit
    case neg =>
      have hsv := (ht.survives_stop he hc hx hn).mpr hexit
      have hrx := hr x (by rw [hw]; exact List.mem_filter.mpr ⟨hx, hsv⟩)
      have hname : x.name = m.name := hn.trans (hhalted.fresh rfl).symm
      rw [hname] at hrx
      rw [← Command.resolve_write (w := w)]
      exact .inl (halted_untouched hl hrx)

theorem commands_append (w : World) (cs : List Command) : w.commands (cs ++ [c]) = (w.commands cs).command c := by
  induction cs generalizing w
  case nil => rfl
  case cons c' cs hi => exact hi _

theorem commands_exclusive_iff (dataRoot : String) (files : Text → Option Text) (cmds : List Command) :
    let w : World := { dataRoot, files }
    (∀ cs, cs <+: cmds → ∀ name, ¬(w.commands cs).Running name → ∀ x ∈ (w.commands cs).workloads, x.name ≠ name) ↔
      ∀ cs c, cs ++ [c] <+: cmds → c.Stops (w.commands cs) := by
  intro w
  have hinit : (w.commands []).Tracked ∧ (w.commands []).Engines :=
    ⟨fun _ hx => (List.not_mem_nil hx).elim, fun _ hx => (List.not_mem_nil hx).elim⟩
  constructor
  case mp =>
    intro hp
    have hr : ∀ cs, cs <+: cmds → ∀ x ∈ (w.commands cs).workloads, (w.commands cs).Running x.name :=
      fun cs hcs x hx => by_contra fun hn => hp cs hcs x.name hn x hx rfl
    have hstops : ∀ cs c, cs ++ [c] <+: cmds → (w.commands cs).Tracked ∧ (w.commands cs).Engines →
        c.Stops (w.commands cs) := by
      intro cs c hc ⟨ht, he⟩
      refine ht.stops he ?_
      rw [← commands_append]
      exact hr _ hc
    have hinv : ∀ cs, cs <+: cmds → (w.commands cs).Tracked ∧ (w.commands cs).Engines := by
      refine List.prefix_induction hinit fun cs c hc h => ?_
      rw [commands_append]
      exact ⟨h.left.command h.right (hstops cs c hc h), command_engines⟩
    exact fun cs c hc => hstops cs c hc (hinv cs ((List.prefix_append cs [c]).trans hc))
  case mpr =>
    intro hs
    have hinv : ∀ cs, cs <+: cmds → (w.commands cs).Tracked ∧ (w.commands cs).Engines := by
      refine List.prefix_induction hinit fun cs c hc h => ?_
      rw [commands_append]
      exact ⟨h.left.command h.right (hs cs c hc), command_engines⟩
    intro cs hcs name hn x hx hxn
    rw [← hxn] at hn
    exact hn ((hinv cs hcs).left.reports x hx).running

end World

-- For a record of a container that is running, and for a sequence of commands.
theorem stop_really_stops_iff (dataRoot : String) (files : Text → Option Text) (cmds : List Command) :
    (∀ (r : Registry) name i c (os : Primitives) interrupted process, r.find? name = some (i, c) →
      Container.nameValid name → c.state = .running → c.pid ≠ -1 →
      ((∀ code k, processStop c.pid interrupted { process } = (code, k) →
          (r.containerStop name { os with stop := code }).fst = .ok → k.present = false) ↔
        (0 < c.pid → ∀ p, process = some p → p.permitted → p.child ∨ p.exitsAt = some 0))) ∧
    let w : World := { dataRoot, files }
    (∀ cs, cs <+: cmds → ∀ name, ¬(w.commands cs).Running name →
        ∀ x ∈ (w.commands cs).workloads, x.name ≠ name) ↔
      ∀ cs c, cs ++ [c] <+: cmds → c.Stops (w.commands cs) := by
  refine ⟨fun r name i c os interrupted process hfind hvalid hstate hpid => ?_,
    World.commands_exclusive_iff dataRoot files cmds⟩
  rw [← processStop_gone_iff c.pid interrupted process]
  constructor
  case mp =>
    intro h k hk
    refine h 0 k hk ?_
    rw [Registry.containerStop_running hfind hvalid hstate hpid]
    rfl
  case mpr =>
    intro h code k hk hok
    rw [Registry.containerStop_running hfind hvalid hstate hpid] at hok
    split at hok
    case isFalse => cases hok
    case isTrue hcode =>
      have hcode : code = 0 := hcode
      exact h k (hcode ▸ hk)

-- An engine that needs one round to exit is reported to be stopped by a process that is not its parent.
-- A database command may then use the database together with it.
def stopCommands : List Command :=
  [ { call := .create ['a'] 0 0 ['e'], outcome := { write := .written 1000 true, pidFits := World.noSpawn_fits } },
    { call := .start ['a'], outcome :=
        { os := { spawn := 7, release := 1 }, write := .written 1000 true, pidFits := World.spawn_seven_fits } },
    { call := .stop ['a'], outcome := { write := .written 1000 true, pidFits := World.noSpawn_fits }, exitsAt := some 1 } ]

theorem stop_leaves_engine :
    let k : Kernel := { process := some { child := false, permitted := true, exitsAt := some 1 } }
    let w := ({} : World).commands stopCommands
    processStop 7 false k = (0, k) ∧ k.present ∧ ⟨['a'], 7, ['e']⟩ ∈ w.workloads ∧ ¬w.Running ['a'] := by
  intro k w
  have hstate : (w.loadMeta ['a']).map (·.state) = some 2 := by decide +kernel
  refine ⟨processStop_foreign false (by decide) rfl, by decide, by decide +kernel, fun ⟨m, hm, hs⟩ => ?_⟩
  rw [hm, Option.map_some, hs] at hstate
  cases hstate

end NexusDb
