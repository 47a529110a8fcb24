import NexusDb.Database.Theorems.Budget
import NexusDb.Manager.Theorems.Serial

namespace NexusDb

-- The files hold the tables in at most `n` pages.
def Tables.HeldIn (T : Tables) (f : Files) (n : Nat) : Prop :=
  ∃ x L, f.Opens x L ∧ T.Describes x L ∧ x.pages.length ≤ n

theorem Tables.heldIn_fresh (h : Database.isFresh f) : empty.HeldIn f 2 :=
  ⟨_, _, .fresh h, describes_initial, le_rfl⟩

namespace Host

-- The database can be used directly: its name is accepted, and its container is not running.
structure Idle (h : Host) (name : Text) : Prop where
  valid   : World.isValidName name
  stopped : (h.world.loadMeta name).any (·.state = Container.State.running.code) = false

variable {h : Host} {name : Text} {T : Tables}

theorem Idle.openDb (hi : h.Idle name) (f : Files) (io : List IoResult) :
    h.world.openDb name true f io = Database.open f World.defaultPoolFrames io := by
  rw [World.openDb, hi.valid, hi.stopped]
  rfl

-- A call that nothing disturbs. It does what the tables say, and not only when it succeeds.
theorem withDb_exact {call : QueryExecutor → Prog (Except Error α)} {R : Except Error α → Answer → Prop} (hi : h.Idle name)
    (hT : T.HeldIn (h.databases name) n) (hl : n + 2 ≤ pageLimit) (ha : Asks call q R) :
    ∃ res a f T', h.withDb name {} call = some (res, { h with databases := Function.update h.databases name f }) ∧
      R res a ∧ T.Step q a T' ∧ T'.HeldIn f (n + 2) := by
  have ⟨x, L, hx, hdesc, hlen⟩ := hT
  have ⟨db, es, ho, hready⟩ := hx.ready (by omega) 63
  have ⟨a, m', L', p, hexec, hp, hgrow, hlaid, hserves, hsolvent⟩ := hready.performs (by omega) q
  have ⟨disk, hclose, hst, hwal⟩ : ∃ disk, Database.close { db with pool := p } = (.ok (), disk) ∧ disk.storage = m' ∧
      disk.wal.map Wal.file = some [] := Database.close_solvent hserves hsolvent (by decide)
  have ⟨T', hstep, hdesc'⟩ := hdesc.performs hx.laid.realized hp
  rcases ha db.executor db.pool with ⟨res, a', ex', p', hcall, hrun, hR⟩ | ⟨p', _, hrun⟩
  case inr => cases hexec.symm.trans hrun
  case inl =>
    cases hexec.symm.trans hrun
    have hrec : disk.files.Recovers m' := .of_nil (congrArg some hst) (by rw [Disk.files, hwal]; rfl)
    refine ⟨res, a, disk.files, T', ?_, hR, hstep, m', L', .recovers hrec hlaid, hdesc', by omega⟩
    have hopen : h.world.openDb name true (h.databases name) [] = (some (.ok db), es) := (hi.openDb _ _).trans ho
    have hunclosed : Function.update h.unclosed name (h.unclosed name || !Except.isOk (.ok () : Status)) = h.unclosed := by
      rw [Except.isOk, Except.toBool, Bool.not_true, Bool.or_false, Function.update_eq_self]
    simp only [withDb, hopen, hcall, hclose, Database.leave_ok hclose, hunclosed]
    cases res <;> rfl

-- A command in a process of its own.
theorem main_exact (hi : h.Idle cmd.name) (hT : T.HeldIn (h.databases cmd.name) n) (hl : n + 2 ≤ pageLimit)
    (hp : Cli.parseArgs args = .ok cmd) (hq : cmd.query = some q) :
    ∃ a h' T', Cli.main h {} args = some ((cmd.shown a).exit, h') ∧ T.Step q a T' ∧ h'.Idle cmd.name ∧
      T'.HeldIn (h'.databases cmd.name) (n + 2) := by
  have ⟨ha, hmade, hshown⟩ := Cli.Command.makes hq
  let h₁ : Host := { h with world := h.world.step .newProcess }
  have hi₁ : h₁.Idle cmd.name := ⟨hi.valid, hi.stopped⟩
  have ⟨res, a, f, T', hw, hR, hstep, hheld⟩ := withDb_exact hi₁ hT hl ha
  let h' : Host := { h₁ with databases := Function.update h.databases cmd.name f }
  have hrun : Cli.run h₁ {} args = some (cmd.shown a, h') := by
    simp only [Cli.run, hp, hmade]
    rw [hw, ← hshown res a hR]
    rfl
  refine ⟨a, h', T', Option.bind_eq_some_iff.mpr ⟨_, hrun, rfl⟩, hstep, ⟨hi.valid, hi.stopped⟩, ?_⟩
  change T'.HeldIn (Function.update h.databases cmd.name f cmd.name) (n + 2)
  rwa [Function.update_self]

-- When nothing fails and the file has room for two pages more with each command, the commands on a database print the
-- answers that its tables give.
theorem mainAll_exact (hi : h.Idle name) (hT : T.HeldIn (h.databases name) n) (hl : n + 2 * cmds.length ≤ pageLimit)
    (hp : argss.map Cli.parseArgs = cmds.map .ok) (hn : ∀ cmd ∈ cmds, cmd.name = name)
    (hq : cmds.map Cli.Command.query = qs.map some) :
    ∃ as h' T', Cli.mainAll h argss = some (List.zipWith (fun cmd a => (Cli.Command.shown cmd a).exit) cmds as, h') ∧
      T.Run qs as T' := by
  induction cmds generalizing h T n argss qs
  case nil =>
    cases List.map_eq_nil_iff.mp hp
    cases List.map_eq_nil_iff.mp hq.symm
    exact ⟨[], h, T, rfl, .nil⟩
  case cons cmd cmds ih =>
    obtain ⟨args, argss, rfl, hparse, hp⟩ := List.map_eq_cons_iff.mp hp
    obtain ⟨q, qs, rfl, hquery, hq⟩ := List.map_eq_cons_iff.mp hq.symm
    rw [List.length_cons] at hl
    have hname : cmd.name = name := hn cmd List.mem_cons_self
    subst hname
    have ⟨a, h₁, T₁, hmain, hstep, hi₁, hT₁⟩ := main_exact hi hT (by omega) hparse hquery.symm
    have ⟨as, h', T', hall, hrun⟩ := ih hi₁ hT₁ (by omega) hp (fun c hc => hn c (List.mem_cons_of_mem _ hc)) hq.symm
    refine ⟨a :: as, h', T', ?_, .cons hstep hrun⟩
    rw [Cli.mainAll, hmain]
    simp only [Option.bind_eq_bind, Option.bind_some, hall]
    rfl

-- The same from the beginning, where there is no database.
theorem commands_exact (hi : h.Idle name) (hf : Database.isFresh (h.databases name)) (hl : 2 * cmds.length + 2 ≤ pageLimit)
    (hp : argss.map Cli.parseArgs = cmds.map .ok) (hn : ∀ cmd ∈ cmds, cmd.name = name)
    (hq : cmds.map Cli.Command.query = qs.map some) :
    ∃ as h' T, Cli.mainAll h argss = some (List.zipWith (fun cmd a => (Cli.Command.shown cmd a).exit) cmds as, h') ∧
      Tables.empty.Run qs as T :=
  mainAll_exact hi (Tables.heldIn_fresh hf) (by omega) hp hn hq

-- A table is made, a record goes into it, and another one into a table that is not there.
theorem commands_exact_three :
    ∃ as h' T, Cli.mainAll {} ([["table", "create", "a", "t"], ["insert", "a", "t", "0aff"], ["insert", "a", "u", "00"]].map
        (·.map String.toList)) =
      some (List.zipWith (fun cmd a => (Cli.Command.shown cmd a).exit)
        [{ kind := .tableCreate, name := ['a'], table := ['t'] },
         { kind := .insert, name := ['a'], table := ['t'], data := [0x0A, 0xFF] },
         { kind := .insert, name := ['a'], table := ['u'], data := [0] }] as, h') ∧
      Tables.empty.Run [.createTable [0x74], .insert [0x74] (some [0x0A, 0xFF]), .insert [0x75] (some [0])] as T :=
  commands_exact (show Idle {} ['a'] from ⟨by decide, rfl⟩) rfl (by decide) rfl (by simp) rfl

end Host
end NexusDb
