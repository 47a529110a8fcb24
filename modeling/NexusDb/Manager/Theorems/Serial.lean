import NexusDb.Manager.Programs
import NexusDb.Manager.Theorems.Hex

namespace NexusDb

namespace Cli

-- What the users of a database see: a command prints what the answer to its query says.

def Command.text (cmd : Command) (a : Answer) : Text :=
  match cmd.kind, a with
  | .dbInit,      _                  => "initialized database ".toList ++ cmd.name
  | .tableCreate, _                  => "created table ".toList ++ cmd.name ++ '.' :: cmd.table
  | .tableList,   .tables names      => tablesText names
  | .insert,      .inserted (.ok id) => buf ("inserted ".toList ++ location id.page id.slot)
  | .get,         .record (.ok data) => recordText cmd.page cmd.slot data
  | .update,      _                  => buf ("updated ".toList ++ location cmd.page cmd.slot)
  | .delete,      _                  => buf ("deleted ".toList ++ location cmd.page cmd.slot)
  | .scan,        .visited _ rows    => scanText rows
  | _,            _                  => []

def Command.shown (cmd : Command) (a : Answer) : Result :=
  match a.error? with
  | some e => mapStatus e
  | none   => { output := cmd.text a }

end Cli

-- The query that a job makes of a database. The engine makes none.
def Job.asks (name : Text) : Job → Option (Cli.Command × Query)
  | .command args =>
    match Cli.parseArgs args with
    | .error _ => none
    | .ok cmd  => if cmd.name = name then cmd.query.map (cmd, ·) else none
  | .engine _ _   => none

-- The jobs one after the other on the tables of a database. Each of them is done as a whole or not at all. What a
-- command prints is the answer to its query; when nothing is printed, the answer may be any.
inductive Tables.Serial (name : Text) : Tables → List Job → List (Option Cli.Exit) → Tables → Prop
  | nil : Serial name T [] [] T
  | asks (hq : job.asks name = some (cmd, q)) (ht : T.Attempt q a T') (hx : ∀ x, r = some x → x = (cmd.shown a).exit)
      (hs : Serial name T' jobs rs T'') : Serial name T (job :: jobs) (r :: rs) T''
  | other (hq : job.asks name = none) (hs : Serial name T jobs rs T') : Serial name T (job :: jobs) (r :: rs) T'

namespace Cli

variable {h h' : Host} {env : Environment} {cmd : Command} {r : Result} {T : Tables}

-- A command makes its query and prints the answer.
inductive Command.Makes (cmd : Command) (q : Query) : Prop
  | intro {call : QueryExecutor → Prog (Except Error α)} {R : Except Error α → Answer → Prop} {f : α → Text}
      (asks : Asks call q R)
      (made : ∀ h env, dispatch h env cmd = (h.withDb cmd.name env call).bind fun x => some (report f x.fst, x.snd))
      (shown : ∀ res a, R res a → report f res = cmd.shown a)

theorem Command.makes (hq : cmd.query = some q) : cmd.Makes q := by
  rw [Command.query] at hq
  simp only at hq
  split at hq
  case h_1 hk =>
    cases hq
    refine ⟨Host.asks_dbInit, fun h env => by simp only [dispatch, hk]; rfl, ?_⟩
    rintro _ a ⟨rfl, ha⟩
    simp only [Command.shown, ha, Command.text, hk]
    rfl
  case h_2 hk =>
    cases hq
    refine ⟨Host.asks_tableList, fun h env => by simp only [dispatch, hk]; rfl, ?_⟩
    rintro _ a ⟨names, rfl, rfl⟩
    simp only [Command.shown, Command.text, hk]
    rfl
  case h_3 hk =>
    cases hq
    refine ⟨Host.asks_tableCreate, fun h env => by simp only [dispatch, hk]; rfl, ?_⟩
    rintro (e | ⟨⟩) a rfl
    · rfl
    · simp only [Command.shown, Command.text, hk]
      rfl
  case h_4 hk =>
    cases hq
    refine ⟨Host.asks_insert, fun h env => by simp only [dispatch, hk]; rfl, ?_⟩
    rintro (e | id) a rfl
    · rfl
    · simp only [Command.shown, Command.text, hk]
      rfl
  case h_5 hk =>
    cases hq
    refine ⟨Host.asks_get, fun h env => by simp only [dispatch, hk]; rfl, ?_⟩
    rintro (e | bs) a rfl
    · rfl
    · simp only [Command.shown, Command.text, hk]
      rfl
  case h_6 hk =>
    cases hq
    refine ⟨Host.asks_update, fun h env => by simp only [dispatch, hk]; rfl, ?_⟩
    rintro (e | ⟨⟩) a rfl
    · rfl
    · simp only [Command.shown, Command.text, hk]
      rfl
  case h_7 hk =>
    cases hq
    refine ⟨Host.asks_delete, fun h env => by simp only [dispatch, hk]; rfl, ?_⟩
    rintro (e | ⟨⟩) a rfl
    · rfl
    · simp only [Command.shown, Command.text, hk]
      rfl
  case h_8 hk =>
    cases hq
    refine ⟨Host.asks_scan, fun h env => by simp only [dispatch, hk]; rfl, ?_⟩
    rintro _ a (⟨rows, rfl, rfl⟩ | ⟨e, rows, rfl, rfl⟩)
    · simp only [Command.shown, Command.text, hk]
      rfl
    · rfl
  case h_9 => cases hq

-- The other commands leave the databases alone.
theorem dispatch_other (hq : cmd.query = none) (hd : dispatch h env cmd = some (r, h')) :
    h'.databases = h.databases ∧ h'.unclosed = h.unclosed := by
  rw [Command.query] at hq
  simp only at hq
  rw [dispatch] at hd
  simp only at hd
  cases hk : cmd.kind <;> rw [hk] at hq hd <;> cases hq <;> cases hd <;> exact ⟨rfl, rfl⟩

theorem shown_rejected (cmd : Command) (q : Query) (e : Error) : cmd.shown (q.rejected e) = mapStatus e := by
  rw [Command.shown, Query.error?_rejected]

end Cli

-- The code of a call that asks a query.
theorem Asks.doneBy {call : QueryExecutor → Prog (Except Error α)} {p p' : BufferPool Disk} (ha : Asks call q R)
    (he : (call ex).exec p = (r, p')) : ∃ r', (q.run ex).exec p = (r', p') ∧
      (∀ v, r = some v → ∃ a ex', r' = some (a, ex') ∧ R v a) := by
  rcases ha ex p with ⟨v, a, ex', p₁, hcall, hrun, hR⟩ | ⟨p₁, hcall, hrun⟩
  · cases he.symm.trans hcall
    exact ⟨_, hrun, by rintro _ ⟨⟩; exact ⟨a, ex', rfl, hR⟩⟩
  · cases he.symm.trans hcall
    exact ⟨_, hrun, by rintro _ ⟨⟩⟩

namespace Host

variable {h h' : Host} {name : Text} {env : Environment} {T : Tables} {call : QueryExecutor → Prog (Except Error α)}
  {R : Except Error α → Answer → Prop} {res : Except Error α} {q : Query}

theorem status_of_isOk {s : Status} (h : (!s.isOk) = false) : s = .ok () := by
  cases s
  case error => cases h
  case ok => rfl

-- A call on a database whose `Close` does not fail.
theorem withDb_held (hT : T.Held (h.databases name)) (ha : Asks call q R) (hw : h.withDb name env call = some (res, h'))
    (hc : h'.unclosed name = false) :
    (∃ e, res = .error e ∧ T.Held (h'.databases name)) ∨
    (∃ a T', R res a ∧ T.Attempt q a T' ∧ T'.Held (h'.databases name)) := by
  rcases withDb_inv hw with ⟨e, es, ho, hres, hd, _⟩ | ⟨db, es, r, pool, ho, hexec, hres, _, hd, hu⟩
  case inl =>
    refine .inl ⟨e, hres, ?_⟩
    rw [hd, Function.update_self]
    rcases openDb_cases ho with ⟨_, _, rfl⟩ | ho
    · exact hT
    · have hc : (h.databases name).Crash (Database.open (h.databases name) World.defaultPoolFrames env.io).snd
          ((h.databases name).after es) := by
        rw [ho]
        exact .complete _ _
      exact hT.openCrash hc
  case inr =>
    rw [hu, Function.update_self, Bool.or_eq_false_iff] at hc
    have hclose := status_of_isOk hc.right
    have ⟨x, L, hx, hdesc⟩ := hT
    have hstart := hx.started (openDb_ok ho)
    have ⟨_, hrun, hR⟩ := ha.doneBy hexec
    have ⟨a, ex', hr, hRa⟩ := hR r rfl
    subst hr
    rw [hstart.executor] at hrun
    have ⟨_, T', ha', hT', hheld⟩ := hstart.closed hdesc (q.doneBy_run hx.laid.realized) hrun hclose
    subst ha'
    rw [hd, Function.update_self, Database.leave_ok (Prod.ext hclose rfl), hres (Prod.ext hclose rfl)]
    exact .inr ⟨a, T', hRa, hT', hheld⟩

-- A process that is killed.
theorem killed_held {o : Mem (Except Error Database) × List FileEvent} {f f' : Files} {code : QueryExecutor → Prog β}
    {Q : β → Answer → Prop} (hT : T.Held f)
    (ho : (∃ e, o = (some (.error e), [])) ∨ o = Database.open f n io) (hq : ∀ s L, Layout.Realized s L → q.DoneBy (code (.loaded L)) Q s L)
    (hk : Killed o code f f') : ∃ a T', T.Attempt q a T' ∧ T'.Held f' := by
  cases hk
  case opening hc =>
    refine ⟨_, T, T.attempt_rejected q ⟨.badState, ""⟩, ?_⟩
    rcases ho with ⟨_, rfl⟩ | rfl
    · cases hc
      exact hT
    · exact hT.openCrash hc
  case running db es r pool pre hopen he hpre hok hc =>
    rcases ho with ⟨_, rfl⟩ | rfl
    · cases hopen
    · have ⟨x, L, hx, hdesc⟩ := hT
      have hstart := hx.started hopen
      rw [hstart.executor] at he
      exact hstart.interrupted hdesc (hq x L hx.laid.realized) he hpre hok hc

end Host

theorem World.openDb_opens (w : World) (name : Text) (dirOk : Bool) (f : Files) (io : List IoResult) :
    (∃ e, w.openDb name dirOk f io = (some (.error e), [])) ∨
    w.openDb name dirOk f io = Database.open f World.defaultPoolFrames io := by
  rcases Host.openDb_cases (w := w) (Prod.ext rfl rfl : w.openDb name dirOk f io = (_, _)) with ⟨e, he, hes⟩ | ho
  · exact .inl ⟨e, Prod.ext he hes⟩
  · exact .inr ho.symm

namespace Host

variable {h h' : Host} {name other : Text} {env : Environment} {T : Tables}

theorem engine_inv (he : h.engine name n env = some (x, h')) :
    (h' = h) ∨
    (∃ e es, Database.open (h.databases name) n env.io = (some (.error e), es) ∧
      h'.databases = Function.update h.databases name ((h.databases name).after es) ∧ h'.unclosed = h.unclosed) ∨
    (∃ db es r pool, Database.open (h.databases name) n env.io = (some (.ok db), es) ∧
      Prog.countPages.exec db.pool = (some r, pool) ∧
      h'.databases = Function.update h.databases name (Database.leave { db with pool }) ∧
      h'.unclosed = Function.update h.unclosed name (h.unclosed name || !(Database.close { db with pool }).fst.isOk)) := by
  rw [engine] at he
  simp only at he
  split at he
  case isTrue =>
    cases he
    exact .inl rfl
  case isFalse =>
    split at he
    case h_1 => cases he
    case h_2 e es ho =>
      cases he
      exact .inr <| .inl ⟨e, es, ho, rfl, rfl⟩
    case h_3 db es ho =>
      split at he
      case h_1 => cases he
      case h_2 r pool hexec =>
        refine .inr <| .inr ⟨db, es, r, pool, ho, hexec, ?_⟩
        split at he <;> cases he <;> exact ⟨rfl, rfl⟩

theorem engine_held (hT : T.Held (h.databases name)) (he : h.engine name n env = some (x, h'))
    (hc : h'.unclosed name = false) : T.Held (h'.databases name) := by
  rcases engine_inv he with rfl | ⟨e, es, ho, hd, _⟩ | ⟨db, es, r, pool, ho, hexec, hd, hu⟩
  · exact hT
  · rw [hd, Function.update_self]
    have hc : (h.databases name).Crash (Database.open (h.databases name) n env.io).snd ((h.databases name).after es) := by
      rw [ho]
      exact .complete _ _
    exact hT.openCrash hc
  · rw [hu, Function.update_self, Bool.or_eq_false_iff] at hc
    have hclose := status_of_isOk hc.right
    have ⟨s, L, hs, hdesc⟩ := hT
    have ⟨_, T', _, hT', hheld⟩ := (hs.started ho).closed hdesc (Query.doneBy_countPages s L) hexec hclose
    rw [hd, Function.update_self, Database.leave_ok (Prod.ext hclose rfl)]
    exact hT'.listTables ▸ hheld

theorem engine_other (he : h.engine name n env = some (x, h')) (hn : other ≠ name) :
    h'.databases other = h.databases other ∧ h'.unclosed other = h.unclosed other := by
  rcases engine_inv he with rfl | ⟨e, es, _, hd, hu⟩ | ⟨db, es, r, pool, _, _, hd, hu⟩
  · exact ⟨rfl, rfl⟩
  · rw [hd, hu, Function.update_of_ne hn]
    exact ⟨rfl, rfl⟩
  · rw [hd, hu, Function.update_of_ne hn, Function.update_of_ne hn]
    exact ⟨rfl, rfl⟩

theorem unclosed_engine (he : h.engine name n env = some (x, h')) (hc : h'.unclosed other = false) :
    h.unclosed other = false := by
  by_cases hn : other = name
  case neg => exact (engine_other he hn).right ▸ hc
  case pos =>
    subst hn
    rcases engine_inv he with rfl | ⟨e, es, _, _, hu⟩ | ⟨db, es, r, pool, _, _, _, hu⟩
    · exact hc
    · exact hu ▸ hc
    · rw [hu, Function.update_self, Bool.or_eq_false_iff] at hc
      exact hc.left

-- One job, seen from one database.
def Seen (name : Text) (T : Tables) (job : Job) (r : Option Cli.Exit) (T' : Tables) : Prop :=
  match job.asks name with
  | none          => T' = T
  | some (cmd, q) => ∃ a, T.Attempt q a T' ∧ ∀ x, r = some x → x = (cmd.shown a).exit

theorem Seen.of_other (hq : job.asks name = none) : Seen name T job r T := by
  rw [Seen, hq]

theorem Seen.of_asks (hq : job.asks name = some (cmd, q)) (ht : T.Attempt q a T')
    (hx : ∀ x, r = some x → x = (cmd.shown a).exit) : Seen name T job r T' := by
  rw [Seen, hq]
  exact ⟨a, ht, hx⟩

theorem Seen.serial (h : Seen name T job r T') (hs : Tables.Serial name T' jobs rs T'') :
    T.Serial name (job :: jobs) (r :: rs) T'' := by
  rw [Seen] at h
  split at h
  case h_1 hq => exact .other hq (h ▸ hs)
  case h_2 hq =>
    have ⟨a, ht, hx⟩ := h
    exact .asks hq ht hx hs

theorem asks_of_parse (hp : Cli.parseArgs args = .ok cmd) :
    (Job.command args).asks name = if cmd.name = name then cmd.query.map (cmd, ·) else none := by
  rw [Job.asks, hp]

theorem asks_of_query (hp : Cli.parseArgs args = .ok cmd) (hq : cmd.query = some q) :
    (Job.command args).asks cmd.name = some (cmd, q) := by
  rw [asks_of_parse hp, if_pos rfl, hq]
  rfl

theorem run_seen (hr : Cli.run h env args = some (r, h')) (hT : T.Held (h.databases name))
    (hc : h'.unclosed name = false) : ∃ T', T'.Held (h'.databases name) ∧ Seen name T (.command args) (some r.exit) T' := by
  rw [Cli.run] at hr
  split at hr
  case h_1 hp =>
    cases hr
    exact ⟨T, hT, .of_other (by rw [Job.asks, hp])⟩
  case h_2 cmd hp =>
    cases hq : cmd.query
    case none =>
      refine ⟨T, (Cli.dispatch_other hq hr).left ▸ hT, .of_other ?_⟩
      rw [asks_of_parse hp, hq]
      exact ite_self _
    case some q =>
      obtain ⟨ha, hmade, hshown⟩ := Cli.Command.makes hq
      rw [hmade] at hr
      obtain ⟨⟨res, h₁⟩, hw, he⟩ := Option.bind_eq_some_iff.mp hr
      cases he
      by_cases hn : name = cmd.name
      case neg =>
        refine ⟨T, (withDb_other hw hn).left ▸ hT, .of_other ?_⟩
        rw [asks_of_parse hp, if_neg (Ne.symm hn)]
      case pos =>
        subst hn
        have hasks := asks_of_query hp hq
        rcases withDb_held hT ha hw hc with ⟨e, hres, hT'⟩ | ⟨a, T', hR, hT', hheld⟩
        · refine ⟨T, hT', .of_asks hasks (T.attempt_rejected q e) ?_⟩
          rintro _ ⟨⟩
          rw [hres, Cli.shown_rejected]
          rfl
        · refine ⟨T', hheld, .of_asks hasks hT' ?_⟩
          rintro _ ⟨⟩
          rw [hshown res a hR]

-- What a command has left is there in the next process.
theorem Happens.seen (hs : h.Happens job r h') (hT : T.Held (h.databases name)) (hc : h'.unclosed name = false) :
    ∃ T' : Tables, T'.Held (h'.databases name) ∧ Seen name T job r T' := by
  cases hs
  case command env args x hm =>
    have ⟨⟨r, h₁⟩, hr, he⟩ := Option.bind_eq_some_iff.mp hm
    cases he
    exact run_seen (h := { h with world := h.world.step .newProcess }) hr hT hc
  case commandKilled args cmd q f env hp hq hk =>
    by_cases hn : name = cmd.name
    case neg =>
      refine ⟨T, ?_, .of_other ?_⟩
      · change T.Held (Function.update h.databases cmd.name f name)
        rwa [Function.update_of_ne hn]
      · rw [asks_of_parse hp, if_neg (Ne.symm hn)]
    case pos =>
      subst hn
      have ⟨a, T', hT', hheld⟩ := killed_held hT (h.world.openDb_opens ..) (fun _ _ => q.doneBy_run) hk
      refine ⟨T', ?_, .of_asks (asks_of_query hp hq) hT' (by rintro _ ⟨⟩)⟩
      change T'.Held (Function.update h.databases cmd.name f cmd.name)
      rwa [Function.update_self]
  case containerKilled hp hq w =>
    refine ⟨T, hT, .of_other ?_⟩
    rw [asks_of_parse hp, hq]
    exact ite_self _
  case engine args o other env x ho hd hm =>
    by_cases hn : name = other
    case neg => exact ⟨T, (engine_other hm hn).left ▸ hT, .of_other rfl⟩
    case pos =>
      subst hn
      exact ⟨T, engine_held hT hm hc, .of_other rfl⟩
  case engineKilled args o other io f ho hd hk =>
    refine ⟨T, ?_, .of_other rfl⟩
    change T.Held (Function.update h.databases other f name)
    by_cases hn : name = other
    case neg => rwa [Function.update_of_ne hn]
    case pos =>
      subst hn
      have ⟨a, T', hT', hheld⟩ := killed_held hT (.inr rfl) (fun s L _ => Query.doneBy_countPages s L) hk
      rw [Function.update_self]
      exact hT'.listTables ▸ hheld

theorem Happens.unclosed (hs : h.Happens job r h') (hc : h'.unclosed name = false) : h.unclosed name = false := by
  cases hs
  case command hm =>
    have ⟨⟨r, h₁⟩, hr, he⟩ := Option.bind_eq_some_iff.mp hm
    cases he
    exact Cli.unclosed_run (h := { h with world := h.world.step .newProcess }) hr hc
  case engine hm => exact unclosed_engine hm hc
  all_goals exact hc

theorem Runs.unclosed (hr : h.Runs jobs rs h') (hc : h'.unclosed name = false) : h.unclosed name = false := by
  induction hr
  case nil => exact hc
  case cons hs _ ih => exact hs.unclosed (ih hc)

-- However the commands and engines of a host end, each database goes on as if the commands on it were done one after the
-- other, and each of them as a whole or not at all. What is printed is true.
theorem Runs.serial (hr : h.Runs jobs rs h') (hT : T.Held (h.databases name)) (hc : h'.unclosed name = false) :
    ∃ T' : Tables, T.Serial name jobs rs T' ∧ T'.Held (h'.databases name) := by
  induction hr generalizing T
  case nil => exact ⟨T, .nil, hT⟩
  case cons hs hr ih =>
    have ⟨T₁, hT₁, hseen⟩ := hs.seen hT (hr.unclosed hc)
    have ⟨T', hserial, hT'⟩ := ih hT₁ hc
    exact ⟨T', hseen.serial hserial, hT'⟩

theorem commands_serial (hf : Database.isFresh (h.databases name)) (hr : h.Runs jobs rs h') (hc : h'.unclosed name = false) :
    ∃ T : Tables, Tables.empty.Serial name jobs rs T ∧ T.Held (h'.databases name) :=
  hr.serial (Tables.held_fresh hf) hc

-- A command that is killed before it has done anything.
theorem Happens.killed_at_start (hp : Cli.parseArgs args = .ok cmd) (hq : cmd.query = some q) :
    h.Happens (.command args) none h := by
  let env : Environment := {}
  have hk : Killed (h.world.openDb cmd.name env.dirOk (h.databases cmd.name) env.io) q.run (h.databases cmd.name)
      (h.databases cmd.name) := .opening (.start ..)
  have hs := Happens.commandKilled hp hq hk
  rwa [Function.update_eq_self] at hs

-- A table is made, the engine runs, an insert is killed as soon as it starts to open the database, and another one is not.
theorem serial_run :
    (do
      let (_, h₁) ← Cli.main {} {} (["table", "create", "a", "t"].map String.toList)
      let (_, h₂) ← h₁.engine ['a'] 64 {}
      let (x, h₃) ← Cli.main h₂ {} (Cli.insertArgs ['a'] ['t'] "00".toList)
      return decide (x.code = 0 ∧ h₃.unclosed ['a'] = false ∧ h₁.world.dbDir ['a'] = "nexusdb_data/a")) = some true := by
  decide +kernel

theorem commands_serial_killed :
    let jobs : List Job :=
      [.command (["table", "create", "a", "t"].map String.toList),
       .engine ['a'] ["--data-dir".toList, "nexusdb_data/a".toList],
       .command (Cli.insertArgs ['a'] ['t'] "ff".toList),
       .command (Cli.insertArgs ['a'] ['t'] "00".toList)]
    ∃ x y h' T, ({} : Host).Runs jobs [some x, none, none, some y] h' ∧ y.code = 0 ∧
      Tables.empty.Serial ['a'] jobs [some x, none, none, some y] T ∧ T.Held (h'.databases ['a']) := by
  intro jobs
  have hrun := serial_run
  obtain ⟨⟨x, h₁⟩, hm₁, hrun⟩ := Option.bind_eq_some_iff.mp hrun
  obtain ⟨⟨e, h₂⟩, hm₂, hrun⟩ := Option.bind_eq_some_iff.mp hrun
  obtain ⟨⟨y, h₃⟩, hm₃, hrun⟩ := Option.bind_eq_some_iff.mp hrun
  obtain ⟨hy, hc, hdir⟩ := of_decide_eq_true (Option.some.inj hrun)
  have hkill : h₂.Happens (.command (Cli.insertArgs ['a'] ['t'] "ff".toList)) none h₂ :=
    Happens.killed_at_start rfl (q := .insert [0x74] (some [0xFF])) rfl
  have hengine : h₁.Happens (.engine ['a'] ["--data-dir".toList, "nexusdb_data/a".toList]) none h₂ :=
    .engine (o := ⟨"nexusdb_data/a".toList, 64⟩) rfl (by rw [hdir]) hm₂
  have hr : ({} : Host).Runs jobs [some x, none, none, some y] h₃ :=
    .cons (.command hm₁) <| .cons hengine <| .cons hkill <| .cons (.command hm₃) .nil
  obtain ⟨T, hs, hT⟩ := commands_serial (show Database.isFresh (({} : Host).databases ['a']) from rfl) hr hc
  exact ⟨x, y, h₃, T, hr, hy, hs, hT⟩

end Host
end NexusDb
