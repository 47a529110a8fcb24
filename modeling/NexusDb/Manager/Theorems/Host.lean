import NexusDb.Database.Theorems.Sessions
import NexusDb.Manager.Host

namespace NexusDb

open Database (Laid)

-- What is known about the records after a query, when everything was written to the files in the end.
def Ledger.settled (l : Ledger) (q : Query) (a : Answer) : Ledger where
  saved t id bs   := q.wrote a = some (t, id, bs) ∨ (l.saved t id bs ∧ ¬(q.target = some (t, id) ∧ a.error? = none))
  written t id bs := l.written t id bs ∨ q.wrote a = some (t, id, bs)

variable {l : Ledger} {q : Query} {a : Answer} {x x' : PageStorage} {L L' : Layout} {K : Contract}

theorem Ledger.Sound.settled (hs : l.Sound x L) (hp : q.Performs K x L a x' L') : (l.settled q a).Sound x' L' := by
  have he := hp.effect hs.laid.realized
  refine ⟨hs.laid.leads (hp.leads hs.laid.realized), fun t id bs hsaved => ?_, fun t id bs hshows => ?_⟩
  · rcases hsaved with hw | ⟨hsaved, hn⟩
    · exact he.shows_wrote hs.laid.realized hw
    · exact he.shows hs.laid.realized hn (hs.saved t id bs hsaved)
  · exact (he.of_shows hs.laid.realized hshows).imp_left (hs.written t id bs)

theorem Database.leave_ok {db : Database} (h : db.close = (.ok (), disk)) : db.leave = disk.files := by
  have ⟨_, hf, _⟩ := Database.close_ok h
  rw [leave, hf, h]

-- The call makes a query of the executor, and returns what the answer says.
def Asks (call : QueryExecutor → Prog (Except Error α)) (q : Query) (R : Except Error α → Answer → Prop) : Prop :=
  ∀ ex (p : BufferPool Disk),
    (∃ r a ex' p', (call ex).exec p = (some r, p') ∧ (q.run ex).exec p = (some (a, ex'), p') ∧ R r a) ∨
    (∃ p', (call ex).exec p = (none, p') ∧ (q.run ex).exec p = (none, p'))

-- The call and the query are the same up to what is done with the result.
theorem Asks.of {call : QueryExecutor → Prog (Except Error α)} {R : Except Error α → Answer → Prop}
    {g : QueryExecutor → Prog β} {k : β → Prog (Except Error α)} {m : QueryExecutor → β → Prog (Answer × QueryExecutor)}
    (hc : ∀ ex, call ex = (g ex).bind k) (hq : ∀ ex, q.run ex = (g ex).bind (m ex))
    (h : ∀ ex b, ∃ r a ex', k b = .ret r ∧ m ex b = .ret (a, ex') ∧ R r a) : Asks call q R := by
  intro ex p
  rw [hc, hq, Prog.exec_bind, Prog.exec_bind]
  match (g ex).exec p with
  | (none, p')   => exact .inr ⟨p', rfl, rfl⟩
  | (some b, p') =>
    have ⟨r, a, ex', hk, hm, hr⟩ := h ex b
    refine .inl ⟨r, a, ex', p', ?_, ?_, hr⟩
    · simp only [hk]
      rfl
    · simp only [hm]
      rfl

namespace Host

section

variable {t : Bytes} {id : RecordId} {r : Option Bytes}

theorem asks_dbInit : Asks (fun _ => return .ok ()) .listTables (fun (r : Status) a => r = .ok () ∧ a.error? = none) :=
  .of (g := fun _ => .ret ()) (fun _ => rfl) (fun _ => rfl) fun _ _ => ⟨_, _, _, rfl, rfl, rfl, rfl⟩

theorem asks_tableCreate : Asks (fun ex => do let (s, _) ← ex.createTable t; return s) (.createTable t)
    (fun r a => a = .status r) :=
  .of (fun _ => rfl) (fun _ => rfl) fun _ _ => ⟨_, _, _, rfl, rfl, rfl⟩

theorem asks_tableList : Asks (fun ex => return .ok ex.listTables) .listTables
    (fun r a => ∃ names, r = .ok names ∧ a = .tables names) :=
  .of (g := fun ex => .ret ex.listTables) (fun _ => rfl) (m := fun ex names => .ret (.tables names, ex)) (fun _ => rfl)
    fun _ _ => ⟨_, _, _, rfl, rfl, _, rfl, rfl⟩

theorem asks_insert : Asks (fun ex => ex.insert t r true) (.insert t r) (fun r a => a = .inserted r) :=
  .of (fun _ => (Prog.bind_ret _).symm) (fun _ => rfl) fun _ _ => ⟨_, _, _, rfl, rfl, rfl⟩

theorem asks_get : Asks (fun ex => ex.get t id true) (.get t id) (fun r a => a = .record r) :=
  .of (fun _ => (Prog.bind_ret _).symm) (fun _ => rfl) fun _ _ => ⟨_, _, _, rfl, rfl, rfl⟩

theorem asks_update : Asks (fun ex => ex.update t id r) (.update t id r) (fun r a => a = .status r) :=
  .of (fun _ => (Prog.bind_ret _).symm) (fun _ => rfl) fun _ _ => ⟨_, _, _, rfl, rfl, rfl⟩

theorem asks_delete : Asks (fun ex => ex.delete t id) (.delete t id) (fun r a => a = .status r) :=
  .of (fun _ => (Prog.bind_ret _).symm) (fun _ => rfl) fun _ _ => ⟨_, _, _, rfl, rfl, rfl⟩

-- The records that were seen before an error are not returned.
def Scanned (r : Except Error (List (RecordId × Bytes))) (a : Answer) : Prop :=
  (∃ rows, r = .ok rows ∧ a = .visited (.ok ()) rows) ∨ ∃ e rows, r = .error e ∧ a = .visited (.error e) rows

theorem asks_scan : Asks (fun ex => do
      match ← ex.scan t (some collectScan) [] with
      | (.error e, _) => return .error e
      | (.ok (), out) => return .ok out) (.scan t (some fun _ _ => true)) Scanned := by
  refine .of (fun _ => rfl) (fun _ => rfl) fun ex b => ?_
  match b with
  | (.error e, _) => exact ⟨_, _, _, rfl, rfl, .inr ⟨e, _, rfl, rfl⟩⟩
  | (.ok (), out) => exact ⟨_, _, _, rfl, rfl, .inl ⟨out, rfl, rfl⟩⟩

end

variable {h h' : Host} {name other : Text} {env : Environment} {res : Except Error α}
  {call : QueryExecutor → Prog (Except Error α)} {R : Except Error α → Answer → Prop}

theorem openDb_cases {w : World} {f : Files} (h : w.openDb name dirOk f io = (r, es)) :
    (∃ e, r = some (.error e) ∧ es = []) ∨ Database.open f World.defaultPoolFrames io = (r, es) := by
  rw [World.openDb] at h
  split at h
  case isTrue => cases h; exact .inl ⟨_, rfl, rfl⟩
  case isFalse =>
    split at h
    case isTrue => cases h; exact .inl ⟨_, rfl, rfl⟩
    case isFalse =>
      split at h
      case isTrue => cases h; exact .inl ⟨_, rfl, rfl⟩
      case isFalse => exact .inr h

theorem openDb_ok {w : World} {f : Files} (h : w.openDb name dirOk f io = (some (.ok db), es)) :
    Database.open f World.defaultPoolFrames io = (some (.ok db), es) :=
  (openDb_cases h).resolve_left fun ⟨_, he, _⟩ => by cases he

-- The database is not opened, or the call is made. The result of the call is returned when `Close` succeeds.
theorem withDb_inv (hw : h.withDb name env call = some (res, h')) :
    (∃ e es, h.world.openDb name env.dirOk (h.databases name) env.io = (some (.error e), es) ∧ res = .error e ∧
      h'.databases = Function.update h.databases name ((h.databases name).after es) ∧ h'.unclosed = h.unclosed) ∨
    (∃ db es r pool, h.world.openDb name env.dirOk (h.databases name) env.io = (some (.ok db), es) ∧
      (call db.executor).exec db.pool = (some r, pool) ∧
      (Database.close { db with pool } = (.ok (), (Database.close { db with pool }).snd) → res = r) ∧
      (∀ a, res = .ok a → (Database.close { db with pool }).fst = .ok ()) ∧
      h'.databases = Function.update h.databases name (Database.leave { db with pool }) ∧
      h'.unclosed = Function.update h.unclosed name (h.unclosed name || !(Database.close { db with pool }).fst.isOk)) := by
  rw [withDb] at hw
  simp only at hw
  split at hw
  case h_1 => cases hw
  case h_2 e es ho =>
    cases hw
    exact .inl ⟨e, es, ho, rfl, rfl, rfl⟩
  case h_3 db es ho =>
    split at hw
    case h_1 => cases hw
    case h_2 r pool hexec =>
      refine .inr ⟨db, es, r, pool, ho, hexec, ?_⟩
      split at hw
      case h_1 =>
        cases hw
        exact ⟨fun _ => rfl, nofun, rfl, rfl⟩
      case h_2 hs =>
        cases hw
        refine ⟨fun h => ?_, nofun, rfl, rfl⟩
        rw [h] at hs
        cases hs
      case h_3 hs =>
        cases hw
        exact ⟨fun _ => rfl, fun _ _ => hs, rfl, rfl⟩

theorem withDb_other (hw : h.withDb name env call = some (res, h')) (hn : other ≠ name) :
    h'.databases other = h.databases other ∧ h'.unclosed other = h.unclosed other := by
  rcases withDb_inv hw with ⟨_, _, _, _, hd, hu⟩ | ⟨_, _, _, _, _, _, _, _, hd, hu⟩
  · rw [hd, hu, Function.update_of_ne hn]
    exact ⟨rfl, rfl⟩
  · rw [hd, hu, Function.update_of_ne hn, Function.update_of_ne hn]
    exact ⟨rfl, rfl⟩

theorem unclosed_withDb (hw : h.withDb name env call = some (res, h')) (hc : h'.unclosed other = false) :
    h.unclosed other = false := by
  by_cases hn : other = name
  case neg => rwa [(withDb_other hw hn).right] at hc
  case pos =>
    subst hn
    rcases withDb_inv hw with ⟨_, _, _, _, _, hu⟩ | ⟨_, _, _, _, _, _, _, _, _, hu⟩
    · rwa [hu] at hc
    · rw [hu, Function.update_self, Bool.or_eq_false_iff] at hc
      exact hc.left

-- A `Close` that fails is reported.
theorem unclosed_of_ok {v : α} (hw : h.withDb name env call = some (.ok v, h')) : h'.unclosed name = h.unclosed name := by
  rcases withDb_inv hw with ⟨_, _, _, hres, _⟩ | ⟨_, _, _, _, _, _, _, hok, _, hu⟩
  · cases hres
  · rw [hu, Function.update_self, hok v rfl]
    exact Bool.or_false _

-- When no `Close` has failed, everything that the call has done is in the files.
theorem withDb_settled (hl : l.Openable (h.databases name)) (ha : Asks call q R)
    (hw : h.withDb name env call = some (res, h')) (hc : h'.unclosed name = false) :
    (∃ e, res = .error e ∧ l.Openable (h'.databases name)) ∨
    (∃ a x L x' L', R res a ∧ l.Sound x L ∧ q.Performs .any x L a x' L' ∧
      (l.settled q a).Openable (h'.databases name)) := by
  rcases withDb_inv hw with ⟨e, es, ho, hres, hd, hu⟩ | ⟨db, es, r, pool, ho, hexec, hres, _, hd, hu⟩
  case inl =>
    refine .inl ⟨e, hres, ?_⟩
    rw [hd, Function.update_self]
    rcases openDb_cases ho with ⟨_, _, rfl⟩ | ho
    · exact hl
    · have hc : (h.databases name).Crash (Database.open (h.databases name) World.defaultPoolFrames env.io).snd
          ((h.databases name).after es) := by
        rw [ho]
        exact .complete _ _
      exact hl.openCrash hc
  case inr =>
    have ⟨x, L, hs, ht⟩ := hl.sound_tracked (openDb_ok ho)
    rcases ha db.executor db.pool with ⟨r', a, ex, p', hr', hq, hR⟩ | ⟨p', hr', _⟩ <;> cases hexec.symm.trans hr'
    have ⟨_, _, x', L', hr, hi, hco, hp⟩ := Database.exec_performs ht.inv ht.coherent ht.executor hs.laid.realized hq
    cases hr
    rw [hu, Function.update_self, Bool.or_eq_false_iff] at hc
    have hclose : Database.close { db with pool } = (.ok (), (Database.close { db with pool }).snd) := by
      refine Prod.ext ?_ rfl
      have hok := hc.right
      generalize (Database.close { db with pool }).fst = s at hok ⊢
      cases s
      case error => cases hok
      case ok => rfl
    refine .inr ⟨a, x, L, x', L', (hres hclose).symm ▸ hR, hs, hp, ?_⟩
    rw [hd, Function.update_self, Database.leave_ok hclose]
    exact .inr ⟨x', L', Database.close_recovers _ hi hco hclose, hs.settled hp⟩

end Host
end NexusDb
