import NexusDb.Database.Theorems.Maintenance
import NexusDb.Manager.Theorems.Host
import NexusDb.Manager.Theorems.Persisted

namespace NexusDb

-- A record is as long as a page allows, and its page has an id.
theorem Layout.Shows.bounds {L : Layout} {id : RecordId} (hr : Layout.Realized s L) (h : L.Shows s t id bs) :
    bs.length ≤ SlottedPage.maxRecordSize ∧ id.page ≠ invalidId := by
  have ⟨e, he, _, hi, hslot⟩ := h
  have ⟨d, hd, hw⟩ := (hr.stored e he).data _ hi
  rw [HeapTable.slots_eq hd] at hslot
  exact ⟨(SlottedPage.length_record hw.toValid hslot).right, PageStorage.ne_invalidId hd⟩

theorem BufferPool.Clean.flushAll [Device σ] {p : BufferPool σ} (h : p.Clean) : p.flushAll = (.ok (), p) := by
  have heach : ∀ is, p.flushEach (.ok ()) is = (.ok (), p) := by
    intro is
    induction is
    case nil => rfl
    case cons i is ih =>
      rw [flushEach, if_pos, ih]
      cases hf : p.frame? i
      case none => simp [frameAt_eq_getD, hf]
      case some f =>
        rw [frameAt_eq hf]
        cases hu : f.inUse
        case false => rfl
        case true => rw [h i f hf hu]; rfl
  exact heach _

-- Looking at the records leaves nothing to write.
theorem Database.Ready.look_close {db : Database} {q : Query} (h : Ready db m L) (hq : q.looks) :
    ∃ a ex p m' L', (q.run db.executor).exec db.pool = (some (a, ex), p) ∧ q.Performs .reliable m L a m' L' ∧
      (Database.close { db with pool := p }).fst = .ok () := by
  have ⟨a, ex, p, m', L', hexec, hclean, hp⟩ := h.look hq
  refine ⟨a, ex, p, m', L', hexec, hp, ?_⟩
  have hsteady : p.dev.Steady := by
    have hs := Prog.exec_stable Disk.stable_steady (q.run db.executor) h.serves.disk
    rwa [hexec] at hs
  have ⟨w, hw, hopen⟩ := hsteady.log
  have hreset : w.reset = (.ok (), { file := [] }) := by rw [Wal.reset, hopen]; rfl
  simp only [close, hclean.flushAll, hw, hreset, hsteady.nextIo, hsteady.close]
  rfl

namespace Host

variable {l : Ledger} {q : Query} {h h' : Host} {name table other : Text} {env : Environment} {t bs : Bytes} {id : RecordId}

-- The files of a database have the record, perhaps after a recovery.
def Stores (h : Host) (name : Text) (t : Bytes) (id : RecordId) (bs : Bytes) : Prop :=
  ∃ l : Ledger, l.Openable (h.databases name) ∧ l.saved t id bs

-- A database stays usable, with all records that the call does not name.
theorem openable_withDb {call : QueryExecutor → Prog (Except Error α)} (hl : l.Openable (h.databases name))
    (ha : Asks call q R) (hw : h.withDb other env call = some (res, h')) (hc : h'.unclosed name = false) :
    ∃ l' : Ledger, l'.Openable (h'.databases name) ∧
      ∀ t id bs, l.saved t id bs → (other = name → q.target ≠ some (t, id)) → l'.saved t id bs := by
  by_cases he : name = other
  case neg => exact ⟨l, (withDb_other hw he).left ▸ hl, fun _ _ _ hs _ => hs⟩
  case pos =>
    subst he
    rcases withDb_settled hl ha hw hc with ⟨_, _, hl⟩ | ⟨a, _, _, _, _, _, _, _, hl⟩
    · exact ⟨l, hl, fun _ _ _ hs _ => hs⟩
    · exact ⟨_, hl, fun _ _ _ hs hn => .inr ⟨hs, fun ht => hn rfl ht.left⟩⟩

theorem stores_insert (hl : l.Openable (h.databases name)) (hi : h.insert name table bs env = some (.ok id, h'))
    (hc : h'.unclosed name = false) : h'.Stores name table.bytes id bs := by
  rcases withDb_settled hl asks_insert hi hc with ⟨_, he, _⟩ | ⟨a, _, _, _, _, ha, _, _, hl⟩
  · cases he
  · subst ha
    exact ⟨_, hl, .inl rfl⟩

theorem Stores.get (hs : h.Stores name table.bytes id bs) (hc : h.unclosed name = false)
    (hg : h.get name table id env = some (.ok bs', h')) : bs' = bs := by
  have ⟨l, hl, hsaved⟩ := hs
  rcases withDb_settled hl asks_get hg ((unclosed_of_ok hg).trans hc) with ⟨_, he, _⟩ | ⟨a, x, L, _, _, ha, hx, hp, _⟩
  · cases he
  · exact (hp.get_shows hx.laid.realized ha).unique (hx.saved _ _ _ hsaved)

theorem Stores.scan (hs : h.Stores name table.bytes id bs) (hc : h.unclosed name = false)
    (hg : h.scan name table env = some (.ok rows, h')) : (id, bs) ∈ rows := by
  have ⟨l, hl, hsaved⟩ := hs
  rcases withDb_settled hl asks_scan hg ((unclosed_of_ok hg).trans hc) with ⟨_, he, _⟩ | ⟨a, x, L, _, _, ha, hx, hp, _⟩
  · cases he
  · rcases ha with ⟨_, hr, ha⟩ | ⟨_, _, hr, _⟩ <;> cases hr
    exact (hp.scan_shows hx.laid.realized ha).mpr (hx.saved _ _ _ hsaved)

-- A record that is stored can be looked at, unless something goes wrong.
structure Accessible (h : Host) (name : Text) (env : Environment) : Prop where
  valid   : World.isValidName name
  stopped : ¬h.world.Running name
  dirOk   : env.dirOk
  io      : env.io = []
  pages   : ∀ s, (h.databases name).db = some s → s.pages.length ≤ pageLimit

theorem Accessible.openDb (ha : h.Accessible name env) (f : Files) :
    h.world.openDb name env.dirOk f env.io = Database.open f World.defaultPoolFrames [] := by
  have hrun : (h.world.loadMeta name).any (·.state = Container.State.running.code) = false := by
    cases hm : h.world.loadMeta name
    case none => rfl
    case some m => exact decide_eq_false fun hs => ha.stopped ⟨m, hm, hs⟩
  rw [World.openDb, ha.valid, hrun, ha.dirOk, ha.io]
  rfl

theorem Accessible.look {call : QueryExecutor → Prog (Except Error α)} (ha : h.Accessible name env)
    (hl : l.Openable (h.databases name)) (hask : Asks call q R) (hq : q.looks) :
    ∃ r a x L x' L', R r a ∧ l.Sound x L ∧ q.Performs .reliable x L a x' L' ∧
      ∀ v, r = .ok v → ∃ h', h.withDb name env call = some (.ok v, h') := by
  have ⟨db, es, x, L, ho, hr, hs⟩ := hl.open ha.pages 63
  have ⟨a, ex, p, x', L', hexec, hp, hclose⟩ := hr.look_close hq
  rcases hask db.executor db.pool with ⟨r, a', _, p', hcall, hrun, hR⟩ | ⟨_, _, hrun⟩ <;> cases hexec.symm.trans hrun
  refine ⟨r, a, x, L, x', L', hR, hs, hp, ?_⟩
  rintro v rfl
  have ho : h.world.openDb name env.dirOk (h.databases name) env.io = (some (.ok db), es) := (ha.openDb _).trans ho
  simp only [withDb, ho, hcall, hclose]
  exact ⟨_, rfl⟩

theorem Accessible.get (ha : h.Accessible name env) (hs : h.Stores name table.bytes id bs) :
    ∃ h', h.get name table id env = some (.ok bs, h') := by
  have ⟨l, hl, hsaved⟩ := hs
  have hask : Asks (fun ex => ex.get table.bytes id true) _ _ := asks_get
  have ⟨r, a, x, L, _, _, hr, hx, hp, hw⟩ := ha.look hl hask rfl
  cases hr.symm.trans (hp.get_of_shows hx.laid.realized (hx.saved _ _ _ hsaved))
  exact hw bs rfl

theorem Accessible.scan (ha : h.Accessible name env) (hs : h.Stores name table.bytes id bs) :
    ∃ rows h', h.scan name table env = some (.ok rows, h') := by
  have ⟨l, hl, hsaved⟩ := hs
  have ⟨r, a, x, L, _, _, hr, hx, hp, hw⟩ := ha.look hl (asks_scan (t := table.bytes)) rfl
  have ⟨rows, hrows, _⟩ := hp.scan_of_shows hx.laid.realized (hx.saved _ _ _ hsaved)
  rcases hr with ⟨rows', hr, _⟩ | ⟨_, _, _, ha⟩
  · exact ⟨rows', hw rows' hr⟩
  · cases ha.symm.trans hrows

end Host
end NexusDb
