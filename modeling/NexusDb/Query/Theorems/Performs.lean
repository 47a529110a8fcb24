import NexusDb.Query.QueryExecutor
import NexusDb.Catalog.Theorems.Layout

namespace NexusDb

open Layout (Realized)
open SlottedPage (WellFormed records)

namespace Query

-- The table that a query names, and the answer that says that it failed.

def table : Query → Option Bytes
  | insert t _ | get t _ | update t _ _ | delete t _ | scan t _ => some t
  | createTable _ | listTables                                  => none

def rejected (e : Error) : Query → Answer
  | insert _ _                   => .inserted (.error e)
  | get _ _                      => .record (.error e)
  | scan _ _                     => .visited (.error e) []
  | createTable _ | listTables   => .status (.error e)
  | update _ _ _ | delete _ _    => .status (.error e)

-- The contract allows what a query may do to the pages.
structure Permits (K : Contract) (L : Layout) (q : Query) : Prop where
  catalog   : Catalog.chain.Grows K
  directory : HeapTable.directory.Grows K
  insert    : ∀ t bs, q = .insert t (some bs) → ∀ i d d', WellFormed d → WellFormed d' →
                records d' = records d ++ [some bs] → K.change i d d'
  update    : ∀ id bs, ∀ e ∈ L.tables, q = .update e.fst id (some bs) → id.page ∈ (L.dir e.snd).all →
                ∀ d d' old, WellFormed d → WellFormed d' → (records d)[id.slot.toNat]? = some (some old) →
                records d' = (records d).set id.slot.toNat (some bs) → K.change id.page d d'
  delete    : ∀ id, ∀ e ∈ L.tables, q = .delete e.fst id → id.page ∈ (L.dir e.snd).all →
                ∀ d d' old, WellFormed d → WellFormed d' → (records d)[id.slot.toNat]? = some (some old) →
                records d' = (records d).set id.slot.toNat none → K.change id.page d d'

theorem permits_any (q : Query) (L : Layout) : q.Permits .any L where
  catalog   := PageChain.grows_any
  directory := PageChain.grows_any
  insert    := by intros; trivial
  update    := by intros; trivial
  delete    := by intros; trivial

theorem permits_reliable (q : Query) (L : Layout) : q.Permits .reliable L where
  catalog   := PageChain.grows_reliable
  directory := PageChain.grows_reliable
  insert    := by intros; trivial
  update    := by intros; trivial
  delete    := by intros; trivial

-- What a query answers and leads to.
inductive Performs (K : Contract) (s : PageStorage) (L : Layout) : Query → Answer → PageStorage → Layout → Prop
  | createTable (h : Catalog.Creates K s L name r s' L') :
      Performs K s L (.createTable name) (.status (r.map fun _ => ())) s' L'
  | listTables : Performs K s L .listTables (.tables (L.tables.map Prod.fst)) s L
  | noTable (hq : q.table = some name) (h : name ∉ L.tables.map Prod.fst) :
      Performs K s L q (q.rejected ⟨.notFound, "catalog: no such table"⟩) s L
  | notOpen (hq : q.table = some name) (h : K.tolerant) : Performs K s L q (q.rejected e) s L
  | insert (he : e ∈ L.tables) (h : HeapTable.Inserts K s (L.dir e.snd) record r s' C) :
      Performs K s L (.insert e.fst record) (.inserted r) s' (L.setDir e.snd C)
  | get (he : e ∈ L.tables) (h : r = HeapTable.lookup s (L.dir e.snd) rid ∨ ∃ e, r = .error e ∧ K.tolerant) :
      Performs K s L (.get e.fst rid) (.record r) s L
  | update (he : e ∈ L.tables) (h : HeapTable.Updates K s (L.dir e.snd) rid record r s') :
      Performs K s L (.update e.fst rid record) (.status r) s' L
  | delete (he : e ∈ L.tables) (h : HeapTable.Deletes K s (L.dir e.snd) rid r s') :
      Performs K s L (.delete e.fst rid) (.status r) s' L
  | scan (he : e ∈ L.tables) (h : (r, seen) = (.ok (), (HeapTable.visit (collect visitor) []
        (HeapTable.rows s (L.dir e.snd).all)).fst) ∨ ∃ e, r = .error e ∧ K.tolerant) :
      Performs K s L (.scan e.fst (some visitor)) (.visited r seen) s L
  | scanNull (he : e ∈ L.tables) :
      Performs K s L (.scan e.fst none) (.visited (.error <| bad "HeapTable::Scan: null callback") []) s L

variable {s s' : PageStorage} {L L' : Layout} {K : Contract} {q : Query}

theorem Performs.leads (h : Realized s L) (hp : Performs K s L q a s' L') : Layout.Leads s L s' L' := by
  have hchanged : ∀ {e id new}, e ∈ L.tables → HeapTable.Changed s (L.dir e.snd) s' id new → Layout.Leads s L s' L := by
    intro e id new he hc
    have hl := Layout.Leads.table h he hc.leads
    rwa [Layout.setDir, Function.update_eq_self] at hl
  cases hp
  case createTable hc => exact hc.left
  case insert he hi => exact .table h he hi.left
  case update r he hu =>
    cases r
    case ok =>
      have ⟨_, _, hc⟩ := hu
      exact hchanged he hc
    case error =>
      rw [hu.left]
      exact .refl h
  case delete r he hd =>
    cases r
    case ok => exact hchanged he hd
    case error =>
      rw [hd.left]
      exact .refl h
  all_goals exact .refl h

-- Without errors of the environment, a query does not fail for lack of a frame.
theorem Performs.error?_ne (h : Performs .reliable s L q a s' L') : a.error? ≠ some BufferPool.allPinned := by
  have hne : ∀ {code text}, text ≠ BufferPool.allPinned.message → some (⟨code, text⟩ : Error) ≠ some BufferPool.allPinned :=
    fun ht he => ht (congrArg Error.message (Option.some.inj he))
  cases h
  case createTable r hc =>
    cases r
    case ok => rintro ⟨⟩
    case error e =>
      cases hc.right.right.right.right.resolve_right id <;> exact hne (by decide)
  case listTables => rintro ⟨⟩
  case noTable hq h => cases q <;> exact hne (by decide)
  case notOpen hf _ => exact False.elim hf
  case insert r C he hi =>
    cases r
    case ok => rintro ⟨⟩
    case error e => cases hi.right.right.resolve_right id <;> exact hne (by decide)
  case get r rid he hr =>
    rcases hr with rfl | ⟨_, _, hf⟩
    · rw [HeapTable.lookup]
      split
      case isTrue => exact hne (by decide)
      case isFalse =>
        split
        case isTrue => exact hne (by decide)
        case isFalse =>
          split
          case h_1 => exact hne (by decide)
          case h_2 => exact hne (by decide)
          case h_3 => rintro ⟨⟩
    · cases hf
  case update r he hu =>
    cases r
    case ok => rintro ⟨⟩
    case error e => cases hu.right.resolve_right id <;> exact hne (by decide)
  case delete r he hd =>
    cases r
    case ok => rintro ⟨⟩
    case error e => cases hd.right.resolve_right id <;> exact hne (by decide)
  case scan he h =>
    rcases h with h | ⟨_, _, hf⟩
    · cases h
      rintro ⟨⟩
    · cases hf
  case scanNull => exact hne (by decide)

end Query

namespace QueryExecutor

variable {s : PageStorage} {L : Layout} {K : Contract}

-- The executor as it is after it was opened.
def loaded (L : Layout) : QueryExecutor :=
  ⟨Catalog.loaded L.catalog⟩

theorem wp_create :
    create.wp K (fun r s' =>
      (s' = s.push Catalog.chain.initPage ∧ s.numPages ≠ invalidId ∧ r = .ok (loaded (.initial s.numPages))) ∨
      (K.tolerant ∧ ∃ e, r = .error e)) s := by
  refine Prog.wp_seq Catalog.wp_create ?_
  rintro r s' (⟨rfl, hn, rfl⟩ | ⟨ht, e, rfl⟩)
  · exact .inl ⟨rfl, hn, rfl⟩
  · exact .inr ⟨ht, e, rfl⟩

theorem wp_open (h : Realized s L) (hf : K.Fits s) :
    (QueryExecutor.open L.catalog.root).wp K
      (fun r t => t = s ∧ (r = .ok (loaded L) ∨ ∃ e, r = .error e ∧ K.tolerant)) s := by
  refine Prog.wp_seq (Catalog.wp_open h hf) ?_
  rintro r t ⟨rfl, rfl | ⟨e, rfl, ht⟩⟩
  · exact ⟨rfl, .inl rfl⟩
  · exact ⟨rfl, .inr ⟨e, rfl, ht⟩⟩

theorem wp_openTable (h : Realized s L) (hf : K.Fits s) :
    ((loaded L).openTable name).wp K (fun r t => t = s ∧
      ((∃ e ∈ L.tables, e.fst = name ∧ r = .ok (HeapTable.loaded (L.dir e.snd))) ∨
       (name ∉ L.tables.map Prod.fst ∧ r = .error ⟨.notFound, "catalog: no such table"⟩) ∨
       (K.tolerant ∧ ∃ e, r = .error e))) s := by
  rw [openTable, loaded]
  rcases Catalog.findTable_loaded L name with ⟨e, he, hn, hr⟩ | ⟨hn, hr⟩
  · have hopen := HeapTable.wp_open (h.stored e he) hf
    rw [h.root e he] at hopen
    simp only [hr, Catalog.openTable]
    refine Prog.wp_mono hopen ?_
    rintro r t ⟨rfl, rfl | ⟨e', rfl, ht⟩⟩
    · exact ⟨rfl, .inl ⟨e, he, hn, rfl⟩⟩
    · exact ⟨rfl, .inr <| .inr ⟨ht, e', rfl⟩⟩
  · simp only [hr]
    exact ⟨rfl, .inr <| .inl ⟨hn, rfl⟩⟩

end QueryExecutor

namespace Query

variable {s : PageStorage} {L : Layout} {K : Contract} {q : Query}

open QueryExecutor (loaded wp_openTable)

-- Opening the table that a query names, and then going on with it.
theorem wp_openTable_then {k : Except Error HeapTable → Prog α} {f : α → Answer} (h : Realized s L) (hf : K.Fits s)
    (hq : q.table = some name)
    (herr : ∀ e, (k (.error e)).wp K (fun a t => t = s ∧ f a = q.rejected e) s)
    (hok : ∀ e ∈ L.tables, e.fst = name → (k (.ok (HeapTable.loaded (L.dir e.snd)))).wp K
      (fun a s' => ∃ L', L'.catalog = L.catalog ∧ Performs K s L q (f a) s' L') s) :
    (((loaded L).openTable name).bind k).wp K
      (fun a s' => ∃ L', L'.catalog = L.catalog ∧ Performs K s L q (f a) s' L') s := by
  refine Prog.wp_seq (wp_openTable h hf) ?_
  rintro r t ⟨rfl, ⟨e, he, hn, rfl⟩ | ⟨hn, rfl⟩ | ⟨ht, e, rfl⟩⟩
  · exact hok e he hn
  · refine Prog.wp_mono (herr _) ?_
    rintro a t ⟨rfl, ha⟩
    exact ⟨L, rfl, ha ▸ .noTable hq hn⟩
  · refine Prog.wp_mono (herr e) ?_
    rintro a t ⟨rfl, ha⟩
    exact ⟨L, rfl, ha ▸ .notOpen hq ht⟩

theorem wp_run (hk : q.Permits K L) (h : Realized s L) (hf : K.Fits s) :
    (q.run (loaded L)).wp K (fun r s' => ∃ L', r.snd = loaded L' ∧ Performs K s L q r.fst s' L') s := by
  have hsame : ∀ {L'}, L'.catalog = L.catalog → loaded L = loaded L' := fun hc => by rw [loaded, loaded, hc]
  cases q
  case createTable name =>
    refine Prog.wp_bind <| Prog.wp_seq (Catalog.wp_createTable hk.catalog h) ?_
    rintro ⟨r, c⟩ s' ⟨L', rfl, hc⟩
    have hp := Performs.createTable hc
    cases r
    case error => exact ⟨L', rfl, hp⟩
    case ok => exact ⟨L', rfl, hp⟩
  case listTables => exact ⟨L, rfl, .listTables⟩
  case insert t record =>
    refine Prog.wp_seq (wp_openTable_then (f := .inserted) h hf rfl (fun e => ⟨rfl, rfl⟩) ?_)
      fun r s' ⟨L', hc, hp⟩ => ⟨L', hsame hc, hp⟩
    rintro e he rfl
    refine Prog.wp_seq (HeapTable.wp_insert hk.directory (fun i d d' bs hr => hk.insert e.fst bs (by rw [hr]) i d d')
      (HeapTable.loaded_tracks _) (h.stored e he)) ?_
    rintro ⟨r, t⟩ s' ⟨C, _, hi⟩
    exact ⟨L.setDir e.snd C, rfl, .insert he hi⟩
  case get t rid =>
    refine Prog.wp_seq (wp_openTable_then (f := .record) h hf rfl (fun e => ⟨rfl, rfl⟩) ?_)
      fun r s' ⟨L', hc, hp⟩ => ⟨L', hsame hc, hp⟩
    rintro e he rfl
    refine Prog.wp_mono (HeapTable.wp_get (HeapTable.loaded_tracks _) (h.stored e he) rid) ?_
    rintro r s' ⟨rfl, hr⟩
    exact ⟨L, rfl, .get he hr⟩
  case update t rid record =>
    refine Prog.wp_seq (wp_openTable_then (f := .status) h hf rfl (fun e => ⟨rfl, rfl⟩) ?_)
      fun r s' ⟨L', hc, hp⟩ => ⟨L', hsame hc, hp⟩
    rintro e he rfl
    refine Prog.wp_mono (HeapTable.wp_update (HeapTable.loaded_tracks _) (h.stored e he) rid
      fun hi d d' old bs hr => hk.update rid bs e he (by rw [hr]) hi d d' old) ?_
    exact fun r s' hr => ⟨L, rfl, .update he hr⟩
  case delete t rid =>
    refine Prog.wp_seq (wp_openTable_then (f := .status) h hf rfl (fun e => ⟨rfl, rfl⟩) ?_)
      fun r s' ⟨L', hc, hp⟩ => ⟨L', hsame hc, hp⟩
    rintro e he rfl
    refine Prog.wp_mono (HeapTable.wp_delete (HeapTable.loaded_tracks _) (h.stored e he) rid
      fun hi d d' old => hk.delete rid e he rfl hi d d' old) ?_
    exact fun r s' hr => ⟨L, rfl, .delete he hr⟩
  case scan t visitor =>
    refine Prog.wp_seq (wp_openTable_then (f := fun r => .visited r.fst r.snd) h hf rfl (fun e => ⟨rfl, rfl⟩) ?_)
      fun r s' ⟨L', hc, hp⟩ => ⟨L', hsame hc, hp⟩
    rintro e he rfl
    cases visitor
    case none => exact ⟨L, rfl, .scanNull he⟩
    case some visitor =>
      refine Prog.wp_mono (HeapTable.wp_scan (HeapTable.loaded_tracks _) (h.stored e he) []) ?_
      rintro ⟨r, seen⟩ s' ⟨rfl, hr⟩
      exact ⟨L, rfl, .scan he hr⟩

end Query
end NexusDb
