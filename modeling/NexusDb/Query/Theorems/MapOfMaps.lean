import NexusDb.Query.Tables
import NexusDb.Query.Theorems.Performs
import NexusDb.Record.Theorems.Contents
import NexusDb.Record.Theorems.Reached

namespace NexusDb

open Layout (Realized)
open HeapTable (contents slots lookup)

namespace Layout

-- The tables as maps.
def maps (s : PageStorage) (L : Layout) (name : Bytes) : Option (RecordId → Option Bytes) :=
  (L.tables.find? (·.fst = name)).map fun e => contents s (L.dir e.snd)

variable {s s' : PageStorage} {L L' : Layout} {e : Bytes × PageId}

theorem maps_eq_none (h : name ∉ L.tables.map Prod.fst) : L.maps s name = none := by
  rw [maps, Option.map_eq_none_iff, List.find?_eq_none]
  intro e he hn
  exact h (List.mem_map.mpr ⟨e, he, by simpa using hn⟩)

theorem Realized.maps_eq (h : Realized s L) (he : e ∈ L.tables) : L.maps s e.fst = some (contents s (L.dir e.snd)) := by
  match hf : L.tables.find? (·.fst = e.fst) with
  | none    => simpa using List.find?_eq_none.mp hf e he
  | some e' =>
    have hn : e'.fst = e.fst := by simpa using List.find?_some hf
    rw [maps, hf, Option.map_some, List.inj_on_of_nodup_map h.unique (List.mem_of_find?_eq_some hf) he hn]

theorem Realized.maps_isSome (h : Realized s L) : (L.maps s name).isSome ↔ name ∈ L.tables.map Prod.fst := by
  constructor
  case mp =>
    intro hs
    by_contra hn
    rw [maps_eq_none hn] at hs
    cases hs
  case mpr =>
    intro hm
    have ⟨e, he, hn⟩ := List.mem_map.mp hm
    rw [← hn, h.maps_eq he]
    rfl

theorem Realized.maps_ext (h : Realized s L) {F : Bytes → Option (RecordId → Option Bytes)}
    (hsome : ∀ e ∈ L.tables, F e.fst = some (contents s (L.dir e.snd)))
    (hnone : ∀ name, name ∉ L.tables.map Prod.fst → F name = none) : F = L.maps s := by
  funext name
  by_cases hn : name ∈ L.tables.map Prod.fst
  case pos =>
    have ⟨e, he, hn⟩ := List.mem_map.mp hn
    rw [← hn, h.maps_eq he, hsome e he]
  case neg => rw [maps_eq_none hn, hnone name hn]

theorem setDir_self {r : PageId} : (L.setDir r C).dir r = C :=
  Function.update_self ..

-- A call on one table does not change what the others have.
theorem Realized.kept (h : Realized s L) (he : e ∈ L.tables) (he' : e' ∈ L.tables) (hne : e' ≠ e)
    (hl : HeapTable.Leads s (L.dir e.snd) s' C) : HeapTable.Kept s (L.dir e'.snd) s' ((L.setDir e.snd C).dir e'.snd) := by
  have hdir : (L.setDir e.snd C).dir e'.snd = L.dir e'.snd :=
    Function.update_of_ne (fun hr => hne (h.eq_of_root he' he hr)) _ _
  rw [hdir]
  refine ⟨rfl, fun i hi => ?_⟩
  have hi : i ∈ L.tablePages e' := List.mem_append_right _ hi
  exact hl.frame.same i (h.stored_isSome he' hi) fun hm => h.disjoint he' he hne hi hm

theorem Realized.maps_table (h : Realized s L) (he : e ∈ L.tables) (hl : HeapTable.Leads s (L.dir e.snd) s' C) :
    (L.setDir e.snd C).maps s' = Function.update (L.maps s) e.fst (some (contents s' C)) := by
  refine ((Leads.table h he hl).realized.maps_ext (fun e' he' => ?_) fun name hn => ?_).symm
  · by_cases hee : e' = e
    case pos => rw [hee, Function.update_self, setDir_self]
    case neg =>
      have hne : e'.fst ≠ e.fst := fun hn => hee (List.inj_on_of_nodup_map h.unique he' he hn)
      rw [Function.update_of_ne hne, h.maps_eq he', (h.kept he he' hee hl).contents]
  · have hne : name ≠ e.fst := fun he' => hn (he' ▸ List.mem_map_of_mem he)
    exact (Function.update_of_ne hne _ _).trans (maps_eq_none (L := L) hn)

-- Creating a table changes no record.
theorem Realized.kept_creates (h : Realized s L) (hc : Catalog.Creates K s L name r s' L') (he : e ∈ L.tables) :
    HeapTable.Kept s (L.dir e.snd) s' (L'.dir e.snd) := by
  rw [hc.right.right.left e he]
  refine ⟨rfl, fun i hi => ?_⟩
  have hi : i ∈ L.tablePages e := List.mem_append_right _ hi
  exact hc.right.left.same i (h.stored_isSome he hi) fun hl => h.catalog_disjoint he Chain.last_mem (hl ▸ hi)

end Layout

namespace Tables

-- The tables are what the pages hold, and the ids that were returned are ids of slots.
structure Describes (T : Tables) (s : PageStorage) (L : Layout) : Prop where
  contents : T.contents = L.maps s
  issued   : ∀ {id t}, T.issuer id = some t →
    ∃ e ∈ L.tables, e.fst = t ∧ id.page ∈ (L.dir e.snd).all ∧ id.slot.toNat < (slots s id.page).length

variable {s s' : PageStorage} {L L' : Layout} {T : Tables} {e : Bytes × PageId} {id : RecordId}

theorem describes_initial {i : PageId} : empty.Describes s (.initial i) :=
  ⟨rfl, nofun⟩

namespace Describes

theorem find (hd : T.Describes s L) (h : Realized s L) (he : e ∈ L.tables) :
    T.find e.fst id = HeapTable.contents s (L.dir e.snd) id := by
  rw [Tables.find, hd.contents, h.maps_eq he, Option.bind_some]

theorem missing (hd : T.Describes s L) (hn : name ∉ L.tables.map Prod.fst) : T.contents name = none := by
  rw [hd.contents, Layout.maps_eq_none hn]

-- An id that another table has returned is a valid one, of a slot on a page of that table.
theorem foreign (hd : T.Describes s L) (h : Realized s L) (he : e ∈ L.tables) (hf : T.Foreign e.fst id) :
    id.valid ∧ id.page ∉ (L.dir e.snd).all ∧ id.slot.toNat < (slots s id.page).length := by
  have ⟨t, ht, hne⟩ := hf
  have ⟨e', he', hn, hi, hs⟩ := hd.issued ht
  refine ⟨(h.stored e' he').valid hi hs.le, fun hm => ?_, hs⟩
  have hee : e' ≠ e := fun hee => hne (by rw [← hn, hee])
  exact h.disjoint he' he hee (List.mem_append_right _ hi) (List.mem_append_right _ hm)

-- Slots stay where they are.
theorem issued_mono (hd : T.Describes s L) (ht : ∀ e ∈ L.tables, e ∈ L'.tables)
    (hs : ∀ e ∈ L.tables, ∀ i ∈ (L.dir e.snd).all, i ∈ (L'.dir e.snd).all ∧ (slots s i).length ≤ (slots s' i).length)
    (hi : T.issuer id = some t) :
    ∃ e ∈ L'.tables, e.fst = t ∧ id.page ∈ (L'.dir e.snd).all ∧ id.slot.toNat < (slots s' id.page).length := by
  have ⟨e, he, hn, hm, hlt⟩ := hd.issued hi
  have ⟨hm, hle⟩ := hs e he _ hm
  exact ⟨e, ht e he, hn, hm, hlt.trans_le hle⟩

theorem issued_kept (hd : T.Describes s L) (ht : ∀ e ∈ L.tables, e ∈ L'.tables)
    (hk : ∀ e ∈ L.tables, HeapTable.Kept s (L.dir e.snd) s' (L'.dir e.snd)) (hi : T.issuer id = some t) :
    ∃ e ∈ L'.tables, e.fst = t ∧ id.page ∈ (L'.dir e.snd).all ∧ id.slot.toNat < (slots s' id.page).length := by
  refine hd.issued_mono ht (fun e he i hm => ?_) hi
  rw [(hk e he).all, HeapTable.slots_congr ((hk e he).same i hm)]
  exact ⟨hm, le_rfl⟩

theorem issued_table (hd : T.Describes s L) (h : Realized s L) (he : e ∈ L.tables)
    (hl : HeapTable.Leads s (L.dir e.snd) s' C)
    (hs : ∀ i ∈ (L.dir e.snd).all, i ∈ C.all ∧ (slots s i).length ≤ (slots s' i).length) (hi : T.issuer id = some t) :
    ∃ e' ∈ (L.setDir e.snd C).tables, e'.fst = t ∧ id.page ∈ ((L.setDir e.snd C).dir e'.snd).all ∧
      id.slot.toNat < (slots s' id.page).length := by
  refine hd.issued_mono (fun _ he => he) (fun e' he' i hm => ?_) hi
  by_cases hee : e' = e
  case pos =>
    subst hee
    rw [Layout.setDir_self]
    exact hs i hm
  case neg =>
    have hk := h.kept he he' hee hl
    rw [hk.all, HeapTable.slots_congr (hk.same i hm)]
    exact ⟨hm, le_rfl⟩

-- No record has changed.
theorem kept (hd : T.Describes s L) (h : Realized s L) (h' : Realized s' L') (ht : L'.tables = L.tables)
    (hk : ∀ e ∈ L.tables, HeapTable.Kept s (L.dir e.snd) s' (L'.dir e.snd)) : T.Describes s' L' where
  contents := by
    rw [hd.contents]
    refine h'.maps_ext (fun e he => ?_) fun name hn => Layout.maps_eq_none (ht ▸ hn)
    rw [ht] at he
    rw [h.maps_eq he, (hk e he).contents]
  issued   := hd.issued_kept (fun e he => ht ▸ he) hk

theorem inserted (hd : T.Describes s L) (h : Realized s L) (he : e ∈ L.tables)
    (hl : HeapTable.Leads s (L.dir e.snd) s' C) (hi : HeapTable.Inserted s (L.dir e.snd) s' C bs id) :
    ((T.write e.fst id (some bs)).issue e.fst id).Describes s' (L.setDir e.snd C) where
  contents := by
    rw [h.maps_table he hl, hi.contents (h.stored e he) hl.stored]
    simp only [issue, write, hd.contents, h.maps_eq he, Option.map_some]
  issued   := by
    intro id' t ht
    have hlen : ∀ i ∈ (L.dir e.snd).all, i ∈ C.all ∧ (slots s i).length ≤ (slots s' i).length := by
      intro i hm
      constructor
      case left =>
        rcases hi.all with ⟨ha, _⟩ | ⟨ha, _⟩
        · exact ha ▸ hm
        · exact ha ▸ List.mem_append_left _ hm
      case right =>
        by_cases hp : i = id.page
        case pos =>
          rw [hp, hi.slots, List.length_append]
          exact Nat.le_add_right ..
        case neg => rw [HeapTable.slots_congr (hi.same i hm hp)]
    by_cases hid : id' = id
    case pos =>
      subst hid
      cases (Function.update_self ..).symm.trans ht
      refine ⟨e, he, rfl, Layout.setDir_self ▸ hi.mem, ?_⟩
      rw [hi.slots, hi.slot_toNat, List.length_append, List.length_singleton]
      exact Nat.lt_succ_self _
    case neg => exact hd.issued_table h he hl hlen ((Function.update_of_ne hid ..).symm.trans ht)

theorem changed (hd : T.Describes s L) (h : Realized s L) (he : e ∈ L.tables)
    (hc : HeapTable.Changed s (L.dir e.snd) s' id new) : (T.write e.fst id new).Describes s' L := by
  have hsame : L.setDir e.snd (L.dir e.snd) = L := by rw [Layout.setDir, Function.update_eq_self]
  refine ⟨?_, fun {id' t} ht => ?_⟩
  · rw [← hsame, h.maps_table he hc.leads, hc.contents (h.stored e he)]
    simp only [write, hd.contents, h.maps_eq he, Option.map_some]
  · have hi := hd.issued_table h he hc.leads (fun i hm => ⟨hm, ?_⟩) ht
    · rwa [hsame] at hi
    · by_cases hp : i = id.page
      case pos => rw [hp, hc.slots, List.length_set]
      case neg => rw [HeapTable.slots_congr (hc.same i hp)]

theorem created {root : PageId} (hd : T.Describes s L) (h : Realized s L)
    (hc : Catalog.Creates K s L name (.ok root) s' L') : (T.create name).Describes s' L' := by
  have hkept := fun e he => h.kept_creates hc (e := e) he
  have ⟨hl, _, _, _, hn, ht, hroot, _⟩ := hc
  refine ⟨hl.realized.maps_ext (fun e he => ?_) fun n hm => ?_,
    fun hi => hd.issued_kept (fun e he => ht ▸ List.mem_append_left _ he) hkept hi⟩
  · have hstored := hl.realized.stored e he
    rw [ht] at he
    cases List.mem_append.mp he
    case inl he =>
      have hne : e.fst ≠ name := fun hne => hn (hne ▸ List.mem_map_of_mem he)
      rw [(hkept e he).contents, ← h.maps_eq he, ← hd.contents]
      exact Function.update_of_ne hne _ _
    case inr he =>
      cases List.mem_singleton.mp he
      refine (Function.update_self ..).trans (congrArg some (funext fun id => ?_))
      rw [HeapTable.contents_eq hstored, hroot]
      rfl
  · rw [ht, List.map_append, List.mem_append, not_or] at hm
    have hne : n ≠ name := fun hne => hm.right (hne ▸ List.mem_singleton_self _)
    exact (Function.update_of_ne hne _ _).trans (hd.missing hm.left)

end Describes

theorem seen_eq (visitor : RecordId → Bytes → Bool) (rows rs : List (RecordId × Bytes)) :
    (HeapTable.visit (Query.collect visitor) rs rows).fst = rs ++ seen visitor rows := by
  induction rows generalizing rs
  case nil => exact (List.append_nil rs).symm
  case cons r rows ih =>
    rw [HeapTable.visit, seen]
    cases hv : visitor r.fst r.snd
    case false => simp [Query.collect, hv]
    case true =>
      simp only [Query.collect, hv, ↓reduceIte, ih, List.append_assoc, List.singleton_append]

theorem not_badRecord (h : 0 < bs.length ∧ bs.length ≤ SlottedPage.maxRecordSize) : ¬BadRecord (some bs) := by
  rintro (h₀ | hm)
  · exact h.left.ne' h₀
  · exact h.right.not_gt hm

namespace Describes

-- A table that is not there.
theorem step_missing (hd : T.Describes s L) (hq : q.table = some name) (hn : name ∉ L.tables.map Prod.fst) :
    T.Step q (q.rejected ⟨.notFound, "catalog: no such table"⟩) T := by
  have hm := hd.missing hn
  have hfind : ∀ {id}, T.find name id = none := by
    intro id
    rw [Tables.find, hm, Option.bind_none]
  cases q <;> cases hq
  case insert => exact .insertFails (.inl hm)
  case get => exact .getFails hfind fun _ => rfl
  case update => exact .updateFails (.inl hfind) fun _ _ => rfl
  case delete => exact .deleteFails hfind fun _ => rfl
  case scan => exact .scanFails (.inl hm)

variable (hd : T.Describes s L) (h : Realized s L) (he : e ∈ L.tables)

include hd h he

theorem isSome : (T.contents e.fst).isSome := by
  rw [hd.contents, h.maps_eq he]
  rfl

theorem step_insert (hins : HeapTable.Inserts .reliable s (L.dir e.snd) record r s' C) :
    ∃ T', T.Step (.insert e.fst record) (.inserted r) T' ∧ T'.Describes s' (L.setDir e.snd C) := by
  have ⟨hl, hi⟩ := hins
  cases r
  case ok id =>
    have ⟨bs, hr, hi⟩ := hi
    rw [hr]
    have hbs : HeapTable.contents s' C id = some bs := by
      rw [hi.contents (h.stored e he) hl.stored, Function.update_self]
    refine ⟨_, .insert (hd.isSome h he) (not_badRecord (hl.stored.length_record hbs)) ?_, hd.inserted h he hl hi⟩
    -- The slot of an id that was returned is there already.
    refine Option.eq_none_iff_forall_ne_some.mpr fun t ht => ?_
    have ⟨_, _, _, _, hlt⟩ := hd.issued ht
    exact hlt.ne hi.slot_toNat
  case error err =>
    have ⟨hk, hrej⟩ := hi
    refine ⟨T, .insertFails (.inr ?_), hd.kept h (Layout.Leads.table h he hl).realized rfl fun e' he' => ?_⟩
    · cases hrej.resolve_right id
      case empty h₀ => exact .inl h₀
      case large hm => exact .inr hm
    · by_cases hee : e' = e
      case pos =>
        subst hee
        rwa [Layout.setDir_self]
      case neg => exact h.kept he he' hee hl

theorem step_get : T.Step (.get e.fst id) (.record (lookup s (L.dir e.snd) id)) T := by
  have hfind : T.find e.fst id = (lookup s (L.dir e.snd) id).toOption := hd.find h he
  match hr : lookup s (L.dir e.snd) id with
  | .ok bs     =>
    rw [hr] at hfind
    exact .get hfind
  | .error err =>
    rw [hr] at hfind
    refine .getFails hfind fun hf => ?_
    have ⟨hv, hp, _⟩ := hd.foreign h he hf
    rw [lookup, hv, if_neg (by decide), if_pos hp] at hr
    cases hr
    rfl

theorem find_isSome (hc : HeapTable.Changed s (L.dir e.snd) s' id new) : (T.find e.fst id).isSome := by
  have ⟨old, hold⟩ := hc.live
  rw [hd.find h he, (HeapTable.contents_eq_some_iff (h.stored e he)).mpr ⟨hc.page, hold⟩]
  rfl

theorem step_update (hu : HeapTable.Updates .reliable s (L.dir e.snd) id record r s') :
    ∃ T', T.Step (.update e.fst id record) (.status r) T' ∧ T'.Describes s' L := by
  cases r
  case ok =>
    have ⟨bs, hr, hc⟩ := hu
    rw [hr]
    have hnew : HeapTable.contents s' (L.dir e.snd) id = some bs := by
      rw [hc.contents (h.stored e he), Function.update_self]
    exact ⟨_, .update (hd.find_isSome h he hc) (not_badRecord (hc.leads.stored.length_record hnew)), hd.changed h he hc⟩
  case error err =>
    have ⟨hs, hf⟩ := hu
    have hf := hf.resolve_right fun hf => hf
    rw [hs]
    refine ⟨T, .updateFails ?_ fun hforeign hbad => ?_, hd⟩
    · rw [hd.find h he, BadRecord, or_assoc]
      exact hf.contents (h.stored e he)
    · have ⟨hv, hp, hlt⟩ := hd.foreign h he hforeign
      have ⟨h₀, hm⟩ := not_or.mp hbad
      exact hf.notFound h₀ hm hv hp hlt

theorem step_delete (hu : HeapTable.Deletes .reliable s (L.dir e.snd) id r s') :
    ∃ T', T.Step (.delete e.fst id) (.status r) T' ∧ T'.Describes s' L := by
  cases r
  case ok => exact ⟨_, .delete (hd.find_isSome h he hu), hd.changed h he hu⟩
  case error err =>
    have ⟨hs, hf⟩ := hu
    have hf := hf.resolve_right fun hf => hf
    rw [hs]
    refine ⟨T, .deleteFails ?_ fun hforeign => ?_, hd⟩
    · rw [hd.find h he]
      exact hf.contents (h.stored e he)
    · have ⟨hv, _, hlt⟩ := hd.foreign h he hforeign
      exact hf.notFound hv hlt

theorem step_scan (visitor : RecordId → Bytes → Bool) :
    T.Step (.scan e.fst (some visitor)) (.visited (.ok ()) (HeapTable.visit (Query.collect visitor) []
      (HeapTable.rows s (L.dir e.snd).all)).fst) T := by
  rw [seen_eq, List.nil_append]
  have hM : T.contents e.fst = some (HeapTable.contents s (L.dir e.snd)) := by rw [hd.contents, h.maps_eq he]
  exact .scan hM (HeapTable.rows_nodup (h.stored e he)) fun _ _ => HeapTable.mem_rows (h.stored e he)

end Describes

-- Every query on the pages is a step of the tables.
theorem Describes.performs (hd : T.Describes s L) (h : Realized s L) (hp : Query.Performs .reliable s L q a s' L') :
    ∃ T', T.Step q a T' ∧ T'.Describes s' L' := by
  have hl := hp.leads h
  cases hp
  case createTable name r hc =>
    cases r
    case ok root =>
      have ⟨_, _, _, hv, hn, _⟩ := hc
      exact ⟨_, .create hv (hd.missing hn), hd.created h hc⟩
    case error e =>
      have ⟨_, _, _, ht, hrej⟩ := hc
      have hnew := (hrej.resolve_right fun hf => hf).not_new
      have hkept := hd.kept h hl.realized ht fun e he => h.kept_creates hc he
      refine ⟨T, .createFails fun ⟨hv, hn⟩ => hnew ⟨hv, fun hm => ?_⟩, hkept⟩
      rw [← h.maps_isSome (s := s), ← hd.contents, hn] at hm
      cases hm
  case listTables =>
    refine ⟨T, .list h.unique fun name => ?_, hd⟩
    rw [hd.contents, h.maps_isSome]
  case noTable hn hq => exact ⟨T, hd.step_missing hq hn, hd⟩
  case notOpen hf _ => exact False.elim hf
  case insert r C he hi => exact hd.step_insert h he hi
  case get r rid he hr =>
    rcases hr with rfl | ⟨_, _, hf⟩
    · exact ⟨T, hd.step_get h he, hd⟩
    · cases hf
  case update r he hu => exact hd.step_update h he hu
  case delete r he hu => exact hd.step_delete h he hu
  case scan he hr =>
    rcases hr with hr | ⟨_, _, hf⟩
    · cases hr
      exact ⟨T, hd.step_scan h he _, hd⟩
    · cases hf
  case scanNull => exact ⟨T, .scanFails (.inr rfl), hd⟩

end Tables

namespace QueryExecutor

open BufferPool (maxStamp)

variable [Device σ] {p : BufferPool σ} {s : PageStorage} {L : Layout} {T : Tables}

theorem exec_runAll (h : p.Serves s) (hr : Realized s L) (hd : T.Describes s L)
    (ho : Device.ok (((loaded L).runAll qs).exec p).snd.dev) (hf : (((loaded L).runAll qs).exec p).snd.fetches < maxStamp)
    (hl : (Device.numPages (((loaded L).runAll qs).exec p).snd.dev).toNat ≤ pageLimit) :
    ∃ as e q T', ((loaded L).runAll qs).exec p = (some (as, e), q) ∧ T.Run qs as T' := by
  induction qs generalizing p s L T
  case nil => exact ⟨[], _, p, T, rfl, .nil⟩
  case cons q qs ih =>
    rw [runAll, Prog.bind_eq] at ho hf hl ⊢
    have hf₁ := (Prog.exec_fetches_le_bind _ _ p).trans_lt hf
    have hl₁ := (Prog.exec_numPages_le_bind _ _ h.inv h.coherent).trans hl
    have hw := Query.wp_run (q.permits_reliable _) hr (.inr (Prog.length_pages_le _ h hl₁))
    have ⟨⟨a, e₁⟩, s₁, q₁, hexec, _, hs₁, ⟨L₁, he, hp⟩, _⟩ :=
      Prog.wp_serves hw h (Prog.exec_ok_of_bind ho) (.inl hf₁) (.inl hl₁)
    have he : e₁ = loaded L₁ := he
    subst he
    have ⟨T₁, hstep, hd₁⟩ := hd.performs hr hp
    rw [Prog.exec_bind, hexec] at ho hf hl ⊢
    simp only [Prog.bind_eq] at ho hf hl ⊢
    have hf₂ := (Prog.exec_fetches_le_bind _ _ q₁).trans_lt hf
    have hl₂ := (Prog.exec_numPages_le_bind _ _ hs₁.inv hs₁.coherent).trans hl
    have ⟨as, e, q₂, T₂, hexec₂, hrun⟩ := ih hs₁ (hp.leads hr).realized hd₁ (Prog.exec_ok_of_bind ho) hf₂ hl₂
    rw [Prog.exec_bind, hexec₂]
    exact ⟨a :: as, e, q₂, T₂, rfl, .cons hstep hrun⟩

theorem createAndRun_mapOfMaps {dev : σ} (hp : BufferPool.create dev n = .ok p) (hs : ∀ i, Device.page? dev i = s.page? i)
    (ho : Device.ok ((createAndRun qs).exec p).snd.dev) (hf : ((createAndRun qs).exec p).snd.fetches < maxStamp)
    (hl : (Device.numPages ((createAndRun qs).exec p).snd.dev).toNat ≤ pageLimit) :
    ∃ as e q T, (createAndRun qs).exec p = (some (.ok (as, e)), q) ∧ Tables.empty.Run qs as T := by
  have hserves : p.Serves s := .create hp hs
  rw [createAndRun, Prog.bind_eq] at ho hf hl ⊢
  have hf₁ := (Prog.exec_fetches_le_bind _ _ p).trans_lt hf
  have hl₁ := (Prog.exec_numPages_le_bind _ _ hserves.inv hserves.coherent).trans hl
  have ⟨r, s₁, q₁, hexec, _, hs₁, hq, _⟩ := Prog.wp_serves (wp_create (K := .reliable)) hserves (Prog.exec_ok_of_bind ho)
    (.inl hf₁) (.inl hl₁)
  rcases hq with ⟨rfl, hn, rfl⟩ | ⟨ht, _⟩
  case inr => cases ht
  rw [Prog.exec_bind, hexec] at ho hf hl ⊢
  simp only [Prog.bind_eq] at ho hf hl ⊢
  have hf₂ := (Prog.exec_fetches_le_bind _ _ q₁).trans_lt hf
  have hl₂ := (Prog.exec_numPages_le_bind _ _ hs₁.inv hs₁.coherent).trans hl
  have hinit : (s.push Catalog.chain.initPage).page? s.numPages = some Catalog.chain.initPage :=
    PageStorage.page?_push_self hn
  have ⟨as, e, q, T, hexec₂, hrun⟩ := exec_runAll hs₁ (Layout.realized_initial hinit) Tables.describes_initial
    (Prog.exec_ok_of_bind ho) hf₂ hl₂
  rw [Prog.exec_bind, hexec₂]
  exact ⟨as, e, q, T, rfl, hrun⟩

open HeapTable (newFile)

theorem createAndRun_mapOfMaps_newFile : ∃ as e q T,
    (createAndRun [.createTable [0x74], .insert [0x74] (some [0x61]), .insert [0x75] (some [0x61])]).exec newFile =
      (some (.ok (as, e)), q) ∧
    Tables.empty.Run [.createTable [0x74], .insert [0x74] (some [0x61]), .insert [0x75] (some [0x61])] as T := by
  have ho : Disk.Plain ((createAndRun [.createTable [0x74], .insert [0x74] (some [0x61]),
      .insert [0x75] (some [0x61])]).exec newFile).snd.dev := Prog.exec_stable Disk.stable_plain _ (.new .empty)
  exact createAndRun_mapOfMaps (show BufferPool.create newFile.dev 1 = .ok newFile from rfl) (s := .empty) (fun _ => rfl) ho.ok
    (by decide +kernel) (by decide +kernel)

end QueryExecutor
end NexusDb
