import NexusDb.Database.Theorems.Creation
import NexusDb.Database.Theorems.Effects
import NexusDb.Query.Theorems.Reading

namespace NexusDb

open Layout (Realized)
open HeapTable (contents contents_eq_some_iff)
open Tables (seen seen_eq)

theorem Tables.seen_all (rows : List (RecordId × Bytes)) : seen (fun _ _ => true) rows = rows := by
  induction rows
  case nil => rfl
  case cons ih => rw [seen, ih, if_pos rfl]

theorem Layout.Shows.unique {L : Layout} {id : RecordId} (h : L.Shows s t id bs) (h' : L.Shows s t id bs') : bs = bs' := by
  have ⟨_, _, _, _, hslot⟩ := h
  have ⟨_, _, _, _, hslot'⟩ := h'
  rw [hslot] at hslot'
  cases hslot'
  rfl

-- The records that `Get` and `Scan` return.

namespace Query.Performs

variable {s s' : PageStorage} {L L' : Layout} {K : Contract} {a : Answer} {t bs : Bytes} {id : RecordId} (h : Realized s L)

include h

theorem get_shows (hp : Performs K s L (.get t id) a s' L') (ha : a = .record (.ok bs)) : L.Shows s t id bs := by
  cases hp
  case get e _ he hr =>
    cases ha
    have hr := hr.resolve_right nofun
    have hc : contents s (L.dir e.snd) id = some bs := by rw [contents, ← hr]; rfl
    exact ⟨e, he, rfl, (contents_eq_some_iff (h.stored e he)).mp hc⟩
  all_goals cases ha

theorem scan_shows (hp : Performs K s L (.scan t (some fun _ _ => true)) a s' L') (ha : a = .visited (.ok ()) rows) :
    (id, bs) ∈ rows ↔ L.Shows s t id bs := by
  cases hp
  case scan e _ _ he hr =>
    cases ha
    rcases hr with hr | ⟨_, hr, _⟩
    case inr => cases hr
    rw [(Prod.mk.inj hr).right, seen_eq, List.nil_append, Tables.seen_all, HeapTable.mem_rows (h.stored e he)]
    refine ⟨fun hm => ⟨e, he, rfl, (contents_eq_some_iff (h.stored e he)).mp hm⟩, fun ⟨e', he', ht, hslot⟩ => ?_⟩
    cases List.inj_on_of_nodup_map h.unique he' he ht
    exact (contents_eq_some_iff (h.stored e he)).mpr hslot
  all_goals cases ha

theorem get_of_shows (hp : Performs .reliable s L (.get t id) a s' L') (hs : L.Shows s t id bs) : a = .record (.ok bs) := by
  have ⟨e, he, ht, hslot⟩ := hs
  have hc := (contents_eq_some_iff (h.stored e he)).mpr hslot
  cases hp
  case noTable hn hq =>
    cases hq
    exact absurd (ht ▸ List.mem_map_of_mem he) hn
  case notOpen hf _ => cases hf
  case get e' r he' hr =>
    cases List.inj_on_of_nodup_map h.unique he he' ht
    have hr := hr.resolve_right fun ⟨_, _, hf⟩ => hf
    rw [contents, ← hr] at hc
    cases r <;> cases hc
    rfl

theorem scan_of_shows (hp : Performs .reliable s L (.scan t (some fun _ _ => true)) a s' L') (hs : L.Shows s t id bs) :
    ∃ rows, a = .visited (.ok ()) rows ∧ (id, bs) ∈ rows := by
  have ⟨e, he, ht, hslot⟩ := hs
  have hc := (contents_eq_some_iff (h.stored e he)).mpr hslot
  cases hp
  case noTable hn hq =>
    cases hq
    exact absurd (ht ▸ List.mem_map_of_mem he) hn
  case notOpen hf _ => cases hf
  case scan e' _ _ he' hr =>
    cases List.inj_on_of_nodup_map h.unique he he' ht
    have hr := hr.resolve_right fun ⟨_, _, hf⟩ => hf
    rw [seen_eq, List.nil_append, Tables.seen_all] at hr
    cases hr
    exact ⟨_, rfl, (HeapTable.mem_rows (h.stored e he)).mpr hc⟩

end Query.Performs

namespace Database

variable {db : Database} {m : PageStorage} {L : Layout} {q : Query} {t bs : Bytes} {id : RecordId}

-- Whatever else happens, a query does what it should to the pages that the pool shows.
theorem exec_performs (hi : db.pool.Inv) (hc : db.pool.Coherent m.page?) (he : db.executor = .loaded L) (h : Realized m L)
    (hx : (q.run db.executor).exec db.pool = (r, p)) :
    ∃ a ex m' L', r = some (a, ex) ∧ p.Inv ∧ p.Coherent m'.page? ∧ q.Performs .any m L a m' L' := by
  rw [he] at hx
  have ⟨hk, ⟨a, ex⟩, m', hr, hco, L', _, hp⟩ := Prog.wp_any (Query.wp_run (q.permits_any _) h (.inl trivial)) hi hc hx
  exact ⟨a, ex, m', L', hr, hk.inv, hco, hp⟩

theorem query_performs (hi : db.pool.Inv) (hc : db.pool.Coherent m.page?) (he : db.executor = .loaded L) (h : Realized m L)
    (hq : (db.query q).fst = some a) : ∃ m' L', q.Performs .any m L a m' L' := by
  match hx : (q.run db.executor).exec db.pool with
  | (r, p) =>
    have ⟨_, _, m', L', hr, _, _, hp⟩ := exec_performs hi hc he h hx
    subst hr
    rw [Database.query, hx] at hq
    cases hq
    exact ⟨m', L', hp⟩

theorem shows_of_record? (hi : db.pool.Inv) (hc : db.pool.Coherent m.page?) (he : db.executor = .loaded L)
    (h : Realized m L) (hr : db.record? t id = some bs) : L.Shows m t id bs := by
  rw [record?] at hr
  split at hr <;> cases hr
  case h_1 hq =>
    have ⟨_, _, hp⟩ := query_performs hi hc he h hq
    exact hp.get_shows h rfl

namespace Ready

variable (h : Ready db m L)

include h

theorem look (hq : q.looks) :
    ∃ a ex p m' L', (q.run db.executor).exec db.pool = (some (a, ex), p) ∧ p.Clean ∧ q.Performs .reliable m L a m' L' := by
  have hcalls : db.pool.fetches + (q.run (.loaded L)).calls m < BufferPool.maxStamp := by
    have hle := Nat.add_le_add h.fetches (Query.calls_run hq h.laid.realized h.pages)
    have hl := h.pages
    have hmax : pageLimit + (pageLimit + 1) < BufferPool.maxStamp := by decide
    omega
  have ⟨hclean, hquiet⟩ := (Query.run_noEdit hq (.loaded L)).exec Disk.Quiet (fun _ _ h hr => h.reads hr)
    (fun _ _ _ h ha => ⟨h.allocatePage ha, fun _ _ _ _ _ hw => (h.allocatePage ha).writePage hw⟩) h.clean h.quiet
  have ⟨⟨a, ex⟩, m', p', hexec, _, _, ⟨L', _, hp⟩, _⟩ := Prog.wp_serves
    (Query.wp_run (q.permits_reliable _) h.laid.realized (.inr h.pages)) h.pool hquiet.ok (.inr hcalls)
    (.inr (Query.run_inPlace hq _))
  rw [hexec] at hclean
  exact ⟨a, ex, p', m', L', h.executor ▸ hexec, hclean, hp⟩

theorem query (hq : q.looks) : ∃ a m' L', (db.query q).fst = some a ∧ q.Performs .reliable m L a m' L' := by
  have ⟨a, _, _, m', L', hexec, _, hp⟩ := h.look hq
  exact ⟨a, m', L', by rw [Database.query, hexec], hp⟩

theorem record? : db.record? t id = some bs ↔ L.Shows m t id bs := by
  refine ⟨shows_of_record? h.pool.inv h.pool.coherent h.executor h.laid.realized, fun hs => ?_⟩
  have ⟨a, _, _, hq, hp⟩ := h.query (q := .get t id) rfl
  rw [Database.record?, hq, hp.get_of_shows h.laid.realized hs]

theorem mem_rows : (id, bs) ∈ db.rows t ↔ L.Shows m t id bs := by
  have ⟨a, _, _, hq, hp⟩ := h.query (q := .scan t (some fun _ _ => true)) rfl
  rw [rows, hq]
  constructor
  case mp =>
    intro hm
    split at hm
    case h_1 ha => exact (hp.scan_shows h.laid.realized (Option.some.inj ha)).mp hm
    case h_2 => cases hm
  case mpr =>
    intro hs
    have ⟨rows, ha, hm⟩ := hp.scan_of_shows h.laid.realized hs
    rw [ha]
    exact hm

end Ready
end Database
end NexusDb
