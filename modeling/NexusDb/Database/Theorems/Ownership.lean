import NexusDb.Database.Session
import NexusDb.Database.Theorems.Creation

namespace NexusDb

open Database (Laid)

-- The uses of a database from its creation on. Any call on a file may fail. The users of the pool fetch
-- pages and keep them as they like, but only the executor modifies them.
inductive Session.Reached : Session → Prop
  | create (hf : Database.isFresh f) (h : Database.open f n io = (some (.ok db), es)) : Reached (start db)
  | step (h : Reached s) (hm : ∀ i g, a ≠ .pool (.modify i g)) : Reached (s.step a)
  | reopen (h : Reached s)
      (hc : Database.close { pool := s.client.pool, executor := s.executor, catalogRoot } = (.ok (), disk))
      (ht : disk.torn = false) (ho : Database.open disk.files n io = (some (.ok db), es)) : Reached (start db)

namespace Session

-- The pool together with the storage has the pages of `m`, which are a database with layout `L`.
structure Owns (s : Session) (m : PageStorage) (L : Layout) : Prop where
  client   : s.client.Inv
  coherent : s.client.pool.Coherent m.page?
  executor : s.executor = .loaded L
  laid     : Laid m L

variable {s : Session} {m : PageStorage} {L : Layout}

theorem Owns.query (h : Owns s m L) (q : Query) : ∃ m' L', Owns (s.step (.query q)) m' L' := by
  have ⟨r, m', hr, hco, L', hex, hp⟩ := Prog.wp_exec (c := .any) trivial
    (Query.wp_run (q.permits_any _) h.laid.realized (.inl trivial)) h.client.pool h.coherent
  have hk := Prog.exec_keeps h.client.pool (q.run s.executor)
  rw [← h.executor] at hr hco
  refine ⟨m', L', ?_⟩
  rw [Session.step]
  split
  case h_1 he => rw [he] at hr; cases hr
  case h_2 a e p he =>
    rw [he] at hr hco hk
    cases hr
    exact ⟨h.client.keeps hk, hco, hex, h.laid.leads (hp.leads h.laid.realized)⟩

theorem Owns.pool (h : Owns s m L) (op : PoolOp) (hm : ∀ i g, op ≠ .modify i g) : Owns (s.step (.pool op)) m L := by
  rw [Session.step.eq_def]
  split
  case h_1 => exact h
  case h_2 => exact h
  case h_3 op' ha hw he =>
    cases he
    have hc : (s.client.step op).snd.pool.Coherent m.page? := Client.step_rule (·.Coherent m.page?)
      (fun p q hi hc st => hc.steps hi st) (fun p id i q hc hp => (hc.pinned hp).left) (fun p i hc => hc.unpin i)
      h.client h.coherent op hm (fun e => ha (e ▸ rfl)) fun page e => hw page (e ▸ rfl)
    exact ⟨h.client.step op, hc, h.executor, h.laid⟩
  case h_4 he => cases he

theorem owns_open (ho : Database.Opened m log n io db w w' p) (hlog : log.getD [] = []) (h : Laid m L) :
    Owns (start db) m L := by
  have hs := ho.recover_nil hlog
  have hroot := Except.ok.inj <| h.readHeader.symm.trans ho.header
  have ⟨he, hi, hp, hc⟩ := ho.laid (hs.symm ▸ h) hroot
  exact ⟨⟨hi, hp, nofun⟩, hs ▸ hc, he, h⟩

-- A database that was closed and is opened again.
theorem Owns.reopen (h : Owns s m L)
    (hc : Database.close { pool := s.client.pool, executor := s.executor, catalogRoot } = (.ok (), disk))
    (ho : Database.open disk.files n io = (some (.ok db), es)) : Owns (start db) m L := by
  have ⟨p, hf, hs, hlog⟩ := Database.close_ok hc
  have hco : p.Coherent m.page? := h.coherent.steps h.client.pool (BufferPool.flushAll_steps hf)
  have hm : disk.storage = m :=
    hs.trans <| PageStorage.page?_ext <| hco.of_clean fun _ _ => BufferPool.flushAll_clean hf
  have hfresh : ¬Database.isFresh disk.files := Database.not_isFresh (congrArg some hm) h.laid.isSome_header
  have ⟨m', _, hdb, ho, _⟩ := Database.open_existing_ok hfresh ho
  have ⟨_, _, _, ho, _⟩ := Database.openFiles_ok ho
  have hm' : m' = m := (Option.some.inj hdb).symm.trans hm
  exact owns_open (hm' ▸ ho) hlog h.laid

theorem reached_owns (h : Reached s) : ∃ m L, Owns s m L := by
  induction h
  case create f n io db es hf ho =>
    have ⟨disk, es', hb, ho, _⟩ := Database.open_fresh_ok hf ho
    rw [Database.buildImage_ok hb] at ho
    have ⟨_, _, _, ho, _⟩ := Database.openFiles_ok ho
    exact ⟨_, _, owns_open ho rfl Database.image_laid⟩
  case step s a _ hm ih =>
    have ⟨m, L, h⟩ := ih
    cases a
    case query q => exact h.query q
    case pool op => exact ⟨m, L, h.pool op fun i g he => hm i g (by rw [he])⟩
  case reopen hc _ ho ih =>
    have ⟨m, L, h⟩ := ih
    exact ⟨m, L, h.reopen hc ho⟩

-- The header, the pages of the catalog, and the directory pages and data pages of the tables are different
-- pages of the database, and all data pages are valid.
theorem page_ownership (h : Reached s) :
    ∃ m L, s.client.pool.Coherent m.page? ∧ s.executor = .loaded L ∧
      m.page? 0 = some (Database.header L.catalog.root) ∧
      Catalog.chain.Stores Catalog.encode m L.catalog ∧
      (∀ e ∈ L.tables, (L.dir e.snd).root = e.snd ∧ HeapTable.directory.Stores HeapTable.encodeId m (L.dir e.snd)) ∧
      let pages := 0 :: (L.catalog.ids ++ L.tables.flatMap fun e => (L.dir e.snd).ids ++ (L.dir e.snd).all)
      pages.Nodup ∧ (∀ i ∈ pages, i < s.client.pool.dev.storage.numPages) ∧
      (L.tables.map Prod.snd).Nodup ∧
      ∀ e ∈ L.tables, ∀ i ∈ (L.dir e.snd).all, ∃ d, m.page? i = some d ∧ SlottedPage.validate d = some (.ok ()) := by
  have ⟨m, L, h⟩ := reached_owns h
  have hr := h.laid.realized
  have hsome : ∀ i ∈ 0 :: L.owned, (m.page? i).isSome := by
    intro i hi
    cases hi
    case head => exact h.laid.isSome_header
    case tail hi => exact hr.isSome hi
  refine ⟨m, L, h.coherent, h.executor, h.laid.header, hr.chain, fun e he => ⟨hr.root e he, (hr.stored e he).chain⟩,
    List.nodup_cons.mpr ⟨h.laid.apart, hr.nodup⟩, fun i hi => ?_, ?_, fun e he i hi => ?_⟩
  · rw [← PageStorage.page?_isSome_iff]
    exact (h.coherent.allocated i).trans (hsome i hi)
  · exact (List.Nodup.of_map _ hr.unique).map_on fun e he e' he' => hr.eq_of_root he he'
  · have ⟨d, hd, hw⟩ := (hr.stored e he).data i hi
    exact ⟨d, hd, SlottedPage.validate_eq_ok_iff.mpr hw.toValid⟩

-- A new database, with one table.
theorem page_ownership_created :
    ∃ db es, Database.open {} 1 [] = (some (.ok db), es) ∧
      ∃ (m : PageStorage) (L : Layout), ((start db).step (.query (.createTable [0x74]))).executor = .loaded L ∧
        m.page? 0 = some (Database.header L.catalog.root) ∧ (L.tables.map Prod.snd).Nodup := by
  have ⟨db, es, h⟩ := Database.open_empty
  have hr : Reached ((start db).step (.query (.createTable [0x74]))) := .step (.create rfl h) nofun
  have ⟨m, L, _, he, hm, _, _, _, _, hn, _⟩ := page_ownership hr
  exact ⟨db, es, h, m, L, he, hm, hn⟩

end Session
end NexusDb
