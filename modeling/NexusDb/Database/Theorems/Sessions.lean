import NexusDb.Database.Theorems.Atomicity
import NexusDb.Database.Theorems.Budget
import NexusDb.Database.Theorems.CrashRecovery

namespace NexusDb

open Database (isFresh Laid Started)

-- The pages that a database has when it is opened on these files.
inductive Files.Opens (f : Files) : PageStorage → Layout → Prop
  | fresh (h : isFresh f) : Opens f Database.image (.initial 1)
  | recovers (hr : f.Recovers x) (hl : Laid x L) : Opens f x L

-- The files hold the tables, perhaps after a recovery.
def Tables.Held (T : Tables) (f : Files) : Prop :=
  ∃ x L, f.Opens x L ∧ T.Describes x L

theorem Tables.held_fresh (h : isFresh f) : empty.Held f :=
  ⟨_, _, .fresh h, describes_initial⟩

namespace Files.Opens

variable {f f' : Files} {x : PageStorage} {L : Layout} {db : Database} (h : f.Opens x L)

include h

theorem laid : Laid x L := by
  cases h
  case fresh => exact Database.image_laid
  case recovers hl => exact hl

theorem started (ho : Database.open f n io = (some (.ok db), es)) : db.Started x L := by
  cases h
  case fresh hf =>
    have ⟨disk, es', hb, ho, _⟩ := Database.open_fresh_ok hf ho
    rw [Database.buildImage_ok hb] at ho
    have hr : Files.Recovers { db := some Database.image } Database.image := .of_nil rfl rfl
    exact hr.started Database.image_laid rfl ho
  case recovers hr hl =>
    have ⟨_, hd, h₀⟩ := hr.page?_zero
    have ⟨s, _, hd, ho, _⟩ := Database.open_existing_ok (Database.not_isFresh hd (h₀ ▸ hl.isSome_header)) ho
    exact hr.started hl hd ho

-- Nothing fails.
theorem ready (hlen : x.pages.length ≤ pageLimit) (n : Nat) :
    ∃ db es, Database.open f (n + 1) [] = (some (.ok db), es) ∧ Database.Ready db x L := by
  cases h
  case fresh hf => exact Database.open_fresh_ready hf n
  case recovers hr hl =>
    have ⟨_, hd, h₀⟩ := hr.page?_zero
    exact hr.ready (Database.not_isFresh hd (h₀ ▸ hl.isSome_header)) hl hlen n

theorem openCrash (hc : f.Crash (Database.open f n io).snd f') : f'.Opens x L := by
  cases h
  case fresh hf =>
    rcases Database.openCrash_fresh hf hc with hf | hr
    · exact .fresh hf
    · exact .recovers hr Database.image_laid
  case recovers hr hl =>
    have ⟨_, hd, h₀⟩ := hr.page?_zero
    exact .recovers (hr.openCrash_existing (Database.not_isFresh hd (h₀ ▸ hl.isSome_header)) hc) hl

theorem length_le (hl : ∀ s, f.db = some s → s.pages.length + 2 ≤ pageLimit) : x.pages.length + 2 ≤ pageLimit := by
  cases h
  case fresh => decide
  case recovers hr _ =>
    have ⟨s, hd, _⟩ := hr.page?_zero
    exact hr.length hd ▸ hl s hd

end Files.Opens

theorem Tables.Held.openCrash {T : Tables} (h : T.Held f) (hc : f.Crash (Database.open f n io).snd f') : T.Held f' := by
  have ⟨x, L, ho, hd⟩ := h
  exact ⟨x, L, ho.openCrash hc, hd⟩

-- A crash while a database is closed.
theorem Database.close_passes (db : Database) {K : Contract} {s t v : PageStorage} {G : PageStorage → Prop}
    (hi : db.pool.Inv) (hc : db.pool.Coherent v.page?) (hG : G v) :
    ∃ es, db.close.snd.trace = db.pool.dev.trace ++ es ∧ (Poised K s t db.pool v →
      db.pool.dev.files.Safe (fun f => ∃ x, f.Recovers x ∧ ∃ u, G u ∧ Moment K s t u x) es) := by
  rw [close]
  rcases hf : db.pool.flushAll with ⟨_ | ⟨⟩, p⟩
  · obtain ⟨es, hes, h⟩ : Passes K s t G db.pool v p v := .steps hi hc hG (BufferPool.flushAll_steps hf)
    exact ⟨es, hes, fun hp => (h hp).left⟩
  · obtain ⟨es, hes, h⟩ : Passes K s t G db.pool v p v := .steps hi hc hG (BufferPool.flushAll_steps hf)
    simp only
    split
    case h_1 => exact ⟨es, hes, fun hp => (h hp).left⟩
    case h_2 w hw =>
      split
      case h_1 => exact ⟨es, hes, fun hp => (h hp).left⟩
      case h_2 w' hr =>
        refine ⟨es ++ [.truncate], ?_, fun hp => (h hp).left.append fun hok => ?_⟩
        · change p.dev.trace ++ [.truncate] = _
          rw [hes, List.append_assoc]
        · obtain ⟨hq, hfiles⟩ := (h hp).right hok
          rw [← hfiles]
          exact .cons ⟨_, hq.settled.recovers, v, hG, hq.moment⟩ (fun _ _ h => by cases h) fun _ =>
            .nil ⟨_, .of_nil rfl rfl, v, hG, hq.moment⟩

-- Everything that was written is in the files.
theorem Database.close_recovers (db : Database) (hi : db.pool.Inv) (hc : db.pool.Coherent x.page?)
    (h : db.close = (.ok (), disk)) : disk.files.Recovers x := by
  have ⟨pool, hf, hst, hwal⟩ := Database.close_ok h
  have hclean := (hc.steps hi (BufferPool.flushAll_steps hf)).of_clean fun _ _ => BufferPool.flushAll_clean hf
  have hx : disk.storage = x := hst.trans (PageStorage.page?_ext hclean)
  exact .of_nil (congrArg some hx) hwal

-- The code does to the pages what a query does, and `R` relates what it returns to the answer.
def Query.DoneBy (q : Query) (code : Prog α) (R : α → Answer → Prop) (s : PageStorage) (L : Layout) : Prop :=
  code.wp (q.contract L) (fun r s' => ∃ a L', R r a ∧ q.Performs (q.contract L) s L a s' L') s

theorem Query.doneBy_run (q : Query) (h : Layout.Realized s L) :
    q.DoneBy (q.run (.loaded L)) (fun r a => r.fst = a) s L :=
  Prog.wp_mono (wp_run (q.permits L) h (.inl trivial)) fun r _ ⟨L', _, hp⟩ => ⟨r.fst, L', rfl, hp⟩

-- To count the pages is like a query that makes no call at all.
theorem Query.doneBy_countPages (s : PageStorage) (L : Layout) :
    Query.listTables.DoneBy Prog.countPages (fun _ _ => True) s L :=
  Prog.wp_countPages (fun _ _ => ⟨_, L, trivial, .listTables⟩) ⟨_, L, trivial, .listTables⟩

namespace Database.Started

variable {db : Database} {s : PageStorage} {L : Layout} {q : Query} {T : Tables} {code : Prog α} {R : α → Answer → Prop}
  (h : db.Started s L)

include h

theorem poised (K : Contract) : Poised K s s db.pool s := by
  refine ⟨h.settled, fun i f hf hu hd => ?_, h.storage ▸ .start fun _ hi => hi⟩
  rw [h.clean i f hf hu] at hd
  cases hd

theorem run (hw : q.DoneBy code R s L) (he : code.exec db.pool = (r, p)) : ∃ v a s' L', r = some v ∧ R v a ∧ p.Inv ∧
    p.Coherent s'.page? ∧ q.Performs (q.contract L) s L a s' L' ∧ Passes (q.contract L) s s
      (fun u => ∃ a' Lu, q.Performs (q.contract L) s L a' u Lu) db.pool s p s' := by
  have ⟨v, s', hr, hc, a, L', hR, hp⟩ := Prog.wp_exec (c := q.contract L) trivial hw h.inv h.coherent
  have hi := (Prog.exec_keeps h.inv code).inv
  have hpass : Passes (q.contract L) s s (fun u => ∃ a' Lu, q.Performs (q.contract L) s L a' u Lu) db.pool s _ s' :=
    Prog.exec_passes trivial h.laid.spares hw h.inv h.coherent hc fun u ⟨_, a', Lu, _, hu⟩ _ => ⟨a', Lu, hu⟩
  rw [he] at hr hc hi hpass
  exact ⟨v, a, s', L', hr, hR, hi, hc, hp, hpass⟩

-- A session that does one query, from the opening to the end of `Close`. Wherever it is interrupted, the query was done
-- or not.
theorem interrupted (hd : T.Describes s L) (hw : q.DoneBy code R s L) (he : code.exec db.pool = (r, p))
    (hpre : db.pool.dev.trace ++ pre <+: (Database.close { db with pool := p }).snd.trace)
    (hok : ∀ e ∈ pre, e.failed = false) (hc : db.pool.dev.files.Crash pre f') : ∃ a T', T.Attempt q a T' ∧ T'.Held f' := by
  have ⟨_, a, s', L', _, _, hi, hco, hp, es, hes, hpass⟩ := h.run hw he
  have ⟨es', hes', hclose⟩ := close_passes { db with pool := p } (K := q.contract L) (s := s) (t := s)
    (G := fun u => ∃ a' Lu, q.Performs (q.contract L) s L a' u Lu) hi hco ⟨a, L', hp⟩
  have ⟨hsafe, hgo⟩ := hpass (h.poised _)
  have hsafe : db.pool.dev.files.Safe _ (es ++ es') := hsafe.append fun hall => by
    have ⟨hq, hfiles⟩ := hgo hall
    exact hfiles ▸ hclose hq
  rw [hes', hes, List.append_assoc, List.prefix_append_right_inj] at hpre
  have ⟨x, hx, u, ⟨a', Lu, hu⟩, hm⟩ := hsafe pre f' hpre hok hc
  have ⟨a'', T', M, hT, hM, hd'⟩ := hd.interrupted ⟨h.laid, hu, hm⟩
  exact ⟨a'', T', hT, x, M, .recovers hx hM, hd'⟩

-- The same when it comes to its end. The answer is then the one that was given.
theorem closed (hd : T.Describes s L) (hw : q.DoneBy code R s L) (he : code.exec db.pool = (some v, p))
    (hc : (Database.close { db with pool := p }).fst = .ok ()) :
    ∃ a T', R v a ∧ T.Attempt q a T' ∧ T'.Held (Database.close { db with pool := p }).snd.files := by
  have ⟨_, a, s', L', hr, hR, hi, hco, hp, _⟩ := h.run hw he
  cases hr
  have ⟨T', hT, hd'⟩ := hd.attempts h.laid.realized hp
  have hr := close_recovers { db with pool := p } hi hco (Prod.ext hc rfl)
  exact ⟨a, T', hR, hT, s', L', .recovers hr (h.laid.leads (hp.leads h.laid.realized)), hd'⟩

end Database.Started

namespace Database

-- A session that does one query, on files that were left in any way. When no call fails, the log gets at most three records
-- and the file two pages, whatever the pool can hold, and `Close` leaves an empty log.
theorem session_bounded (h : History (.closed f) l) (hl : ∀ s, f.db = some s → s.pages.length + 2 ≤ pageLimit) (hn : 0 < n)
    (q : Query) : ∃ db es a ex p, Database.open f n [] = (some (.ok db), es) ∧
      (q.run db.executor).exec db.pool = (some (a, ex), p) ∧
      (∃ w ps, p.flushAll.snd.dev.wal = some w ∧ w.file = Wal.encodeLog 1 ps ∧ ps.length ≤ 3) ∧
      p.dev.storage.pages.length ≤ db.pool.dev.storage.pages.length + 2 ∧
      ∃ disk, Database.close { db with pool := p } = (.ok (), disk) ∧ disk.files.wal = some [] := by
  obtain ⟨n, rfl⟩ := Nat.exists_eq_add_one.mpr hn
  have ⟨x, L, hx⟩ : ∃ x L, f.Opens x L := by
    rcases h.agrees with ⟨hf, _⟩ | ⟨x, L, hr, hs⟩
    · exact ⟨_, _, .fresh hf⟩
    · exact ⟨x, L, .recovers hr hs.laid⟩
  have hlen := hx.length_le hl
  have ⟨db, es, ho, hready⟩ := hx.ready (by omega) n
  have ⟨a, m', L', p, hexec, _, hgrow, _, hserves, hsolvent⟩ := hready.performs hlen q
  have hflush := hsolvent.steps (by decide) hserves.inv hserves.coherent (BufferPool.flushAll_steps rfl)
  have ⟨w, ps, hw, hh, hps⟩ := hflush.log
  have ⟨disk, hclose, _, hwal⟩ : ∃ disk, Database.close { db with pool := p } = (.ok (), disk) ∧ disk.storage = m' ∧
      disk.wal.map Wal.file = some [] := close_solvent hserves hsolvent (by decide)
  have hpages : p.dev.storage.pages.length = m'.pages.length := by
    rw [← PageStorage.toNat_numPages, ← PageStorage.toNat_numPages]
    exact congrArg UInt32.toNat hserves.coherent.numPages
  refine ⟨db, es, a, _, p, ho, hexec, ⟨w, ps, hw, hh.file, ?_⟩, ?_, disk, hclose, hwal⟩
  · change _ + _ + 0 ≤ 3 at hps
    omega
  · rwa [hpages, hready.serves.numPages]

-- The first query on a new database, with a pool for one page.
theorem session_bounded_new : ∃ db es a ex p, Database.open {} 1 [] = (some (.ok db), es) ∧
    ((Query.createTable [0x74]).run db.executor).exec db.pool = (some (a, ex), p) ∧
    (∃ w ps, p.flushAll.snd.dev.wal = some w ∧ w.file = Wal.encodeLog 1 ps ∧ ps.length ≤ 3) ∧
    p.dev.storage.pages.length ≤ db.pool.dev.storage.pages.length + 2 ∧
    ∃ disk, Database.close { db with pool := p } = (.ok (), disk) ∧ disk.files.wal = some [] :=
  session_bounded (.new rfl) (by rintro _ ⟨⟩) Nat.one_pos _

end Database
end NexusDb
