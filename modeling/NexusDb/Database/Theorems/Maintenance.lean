import NexusDb.Database.Tasks
import NexusDb.Database.Theorems.Creation
import NexusDb.Wal.Theorems.Log

namespace NexusDb

open Layout (Realized)

-- The log is only closed by `Close`.
theorem Wal.isOpen_beforePageWrite {w : Wal} (h : w.isOpen) : (w.beforePageWrite io₁ io₂ page).snd.isOpen := by
  rw [beforePageWrite]
  split
  case isTrue => exact h
  case isFalse =>
    split
    case h_1 w₁ ha =>
      rcases appendPageImage_some ha with ⟨_, _, hw, _⟩ | ⟨_, _, _, ho, _, _, hw⟩ | ⟨hr, _⟩
      · exact hw ▸ h
      · exact hw ▸ ho
      · cases hr
    case h_2 w₁ ha =>
      have ho : w₁.isOpen := by
        rcases appendPageImage_some ha with ⟨_, hr, _⟩ | ⟨_, _, hr, _⟩ | ⟨_, ho, _, _, hw⟩
        · cases hr
        · cases hr
        · exact hw ▸ ho
      rcases hf : w₁.flush io₂ with ⟨r, w₂⟩
      rcases flush_cases hf with ⟨_, _, hw, _⟩ | ⟨_, _, _, _, _, _, hw⟩ | ⟨_, _, _, hw⟩ <;> exact hw ▸ ho

namespace Disk

-- No call on the files is going to fail, and there is a log.
structure Steady (d : Disk) : Prop extends Smooth d where
  log : ∃ w, d.wal = some w ∧ w.isOpen

variable {d d' : Disk}

namespace Steady

theorem countPages (h : Steady d) (hc : Disk.countPages d = (res, d')) : Steady d' := by
  cases hc ▸ h.toSmooth.countPages
  exact h

theorem readPage (h : Steady d) (hr : Disk.readPage d j = (res, d')) : Steady d' := by
  cases hr ▸ h.toSmooth.readPage
  exact h

theorem emit (h : Steady d) : Steady ({ d with storage := s }.emit e) :=
  ⟨h.toSmooth.emit, h.log⟩

theorem allocatePage (h : Steady d) (ha : Disk.allocatePage d = (res, d')) : Steady d' := by
  rcases h.toSmooth.allocatePage ha with hd | ⟨_, hd⟩
  · exact hd ▸ h
  · exact hd ▸ h.emit

theorem writePage (h : Steady d) (hw : Disk.writePage d w page = (res, d')) : Steady d' := by
  rcases h.toSmooth.writePage hw with hd | ⟨_, hd⟩
  · exact hd ▸ h
  · exact hd ▸ h.emit

theorem beforePageWrite (h : Steady d) (hb : Disk.beforePageWrite d page = (res, d')) : Steady d' := by
  have ⟨w, hw, ho⟩ := h.log
  simp only [Disk.beforePageWrite, hw, h.nextIo] at hb
  cases hb
  exact ⟨⟨h.io, h.torn, h.good⟩, _, rfl, Wal.isOpen_beforePageWrite ho⟩

end Steady

theorem stable_steady : Device.Stable Steady where
  count h := h.countPages
  read h  := h.readPage
  write h := h.writePage
  alloc h := h.allocatePage
  log h   := h.beforePageWrite
  touch h := h.emit

end Disk

namespace Database

-- An open database that nobody else uses. The pool together with the files has the pages of `m`.
structure Serves (db : Database) (m : PageStorage) (L : Layout) : Prop where
  pool     : db.pool.Serves m
  executor : db.executor = .loaded L
  laid     : Laid m L
  disk     : db.pool.dev.Steady

variable {db db' : Database} {m m' : PageStorage} {L L' : Layout}

theorem Ready.serves (h : Ready db m L) : Serves db m L :=
  ⟨h.pool, h.executor, h.laid, h.quiet.toSmooth, _, h.log, rfl⟩

theorem open_existing (hf : ¬isFresh f) (hdb : f.db = some m) (hlog : f.wal.getD [] = []) (h : Laid m L)
    (hl : m.pages.length ≤ pageLimit) (hn : 0 < n) :
    ∃ db es, Database.open f n [] = (some (.ok db), es) ∧ Serves db m L := by
  obtain ⟨n, rfl⟩ := Nat.exists_eq_add_one.mpr hn
  have ⟨db, es, ho, hr⟩ := openFiles_ready hlog h hl n
  exact ⟨db, _, open_of_openFiles hf hdb ho, hr.serves⟩

theorem open_fresh (hf : isFresh f) (hn : 0 < n) :
    ∃ db es, Database.open f n [] = (some (.ok db), es) ∧ Serves db image (.initial 1) := by
  obtain ⟨n, rfl⟩ := Nat.exists_eq_add_one.mpr hn
  have ⟨db, es, ho, hr⟩ := open_fresh_ready hf n
  exact ⟨db, es, ho, hr.serves⟩

namespace Serves

-- What the pool does on its own cannot be seen.
theorem steps (h : Serves db m L) (st : BufferPool.Steps db.pool q) (hs : BufferPool.SameStamps db.pool q) :
    Serves { db with pool := q } m L :=
  ⟨h.pool.steps st hs, h.executor, h.laid, Disk.stable_steady.steps st h.disk⟩

theorem numPages (h : Serves db m L) : db.pool.dev.storage.pages.length = m.pages.length := by
  have hn : db.pool.dev.storage.numPages = m.numPages := h.pool.coherent.numPages
  rw [← PageStorage.toNat_numPages, hn, PageStorage.toNat_numPages]

theorem close (h : Serves db m L) (ho : db.close.snd.Ok) :
    ∃ disk, db.close = (.ok (), disk) ∧ disk.storage = m ∧ disk.wal.map Wal.file = some [] := by
  rw [Database.close] at ho ⊢
  rcases hf : db.pool.flushAll with ⟨e | ⟨⟩, pool⟩
  · simp only [hf] at ho
    have hok := h.pool.flushAll (by rw [hf]; exact ho)
    rw [hf] at hok
    cases hok.left
  · have hsteady := Disk.stable_steady.steps (BufferPool.flushAll_steps hf) h.disk
    obtain ⟨w, hw, hopen⟩ := hsteady.log
    have hreset : w.reset = (.ok (), { file := [] }) := by rw [Wal.reset, hopen]; rfl
    simp only [hf, hw, hreset, hsteady.nextIo, hsteady.close] at ho ⊢
    have hok := (h.pool.flushAll (by rw [hf]; exact (Disk.ok_emit.mp ho).left)).right
    rw [hf] at hok
    exact ⟨_, rfl, PageStorage.page?_ext hok, rfl⟩

theorem reopen (h : Serves db m L) (ho : db.close.snd.Ok) (hl : m.pages.length ≤ pageLimit) (hn : 0 < n) :
    ∃ db', db.perform (.reopen n hn) = some (none, db') ∧ Serves db' m L := by
  obtain ⟨disk, hc, hs, hw⟩ := h.close ho
  have hfresh : ¬isFresh disk.files := not_isFresh (congrArg some hs) h.laid.isSome_header
  have hlog : disk.files.wal.getD [] = [] := by rw [Disk.files, hw]; rfl
  obtain ⟨db', es, ho, h'⟩ := open_existing hfresh (congrArg some hs) hlog h.laid hl hn
  refine ⟨db', ?_, h'⟩
  simp only [perform, hc, ho]

theorem query_defined (h : Serves db m L) (q : Query) : ∃ a, (db.query q).fst = some a := by
  have ⟨r, _, hr, _⟩ := Prog.wp_exec (c := .any) trivial (Query.wp_run (q.permits_any _) h.laid.realized (.inl trivial))
    h.pool.inv h.pool.coherent
  rw [← h.executor] at hr
  rw [Database.query]
  split
  case h_1 he => rw [he] at hr; cases hr
  case h_2 a _ _ _ => exact ⟨a, rfl⟩

theorem query (h : Serves db m L) (q : Query) (hw : (db.query q).snd.Within) :
    ∃ a m' L', (db.query q).fst = some a ∧ (q.run (.loaded L)).direct m = (some (a, .loaded L'), m') ∧
      Serves (db.query q).snd m' L' ∧ q.Performs .reliable m L a m' L' := by
  have hpool : (db.query q).snd.pool = ((q.run db.executor).exec db.pool).snd := by
    rw [Database.query]
    split <;> simp only [*]
  have ⟨hok, hf, hl⟩ := hw
  rw [hpool, h.executor] at hok hf hl
  have hle := Prog.exec_numPages_le (q.run (.loaded L)) h.pool.inv h.pool.coherent
  rw [← PageStorage.toNat_numPages] at hl
  have hlen : m.pages.length ≤ pageLimit := by
    rw [← PageStorage.toNat_numPages, ← h.pool.coherent.numPages]
    exact hle.trans hl
  have ⟨⟨a, _⟩, m', p', hexec, hdirect, hs, ⟨L', he, hp⟩, _⟩ := Prog.wp_serves
    (Query.wp_run (q.permits_reliable _) h.laid.realized (.inr hlen)) h.pool hok (.inl hf) (.inl hl)
  cases he
  refine ⟨a, m', L', ?_, hdirect, ?_, hp⟩
  · rw [Database.query, h.executor, hexec]
  · have hsteady := Prog.exec_stable Disk.stable_steady (q.run (.loaded L)) h.disk
    rw [hexec] at hsteady
    rw [Database.query, h.executor, hexec]
    exact ⟨hs, rfl, h.laid.leads (hp.leads h.laid.realized), hsteady⟩

end Serves

-- The answers to queries on pages, without a pool.
def answers (executor : QueryExecutor) (m : PageStorage) : List Query → Option (List Answer)
  | []      => some []
  | q :: qs =>
    match (q.run executor).direct m with
    | (none, _)                => none
    | (some (a, executor), m) => (answers executor m qs).map (a :: ·)

theorem answers_cons {executor executor' : QueryExecutor} (h : (q.run executor).direct m = (some (a, executor'), m')) :
    answers executor m (q :: qs) = (answers executor' m' qs).map (a :: ·) := by
  rw [answers, h]

theorem Calm.within (h : db.Calm ts) : db.Within := by
  cases ts
  case nil => exact h
  case cons => exact h.left

-- Each task gives the answer that it has without a pool, whatever the pool has done before.
theorem Serves.perform (h : Serves db m L) (hc : db.Calm (t :: ts)) :
    ∃ a db', db.perform t = some (a, db') ∧ db'.Calm ts ∧ ∃ m' L', Serves db' m' L' ∧
      (∀ a', a = some a' → a'.error? ≠ some BufferPool.allPinned) ∧
      ∀ qs, answers (.loaded L) m (t.query?.toList ++ qs) = (answers (.loaded L') m' qs).map (a.toList ++ ·) := by
  have ⟨hw, hclose, hcalm⟩ := hc
  have hnext : ∀ {a db'}, db.perform t = some (a, db') → db'.Calm ts := fun hp => by rwa [hp] at hcalm
  have hsame : ∀ {db'}, db.perform t = some (none, db') → Serves db' m L → t.query? = none →
      ∃ a db', db.perform t = some (a, db') ∧ db'.Calm ts ∧ ∃ m' L', Serves db' m' L' ∧
        (∀ a', a = some a' → a'.error? ≠ some BufferPool.allPinned) ∧
        ∀ qs, answers (.loaded L) m (t.query?.toList ++ qs) = (answers (.loaded L') m' qs).map (a.toList ++ ·) := by
    intro db' hp hs hq
    refine ⟨none, db', hp, hnext hp, m, L, hs, nofun, fun qs => ?_⟩
    rw [hq]
    exact Option.map_id'.symm
  cases t
  case query q =>
    have ⟨a, ha⟩ := h.query_defined q
    have hp : db.perform (.query q) = some (some a, (db.query q).snd) := by
      have he : db.query q = (some a, (db.query q).snd) := Prod.ext ha rfl
      rw [Database.perform, he]
    have hcalm := hnext hp
    have ⟨a', m', L', ha', hdirect, hs, hperf⟩ := h.query q hcalm.within
    cases ha.symm.trans ha'
    refine ⟨_, _, hp, hcalm, m', L', hs, ?_, fun qs => answers_cons hdirect⟩
    rintro _ ⟨⟩
    exact hperf.error?_ne
  case resize alloc n => exact hsame rfl (h.steps (BufferPool.resize_steps rfl) (BufferPool.resize_stamps rfl)) rfl
  case flushPage i => exact hsame rfl (h.steps (BufferPool.flushPage_steps rfl) (BufferPool.flushPage_stamps rfl)) rfl
  case flushAll => exact hsame rfl (h.steps (BufferPool.flushAll_steps rfl) (BufferPool.flushEach_stamps rfl)) rfl
  case reopen n hn =>
    have ⟨db', hp, h'⟩ := h.reopen (hclose rfl) (h.numPages ▸ hw.pages) hn
    exact hsame hp h' rfl

theorem Serves.performAll (h : Serves db m L) (hc : db.Calm ts) :
    ∃ as db', db.performAll ts = some (as, db') ∧ answers (.loaded L) m (ts.filterMap Task.query?) = some as ∧
      ∀ a ∈ as, a.error? ≠ some BufferPool.allPinned := by
  induction ts generalizing db m L
  case nil => exact ⟨[], db, rfl, rfl, nofun⟩
  case cons t ts ih =>
    have ⟨a, db₁, hp, hc₁, m₁, L₁, h₁, hne, ha⟩ := h.perform hc
    have ⟨as, db', hps, has, hnes⟩ := ih h₁ hc₁
    refine ⟨a.toList ++ as, db', ?_, ?_, fun a' hm => ?_⟩
    · simp [Database.performAll, hp, hps]
    · have hq : (t :: ts).filterMap Task.query? = t.query?.toList ++ ts.filterMap Task.query? := by
        rw [List.filterMap_cons]
        cases t.query? <;> rfl
      rw [hq, ha, has]
      rfl
    · cases List.mem_append.mp hm
      case inl hm => exact hne a' (Option.mem_toList.mp hm)
      case inr hm => exact hnes a' hm

-- Two uses of a database that ask the same give the same answers, with any maintenance in between and any capacities.
theorem maintenance_invisible (ts ts' : List Task) (hf : isFresh f) (hn : 0 < n) (hf' : isFresh f') (hn' : 0 < n')
    (hq : ts.filterMap Task.query? = ts'.filterMap Task.query?) :
    ∃ db es db' es', Database.open f n [] = (some (.ok db), es) ∧ Database.open f' n' [] = (some (.ok db'), es') ∧
      (db.Calm ts → db'.Calm ts' → ∃ as db₁ db₁', db.performAll ts = some (as, db₁) ∧
        db'.performAll ts' = some (as, db₁') ∧ ∀ a ∈ as, a.error? ≠ some BufferPool.allPinned) := by
  have ⟨db, es, ho, h⟩ := open_fresh hf hn
  have ⟨db', es', ho', h'⟩ := open_fresh hf' hn'
  refine ⟨db, es, db', es', ho, ho', fun hc hc' => ?_⟩
  have ⟨as, db₁, hp, ha, hne⟩ := h.performAll hc
  have ⟨as', db₁', hp', ha', _⟩ := h'.performAll hc'
  rw [hq] at ha
  cases ha.symm.trans ha'
  exact ⟨as, db₁, db₁', hp, hp', hne⟩

-- A table and a record in a database that is flushed, resized and opened again, and without that.
theorem maintenance_invisible_two :
    let ask : List Task := [.query (.createTable [0x74]), .query (.insert [0x74] (some [1]))]
    let ask' : List Task := [.query (.createTable [0x74]), .flushAll, .reopen 1 (by decide), .resize .success 3,
      .query (.insert [0x74] (some [1]))]
    ∃ db es db' es', Database.open {} 2 [] = (some (.ok db), es) ∧ Database.open {} 1 [] = (some (.ok db'), es') ∧
      ∃ as db₁ db₁', db.performAll ask = some (as, db₁) ∧ db'.performAll ask' = some (as, db₁') ∧
        ∀ a ∈ as, a.error? ≠ some BufferPool.allPinned := by
  intro ask ask'
  obtain ⟨db, es, db', es', ho, ho', h⟩ := maintenance_invisible ask ask' (show isFresh {} from rfl)
    (show 0 < 2 by decide) (show isFresh {} from rfl) (show 0 < 1 by decide) rfl
  have hcalm : (Database.open {} 2 []).fst.any (·.toOption.any fun db => decide (db.Calm ask)) = true := by
    decide +kernel
  have hcalm' : (Database.open {} 1 []).fst.any (·.toOption.any fun db => decide (db.Calm ask')) = true := by
    decide +kernel
  rw [ho] at hcalm
  rw [ho'] at hcalm'
  exact ⟨db, es, db', es', ho, ho', h (of_decide_eq_true hcalm) (of_decide_eq_true hcalm')⟩

end Database
end NexusDb
