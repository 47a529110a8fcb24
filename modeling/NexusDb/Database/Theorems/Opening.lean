import NexusDb.Database.Database
import NexusDb.Query.Theorems.ReadOnly
import NexusDb.Wal.Theorems.Recovery

namespace NexusDb

namespace Disk

-- Reading leaves the files as they are.
theorem reads {d d' : Disk} (h : BufferPool.Reads d d') :
    d'.storage = d.storage ∧ d'.wal = d.wal ∧ ∀ f : Files, f.after d'.trace = f.after d.trace := by
  induction h
  case refl => exact ⟨rfl, rfl, fun _ => rfl⟩
  case tail d₁ d₂ _ h hi =>
    have hfail : ∀ io good, ({ d₁ with io, good }.emit .fail).storage = _ ∧ ({ d₁ with io, good }.emit .fail).wal = _ ∧
        ∀ f : Files, f.after ({ d₁ with io, good }.emit .fail).trace = _ := fun io good =>
      ⟨hi.left, hi.right.left, fun f => by simp [emit, FileEvent.apply, hi.right.right]; rfl⟩
    cases h
    case inl h =>
      have h' : Disk.countPages d₁ = ((Disk.countPages d₁).fst, d₂) := by rw [h]; rfl
      rcases countPages_cases h' with ⟨_, _, _, _, hd⟩ | ⟨_, hd⟩ <;> subst hd
      · exact hfail _ _
      · exact hi
    case inr h =>
      have ⟨j, h⟩ := h
      have h' : Disk.readPage d₁ j = ((Disk.readPage d₁ j).fst, d₂) := by rw [h]; rfl
      rcases readPage_cases h' with ⟨_, _, _, hd⟩ | ⟨_, _, _, _, hd⟩ | ⟨_, _, _, hd⟩ <;> subst hd
      · exact hi
      · exact hfail _ _
      · exact hi

-- Reading adds nothing to the trace but calls that failed.
theorem reads_trace {d d' : Disk} (h : BufferPool.Reads d d') (he : e ∈ d'.trace) : e ∈ d.trace ∨ e = .fail := by
  induction h
  case refl => exact .inl he
  case tail d₁ d₂ _ h hi =>
    suffices h : e ∈ d₁.trace ∨ e = .fail from h.elim hi .inr
    have hfail : ∀ io good, e ∈ ({ d₁ with io, good }.emit .fail).trace → e ∈ d₁.trace ∨ e = .fail := fun _ _ hm => by
      simpa [emit] using hm
    cases h
    case inl h =>
      have h' : Disk.countPages d₁ = ((Disk.countPages d₁).fst, d₂) := by rw [h]; rfl
      rcases countPages_cases h' with ⟨_, _, _, _, hd⟩ | ⟨_, hd⟩ <;> subst hd
      · exact hfail _ _ he
      · exact .inl he
    case inr h =>
      have ⟨j, h⟩ := h
      have h' : Disk.readPage d₁ j = ((Disk.readPage d₁ j).fst, d₂) := by rw [h]; rfl
      rcases readPage_cases h' with ⟨_, _, _, hd⟩ | ⟨_, _, _, _, hd⟩ | ⟨_, _, _, hd⟩ <;> subst hd
      · exact .inl he
      · exact hfail _ _ he
      · exact .inl he

theorem Quiet.reads {d d' : Disk} (h : Quiet d) (hr : BufferPool.Reads d d') : Quiet d' := by
  induction hr
  case refl => exact h
  case tail d₁ d₂ _ hr hi =>
    cases hr
    case inl hd => exact hd ▸ hi.countPages rfl
    case inr hd =>
      have ⟨j, hd⟩ := hd
      exact hd ▸ hi.readPage rfl

end Disk

namespace Wal

variable {w : Wal} {s : PageStorage}

theorem isOpen_open (h : Wal.open bs = .ok w) : w.isOpen := by
  have ⟨_, _, hw⟩ := open_eq_ok_iff.mp h
  rw [hw]

theorem recover_storage (ho : w.isOpen) :
    (w.recover s).storage =
      s.replay ((accepted s 0 (reader.all w.file).fst).map ParsedRecord.image) := by
  rw [recover_eq ho, recoverRecords_accepted.left]

-- Recovery only writes pages that exist.
theorem recover_written (ho : w.isOpen) (hp : p ∈ (w.recover s).written) : s.pageExists p.id := by
  rw [recover_eq ho, recoverRecords_accepted.right, List.nil_append] at hp
  have ⟨r, hr, he⟩ := List.mem_map.mp hp
  rw [← he]
  exact accepted_pageExists hr

theorem reset_ok (h : w.reset = (.ok (), w')) : w' = { file := [] } := by
  rw [reset] at h
  split at h <;> cases h
  rfl

theorem close_reset_ok {s : Status} (h : w.reset = (.ok (), w')) (hc : (w'.close io).fst.bind (fun _ => s) = .ok ()) :
    (w'.close io).snd.file = [] := by
  rw [reset_ok h] at hc ⊢
  cases io
  case success => rfl
  case failure => cases hc

-- The files after the writes of a recovery.
theorem after_recover (ho : w.isOpen) {f : Files} (hf : f.db = some s) :
    f.after ((w.recover s).written.map fun p => .overwrite .recovery p.id p.data .success) =
      { f with db := some (w.recover s).storage } := by
  have hw : ∀ (rs : List ParsedRecord) (f : Files) (s : PageStorage), f.db = some s →
      f.after ((rs.map ParsedRecord.page).map fun p => .overwrite .recovery p.id p.data .success) =
        { f with db := some (s.replay (rs.map ParsedRecord.image)) } := by
    intro rs
    induction rs
    case nil => exact fun f s h => Files.ext h rfl rfl
    case cons r rs hi =>
      intro f s h
      simp only [List.map_cons, Files.after_cons, PageStorage.replay_cons]
      rw [hi _ (s.setPage r.pageId r.image.snd) ?_]
      · rfl
      · simp [FileEvent.apply, h, PageStorage.overwrite_success, ParsedRecord.image, ParsedRecord.page]
  rw [recover_eq ho, recoverRecords_accepted.right, recoverRecords_accepted.left, List.nil_append]
  exact hw _ f s hf

end Wal

namespace Database

-- The events from the opening of the log to its truncation.
def recoveryEvents (w : Wal) (s : PageStorage) : List FileEvent :=
  .createWal :: (w.recover s).written.map (fun p => .overwrite .recovery p.id p.data .success) ++ [.truncate]

-- What `Open` has done when it succeeds on the files of an existing database.
structure Opened (s : PageStorage) (log : Option Bytes) (n : Nat) (io : List IoResult) (db : Database)
    (w w' : Wal) (pool : BufferPool Disk) : Prop where
  wal    : Wal.open (log.getD []) = .ok w
  header : readHeader s = .ok db.catalogRoot
  replay : ∃ r, (w.recover s).result = .ok r
  reset  : w.reset = (.ok (), w')
  create : BufferPool.create { storage := (w.recover s).storage, wal := some w', io } n = .ok pool
  load   : (QueryExecutor.open db.catalogRoot).exec pool = (some (.ok db.executor), db.pool)

theorem Opened.isOpen (h : Opened s log n io db w w' p) : w.isOpen :=
  Wal.isOpen_open h.wal

theorem openFiles_ok (h : openFiles s log n io = (some (.ok db), es)) :
    ∃ w w' pool, Opened s log n io db w w' pool ∧
      es = recoveryEvents w s ++ db.pool.dev.trace := by
  rw [openFiles] at h
  split at h
  case h_1 => cases h
  case h_2 w hw =>
    split at h
    case h_1 => cases h
    case h_2 root hroot =>
      simp only at h
      split at h
      case h_1 => cases h
      case h_2 hr =>
        split at h
        case h_1 => cases h
        case h_2 w' hw' =>
          split at h
          case h_1 => cases h
          case h_2 pool hpool =>
            split at h <;> cases h
            case h_3 hload => exact ⟨w, w', pool, ⟨hw, hroot, ⟨_, hr⟩, hw', hpool, hload⟩, by simp [recoveryEvents]⟩

-- What `Open` does to the files of an existing database, whether it succeeds or not. The pool does not write anything.
theorem openFiles_trace (s : PageStorage) (log : Option Bytes) (n : Nat) (io : List IoResult) :
    (openFiles s log n io).snd = [.createWal] ∨ ∃ w es, Wal.open (log.getD []) = .ok w ∧
      (openFiles s log n io).snd <+: recoveryEvents w s ++ es ∧ ∀ e ∈ es, e = .fail := by
  rw [openFiles]
  split
  case h_1 => exact .inl rfl
  case h_2 w hw =>
    split
    case h_1 => exact .inl rfl
    case h_2 root _ =>
      refine .inr ⟨w, ?_⟩
      have hwrites : .createWal :: (w.recover s).written.map (fun p => .overwrite .recovery p.id p.data .success) <+:
          recoveryEvents w s ++ [] := ⟨_, (List.append_nil _).symm⟩
      simp only
      split
      case h_1 => exact ⟨[], hw, hwrites, nofun⟩
      case h_2 =>
        split
        case h_1 => exact ⟨[], hw, hwrites, nofun⟩
        case h_2 =>
          split
          case h_1 => exact ⟨[], hw, ⟨[], rfl⟩, nofun⟩
          case h_2 pool hp =>
            have hdev := (BufferPool.create_inv hp).right.right.left
            have ⟨_, hreads⟩ := (QueryExecutor.open_readOnly (i := root)).exec (BufferPool.create_clean hp)
            rw [hdev] at hreads
            have htrace := fun e he => (Disk.reads_trace (e := e) hreads he).resolve_left nofun
            split
            all_goals
              rename_i hx
              rw [hx] at htrace
              exact ⟨_, hw, ⟨[], by simp [recoveryEvents]⟩, htrace⟩

theorem openFiles_events (h : e ∈ (openFiles s log n io).snd) :
    e = .createWal ∨ e = .truncate ∨ e = .fail ∨
      ∃ w page, Wal.open (log.getD []) = .ok w ∧ page ∈ (w.recover s).written ∧
        e = .overwrite .recovery page.id page.data .success := by
  rcases openFiles_trace s log n io with ht | ⟨w, es, hw, ht, hes⟩
  · rw [ht] at h
    exact .inl (List.mem_singleton.mp h)
  · cases List.mem_append.mp (ht.subset h)
    case inr h => exact .inr <| .inr <| .inl (hes e h)
    case inl h =>
      cases List.mem_append.mp h
      case inr h => exact .inr <| .inl (List.mem_singleton.mp h)
      case inl h =>
        cases List.mem_cons.mp h
        case inl h => exact .inl h
        case inr h =>
          have ⟨page, hp, he⟩ := List.mem_map.mp h
          exact .inr <| .inr <| .inr ⟨w, page, hw, hp, he.symm⟩

theorem Opened.after (h : Opened s log n io db w w' p) :
    Files.after { db := some s, wal := log } (recoveryEvents w s) =
      { db := some (w.recover s).storage, wal := some [] } := by
  rw [recoveryEvents, List.cons_append, Files.after_cons, Files.after_append, Wal.after_recover h.isOpen rfl]
  rfl

-- The events of a creation that succeeds.
def creationEvents (s : PageStorage) : List FileEvent :=
  [.creating none, .creating (some s), .removeWal, .removeDb, .publish]

theorem open_fresh_ok (hf : isFresh f) (h : Database.open f n io = (some (.ok db), es)) :
    ∃ disk es', buildImage n io = some (.ok disk) ∧
      openFiles disk.storage none n disk.io = (some (.ok db), es') ∧ es = creationEvents disk.storage ++ es' := by
  rw [Database.open] at h
  split at h
  case isTrue => cases h
  case isFalse =>
    split at h
    case h_1 => cases h
    case h_2 => cases h
    case h_3 s io' es₁ hc =>
      rcases ho : openFiles s none n io' with ⟨r, es₂⟩
      rw [ho] at h
      have ⟨hr, hes⟩ := Prod.mk.inj h
      subst hr
      rw [createFreshDatabaseAtomically] at hc
      split at hc <;> cases hc
      case h_3 disk hb => exact ⟨disk, es₂, hb, ho, hes.symm⟩

theorem open_existing_ok (hf : ¬isFresh f) (h : Database.open f n io = (some (.ok db), es)) :
    ∃ s es', f.db = some s ∧ openFiles s f.wal n io = (some (.ok db), es') ∧ es = .creating none :: es' := by
  rw [Database.open] at h
  split at h
  case isTrue => cases h
  case isFalse =>
    match hd : f.db with
    | none => simp [isFresh, hd] at hf
    | some s =>
      rw [hd, Option.getD_some] at h
      rcases ho : openFiles s f.wal n io with ⟨r, es₂⟩
      rw [ho] at h
      have ⟨hr, hes⟩ := Prod.mk.inj h
      subst hr
      exact ⟨s, es₂, rfl, ho, hes.symm⟩

-- The events of `Open` up to the creation of the pool leave a database with an empty log.
theorem open_ok (h : Database.open f n io = (some (.ok db), es)) :
    ∃ s log io' w w' pool es₀, Opened s log n io' db w w' pool ∧ es = es₀ ++ db.pool.dev.trace ∧
      f.after es₀ = { db := some (w.recover s).storage, wal := some [] } := by
  by_cases hf : isFresh f
  case pos =>
    have ⟨disk, es', _, ho, hes⟩ := open_fresh_ok hf h
    have ⟨w, w', pool, ho, he⟩ := openFiles_ok ho
    refine ⟨_, none, _, w, w', pool, creationEvents disk.storage ++ recoveryEvents w disk.storage, ho, ?_, ?_⟩
    · rw [hes, he, List.append_assoc]
    · rw [Files.after_append, ← ho.after]
      rfl
  case neg =>
    have ⟨s, es', hd, ho, hes⟩ := open_existing_ok hf h
    have ⟨w, w', pool, ho, he⟩ := openFiles_ok ho
    refine ⟨s, f.wal, io, w, w', pool, .creating none :: recoveryEvents w s, ho, ?_, ?_⟩
    · rw [hes, he, List.cons_append]
    · rw [Files.after_cons, ← ho.after, FileEvent.apply, hd]

-- Without any files, a database is created and opened.
theorem open_empty : ∃ db es, Database.open {} 1 [] = (some (.ok db), es) := by
  have ho : (Database.open {} 1 []).fst.any Except.isOk = true := by decide +kernel
  rcases h : (Database.open {} 1 []).fst with _ | (_ | db)
  case some.ok => exact ⟨db, _, Prod.ext h rfl⟩
  all_goals
    rw [h] at ho
    cases ho

-- What `Close` leaves when it succeeds.
theorem close_ok (h : close db = (.ok (), disk)) :
    ∃ pool, db.pool.flushAll = (.ok (), pool) ∧ disk.storage = pool.dev.storage ∧ disk.files.wal.getD [] = [] := by
  rw [close] at h
  split at h
  case h_1 => cases h
  case h_2 pool hf =>
    refine ⟨pool, hf, ?_⟩
    split at h
    case h_1 hw =>
      rw [← (Prod.mk.inj h).right]
      exact ⟨rfl, by rw [Disk.files, hw]; rfl⟩
    case h_2 w hw =>
      split at h
      case h_1 => cases h
      case h_2 w' hr =>
        have ⟨hs, hd⟩ := Prod.mk.inj h
        have hfile := Wal.close_reset_ok hr hs
        rw [← hd]
        exact ⟨rfl, hfile⟩

end Database
end NexusDb
