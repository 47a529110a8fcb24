import NexusDb.Database.Theorems.Accounts

namespace NexusDb

open BufferPool (Steps)

-- Files from which the recovery gives a database that agrees with what is known about the records.
def Ledger.Recoverable (l : Ledger) (f : Files) : Prop :=
  ∃ x L, f.Recovers x ∧ l.Sound x L

theorem Ledger.ask_listTables (l : Ledger) (a : Answer) : l.ask .listTables a = l := by
  simp [ask, Query.wrote, Query.target]

-- An open database and what is known about its records. The pool shows the pages `s`.
structure Tracked (l : Ledger) (db : Database) (s : PageStorage) (L : Layout) : Prop where
  inv      : db.pool.Inv
  coherent : db.pool.Coherent s.page?
  executor : db.executor = .loaded L
  settled  : db.pool.dev.Settled
  dirty    : ∀ i f, db.pool.frame? i = some f → f.inUse → f.page.dirty → f.page.id ≠ 0
  accounts : Accounts l s L db.pool.dev.storage

namespace Tracked

variable {l : Ledger} {db db' : Database} {s s' : PageStorage} {L L' : Layout} {K : Contract} {q : Query} {a : Answer}
  (h : Tracked l db s L)

include h

theorem poised (K : Contract) : Poised K s db.pool.dev.storage db.pool s := by
  refine ⟨h.settled, h.dirty, .start fun i hi => ?_⟩
  change (Device.page? db.pool.dev i).isSome
  rwa [h.coherent.allocated]

-- The pool has gone from one moment to another while a query was done, and at every moment in between the query is done
-- with some answer.
theorem passes (db' : Database) (hp : q.Performs K s L a s' L') (hi : db'.pool.Inv) (hc : db'.pool.Coherent s'.page?)
    (he : db'.executor = .loaded L') (hpass : Passes (q.contract L) s db.pool.dev.storage
      (fun u => ∃ a' Lu, q.Performs K s L a' u Lu ∧ (q.contract L).Evolves u s') db.pool s db'.pool s') :
    ∃ es, db'.pool.dev.trace = db.pool.dev.trace ++ es ∧ db.pool.dev.files.Safe (l.ask q a).Recoverable es ∧
      ((∀ e ∈ es, e.failed = false) →
        Tracked (l.ask q a) db' s' L' ∧ db'.pool.dev.files = db.pool.dev.files.after es) := by
  have ⟨es, hes, hpass⟩ := hpass
  have ⟨hsafe, hok⟩ := hpass (h.poised _)
  refine ⟨es, hes, fun pre f hpre hf hcrash => ?_, fun hf => ?_⟩
  · have ⟨x, hx, u, ⟨a', Lu, hu, hend⟩, hm⟩ := hsafe pre f hpre hf hcrash
    have ⟨M, hM⟩ := h.accounts.sound hm hp hu hend
    exact ⟨x, M, hx, hM⟩
  · have ⟨hq, hfiles⟩ := hok hf
    refine ⟨⟨hi, hc, he, hq.settled, hq.dirty, h.accounts.ask hp hq.moment fun i hi => ?_⟩, hfiles⟩
    rwa [← hc.allocated]

theorem query (hq : db.query q = (some a, db')) :
    ∃ es, db'.pool.dev.trace = db.pool.dev.trace ++ es ∧ db.pool.dev.files.Safe (l.ask q a).Recoverable es ∧
      ((∀ e ∈ es, e.failed = false) → ∃ s' L', Tracked (l.ask q a) db' s' L') := by
  have hw := Query.wp_run (q.permits L) h.accounts.laid.realized (.inl trivial)
  have ⟨r, s', hr, hc, L', hL, hp⟩ := Prog.wp_exec (c := q.contract L) trivial hw h.inv h.coherent
  have hi := (Prog.exec_keeps h.inv (q.run (.loaded L))).inv
  have hpass : Passes (q.contract L) s db.pool.dev.storage
      (fun u => ∃ a' Lu, q.Performs (q.contract L) s L a' u Lu ∧ (q.contract L).Evolves u s') db.pool s _ s' :=
    Prog.exec_passes trivial h.accounts.laid.spares hw h.inv h.coherent hc
      fun u ⟨r, Lu, _, hu⟩ hend => ⟨r.fst, Lu, hu, hend⟩
  rw [Database.query, h.executor] at hq
  match he : (q.run (.loaded L)).exec db.pool with
  | (none, _) =>
    rw [he] at hr
    cases hr
  | (some (_, _), p) =>
    simp only [he] at hq hr hc hi hpass
    cases hq
    cases hr
    have ⟨es, hes, hsafe, hok⟩ := h.passes ⟨p, _, db.catalogRoot⟩ hp hi hc hL hpass
    exact ⟨es, hes, hsafe, fun hf => ⟨s', L', (hok hf).left⟩⟩

-- What the pool does on its own.
theorem steps {p : BufferPool Disk} (st : Steps db.pool p) :
    ∃ es, p.dev.trace = db.pool.dev.trace ++ es ∧ db.pool.dev.files.Safe l.Recoverable es ∧
      ((∀ e ∈ es, e.failed = false) →
        Tracked l { db with pool := p } s L ∧ p.dev.files = db.pool.dev.files.after es) := by
  -- It is like a query that does nothing.
  have hp : Query.Performs .any s L .listTables _ s L := .listTables
  have hpassed := h.passes { db with pool := p } hp (h.inv.keeps_steps st).inv (h.coherent.steps h.inv st)
    h.executor (.steps h.inv h.coherent ⟨_, L, hp, .refl⟩ st)
  simpa only [Ledger.ask_listTables] using hpassed

theorem sound : ∃ M, l.Sound db.pool.dev.storage M := by
  have hs := h.accounts.sound (h.poised _).moment (.listTables (K := .any)) .listTables .refl
  rwa [Ledger.ask_listTables] at hs

-- The database after everything was written back.
theorem flushed {p : BufferPool Disk} (hf : p.flushAll = (r, db.pool)) : Tracked (l.flushed r) db s L := by
  cases r
  case error => exact h
  case ok =>
    have hs := PageStorage.page?_ext (h.coherent.of_clean fun _ _ => BufferPool.flushAll_clean hf)
    exact { h with accounts := h.accounts.flushed hs }

theorem perform (hr : task.reopens = false) (hp : db.perform task = some (r, db')) :
    ∃ es, db'.pool.dev.trace = db.pool.dev.trace ++ es ∧ db.pool.dev.files.Safe (l.interrupt task r).Recoverable es ∧
      ((∀ e ∈ es, e.failed = false) → ∃ s' L', Tracked (l.perform db task r) db' s' L') := by
  have hsteps : ∀ {p l'}, Steps db.pool p → (Tracked l { db with pool := p } s L → Tracked l' { db with pool := p } s L) →
      ∃ es, p.dev.trace = db.pool.dev.trace ++ es ∧ db.pool.dev.files.Safe l.Recoverable es ∧
        ((∀ e ∈ es, e.failed = false) → ∃ s' L', Tracked l' { db with pool := p } s' L') := by
    intro p l' st hl
    have ⟨es, hes, hsafe, hok⟩ := h.steps st
    exact ⟨es, hes, hsafe, fun hf => ⟨s, L, hl (hok hf).left⟩⟩
  cases task
  case query q =>
    rw [Database.perform] at hp
    split at hp <;> cases hp
    case h_2 hq => exact h.query hq
  case resize =>
    cases hp
    exact hsteps (BufferPool.resize_steps rfl) id
  case flushPage =>
    cases hp
    exact hsteps (BufferPool.flushPage_steps rfl) id
  case flushAll =>
    cases hp
    exact hsteps (BufferPool.flushAll_steps rfl) (flushed · rfl)
  case reopen => cases hr

-- The log is truncated when everything is in the storage.
theorem close :
    ∃ es, db.close.snd.trace = db.pool.dev.trace ++ es ∧ db.pool.dev.files.Safe l.Recoverable es ∧
      (db.close.fst = .ok () → (∀ e ∈ es, e.failed = false) → (l.flushed (.ok ())).Recoverable db.close.snd.files) := by
  rw [Database.close]
  rcases hf : db.pool.flushAll with ⟨_ | ⟨⟩, p⟩
  · obtain ⟨es, hes, hsafe, _⟩ := h.steps (BufferPool.flushAll_steps hf)
    exact ⟨es, hes, hsafe, by rintro ⟨⟩⟩
  · obtain ⟨es, hes, hsafe, hok⟩ := h.steps (BufferPool.flushAll_steps hf)
    simp only
    split
    case h_1 hw =>
      refine ⟨es, hes, hsafe, fun _ hf => ?_⟩
      obtain ⟨_, _, hw', _⟩ := (hok hf).left.settled
      cases hw.symm.trans hw'
    case h_2 w hw =>
      split
      case h_1 => exact ⟨es, hes, hsafe, by rintro ⟨⟩⟩
      case h_2 w' hr =>
        refine ⟨es ++ [.truncate], ?_, ?_, fun hc hall => ?_⟩
        · change p.dev.trace ++ [.truncate] = _
          rw [hes, List.append_assoc]
        · refine hsafe.append fun hall => ?_
          obtain ⟨ht, hfiles⟩ := hok hall
          obtain ⟨M, hM⟩ := ht.sound
          rw [← hfiles]
          exact .cons ⟨_, M, ht.settled.recovers, hM⟩ (fun _ _ h => by cases h) fun _ => .nil ⟨_, M, .of_nil rfl rfl, hM⟩
        · obtain ⟨ht, _⟩ := hok fun e he => hall e (List.mem_append_left _ he)
          obtain ⟨M, hM⟩ := (ht.flushed hf).sound
          exact ⟨_, M, .of_nil rfl (Wal.close_reset_ok hr hc), hM⟩

end Tracked
end NexusDb
