import NexusDb.Database.Theorems.Reopening

namespace NexusDb

-- The database agrees with what is known about its records.
def Stage.Agrees (l : Ledger) : Stage → Prop
  | closed f  => l.Openable f
  | opened db => ∃ s L, Tracked l db s L

theorem History.agrees (h : History stage l) : stage.Agrees l := by
  induction h
  case new hf => exact .inl ⟨hf, fun _ _ _ => id⟩
  case «open» ho ih => exact ih.tracked ho
  case openCrash hc ih => exact ih.openCrash hc
  case perform ht hp hok ih =>
    have ⟨_, _, h⟩ := ih
    have ⟨es, hes, _, h⟩ := h.perform ht hp
    exact h fun e he => hok e (hes ▸ List.mem_append_right _ he)
  case performCrash ht hp hpre hok hc ih =>
    have ⟨_, _, h⟩ := ih
    have ⟨es, hes, hsafe, _⟩ := h.perform ht hp
    rw [hes, List.prefix_append_right_inj] at hpre
    exact .inr (hsafe _ _ hpre hok hc)
  case close hc hok ih =>
    have ⟨_, _, h⟩ := ih
    have ⟨es, hes, _, h⟩ := h.close
    rw [hc] at hes h
    exact .inr (h rfl fun e he => hok e (hes ▸ List.mem_append_right _ he))
  case closeCrash hpre hok hc ih =>
    have ⟨_, _, h⟩ := ih
    have ⟨es, hes, hsafe, _⟩ := h.close
    rw [hes, List.prefix_append_right_inj] at hpre
    exact .inr (hsafe _ _ hpre hok hc)

-- However a database was used and wherever it was interrupted, it is opened again. It has all records that were there when
-- everything was written to the files for the last time, except the ones that somebody has tried to change since, and no
-- record that was not written.
theorem crash_recovery (h : History (.closed f) l) (hl : ∀ s, f.db = some s → s.pages.length ≤ pageLimit) (hn : 0 < n) :
    ∃ db es, Database.open f n [] = (some (.ok db), es) ∧
      (∀ t id bs, l.saved t id bs → db.record? t id = some bs ∧ (id, bs) ∈ db.rows t) ∧
      ∀ t id bs, db.record? t id = some bs ∨ (id, bs) ∈ db.rows t → l.written t id bs := by
  obtain ⟨n, rfl⟩ := Nat.exists_eq_add_one.mpr hn
  have ⟨db, es, x, L, ho, hr, hs⟩ := Ledger.Openable.open h.agrees hl n
  refine ⟨db, es, ho, fun t id bs hsaved => ?_, fun t id bs hv => ?_⟩
  · have hshows := hs.saved t id bs hsaved
    exact ⟨hr.record?.mpr hshows, hr.mem_rows.mpr hshows⟩
  · exact hs.written t id bs (hv.elim hr.record?.mp hr.mem_rows.mp)

-- A record is inserted and everything is written to the files. Then there is a crash while another one is inserted.
theorem crash_run :
    (match (Database.open {} 1 []).fst with
      | some (.ok db) =>
        match db.perform (.query (.createTable [0x74])) with
        | some (_, db₁) =>
          match db₁.perform (.query (.insert [0x74] (some [1]))) with
          | some (some (.inserted (.ok _)), db₂) =>
            match db₂.pool.flushAll with
            | (.ok (), p) =>
              match Database.perform { db₂ with pool := p } (.query (.insert [0x74] (some [2]))) with
              | some (some _, _) => decide (db₁.Within ∧ db₂.Within ∧ Database.Within { db₂ with pool := p })
              | _                => false
            | _ => false
          | _ => false
        | _ => false
      | _ => false) = true := by
  decide +kernel

theorem crash_recovery_one :
    ∃ f l db es id, History (.closed f) l ∧ l.saved [0x74] id [1] ∧ Database.open f 1 [] = (some (.ok db), es) ∧
      db.record? [0x74] id = some [1] ∧ (id, [1]) ∈ db.rows [0x74] := by
  have hrun := crash_run
  split at hrun
  case h_2 => cases hrun
  case h_1 db ho =>
    split at hrun
    case h_2 => cases hrun
    case h_1 a₁ db₁ hp₁ =>
      split at hrun
      case h_2 => cases hrun
      case h_1 id db₂ hp₂ =>
        split at hrun
        case h_2 => cases hrun
        case h_1 p hf =>
          split at hrun
          case h_2 => cases hrun
          case h_1 a₄ db₄ hp₄ =>
            obtain ⟨hw₁, hw₂, hw₃⟩ := of_decide_eq_true hrun
            have hp₃ : db₂.perform .flushAll = some (none, { db₂ with pool := p }) := by rw [Database.perform, hf]
            have h₀ := History.open (.new (f := {}) rfl) (Prod.ext ho rfl)
            have h₁ := h₀.perform rfl hp₁ hw₁.ok
            have h₂ := h₁.perform rfl hp₂ hw₂.ok
            have h₃ := h₂.perform rfl hp₃ hw₃.ok
            obtain ⟨_, _, ht⟩ := h₃.agrees
            obtain ⟨es, hes, _⟩ := ht.perform rfl hp₄
            have hpre : p.dev.trace ++ [] <+: db₄.pool.dev.trace := ⟨es, by rw [List.append_nil, hes]⟩
            have h₄ := h₃.performCrash rfl hp₄ hpre (by rintro _ ⟨⟩) .done
            have hl : ∀ s, p.dev.files.db = some s → s.pages.length ≤ pageLimit := fun s hs => Option.some.inj hs ▸ hw₃.pages
            obtain ⟨db, es, ho, hsaved, _⟩ := crash_recovery h₄ hl Nat.one_pos
            refine ⟨_, _, db, es, id, h₄, ?hid, ho, hsaved _ _ _ ?hid⟩
            refine ⟨?_, by rintro ⟨⟩⟩
            change (Ledger.flushed _ db₂.pool.flushAll.fst).saved _ _ _
            rw [hf]
            exact .inl rfl

end NexusDb
