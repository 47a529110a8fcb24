import NexusDb.Storage.Disk
import NexusDb.Wal.Theorems.Recovery
import Mathlib.Data.List.Induction

namespace NexusDb

-- The contents that a page was given in memory, oldest first.
def modifications (tr : List FileEvent) (id : PageId) : List PageData :=
  tr.filterMap fun
    | .modify i d => if i = id then some d else none
    | _           => none

-- The versions of one page: how often it was modified, which version was last written to the storage,
-- and which one is in the last complete record that the log has for it.
structure Versions where
  current : Nat        := 0
  stored  : Nat        := 0
  logged  : Option Nat := none

def Versions.next (id : PageId) (v : Versions) : FileEvent → Versions
  | .modify i _        => if i = id then { v with current := v.current + 1 } else v
  | .overwrite _ i _ _ => if i = id then { v with stored := v.current } else v
  | .log i bytes _     =>
    if i = id ∧ bytes.length = Wal.recordSize then { v with logged := some v.current } else v
  | _                  => v

def versions (tr : List FileEvent) (id : PageId) : Versions :=
  tr.foldl (Versions.next id) {}

namespace Files

-- The page images in the log, in the order of its records.
def logImages (f : Files) : List (PageId × PageData) :=
  (Wal.reader.all (f.wal.getD [])).fst.map ParsedRecord.image

end Files

section

variable {tr : List FileEvent} {i : PageId}

@[simp]
theorem versions_snoc : versions (tr ++ [e]) i = (versions tr i).next i e := by
  simp [versions]

theorem modifications_snoc :
    modifications (tr ++ [e]) i =
      modifications tr i ++ (match e with
        | .modify j d => if j = i then [d] else []
        | _           => []) := by
  rw [modifications, modifications, List.filterMap_append]
  congr 1
  cases e <;> simp [List.filterMap_cons]
  split <;> simp_all

theorem versions_current : (versions tr i).current = (modifications tr i).length := by
  induction tr using List.reverseRecOn
  case nil => rfl
  case append_singleton tr e hi =>
    rw [versions_snoc, modifications_snoc, List.length_append, ← hi]
    cases e
    case modify => simp only [Versions.next]; split <;> rfl
    case overwrite => simp only [Versions.next]; split <;> rfl
    case log => simp only [Versions.next]; split <;> rfl
    all_goals rfl

theorem versions_stored_le : (versions tr i).stored ≤ (versions tr i).current := by
  induction tr using List.reverseRecOn
  case nil => exact le_rfl
  case append_singleton tr e hi =>
    rw [versions_snoc]
    cases e
    case modify =>
      simp only [Versions.next]
      split
      case isTrue => exact Nat.le_succ_of_le hi
      case isFalse => exact hi
    case overwrite =>
      simp only [Versions.next]
      split
      case isTrue => exact le_rfl
      case isFalse => exact hi
    case log => simp only [Versions.next]; split <;> exact hi
    all_goals exact hi

end

-- Replaying the log never takes a page back to an older version than the one in the storage: the last
-- record for a page has a version of it that is not older.
def UpToDate (f : Files) (tr : List FileEvent) : Prop :=
  ∀ id, match (versions tr id).logged with
    | none   => lastWrite (f.after tr).logImages id = none
    | some n => (versions tr id).stored ≤ n ∧ ∃ m d, n = m + 1 ∧
                  lastWrite (f.after tr).logImages id = some d ∧ (modifications tr id)[m]? = some d

-- When the pool overwrites a page, the last record for it in the log has the same bytes, which are the
-- current ones. The log has not failed before.
def Ordered (f : Files) (tr : List FileEvent) : FileEvent → Prop
  | .overwrite .pool id d _ =>
    lastWrite (f.after tr).logImages id = some d ∧ (modifications tr id).getLast? = some d ∧
      ∀ id' bytes, .log id' bytes false ∉ tr
  | _ => True

inductive WriteAhead (f : Files) : List FileEvent → Prop
  | nil (h : UpToDate f []) : WriteAhead f []
  | snoc (h : WriteAhead f tr) (ho : Ordered f tr e) (hu : UpToDate f (tr ++ [e])) : WriteAhead f (tr ++ [e])

namespace WriteAhead

variable {f : Files} {tr : List FileEvent}

theorem ordered (h : WriteAhead f tr) (ht : tr = pre ++ e :: post) : Ordered f pre e := by
  induction h generalizing post
  case nil => simp at ht
  case snoc tr e' h ho hu hi =>
    rcases List.eq_nil_or_concat post with hp | ⟨post', e'', hp⟩ <;> subst hp
    · have ⟨h₁, h₂⟩ := List.append_inj' ht rfl
      cases h₂
      exact h₁ ▸ ho
    · rw [List.concat_eq_append, ← List.cons_append, ← List.append_assoc] at ht
      exact hi (List.append_inj_left' ht rfl)

theorem upToDate (h : WriteAhead f tr) (hp : pre <+: tr) : UpToDate f pre := by
  induction h
  case nil hu =>
    rw [List.prefix_nil.mp hp]
    exact hu
  case snoc hu hi =>
    rcases List.prefix_concat_iff.mp hp with h | h
    · exact h ▸ hu
    · exact hi h

end WriteAhead
end NexusDb
