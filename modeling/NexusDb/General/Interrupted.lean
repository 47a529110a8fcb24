import Mathlib.Data.List.Basic

-- What a sequence of events may leave that stops somewhere. `torn` says what is there when it stops in the
-- middle of an event.
inductive Interrupted (apply : α → β → α) (torn : α → β → α → Prop) : α → List β → α → Prop
  | done : Interrupted apply torn a [] a
  | here : Interrupted apply torn a (e :: es) a
  | torn (h : torn a e a') : Interrupted apply torn a (e :: es) a'
  | later (h : Interrupted apply torn (apply a e) es a') : Interrupted apply torn a (e :: es) a'

namespace Interrupted

variable {apply : α → β → α} {torn : α → β → α → Prop} {es es' : List β}

-- What every event keeps, completed or not.
theorem rule (J : α → Prop) (hstep : ∀ a, ∀ e ∈ es, J a → J (apply a e))
    (htorn : ∀ a, ∀ e ∈ es, ∀ a', J a → torn a e a' → J a') (ha : J a) (h : Interrupted apply torn a es a') : J a' := by
  induction h
  case done => exact ha
  case here => exact ha
  case torn e es _ h => exact htorn _ e List.mem_cons_self _ ha h
  case later e es _ _ ih =>
    exact ih (fun a e he => hstep a e (List.mem_cons_of_mem _ he))
      (fun a e he => htorn a e (List.mem_cons_of_mem _ he)) (hstep _ e List.mem_cons_self ha)

-- It may stop before it has started, and also not stop before the end.

theorem start (a : α) (es : List β) : Interrupted apply torn a es a := by
  cases es
  case nil => exact .done
  case cons => exact .here

theorem complete (a : α) (es : List β) : Interrupted apply torn a es (es.foldl apply a) := by
  induction es generalizing a
  case nil => exact .done
  case cons ih => exact .later (ih _)

-- There may be more to come.
theorem extend (h : Interrupted apply torn a es a') : Interrupted apply torn a (es ++ es') a' := by
  induction h
  case done => exact start ..
  case here => exact .here
  case torn h => exact .torn h
  case later ih => exact .later ih

theorem append (h : Interrupted apply torn a (es ++ es') a') :
    Interrupted apply torn a es a' ∨ Interrupted apply torn (es.foldl apply a) es' a' := by
  induction es generalizing a
  case nil => exact .inr h
  case cons e es ih =>
    cases h
    case here => exact .inl .here
    case torn h => exact .inl (.torn h)
    case later h => exact (ih h).imp_left .later

end Interrupted
