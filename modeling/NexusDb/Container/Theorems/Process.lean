import NexusDb.Container.Process
import Mathlib.Tactic.Common

namespace NexusDb

namespace Kernel

variable {k k' : Kernel} {p : Process} {q : Option Process}

theorem waitpid_foreign (hp : ∀ p, k.process = some p → p.child = false) :
    k.waitpid = (.error .noChild, k) := by
  rw [waitpid]
  split
  case h_1 => rfl
  case h_2 p h => rw [hp p h]; rfl

-- The first call tells that there is no such child.
theorem poll_foreign (hp : ∀ p, k.process = some p → p.child = false) : k.poll (n + 1) = (true, k) := by
  rw [poll, waitpid_foreign hp]

-- A child is reaped, or it is still there after all rounds.
theorem poll_child (hp : k.process = some p) (hc : p.child) (h : k.poll n = (done, k')) :
    if done then k'.process = none else k'.process = some p := by
  induction n generalizing k
  case zero => cases h; exact hp
  case succ n hi =>
    have hw : k.waitpid = if k.exited p then (.ok true, { k with process := none }) else (.ok false, k) := by
      simp only [waitpid, hp, hc, Bool.not_true, Bool.false_eq_true, if_false]
    rw [poll, hw] at h
    split at h
    case h_1 hr =>
      split at hr
      case isTrue => cases hr; cases h; rfl
      case isFalse => cases hr
    case h_2 hr => split at hr <;> cases hr
    case h_3 hr =>
      split at hr
      case isTrue => cases hr; simp at *
      case isFalse => cases hr; exact hi (k := { k with round := k.round + 1 }) hp h

theorem kill_process : (k.kill s).snd.process = k.process := by
  rw [kill]
  split
  case h_1 => rfl
  case h_2 => split_ifs <;> rfl

theorem reap_foreign (hp : ∀ p, k.process = some p → p.child = false) : k.reap interrupted = (0, k) := by
  rw [reap, poll_foreign hp]

theorem reap_child (hp : k.process = some p) (hc : p.child) (h : k.reap interrupted = (0, k')) :
    k'.process = none := by
  rw [reap] at h
  split at h
  case h_1 hpoll =>
    cases h
    exact poll_child hp hc hpoll
  case h_2 k₁ hpoll =>
    have hp₁ : (k₁.kill .kill).snd.process = some p := kill_process.trans (poll_child hp hc hpoll)
    rw [waitpidBlocking] at h
    simp only [hp₁, hc, Bool.not_true, Bool.false_eq_true, if_false] at h
    split at h
    case h_1 hw =>
      cases h
      split at hw
      case isTrue => cases hw
      case isFalse => cases hw; rfl
    case h_2 hw => split_ifs at hw <;> cases hw
    case h_3 => cases h

theorem present_of_none (h : k.process = none) : k.present = false := by
  rw [present, h]
  rfl

theorem exited_fresh : exited { process := q } p = decide (p.exitsAt = some 0) := by
  cases h : p.exitsAt <;> simp [exited, h]

theorem kill_terminate (hp : present { process := some p }) :
    kill { process := some p } .terminate =
      if p.permitted then (.ok (), { process := some p }) else (.error .permission, { process := some p }) := by
  rw [kill]
  simp only [hp]
  cases p.permitted <;> rfl

theorem kill_absent (hp : present { process := q } = false) :
    kill { process := q } s = (.error .search, { process := q }) := by
  cases q
  case none => rfl
  case some p => simp [kill, hp]

end Kernel

variable {process : Option Process} {p : Process} {k : Kernel}

-- The process of another parent is reported to be stopped as soon as it got the signal.
theorem processStop_foreign (interrupted : Bool) (hpid : 0 < pid) (hc : p.child = false) :
    processStop pid interrupted { process := some p } =
      (if p.permitted ∨ p.exitsAt = some 0 then 0 else -1, { process := some p }) := by
  have hreap : Kernel.reap { process := some p } interrupted = (0, { process := some p }) :=
    Kernel.reap_foreign fun q hq => by cases hq; exact hc
  have hpresent : Kernel.present { process := some p } = !decide (p.exitsAt = some 0) := by
    simp only [Kernel.present, Option.any_some, hc, Bool.false_or, Kernel.exited_fresh]
  rw [processStop, if_neg (by omega)]
  by_cases he : p.exitsAt = some 0
  case pos =>
    rw [decide_eq_true he] at hpresent
    rw [Kernel.kill_absent hpresent, if_pos (.inr he)]
    exact hreap
  case neg =>
    rw [decide_eq_false he] at hpresent
    rw [Kernel.kill_terminate hpresent]
    cases hperm : p.permitted
    case true => simpa using hreap
    case false => simp [he]

theorem processStop_child (hc : p.child) (h : processStop pid interrupted { process := some p } = (0, k)) :
    k.process = none := by
  rw [processStop] at h
  split at h
  case isTrue => cases h
  case isFalse =>
    rw [Kernel.kill_terminate (by simp [Kernel.present, hc])] at h
    cases hperm : p.permitted
    case true =>
      rw [hperm] at h
      exact Kernel.reap_child rfl hc h
    case false =>
      rw [hperm] at h
      cases h

-- A success means that the process is gone exactly when the caller is its parent, or it exits at once.
theorem processStop_gone_iff (pid : Int) (interrupted : Bool) (process : Option Process) :
    (∀ k, processStop pid interrupted { process } = (0, k) → k.present = false) ↔
      (0 < pid → ∀ p, process = some p → p.permitted → p.child ∨ p.exitsAt = some 0) := by
  constructor
  case mp =>
    intro h hpid p hp hperm
    cases hc : p.child
    case true => exact .inl rfl
    case false =>
      have hs := processStop_foreign interrupted hpid hc
      rw [if_pos (.inl hperm), ← hp] at hs
      have hpresent := h _ hs
      rw [hp] at hpresent
      simpa [Kernel.present, hc, Kernel.exited_fresh] using hpresent
  case mpr =>
    intro h k hk
    have hpid : 0 < pid := by
      by_contra hn
      rw [processStop, if_pos (by omega)] at hk
      cases hk
    cases process
    case none =>
      rw [processStop, if_neg (by omega), Kernel.kill_absent rfl] at hk
      simp only [Kernel.reap_foreign (k := { process := none }) nofun] at hk
      cases hk
      rfl
    case some p =>
      cases hc : p.child
      case true => exact Kernel.present_of_none (processStop_child hc hk)
      case false =>
        rw [processStop_foreign interrupted hpid hc] at hk
        split at hk
        case isFalse => cases hk
        case isTrue hd =>
          cases hk
          have he : p.exitsAt = some 0 := by
            cases hd
            case inl hperm => simpa [hc] using h hpid p rfl hperm
            case inr he => exact he
          simp [Kernel.present, hc, Kernel.exited_fresh, he]

end NexusDb
