import NexusDb.Container.Theorems.Gate
import NexusDb.Container.Theorems.Registry

namespace NexusDb

namespace Gate

-- A step after which the child ends without the workload and without a word about it: the child is killed,
-- the release does not reach it, or its report does not reach the parent.
def silent (g : Gate) : GateAction → Bool
  | .childDies      => g.childAlive && g.child ≠ .workload && g.status.isNone
  | .readRelease ok => g.child = .waiting && (!ok || (!g.inFlight && !g.releaseEnd))
  | .report ok      =>
    match g.child with
    | .failing _ => !ok
    | _          => false
  | _               => false

def endsSilently (cfg : GateConfig) (g : Gate) : List GateAction → Bool
  | []      => false
  | a :: as => g.silent a || ((g.step cfg a).getD g).endsSilently cfg as

-- What `process_gate_release` returns to the parent of a child with this pid.
def releaseResult (g : Gate) (pid : Int) : Int :=
  if g.parent = .returned true then pid else -1

-- What is known about the child, where `s` says that it ended silently.
def Fate (g : Gate) (s : Bool) : Prop :=
  match g.child with
  | .workload         => g.executed = true ∧ g.status = none ∧ s = false
  | .exiting          => g.executed = false ∧ (g.status ≠ none ∨ s = true)
  | .zombie | .reaped =>
    (g.executed = true ∧ g.status = none ∧ s = false) ∨ (g.executed = false ∧ (g.status ≠ none ∨ s = true))
  | _                 => g.executed = false ∧ g.status = none ∧ s = false

variable {cfg : GateConfig} {g g' : Gate}

theorem fate_init : Fate {} false :=
  ⟨rfl, rfl, rfl⟩

theorem Fate.congr (h : Fate g s) (hc : g'.child = g.child) (he : g'.executed = g.executed)
    (hs : g'.status = g.status) : Fate g' s := by
  rw [Fate, hc, he, hs]
  exact h

theorem Fate.step (h : Fate g s) (hi : Inv cfg g) (hs : g.step cfg a = some g') : Fate g' (s || g.silent a) := by
  cases a <;> simp only [Gate.step] at hs
  case spawn ok =>
    split at hs
    case isFalse => cases hs
    case isTrue hp =>
      rw [Fate, hi.childless hp] at h
      split at hs <;> cases hs
      case isTrue => simpa [Fate, silent] using h
      case isFalse => simpa [Fate, silent, hi.childless hp] using h
  case waitpid =>
    split at hs <;> cases hs
    case isTrue hp =>
      rcases hp.right with hc | hc
      · simpa [Fate, silent, hc] using h
      · simpa [Fate, silent, hc] using h
  case childCloses =>
    split at hs <;> cases hs
    case isTrue hc => simpa [Fate, silent, hc] using h
  case readRelease ok =>
    split at hs
    case isFalse => cases hs
    case isTrue hc =>
      rw [Fate, hc] at h
      obtain ⟨he, hst, hns⟩ := h
      (repeat' split at hs) <;> cases hs
      all_goals simp_all [Fate, silent]
  case prepare errno =>
    split at hs
    case isFalse => cases hs
    case isTrue hc =>
      rw [Fate, hc] at h
      (repeat' split at hs) <;> cases hs
      all_goals simpa [Fate, silent] using h
  case chdir errno =>
    split at hs
    case isFalse => cases hs
    case isTrue hc =>
      rw [Fate, hc] at h
      split at hs <;> cases hs
      all_goals simpa [Fate, silent] using h
  case exec errno =>
    split at hs
    case isFalse => cases hs
    case isTrue hc =>
      rw [Fate, hc] at h
      split at hs <;> cases hs
      case isTrue => simpa [Fate, silent] using h.right
      case isFalse => simpa [Fate, silent] using h
  case report ok =>
    split at hs <;> cases hs
    case h_1 errno hc =>
      rw [Fate, hc] at h
      obtain ⟨he, hst, hns⟩ := h
      cases ok <;> simp [Fate, silent, hc, he, hst, hns]
  case exit =>
    split at hs <;> cases hs
    case isTrue hc =>
      rw [Fate, hc] at h
      exact .inr (by simpa [silent] using h)
  case childDies =>
    split at hs <;> cases hs
    case isTrue ha =>
      rw [Fate] at h
      cases hc : g.child <;> rw [hc] at h
      case exiting =>
        refine .inr ⟨h.left, ?_⟩
        cases hst : g.status <;> simp [silent, childAlive, hc, hst]
      all_goals simp_all [Fate, silent, childAlive]
  case collect =>
    split at hs <;> cases hs
    case isTrue hc => simpa [Fate, silent, hc] using h
  -- The other steps are those of the parent.
  all_goals
    (repeat' split at hs) <;> cases hs
  all_goals exact (Bool.or_false s).symm ▸ h.congr rfl rfl rfl

theorem silent_enabled (h : g.step cfg a = none) : g.silent a = false := by
  cases a <;> simp only [Gate.step] at h <;> simp only [silent]
  case childDies =>
    split at h
    case isTrue => cases h
    case isFalse ha => simp [ha]
  case readRelease ok =>
    split at h
    case isFalse hc => simp [hc]
    case isTrue hc => (repeat' split at h) <;> simp_all
  case report ok =>
    cases hc : g.child
    case failing errno => rw [hc] at h; cases h
    all_goals rfl

theorem Fate.run (h : Fate g s) (hi : Inv cfg g) (as : List GateAction) :
    Fate (g.run cfg as) (s || g.endsSilently cfg as) := by
  induction as generalizing g s
  case nil => exact (Bool.or_false s).symm ▸ h
  case cons a as ih =>
    rw [Gate.run, endsSilently, ← Bool.or_assoc]
    cases hs : g.step cfg a
    case none =>
      rw [silent_enabled hs, Bool.or_false]
      exact ih h hi
    case some g' => exact ih (h.step hi hs) (hi.step hs)

-- A parent that has seen the end of the status channel found no report, and none comes later.
def Seen (g : Gate) : Prop :=
  g.parent = .returned true → g.status = none ∧ (g.child = .workload ∨ g.child = .zombie ∨ g.child = .reaped)

theorem Seen.step (h : Seen g) (hs : g.step cfg a = some g') : Seen g' := by
  cases a <;> simp only [Gate.step] at hs
  case readStatus ok =>
    split at hs
    case isFalse => cases hs
    case isTrue =>
      split at hs
      case isTrue => cases hs; rintro ⟨⟩
      case isFalse =>
        split at hs
        case h_1 => cases hs; rintro ⟨⟩
        case h_2 hst =>
          split at hs <;> cases hs
          case isTrue hc =>
            refine fun _ => ⟨hst, ?_⟩
            simpa [statusClosed, or_assoc] using (Bool.and_eq_true_iff.mp hc).right
  case childDies =>
    split at hs <;> cases hs
    exact fun hp => ⟨(h hp).left, .inr <| .inl rfl⟩
  case collect =>
    split at hs <;> cases hs
    exact fun hp => ⟨(h hp).left, .inr <| .inr rfl⟩
  -- The parent has not returned, or the child would have to be past these steps.
  all_goals
    (repeat' split at hs) <;> cases hs
  all_goals
    intro hp
    try cases hp
  all_goals
    have hc := (h hp).right
    simp_all

theorem Seen.run (h : Seen g) (as : List GateAction) : Seen (g.run cfg as) := by
  induction as generalizing g
  case nil => exact h
  case cons a as hi =>
    refine hi ?_
    cases hs : g.step cfg a
    case none => exact h
    case some g' => exact h.step hs

theorem executed_iff (cfg : GateConfig) (as : List GateAction) (h : (run cfg {} as).parent = .returned true) :
    (run cfg {} as).executed = true ↔ endsSilently cfg {} as = false := by
  have hf := fate_init.run (Inv.init : Inv cfg {}) as
  have hseen : Seen (run cfg {} as) := Seen.run (fun hp => by cases hp) as
  have ⟨hst, hc⟩ := hseen h
  rw [Fate, Bool.false_or] at hf
  rcases hc with hc | hc | hc <;> rw [hc] at hf
  · simp [hf]
  · rcases hf with hf | hf <;> simp_all
  · rcases hf with hf | hf <;> simp_all

end Gate

theorem Registry.release_of_start {r : Registry} (h : (r.containerStart name os).fst = .ok) : 0 < os.release := by
  by_contra hn
  have hn : ¬os.release > 0 := hn
  simp only [Registry.containerStart, hn, not_false_eq_true, if_true] at h
  (repeat' split at h) <;> cases h

namespace Gate

-- A pid is returned, or a container gets running, only if the workload was executed.
def RunningMeansExecuted (g : Gate) : Prop :=
  (∀ pid, 0 < pid → 0 < g.releaseResult pid → g.executed = true) ∧
  ∀ (r : Registry) name os pid, os.release = g.releaseResult pid → (r.containerStart name os).fst = .ok → g.executed = true

-- The end of the status channel is the same for a workload that was executed and for a child that is gone.
theorem runningMeansExecuted_iff (cfg : GateConfig) (as : List GateAction) :
    RunningMeansExecuted (run cfg {} as) ↔
      ((run cfg {} as).parent = .returned true → endsSilently cfg {} as = false) := by
  constructor
  case mp =>
    intro h hp
    rw [← executed_iff cfg as hp]
    refine h.left 1 (by decide) ?_
    rw [releaseResult, if_pos hp]
    decide
  case mpr =>
    intro h
    have hpos : ∀ pid, 0 < (run cfg {} as).releaseResult pid → (run cfg {} as).executed = true := by
      intro pid hpid
      rw [releaseResult] at hpid
      split at hpid
      case isTrue hp => exact (executed_iff cfg as hp).mpr (h hp)
      case isFalse => cases hpid
    exact ⟨fun pid _ => hpos pid, fun r name os pid hos hok => hpos pid (hos ▸ Registry.release_of_start hok)⟩

-- The child is killed after it was released and before it gets to the workload.
def killedEarly : List GateAction :=
  [.spawn true, .closeEnds, .childCloses, .attach true, .send true, .closeRelease, .readRelease true, .childDies,
   .readStatus true]

def created : Registry :=
  Registry.setSlot {} 0 { name := nameA }

theorem killedEarly_running :
    let g := run ⟨false, false⟩ {} killedEarly
    g.executed = false ∧ g.releaseResult 7 = 7 ∧
    ∃ c, ((created.containerStart nameA { spawn := 7, release := g.releaseResult 7 }).snd.snd.find? nameA).map (·.snd) = some c ∧
      c.state = .running ∧ c.pid = 7 :=
  ⟨rfl, rfl, _, rfl, rfl, rfl⟩

end Gate
end NexusDb
