import NexusDb.Container.Gate

namespace NexusDb

def ParentPc.beforeAttach : ParentPc → Bool
  | spawning | spawned | attaching => true
  | _                              => false

-- The child has read the release byte, and it is not on its way to exit.
def ChildPc.released : ChildPc → Bool
  | preparing | changingDir | executing | failing _ | workload => true
  | _                                                          => false

def ChildPc.pastPrepare : ChildPc → Bool
  | changingDir | executing => true
  | _                       => false

namespace Gate

structure Inv (cfg : GateConfig) (g : Gate) : Prop where
  early     : g.parent.beforeAttach → g.attached = false ∧ g.attachFailed = false ∧ g.sent = false
  sending   : g.parent = .sending → g.attached = true ∧ g.attachFailed = false
  failed    : g.attachFailed = true → g.sent = false
  sent      : g.sent = true → g.attached = true
  inFlight  : g.inFlight = true → g.sent = true
  released  : g.child.released → g.sent = true
  executed  : g.executed = true → g.sent = true
  prepared  : g.child.pastPrepare → cfg.hasPrepare = true → g.prepared = true
  childless : g.parent = .spawning → g.child = .none
  returned  : g.parent = .returned false → g.child = .none ∨ g.child = .reaped

variable {cfg : GateConfig} {g g' : Gate}

theorem Inv.init : Inv cfg {} where
  early _    := ⟨rfl, rfl, rfl⟩
  sending    := nofun
  failed     := nofun
  sent       := nofun
  inFlight   := nofun
  released   := nofun
  executed   := nofun
  prepared   := nofun
  childless _ := rfl
  returned   := nofun

-- A child that exists moves on.
theorem Inv.moveChild (h : Inv cfg g) (hc : g.child ≠ .none ∧ g.child ≠ .reaped)
    (hr : c.released → g.sent = true)
    (hp : c.pastPrepare → cfg.hasPrepare = true → g.prepared = true) : Inv cfg { g with child := c } :=
  { h with
    released  := hr
    prepared  := hp
    childless := fun hp => absurd (h.childless hp) hc.left
    returned  := fun hp => by
      cases h.returned hp
      case inl he => exact absurd he hc.left
      case inr he => exact absurd he hc.right }

-- The parent moves on after the attach, to a place where nothing is asked of it.
theorem Inv.moveParent (h : Inv cfg g) (he : p.beforeAttach = false) (hs : p ≠ .sending) (hr : p ≠ .returned false) :
    Inv cfg { g with parent := p, releaseEnd := r, statusEnd := u } :=
  { h with
    early     := fun hp => by rw [he] at hp; cases hp
    sending   := fun hp => absurd hp hs
    childless := fun (hp : p = .spawning) => by rw [hp] at he; cases he
    returned  := fun hp => absurd hp hr }

-- The steps of the parent.

theorem Inv.spawn (h : Inv cfg g) (hs : g.step cfg (.spawn ok) = some g') : Inv cfg g' := by
  simp only [Gate.step] at hs
  split at hs
  case isFalse => cases hs
  case isTrue hp =>
    have ⟨ha, hf, hn⟩ := h.early (by rw [hp]; rfl)
    have hc := h.childless hp
    split at hs <;> cases hs
    case isTrue =>
      exact { h with
        early := fun _ => ⟨ha, hf, hn⟩, sending := nofun, released := nofun, prepared := nofun
        childless := nofun, returned := nofun }
    case isFalse =>
      exact { h with
        early := nofun, sending := nofun, childless := nofun, returned := fun _ => .inl hc }

theorem Inv.closeEnds (h : Inv cfg g) (hs : g.step cfg .closeEnds = some g') : Inv cfg g' := by
  simp only [Gate.step] at hs
  split at hs <;> cases hs
  case isTrue hp =>
    have he := h.early (by rw [hp]; rfl)
    exact { h with early := fun _ => he, sending := nofun, childless := nofun, returned := nofun }

theorem Inv.attach (h : Inv cfg g) (hs : g.step cfg (.attach ok) = some g') : Inv cfg g' := by
  simp only [Gate.step] at hs
  split at hs
  case isFalse => cases hs
  case isTrue hp =>
    have ⟨ha, hf, hn⟩ := h.early (by rw [hp]; rfl)
    split at hs <;> cases hs
    case isTrue =>
      exact { h with
        early := nofun, sending := fun _ => ⟨rfl, hf⟩, sent := fun _ => rfl, childless := nofun, returned := nofun }
    case isFalse =>
      exact { h with
        early := nofun, sending := nofun, failed := fun _ => hn, childless := nofun, returned := nofun }

theorem Inv.send (h : Inv cfg g) (hs : g.step cfg (.send ok) = some g') : Inv cfg g' := by
  simp only [Gate.step] at hs
  split at hs
  case isFalse => cases hs
  case isTrue hp =>
    have ⟨ha, hf⟩ := h.sending hp
    split at hs <;> cases hs
    case isTrue =>
      exact { h with
        early := nofun, sending := nofun, failed := fun he => by rw [hf] at he; cases he
        sent := fun _ => ha, inFlight := fun _ => rfl, released := fun _ => rfl, executed := fun _ => rfl
        childless := nofun, returned := nofun }
    case isFalse => exact h.moveParent rfl nofun nofun

theorem Inv.readStatus (h : Inv cfg g) (hs : g.step cfg (.readStatus ok) = some g') : Inv cfg g' := by
  simp only [Gate.step] at hs
  split at hs
  case isFalse => cases hs
  case isTrue =>
    split at hs
    case isTrue => cases hs; exact h.moveParent rfl nofun nofun
    case isFalse =>
      split at hs
      case h_1 => cases hs; exact h.moveParent rfl nofun nofun
      case h_2 => split at hs <;> cases hs; exact h.moveParent rfl nofun nofun

theorem Inv.waitpid (h : Inv cfg g) (hs : g.step cfg .waitpid = some g') : Inv cfg g' := by
  simp only [Gate.step] at hs
  split at hs <;> cases hs
  exact { h with
    early := nofun, sending := nofun, released := nofun, prepared := nofun, childless := nofun
    returned := fun _ => .inr rfl }

-- The steps of the child. Before its exec it has been released.

theorem Inv.readRelease (h : Inv cfg g) (hs : g.step cfg (.readRelease ok) = some g') : Inv cfg g' := by
  simp only [Gate.step] at hs
  split at hs
  case isFalse => cases hs
  case isTrue hc =>
    have hc : g.child ≠ .none ∧ g.child ≠ .reaped := by rw [hc]; exact ⟨nofun, nofun⟩
    split at hs
    case isTrue => cases hs; exact h.moveChild hc nofun nofun
    case isFalse =>
      split at hs
      case isTrue hb =>
        cases hs
        exact { h.moveChild (c := .preparing) hc (fun _ => h.inFlight hb) nofun with inFlight := nofun }
      case isFalse =>
        split at hs <;> cases hs
        exact h.moveChild hc nofun nofun

theorem Inv.prepare (h : Inv cfg g) (hs : g.step cfg (.prepare errno) = some g') : Inv cfg g' := by
  simp only [Gate.step] at hs
  split at hs
  case isFalse => cases hs
  case isTrue hpc =>
    have hc : g.child ≠ .none ∧ g.child ≠ .reaped := by rw [hpc]; exact ⟨nofun, nofun⟩
    have hsent := h.released (by rw [hpc]; rfl)
    split at hs
    case isTrue hn => cases hs; exact h.moveChild hc (fun _ => hsent) fun _ hp => by simp [hp] at hn
    case isFalse =>
      split at hs <;> cases hs
      case isTrue =>
        have h' : Inv cfg { g with prepared := true } := { h with prepared := fun _ _ => rfl }
        exact h'.moveChild hc (fun _ => hsent) fun _ _ => rfl
      case isFalse => exact h.moveChild hc (fun _ => hsent) nofun

theorem Inv.chdir (h : Inv cfg g) (hs : g.step cfg (.chdir errno) = some g') : Inv cfg g' := by
  simp only [Gate.step] at hs
  split at hs
  case isFalse => cases hs
  case isTrue hpc =>
    have hc : g.child ≠ .none ∧ g.child ≠ .reaped := by rw [hpc]; exact ⟨nofun, nofun⟩
    have hsent := h.released (by rw [hpc]; rfl)
    split at hs <;> cases hs
    case isTrue => exact h.moveChild hc (fun _ => hsent) fun _ => h.prepared (by rw [hpc]; rfl)
    case isFalse => exact h.moveChild hc (fun _ => hsent) nofun

theorem Inv.exec (h : Inv cfg g) (hs : g.step cfg (.exec errno) = some g') : Inv cfg g' := by
  simp only [Gate.step] at hs
  split at hs
  case isFalse => cases hs
  case isTrue hpc =>
    have hc : g.child ≠ .none ∧ g.child ≠ .reaped := by rw [hpc]; exact ⟨nofun, nofun⟩
    have hsent := h.released (by rw [hpc]; rfl)
    split at hs <;> cases hs
    case isTrue =>
      exact { h.moveChild (c := .workload) hc (fun _ => hsent) nofun with executed := fun _ => hsent }
    case isFalse => exact h.moveChild hc (fun _ => hsent) nofun

theorem Inv.report (h : Inv cfg g) (hs : g.step cfg (.report ok) = some g') : Inv cfg g' := by
  simp only [Gate.step] at hs
  split at hs <;> cases hs
  case h_1 hc => exact { h.moveChild (c := .exiting) (by rw [hc]; exact ⟨nofun, nofun⟩) nofun nofun with }

theorem Inv.childDies (h : Inv cfg g) (hs : g.step cfg .childDies = some g') : Inv cfg g' := by
  simp only [Gate.step] at hs
  split at hs <;> cases hs
  case isTrue hc =>
    refine h.moveChild ?_ nofun nofun
    simp only [childAlive, Bool.and_eq_true, decide_eq_true_eq] at hc
    exact ⟨hc.left.left, hc.right⟩

theorem Inv.step (h : Inv cfg g) (hs : g.step cfg a = some g') : Inv cfg g' := by
  cases a
  case spawn => exact h.spawn hs
  case closeEnds => exact h.closeEnds hs
  case attach => exact h.attach hs
  case send => exact h.send hs
  case readStatus => exact h.readStatus hs
  case waitpid => exact h.waitpid hs
  case readRelease => exact h.readRelease hs
  case prepare => exact h.prepare hs
  case chdir => exact h.chdir hs
  case exec => exact h.exec hs
  case report => exact h.report hs
  case childDies => exact h.childDies hs
  all_goals simp only [Gate.step] at hs
  case closeRelease => split at hs <;> cases hs; exact h.moveParent rfl nofun nofun
  case kill => split at hs <;> cases hs; exact h.moveParent rfl nofun nofun
  case parentDies => split at hs <;> cases hs; exact h.moveParent rfl nofun nofun
  case childCloses =>
    split at hs <;> cases hs
    case isTrue hc => exact h.moveChild (by rw [hc]; exact ⟨nofun, nofun⟩) nofun nofun
  case exit =>
    split at hs <;> cases hs
    case isTrue hc => exact h.moveChild (by rw [hc]; exact ⟨nofun, nofun⟩) nofun nofun
  case collect =>
    split at hs <;> cases hs
    case isTrue hc => exact h.moveChild (by rw [hc]; exact ⟨nofun, nofun⟩) nofun nofun

theorem Inv.run (h : Inv cfg g) (as : List GateAction) : Inv cfg (g.run cfg as) := by
  induction as generalizing g
  case nil => exact h
  case cons a as hi =>
    refine hi ?_
    cases hs : g.step cfg a
    case none => exact h
    case some g' => exact h.step hs

-- The attach failed, or the parent died before it released the child.
def Refused (g : Gate) : Prop :=
  g.attachFailed = true ∨ (g.parent = .dead ∧ g.sent = false)

theorem Inv.not_executed (h : Inv cfg g) (hr : g.Refused) : g.executed = false := by
  have hsent : g.sent = false := by
    cases hr
    case inl hf => exact h.failed hf
    case inr hd => exact hd.right
  cases he : g.executed
  case false => rfl
  case true => rw [h.executed he] at hsent; cases hsent

-- Only a parent that is alive releases the child.
theorem Refused.step (hr : g.Refused) (hs : g.step cfg a = some g') : g'.Refused := by
  rw [Refused] at hr ⊢
  cases a <;> simp only [Gate.step] at hs <;> (repeat' split at hs) <;> cases hs <;> simp_all

theorem Refused.run (hr : g.Refused) (as : List GateAction) : (g.run cfg as).Refused := by
  induction as generalizing g
  case nil => exact hr
  case cons a as hi =>
    refine hi ?_
    cases hs : g.step cfg a
    case none => exact hr
    case some g' => exact hr.step hs

theorem executing_of_executed (hs : g.step cfg a = some g') (h₀ : g.executed = false)
    (h₁ : g'.executed = true) : g.child = .executing := by
  cases a <;> simp only [Gate.step] at hs
  case exec =>
    split at hs
    case isTrue hc => exact hc
    case isFalse => cases hs
  all_goals
    (repeat' split at hs) <;> cases hs <;> rw [h₀] at h₁ <;> cases h₁

-- Any interleaving of the two processes.
theorem attach_before_exec (cfg : GateConfig) (as : List GateAction) :
    let g := run cfg {} as
    (∀ a g', g.step cfg a = some g' → g.executed = false → g'.executed = true →
      g.attached = true ∧ g.sent = true ∧ (cfg.hasPrepare = true → g.prepared = true)) ∧
    (g.attachFailed = true ∨ (g.parent = .dead ∧ g.sent = false) →
      ∀ bs, (g.run cfg bs).executed = false) ∧
    (g.parent = .returned false → g.child = .none ∨ g.child = .reaped) := by
  intro g
  have hi : Inv cfg g := Inv.init.run as
  refine ⟨fun a g' hs h₀ h₁ => ?_, fun hr bs => (hi.run bs).not_executed (Refused.run hr bs), hi.returned⟩
  have hc := executing_of_executed hs h₀ h₁
  have hsent := hi.released (by rw [hc]; rfl)
  exact ⟨hi.sent hsent, hsent, hi.prepared (by rw [hc]; rfl)⟩

-- The workload does run when nothing goes wrong.
example : (run ⟨true, true⟩ {} [.spawn true, .closeEnds, .childCloses, .attach true, .send true,
    .readRelease true, .closeRelease, .prepare 0, .chdir 0, .exec 0, .readStatus true]).parent =
      .returned true := by
  decide

end Gate
end NexusDb
