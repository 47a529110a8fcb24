import NexusDb.Benchmark.Theorems.Accounting
import NexusDb.Container.Theorems.Registry

namespace NexusDb

namespace Registry

open Container (nameValid)

-- The records of all other containers stay.
def Spares (name : Text) (r r' : Registry) : Prop :=
  ∀ i c, c.name ≠ name → (r'.slots i = some c ↔ r.slots i = some c)

-- A container that is not deleted was there before, in the same slot and with the same id.
def AddsNone (name : Text) (r r' : Registry) : Prop :=
  ∀ i c, r'.find? name = some (i, c) → c.state ≠ .deleted →
    ∃ old, r.find? name = some (i, old) ∧ old.state ≠ .deleted ∧ c.id = old.id

-- Calls on one container that do not create it.
structure Touches (name : Text) (r r' : Registry) : Prop where
  others : Spares name r r'
  own    : AddsNone name r r'

variable {r r' r₁ r₂ : Registry} {name : Text}

theorem Touches.refl (name : Text) (r : Registry) : Touches name r r :=
  ⟨fun _ _ _ => .rfl, fun _ c hc hs => ⟨c, hc, hs, rfl⟩⟩

theorem Touches.trans (h₁ : Touches name r r₁) (h₂ : Touches name r₁ r₂) : Touches name r r₂ where
  others i c hn := (h₂.others i c hn).trans (h₁.others i c hn)
  own i c hc hs := by
    obtain ⟨c₁, hc₁, hs₁, hid₁⟩ := h₂.own i c hc hs
    obtain ⟨c₀, hc₀, hs₀, hid₀⟩ := h₁.own i c₁ hc₁ hs₁
    exact ⟨c₀, hc₀, hs₀, hid₁.trans hid₀⟩

-- A new record in the slot of a container.
theorem find?_update (hf : r.find? name = some (i, c)) (hn : c'.name = name) :
    (r.setSlot i c').find? name = some (i, c') := by
  have hslot : r.findSlot name = some i := by
    obtain ⟨j, hj, hm⟩ := Option.bind_eq_some_iff.mp hf
    obtain ⟨_, _, he⟩ := Option.map_eq_some_iff.mp hm
    cases he
    exact hj
  rw [← hn] at hslot ⊢
  exact find?_setSlot (by rw [hslot]; rfl)

theorem Touches.update (hf : r.find? name = some (i, c)) (hs : c.state ≠ .deleted) (hn : c'.name = c.name)
    (hid : c'.id = c.id) : Touches name r (r.setSlot i c') := by
  obtain ⟨hslot, hname⟩ := find?_some hf
  refine ⟨fun j d hd => ?_, fun j d hd _ => ?_⟩
  · rw [slots_setSlot]
    split
    case isTrue hj =>
      subst hj
      rw [hslot, Option.some_inj, Option.some_inj]
      exact iff_of_false (fun he => hd (by rw [← he, hn, hname])) fun he => hd (by rw [← he, hname])
    case isFalse => exact .rfl
  · rw [find?_update hf (hn.trans hname)] at hd
    cases hd
    exact ⟨c, hf, hs, hid⟩

-- A call that finds the container and changes its record, or does nothing.
inductive Updates (name : Text) (r : Registry) : Registry → Prop
  | none : Updates name r r
  | record (found : r.find? name = some (i, c)) (live : c.state ≠ .deleted) (named : c'.name = c.name)
      (same : c'.id = c.id) : Updates name r (r.setSlot i c')

theorem Updates.touches (h : Updates name r r') : Touches name r r' := by
  cases h
  case none => exact .refl name r
  case record hf hs hn hid => exact .update hf hs hn hid

theorem containerStop_updates (r : Registry) (name : Text) (os : Primitives) :
    Updates name r (r.containerStop name os).snd.snd := by
  rw [containerStop]
  split
  case isTrue => exact .none
  case isFalse =>
    split
    case h_1 => exact .none
    case h_2 c hf =>
      split
      case isTrue => exact .none
      case isFalse hs =>
        have hs : c.state ≠ .deleted := by rw [not_not.mp hs]; decide
        split
        case isTrue =>
          split
          case isTrue => exact .none
          case isFalse => exact .record hf hs rfl rfl
        case isFalse => exact .record hf hs rfl rfl

theorem containerDelete_updates (r : Registry) (name : Text) (os : Primitives) :
    Updates name r (r.containerDelete name os).snd.snd := by
  rw [containerDelete]
  split
  case isTrue => exact .none
  case isFalse =>
    split
    case h_1 => exact .none
    case h_2 hf =>
      split
      case isTrue => exact .none
      case isFalse =>
        split
        case isTrue => exact .none
        case isFalse hs =>
          dsimp only
          split
          case isTrue => exact .record hf hs rfl rfl
          case isFalse => exact .record hf hs rfl rfl

-- A container that was not deleted.
def Live (r : Registry) (name : Text) : Prop :=
  ∃ i c, r.find? name = some (i, c) ∧ c.state ≠ .deleted

-- A container stays in its cgroup when it is started.
theorem containerStart_live (h : r.containerStart name os = (rc, events, r')) (hf : r.find? name = some (i, c))
    (hs : c.state ≠ .deleted) :
    Updates name r r' ∧ ∃ c', r'.find? name = some (i, c') ∧ c'.state ≠ .deleted ∧ c'.cgroupPath = c.cgroupPath := by
  have hrecord : ∀ c' : Container, c'.name = c.name → c'.id = c.id → c'.state ≠ .deleted → c'.cgroupPath = c.cgroupPath →
      Updates name r (r.setSlot i c') ∧
        ∃ d, (r.setSlot i c').find? name = some (i, d) ∧ d.state ≠ .deleted ∧ d.cgroupPath = c.cgroupPath := by
    intro c' hn hid hs' hp
    refine ⟨.record hf hs hn hid, c', find?_update hf ?_, hs', hp⟩
    rw [hn, (find?_some hf).right]
  have hrunning : Container.State.running ≠ .deleted := by decide
  have hsame : Updates name r r ∧
      ∃ c', r.find? name = some (i, c') ∧ c'.state ≠ .deleted ∧ c'.cgroupPath = c.cgroupPath := ⟨.none, c, hf, hs, rfl⟩
  rw [containerStart] at h
  split at h
  case isTrue => cases h; exact hsame
  case isFalse =>
    rw [hf] at h
    dsimp only at h
    split at h
    case isTrue => cases h; exact hsame
    case isFalse =>
      split at h
      case isTrue => cases h; exact hsame
      case isFalse =>
        split at h
        case h_1 => cases h; exact hsame
        case h_2 =>
          split at h
          case isTrue => cases h; exact hsame
          case isFalse =>
            split at h
            case isTrue => cases h; exact hrecord _ rfl rfl hs rfl
            case isFalse =>
              split at h <;> cases h
              case isTrue => exact hrecord _ rfl rfl hs rfl
              case isFalse => exact hrecord _ rfl rfl hrunning rfl

-- When the primitives work, a container is stopped, unless it is not running, and then deleted.
theorem stop_delete (hv : nameValid name) (hl : r.Live name) (hstop : os.stop = 0) (hdelete : os'.cgroupDestroy = .ok) :
    ¬((r.containerStop name os).snd.snd.containerDelete name os').snd.snd.Live name := by
  obtain ⟨i, c, hf, hs⟩ := hl
  have hdel : ∀ {r₁ : Registry} {c₁}, r₁.find? name = some (i, c₁) → c₁.state ≠ .running → c₁.state ≠ .deleted →
      ¬(r₁.containerDelete name os').snd.snd.Live name := by
    rintro r₁ c₁ hf₁ hr₁ hd₁ ⟨j, d, hfd, hsd⟩
    simp only [containerDelete, hv, hf₁, hdelete, if_neg hr₁, if_neg hd₁, Bool.not_true, Bool.false_eq_true, if_false,
      ne_eq, not_true_eq_false] at hfd
    cases hfd.symm.trans (find?_update hf₁ (by exact (find?_some hf₁).right))
    exact hsd rfl
  have hname := (find?_some hf).right
  by_cases hr : c.state = .running
  case neg =>
    have he : (r.containerStop name os).snd.snd = r := by
      simp only [containerStop, hv, hf, ne_eq, hr, not_false_eq_true, if_true, Bool.not_true, Bool.false_eq_true, if_false]
    rw [he]
    exact hdel hf hr hs
  case pos =>
    have he : ∃ c', c'.name = name ∧ c'.state = .stopped ∧ (r.containerStop name os).snd.snd = r.setSlot i c' := by
      simp only [containerStop, hv, hf, hr, hstop, ne_eq, not_true_eq_false, Bool.not_true, Bool.false_eq_true, if_false]
      split
      case isTrue => exact ⟨{ c with pid := -1, state := .stopped }, hname, rfl, rfl⟩
      case isFalse => exact ⟨{ c with state := .stopped }, hname, rfl, rfl⟩
    obtain ⟨c', hn, hs', he⟩ := he
    rw [he]
    exact hdel (find?_update hf hn) (by rw [hs']; decide) (by rw [hs']; decide)

end Registry

namespace Bench

open Registry
open Container (nameValid)

section

variable {cfg : BenchConfig} {env : BenchEnv δ} {r r' : Registry}

theorem cleanup_touches (cfg : BenchConfig) (env : BenchEnv δ) (r : Registry) :
    Touches cfg.containerName r (cleanup cfg env r) :=
  (containerStop_updates r _ _).touches.trans (containerDelete_updates _ _ _).touches

-- A container of a run that was created.
structure Inside (cfg : BenchConfig) (env : BenchEnv δ) (r r' : Registry) : Prop where
  valid  : nameValid cfg.containerName
  live   : ∃ i c, r'.find? cfg.containerName = some (i, c) ∧ c.state ≠ .deleted ∧
             c.cgroupPath ∈ [env.create.cgroupCreate.snd, env.recreate.cgroupCreate.snd]
  others : Spares cfg.containerName r r'

-- Another container of the name is left as it is, or it is at most stopped and deleted.
theorem createContainer_cases (h : createContainer cfg env r = (rc, r')) :
    (rc ≠ .ok ∧ Touches cfg.containerName r r') ∨
    (rc = .ok ∧ Inside cfg env r r') := by
  have hcreate : ∀ {r₁ rc₁ r₂ os}, Touches cfg.containerName r r₁ →
      os.cgroupCreate.snd ∈ [env.create.cgroupCreate.snd, env.recreate.cgroupCreate.snd] →
      r₁.containerCreateEx cfg.containerName (cfg.limitMb * 1024 * 1024) 50 cfg.enginePath none os = (rc₁, r₂) →
      (rc₁ ≠ .ok ∧ Touches cfg.containerName r r₂) ∨
      (rc₁ = .ok ∧ Inside cfg env r r₂) := by
    intro r₁ rc₁ r₂ os ht hp hc
    rcases containerCreateEx_cases hc with ⟨hok, i, hcreated⟩ | ⟨hrc, he⟩
    · refine .inr ⟨hok, hcreated.valid, ⟨i, _, hcreated.find?, nofun, hp⟩, fun j c hn => ?_⟩
      rw [← ht.others j c hn, hcreated.made]
      change (r₁.setSlot i _).slots j = some c ↔ _
      rw [slots_setSlot]
      split
      case isFalse => exact .rfl
      case isTrue hj =>
        subst hj
        refine iff_of_false (fun he => hn (Option.some_inj.mp he ▸ rfl)) fun he => ?_
        rcases hcreated.free with ⟨hnone, _⟩ | ⟨d, hd, _, hdn⟩
        · rw [hnone] at he
          cases he
        · rw [hd] at he
          exact hn (Option.some_inj.mp he ▸ hdn)
    · exact .inl ⟨hrc, he ▸ ht⟩
  rw [createContainer] at h
  dsimp only at h
  split at h
  case h_2 => exact hcreate (.refl _ r) List.mem_cons_self h
  case h_1 hc =>
    obtain ⟨hne, _⟩ | ⟨_, he⟩ := containerCreateEx_cases hc
    · cases hne
    · subst he
      exact hcreate ((containerStop_updates _ _ _).touches.trans (containerDelete_updates _ _ _).touches)
        (List.mem_cons_of_mem _ List.mem_cons_self) h

-- A container that cannot be started is cleaned up.
theorem enterContainer_cases (h : enterContainer cfg env r = (rc, bound, r')) :
    (rc ≠ .ok ∧ (Touches cfg.containerName r r' ∨ ∃ r₂, Inside cfg env r r₂ ∧ r' = cleanup cfg env r₂)) ∨
    (rc = .ok ∧ Inside cfg env r r') := by
  rw [enterContainer] at h
  split at h
  case h_2 rc₁ _ hne hc =>
    cases h
    rcases createContainer_cases hc with ⟨hrc, ht⟩ | ⟨hok, _⟩
    · exact .inl ⟨hrc, .inl ht⟩
    · exact absurd hok hne
  case h_1 r₁ hc =>
    rcases createContainer_cases hc with ⟨hne, _⟩ | ⟨_, hin⟩
    · exact absurd rfl hne
    obtain ⟨i, c, hf, hs, hp⟩ := hin.live
    rw [hf] at h
    dsimp only at h
    have hstart : ∀ {rc₂ events r₂}, r₁.containerStart cfg.containerName env.start = (rc₂, events, r₂) →
        Inside cfg env r r₂ := by
      intro rc₂ events r₂ hstart
      obtain ⟨hu, c', hf', hs', hp'⟩ := containerStart_live hstart hf hs
      exact ⟨hin.valid, ⟨i, c', hf', hs', hp' ▸ hp⟩, fun j d hn => (hu.touches.others j d hn).trans (hin.others j d hn)⟩
    split at h
    case h_1 hs => cases h; exact .inr ⟨rfl, hstart hs⟩
    case h_2 hne hs => cases h; exact .inl ⟨hne, .inr ⟨_, hstart hs, rfl⟩⟩

-- What a run leaves of the containers when it does not keep one.
structure Restores (cfg : BenchConfig) (env : BenchEnv δ) (r r' : Registry) : Prop where
  others : Spares cfg.containerName r r'
  own    : env.stop.stop = 0 → env.delete.cgroupDestroy = .ok → AddsNone cfg.containerName r r'

theorem Restores.of_touches (h : Touches cfg.containerName r r') : Restores cfg env r r' :=
  ⟨h.others, fun _ _ => h.own⟩

theorem Inside.cleanup (h : Inside cfg env r r') : Restores cfg env r (cleanup cfg env r') where
  others i c hn := ((cleanup_touches cfg env r').others i c hn).trans (h.others i c hn)
  own hstop hdelete i c hc hs := by
    obtain ⟨j, d, hf, hd, _⟩ := h.live
    exact absurd ⟨i, c, hc, hs⟩ (stop_delete h.valid ⟨j, d, hf, hd⟩ hstop hdelete)

theorem Enters.restores (h : Enters cfg env r rc bound inside) :
    (rc ≠ .ok → Restores cfg env r inside) ∧ (rc = .ok → Restores cfg env r (leave cfg env inside)) := by
  rw [Enters] at h
  rw [leave]
  split at h
  case isFalse hm =>
    cases h
    rw [if_neg hm]
    exact ⟨fun hne => absurd rfl hne, fun _ => .of_touches (.refl _ r)⟩
  case isTrue hm =>
    rw [if_pos hm]
    rcases enterContainer_cases h with ⟨hne, ht | ⟨_, hin, rfl⟩⟩ | ⟨hok, hin⟩
    · exact ⟨fun _ => .of_touches ht, fun hok => absurd hok hne⟩
    · exact ⟨fun _ => hin.cleanup, fun hok => absurd hok hne⟩
    · exact ⟨fun hne => absurd hok hne, fun _ => hin.cleanup⟩

theorem Ends.restores [DoubleArith δ] [OfScientific δ] {wl : BenchWorkload ω} {sampler : Option (Sampler δ κ)}
    (h : Ends cfg wl env r sampler ctx rc res ctx' r') : Restores cfg env r r' := by
  cases h
  case refused => exact .of_touches (.refl _ r)
  case unentered hrc he => exact he.restores.left hrc
  case unopened he _ _ _ => exact he.restores.right rfl
  case completed _ he _ _ _ _ _ _ _ => exact he.restores.right rfl

-- A run leaves the records of all other containers. When stopping and deleting work, it leaves no container behind,
-- however it ends: one of its name that is there afterwards was there before, in the same slot and with the same id.
theorem run_containers [DoubleArith δ] [OfScientific δ] {wl : BenchWorkload ω} {sampler : Option (Sampler δ κ)}
    (h : run cfg wl env r sampler samplerCtx ctx out = some (rc, res, ctx', r')) :
    Spares cfg.containerName r r' ∧
    (env.stop.stop = 0 → env.delete.cgroupDestroy = .ok → AddsNone cfg.containerName r r') := by
  have hrestores := (run_ends h).restores
  exact ⟨hrestores.others, hrestores.own⟩

end

-- A run with a container whose readings always fail.
def managed : BenchConfig :=
  { iterations := 3, sampleEvery := 2 }

def working : BenchEnv ℚ :=
  { quiet with create := { cgroupCreate := (.ok, "/sys/fs/cgroup/nexus".toList) }, start := { spawn := 7, release := 7 } }

theorem run_containers_working : ∃ res ctx r',
    run managed numbered working {} (none : Option (Sampler ℚ Unit)) () 0 (begin managed) = some (.ok, res, ctx, r') ∧
    (r'.find? managed.containerName).any (·.snd.state = .deleted) ∧
    Spares managed.containerName {} r' ∧ AddsNone managed.containerName {} r' := by
  have hrun : completesWith (run managed numbered working {} (none : Option (Sampler ℚ Unit)) () 0 (begin managed))
      fun _ r' => (r'.find? managed.containerName).any (·.snd.state = .deleted) := by decide +kernel
  obtain ⟨res, ctx, r', h, hdeleted⟩ := exists_of_completesWith hrun
  obtain ⟨hothers, hown⟩ := run_containers h
  exact ⟨res, ctx, r', h, hdeleted, hothers, hown rfl rfl⟩

end Bench
end NexusDb
