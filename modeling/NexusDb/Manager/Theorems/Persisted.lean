import NexusDb.Manager.Theorems.Calls

namespace NexusDb

theorem List.prefix_induction {P : List α → Prop} {l : List α} (nil : P [])
    (snoc : ∀ xs x, xs ++ [x] <+: l → P xs → P (xs ++ [x])) : ∀ xs, xs <+: l → P xs := by
  intro xs h
  induction xs using List.reverseRecOn
  case nil => exact nil
  case append_singleton xs x hi => exact snoc xs x h (hi ((List.prefix_append xs [x]).trans h))

-- Everything but the newline at the end is in the file.
def MetaWrite.Complete (m : ContainerMeta) : MetaWrite → Prop
  | untouched      => False
  | written upTo _ => m.text.length ≤ upTo + 1

namespace World

variable {w w' : World} {name : Text} {m : ContainerMeta} {x : Workload} {o : Outcome}

-- The metadata says that the container is running as this workload.
def Reports (w : World) (x : Workload) : Prop :=
  ∃ m, w.loadMeta x.name = some m ∧ m.state = Container.State.running.code ∧ m.pid = x.pid

-- The metadata says that the container is running.
def Running (w : World) (name : Text) : Prop :=
  ∃ m, w.loadMeta name = some m ∧ m.state = Container.State.running.code

-- What an event has to do. Only starts and stops can fail to do it.
def Kept (w : World) : WorldEvent → Prop
  | .call (.start name) o => ∀ m x w', w.launch name o = (.ok (m, x), w') →
    (o.survives x → m.name = name ∧ o.write.Complete m) ∧
    -- The metadata of a container can name another one.
    (m.name ≠ name → ∀ y ∈ w.workloads, y.name = m.name → o.survives y →
      o.write = .untouched ∨ o.write.Complete m ∧ y.pid = x.pid)
  | .call (.stop name) o  => ∀ m w', w.halt name o = (.ok m, w') →
    o.write = .untouched ∨ ∀ y ∈ w.workloads, y.name = m.name → ¬o.survives y
  | _                     => True

-- The metadata that reports a workload also has the name of its container.
def Tracked (w : World) : Prop :=
  ∀ x ∈ w.workloads, 0 < x.pid ∧ ∃ m, w.loadMeta x.name = some m ∧ m.name = x.name ∧
    m.state = Container.State.running.code ∧ m.pid = x.pid

theorem Tracked.reports (h : w.Tracked) : ∀ x ∈ w.workloads, w.Reports x := by
  intro x hx
  have ⟨_, m, hm, _, hs, hp⟩ := h x hx
  exact ⟨m, hm, hs, hp⟩

theorem Reports.running (h : w.Reports x) : w.Running x.name := by
  have ⟨m, hm, hs, _⟩ := h
  exact ⟨m, hm, hs⟩

theorem Running.openDb (h : w.Running name) (dirOk : Bool) (f : Files) (io : List IoResult) :
    ∃ e, w.openDb name dirOk f io = (some (.error e), []) := by
  have ⟨m, hm, hs⟩ := h
  rw [World.openDb]
  split
  case isTrue => exact ⟨_, rfl⟩
  case isFalse =>
    rw [if_pos (by simp [hm, hs])]
    exact ⟨_, rfl⟩

theorem loadMeta_congr (h : w'.files name = w.files name) : w'.loadMeta name = w.loadMeta name := by
  rw [loadMeta, loadMeta, h]

theorem leave_other (h : name ≠ m.name) : leave w.files m write name = w.files name := by
  cases write
  case untouched => rfl
  case written => exact Function.update_of_ne h _ _

theorem loadMeta_leave (h : w'.files = leave w.files m (.written n ok)) :
    w'.loadMeta m.name = some (.load m.name (m.text.take n)) := by
  rw [loadMeta, h, leave, Function.update_self]
  rfl

-- What is read in the file that a start has written.
theorem Launched.read (h : Launched w name o m x w₁) (hn : '\n' ∉ m.name)
    (hf : w'.files = leave w.files m (.written n ok)) :
    (m.text.length ≤ n + 1 ∧ w'.loadMeta m.name = some m) ∨
    (n + 1 < m.text.length ∧ ∃ m', w'.loadMeta m.name = some m' ∧ m'.state = 0) := by
  have ⟨m₀, hm₀, _, hm⟩ := h.loaded
  have hpos := h.pos
  have hfits := h.fits
  have hp : m.Plain := by
    have ⟨hid, hengine, hcgroup⟩ := loadMeta_plain hm₀
    rw [hm]
    exact ⟨hid, hengine, hcgroup⟩
  have hs : m.state = Container.State.running.code := by rw [hm]
  have hpid : m.pid = x.pid := by rw [hm]
  have hload := loadMeta_leave hf
  cases ContainerMeta.load_take hp hn hs m.name n
  case inl h =>
    rw [h.right, ContainerMeta.foldl_entries (.of_code hs (by omega) (by omega))] at hload
    exact .inl ⟨h.left, hload⟩
  case inr h => exact .inr ⟨h.left, _, hload, h.right⟩

theorem Halted.read (h : Halted w name m w₁) (hn : '\n' ∉ m.name)
    (hf : w'.files = leave w.files m (.written n ok)) :
    ∃ m', w'.loadMeta m.name = some m' ∧ m'.state ≠ Container.State.running.code := by
  have ⟨m₀, hm₀, hm⟩ := h.loaded
  have hp : m.Plain := by
    have ⟨hid, hengine, hcgroup⟩ := loadMeta_plain hm₀
    rw [hm]
    exact ⟨hid, hengine, hcgroup⟩
  have hs : m.state = Container.State.stopped.code := by rw [hm]
  have hpid : m.pid = -1 := by rw [hm]
  refine ⟨_, loadMeta_leave hf, ?_⟩
  cases ContainerMeta.load_take hp hn hs m.name n
  case inl h =>
    rw [h.right, ContainerMeta.foldl_entries (.of_code hs (by omega) (by omega)), hs]
    nofun
  case inr h =>
    rw [h.right]
    nofun

theorem step_launched (h : w.launch name o = (.ok (m, x), w₁)) :
    Launched w name o m x w₁ ∧ (w.step (.call (.start name) o)).files = leave w.files m o.write ∧
      (w.step (.call (.start name) o)).workloads = (w.workloads ++ [x]).filter o.survives := by
  rcases launch_cases h with ⟨_, he, _⟩ | ⟨m', x', he, hl⟩
  · cases he
  · cases he
    rw [step, call, containerStart, h]
    simp only [files_saveMeta, workloads_saveMeta, hl.files, hl.added]
    exact ⟨hl, trivial, trivial⟩

theorem step_halted (h : w.halt name o = (.ok m, w₁)) :
    Halted w name m w₁ ∧ (w.step (.call (.stop name) o)).files = leave w.files m o.write ∧
      (w.step (.call (.stop name) o)).workloads = w.workloads.filter o.survives := by
  rcases halt_cases h with ⟨_, he, _⟩ | ⟨m', he, hl⟩
  · cases he
  · cases he
    rw [step, call, containerStop, h]
    simp only [files_saveMeta, workloads_saveMeta, hl.files, hl.same]
    exact ⟨hl, trivial, trivial⟩

-- The workloads that were there before are tracked as long as their files are the same.
theorem Tracked.of_files (h : w.Tracked) (hw : ∀ y ∈ w'.workloads, y ∈ w.workloads ∧ w'.files y.name = w.files y.name) :
    w'.Tracked := by
  intro y hy
  have ⟨hm, hf⟩ := hw y hy
  rw [loadMeta_congr hf]
  exact h y hm

theorem Tracked.launched (ht : w.Tracked) (h : w.launch name o = (.ok (m, x), w₁))
    (hk : w.Kept (.call (.start name) o)) : (w.step (.call (.start name) o)).Tracked := by
  have ⟨hl, hf, hw⟩ := step_launched h
  have ⟨hself, hother⟩ := hk m x w₁ h
  have hn := newline_not_mem_of_nameValid hl.valid
  have ⟨m₀, hm₀, hs₀, hm⟩ := hl.loaded
  generalize w.step (.call (.start name) o) = w' at hf hw ⊢
  have complete : o.write.Complete m → w'.loadMeta m.name = some m := by
    intro hc
    cases hwr : o.write
    case untouched => rw [hwr] at hc; cases hc
    case written n ok =>
      rw [hwr] at hc hf
      cases hl.read hn hf
      case inl h => exact h.right
      case inr h => exact absurd hc (Nat.not_le.mpr h.left)
  intro y hy
  rw [hw] at hy
  have ⟨hy, hsv⟩ := List.mem_filter.mp hy
  cases List.mem_append.mp hy
  case inr hy =>
    cases List.mem_singleton.mp hy
    have ⟨hname, hc⟩ := hself hsv
    refine ⟨hl.pos, m, ?_, hname.trans hl.named.symm, by rw [hm], by rw [hm]⟩
    rw [hl.named, ← hname]
    exact complete hc
  case inl hy =>
    have ⟨hpos, my, hmy, hny, hsy, hpy⟩ := ht y hy
    -- The container that was started was not running.
    have hne : y.name ≠ name := by
      intro he
      rw [he, hm₀] at hmy
      cases hmy
      exact hs₀ hsy
    by_cases hym : y.name = m.name
    case neg =>
      have hsame : w'.loadMeta y.name = w.loadMeta y.name := loadMeta_congr (by rw [hf, leave_other hym])
      exact ⟨hpos, my, hsame.trans hmy, hny, hsy, hpy⟩
    case pos =>
      cases hother (hym ▸ hne) y hy hym hsv
      case inl hu =>
        have hsame : w'.loadMeta y.name = w.loadMeta y.name := loadMeta_congr (by rw [hf, hu, leave])
        exact ⟨hpos, my, hsame.trans hmy, hny, hsy, hpy⟩
      case inr hc =>
        refine ⟨hpos, m, ?_, hym.symm, by rw [hm], by rw [hm]; exact hc.right.symm⟩
        rw [hym]
        exact complete hc.left

theorem Tracked.halted (ht : w.Tracked) (h : w.halt name o = (.ok m, w₁))
    (hk : w.Kept (.call (.stop name) o)) : (w.step (.call (.stop name) o)).Tracked := by
  have ⟨_, hf, hw⟩ := step_halted h
  refine ht.of_files fun y hy => ?_
  rw [hw] at hy
  have ⟨hy, hsv⟩ := List.mem_filter.mp hy
  refine ⟨hy, ?_⟩
  rw [hf]
  cases hk m w₁ h
  case inl hu => rw [hu]; rfl
  case inr hg => exact leave_other fun hn => hg y hy hn hsv

theorem Tracked.step (ht : w.Tracked) (hk : w.Kept e) : (w.step e).Tracked := by
  cases e
  case exit pid => exact ht.of_files fun y hy => ⟨(List.mem_filter.mp hy).left, rfl⟩
  case newProcess => exact ht.of_files fun y hy => ⟨hy, rfl⟩
  case call c o =>
    cases c
    case start name =>
      match hl : w.launch name o with
      | (.ok (m, x), w₁)  => exact ht.launched hl hk
      | (.error err, w₁)  =>
        rcases launch_cases hl with ⟨_, _, hf, hw⟩ | ⟨_, _, he, _⟩
        · refine ht.of_files fun y hy => ?_
          rw [World.step, call, containerStart, hl] at hy ⊢
          rw [← hw]
          exact ⟨(List.mem_filter.mp hy).left, congrFun hf _⟩
        · cases he
    case stop name =>
      match hl : w.halt name o with
      | (.ok m, w₁)      => exact ht.halted hl hk
      | (.error err, w₁) =>
        rcases halt_cases hl with ⟨_, _, hf, hw⟩ | ⟨_, he, _⟩
        · refine ht.of_files fun y hy => ?_
          rw [World.step, call, containerStop, hl] at hy ⊢
          rw [← hw]
          exact ⟨(List.mem_filter.mp hy).left, congrFun hf _⟩
        · cases he
    case create name memory cpu engine =>
      match hr : w.register name memory cpu engine o with
      | (res, w₁) =>
        have ⟨hf, hw, hok⟩ := register_cases hr
        refine ht.of_files fun y hy => ?_
        rw [World.step, call, containerCreate, hr] at hy ⊢
        cases res
        case error => exact ⟨hw ▸ (List.mem_filter.mp hy).left, congrFun hf _⟩
        case ok m =>
          simp only [workloads_saveMeta, files_saveMeta, hw, hf] at hy ⊢
          have hy := (List.mem_filter.mp hy).left
          rcases hok with ⟨_, he, _⟩ | ⟨m, he, hreg⟩
          case inl => cases he
          case inr =>
            cases he
            refine ⟨hy, leave_other fun hn => ?_⟩
            have ⟨_, _, hm, _⟩ := ht y hy
            rw [hn, hreg.record, hreg.absent] at hm
            cases hm
    case delete name =>
      match hd : w.containerDelete name o with
      | (res, w₁) =>
        have ⟨hw, hf⟩ := containerDelete_cases hd
        refine ht.of_files fun y hy => ?_
        rw [World.step, call, hd] at hy ⊢
        have hy : y ∈ w.workloads := hw ▸ (List.mem_filter.mp hy).left
        refine ⟨hy, ?_⟩
        rcases hf with hf | ⟨hf, m, hm, hst⟩
        · exact congrFun hf _
        · have hne : y.name ≠ name := by
            intro hn
            have ⟨_, m', hm', hn', hs', _⟩ := ht y hy
            rw [hn, hm] at hm'
            cases hm'
            exact hst (hn'.trans hn) hs'
          exact (congrFun hf _).trans (Function.update_of_ne hne _ _)

-- A container that is running after its start was written down.
theorem launched_recorded (h : w.launch name o = (.ok (m, x), w₁))
    (hr : (w.step (.call (.start name) o)).Running name) : m.name = name ∧ o.write.Complete m := by
  have ⟨hl, hf, _⟩ := step_launched h
  have hn := newline_not_mem_of_nameValid hl.valid
  have ⟨m₀, hm₀, hs₀, _⟩ := hl.loaded
  generalize w.step (.call (.start name) o) = w' at hf hr
  have ⟨mx, hmx, hsx⟩ := hr
  -- Otherwise the file still has the state from before.
  have hchanged : w'.files name ≠ w.files name := by
    intro he
    rw [loadMeta_congr he, hm₀] at hmx
    cases hmx
    exact hs₀ hsx
  have hname : m.name = name := by
    by_contra hne
    exact hchanged (by rw [hf, leave_other (Ne.symm hne)])
  refine ⟨hname, ?_⟩
  cases hwr : o.write
  case untouched => exact absurd (by rw [hf, hwr]; rfl) hchanged
  case written n ok =>
    rw [hwr] at hf
    cases hl.read hn hf
    case inl h => exact h.left
    case inr h =>
      have ⟨_, m', hm', hs'⟩ := h
      rw [← hname, hm'] at hmx
      cases hmx
      rw [hs'] at hsx
      cases hsx

-- A container that is running after its stop was not written down.
theorem halted_untouched (h : w.halt name o = (.ok m, w₁))
    (hr : (w.step (.call (.stop name) o)).Running m.name) : o.write = .untouched := by
  have ⟨hl, hf, _⟩ := step_halted h
  have hn := newline_not_mem_of_nameValid hl.valid
  have ⟨my, hmy, hsy⟩ := hr
  cases hwr : o.write
  case untouched => rfl
  case written n ok =>
    rw [hwr] at hf
    have ⟨m', hm', hs'⟩ := hl.read hn hf
    rw [hm'] at hmy
    cases hmy
    exact absurd hsy hs'

theorem kept_of_reports (hr : ∀ x ∈ (w.step e).workloads, (w.step e).Reports x) : w.Kept e := by
  cases e
  case exit => trivial
  case newProcess => trivial
  case call c o =>
    cases c
    case create => trivial
    case delete => trivial
    case start name =>
      intro m x w₁ h
      have ⟨hl, hf, hw⟩ := step_launched h
      rw [hw] at hr
      refine ⟨fun hsv => ?_, fun hne y hy hyn hsv => ?_⟩
      · have hrx := (hr x (List.mem_filter.mpr ⟨by simp, hsv⟩)).running
        rw [hl.named] at hrx
        exact launched_recorded h hrx
      · have ⟨my, hmy, hsy, hpy⟩ := hr y (List.mem_filter.mpr ⟨by simp [hy], hsv⟩)
        rw [hyn] at hmy
        cases hwr : o.write
        case untouched => exact .inl rfl
        case written n ok =>
          rw [hwr] at hf
          cases hl.read (newline_not_mem_of_nameValid hl.valid) hf
          case inl h =>
            have ⟨_, _, _, hm⟩ := hl.loaded
            rw [h.right] at hmy
            cases hmy
            exact .inr ⟨h.left, by rw [← hpy, hm]⟩
          case inr h =>
            have ⟨_, m', hm', hs'⟩ := h
            rw [hm'] at hmy
            cases hmy
            rw [hs'] at hsy
            cases hsy
    case stop name =>
      intro m w₁ h
      have ⟨_, _, hw⟩ := step_halted h
      rw [hw] at hr
      by_cases hu : o.write = .untouched
      case pos => exact .inl hu
      case neg =>
        refine .inr fun y hy hyn hsv => hu <| halted_untouched h ?_
        have hry := (hr y (List.mem_filter.mpr ⟨hy, hsv⟩)).running
        rw [hyn] at hry
        exact hry

theorem run_append (w : World) (es : List WorldEvent) : w.run (es ++ [e]) = (w.run es).step e := by
  induction es generalizing w
  case nil => rfl
  case cons e' es hi => exact hi _

-- No workload is alive at first.
theorem run_reports_iff (dataRoot : String) (files : Text → Option Text) (registry : Registry)
    (events : List WorldEvent) :
    let w : World := { dataRoot, files, registry }
    (∀ es, es <+: events → ∀ x ∈ (w.run es).workloads, (w.run es).Reports x ∧
      ∀ dirOk f io, ∃ e, (w.run es).openDb x.name dirOk f io = (some (.error e), [])) ↔
    ∀ es e, es ++ [e] <+: events → (w.run es).Kept e := by
  intro w
  have hinit : (w.run []).Tracked := fun _ hx => nomatch hx
  constructor
  case mp =>
    intro hp es e he
    refine kept_of_reports fun x hx => ?_
    rw [← run_append] at hx ⊢
    exact (hp _ he x hx).left
  case mpr =>
    intro hk
    have htracked : ∀ es, es <+: events → (w.run es).Tracked := by
      refine List.prefix_induction hinit fun es e he ht => ?_
      rw [run_append]
      exact ht.step (hk es e he)
    intro es he x hx
    have hr := (htracked es he).reports x hx
    exact ⟨hr, hr.running.openDb⟩

theorem noSpawn_fits : ({} : Primitives).spawn < 2 ^ 31 := by
  decide

theorem spawn_seven_fits : ({ spawn := 7, release := 1 } : Primitives).spawn < 2 ^ 31 := by
  decide

-- A container is created, and then started by a process that cannot write its metadata.
def unrecordedStart : List WorldEvent :=
  [ .call (.create ['a'] 0 0 []) { write := .written 1000 true, pidFits := noSpawn_fits },
    .call (.start ['a'])
      { os := { spawn := 7, release := 1 }, write := .untouched, pidFits := spawn_seven_fits } ]

theorem start_unrecorded :
    let w := ({} : World).run unrecordedStart
    ⟨['a'], 7, []⟩ ∈ w.workloads ∧ ¬w.Reports ⟨['a'], 7, []⟩ := by
  intro w
  have hstate : (w.loadMeta ['a']).map (·.state) = some 0 := by decide +kernel
  refine ⟨by decide +kernel, fun ⟨m, hm, hs, _⟩ => ?_⟩
  rw [hm, Option.map_some, hs] at hstate
  cases hstate

end World
end NexusDb
