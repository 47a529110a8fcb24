import NexusDb.Buffer.Theorems.Clock
import NexusDb.Buffer.Theorems.Coherence
import NexusDb.Storage.Theorems.Disk

namespace NexusDb

-- The page of a log step or of a page write that failed.
def FileEvent.failedPage : FileEvent → Option PageId
  | .log id _ false                  => some id
  | .overwrite _ id _ (.failure _)   => some id
  | _                                => none

-- The error of a log step or of a page write never has the code of a full pool.

theorem Wal.appendPageImage_code {w : Wal} (h : w.appendPageImage io i data = (.error e, w')) :
    e.code ≠ .bufferFull := by
  simp only [appendPageImage] at h
  split_ifs at h
  case neg =>
    split at h <;> cases h
    nofun
  all_goals
    cases h
    nofun

theorem Wal.flush_code {w : Wal} (h : w.flush io = (.error e, w')) : e.code ≠ .bufferFull := by
  simp only [Wal.flush] at h
  split_ifs at h
  case neg =>
    split at h <;> cases h
    nofun
  all_goals
    cases h
    nofun

theorem Wal.beforePageWrite_code {w : Wal} (h : w.beforePageWrite io₁ io₂ p = (.error e, w')) :
    e.code ≠ .bufferFull := by
  rw [beforePageWrite] at h
  split at h
  case isTrue => cases h; nofun
  case isFalse =>
    split at h
    case h_1 ha =>
      cases h
      exact appendPageImage_code ha
    case h_2 => exact flush_code h

theorem Disk.beforePageWrite_code {d : Disk} (h : d.beforePageWrite p = (.error e, d')) :
    e.code ≠ .bufferFull := by
  rcases Disk.beforePageWrite_cases h with ⟨hr, _⟩ | ⟨_, _, _, _, _, hw, _⟩
  · cases hr
  · exact Wal.beforePageWrite_code hw

theorem Disk.writePage_code {d : Disk} (h : d.writePage w p = (.error e, d')) : e.code ≠ .bufferFull := by
  rw [writePage] at h
  split at h
  case h_1 hw =>
    have hcode : ∀ {e s}, d.storage.writePage p = (.error e, s) → e.code ≠ .bufferFull := by
      intro e s hw
      rw [PageStorage.writePage] at hw
      split_ifs at hw <;> cases hw <;> rintro ⟨⟩
    split_ifs at h <;> cases h
    · exact hcode hw
    · rintro ⟨⟩
    · exact hcode hw
  case h_2 =>
    split at h
    case isTrue => cases h; rintro ⟨⟩
    case isFalse =>
      simp only at h
      split at h <;> cases h
      rintro ⟨⟩

-- Which pages the events of a call on the device can name as failed.

theorem Disk.beforePageWrite_failed {d : Disk} (h : d.beforePageWrite p = (res, d')) :
    ∃ es, d'.trace = d.trace ++ es ∧ ∀ e ∈ es, ∀ id, e.failedPage = some id → p.id = id ∧ res ≠ .ok () := by
  rcases Disk.beforePageWrite_cases h with ⟨_, hd, _⟩ | ⟨_, _, _, _, _, _, hd⟩ <;> subst hd
  · exact ⟨[], by simp, nofun⟩
  · refine ⟨_, rfl, fun e he id hf => ?_⟩
    rw [List.mem_singleton.mp he] at hf
    cases res
    case ok => cases hf
    case error => exact ⟨Option.some_inj.mp hf, nofun⟩

theorem Disk.writePage_failed {d : Disk} (h : d.writePage w p = (res, d')) :
    ∃ es, d'.trace = d.trace ++ es ∧ ∀ e ∈ es, ∀ id, e.failedPage = some id → p.id = id ∧ res ≠ .ok () := by
  rcases Disk.writePage_cases h with ⟨_, _, _, hd, _⟩ | ⟨_, _, _, hd, _⟩ | ⟨io, _, _, _, hr, hd⟩ <;> subst hd
  · exact ⟨[], by simp, nofun⟩
  · exact ⟨_, rfl, fun e he id hf => by rw [List.mem_singleton.mp he] at hf; cases hf⟩
  · refine ⟨_, rfl, fun e he id hf => ?_⟩
    rw [List.mem_singleton.mp he] at hf
    cases io
    case success => cases hf
    case failure => exact ⟨Option.some_inj.mp hf, fun h => by cases hr.mp h⟩

theorem Disk.readPage_failed (d : Disk) (j : PageId) :
    ∃ es, (d.readPage j).snd.trace = d.trace ++ es ∧ ∀ e ∈ es, e.failedPage = none := by
  rcases h : d.readPage j with ⟨res, d'⟩
  rcases Disk.readPage_cases h with ⟨_, _, _, hd⟩ | ⟨_, _, _, _, hd⟩ | ⟨_, _, _, hd⟩ <;> subst hd
  · exact ⟨[], by simp, nofun⟩
  · exact ⟨_, rfl, fun e he => by rw [List.mem_singleton.mp he]; rfl⟩
  · exact ⟨[], by simp, nofun⟩

namespace BufferPool

section

variable [Device σ] {p q : BufferPool σ}

theorem acquireFrame_error (h : p.acquireFrame = (.error e, q)) : ∃ s, q = { p with dev := s } := by
  rw [acquireFrame] at h
  split at h
  case h_1 => cases h
  case h_2 =>
    split at h
    case h_1 => cases h; exact ⟨p.dev, rfl⟩
    case h_2 =>
      split at h <;> cases h
      case h_1 hf =>
        rcases flushFrame_cases hf with ⟨hr, _⟩ | ⟨_, _, s, _, _, _, _, _, hq⟩ |
          ⟨_, _, _, s, _, _, _, _, _, _, hq⟩ | ⟨_, _, _, hr, _⟩
        · cases hr
        · exact ⟨s, hq⟩
        · exact ⟨s, hq⟩
        · cases hr

-- A fetch that fails leaves the frames as they are.
theorem fetch_error (h : p.fetch j = (.error e, q)) : ∃ s, q = { p with dev := s } := by
  simp only [fetch] at h
  split at h
  case isTrue => cases h; exact ⟨p.dev, rfl⟩
  case isFalse =>
    split at h
    case h_1 => cases h
    case h_2 =>
      split at h
      case h_1 s _ => cases h; exact ⟨s, rfl⟩
      case h_2 =>
        split at h <;> cases h
        case h_1 ha =>
          obtain ⟨s, hs⟩ := acquireFrame_error ha
          exact ⟨s, hs⟩

-- A resize that fails has removed nothing.
theorem resize_error (h : p.resize a n = (.error e, q)) :
    q = p ∨ ∃ is, p.flushFrames is = (.error e, q) := by
  cases resize_cases h
  case refused => exact .inl rfl
  case unflushed is hf => exact .inr ⟨is, hf⟩

theorem flushEach_cleans (h : p.flushEach first is = (res, q)) : Cleans p q := by
  induction is generalizing p first
  case nil => cases h; exact .refl _
  case cons i is hi =>
    rw [flushEach] at h
    split at h
    case isTrue => exact hi h
    case isFalse => exact (flushFrame_cleans rfl).left.trans <| hi h

theorem flushPage_cleans (h : p.flushPage j = (res, q)) : Cleans p q := by
  rw [flushPage] at h
  split at h
  case h_1 => cases h; exact .refl _
  case h_2 => exact (flushFrame_cleans h).left

theorem flushFrame_other (h : p.flushFrame i = (res, q)) (hij : i ≠ j) : q.frame? j = p.frame? j := by
  rcases flushFrame_cases h with ⟨_, hp, _⟩ | ⟨_, _, _, _, _, _, _, _, hp⟩ |
    ⟨_, _, _, _, _, _, _, _, _, _, hp⟩ | ⟨_, _, _, _, _, _, _, _, _, hp⟩ <;> subst hp
  · rfl
  · rfl
  · rfl
  · exact frame?_setFrame.trans (if_neg hij)

theorem flushEach_other (h : p.flushEach first is = (res, q)) (hj : j ∉ is) : q.frame? j = p.frame? j := by
  induction is generalizing p first
  case nil => cases h; rfl
  case cons i is hi =>
    have ⟨hne, hj⟩ : j ≠ i ∧ j ∉ is := by simpa using hj
    rw [flushEach] at h
    split at h
    case isTrue => exact hi h hj
    case isFalse => exact (hi h hj).trans <| flushFrame_other rfl (Ne.symm hne)

end

def HoldsDirty (p : BufferPool σ) (id : PageId) : Prop :=
  ∃ i f, p.frame? i = some f ∧ f.inUse ∧ f.page.dirty ∧ f.page.id = id

-- The events between two states: those that name a page as failed do so for a page that satisfies `P`.
def FailsOn (p q : BufferPool Disk) (P : PageId → Prop) : Prop :=
  ∃ es, q.dev.trace = p.dev.trace ++ es ∧ ∀ e ∈ es, ∀ id, e.failedPage = some id → P id

section

variable {p q r : BufferPool Disk} {P P' : PageId → Prop}

theorem FailsOn.refl (p : BufferPool Disk) : FailsOn p p P :=
  ⟨[], by simp, nofun⟩

theorem FailsOn.mono (h : FailsOn p q P) (hp : ∀ id, P id → P' id) : FailsOn p q P' :=
  have ⟨es, ht, h⟩ := h
  ⟨es, ht, fun e he id hf => hp id (h e he id hf)⟩

theorem FailsOn.trans (h₁ : FailsOn p q P) (h₂ : FailsOn q r P) : FailsOn p r P := by
  have ⟨es₁, ht₁, h₁⟩ := h₁
  have ⟨es₂, ht₂, h₂⟩ := h₂
  refine ⟨es₁ ++ es₂, by rw [ht₂, ht₁, List.append_assoc], fun e he => ?_⟩
  rcases List.mem_append.mp he with he | he
  · exact h₁ e he
  · exact h₂ e he

-- Only the page in the frame can fail, and then the frames are as they were.
theorem flushFrame_fails (h : p.flushFrame i = (res, q)) :
    FailsOn p q fun id => res ≠ .ok () ∧ q.frames = p.frames ∧
      ∃ f, p.frame? i = some f ∧ f.inUse ∧ f.page.dirty ∧ f.page.id = id := by
  rcases flushFrame_cases h with ⟨_, hq, _⟩ | ⟨f, e, s, hr, hf, hu, hd, hl, hq⟩ |
    ⟨f, e, s₁, s, hr, hf, hu, hd, hl, hw, hq⟩ | ⟨f, s₁, s, _, hf, hu, hd, hl, hw, hq⟩ <;> subst hq
  · exact .refl _
  · have ⟨es, ht, hes⟩ := Disk.beforePageWrite_failed hl
    exact ⟨es, ht, fun e he id hfail => ⟨hr ▸ nofun, rfl, f, hf, hu, hd, (hes e he id hfail).left⟩⟩
  · have ⟨es₁, ht₁, hes₁⟩ := Disk.beforePageWrite_failed hl
    have ⟨es₂, ht₂, hes₂⟩ := Disk.writePage_failed hw
    refine ⟨es₁ ++ es₂, by rw [ht₂, ht₁, List.append_assoc], fun e he id hfail => ⟨hr ▸ nofun, rfl, f, hf, hu, hd, ?_⟩⟩
    rcases List.mem_append.mp he with he | he
    · exact (hes₁ e he id hfail).left
    · exact (hes₂ e he id hfail).left
  · have ⟨es₁, ht₁, hes₁⟩ := Disk.beforePageWrite_failed hl
    have ⟨es₂, ht₂, hes₂⟩ := Disk.writePage_failed hw
    refine ⟨es₁ ++ es₂, by rw [ht₂, ht₁, List.append_assoc], fun e he id hfail => ?_⟩
    rcases List.mem_append.mp he with he | he
    · exact absurd rfl (hes₁ e he id hfail).right
    · exact absurd rfl (hes₂ e he id hfail).right

-- The page that failed is still in its frame, and dirty.
theorem FailsOn.still_dirty {res : Status} (h : FailsOn p q fun id => res ≠ .ok () ∧ q.frames = p.frames ∧
      ∃ f, p.frame? i = some f ∧ f.inUse ∧ f.page.dirty ∧ f.page.id = id) :
    FailsOn p q q.HoldsDirty := by
  refine h.mono fun id ⟨_, hfr, f, hf, hrest⟩ => ⟨i, f, ?_, hrest⟩
  rw [frame?, hfr]
  exact hf

theorem flushEach_fails (h : p.flushEach first is = (res, q)) (hn : is.Nodup) : FailsOn p q q.HoldsDirty := by
  induction is generalizing p first
  case nil => cases h; exact .refl _
  case cons i is hi =>
    obtain ⟨hni, hn⟩ := List.nodup_cons.mp hn
    rw [flushEach] at h
    split at h
    case isTrue => exact hi h hn
    case isFalse =>
      refine FailsOn.trans ?_ (hi h hn)
      -- The rest of the loop does not come back to frame `i`.
      have hother := flushEach_other h hni
      refine (flushFrame_fails (p := p) (i := i) rfl).mono ?_
      rintro id ⟨_, hfr, f, hf, hu, hd, hid⟩
      refine ⟨i, f, ?_, hu, hd, hid⟩
      rw [hother, frame?, hfr]
      exact hf

theorem flushFrames_fails (h : p.flushFrames is = (res, q)) : FailsOn p q q.HoldsDirty := by
  induction is generalizing p
  case nil => cases h; exact .refl _
  case cons i is hi =>
    rw [flushFrames] at h
    split at h
    case h_1 hf =>
      cases h
      exact (flushFrame_fails hf).still_dirty
    case h_2 p₁ hf =>
      refine FailsOn.trans ?_ (hi h)
      exact (flushFrame_fails hf).mono fun id h => absurd rfl h.left

theorem flushPage_fails {j : PageId} (h : p.flushPage j = (res, q)) : FailsOn p q q.HoldsDirty := by
  rw [flushPage] at h
  split at h
  case h_1 => cases h; exact .refl _
  case h_2 => exact flushFrame_fails h |>.still_dirty

theorem flushFrame_code (h : p.flushFrame i = (.error e, q)) : e.code ≠ .bufferFull := by
  rcases flushFrame_cases h with ⟨hr, _⟩ | ⟨_, _, _, hr, _, _, _, hl, _⟩ |
    ⟨_, _, _, _, hr, _, _, _, _, hw, _⟩ | ⟨_, _, _, hr, _⟩ <;> cases hr
  · exact Disk.beforePageWrite_code hl
  · exact Disk.writePage_code hw

theorem flushFrames_code (h : p.flushFrames is = (.error e, q)) : e.code ≠ .bufferFull := by
  induction is generalizing p
  case nil => cases h
  case cons i is hi =>
    rw [flushFrames] at h
    split at h
    case h_1 hf => cases h; exact flushFrame_code hf
    case h_2 => exact hi h

-- The page that a fetch could not write back is still in the pool, and dirty.
theorem fetch_fails {j : PageId} (h : p.fetch j = (.error e, q)) : FailsOn p q q.HoldsDirty := by
  simp only [fetch] at h
  split at h
  case isTrue => cases h; exact .refl _
  case isFalse =>
    split at h
    case h_1 => cases h
    case h_2 =>
      obtain ⟨es, ht, hes⟩ := Disk.readPage_failed p.dev j
      have hread : FailsOn p { p with dev := (Device.readPage p.dev j).snd } q.HoldsDirty :=
        ⟨es, ht, fun e he id hf => by rw [hes e he] at hf; cases hf⟩
      split at h
      case h_1 hr =>
        cases h
        rw [hr] at hread
        exact hread
      case h_2 hr =>
        rw [hr] at hread
        split at h <;> cases h
        case h_1 ha =>
          refine hread.trans ?_
          rw [acquireFrame] at ha
          split at ha
          case h_1 => cases ha
          case h_2 =>
            split at ha
            case h_1 => cases ha; exact .refl _
            case h_2 =>
              split at ha <;> cases ha
              case h_1 hf => exact (flushFrame_fails hf).still_dirty

theorem resize_unharmed (h : p.resize a n = (.error e, q)) :
    Cleans p q ∧ (e.code = .bufferFull → q = p) ∧ FailsOn p q q.HoldsDirty := by
  rcases resize_error h with hq | ⟨is, hf⟩
  · subst hq
    exact ⟨.refl q, fun _ => rfl, .refl q⟩
  · exact ⟨(flushFrames_cleans hf).left, fun hc => absurd hc (flushFrames_code hf), flushFrames_fails hf⟩

end

end BufferPool

namespace Client

-- What a call that fails leaves: all frames are as they were, except that some are not dirty any more.
-- The bytes of those are on the storage. A page whose own write failed is still dirty.
structure Unharmed (p q : BufferPool Disk) : Prop where
  capacity : q.capacity = p.capacity
  frames   : q.frames.map Frame.cleaned = p.frames.map Frame.cleaned
  clean    : ∀ i f g, p.frame? i = some f → q.frame? i = some g → f.page.dirty = false →
               g.page.dirty = false
  stored   : ∀ g ∈ q.frames, g.inUse → g.page.dirty = false →
               q.dev.storage.page? g.page.id = some g.page.data
  failed   : ∃ es, q.dev.trace = p.dev.trace ++ es ∧ ∀ e ∈ es, ∀ id, e.failedPage = some id →
               ∃ g ∈ q.frames, g.inUse ∧ g.page.dirty ∧ g.page.id = id

theorem Unharmed.of_cleans {p : BufferPool Disk} {c : Client Disk} (hc : Coherent c m)
    (h : BufferPool.Cleans p c.pool) (hf : BufferPool.FailsOn p c.pool c.pool.HoldsDirty) :
    Unharmed p c.pool where
  capacity := h.capacity
  frames   := h.frames
  clean    := h.clean
  stored g hg hu hd :=
    have ⟨i, hi⟩ := BufferPool.frame?_of_mem hg
    hc.pool.clean i g hi hu hd
  failed   := hf.mono fun _ ⟨_, f, hf, hrest⟩ => ⟨f, BufferPool.mem_of_frame? hf, hrest⟩

-- A fetch first gives up the page that its handle held.
theorem failed_calls_atomic (disk : Disk) (n : Nat) (ops : List PoolOp) :
    ∃ pool, BufferPool.create disk (n + 1) = .ok pool ∧
      let c := run { pool } ops
      (∀ h id e c', c.step (.fetch h id) = (.error e, c') → Unharmed (c.release h).pool c'.pool) ∧
      (∀ id e c', c.step (.flushPage id) = (.error e, c') → Unharmed c.pool c'.pool) ∧
      (∀ e c', c.step .flushAll = (.error e, c') → Unharmed c.pool c'.pool) ∧
      (∀ alloc m e c', c.step (.resize alloc m) = (.error e, c') → Unharmed c.pool c'.pool ∧
        (e.code = .bufferFull → c'.pool = c.pool)) := by
  refine ⟨_, rfl, ?_⟩
  intro c
  have hc := (create_coherent (s := disk) (n := n + 1) rfl).run ops
  change Coherent c _ at hc
  refine ⟨fun h id e c' hs => ?_, fun id e c' hs => ?_, fun e c' hs => ?_, fun a m e c' hs => ?_⟩
  · have hc' := hc.step (.fetch h id)
    rw [hs] at hc'
    rw [Client.step] at hs
    split at hs
    case isFalse => cases hs
    case isTrue =>
      rw [Client.fetch] at hs
      split at hs <;> cases hs
      case h_1 hf =>
        obtain ⟨s, hq⟩ := BufferPool.fetch_error hf
        refine .of_cleans hc' ?_ (BufferPool.fetch_fails hf)
        subst hq
        exact ⟨rfl, rfl, (BufferPool.Cleans.refl _).clean⟩
  · have hc' := hc.step (.flushPage id)
    rw [hs] at hc'
    rw [Client.step] at hs
    cases hf : c.pool.flushPage id
    case mk res q =>
      rw [hf] at hs
      cases hs
      exact .of_cleans hc' (BufferPool.flushPage_cleans hf) (BufferPool.flushPage_fails hf)
  · have hc' := hc.step .flushAll
    rw [hs] at hc'
    rw [Client.step] at hs
    cases hf : c.pool.flushAll
    case mk res q =>
      rw [hf] at hs
      cases hs
      exact .of_cleans hc' (BufferPool.flushEach_cleans hf) (BufferPool.flushEach_fails hf List.nodup_range)
  · have hc' := hc.step (.resize a m)
    rw [hs] at hc'
    rw [Client.step] at hs
    cases hf : c.pool.resize a m
    case mk res q =>
      rw [hf] at hs
      cases hs
      obtain ⟨hclean, hfull, hfails⟩ := BufferPool.resize_unharmed hf
      exact ⟨.of_cleans hc' hclean hfails, hfull⟩

end Client
end NexusDb
