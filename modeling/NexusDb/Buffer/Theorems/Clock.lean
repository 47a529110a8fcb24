import NexusDb.Buffer.Theorems.Prog

namespace NexusDb.BufferPool

-- The second state has no stamps that the first one does not have.
structure SameStamps (p q : BufferPool σ) : Prop where
  clock   : q.accessClock = p.accessClock
  fetches : q.fetches = p.fetches
  stamps  : ∀ g ∈ q.frames, g.lastUsed = 0 ∨ ∃ f ∈ p.frames, f.lastUsed = g.lastUsed

-- The clock counts the fetches. No frame has a later stamp.
structure Clock (p : BufferPool σ) : Prop where
  clock  : p.accessClock = p.fetches
  stamps : ∀ f ∈ p.frames, f.lastUsed ≤ p.fetches

variable {p q r : BufferPool σ}

namespace SameStamps

theorem of_frames (hc : q.accessClock = p.accessClock) (hn : q.fetches = p.fetches)
    (hf : q.frames = p.frames) : SameStamps p q :=
  ⟨hc, hn, fun g hg => .inr ⟨g, hf ▸ hg, rfl⟩⟩

theorem refl (p : BufferPool σ) : SameStamps p p :=
  .of_frames rfl rfl rfl

theorem trans (h₁ : SameStamps p q) (h₂ : SameStamps q r) : SameStamps p r where
  clock := h₂.clock.trans h₁.clock
  fetches := h₂.fetches.trans h₁.fetches
  stamps g hg := by
    rcases h₂.stamps g hg with h | ⟨f, hf, h⟩
    · exact .inl h
    · rw [← h]
      exact h₁.stamps f hf

theorem setFrame (p : BufferPool σ) (hg : g.lastUsed = 0 ∨ ∃ f ∈ p.frames, f.lastUsed = g.lastUsed) :
    SameStamps p (p.setFrame i g) := by
  refine ⟨rfl, rfl, fun k hk => ?_⟩
  rcases List.mem_or_eq_of_mem_set hk with h | h
  · exact .inr ⟨k, h, rfl⟩
  · exact h ▸ hg

-- A frame that keeps its stamp.
theorem setFrame_at (p : BufferPool σ) (hg : g.lastUsed = (p.frameAt i).lastUsed) :
    SameStamps p (p.setFrame i g) := by
  refine .setFrame p ?_
  cases hf : p.frame? i
  case none => rw [hg, frameAt_eq_getD, hf]; exact .inl rfl
  case some f => exact .inr ⟨f, mem_of_frame? hf, by rw [hg, frameAt_eq hf]⟩

theorem unpin (p : BufferPool σ) (i : Nat) : SameStamps p (p.unpinFrame i) := by
  rw [unpinFrame]
  split
  case isTrue => exact .refl p
  case isFalse => exact .setFrame_at p rfl

end SameStamps

namespace Clock

theorem of_same (h : Clock p) (hs : SameStamps p q) : Clock q where
  clock := by rw [hs.clock, hs.fetches, h.clock]
  stamps g hg := by
    rw [hs.fetches]
    rcases hs.stamps g hg with he | ⟨f, hf, he⟩
    · exact he ▸ Nat.zero_le _
    · exact he ▸ h.stamps f hf

theorem create {s : σ} (h : BufferPool.create s n = .ok p) : Clock p ∧ p.fetches = 0 := by
  rw [BufferPool.create] at h
  split at h <;> cases h
  exact ⟨⟨rfl, fun f hf => by rw [List.eq_of_mem_replicate hf]⟩, rfl⟩

-- Giving out a stamp while there are any left.
theorem nextTimestamp (h : Clock p) (hf : p.fetches < maxStamp) :
    p.nextTimestamp = (p.fetches + 1, { p with accessClock := p.fetches + 1, fetches := p.fetches + 1 }) := by
  have hc : p.accessClock ≠ maxStamp := by rw [h.clock]; exact Nat.ne_of_lt hf
  have hm : (p.fetches + 1) % 2 ^ 64 = p.fetches + 1 := Nat.mod_eq_of_lt <| by
    simp at hf
    omega
  rw [BufferPool.nextTimestamp, if_neg hc, h.clock, hm]

theorem stamped (h : Clock p) (hf : p.fetches < maxStamp) (hg : g.lastUsed = p.fetches + 1) :
    Clock (p.nextTimestamp.snd.setFrame i g) ∧
      (p.nextTimestamp.snd.setFrame i g).fetches = p.fetches + 1 := by
  rw [h.nextTimestamp hf]
  refine ⟨⟨rfl, fun k hk => ?_⟩, rfl⟩
  rcases List.mem_or_eq_of_mem_set hk with hk | hk
  · exact Nat.le_succ_of_le (h.stamps k hk)
  · rw [hk, hg]
    exact le_rfl

end Clock

theorem drop_stamps (is : List Nat) : SameStamps p (is.foldl (fun p i => p.setFrame i {}) p) := by
  induction is generalizing p
  case nil => exact .refl _
  case cons i is hi => exact (SameStamps.setFrame p (.inl rfl)).trans hi

theorem mem_of_mem_trim {f : Frame} (h : f ∈ trim n fs) : f ∈ fs := by
  fun_induction trim n fs
  case case1 hi => exact (List.dropLast_sublist _).subset (hi h)
  case case2 => exact h

variable [Device σ]

theorem flushFrame_stamps (h : p.flushFrame i = (res, q)) : SameStamps p q := by
  rcases flushFrame_cases h with ⟨_, hp, _⟩ | ⟨_, _, _, _, _, _, _, _, hp⟩ |
    ⟨_, _, _, _, _, _, _, _, _, _, hp⟩ | ⟨f, _, _, _, hf, _, _, _, _, hp⟩ <;> subst hp
  · exact .refl _
  · exact .of_frames rfl rfl rfl
  · exact .of_frames rfl rfl rfl
  · have hs : SameStamps p (p.setFrame i f.cleaned) := .setFrame_at p (by rw [frameAt_eq hf]; rfl)
    exact hs.trans <| .of_frames rfl rfl rfl

theorem flushEach_stamps (h : p.flushEach first is = (res, q)) : SameStamps p q := by
  induction is generalizing p first
  case nil => cases h; exact .refl _
  case cons i is hi =>
    rw [flushEach] at h
    split at h
    case isTrue => exact hi h
    case isFalse => exact (flushFrame_stamps rfl).trans <| hi h

theorem flushFrames_stamps (h : p.flushFrames is = (res, q)) : SameStamps p q := by
  induction is generalizing p
  case nil => cases h; exact .refl _
  case cons i is hi =>
    rw [flushFrames] at h
    split at h
    case h_1 hf => cases h; exact flushFrame_stamps hf
    case h_2 hf => exact (flushFrame_stamps hf).trans <| hi h

theorem flushPage_stamps (h : p.flushPage j = (res, q)) : SameStamps p q := by
  rw [flushPage] at h
  split at h
  case h_1 => cases h; exact .refl _
  case h_2 => exact flushFrame_stamps h

theorem resize_stamps (h : p.resize a n = (res, q)) : SameStamps p q := by
  cases resize_cases h
  case refused => exact .refl _
  case same => exact .refl _
  case grown =>
    refine ⟨rfl, rfl, fun g hg => ?_⟩
    rcases List.mem_append.mp hg with hg | hg
    · exact .inr ⟨g, hg, rfl⟩
    · exact .inl (by rw [List.eq_of_mem_replicate hg])
  case unflushed hf => exact flushFrames_stamps hf
  case shrunk is _ _ _ _ hf =>
    have hs := (flushFrames_stamps hf).trans (drop_stamps is)
    exact ⟨hs.clock, hs.fetches, fun g hg => hs.stamps g (mem_of_mem_trim hg)⟩

theorem acquireFrame_stamps (h : p.acquireFrame = (res, q)) : SameStamps p q := by
  rw [acquireFrame] at h
  split at h
  case h_1 => cases h; exact .refl _
  case h_2 =>
    split at h
    case h_1 => cases h; exact .refl _
    case h_2 =>
      split at h <;> cases h
      case h_1 hf => exact flushFrame_stamps hf
      case h_2 hf => exact flushFrame_stamps hf

theorem edit_stamps (p : BufferPool σ) (i : Nat) (d : Option PageData) : SameStamps p (p.edit i d) := by
  cases d
  case none => exact .refl p
  case some d =>
    have hs : SameStamps p (p.setFrame i { p.frameAt i with
      page := { (p.frameAt i).page with data := d, dirty := true } }) := .setFrame_at p rfl
    exact hs.trans <| .of_frames rfl rfl rfl

-- A fetch that succeeds takes a stamp, one that fails does not.
theorem fetch_stamps (h : p.fetch j = (res, q)) :
    (∃ e, res = .error e ∧ SameStamps p q) ∨
    (∃ i, res = .ok i ∧ q.fetches = p.fetches + 1 ∧ (Clock p → p.fetches < maxStamp → Clock q)) := by
  have hnext : ∀ (p : BufferPool σ), p.nextTimestamp.snd.fetches = p.fetches + 1 := by
    intro p
    rw [nextTimestamp]
    split <;> rfl
  simp only [fetch] at h
  split at h
  case isTrue => cases h; exact .inl ⟨_, rfl, .refl _⟩
  case isFalse =>
    split at h
    case h_1 i _ =>
      cases h
      refine .inr ⟨i, rfl, hnext _, fun hc hf => ?_⟩
      have hc := hc.of_same <| .setFrame_at (i := i) p
        (g := { p.frameAt i with pinCount := (p.frameAt i).pinCount + 1 }) rfl
      refine (hc.stamped hf ?_).left
      rw [hc.nextTimestamp hf]
    case h_2 =>
      split at h
      case h_1 => cases h; exact .inl ⟨_, rfl, .of_frames rfl rfl rfl⟩
      case h_2 page s _ =>
        have hs : SameStamps p { p with dev := s } := .of_frames rfl rfl rfl
        split at h
        case h_1 ha => cases h; exact .inl ⟨_, rfl, hs.trans (acquireFrame_stamps ha)⟩
        case h_2 i p₁ ha =>
          cases h
          have hs₁ := hs.trans (acquireFrame_stamps ha)
          refine .inr ⟨i, rfl, (hnext _).trans (by rw [BufferPool.setFrame, hs₁.fetches]), fun hc hf => ?_⟩
          have hs₂ := hs₁.trans <| .setFrame_at (i := i) p₁ (g := { p₁.frameAt i with page, pinCount := 1 }) rfl
          have hc := hc.of_same hs₂
          have hf := hs₂.fetches ▸ hf
          refine (hc.stamped hf ?_).left
          rw [hc.nextTimestamp hf]

end NexusDb.BufferPool
