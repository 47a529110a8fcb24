import NexusDb.General.ByteBlock

-- How reading one record from the start of a stream of bytes can end.
inductive ReadResult (ρ ε : Type)
  | record (r : ρ) (rest : Bytes)
  | done (truncated : Bool)
  | corrupt (e : ε)

-- A reader of records that all have the same number of bytes.
structure RecordReader (ρ ε : Type) where
  read       : Bytes → ReadResult ρ ε
  size       : Nat
  size_pos   : 0 < size
  framed     : read s = .record r rest → size ≤ s.length ∧ rest = s.drop size
  local_     : read s = .record r rest → read (s.take size ++ u) = .record r u
  torn       : read s = .record r rest → j < size → read (s.take j) = .done (j ≠ 0)
  read_nil   : read [] = .done false
  done_short : read s = .done t → s.length < size ∧ t = !s.isEmpty

namespace RecordReader

variable {R : RecordReader ρ ε}

theorem rest_lt (h : R.read s = .record r rest) : rest.length < s.length := by
  have ⟨hl, hr⟩ := R.framed h
  have := R.size_pos
  simp [hr]
  omega

-- How the records of a stream end: at its end, with what is left there, or at a corrupt record.
inductive Ending (ε : Type)
  | tail (left : Bytes)
  | corrupt (e : ε)

-- All complete records of a stream up to its end or to the first corrupt one.
def all (R : RecordReader ρ ε) (s : Bytes) : List ρ × Ending ε :=
  match _h : R.read s with
  | .record r rest => (r :: (R.all rest).fst, (R.all rest).snd)
  | .done _        => ([], .tail s)
  | .corrupt e     => ([], .corrupt e)
termination_by s.length
decreasing_by all_goals exact R.rest_lt _h

theorem all_record (h : R.read s = .record r rest) :
    R.all s = (r :: (R.all rest).fst, (R.all rest).snd) := by
  rw [all]
  split <;> simp_all

theorem all_done (h : R.read s = .done t) : R.all s = ([], .tail s) := by
  rw [all]
  split <;> simp_all

theorem all_corrupt (h : R.read s = .corrupt e) : R.all s = ([], .corrupt e) := by
  rw [all]
  split <;> simp_all

-- The bytes of `rs`, one frame for each record.
inductive Frames (R : RecordReader ρ ε) : List ρ → Bytes → Prop
  | nil : Frames R [] []
  | cons (len : f.length = R.size) (read : ∀ u, R.read (f ++ u) = .record r u) (fs : Frames R rs s) :
    Frames R (r :: rs) (f ++ s)

namespace Frames

theorem all_append (fs : Frames R rs s) (u : Bytes) :
    R.all (s ++ u) = (rs ++ (R.all u).fst, (R.all u).snd) := by
  induction fs
  case nil => rfl
  case cons read _ hi => rw [List.append_assoc, all_record (read _), hi, List.cons_append]

theorem all_eq (fs : Frames R rs s) : R.all s = (rs, .tail []) := by
  have h := fs.all_append []
  rwa [all_done R.read_nil, List.append_nil, List.append_nil] at h

theorem length_eq (fs : Frames R rs s) : s.length = R.size * rs.length := by
  induction fs
  case nil => rfl
  case cons len _ _ hi =>
    rw [List.length_append, len, hi, List.length_cons]
    ring

theorem append (fs : Frames R rs s) (fs' : Frames R rs' s') : Frames R (rs ++ rs') (s ++ s') := by
  induction fs
  case nil => exact fs'
  case cons len read _ hi =>
    rw [List.append_assoc]
    exact .cons len read hi

-- Cutting a log anywhere leaves the frames before the cut and a proper prefix of the next one.
theorem take (fs : Frames R rs s) (hn : n ≤ s.length) :
    ∃ s₁ s₂, s.take n = s₁ ++ s₂ ∧ Frames R (rs.take (n / R.size)) s₁ ∧ s₂.length = n % R.size ∧
      R.read s₂ = .done (n % R.size ≠ 0) := by
  have hp := R.size_pos
  induction fs generalizing n
  case nil =>
    have hz : n = 0 := by simpa using hn
    subst hz
    exact ⟨[], [], rfl, by simpa using .nil, by simp, by simp [R.read_nil]⟩
  case cons f r rs s len read fs hi =>
    by_cases h : n < R.size
    case pos =>
      refine ⟨[], f.take n, ?_, ?_, ?_, ?_⟩
      · simp [List.take_append, Nat.sub_eq_zero_of_le (len ▸ h.le)]
      · simpa [Nat.div_eq_of_lt h] using .nil
      · simp [Nat.mod_eq_of_lt h, len, h.le]
      · have := R.torn (read []) h
        simpa [Nat.mod_eq_of_lt h] using this
    case neg =>
      have ⟨s₁, s₂, ht, hf, hl, hr⟩ := hi (n := n - R.size) (by simp [len] at hn; omega)
      have hd : n / R.size = (n - R.size) / R.size + 1 := Nat.div_eq_sub_div hp (by omega)
      have hm : n % R.size = (n - R.size) % R.size := Nat.mod_eq_sub_mod (by omega)
      refine ⟨f ++ s₁, s₂, ?_, ?_, hm ▸ hl, hm ▸ hr⟩
      · rw [List.take_append, List.take_of_length_le (by omega), len, ht, List.append_assoc]
      · rw [hd, List.take_succ_cons]
        exact .cons len read hf

-- One record with the frames before it and the bytes after it.
theorem split (fs : Frames R rs s) (hk : k < rs.length) :
    ∃ s₁ f s₂ r, s = s₁ ++ f ++ s₂ ∧ Frames R (rs.take k) s₁ ∧ f.length = R.size ∧
      ∀ u, R.read (f ++ u) = .record r u := by
  induction fs generalizing k
  case nil => cases hk
  case cons f r rs s len read fs hi =>
    cases k
    case zero => exact ⟨[], f, s, r, rfl, .nil, len, read⟩
    case succ k =>
      have ⟨s₁, f', s₂, r', hs, hf, hl, hr⟩ := hi (Nat.lt_of_succ_lt_succ hk)
      exact ⟨f ++ s₁, f', s₂, r', by simp [hs], .cons len read hf, hl, hr⟩

end Frames

-- Every stream is the frames of its complete records and what comes after them.
theorem frames_all (R : RecordReader ρ ε) (s : Bytes) :
    ∃ s₁ s₂, s = s₁ ++ s₂ ∧ Frames R (R.all s).fst s₁ ∧
      ((∃ t, R.read s₂ = .done t ∧ (R.all s).snd = .tail s₂) ∨
       (∃ e, R.read s₂ = .corrupt e ∧ (R.all s).snd = .corrupt e)) := by
  match h : R.read s with
  | .record r rest =>
    have ⟨s₁, s₂, hs, hf, he⟩ := frames_all R rest
    have ⟨hl, hr⟩ := R.framed h
    rw [all_record h]
    refine ⟨s.take R.size ++ s₁, s₂, ?_, .cons (by simp [hl]) (fun _ => R.local_ h) hf, he⟩
    rw [List.append_assoc, ← hs, hr, List.take_append_drop]
  | .done t    => exact ⟨[], s, rfl, by simpa [all_done h] using .nil, .inl ⟨t, h, by simp [all_done h]⟩⟩
  | .corrupt e => exact ⟨[], s, rfl, by simpa [all_corrupt h] using .nil, .inr ⟨e, h, by simp [all_corrupt h]⟩⟩
termination_by s.length
decreasing_by exact R.rest_lt h

end RecordReader
