import NexusDb.Buffer.Theorems.Representation
import NexusDb.Storage.Theorems.Disk

namespace NexusDb

-- A pool with one frame over a file with two pages.
def twoPages : Disk where
  storage := ⟨[zeroPage, zeroPage], by decide⟩

namespace BufferPool

section

variable {p : BufferPool σ}

theorem findFrame_absent (h : ¬p.Resident j) : p.findFrame j = none := by
  cases hf : p.findFrame j
  case none => rfl
  case some i =>
    have ⟨f, hf, hu, hj⟩ := findFrame_some hf
    exact absurd ⟨i, f, hf, hu, hj⟩ h

-- There is a free frame below the capacity.
theorem free_of_size_lt (h : p.size < p.frames.length) : ∃ i, p.frames.findIdx? (!·.inUse) = some i := by
  cases hf : p.frames.findIdx? (!·.inUse)
  case some i => exact ⟨i, rfl⟩
  case none =>
    have hall : p.frames.countP (·.inUse) = p.frames.length := by
      rw [List.countP_eq_length]
      intro f hm
      simpa using List.findIdx?_eq_none_iff.mp hf f hm
    rw [size, hall] at h
    exact absurd h (lt_irrefl _)

theorem victim_eq_none_iff {fs : List Frame} :
    victim fs = none ↔ ∀ f ∈ fs, eligible f → maxStamp ≤ f.lastUsed := by
  constructor
  case mp => exact fun h f hf he => victim_none h hf he
  case mpr =>
    intro h
    cases hv : victim fs
    case none => rfl
    case some i =>
      have ⟨f, hf, he, hl⟩ : ∃ f ∈ fs, eligible f ∧ f.lastUsed < maxStamp := by
        rw [victim_eq] at hv
        rcases foldl_victimStep fs 0 (none, maxStamp) with ⟨he, _⟩ | ⟨j, f, hj, he, hl, _⟩
        · rw [he] at hv
          cases hv
        · exact ⟨f, List.mem_of_getElem? hj, he, hl⟩
      exact absurd (h f hf he) (Nat.not_le.mpr hl)

end

variable [Device σ] {p : BufferPool σ}

-- The page exists and is not in the pool. Reading it succeeds, and so does writing back the victim.
structure Loads (p : BufferPool σ) (id : PageId) : Prop where
  valid  : id ≠ invalidId
  absent : ¬p.Resident id
  read   : ∃ page s, Device.readPage p.dev id = (.ok page, s) ∧
             ∀ i, victim p.frames = some i → ({ p with dev := s }.flushFrame i).fst = .ok ()

-- When the fetch reports that there is no frame, every frame in use is pinned.
def FullOnlyIfPinned (p : BufferPool σ) (id : PageId) : Prop :=
  ∀ e, (p.fetch id).fst = .error e → e.code = .bufferFull → ∀ f ∈ p.frames, f.inUse → 0 < f.pinCount

theorem Loads.fetch_fst (h : Loads p j) (hp : p.Inv) :
    (p.size < p.capacity ∨ (∃ i, victim p.frames = some i) → ∃ i, (p.fetch j).fst = .ok i) ∧
      (¬p.size < p.capacity → victim p.frames = none → (p.fetch j).fst = .error allPinned) := by
  obtain ⟨page, s, hr, hw⟩ := h.read
  simp only [fetch, if_neg h.valid, findFrame_absent h.absent, hr, acquireFrame]
  by_cases hs : p.size < p.capacity
  case pos =>
    obtain ⟨i, hi⟩ := free_of_size_lt (hs.trans_le hp.frame_le)
    have hs' : ({ p with dev := s } : BufferPool σ).size < p.capacity := hs
    simp only [if_pos hs', hi]
    exact ⟨fun _ => ⟨i, rfl⟩, fun hn => absurd hs hn⟩
  case neg =>
    have hs' : ¬({ p with dev := s } : BufferPool σ).size < p.capacity := hs
    simp only [if_neg hs']
    cases hv : victim p.frames
    case none =>
      refine ⟨fun h => ?_, fun _ _ => rfl⟩
      rcases h with h | ⟨_, h⟩
      · exact absurd h hs
      · cases h
    case some i =>
      refine ⟨fun _ => ?_, fun _ h => by cases h⟩
      have hw := hw i hv
      rcases hf : ({ p with dev := s } : BufferPool σ).flushFrame i with ⟨e | ⟨⟩, q⟩
      · rw [hf] at hw
        cases hw
      · exact ⟨i, by simp only [hf]⟩

-- A frame with the greatest stamp is never a victim. This is the only case in which the pool is not
-- full of pinned pages and yet reports that it is.
theorem fullOnlyIfPinned_iff (hi : p.Inv) (h : Loads p j) :
    FullOnlyIfPinned p j ↔
      p.size < p.capacity ∨ (∃ f ∈ p.frames, f.inUse ∧ f.pinCount = 0 ∧ f.lastUsed < 2 ^ 64 - 1) ∨
        ∀ f ∈ p.frames, f.inUse → 0 < f.pinCount := by
  have ⟨hok, hfull⟩ := h.fetch_fst hi
  have hnever : (∃ i, (p.fetch j).fst = .ok i) → FullOnlyIfPinned p j := by
    intro ⟨i, hi⟩ e he
    rw [hi] at he
    cases he
  constructor
  case mp =>
    intro hf
    by_cases hs : p.size < p.capacity
    case pos => exact .inl hs
    case neg =>
      cases hv : victim p.frames
      case none => exact .inr <| .inr <| hf _ (hfull hs hv) rfl
      case some i =>
        refine .inr <| .inl ?_
        by_contra hn
        have hv' : victim p.frames = none := victim_eq_none_iff.mpr fun f hf he =>
          Nat.not_lt.mp fun hlt => hn ⟨f, hf, he.left, he.right, hlt⟩
        rw [hv] at hv'
        cases hv'
  case mpr =>
    rintro (hs | ⟨f, hf, hu, hp, hlt⟩ | hp)
    · exact hnever <| hok (.inl hs)
    · refine hnever <| hok <| .inr ?_
      cases hv : victim p.frames
      case none => exact absurd (victim_none hv hf ⟨hu, hp⟩) (Nat.not_le.mpr hlt)
      case some i => exact ⟨i, rfl⟩
    · exact fun _ _ _ => hp

-- A full pool, with a page that nobody holds.
def givenUp : BufferPool Disk where
  dev         := twoPages
  capacity    := 1
  frames      := [{ page := { id := 0 }, lastUsed := 1, inUse := true }]
  accessClock := 1
  fetches     := 1

theorem givenUp_frame? (h : givenUp.frame? i = some f) : i = 0 ∧ f = { page := { id := 0 }, lastUsed := 1, inUse := true } := by
  cases i
  case zero => cases h; exact ⟨rfl, rfl⟩
  case succ => cases h

theorem fullOnlyIfPinned_givenUp : givenUp.Inv ∧ ¬givenUp.size < givenUp.capacity ∧ Loads givenUp 1 ∧
    FullOnlyIfPinned givenUp 1 := by
  have hi : givenUp.Inv := by
    refine ⟨by decide, by decide, by decide, fun i j f g hf hg _ _ _ => ?_, fun i f hf _ => ?_⟩
    · rw [(givenUp_frame? hf).left, (givenUp_frame? hg).left]
    · rw [(givenUp_frame? hf).right]
  have hl : Loads givenUp 1 := by
    refine ⟨by decide, ?_, { id := 1 }, twoPages, rfl, fun i hv => ?_⟩
    · rintro ⟨i, f, hf, _, hid⟩
      rw [(givenUp_frame? hf).right] at hid
      cases hid
    · cases hv
      rfl
  exact ⟨hi, by decide, hl, (fullOnlyIfPinned_iff hi hl).mpr (.inr (.inl ⟨_, List.mem_singleton_self _, rfl, rfl, by decide⟩))⟩

end BufferPool

theorem Client.run_append [Device σ] (c : Client σ) (as bs : List PoolOp) :
    c.run (as ++ bs) = (c.run as).run bs := by
  induction as generalizing c
  case nil => rfl
  case cons a as hi => exact hi _

section

-- Page 0 was fetched `n` times, each time into the same handle.
def fetchedTimes (n : Nat) : Client Disk where
  pool    := { dev := twoPages, capacity := 1, accessClock := n, fetches := n,
               frames := [{ page := { id := 0 }, pinCount := 1, lastUsed := n, inUse := true }] }
  handles := [some ⟨0, 0⟩]
  fetched := List.replicate n 0

theorem fetchedTimes_step (h : n < BufferPool.maxStamp) :
    (fetchedTimes n).step (.fetch 0 0) = (.ok (), fetchedTimes (n + 1)) := by
  have hi : (0 : PageId) ≠ invalidId := by decide
  have hn : n ≠ 18446744073709551615 := Nat.ne_of_lt h
  have hm : (n + 1) % 18446744073709551616 = n + 1 := Nat.mod_eq_of_lt <| Nat.succ_lt_succ h
  simp [fetchedTimes, Client.step, Client.fetch, Client.release, Client.handle?, BufferPool.unpinFrame,
    BufferPool.fetch, BufferPool.findFrame, BufferPool.setFrame, BufferPool.frameAt,
    BufferPool.nextTimestamp, hi, hn, hm, List.replicate_succ]

theorem fetchedTimes_run (h : n + k ≤ BufferPool.maxStamp) :
    (fetchedTimes n).run (List.replicate k (.fetch 0 0)) = fetchedTimes (n + k) := by
  induction k generalizing n
  case zero => rfl
  case succ k hi =>
    rw [List.replicate_succ, Client.run, fetchedTimes_step (by omega), hi (by omega)]
    congr 1
    omega

theorem run_fetches (h : k < BufferPool.maxStamp) :
    Client.run { pool := { dev := twoPages, capacity := 1, frames := [{}] } }
        (.declare :: (List.replicate (k + 1) (.fetch 0 0) ++ [.unpin 0])) =
      (fetchedTimes (k + 1)).release 0 := by
  have hrun := fetchedTimes_run (n := 1) (k := k) (by omega)
  rw [Nat.add_comm] at hrun
  have hfirst : Client.step ⟨{ dev := twoPages, capacity := 1, frames := [{}] }, [none], []⟩ (.fetch 0 0) =
      (.ok (), fetchedTimes 1) := rfl
  have hdeclare : (Client.step ⟨{ dev := twoPages, capacity := 1, frames := [{}] }, [], []⟩ .declare).snd =
      ⟨{ dev := twoPages, capacity := 1, frames := [{}] }, [none], []⟩ := rfl
  simp only [Client.run, Client.run_append, List.replicate_succ, hdeclare, hfirst, hrun]
  rfl

theorem fetch_other (h : n = BufferPool.maxStamp) :
    (((fetchedTimes n).release 0).step (.fetch 0 1)).fst = .error BufferPool.allPinned := by
  have hv : ¬n < BufferPool.maxStamp := by omega
  have hread : Device.readPage twoPages 1 = (.ok { id := 1 }, twoPages) := rfl
  have hi : (1 : PageId) ≠ invalidId := by decide
  simp at hv
  simp [fetchedTimes, Client.step, Client.fetch, Client.release, Client.handle?, BufferPool.unpinFrame,
    BufferPool.fetch, BufferPool.findFrame, BufferPool.setFrame, BufferPool.frameAt, BufferPool.acquireFrame,
    BufferPool.size, BufferPool.victim, hread, hi, Nat.not_lt.mpr hv]

-- The pool has been used as often as it takes to give out the greatest stamp. Its only page is not
-- pinned any more, but no other page can be fetched.
theorem fetch_full_unpinned :
    ∃ pool, BufferPool.create twoPages 1 = .ok pool ∧
      let c := Client.run { pool } (.declare :: (List.replicate (2 ^ 64 - 1) (.fetch 0 0) ++ [.unpin 0]))
      (c.step (.fetch 0 1)).fst = .error BufferPool.allPinned ∧
        ∀ f ∈ c.pool.frames, f.inUse ∧ f.pinCount = 0 := by
  refine ⟨_, rfl, ?_⟩
  have ⟨k, hk⟩ : ∃ k, 2 ^ 64 - 1 = k + 1 := ⟨_, rfl⟩
  rw [hk]
  have hrun := run_fetches (k := k) (by rw [BufferPool.maxStamp, hk]; exact Nat.lt_succ_self k)
  intro c
  change c = _ at hrun
  rw [hrun]
  refine ⟨fetch_other hk.symm, ?_⟩
  simp [fetchedTimes, Client.release, Client.handle?, BufferPool.unpinFrame, BufferPool.setFrame,
    BufferPool.frameAt]

end

end NexusDb
