import NexusDb.Buffer.Theorems.Clock
import NexusDb.Buffer.Theorems.Coherence
import NexusDb.Storage.Theorems.PageStorage

namespace NexusDb

namespace PageStorage

variable {s : PageStorage}

theorem page?_setPage_eq_update (h : s.page? i = some d) :
    (s.setPage i d').page? = Function.update s.page? i (some d') := by
  funext j
  rw [page?_setPage (by rw [h]; rfl), Function.update_apply]
  split
  case isTrue h => rw [if_pos h.symm]
  case isFalse hn => rw [if_neg (Ne.symm hn)]

end PageStorage

namespace BufferPool

section

variable [Device σ]

-- A pool that nobody holds a page of, over a device that together with the pool has the pages of `s`.
structure Serves (p : BufferPool σ) (s : PageStorage) : Prop where
  inv      : p.Inv
  pins     : ∀ i, p.pins i = 0
  coherent : p.Coherent s.page?
  clock    : p.fetches < maxStamp → p.Clock

variable {p q : BufferPool σ} {s : PageStorage}

-- Once a call has failed, it has failed.
theorem stable_not_ok : Device.Stable fun s : σ => ¬Device.ok s where
  count hn h ho := hn (Device.count_mono (by rwa [h]))
  read hn h ho  := hn (Device.read_mono (by rwa [h]))
  write hn h ho := hn (Device.write_mono (by rwa [h]))
  alloc hn h ho := hn (Device.alloc_mono (by rwa [h]))
  log hn h ho   := hn (Device.log_mono (by rwa [h]))
  touch hn ho   := hn (Device.touch_ok.mp ho)

theorem Steps.ok_mono (st : Steps p q) (h : Device.ok q.dev) : Device.ok p.dev :=
  not_imp_not.mp (stable_not_ok.steps st) h

theorem Coherent.numPages (h : p.Coherent s.page?) : Device.numPages p.dev = s.numPages := by
  have hlt : ∀ i, i < Device.numPages p.dev ↔ i < s.numPages := by
    intro i
    rw [← Device.page?_isSome, ← PageStorage.page?_isSome_iff, h.allocated]
  apply UInt32.le_antisymm
  · exact UInt32.not_lt.mp fun hn => UInt32.lt_irrefl _ <| (hlt _).mp hn
  · exact UInt32.not_lt.mp fun hn => UInt32.lt_irrefl _ <| (hlt _).mpr hn

-- Fetching a page, working on it and giving it up again.
theorem Coherent.use {id : PageId} (hi : p.Inv) (hc : p.Coherent s.page?) (hf : p.fetch id = (.ok i, q)) :
    s.page? id = some (q.frameAt i).page.data ∧ (q.unpinFrame i).Coherent s.page? ∧
      ∀ d, ((q.edit i (some d)).unpinFrame i).Coherent (s.setPage id d).page? := by
  rcases fetch_cases hf with ⟨_, hr, _⟩ | ⟨_, p₁, hr, st, hp⟩ <;> cases hr
  have hc₁ := hc.steps hi st
  have ⟨hi, _⟩ := (hi.keeps_steps st).inv.pinned hp
  have ⟨hc, f, hfr, hu, hid, hm⟩ := hc₁.pinned hp
  refine ⟨by rw [frameAt_eq hfr, hm], hc.unpin i, fun d => ?_⟩
  rw [PageStorage.page?_setPage_eq_update hm]
  refine Coherent.unpin ?_ i
  rw [edit_eq hfr]
  have hmod := hc.modify hi (g := { f with page := { f.page with data := d, dirty := true } }) hfr hu rfl hu rfl
  rw [hid] at hmod
  exact hmod.same_pages Device.touch_page?

-- A device that got one more page.
theorem Coherent.added {dev : σ} (hc : p.Coherent s.page?) (hn : s.numPages ≠ invalidId)
    (hdev : ∀ i, Device.page? dev i = if i = s.numPages then some d else Device.page? p.dev i) :
    Coherent { p with dev } (s.push d).page? := by
  have hs : ∀ i, (s.push d).page? i = if i = s.numPages then some d else s.page? i :=
    fun i => PageStorage.page?_push (PageStorage.pages_push hn)
  have hres : ∀ {i f}, p.frame? i = some f → f.inUse → f.page.id ≠ s.numPages :=
    fun hf hu => PageStorage.ne_numPages (Option.isSome_of_eq_some (hc.resident _ _ hf hu))
  refine ⟨fun i f hf hu => ?_, fun i f hf hu hd => ?_, fun id hr => ?_, fun id => ?_⟩
  · rw [hs, if_neg (hres hf hu)]
    exact hc.resident i f hf hu
  · exact (hdev _).trans <| (if_neg (hres hf hu)).trans <| hc.clean i f hf hu hd
  · refine (hdev id).trans ?_
    rw [hs, hc.absent id hr]
  · refine (congrArg _ (hdev id)).trans ?_
    rw [hs]
    split
    case isTrue => rfl
    case isFalse => exact hc.allocated id

-- Adding a page.
theorem Coherent.newPage (hc : p.Coherent s.page?) (ha : Device.allocatePage p.dev = (.ok page, s₁))
    (hw : Device.writePage s₁ .direct { page with data := d, dirty := true } = (.ok (), s₂)) :
    Coherent { p with dev := s₂ } (s.push d).page? := by
  have ⟨hn, hp, hpages⟩ := Device.alloc_ok ha
  rw [hc.numPages] at hn hp
  refine hc.added hn fun i => ?_
  rw [Device.write_ok hw, hpages, hp]
  split <;> rfl

-- A page that was added, but not written completely.
theorem Coherent.newPage_failed (hc : p.Coherent s.page?) (ha : Device.allocatePage p.dev = (.ok page, s₁))
    (hw : Device.writePage s₁ .direct { page with data := d, dirty := true } = (.error e, s₂)) :
    ∃ d', Coherent { p with dev := s₂ } (s.push d').page? := by
  have ⟨hn, hp, hpages⟩ := Device.alloc_ok ha
  rw [hc.numPages] at hn hp
  have hfail := Device.write_error hw
  rw [hp] at hfail hpages
  have hsome : (Device.page? s₂ s.numPages).isSome := by
    rw [(hfail s.numPages).left, hpages, if_pos rfl]
    rfl
  have ⟨d', hd'⟩ := Option.isSome_iff_exists.mp hsome
  refine ⟨d', hc.added hn fun i => ?_⟩
  split
  case isTrue hi => rw [hi, hd']
  case isFalse hi => rw [(hfail i).right hi, hpages, if_neg hi]

theorem count_same {dev dev' : σ} (h : Device.countPages dev = (res, dev')) : Device.page? dev' = Device.page? dev := by
  have := Device.count_page? (s := dev)
  rwa [h] at this

-- A page is written back, unless a call on the device fails.
theorem Coherent.flushFrame (hc : p.Coherent s.page?) (hf : p.flushFrame i = (.error e, q)) : ¬Device.ok q.dev := by
  intro ho
  have hex : ∀ {f}, p.frame? i = some f → f.inUse → s.page? f.page.id = some f.page.data :=
    fun hf hu => hc.resident i _ hf hu
  rcases flushFrame_cases hf with ⟨hr, _⟩ | ⟨f, _, _, _, hfr, hu, _, hl, hp⟩ |
    ⟨f, _, _, _, _, hfr, hu, _, hl, hw, hp⟩ | ⟨_, _, _, hr, _⟩
  · cases hr
  · subst hp
    exact PageStorage.ne_invalidId (hex hfr hu) (Device.log_fails hl ho)
  · subst hp
    refine absurd ?_ (Device.write_fails hw ho)
    rw [← Device.page?_isSome, log_same hl, hc.allocated, hex hfr hu]
    rfl
  · cases hr

namespace Serves

theorem create {dev : σ} (h : BufferPool.create dev n = .ok p) (hs : ∀ i, Device.page? dev i = s.page? i) :
    Serves p s := by
  have ⟨hi, hp, _⟩ := create_inv h
  refine ⟨hi, hp, ?_, fun _ => (Clock.create h).left⟩
  have hc := (Client.create_coherent h).pool
  rwa [funext hs] at hc

theorem steps (h : Serves p s) (st : Steps p q) (hs : SameStamps p q) : Serves q s where
  inv      := (h.inv.keeps_steps st).inv
  pins i   := ((h.inv.keeps_steps st).pins i).trans (h.pins i)
  coherent := h.coherent.steps h.inv st
  clock hf := (h.clock (hs.fetches ▸ hf)).of_same hs

-- A device with the same pages.
theorem dev {dev : σ} (h : Serves p s) (hd : Device.page? dev = Device.page? p.dev) : Serves { p with dev } s where
  inv      := (h.inv.keeps_dev dev).inv
  pins     := h.pins
  coherent := h.coherent.same_pages hd
  clock hf := (h.clock hf).of_same (.of_frames rfl rfl rfl)

theorem eligible (h : Serves p s) (hf : p.frame? i = some f) (hu : f.inUse) : eligible f :=
  ⟨hu, pins_eq hf ▸ h.pins i⟩

theorem flushFrame (h : Serves p s) (hf : p.flushFrame i = (res, q)) (ho : Device.ok q.dev) : res = .ok () := by
  cases res
  case error => exact absurd ho (h.coherent.flushFrame hf)
  case ok => rfl

-- Without errors, everything is written.
theorem flushEach (h : p.Serves s) (hf : p.flushEach (.ok ()) is = (res, q)) (ho : Device.ok q.dev) : res = .ok () := by
  induction is generalizing p
  case nil =>
    cases hf
    rfl
  case cons i is ih =>
    rw [BufferPool.flushEach] at hf
    split at hf
    case isTrue => exact ih h hf
    case isFalse =>
      rcases hi : p.flushFrame i with ⟨r, p₁⟩
      rw [hi] at hf
      have hok := h.flushFrame hi ((flushEach_steps hf).ok_mono ho)
      rw [hok] at hf
      exact ih (h.steps (flushFrame_steps hi) (flushFrame_stamps hi)) hf

theorem flushAll (h : p.Serves s) (ho : Device.ok p.flushAll.snd.dev) :
    p.flushAll.fst = .ok () ∧ ∀ i, Device.page? p.flushAll.snd.dev i = s.page? i := by
  have hok : p.flushAll.fst = .ok () := h.flushEach rfl ho
  have hc := h.coherent.steps h.inv (flushAll_steps rfl)
  exact ⟨hok, hc.of_clean fun _ _ hf hu => flushAll_clean (Prod.ext hok rfl) hf hu⟩

-- There always is a frame for one more page, as long as the stamps last.
theorem acquireFrame (h : Serves p s) (ha : p.acquireFrame = (.error e, q)) (ho : Device.ok q.dev) :
    maxStamp ≤ p.fetches ∧ e = allPinned := by
  rw [BufferPool.acquireFrame] at ha
  split at ha
  case h_1 => cases ha
  case h_2 hnone =>
    split at ha
    case h_1 hv =>
      cases ha
      refine ⟨Nat.not_lt.mp fun hlt => ?_, rfl⟩
      -- Some frame is in use, since none is free.
      obtain ⟨f, hf, hu⟩ : ∃ f ∈ p.frames, f.inUse := by
        by_cases hs : p.size < p.capacity
        case pos =>
          rw [if_pos hs, List.findIdx?_eq_none_iff] at hnone
          have hpos := h.inv.positive.trans_le h.inv.frame_le
          refine ⟨p.frames[0], List.getElem_mem hpos, ?_⟩
          simpa using hnone _ (List.getElem_mem hpos)
        case neg => exact List.countP_pos_iff.mp <| h.inv.positive.trans_le <| Nat.not_lt.mp hs
      obtain ⟨i, hi⟩ := frame?_of_mem hf
      have hmax := victim_none hv hf (h.eligible hi hu)
      have hle := (h.clock hlt).stamps f hf
      omega
    case h_2 =>
      split at ha <;> cases ha
      case h_1 hf =>
        have := h.flushFrame hf ho
        cases this

theorem fetch_failed {id : PageId} (h : Serves p s) (hf : p.fetch id = (.error e, q)) :
    Serves q s ∧ q.fetches = p.fetches := by
  rcases fetch_stamps hf with ⟨_, _, hs⟩ | ⟨_, hr, _⟩
  · rcases fetch_cases hf with ⟨_, _, st⟩ | ⟨_, _, hr, _⟩
    · exact ⟨h.steps st hs, hs.fetches⟩
    · cases hr
  · cases hr

theorem fetch_error {id : PageId} (h : Serves p s) (hf : p.fetch id = (.error e, q)) (ho : Device.ok q.dev) :
    Serves q s ∧ q.fetches = p.fetches ∧
      ((id = invalidId ∧ e = bad "invalid page id") ∨
        (id ≠ invalidId ∧ s.page? id = none ∧ e = PageStorage.beyondEnd id s.numPages) ∨
        (maxStamp ≤ p.fetches ∧ (s.page? id).isSome ∧ e = allPinned)) := by
  obtain ⟨hq, hn⟩ := h.fetch_failed hf
  refine ⟨hq, hn, ?_⟩
  simp only [fetch] at hf
  split at hf
  case isTrue hid => cases hf; exact .inl ⟨hid, rfl⟩
  case isFalse hid =>
    split at hf
    case h_1 => cases hf
    case h_2 =>
      split at hf
      case h_1 hr =>
        cases hf
        obtain ⟨hlt, he⟩ := Device.read_error hr ho
        rw [h.coherent.numPages] at hlt he
        refine .inr <| .inl ⟨hid, ?_, he⟩
        rw [← PageStorage.page?_isSome_iff] at hlt
        simpa using hlt
      case h_2 page s' hr =>
        have hst : Steps p { p with dev := s' } := by
          have : Step p { p with dev := (Device.readPage p.dev id).snd } := .read
          rw [hr] at this
          exact .single this
        split at hf <;> cases hf
        case h_1 ha =>
          have hp' : Serves { p with dev := s' } s := h.steps hst (.of_frames rfl rfl rfl)
          obtain ⟨hmax, he⟩ := hp'.acquireFrame ha ho
          refine .inr <| .inr ⟨hmax, ?_, he⟩
          rw [← h.coherent.allocated, (Device.read_ok hr).right.right]
          rfl

-- A fetch that succeeds gives the bytes of the page, and the pool serves again when the page was given up.
theorem fetch_ok {id : PageId} (h : Serves p s) (hf : p.fetch id = (.ok i, q)) :
    s.page? id = some (q.frameAt i).page.data ∧ q.fetches = p.fetches + 1 ∧ Serves (q.unpinFrame i) s ∧
      ∀ d, Serves ((q.edit i (some d)).unpinFrame i) (s.setPage id d) := by
  have ⟨hn, hclock⟩ : q.fetches = p.fetches + 1 ∧ (q.fetches < maxStamp → q.Clock) := by
    rcases fetch_stamps hf with ⟨_, hr, _⟩ | ⟨_, _, hn, hcl⟩
    · cases hr
    · refine ⟨hn, fun hlt => ?_⟩
      have hlt : p.fetches < maxStamp := by omega
      exact hcl (h.clock hlt) hlt
  have huse : ∀ d, (∀ j, ((q.edit i d).unpinFrame i).pins j = 0) ∧ ((q.edit i d).unpinFrame i).Inv ∧
      (((q.edit i d).unpinFrame i).fetches < maxStamp → ((q.edit i d).unpinFrame i).Clock) := by
    intro d
    have hke := h.inv.keeps_use hf d
    have hs := (edit_stamps q i d).trans (.unpin _ i)
    exact ⟨fun j => (hke.pins j).trans (h.pins j), hke.inv, fun hlt => (hclock (hs.fetches ▸ hlt)).of_same hs⟩
  have ⟨hd, hnone, hsome⟩ := h.coherent.use h.inv hf
  refine ⟨hd, hn, ?_, fun d => ?_⟩
  · have ⟨h₁, h₂, h₃⟩ := huse none
    exact ⟨h₂, h₁, hnone, h₃⟩
  · have ⟨h₁, h₂, h₃⟩ := huse (some d)
    exact ⟨h₂, h₁, hsome d, h₃⟩

theorem newPage (h : Serves p s) (ha : Device.allocatePage p.dev = (.ok page, s₁))
    (hw : Device.writePage s₁ .direct { page with data := d, dirty := true } = (.ok (), s₂)) :
    Serves { p with dev := s₂ } (s.push d) :=
  ⟨(h.inv.keeps_dev s₂).inv, h.pins, h.coherent.newPage ha hw,
    fun hlt => (h.clock hlt).of_same (.of_frames rfl rfl rfl)⟩

end Serves
end

end BufferPool

namespace Prog

open BufferPool (maxStamp)

-- How many fetches succeed when the code runs directly on the pages.
def calls : Prog α → PageStorage → Nat
  | ret _,           _ => 0
  | numPages k,      s => (k (.ok s.numPages)).calls s
  | newPage data k,  s =>
    match s.allocatePage with
    | (.error e, s) => (k (.error e)).calls s
    | (.ok page, s) => (k (.ok page.id)).calls (s.setPage page.id data)
  | withPage id f k, s =>
    if id = invalidId then
      (k (.error <| bad "invalid page id")).calls s
    else
      match s.page? id with
      | none   => (k (.error <| PageStorage.beyondEnd id s.numPages)).calls s
      | some d =>
        match f d with
        | none                => 1
        | some (r, none)      => (k r).calls s + 1
        | some (r, some data) => (k r).calls (s.setPage id data) + 1

theorem direct_bind (g : Prog α) (k : α → Prog β) (s : PageStorage) :
    (g.bind k).direct s =
      match g.direct s with
      | (some a, s') => (k a).direct s'
      | (none, s')   => (none, s') := by
  induction g generalizing s
  case ret => rfl
  case numPages hi => exact hi _ s
  case newPage hi =>
    rw [bind, direct, direct]
    split
    case h_1 => exact hi _ _
    case h_2 => exact hi _ _
  case withPage id f k₁ hi =>
    rw [bind, direct, direct]
    split
    case isTrue => exact hi _ s
    case isFalse =>
      split
      case h_1 => exact hi _ s
      case h_2 =>
        split
        case h_1 => rfl
        case h_2 => exact hi _ s
        case h_3 => exact hi _ _

theorem calls_bind {g : Prog α} {k : α → Prog β} (h : g.direct s = (some a, s')) :
    (g.bind k).calls s = g.calls s + (k a).calls s' := by
  induction g generalizing s
  case ret =>
    cases h
    exact (Nat.zero_add _).symm
  case numPages hi => exact hi _ h
  case newPage hi =>
    rw [bind, calls, calls]
    rw [direct] at h
    rcases ha : s.allocatePage with ⟨e | page, s₁⟩
    · simp only [ha] at h ⊢
      exact hi _ h
    · simp only [ha] at h ⊢
      exact hi _ h
  case withPage id f k₁ hi =>
    rw [bind, calls, calls]
    rw [direct] at h
    by_cases hid : id = invalidId
    case pos =>
      rw [if_pos hid] at h
      rw [if_pos hid, if_pos hid]
      exact hi _ h
    case neg =>
      rcases hd : s.page? id with _ | d
      · simp only [if_neg hid, hd] at h ⊢
        exact hi _ h
      · rcases hf : f d with _ | ⟨r, _ | data⟩
        · simp only [if_neg hid, hd, hf] at h
          cases h
        · simp only [if_neg hid, hd, hf] at h ⊢
          rw [hi _ h]
          exact Nat.add_right_comm ..
        · simp only [if_neg hid, hd, hf] at h ⊢
          rw [hi _ h]
          exact Nat.add_right_comm ..

theorem addPage_direct (d : PageData) (s : PageStorage) :
    (addPage d).direct s = (some (.ok s.numPages), s.push d) ∧ s.numPages ≠ invalidId ∨
    ∃ e, (addPage d).direct s = (some (.error e), s) := by
  rw [addPage, direct, PageStorage.push, PageStorage.allocatePage]
  by_cases hn : s.numPages = invalidId
  · rw [dif_pos hn]
    exact .inr ⟨_, rfl⟩
  · rw [dif_neg hn]
    exact .inl ⟨rfl, hn⟩

theorem calls_addPage (d : PageData) (s : PageStorage) : (addPage d).calls s = 0 := by
  rw [addPage, calls]
  split <;> rfl

-- The code fetches at most `n` pages, whatever it finds.
def AtMost : Nat → Prog α → Prop
  | _,     ret _          => True
  | n,     numPages k     => ∀ r, (k r).AtMost n
  | n,     newPage _ k    => ∀ r, (k r).AtMost n
  | 0,     withPage _ _ _ => False
  | n + 1, withPage _ _ k => ∀ r, (k r).AtMost n

namespace AtMost

theorem mono {g : Prog α} (h : g.AtMost n) (hle : n ≤ m) : g.AtMost m := by
  induction g generalizing n m
  case ret => trivial
  case numPages hi => exact fun r => hi r (h r) hle
  case newPage hi => exact fun r => hi r (h r) hle
  case withPage hi =>
    cases n
    case zero => cases h
    case succ n =>
      cases m
      case zero => cases hle
      case succ m => exact fun r => hi r (h r) (Nat.le_of_succ_le_succ hle)

theorem bind {g : Prog α} {k : α → Prog β} (h : g.AtMost m) (hk : ∀ a, (k a).AtMost n) (hle : m + n ≤ l) :
    (g.bind k).AtMost l := by
  induction g generalizing m l
  case ret a => exact (hk a).mono (Nat.le_of_add_left_le hle)
  case numPages hi => exact fun r => hi r (h r) hle
  case newPage hi => exact fun r => hi r (h r) hle
  case withPage hi =>
    cases m
    case zero => cases h
    case succ m =>
      rw [Nat.succ_add] at hle
      cases l
      case zero => cases hle
      case succ l => exact fun r => hi r (h r) (Nat.le_of_succ_le_succ hle)

theorem ret {a : α} : (Prog.ret a).AtMost 0 :=
  trivial

theorem pageExists : (Prog.pageExists i).AtMost 0
  | .error _ => trivial
  | .ok _    => trivial

theorem addPage : (Prog.addPage d).AtMost 0 :=
  fun _ => trivial

theorem onPage {f : PageData → Mem (PageCall β)} : (Prog.onPage i f).AtMost 1 :=
  fun _ => trivial

theorem calls_le {g : Prog α} (h : g.AtMost n) (s : PageStorage) : g.calls s ≤ n := by
  induction g generalizing n s
  case ret => exact Nat.zero_le _
  case numPages hi => exact hi _ (h _) s
  case newPage hi =>
    rw [calls]
    split
    case h_1 => exact hi _ (h _) _
    case h_2 => exact hi _ (h _) _
  case withPage hi =>
    cases n
    case zero => cases h
    case succ n =>
      rw [calls]
      split
      case isTrue => exact Nat.le_succ_of_le <| hi _ (h _) s
      case isFalse =>
        split
        case h_1 => exact Nat.le_succ_of_le <| hi _ (h _) s
        case h_2 =>
          split
          case h_1 => exact Nat.le_add_left ..
          case h_2 => exact Nat.succ_le_succ <| hi _ (h _) _
          case h_3 => exact Nat.succ_le_succ <| hi _ (h _) _

end AtMost

theorem calls_bind_le {g : Prog α} {k : α → Prog β} (hk : ∀ a, (k a).AtMost n) (s : PageStorage) :
    (g.bind k).calls s ≤ g.calls s + n := by
  induction g generalizing s
  case ret a => exact ((hk a).calls_le s).trans (Nat.le_add_left ..)
  case numPages hi => exact hi _ s
  case newPage hi =>
    rw [bind, calls, calls]
    split
    case h_1 => exact hi _ _
    case h_2 => exact hi _ _
  case withPage id f k₁ hi =>
    rw [bind, calls, calls]
    split
    case isTrue => exact hi _ s
    case isFalse =>
      split
      case h_1 => exact hi _ s
      case h_2 =>
        split
        case h_1 => exact Nat.le_add_right ..
        case h_2 => exact (Nat.add_le_add_right (hi _ s) 1).trans (Nat.add_right_comm ..).le
        case h_3 => exact (Nat.add_le_add_right (hi _ _) 1).trans (Nat.add_right_comm ..).le

variable [Device σ] {p : BufferPool σ} {s : PageStorage}

theorem exec_fetches_le (g : Prog α) (p : BufferPool σ) : p.fetches ≤ (g.exec p).snd.fetches := by
  refine exec_rule (fun q => p.fetches ≤ q.fetches) (fun q res s h _ => h)
    (fun q res s h _ => ⟨h, fun _ _ _ _ _ _ => h⟩) ?_ ?_ g le_rfl
  · intro q j e q' h hf
    rcases BufferPool.fetch_stamps hf with ⟨_, _, hs⟩ | ⟨_, hr, _⟩
    · exact h.trans hs.fetches.ge
    · cases hr
  · intro q j i q' d h hf
    rcases BufferPool.fetch_stamps hf with ⟨_, hr, _⟩ | ⟨_, _, hn, _⟩
    · cases hr
    · have hs := (BufferPool.edit_stamps q' i d).trans (.unpin _ i)
      rw [hs.fetches, hn]
      exact Nat.le_succ_of_le h

theorem exec_ok_mono (g : Prog α) (p : BufferPool σ) (h : Device.ok (g.exec p).snd.dev) : Device.ok p.dev :=
  not_imp_not.mp (exec_stable BufferPool.stable_not_ok g) h

-- Whatever the code does, the pool goes on serving some pages, and they do not become fewer.
theorem exec_coherent (g : Prog α) (hi : p.Inv) (hc : p.Coherent s.page?) :
    ∃ s' : PageStorage, (g.exec p).snd.Coherent s'.page? ∧ s.pages.length ≤ s'.pages.length := by
  have h := exec_rule (fun q => q.Inv ∧ ∃ s' : PageStorage, q.Coherent s'.page? ∧ s.pages.length ≤ s'.pages.length)
    ?_ ?_ ?_ ?_ g ⟨hi, s, hc, le_rfl⟩
  · exact h.right
  · exact fun q res dev ⟨hi, s', hc, hl⟩ h => ⟨(hi.keeps_dev dev).inv, s', hc.same_pages (BufferPool.count_same h), hl⟩
  · rintro q res dev ⟨hi, s', hc, hl⟩ ha
    have hpush : ∀ {d}, s'.numPages ≠ invalidId → s.pages.length ≤ (s'.push d).pages.length := fun hn => by
      rw [PageStorage.pages_push hn, List.length_append]
      exact Nat.le_add_right_of_le hl
    cases res
    case error e => exact ⟨⟨(hi.keeps_dev dev).inv, s', hc.same_pages (Device.alloc_error ha), hl⟩, nofun⟩
    case ok page =>
      have ⟨hn, hpage, hpages⟩ := Device.alloc_ok ha
      rw [hc.numPages] at hn hpage
      rw [hpage] at hpages
      refine ⟨⟨(hi.keeps_dev dev).inv, s'.push zeroPage, hc.added hn hpages, hpush hn⟩, fun _ d st dev' hp hw => ?_⟩
      cases hp
      refine ⟨(hi.keeps_dev dev').inv, ?_⟩
      cases st
      case ok => exact ⟨_, hc.newPage ha hw, hpush hn⟩
      case error e =>
        have ⟨d', hd'⟩ := hc.newPage_failed ha hw
        exact ⟨_, hd', hpush hn⟩
  · rintro q j e q' ⟨hi, s', hc, hl⟩ hf
    rcases BufferPool.fetch_cases hf with ⟨_, _, st⟩ | ⟨_, _, hr, _⟩
    · exact ⟨(hi.keeps_steps st).inv, s', hc.steps hi st, hl⟩
    · cases hr
  · rintro q j i q' d ⟨hi, s', hc, hl⟩ hf
    have ⟨_, hnone, hsome⟩ := hc.use hi hf
    refine ⟨(hi.keeps_use hf d).inv, ?_⟩
    cases d
    case none => exact ⟨s', hnone, hl⟩
    case some d => exact ⟨_, hsome d, hl.trans PageStorage.length_setPage.ge⟩

-- What holds at the end of a longer run holds earlier.

theorem exec_numPages_le (g : Prog α) (hi : p.Inv) (hc : p.Coherent s.page?) :
    (Device.numPages p.dev).toNat ≤ (Device.numPages (g.exec p).snd.dev).toNat := by
  have ⟨s', hc', hl⟩ := exec_coherent g hi hc
  rwa [hc.numPages, hc'.numPages, PageStorage.toNat_numPages, PageStorage.toNat_numPages]

theorem length_pages_le (g : Prog α) (h : p.Serves s) (hl : (Device.numPages (g.exec p).snd.dev).toNat ≤ n) :
    s.pages.length ≤ n := by
  rw [← PageStorage.toNat_numPages, ← h.coherent.numPages]
  exact (exec_numPages_le g h.inv h.coherent).trans hl

theorem exec_ok_of_bind {g : Prog α} {k : α → Prog β} (h : Device.ok ((g.bind k).exec p).snd.dev) :
    Device.ok (g.exec p).snd.dev := by
  rw [exec_bind] at h
  match he : g.exec p with
  | (none, q)   => rwa [he] at h
  | (some a, q) =>
    rw [he] at h
    exact exec_ok_mono (k a) q h

theorem exec_fetches_le_bind (g : Prog α) (k : α → Prog β) (p : BufferPool σ) :
    (g.exec p).snd.fetches ≤ ((g.bind k).exec p).snd.fetches := by
  rw [exec_bind]
  match g.exec p with
  | (none, q)   => exact le_rfl
  | (some a, q) => exact exec_fetches_le (k a) q

theorem exec_numPages_le_bind (g : Prog α) (k : α → Prog β) (hi : p.Inv) (hc : p.Coherent s.page?) :
    (Device.numPages (g.exec p).snd.dev).toNat ≤ (Device.numPages ((g.bind k).exec p).snd.dev).toNat := by
  have hi' := (exec_keeps hi g).inv
  have ⟨s', hc', _⟩ := exec_coherent g hi hc
  rw [exec_bind]
  match he : g.exec p with
  | (none, q)   => exact le_rfl
  | (some a, q) =>
    rw [he] at hi' hc'
    exact exec_numPages_le (k a) hi' hc'

-- Without errors of the environment, and as long as the stamps last, the code does on a pool what it
-- does directly on the pages.
theorem exec_direct (g : Prog α) (h : p.Serves s) (ho : Device.ok (g.exec p).snd.dev)
    (hf : (g.exec p).snd.fetches < maxStamp ∨ p.fetches + g.calls s < maxStamp) :
    (g.exec p).fst = (g.direct s).fst ∧ (g.exec p).snd.Serves (g.direct s).snd ∧
      (g.exec p).snd.fetches = p.fetches + g.calls s := by
  induction g generalizing p s
  case ret => exact ⟨rfl, h, rfl⟩
  case numPages k hi =>
    rw [exec] at ho hf ⊢
    rcases hc : Device.countPages p.dev with ⟨e | n, s₁⟩
    · simp only [hc] at ho
      exact absurd (exec_ok_mono _ _ ho) (Device.count_fails hc)
    · simp only [hc] at ho hf ⊢
      have hn := Device.count_ok hc
      rw [h.coherent.numPages] at hn
      subst hn
      exact hi _ (h.dev (BufferPool.count_same hc)) ho hf
  case newPage d k hi =>
    rw [exec] at ho hf ⊢
    rw [direct, calls]
    rw [calls] at hf
    rcases ha : Device.allocatePage p.dev with ⟨e | page, s₁⟩
    · simp only [ha] at ho hf ⊢
      obtain ⟨hn, he⟩ := Device.alloc_fails ha (exec_ok_mono _ _ ho)
      rw [h.coherent.numPages] at hn
      have hp := h.dev (Device.alloc_error ha)
      have hs : s.allocatePage = (.error e, s) := by rw [PageStorage.allocatePage, dif_pos hn, he]
      simp only [hs] at hf ⊢
      exact hi _ hp ho hf
    · obtain ⟨hn, hpage, hpages⟩ := Device.alloc_ok ha
      rw [h.coherent.numPages] at hn hpage
      have hs : s.allocatePage.fst = .ok { id := s.numPages } := by rw [PageStorage.allocatePage, dif_neg hn]
      have hs : s.allocatePage = (.ok { id := s.numPages }, s.allocatePage.snd) := by rw [← hs]
      simp only [ha] at ho hf ⊢
      rcases hw : Device.writePage s₁ .direct { page with data := d, dirty := true } with ⟨e | ⟨⟩, s₂⟩
      · simp only [hw] at ho hf ⊢
        refine absurd ?_ (Device.write_fails hw (exec_ok_mono _ _ ho))
        rw [← Device.page?_isSome, hpages, if_pos rfl]
        rfl
      · have hp := h.newPage ha hw
        simp only [hw] at ho hf ⊢
        rw [hs] at hf ⊢
        rw [hpage] at ho hf ⊢
        exact hi _ hp ho hf
  case withPage id f k hi =>
    rw [exec] at ho hf ⊢
    rw [direct, calls]
    rw [calls] at hf
    rcases hfetch : p.fetch id with ⟨e | i, q⟩
    · simp only [hfetch] at ho hf ⊢
      obtain ⟨hq, hn, hcases⟩ := h.fetch_error hfetch (exec_ok_mono _ _ ho)
      rw [← hn] at hf ⊢
      rcases hcases with ⟨hid, he⟩ | ⟨hid, hnone, he⟩ | ⟨hmax, hsome, _⟩
      · rw [if_pos hid] at hf ⊢
        rw [if_pos hid]
        exact he ▸ hi _ hq (he ▸ ho) (he ▸ hf)
      · simp only [if_neg hid, hnone] at hf ⊢
        exact he ▸ hi _ hq (he ▸ ho) (he ▸ hf)
      · have hle := exec_fetches_le (k (.error e)) q
        rcases hf with hf | hf <;> omega
    · obtain ⟨hd, hn, hnone, hsome⟩ := h.fetch_ok hfetch
      simp only [hfetch] at ho hf ⊢
      simp only [if_neg (PageStorage.ne_invalidId hd), hd] at hf ⊢
      have hfetches : ∀ d, ((q.edit i d).unpinFrame i).fetches = p.fetches + 1 := fun d =>
        ((BufferPool.edit_stamps q i d).trans (.unpin _ i)).fetches.trans hn
      have hgo : ∀ {r} {q' : BufferPool σ} {s'}, q'.Serves s' → q'.fetches = p.fetches + 1 →
          Device.ok ((k r).exec q').snd.dev →
          ((k r).exec q').snd.fetches < maxStamp ∨ p.fetches + ((k r).calls s' + 1) < maxStamp →
          ((k r).exec q').fst = ((k r).direct s').fst ∧ ((k r).exec q').snd.Serves ((k r).direct s').snd ∧
            ((k r).exec q').snd.fetches = p.fetches + ((k r).calls s' + 1) := by
        intro r q' s' hq hn ho hf
        rw [Nat.add_comm (calls _ _), ← Nat.add_assoc, ← hn] at hf ⊢
        exact hi r hq ho hf
      rcases hr : f (q.frameAt i).page.data with _ | ⟨r, _ | d⟩
      · exact ⟨rfl, hnone, hfetches none⟩
      · simp only [hr] at ho hf ⊢
        exact hgo hnone (hfetches none) ho hf
      · simp only [hr] at ho hf ⊢
        exact hgo (hsome d) (hfetches (some d)) ho hf

end Prog
end NexusDb
