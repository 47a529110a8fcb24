import NexusDb.Wal.Theorems.Recovery

open RecordReader (Frames)

namespace NexusDb.Wal

-- What the calls on the log can do, with the conditions under which they do it.

theorem appendPageImage_cases {id : PageId} (h : appendPageImage w io id data = (res, w')) :
    (∃ e, res = .error e ∧ w' = w ∧
      (w.isOpen = false ∨ (data.getD []).length ≠ 4096 ∨ id = invalidId ∨ w.good = false)) ∨
    (∃ e n, res = .error e ∧ w.isOpen ∧ w.good ∧ id ≠ invalidId ∧ (data.getD []).length = 4096 ∧
      (n = 0 ∨ w.file.length + w.pending.length + 4128 ≤ maxFileSize) ∧
      (io = .success → n = 0 ∧ maxFileSize < w.file.length + w.pending.length + 4128) ∧
      w' = w.fail (w.pending ++ encodeRecord w.nextLsn id (data.getD [])) n) ∨
    (res = .ok w.nextLsn ∧ w.isOpen ∧ w.good ∧ id ≠ invalidId ∧ (data.getD []).length = 4096 ∧
      w.file.length + w.pending.length + 4128 ≤ maxFileSize ∧
      w' = { w with pending := w.pending ++ encodeRecord w.nextLsn id (data.getD []),
                    nextLsn := (w.nextLsn + 1) % 2 ^ 64 }) := by
  simp only [appendPageImage] at h
  split_ifs at h with h₁ h₂ h₃ h₄ h₅
  case neg =>
    simp at h₁ h₂ h₄ h₅
    cases io <;> cases h
    case success => exact .inr <| .inr ⟨rfl, h₁, h₄, h₃, h₂, by simp; omega, rfl⟩
    case failure => exact .inr <| .inl ⟨_, _, rfl, h₁, h₄, h₃, h₂, .inr (by simp; omega), nofun, rfl⟩
  all_goals cases h
  any_goals exact .inl ⟨_, rfl, rfl, by simp_all⟩
  simp at h₁ h₂ h₄ h₅
  exact .inr <| .inl ⟨_, _, rfl, h₁, h₄, h₃, h₂, .inl rfl, fun _ => ⟨rfl, by simp; omega⟩, rfl⟩

-- The same for a call with data.
theorem appendPageImage_some {id : PageId} {bytes : Bytes}
    (h : appendPageImage w io id (some bytes) = (res, w')) :
    (∃ e, res = .error e ∧ w' = w ∧
      (w.isOpen = false ∨ bytes.length ≠ 4096 ∨ id = invalidId ∨ w.good = false)) ∨
    (∃ e n, res = .error e ∧ w.isOpen ∧ w.good ∧
      (n = 0 ∨ w.file.length + w.pending.length + 4128 ≤ maxFileSize) ∧
      w' = w.fail (w.pending ++ encodeRecord w.nextLsn id bytes) n) ∨
    (res = .ok w.nextLsn ∧ w.isOpen ∧ w.good ∧ w.file.length + w.pending.length + 4128 ≤ maxFileSize ∧
      w' = { w with pending := w.pending ++ encodeRecord w.nextLsn id bytes,
                    nextLsn := (w.nextLsn + 1) % 2 ^ 64 }) := by
  rcases appendPageImage_cases h with h | ⟨e, n, hr, ho, hg, _, _, hn, _, hw⟩ | ⟨hr, ho, hg, _, _, hs, hw⟩
  · exact .inl h
  · exact .inr <| .inl ⟨e, n, hr, ho, hg, hn, hw⟩
  · exact .inr <| .inr ⟨hr, ho, hg, hs, hw⟩

theorem flush_cases (h : flush w io = (res, w')) :
    (∃ e, res = .error e ∧ w' = w ∧ (w.isOpen = false ∨ w.good = false)) ∨
    (∃ e n, res = .error e ∧ w.isOpen ∧ w.good ∧ io ≠ .success ∧ w' = w.fail w.pending n) ∨
    (res = .ok () ∧ w.isOpen ∧ w.good ∧
      w' = { w with file := w.file ++ w.pending, pending := [],
                    durableLsn := (w.nextLsn + (2 ^ 64 - 1)) % 2 ^ 64 }) := by
  simp only [flush] at h
  split_ifs at h with h₁ h₂
  case neg =>
    simp at h₁ h₂
    cases io <;> cases h
    case success => exact .inr <| .inr ⟨rfl, h₁, h₂, rfl⟩
    case failure => exact .inr <| .inl ⟨_, _, rfl, h₁, h₂, nofun, rfl⟩
  all_goals cases h; exact .inl ⟨_, rfl, rfl, by simp_all⟩

theorem appendPageImage_ok {w : Wal} {id : PageId} (ho : w.isOpen) (hg : w.good) (hi : id ≠ invalidId)
    (hd : data.length = 4096) (hs : w.file.length + w.pending.length + 4128 ≤ maxFileSize) :
    w.appendPageImage .success id (some data) =
      (.ok w.nextLsn, { w with pending := w.pending ++ encodeRecord w.nextLsn id data,
                               nextLsn := (w.nextLsn + 1) % 2 ^ 64 }) := by
  have hl : ¬(w.file ++ w.pending ++ encodeRecord w.nextLsn id data).length > maxFileSize := by
    simp [hd] at hs ⊢
    omega
  simp only [appendPageImage, Option.getD_some, if_neg hl]
  simp [ho, hg, hi, hd]

theorem flush_ok {w : Wal} (ho : w.isOpen) (hg : w.good) :
    w.flush .success =
      (.ok (), { w with file := w.file ++ w.pending, pending := [],
                        durableLsn := (w.nextLsn + (2 ^ 64 - 1)) % 2 ^ 64 }) := by
  simp [flush, ho, hg]

-- The log that holds the given page images, numbered from `lsn` on.

def encodeLog (lsn : Nat) : List (PageId × PageData) → Bytes
  | []      => []
  | p :: ps => encodeRecord lsn p.fst p.snd.toBytes ++ encodeLog (lsn + 1) ps

def numbered (lsn : Nat) : List (PageId × PageData) → List ParsedRecord
  | []      => []
  | p :: ps => { type := 1, lsn, pageId := p.fst, payload := p.snd.toBytes } :: numbered (lsn + 1) ps

section

variable {ps qs : List (PageId × PageData)}

@[simp]
theorem length_encodeLog : (encodeLog lsn ps).length = 4128 * ps.length := by
  induction ps generalizing lsn <;> simp [encodeLog, *]
  omega

theorem encodeLog_append :
    encodeLog lsn (ps ++ qs) = encodeLog lsn ps ++ encodeLog (lsn + ps.length) qs := by
  induction ps generalizing lsn
  case nil => rfl
  case cons hi => simp [encodeLog, hi, Nat.add_assoc, Nat.add_comm 1]

theorem numbered_take : (numbered lsn ps).take n = numbered lsn (ps.take n) := by
  induction ps generalizing lsn n <;> cases n <;> simp [numbered, *]

@[simp]
theorem length_numbered : (numbered lsn ps).length = ps.length := by
  induction ps generalizing lsn <;> simp [numbered, *]

theorem map_lsn_numbered : (numbered lsn ps).map (·.lsn) = List.range' lsn ps.length := by
  induction ps generalizing lsn <;> simp [numbered, List.range'_succ, *]

theorem map_image_numbered : (numbered lsn ps).map ParsedRecord.image = ps := by
  induction ps generalizing lsn <;>
    simp [numbered, ParsedRecord.image, ParsedRecord.page, ByteBlock.ofBytes_toBytes, *]

theorem map_page_numbered :
    (numbered lsn ps).map ParsedRecord.page = ps.map fun p => { id := p.fst, data := p.snd } := by
  induction ps generalizing lsn <;> simp [numbered, ParsedRecord.page, ByteBlock.ofBytes_toBytes, *]

theorem increasing_numbered (h : last < lsn) : Increasing last (numbered lsn ps) := by
  induction ps generalizing last lsn
  case nil => trivial
  case cons hi => exact ⟨h, hi <| Nat.lt_succ_self _⟩

theorem lastLsn_numbered : lastLsn last (numbered (last + 1) ps) = last + ps.length := by
  induction ps generalizing last
  case nil => rfl
  case cons hi => simp [numbered, lastLsn, hi, Nat.add_assoc, Nat.add_comm 1]

theorem mem_numbered (h : r ∈ numbered lsn ps) : ∃ p ∈ ps, r.pageId = p.fst := by
  induction ps generalizing lsn
  case nil => cases h
  case cons p ps hi =>
    cases h
    case head => exact ⟨p, List.mem_cons_self, rfl⟩
    case tail h =>
      have ⟨p, hm, hp⟩ := hi h
      exact ⟨p, List.mem_cons_of_mem _ hm, hp⟩

theorem frames_encodeRecord {i : PageId} {data : Bytes} (hl : lsn < 2 ^ 64) (hi : i ≠ invalidId)
    (hd : data.length = 4096) :
    Frames reader [{ type := 1, lsn, pageId := i, payload := data }] (encodeRecord lsn i data) := by
  rw [← List.append_nil (encodeRecord lsn i data)]
  apply Frames.cons
  case len => simp [hd]
  case read =>
    rw [reader_read]
    exact readRecord_encodeRecord hl hi hd
  case fs => exact .nil

theorem frames_encodeLog (hv : ∀ p ∈ ps, p.fst ≠ invalidId) (hl : lsn + ps.length ≤ 2 ^ 64) :
    Frames reader (numbered lsn ps) (encodeLog lsn ps) := by
  induction ps generalizing lsn
  case nil => exact .nil
  case cons p ps hi =>
    have hp := hv p List.mem_cons_self
    simp only [List.length_cons] at hl
    have hr := frames_encodeRecord (lt_of_lt_of_le (by omega : lsn < lsn + (ps.length + 1)) hl) hp
      (ByteBlock.length_toBytes (d := p.snd))
    exact hr.append <| hi (fun p h => hv p <| List.mem_cons_of_mem _ h) <| by omega

-- A log that was cut after `n` bytes has the images that lie within them.
theorem all_take_encodeLog (hv : ∀ p ∈ ps, p.fst ≠ invalidId) (hl : ps.length < 2 ^ 64)
    (hn : n ≤ 4128 * ps.length) :
    ∃ left, reader.all ((encodeLog 1 ps).take n) = (numbered 1 (ps.take (n / 4128)), .tail left) ∧
      left.length = n % 4128 := by
  have hf : Frames reader (numbered 1 ps) (encodeLog 1 ps) := frames_encodeLog hv (by omega)
  have ⟨s₁, s₂, hs, hf, hl, hr⟩ := hf.take (n := n) (by simpa using hn)
  exact ⟨s₂, by rw [hs, hf.all_append, reader.all_done hr, numbered_take]; simp, hl⟩

end

-- Sessions on one log file: in each the log is opened, page images are appended and flushed in any order, and
-- the log is closed. An image is in the log once a flush or a close after its append has succeeded.

inductive LogCall
  | append (id : PageId) (data : PageData)
  | flush

structure LogSession where
  wal     : Wal
  done    : List (PageId × PageData) := []
  waiting : List (PageId × PageData) := []

namespace LogSession

def step (s : LogSession) : LogCall → LogSession
  | .append id data =>
    match s.wal.appendPageImage .success id (some data.toBytes) with
    | (.error _, wal) => { s with wal }
    | (.ok _, wal)    => { s with wal, waiting := s.waiting ++ [(id, data)] }
  | .flush          =>
    match s.wal.flush .success with
    | (.error _, wal) => { s with wal }
    | (.ok (), wal)   => { wal, done := s.done ++ s.waiting }

def run (s : LogSession) : List LogCall → LogSession
  | []      => s
  | c :: cs => (s.step c).run cs

def close (s : LogSession) : List (PageId × PageData) × Bytes :=
  match s.wal.close .success with
  | (.error _, wal) => (s.done, wal.file)
  | (.ok (), wal)   => (s.done ++ s.waiting, wal.file)

end LogSession

def session (file : Bytes) (calls : List LogCall) : Except Error (List (PageId × PageData) × Bytes) := do
  let wal ← Wal.open file
  return (LogSession.run { wal } calls).close

def sessions (file : Bytes) : List (List LogCall) → Except Error (List (PageId × PageData) × Bytes)
  | []        => return ([], file)
  | cs :: css => do
    let (done, file) ← session file cs
    let (dones, file) ← sessions file css
    return (done ++ dones, file)

-- The images with a valid id that the calls append.
def images : List LogCall → List (PageId × PageData)
  | []                    => []
  | .flush :: cs          => images cs
  | .append id data :: cs => if id = invalidId then images cs else (id, data) :: images cs

theorem images_append (cs cs' : List LogCall) : images (cs ++ cs') = images cs ++ images cs' := by
  induction cs
  case nil => rfl
  case cons c cs hi =>
    cases c
    case flush => exact hi
    case append =>
      simp only [List.cons_append, images, hi]
      split <;> rfl

section

variable {ps : List (PageId × PageData)} (hv : ∀ p ∈ ps, p.fst ≠ invalidId)
  (hf : ps.length ≤ maxFileSize / recordSize) (hn : n ≤ (encodeLog 1 ps).length)

include hv hf hn

theorem open_take :
    ∃ w, Wal.open ((encodeLog 1 ps).take n) = .ok w ∧ w.file = (encodeLog 1 ps).take n ∧
      w.pending = [] ∧ w.isOpen ∧ w.good ∧ w.nextLsn = n / recordSize + 1 := by
  simp at hf hn
  have ⟨left, ha, _⟩ := all_take_encodeLog hv (by omega) hn
  have hk : (ps.take (n / 4128)).length = n / 4128 := by simp; omega
  have hl : lastLsn 0 (numbered 1 (ps.take (n / 4128))) = n / 4128 := by
    rw [lastLsn_numbered, hk, Nat.zero_add]
  refine ⟨_, open_eq_ok_iff.mpr ⟨?_, ⟨left, ?_⟩, rfl⟩, rfl, rfl, rfl, rfl, ?_⟩ <;> simp only [ha, hl]
  · exact increasing_numbered Nat.one_pos
  · simp
    omega

theorem recover_take {w : Wal} (ho : w.isOpen) (hw : w.file = (encodeLog 1 ps).take n)
    (he : ∀ p ∈ ps.take (n / recordSize), storage.pageExists p.fst) :
    w.recover storage =
      ⟨.ok ⟨n / recordSize, n / recordSize, n % recordSize ≠ 0⟩,
       storage.replay (ps.take (n / recordSize)),
       (ps.take (n / recordSize)).map fun p => { id := p.fst, data := p.snd }⟩ := by
  simp at hf hn he
  have ⟨left, ha, ht⟩ := all_take_encodeLog hv (by omega) hn
  have hk : (ps.take (n / 4128)).length = n / 4128 := by simp; omega
  have hl : lastLsn 0 (numbered 1 (ps.take (n / 4128))) = n / 4128 := by
    rw [lastLsn_numbered, hk, Nat.zero_add]
  have hp : ∀ r ∈ numbered 1 (ps.take (n / 4128)), storage.pageExists r.pageId := by
    intro r hr
    have ⟨p, hm, hp⟩ := mem_numbered hr
    exact hp ▸ he _ _ hm
  rw [recover_of_accepted ho (hw ▸ ha) (increasing_numbered Nat.one_pos) hp, hl, length_numbered, hk,
    map_image_numbered, map_page_numbered]
  have hb : (!left.isEmpty) = decide (n % 4128 ≠ 0) := by
    rw [← ht]
    cases left <;> simp
  simp [hb]

end

-- A flush follows each append.
inductive Flushed : List LogCall → Prop
  | nil : Flushed []
  | append (i : PageId) (data : PageData) (h : Flushed cs) : Flushed (.append i data :: .flush :: cs)

-- Which images are in the log of a list of sessions. When they do not fit into a file, those that waited for a flush
-- are lost.
structure Logged (css : List (List LogCall)) (ps : List (PageId × PageData)) : Prop where
  sublist : ps.Sublist (images css.flatten)
  all     : (images css.flatten).length ≤ maxFileSize / recordSize → ps = images css.flatten
  flushed : (∀ cs ∈ css, Flushed cs) → ps = (images css.flatten).take (maxFileSize / recordSize)

-- What holds of a log object that has written `ps` and keeps `qs` for the next flush.
structure Holds (w : Wal) (ps qs : List (PageId × PageData)) : Prop where
  file    : w.file = encodeLog 1 ps
  pending : w.pending = encodeLog (1 + ps.length) qs
  isOpen  : w.isOpen
  nextLsn : w.nextLsn = (ps ++ qs).length + 1
  good    : w.good
  valid   : ∀ p ∈ ps ++ qs, p.fst ≠ invalidId
  fits    : (ps ++ qs).length ≤ maxFileSize / recordSize

namespace Holds

theorem of_open (hv : ∀ p ∈ ps, p.fst ≠ invalidId) (hf : ps.length ≤ maxFileSize / recordSize) :
    ∃ w, Wal.open (encodeLog 1 ps) = .ok w ∧ Holds w ps [] := by
  have ⟨w, ho, h₁, h₂, h₃, h₄, h₅⟩ := open_take hv hf le_rfl
  rw [List.take_length] at ho h₁
  refine ⟨w, ho, h₁, h₂, h₃, ?_, h₄, by rwa [List.append_nil], by rwa [List.append_nil]⟩
  simpa using h₅

variable {w : Wal} {ps qs : List (PageId × PageData)} (hw : Holds w ps qs)

include hw

theorem length_file : w.file.length + w.pending.length = recordSize * (ps ++ qs).length := by
  simp [hw.file, hw.pending, Nat.mul_add]

theorem append (hp : p.fst ≠ invalidId) (hr : (ps ++ qs).length < maxFileSize / recordSize) :
    ∃ l w', w.appendPageImage .success p.fst (some p.snd.toBytes) = (.ok l, w') ∧ Holds w' ps (qs ++ [p]) := by
  have hl := hw.length_file
  have hs : w.file.length + w.pending.length + 4128 ≤ maxFileSize := by
    simp at hl hr ⊢
    omega
  refine ⟨_, _, appendPageImage_ok hw.isOpen hw.good hp (by simp) hs, ?_⟩
  constructor
  case file => exact hw.file
  case pending =>
    have hnext : w.nextLsn = 1 + ps.length + qs.length := by
      rw [hw.nextLsn, List.length_append]
      omega
    simp only [hw.pending, hnext, encodeLog_append, encodeLog, List.append_nil]
  case isOpen => exact hw.isOpen
  case nextLsn =>
    simp [hw.nextLsn] at hr ⊢
    omega
  case good => exact hw.good
  case valid =>
    intro q hq
    rw [← List.append_assoc] at hq
    rcases List.mem_append.mp hq with h | h
    · exact hw.valid q h
    · exact List.mem_singleton.mp h ▸ hp
  case fits =>
    rw [← List.append_assoc, List.length_append]
    exact hr

theorem flush : ∃ w', w.flush .success = (.ok (), w') ∧ Holds w' (ps ++ qs) [] := by
  refine ⟨_, flush_ok hw.isOpen hw.good, ?_⟩
  constructor
  case file => rw [hw.file, hw.pending, ← encodeLog_append]
  case pending => rfl
  case isOpen => exact hw.isOpen
  case nextLsn => simpa using hw.nextLsn
  case good => exact hw.good
  case valid => simpa using hw.valid
  case fits => simpa using hw.fits

theorem append_flush (hp : p.fst ≠ invalidId) (hr : (ps ++ qs).length < maxFileSize / recordSize) :
    ∃ l w₁ w₂, w.appendPageImage .success p.fst (some p.snd.toBytes) = (.ok l, w₁) ∧
      w₁.flush .success = (.ok (), w₂) ∧ Holds w₂ (ps ++ (qs ++ [p])) [] := by
  have ⟨l, w₁, ha, hw₁⟩ := hw.append hp hr
  have ⟨w₂, hf, hw₂⟩ := hw₁.flush
  exact ⟨l, w₁, w₂, ha, hf, hw₂⟩

end Holds

-- What holds of a session on a log that had the images `old`, after calls that append the images `seen`. The stream
-- fails only when they do not fit into a file.
structure LogSession.Holds (s : LogSession) (old seen : List (PageId × PageData)) : Prop where
  file   : s.wal.file = encodeLog 1 (old ++ s.done)
  isOpen : s.wal.isOpen
  valid  : ∀ p ∈ old ++ s.done, p.fst ≠ invalidId
  fits   : (old ++ s.done).length ≤ maxFileSize / recordSize
  subs   : (s.done ++ s.waiting).Sublist seen
  good   : s.wal.good → s.wal.Holds (old ++ s.done) s.waiting ∧ s.done ++ s.waiting = seen
  bad    : s.wal.good = false → s.wal.pending = [] ∧ maxFileSize / recordSize < (old ++ seen).length

namespace LogSession.Holds

theorem of_holds {w : Wal} {ps qs : List (PageId × PageData)} (h : w.Holds (old ++ ps) qs) :
    LogSession.Holds { wal := w, done := ps, waiting := qs } old (ps ++ qs) := by
  refine ⟨h.file, h.isOpen, fun p hp => h.valid p (List.mem_append_left _ hp), ?_, .refl _, fun _ => ⟨h, rfl⟩, ?_⟩
  · have hf := h.fits
    rw [List.length_append] at hf
    exact Nat.le_of_add_right_le hf
  · rw [h.good]
    exact nofun

variable {s : LogSession} {old seen : List (PageId × PageData)} (h : s.Holds old seen)

include h

theorem append_invalid (data : PageData) : (s.step (.append invalidId data)).Holds old seen := by
  rw [step]
  rcases ha : s.wal.appendPageImage .success invalidId (some data.toBytes) with ⟨e | lsn, w⟩
  · rcases appendPageImage_cases ha with ⟨_, _, hw, _⟩ | ⟨_, _, _, _, _, hi, _⟩ | ⟨hr, _⟩
    · exact hw ▸ h
    · exact absurd rfl hi
    · cases hr
  · rcases appendPageImage_cases ha with ⟨_, hr, _⟩ | ⟨_, _, hr, _⟩ | ⟨_, _, _, hi, _⟩
    · cases hr
    · cases hr
    · exact absurd rfl hi

-- An image that does not fit ends the stream, and those that wait for a flush are lost.
theorem append_failed {id : PageId} {data : PageData} (hi : id ≠ invalidId)
    (ha : s.wal.appendPageImage .success id (some data.toBytes) = (.error e, w)) :
    LogSession.Holds { s with wal := w } old (seen ++ [(id, data)]) := by
  have hsubs := h.subs.trans (List.sublist_append_left seen [(id, data)])
  rcases appendPageImage_cases ha with ⟨_, _, hw, hc⟩ | ⟨_, n, _, _, hg, _, _, _, hn, hw⟩ | ⟨hr, _⟩
  · have hb : s.wal.good = false := by
      rcases hc with hc | hc | hc | hc
      · cases h.isOpen.symm.trans hc
      · exact absurd ByteBlock.length_toBytes (Option.getD_some ▸ hc)
      · exact absurd hc hi
      · exact hc
    obtain ⟨hp, hlong⟩ := h.bad hb
    subst hw
    refine ⟨h.file, h.isOpen, h.valid, h.fits, hsubs, fun hg => absurd hg (by simp [hb]), fun _ => ⟨hp, ?_⟩⟩
    simp at hlong ⊢
    omega
  · obtain ⟨rfl, hlong⟩ := hn rfl
    obtain ⟨hw', hseen⟩ := h.good hg
    rw [hw'.length_file] at hlong
    subst hw
    refine ⟨by simpa [fail] using h.file, h.isOpen, h.valid, h.fits, hsubs, nofun, fun _ => ⟨rfl, ?_⟩⟩
    rw [← hseen]
    simp at hlong ⊢
    omega
  · cases hr

theorem append {id : PageId} (hi : id ≠ invalidId) (data : PageData) :
    (s.step (.append id data)).Holds old (seen ++ [(id, data)]) := by
  rw [step]
  rcases ha : s.wal.appendPageImage .success id (some data.toBytes) with ⟨e | lsn, w⟩
  · exact h.append_failed hi ha
  · rcases appendPageImage_cases ha with ⟨_, hr, _⟩ | ⟨_, _, hr, _⟩ | ⟨_, _, hg, _, _, hs, _⟩
    · cases hr
    · cases hr
    · obtain ⟨hw, rfl⟩ := h.good hg
      have hroom : (old ++ s.done ++ s.waiting).length < maxFileSize / recordSize := by
        rw [hw.length_file] at hs
        simp at hs ⊢
        omega
      obtain ⟨l, w', ha', hw'⟩ := hw.append (p := (id, data)) hi hroom
      cases ha.symm.trans ha'
      rw [List.append_assoc]
      exact of_holds hw'

theorem flush_bad (hb : s.wal.good = false) :
    s.wal.flush .success = (.error ⟨.ioError, "wal: flush failed"⟩, s.wal) := by
  simp [Wal.flush, h.isOpen, hb]

theorem flush : (s.step .flush).Holds old seen := by
  rw [step]
  cases hg : s.wal.good
  case true =>
    obtain ⟨hw, rfl⟩ := h.good hg
    obtain ⟨w', hf, hw'⟩ := hw.flush
    rw [hf]
    rw [List.append_assoc] at hw'
    simpa using of_holds hw'
  case false =>
    rw [h.flush_bad hg]
    exact h

theorem close : ∃ done, s.close = (done, encodeLog 1 (old ++ done)) ∧ (∀ p ∈ old ++ done, p.fst ≠ invalidId) ∧
    (old ++ done).length ≤ maxFileSize / recordSize ∧ done.Sublist seen ∧
    ((old ++ seen).length ≤ maxFileSize / recordSize → done = seen) := by
  cases hg : s.wal.good
  case true =>
    obtain ⟨hw, hseen⟩ := h.good hg
    obtain ⟨w', hf, hw'⟩ := hw.flush
    rw [List.append_assoc] at hw'
    refine ⟨s.done ++ s.waiting, ?_, by simpa using hw'.valid, by simpa using hw'.fits, h.subs, fun _ => hseen⟩
    simp only [LogSession.close, Wal.close, h.isOpen, hf, Bool.not_true, Bool.false_eq_true, if_false, hw'.file]
  case false =>
    have hlong := (h.bad hg).right
    refine ⟨s.done, ?_, h.valid, h.fits, (List.sublist_append_left _ _).trans h.subs,
      fun hle => absurd hle (Nat.not_le.mpr hlong)⟩
    simp [LogSession.close, Wal.close, Wal.flush, h.isOpen, hg, h.file]

end LogSession.Holds

theorem LogSession.Holds.run {s : LogSession} (h : s.Holds old seen) (cs : List LogCall) :
    (s.run cs).Holds old (seen ++ images cs) := by
  induction cs generalizing s seen
  case nil => rwa [images, List.append_nil]
  case cons c cs hi =>
    cases c
    case flush => exact hi h.flush
    case append id data =>
      rw [images]
      split
      case isTrue he => exact hi (he ▸ h.append_invalid data)
      case isFalse he =>
        rw [List.append_cons]
        exact hi (h.append he data)

-- With a flush after each append nothing waits, and the log gets as many images as fit.

def LogSession.Prompt (s : LogSession) (old seen : List (PageId × PageData)) : Prop :=
  s.waiting = [] ∧ s.done = seen.take (maxFileSize / recordSize - old.length)

theorem LogSession.step_append_bad {s : LogSession} (hb : (s.step (.append i data)).wal.good = false) :
    (s.step (.append i data)).done = s.done ∧ (s.step (.append i data)).waiting = s.waiting := by
  rw [step] at hb ⊢
  rcases ha : s.wal.appendPageImage .success i (some data.toBytes) with ⟨e | lsn, w⟩
  · exact ⟨rfl, rfl⟩
  · rcases appendPageImage_cases ha with ⟨_, hr, _⟩ | ⟨_, _, hr, _⟩ | ⟨_, _, hg, _, _, _, rfl⟩
    · cases hr
    · cases hr
    · rw [ha] at hb
      cases hg.symm.trans hb

namespace LogSession.Holds

variable {s : LogSession} {old seen : List (PageId × PageData)}

theorem prompt_append (h : s.Holds old seen) (hp : s.Prompt old seen) (hi : i ≠ invalidId)
    (hb : (s.step (.append i data)).wal.good = false) :
    (s.step (.append i data)).Prompt old (seen ++ [(i, data)]) := by
  obtain ⟨hdone, hwaiting⟩ := step_append_bad hb
  obtain ⟨_, hlong⟩ := (h.append hi data).bad hb
  refine ⟨hwaiting.trans hp.left, ?_⟩
  simp only [List.length_append, List.length_singleton] at hlong
  rw [hdone, hp.right, List.take_append_of_le_length (by omega)]

theorem prompt_flush (h : s.Holds old seen) (hb : s.wal.good = false → s.Prompt old seen) :
    (s.step .flush).Prompt old seen := by
  rw [step]
  cases hg : s.wal.good
  case true =>
    obtain ⟨hw, hseen⟩ := h.good hg
    have hfits := hw.fits
    rw [List.append_assoc, hseen, List.length_append] at hfits
    obtain ⟨w', hf, _⟩ := hw.flush
    rw [hf]
    exact ⟨rfl, by rw [hseen, List.take_of_length_le (by omega)]⟩
  case false =>
    rw [h.flush_bad hg]
    exact hb hg

theorem prompt_run (h : s.Holds old seen) (hp : s.Prompt old seen) (hf : Flushed cs) :
    (s.run cs).Prompt old (seen ++ images cs) := by
  induction hf generalizing s seen
  case nil => rwa [images, List.append_nil]
  case append cs i data _ ih =>
    rw [images]
    split
    case isTrue he =>
      subst he
      have h' := h.append_invalid data
      refine ih h'.flush (h'.prompt_flush fun hb => ?_)
      obtain ⟨hdone, hwaiting⟩ := step_append_bad hb
      exact ⟨hwaiting.trans hp.left, hdone.trans hp.right⟩
    case isFalse he =>
      have h' := h.append he data
      rw [List.append_cons]
      exact ih h'.flush (h'.prompt_flush (h.prompt_append hp he))

end LogSession.Holds

theorem LogSession.Prompt.close {s : LogSession} (h : s.Prompt old seen) :
    s.close.fst = seen.take (maxFileSize / recordSize - old.length) := by
  rw [LogSession.close]
  rcases s.wal.close .success with ⟨e | _, w⟩
  · exact h.right
  · change s.done ++ s.waiting = _
    rw [h.left, List.append_nil, h.right]

theorem sessions_spec (css : List (List LogCall)) {old : List (PageId × PageData)}
    (hv : ∀ p ∈ old, p.fst ≠ invalidId) (hf : old.length ≤ maxFileSize / recordSize) :
    ∃ done, sessions (encodeLog 1 old) css = .ok (done, encodeLog 1 (old ++ done)) ∧
      (∀ p ∈ old ++ done, p.fst ≠ invalidId) ∧ (old ++ done).length ≤ maxFileSize / recordSize ∧
      done.Sublist (images css.flatten) ∧
      ((old ++ images css.flatten).length ≤ maxFileSize / recordSize → done = images css.flatten) ∧
      ((∀ cs ∈ css, Flushed cs) → done = (images css.flatten).take (maxFileSize / recordSize - old.length)) := by
  induction css generalizing old
  case nil =>
    exact ⟨[], by simp [sessions, pure, Except.pure], by simpa using hv, by simpa using hf, .refl _, fun _ => rfl,
      fun _ => List.take_nil.symm⟩
  case cons cs css hi =>
    obtain ⟨w, ho, hw⟩ := Holds.of_open hv hf
    rw [← List.append_nil old] at hw
    have hnew : LogSession.Holds { wal := w } old [] := .of_holds hw
    obtain ⟨done, hclose, hv₁, hf₁, hsub₁, hall₁⟩ := (hnew.run cs).close
    rw [List.nil_append] at hsub₁ hall₁
    obtain ⟨dones, hs, hv₂, hf₂, hsub₂, hall₂, hflushed₂⟩ := hi hv₁ hf₁
    rw [List.append_assoc] at hs hv₂ hf₂
    rw [List.flatten_cons, images_append]
    refine ⟨done ++ dones, ?_, hv₂, hf₂, hsub₁.append hsub₂, fun hle => ?_, fun hflushed => ?_⟩
    · simp [sessions, session, ho, hclose, hs, Bind.bind, Except.bind, pure, Except.pure]
    · have hdone : done = images cs := hall₁ (by simp at hle ⊢; omega)
      rw [hdone] at hall₂ ⊢
      rw [hall₂ (by simpa using hle)]
    · obtain ⟨hcs, hcss⟩ := List.forall_mem_cons.mp hflushed
      have hprompt := (hnew.prompt_run ⟨rfl, List.take_nil.symm⟩ hcs).close
      rw [hclose, List.nil_append] at hprompt
      change done = _ at hprompt
      rw [hflushed₂ hcss, List.take_append, ← hprompt]
      congr 2
      rw [List.length_append, hprompt, List.length_take]
      omega

theorem sessions_logged (css : List (List LogCall)) :
    ∃ ps, sessions [] css = .ok (ps, encodeLog 1 ps) ∧ (∀ p ∈ ps, p.fst ≠ invalidId) ∧
      ps.length ≤ maxFileSize / recordSize ∧ Logged css ps := by
  obtain ⟨ps, hs, hv, hf, hsub, hall, hflushed⟩ := sessions_spec css (List.forall_mem_nil _) (Nat.zero_le _)
  exact ⟨ps, hs, hv, hf, hsub, hall, hflushed⟩

-- However a log is cut, it has the records that lie within the cut. They were appended in one or more sessions,
-- with a flush after each of them, after several of them, or only at the close.
theorem recover_cut (css : List (List LogCall)) :
    ∃ ps file, sessions [] css = .ok (ps, file) ∧ Logged css ps ∧
      file.length = recordSize * ps.length ∧ ∀ n ≤ file.length, ∃ w,
        Wal.open (file.take n) = .ok w ∧ w.nextLsn = n / recordSize + 1 ∧
        (reader.all (file.take n)).fst.map (·.lsn) = List.range' 1 (n / recordSize) ∧
        ∀ storage, (∀ p ∈ ps, storage.pageExists p.fst) →
          w.recover storage =
            ⟨.ok ⟨n / recordSize, n / recordSize, n % recordSize ≠ 0⟩,
             storage.replay (ps.take (n / recordSize)),
             (ps.take (n / recordSize)).map fun p => { id := p.fst, data := p.snd }⟩ := by
  have ⟨ps, hs, hv, hf, hlogged⟩ := sessions_logged css
  refine ⟨ps, _, hs, hlogged, by simp, fun n hn => ?_⟩
  have ⟨w, ho, hw, _, hp, _, hl⟩ := open_take hv hf hn
  refine ⟨w, ho, hl, ?_, fun storage he => ?_⟩
  · simp at hf hn
    have ⟨_, ha, _⟩ := all_take_encodeLog hv (by omega) hn
    have hk : min (n / 4128) ps.length = n / 4128 := by omega
    simp [ha, map_lsn_numbered, hk]
  · exact recover_take hv hf hn hp hw fun p h => he p <| List.mem_of_mem_take h

-- Two images that are flushed together, one that is only flushed by the close of its session, and a cut inside of
-- the third record.
theorem recover_cut_three :
    let css : List (List LogCall) :=
      [[.append 0 zeroPage, .append 1 (ByteBlock.fill 4096 7), .flush], [.append 0 (ByteBlock.fill 4096 9)]]
    ∃ file w, sessions [] css =
        .ok ([(0, zeroPage), (1, ByteBlock.fill 4096 7), (0, ByteBlock.fill 4096 9)], file) ∧
      Wal.open (file.take 9000) = .ok w ∧ w.nextLsn = 3 ∧
      w.recover ⟨[ByteBlock.fill 4096 3, zeroPage], by decide⟩ =
        ⟨.ok ⟨2, 2, true⟩, ⟨[zeroPage, ByteBlock.fill 4096 7], by decide⟩,
         [{ id := 0, data := zeroPage }, { id := 1, data := ByteBlock.fill 4096 7 }]⟩ := by
  intro css
  have ⟨ps, file, hs, hlogged, hl, h⟩ := recover_cut css
  have hps : ps = [(0, zeroPage), (1, ByteBlock.fill 4096 7), (0, ByteBlock.fill 4096 9)] :=
    hlogged.all (by decide)
  subst hps
  have ⟨w, ho, hn, _, hr⟩ := h 9000 (by simp [hl])
  have hr := hr ⟨[ByteBlock.fill 4096 3, zeroPage], by decide⟩ <| by
    simp [PageStorage.pageExists, PageStorage.numPages]
  exact ⟨file, w, hs, ho, hn, hr⟩

end NexusDb.Wal
