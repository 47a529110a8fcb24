import NexusDb.Storage.Disk

namespace NexusDb

namespace Files

variable {f : Files}

@[simp]
theorem after_nil : f.after [] = f :=
  rfl

@[simp]
theorem after_cons : f.after (e :: es) = (e.apply f).after es :=
  rfl

@[simp]
theorem after_append : f.after (es ++ es') = (f.after es).after es' :=
  List.foldl_append

end Files

theorem PageStorage.overwrite_success {s : PageStorage} {i : PageId} :
    s.overwrite i d .success = s.setPage i d := by
  rw [overwrite]
  split
  case h_1 h =>
    ext1
    exact (List.set_eq_of_length_le <| List.getElem?_eq_none_iff.mp h).symm
  case h_2 => rfl

theorem PageStorage.overwrite_nothing {s : PageStorage} {i : PageId} : s.overwrite i d (.failure 0) = s := by
  rw [overwrite]
  split
  case h_1 => rfl
  case h_2 old h =>
    have hleave : IoResult.leave (.failure 0) old d = old := by
      funext i
      simp [IoResult.leave]
    have ⟨hlt, he⟩ := List.getElem?_eq_some_iff.mp h
    ext1
    rw [hleave, ← he]
    exact List.set_getElem_self hlt

namespace PageStorage

variable {s : PageStorage} {i j : PageId}

theorem page?_overwrite :
    (s.overwrite i d io).page? j = if j = i then (s.page? i).map (io.leave · d) else s.page? j := by
  rw [overwrite]
  split
  case h_1 h =>
    split
    case isTrue hj => rw [hj, h]; rfl
    case isFalse => rfl
  case h_2 h =>
    rw [page?_setPage (h ▸ rfl), h]
    simp [eq_comm]

theorem numPages_overwrite : (s.overwrite i d io).numPages = s.numPages := by
  rw [overwrite]
  split <;> simp

theorem allocatePage_cases (h : s.allocatePage = (res, s')) :
    (res = .error exhausted ∧ s' = s ∧ s.numPages = invalidId) ∨
    (res = .ok { id := s.numPages } ∧ s.numPages ≠ invalidId ∧ s'.pages = s.pages ++ [zeroPage]) := by
  rw [allocatePage] at h
  split at h <;> cases h
  case isTrue hn => exact .inl ⟨rfl, rfl, hn⟩
  case isFalse hn => exact .inr ⟨rfl, hn, rfl⟩

end PageStorage

namespace Disk

variable {d d' : Disk} {i j : PageId}

theorem ok_emit : (d.emit e).Ok ↔ d.Ok ∧ e.failed = false := by
  simp [Ok, emit, or_imp, forall_and]

-- What the calls on a disk can do.

theorem countPages_cases (h : d.countPages = (res, d')) :
    (∃ e io good, res = .error e ∧ d' = { d with io, good }.emit .fail) ∨
    (res = .ok d.storage.numPages ∧ d' = { d with io := d.io.tail, good := true }) := by
  rw [countPages] at h
  split at h
  case isTrue => cases h; exact .inl ⟨_, _, _, rfl, rfl⟩
  case isFalse =>
    rw [nextIo] at h
    split at h <;> cases h
    case h_1 hn =>
      have ⟨_, hd⟩ := Prod.mk.inj hn
      subst hd
      exact .inr ⟨rfl, rfl⟩
    case h_2 hn =>
      have ⟨_, hd⟩ := Prod.mk.inj hn
      subst hd
      exact .inl ⟨_, _, _, rfl, rfl⟩

theorem readPage_cases (h : d.readPage i = (res, d')) :
    (∃ e, res = .error e ∧ d.storage.readPage i = .error e ∧ d' = { d with good := true }) ∨
    (∃ e io good, res = .error e ∧ d' = { d with io, good }.emit .fail) ∨
    (∃ p, res = .ok p ∧ d.storage.readPage i = .ok p ∧ d' = { d with io := d.io.tail, good := true }) := by
  rw [readPage] at h
  split at h
  case isTrue => cases h; exact .inr <| .inl ⟨_, _, _, rfl, rfl⟩
  case isFalse =>
    split at h
    case h_1 hr => cases h; exact .inl ⟨_, rfl, hr, rfl⟩
    case h_2 hr =>
      rw [nextIo] at h
      split at h <;> cases h
      case h_1 hn =>
        have ⟨_, hd⟩ := Prod.mk.inj hn
        subst hd
        exact .inr <| .inr ⟨_, rfl, hr, rfl⟩
      case h_2 hn =>
        have ⟨_, hd⟩ := Prod.mk.inj hn
        subst hd
        exact .inr <| .inl ⟨_, _, _, rfl, rfl⟩

theorem writePage_cases (h : d.writePage w p = (res, d')) :
    (∃ e good, res = .error e ∧ d' = { d with good } ∧ ¬p.id < d.storage.numPages) ∨
    (∃ e good, res = .error e ∧ d' = { d with good }.emit .fail ∧ ¬p.id < d.storage.numPages) ∨
    (∃ io rest good, p.id < d.storage.numPages ∧ (res = .ok () ↔ io = .success) ∧
      d' = { d with io := rest, good, storage := d.storage.overwrite p.id p.data io }.emit
        (.overwrite w p.id p.data io)) := by
  rw [writePage] at h
  split at h
  case h_1 hw =>
    obtain ⟨_, _, _, hn⟩ := (PageStorage.writePage_cases hw).resolve_right (by simp)
    split at h
    case isTrue => cases h; exact .inl ⟨_, _, rfl, rfl, hn⟩
    case isFalse =>
      split at h <;> cases h
      case isTrue => exact .inr <| .inl ⟨_, _, rfl, rfl, hn⟩
      case isFalse => exact .inl ⟨_, _, rfl, rfl, hn⟩
  case h_2 hw =>
    obtain ⟨_, _, hn⟩ := (PageStorage.writePage_cases hw).resolve_left (by simp)
    refine .inr <| .inr ?_
    split at h
    case isTrue =>
      cases h
      exact ⟨.failure 0, d.io, _, hn, ⟨by rintro ⟨⟩, by rintro ⟨⟩⟩, by rw [PageStorage.overwrite_nothing]⟩
    case isFalse =>
      rw [nextIo] at h
      refine ⟨d.io.headD .success, d.io.tail, ?_⟩
      simp only at h
      split at h <;> cases h
      case h_1 hio => rw [hio]; exact ⟨_, hn, ⟨fun _ => rfl, fun _ => rfl⟩, rfl⟩
      case h_2 hio => rw [hio]; exact ⟨_, hn, ⟨by rintro ⟨⟩, by rintro ⟨⟩⟩, rfl⟩

theorem allocatePage_cases (h : d.allocatePage = (res, d')) :
    (res = .error PageStorage.exhausted ∧ d' = { d with good := true } ∧ d.storage.numPages = invalidId) ∨
    (∃ e io torn good, res = .error e ∧ d' = { d with io, torn, good }.emit .fail) ∨
    (∃ s, res = .ok { id := d.storage.numPages } ∧ d.storage.numPages ≠ invalidId ∧
      d.storage.allocatePage.snd = s ∧ s.pages = d.storage.pages ++ [zeroPage] ∧
      d' = { d with io := d.io.tail, good := true, storage := s }.emit .extend) := by
  rw [allocatePage] at h
  split at h
  case isTrue => cases h; exact .inr <| .inl ⟨_, _, _, _, rfl, rfl⟩
  case isFalse =>
    split at h
    case h_1 ha =>
      cases h
      rcases PageStorage.allocatePage_cases ha with ⟨hr, _, hn⟩ | ⟨hr, _⟩ <;> cases hr
      exact .inl ⟨rfl, rfl, hn⟩
    case h_2 ha =>
      rcases PageStorage.allocatePage_cases ha with ⟨hr, _⟩ | ⟨hr, hn, hs⟩ <;> cases hr
      rw [nextIo] at h
      split at h <;> cases h
      case h_1 hio =>
        have ⟨_, hd⟩ := Prod.mk.inj hio
        subst hd
        exact .inr <| .inr ⟨_, rfl, hn, by rw [ha], hs, rfl⟩
      case h_2 hio =>
        have ⟨_, hd⟩ := Prod.mk.inj hio
        subst hd
        exact .inr <| .inl ⟨_, _, _, _, rfl, rfl⟩

theorem beforePageWrite_cases (h : d.beforePageWrite p = (res, d')) :
    (res = .ok () ∧ d' = d ∧ d.wal = none) ∨
    (∃ w w' io₁ io₂, d.wal = some w ∧ w.beforePageWrite io₁ io₂ p = (res, w') ∧
      d' = { d with io := d.io.tail.tail, wal := some w' }.emit
        (.log p.id (w'.file.drop w.file.length) res.isOk)) := by
  rw [beforePageWrite] at h
  split at h
  case h_1 hw => cases h; exact .inl ⟨rfl, rfl, hw⟩
  case h_2 w hw => cases h; exact .inr ⟨w, _, _, _, hw, rfl, rfl⟩

-- No call on the files is going to fail.
structure Smooth (d : Disk) : Prop where
  io   : d.io = []
  torn : d.torn = false
  good : d.good = true

namespace Smooth

variable {d : Disk}

theorem nextIo (h : Smooth d) : d.nextIo = (.success, d) := by
  have ⟨_, _, _, _, _, _⟩ := d
  cases h.io
  rfl

theorem cleared (h : Smooth d) : { d with good := true } = d := by
  have ⟨_, _, _, _, _, _⟩ := d
  cases h.good
  rfl

theorem not_torn (h : Smooth d) : ¬d.torn := by
  simp [h.torn]

theorem close (h : Smooth d) : d.close = .ok () :=
  if_pos h.good

theorem countPages (h : Smooth d) : d.countPages = (.ok d.storage.numPages, d) := by
  simp only [Disk.countPages, if_neg h.not_torn, h.nextIo, h.cleared]

theorem readPage (h : Smooth d) : d.readPage j = (d.storage.readPage j, d) := by
  simp only [Disk.readPage, if_neg h.not_torn, h.nextIo, h.cleared]
  split <;> simp only [*]

-- An event with its change of the storage.
theorem emit (h : Smooth d) : Smooth ({ d with storage := s }.emit e) :=
  ⟨h.io, h.torn, h.good⟩

theorem allocatePage (h : Smooth d) (ha : d.allocatePage = (res, d')) :
    d' = d ∨ ∃ storage, d' = { d with storage }.emit .extend := by
  simp only [Disk.allocatePage, if_neg h.not_torn, h.nextIo, h.cleared] at ha
  split at ha <;> cases ha
  case h_1 => exact .inl rfl
  case h_2 storage _ => exact .inr ⟨storage, h.emit.cleared⟩

theorem writePage (h : Smooth d) (hw : d.writePage w page = (res, d')) :
    d' = d ∨ ∃ storage, d' = { d with storage }.emit (.overwrite w page.id page.data .success) := by
  simp only [Disk.writePage, if_neg h.not_torn, h.nextIo, h.cleared, ite_self] at hw
  split at hw <;> cases hw
  case h_1 => exact .inl rfl
  case h_2 => exact .inr ⟨_, h.emit.cleared⟩

end Smooth

-- Neither has a call failed so far.
structure Quiet (d : Disk) : Prop extends Smooth d where
  ok : d.Ok

namespace Quiet

variable {d : Disk}

theorem countPages (h : Quiet d) (hc : Disk.countPages d = (res, d')) : Quiet d' := by
  cases hc ▸ h.toSmooth.countPages
  exact h

theorem readPage (h : Quiet d) (hr : Disk.readPage d j = (res, d')) : Quiet d' := by
  cases hr ▸ h.toSmooth.readPage
  exact h

theorem emit (h : Quiet d) (he : e.failed = false) : Quiet ({ d with storage := s }.emit e) :=
  ⟨h.toSmooth.emit, ok_emit.mpr ⟨h.ok, he⟩⟩

theorem allocatePage (h : Quiet d) (ha : Disk.allocatePage d = (res, d')) : Quiet d' := by
  rcases h.toSmooth.allocatePage ha with hd | ⟨_, hd⟩
  · exact hd ▸ h
  · exact hd ▸ h.emit rfl

theorem writePage (h : Quiet d) (hw : Disk.writePage d w page = (res, d')) : Quiet d' := by
  rcases h.toSmooth.writePage hw with hd | ⟨_, hd⟩
  · exact hd ▸ h
  · exact hd ▸ h.emit rfl

end Quiet

-- Neither is there a log.
structure Plain (d : Disk) : Prop extends Quiet d where
  wal : d.wal = none

namespace Plain

variable {d d' : Disk}

theorem countPages (h : Plain d) (hc : Disk.countPages d = (res, d')) : Plain d' := by
  refine ⟨h.toQuiet.countPages hc, ?_⟩
  rcases countPages_cases hc with ⟨_, _, _, _, hd⟩ | ⟨_, hd⟩ <;> exact hd ▸ h.wal

theorem readPage (h : Plain d) (hr : Disk.readPage d j = (res, d')) : Plain d' := by
  refine ⟨h.toQuiet.readPage hr, ?_⟩
  rcases readPage_cases hr with ⟨_, _, _, hd⟩ | ⟨_, _, _, _, hd⟩ | ⟨_, _, _, hd⟩ <;> exact hd ▸ h.wal

theorem allocatePage (h : Plain d) (ha : Disk.allocatePage d = (res, d')) : Plain d' := by
  refine ⟨h.toQuiet.allocatePage ha, ?_⟩
  rcases allocatePage_cases ha with ⟨_, hd, _⟩ | ⟨_, _, _, _, _, hd⟩ | ⟨_, _, _, _, _, hd⟩ <;> exact hd ▸ h.wal

theorem writePage (h : Plain d) (hw : Disk.writePage d w page = (res, d')) : Plain d' := by
  refine ⟨h.toQuiet.writePage hw, ?_⟩
  rcases writePage_cases hw with ⟨_, _, _, hd, _⟩ | ⟨_, _, _, hd, _⟩ | ⟨_, _, _, _, _, hd⟩ <;> exact hd ▸ h.wal

theorem beforePageWrite (h : Plain d) (hb : Disk.beforePageWrite d page = (res, d')) : Plain d' := by
  rcases beforePageWrite_cases hb with ⟨_, hd, _⟩ | ⟨w, _, _, _, hw, _⟩
  · exact hd ▸ h
  · rw [h.wal] at hw
    cases hw

theorem touch (h : Plain d) : Plain (d.touch i data) :=
  ⟨h.toQuiet.emit rfl, h.wal⟩

end Plain

instance : Device Disk where
  numPages d      := d.storage.numPages
  countPages      := countPages
  readPage        := readPage
  writePage       := writePage
  allocatePage    := allocatePage
  beforePageWrite := beforePageWrite
  touch           := touch
  page? d         := d.storage.page?
  ok              := Ok
  page?_isSome    := PageStorage.page?_isSome_iff
  count_ok h := by
    rcases countPages_cases h with ⟨_, _, _, hr, _⟩ | ⟨hr, _⟩ <;> cases hr
    rfl
  count_fails h ho := by
    rcases countPages_cases h with ⟨_, _, _, _, hd⟩ | ⟨hr, _⟩
    · have := (ok_emit.mp (hd ▸ ho)).right
      cases this
    · cases hr
  count_page? := by
    intro d
    match h : d.countPages with
    | (_, _) => rcases countPages_cases h with ⟨_, _, _, _, hd⟩ | ⟨_, hd⟩ <;> exact congrArg (·.storage.page?) hd
  count_mono := by
    intro d ho
    match h : d.countPages with
    | (_, _) =>
      rw [h] at ho
      rcases countPages_cases h with ⟨_, _, _, _, hd⟩ | ⟨_, hd⟩ <;> rw [hd] at ho
      · exact (ok_emit.mp ho).left
      · exact ho
  read_ok h := by
    rcases readPage_cases h with ⟨_, hr, _⟩ | ⟨_, _, _, hr, _⟩ | ⟨_, hr, hp, _⟩ <;> cases hr
    exact PageStorage.readPage_ok hp
  read_error h ho := by
    rcases readPage_cases h with ⟨_, hr, hp, _⟩ | ⟨_, _, _, _, hd⟩ | ⟨_, hr, _⟩
    · cases hr
      exact PageStorage.readPage_error hp
    · have := (ok_emit.mp (hd ▸ ho)).right
      cases this
    · cases hr
  read_page? := by
    intro d i
    match h : d.readPage i with
    | (_, _) =>
      rcases readPage_cases h with ⟨_, _, _, hd⟩ | ⟨_, _, _, _, hd⟩ | ⟨_, _, _, hd⟩ <;>
        exact congrArg (·.storage.page?) hd
  read_mono := by
    intro d i ho
    match h : d.readPage i with
    | (_, _) =>
      rw [h] at ho
      rcases readPage_cases h with ⟨_, _, _, hd⟩ | ⟨_, _, _, _, hd⟩ | ⟨_, _, _, hd⟩ <;> rw [hd] at ho
      · exact ho
      · exact (ok_emit.mp ho).left
      · exact ho
  write_ok h j := by
    rcases writePage_cases h with ⟨_, _, hr, _⟩ | ⟨_, _, hr, _⟩ | ⟨io, _, _, hn, hio, hd⟩
    · cases hr
    · cases hr
    · cases hio.mp rfl
      have ⟨_, hs⟩ := Option.isSome_iff_exists.mp <| PageStorage.page?_isSome_iff.mpr hn
      rw [hd]
      simp [emit, PageStorage.page?_overwrite, hs, IoResult.leave]
  write_error h j := by
    rcases writePage_cases h with ⟨_, _, _, hd, _⟩ | ⟨_, _, _, hd, _⟩ | ⟨io, _, _, hn, hio, hd⟩ <;> subst hd
    · exact ⟨rfl, fun _ => rfl⟩
    · exact ⟨rfl, fun _ => rfl⟩
    · simp only [emit, PageStorage.page?_overwrite]
      split
      case isTrue hj => subst hj; simp
      case isFalse hj => exact ⟨rfl, fun _ => rfl⟩
  write_fails h ho := by
    rcases writePage_cases h with ⟨_, _, _, _, hn⟩ | ⟨_, _, _, _, hn⟩ | ⟨io, _, _, _, hio, hd⟩
    · exact hn
    · exact hn
    · have hf := (ok_emit.mp (hd ▸ ho)).right
      cases io
      case success => cases hio.mpr rfl
      case failure => cases hf
  write_mono := by
    intro d w p ho
    match h : d.writePage w p with
    | (_, _) =>
      rw [h] at ho
      rcases writePage_cases h with ⟨_, _, _, hd, _⟩ | ⟨_, _, _, hd, _⟩ | ⟨_, _, _, _, _, hd⟩ <;> rw [hd] at ho
      · exact ho
      · exact (ok_emit.mp ho).left
      · exact (ok_emit.mp ho).left
  alloc_ok h := by
    rcases allocatePage_cases h with ⟨hr, _⟩ | ⟨_, _, _, _, hr, _⟩ | ⟨s, hr, hn, _, hs, hd⟩ <;> cases hr
    exact ⟨hn, rfl, fun j => hd ▸ PageStorage.page?_push hs⟩
  alloc_error h := by
    rcases allocatePage_cases h with ⟨_, hd, _⟩ | ⟨_, _, _, _, _, hd⟩ | ⟨_, hr, _⟩
    · exact congrArg (·.storage.page?) hd
    · exact congrArg (·.storage.page?) hd
    · cases hr
  alloc_fails h ho := by
    rcases allocatePage_cases h with ⟨hr, _, hn⟩ | ⟨_, _, _, _, _, hd⟩ | ⟨_, hr, _⟩
    · cases hr
      exact ⟨hn, rfl⟩
    · have := (ok_emit.mp (hd ▸ ho)).right
      cases this
    · cases hr
  alloc_mono := by
    intro d ho
    match h : d.allocatePage with
    | (_, _) =>
      rw [h] at ho
      rcases allocatePage_cases h with ⟨_, hd, _⟩ | ⟨_, _, _, _, _, hd⟩ | ⟨_, _, _, _, _, hd⟩ <;> rw [hd] at ho
      · exact ho
      · exact (ok_emit.mp ho).left
      · exact (ok_emit.mp ho).left
  log_page? := by
    intro d p
    match h : d.beforePageWrite p with
    | (_, _) =>
      rcases beforePageWrite_cases h with ⟨_, hd, _⟩ | ⟨_, _, _, _, _, _, hd⟩ <;>
        exact congrArg (·.storage.page?) hd
  log_fails h ho := by
    rcases beforePageWrite_cases h with ⟨hr, _⟩ | ⟨_, _, _, _, _, _, hd⟩
    · cases hr
    · have := (ok_emit.mp (hd ▸ ho)).right
      cases this
  log_mono := by
    intro d p ho
    match h : d.beforePageWrite p with
    | (_, _) =>
      rw [h] at ho
      rcases beforePageWrite_cases h with ⟨_, hd, _⟩ | ⟨_, _, _, _, _, _, hd⟩ <;> rw [hd] at ho
      · exact ho
      · exact (ok_emit.mp ho).left
  touch_page? := rfl
  touch_ok := by simp [touch, ok_emit, FileEvent.failed]

end Disk
end NexusDb
