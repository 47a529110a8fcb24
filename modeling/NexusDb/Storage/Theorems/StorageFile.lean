import NexusDb.Storage.StorageFile
import NexusDb.Storage.Theorems.PageStorage

open ByteBlock (join)

namespace NexusDb

namespace StorageFile

-- The file of an array of pages.
def ofArray (path : String) (h : path ≠ "") (a : PageStorage) : StorageFile where
  path    := path
  bytes   := join a.pages
  path_ne := h

section Simulation

variable {path : String} {hp : path ≠ ""} {a : PageStorage} {id : PageId}

theorem numPages_ofArray : (ofArray path hp a).numPages {} = .ok a.numPages := by
  simp [numPages, ofArray, PageStorage.numPages]

theorem block_ofArray (h : a.page? id = some d) :
    ((ofArray path hp a).bytes.drop (pageOffset id)).take pageSize = d.toBytes :=
  ByteBlock.block_join h

-- The four operations on the bytes are those on the array.

theorem readPage_ofArray : (ofArray path hp a).readPage id {} = a.readPage id := by
  have ho : (ofArray path hp a).isOpen = true := rfl
  rw [readPage, numPages_ofArray, PageStorage.readPage, ho]
  by_cases hi : id ≥ a.numPages
  case pos => simp [hi]
  case neg =>
    have hs := PageStorage.page?_isSome_iff.mpr (UInt32.not_le.mp hi)
    obtain ⟨d, hd⟩ := Option.isSome_iff_exists.mp hs
    have hl : d.toBytes.length = pageSize := ByteBlock.length_toBytes
    simp only [hi, block_ofArray hd, hl, ByteBlock.ofBytes_toBytes, hd]
    simp

theorem writePage_ofArray (page : Page) : (ofArray path hp a).writePage page {} =
    ((a.writePage page).fst, ofArray path hp (a.writePage page).snd) := by
  have ho : (ofArray path hp a).isOpen = true := rfl
  rw [writePage, numPages_ofArray, PageStorage.writePage, ho]
  by_cases hv : page.id = invalidId
  case pos => simp [hv]
  by_cases hi : page.id ≥ a.numPages
  case pos => simp [hv, hi]
  case neg =>
    have hlt := PageStorage.lt_numPages_iff.mp (UInt32.not_le.mp hi)
    have hw : Bytes.writeAt (join a.pages) (pageOffset page.id) page.data.toBytes
        = join (a.setPage page.id page.data).pages := ByteBlock.writeAt_join hlt
    simp [hv, hi, transfer, ofArray, hw]

theorem allocatePage_ofArray : (ofArray path hp a).allocatePage {} =
    (a.allocatePage.fst, ofArray path hp a.allocatePage.snd) := by
  have ho : (ofArray path hp a).isOpen = true := rfl
  rw [allocatePage, numPages_ofArray, PageStorage.allocatePage, ho]
  by_cases hi : a.numPages = invalidId
  case pos => simp [hi]
  case neg =>
    have hpos : pageOffset a.numPages = a.pages.length * pageSize := by
      rw [pageOffset, PageStorage.toNat_numPages]
    have hw : Bytes.writeAt (join a.pages) (pageOffset a.numPages) zeroPage.toBytes
        = join (a.pages ++ [zeroPage]) := by
      rw [hpos]
      exact ByteBlock.writeAt_join_end
    simp [hi, transfer, ofArray, hw]

theorem open_ofArray : StorageFile.open path (some (join a.pages)) .success {} = .ok (ofArray path hp a) := by
  simp [StorageFile.open, hp, ofArray]

-- A file that is accepted holds an array.
theorem exists_ofArray {file : Option Bytes} (h : StorageFile.open path file .success {} = .ok s)
    (hn : s.bytes.length < (2 ^ 32 - 1) * pageSize) : ∃ hp a, s = ofArray path hp a := by
  rw [StorageFile.open] at h
  split at h
  case isTrue => cases h
  case isFalse hp =>
    simp only [Bool.not_true, Bool.false_eq_true, if_false] at h
    split at h <;> cases h
    case isFalse hm =>
      have hmod : (file.getD []).length % pageSize = 0 := not_not.mp hm
      have hlen : (file.getD []).length = (file.getD []).length / pageSize * pageSize :=
        (Nat.div_mul_cancel (Nat.dvd_of_mod_eq_zero hmod)).symm
      have ⟨ps, hps, hj⟩ := ByteBlock.exists_join hlen
      have hb : ps.length < 2 ^ 32 := by
        rw [hps]
        exact (Nat.div_lt_of_lt_mul (Nat.mul_comm _ _ ▸ hn)).trans (by decide)
      exact ⟨hp, ⟨ps, hb⟩, by simp [ofArray, hj]⟩

end Simulation

-- The writes that succeeded, and the allocations that did.

def wrote : StorageOp × StorageAnswer → Option (PageId × PageData)
  | (.write page, .written (.ok ())) => some (page.id, page.data)
  | _                                => none

def added : StorageOp × StorageAnswer → Bool
  | (.allocate, .allocated (.ok _)) => true
  | _                               => false

-- What calls do to an array of pages: `a` is the array before them and `a'` the one after.
structure Recorded (a : PageStorage) (log : List (StorageOp × StorageAnswer)) (a' : PageStorage) : Prop where
  length : a'.pages.length = a.pages.length + log.countP added
  pages  : ∀ i, (a'.page? i).isSome →
             a'.page? i = some ((lastWrite (log.filterMap wrote) i).getD ((a.page? i).getD zeroPage))

theorem Recorded.refl (a : PageStorage) : Recorded a [] a where
  length    := rfl
  pages i h := by
    have ⟨d, hd⟩ := Option.isSome_iff_exists.mp h
    simp [hd]

variable {a a₁ a' : PageStorage}

-- A call that changes nothing.
theorem Recorded.same (h : Recorded a log a') (hw : wrote e = none) (ha : added e = false) :
    Recorded a (e :: log) a' where
  length    := by rw [List.countP_cons_of_neg (by simp [ha]), h.length]
  pages i hi := by rw [List.filterMap_cons_none hw]; exact h.pages i hi

theorem Recorded.step (path : String) (hp : path ≠ "") (op : StorageOp) :
    ∃ answer a₁, (ofArray path hp a).step op = (answer, ofArray path hp a₁) ∧
      ∀ log a', Recorded a₁ log a' → Recorded a ((op, answer) :: log) a' := by
  cases op
  case read id => exact ⟨_, a, rfl, fun _ _ h => h.same rfl rfl⟩
  case write page =>
    rw [StorageFile.step, writePage_ofArray]
    have hf : a.writePage page = ((a.writePage page).fst, (a.writePage page).snd) := rfl
    obtain ⟨e, hr, hs, -⟩ | ⟨hr, hs, hlt⟩ := PageStorage.writePage_cases hf
    case inl =>
      refine ⟨_, a, by rw [hs], fun _ _ h => h.same ?_ rfl⟩
      rw [hr]
      rfl
    case inr =>
      have hsome := PageStorage.page?_isSome_iff.mpr hlt
      refine ⟨_, _, by rw [hs], fun log a' h => ⟨?_, fun i hi => ?_⟩⟩
      · rw [List.countP_cons_of_neg (by simp [added]), h.length, PageStorage.length_setPage]
      · have hw : wrote (.write page, .written (a.writePage page).fst) = some (page.id, page.data) := by
          rw [hr]
          rfl
        rw [List.filterMap_cons_some hw, h.pages i hi, lastWrite, PageStorage.page?_setPage hsome]
        cases lastWrite (log.filterMap wrote) i
        case some => rfl
        case none => split <;> rfl
  case allocate =>
    rw [StorageFile.step, allocatePage_ofArray, PageStorage.allocatePage]
    by_cases hn : a.numPages = invalidId
    case pos =>
      rw [dif_pos hn]
      exact ⟨_, a, rfl, fun _ _ h => h.same rfl rfl⟩
    case neg =>
      rw [dif_neg hn]
      refine ⟨_, _, rfl, fun log a' h => ⟨?_, fun i hi => ?_⟩⟩
      · rw [List.countP_cons_of_pos rfl, h.length]
        simp
        omega
      · rw [List.filterMap_cons_none rfl, h.pages i hi, PageStorage.page?_push (s := a) rfl]
        split
        case isFalse => rfl
        case isTrue he => rw [he, PageStorage.page?_numPages]; rfl

theorem run_recorded (path : String) (hp : path ≠ "") (ops : List StorageOp) :
    ∃ a', ((ofArray path hp a).run ops).snd = ofArray path hp a' ∧
      Recorded a ((ofArray path hp a).run ops).fst a' := by
  induction ops generalizing a
  case nil => exact ⟨a, rfl, .refl a⟩
  case cons op ops hi =>
    have ⟨answer, a₁, hs, hr⟩ := Recorded.step (a := a) path hp op
    have ⟨a', ha, h⟩ := hi (a := a₁)
    refine ⟨a', ?_, ?_⟩
    · rw [run, hs]
      exact ha
    · rw [run, hs]
      exact hr _ _ h

-- A storage that is an array of pages, whatever the next call is.
structure IsArray (s : StorageFile) (pages : List PageData) : Prop where
  bytes    : s.bytes = join pages
  size     : s.bytes.length % pageSize = 0
  allocate : pages.length < 2 ^ 32 - 1 → s.allocatePage {} =
               (.ok { id := UInt32.ofNat pages.length, data := zeroPage },
                { s with bytes := join (pages ++ [zeroPage]) })
  read     : ∀ id d, pages[id.toNat]? = some d → s.readPage id {} = .ok { id, data := d }
  write    : ∀ page : Page, page.id.toNat < pages.length →
               s.writePage page {} = (.ok (), { s with bytes := join (pages.set page.id.toNat page.data) })
  beyond   : ∀ id, pages.length ≤ id.toNat → ∃ e, s.readPage id {} = .error e ∧ e.code = .notFound
  missing  : ∀ page : Page, pages.length ≤ page.id.toNat → ∃ e, s.writePage page {} = (.error e, s) ∧
               e.code = if page.id = invalidId then .invalidArgument else .notFound
  reopen   : StorageFile.open s.path (some s.bytes) .success {} = .ok s

theorem isArray_ofArray (path : String) (hp : path ≠ "") : IsArray (ofArray path hp a) a.pages where
  bytes := rfl
  size  := by simp [ofArray]
  allocate h := by
    have hn := PageStorage.numPages_ne_invalidId h
    rw [allocatePage_ofArray, PageStorage.allocatePage, dif_neg hn]
    rfl
  read id d h := by
    have hd : a.page? id = some d := h
    have hlt : id < a.numPages := PageStorage.page?_isSome_iff.mp (by rw [hd]; rfl)
    rw [readPage_ofArray, PageStorage.readPage, if_neg (UInt32.not_le.mpr hlt), hd]
    rfl
  write page h := by
    have hlt := PageStorage.lt_numPages_iff.mpr h
    rw [writePage_ofArray]
    have hf : a.writePage page = ((a.writePage page).fst, (a.writePage page).snd) := rfl
    obtain ⟨-, -, -, hn⟩ | ⟨hr, hs, -⟩ := PageStorage.writePage_cases hf
    case inl => exact absurd hlt hn
    case inr =>
      rw [hr, hs]
      rfl
  beyond id h := by
    have hge : id ≥ a.numPages := UInt32.not_lt.mp fun hlt => Nat.not_lt.mpr h (PageStorage.lt_numPages_iff.mp hlt)
    rw [readPage_ofArray, PageStorage.readPage, if_pos hge]
    exact ⟨_, rfl, rfl⟩
  missing page h := by
    have hge : page.id ≥ a.numPages :=
      UInt32.not_lt.mp fun hlt => Nat.not_lt.mpr h (PageStorage.lt_numPages_iff.mp hlt)
    rw [writePage_ofArray, PageStorage.writePage, if_pos hge]
    split <;> exact ⟨_, rfl, rfl⟩
  reopen := open_ofArray

-- A page storage is an array of pages in a file. Pages hold what was written last.
theorem run_isArray {path : String} {file : Option Bytes} (h : StorageFile.open path file .success {} = .ok s)
    (hn : s.bytes.length < (2 ^ 32 - 1) * pageSize) (ops : List StorageOp) :
    ∃ first pages, IsArray s first ∧ IsArray (s.run ops).snd pages ∧
      pages.length = first.length + (s.run ops).fst.countP added ∧
      ∀ id : PageId, id.toNat < pages.length → pages[id.toNat]? =
        some ((lastWrite ((s.run ops).fst.filterMap wrote) id).getD (first.getD id.toNat zeroPage)) := by
  have ⟨hp, a, hs⟩ := exists_ofArray h hn
  subst hs
  have ⟨a', hr, hrec⟩ := run_recorded (a := a) path hp ops
  refine ⟨a.pages, a'.pages, isArray_ofArray path hp, hr ▸ isArray_ofArray path hp, hrec.length, fun id hid => ?_⟩
  rw [List.getD_eq_getElem?_getD]
  exact hrec.pages id <| PageStorage.page?_isSome_iff.mpr <| PageStorage.lt_numPages_iff.mpr hid

theorem run_isArray_newFile : ∃ s, StorageFile.open "db" none .success {} = .ok s ∧
    s.bytes.length < (2 ^ 32 - 1) * pageSize ∧ ∃ pages, IsArray (s.run [.allocate]).snd pages := by
  have ho : StorageFile.open "db" none .success {} = .ok ⟨"db", [], true, by decide⟩ := rfl
  have ⟨_, pages, _, h, _⟩ := run_isArray ho (by decide) [.allocate]
  exact ⟨_, ho, by decide, pages, h⟩

-- A page without an id is refused before the array is looked at.
theorem writePage_without_id : ∃ s e, StorageFile.open "db" none .success {} = .ok s ∧ s.bytes = [] ∧
    s.writePage {} {} = (.error e, s) ∧ e.code ≠ .notFound :=
  ⟨_, _, rfl, rfl, rfl, by decide⟩

section ShortWrite

variable {s s' : StorageFile} {count id : PageId}

theorem numPages_eq_ok_iff : s.numPages {} = .ok count ↔
    s.isOpen ∧ s.bytes.length % pageSize = 0 ∧ count = UInt32.ofNat (s.bytes.length / pageSize) := by
  rw [numPages]
  by_cases ho : s.isOpen
  case neg => simp [ho]
  by_cases hm : s.bytes.length % pageSize = 0
  case neg =>
    rw [ho, if_neg (by decide), if_neg (by decide), if_pos hm]
    exact iff_of_false nofun fun h => hm h.right.left
  case pos =>
    rw [ho, if_neg (by decide), if_neg (by decide), if_neg (not_not.mpr hm), Except.ok.injEq]
    exact ⟨fun h => ⟨rfl, hm, h.symm⟩, fun h => h.right.right.symm⟩

-- What an allocation leaves whose write stores `n` bytes at most.
theorem allocatePage_failure (hc : s.numPages {} = .ok count) (hi : count ≠ invalidId) :
    s.allocatePage { transfer := .failure n } = (.error ⟨.ioError, "extend failed on allocate"⟩,
      { s with bytes := Bytes.writeAt s.bytes (pageOffset count) (zeroPage.toBytes.take n) }) := by
  have ho := (numPages_eq_ok_iff.mp hc).left
  have hc' : s.numPages { transfer := .failure n } = .ok count := hc
  rw [allocatePage, hc']
  simp [hi, ho, transfer]

-- The storage works as before, with the same pages.
structure Usable (s s' : StorageFile) (count : PageId) : Prop where
  pages  : s'.numPages {} = .ok count
  read   : ∀ id < count, s'.readPage id {} = s.readPage id {}
  write  : ∀ page : Page, page.id < count → (s'.writePage page {}).fst = .ok ()
  reopen : ∃ r, StorageFile.open s.path (some s'.bytes) .success {} = .ok r

theorem readPage_congr (hc : s.numPages {} = .ok count) (hc' : s'.numPages {} = .ok count)
    (h : (s'.bytes.drop (pageOffset id)).take pageSize = (s.bytes.drop (pageOffset id)).take pageSize) :
    s'.readPage id {} = s.readPage id {} := by
  have ho := (numPages_eq_ok_iff.mp hc).left
  have ho' := (numPages_eq_ok_iff.mp hc').left
  rw [readPage, readPage, hc, hc', ho, ho']
  simp only [h]

theorem usable_of_kept (hc : s.numPages {} = .ok count) (ho : s'.isOpen = s.isOpen)
    (hl : s'.bytes.length = s.bytes.length)
    (hr : ∀ id < count, (s'.bytes.drop (pageOffset id)).take pageSize = (s.bytes.drop (pageOffset id)).take pageSize) :
    Usable s s' count := by
  have ⟨hopen, hm, hcount⟩ := numPages_eq_ok_iff.mp hc
  have hc' : s'.numPages {} = .ok count := numPages_eq_ok_iff.mpr ⟨ho ▸ hopen, hl ▸ hm, hl ▸ hcount⟩
  refine ⟨hc', fun id hi => ?_, fun page hi => ?_, ?_⟩
  · exact readPage_congr hc hc' (hr id hi)
  · have hv : page.id ≠ invalidId := by
      intro he
      have hlt := UInt32.lt_iff_toNat_lt.mp (he ▸ hi)
      have hmax : invalidId.toNat = 4294967295 := rfl
      have := count.toNat_lt
      omega
    rw [writePage, hc', ho, hopen]
    simp [hv, UInt32.not_le.mpr hi]
  · rw [StorageFile.open, dif_neg s.path_ne]
    simp [hl, hm]

-- A write that stores anything at the end of the file makes the storage unusable. The position is only
-- inside of the file when there are more pages than ids.
theorem usable_iff (hc : s.numPages {} = .ok count) (hi : count ≠ invalidId)
    (ha : s.allocatePage { transfer := .failure n } = (r, s')) :
    Usable s s' count ↔ n = 0 ∨ 2 ^ 32 ≤ s.bytes.length / pageSize := by
  have ⟨hopen, hm, hcount⟩ := numPages_eq_ok_iff.mp hc
  rw [allocatePage_failure hc hi] at ha
  cases ha
  have hz : (zeroPage.toBytes.take n).length = min n pageSize := by
    rw [List.length_take, ByteBlock.length_toBytes]
  have hdiv : s.bytes.length / pageSize * pageSize = s.bytes.length :=
    Nat.div_mul_cancel (Nat.dvd_of_mod_eq_zero hm)
  constructor
  case mp =>
    intro h
    by_contra hn
    have ⟨hn₀, hlt⟩ := not_or.mp hn
    have hnat : count.toNat = s.bytes.length / pageSize := by
      rw [hcount, UInt32.toNat_ofNat_of_lt' (Nat.not_le.mp hlt)]
    have hpos : pageOffset count = s.bytes.length := by rw [pageOffset, hnat, hdiv]
    have ⟨_, hm', hc'⟩ := numPages_eq_ok_iff.mp h.pages
    simp only [hpos, Bytes.writeAt_length, List.length_append, hz] at hm' hc'
    have hnat' := congrArg UInt32.toNat hc'
    have hne : count.toNat ≠ 4294967295 := fun he => hi (UInt32.toNat_inj.mp he)
    -- The count is only the old one if a part of a page was added, which is refused.
    by_cases hfull : n < pageSize
    case pos =>
      simp only [pageSize] at *
      omega
    case neg =>
      have hmin : min n pageSize = pageSize := Nat.min_eq_right (Nat.not_lt.mp hfull)
      have hsize : s.bytes.length / pageSize + 1 < UInt32.size := by
        change _ < 4294967296
        have := count.toNat_lt
        omega
      rw [hmin, Nat.add_div_right _ (by decide), UInt32.toNat_ofNat_of_lt' hsize] at hnat'
      omega
  case mpr =>
    intro h
    cases h
    case inl h₀ =>
      subst h₀
      refine usable_of_kept hc rfl ?_ fun id _ => ?_
      all_goals simp [Bytes.writeAt]
    case inr hlarge =>
      have hcn := count.toNat_lt
      have hend : pageOffset count + (zeroPage.toBytes.take n).length ≤ s.bytes.length := by
        rw [hz, ← hdiv, pageOffset]
        have : min n pageSize ≤ pageSize := Nat.min_le_right _ _
        simp only [pageSize] at *
        omega
      refine usable_of_kept hc rfl (Bytes.length_writeAt hend) fun id hid => ?_
      have hidn := UInt32.lt_iff_toNat_lt.mp hid
      have hbefore : pageOffset id + pageSize ≤ pageOffset count := by
        simp only [pageOffset, pageSize]
        omega
      rw [Bytes.writeAt, List.append_assoc, List.drop_append_of_le_length (by rw [List.length_take]; omega),
        List.take_append_of_le_length (by rw [List.length_drop, List.length_take]; omega), List.drop_take,
        List.take_take, Nat.min_eq_left (by omega)]

-- The storage of a file with one page.
def singlePage : StorageFile :=
  ⟨"db", zeroPage.toBytes, true, by decide⟩

-- Nothing of the second page is stored, or one byte of it.
theorem usable_iff_singlePage : singlePage.numPages {} = .ok 1 ∧
    Usable singlePage (singlePage.allocatePage { transfer := .failure 0 }).snd 1 ∧
    ¬Usable singlePage (singlePage.allocatePage { transfer := .failure 1 }).snd 1 := by
  have hlen : singlePage.bytes.length = pageSize := by rw [singlePage, ByteBlock.length_toBytes]
  have hcount : singlePage.numPages {} = .ok 1 := by
    rw [numPages_eq_ok_iff, hlen]
    exact ⟨rfl, by decide, by decide⟩
  refine ⟨hcount, (usable_iff hcount (by decide) Prod.mk.eta.symm).mpr (.inl rfl), fun h => ?_⟩
  rcases (usable_iff hcount (by decide) Prod.mk.eta.symm).mp h with hn | hlarge
  · cases hn
  · rw [hlen] at hlarge
    exact absurd hlarge (by decide)

-- A file that ends with a part of a page.

theorem numPages_torn (ho : s.isOpen) (hm : s.bytes.length % pageSize ≠ 0) :
    s.numPages {} = .error PageStorage.sizeChanged := by
  rw [numPages, ho, if_neg (by decide), if_neg (by decide), if_pos hm]

theorem open_torn {path : String} {file : Bytes} (hp : path ≠ "") (hm : file.length % pageSize ≠ 0) :
    StorageFile.open path (some file) .success {} =
      .error ⟨.ioError, "database file size is not a multiple of page size: " ++ path⟩ := by
  rw [StorageFile.open, dif_neg hp]
  exact if_pos hm

theorem allocatePage_torn (hc : s.numPages {} = .ok count) (hi : count ≠ invalidId)
    (hpos : pageOffset count = s.bytes.length) (hn : 0 < n) (hn' : n < pageSize) :
    ∃ e s', s.allocatePage { transfer := .failure n } = (.error e, s') ∧
      s'.numPages {} = .error PageStorage.sizeChanged ∧
      ∃ e, StorageFile.open s.path (some s'.bytes) .success {} = .error e := by
  have ⟨ho, hm, _⟩ := numPages_eq_ok_iff.mp hc
  have hm' : (Bytes.writeAt s.bytes (pageOffset count) (zeroPage.toBytes.take n)).length % pageSize ≠ 0 := by
    rw [hpos, Bytes.writeAt_length, List.length_append, List.length_take, ByteBlock.length_toBytes,
      Nat.min_eq_left hn'.le, Nat.add_mod, hm, Nat.zero_add, Nat.mod_mod, Nat.mod_eq_of_lt hn']
    exact hn.ne'
  exact ⟨_, _, allocatePage_failure hc hi, numPages_torn ho hm', _, open_torn s.path_ne hm'⟩

-- One byte is enough.
-- The storage of a file that was just created.
def created : StorageFile :=
  ⟨"db", [], true, by decide⟩

theorem created_short_write : ∃ e s', created.allocatePage { transfer := .failure 1 } = (.error e, s') ∧
    s'.numPages {} = .error PageStorage.sizeChanged ∧
    ∃ e, StorageFile.open created.path (some s'.bytes) .success {} = .error e := by
  have hc : created.numPages {} = .ok 0 := rfl
  exact allocatePage_torn hc (by decide) rfl (by decide) (by decide)

end ShortWrite

end StorageFile
end NexusDb
