import NexusDb.Buffer.Theorems.Pinned
import NexusDb.Record.Theorems.Acceptance
import NexusDb.Record.Theorems.Contents

open Bytes

namespace NexusDb

open Prog (AtMost Reports)

namespace PageChain

theorem append_atMost (c : PageChain) : (c.append last count entry).AtMost 2 := by
  rw [append]
  split
  case isTrue =>
    refine AtMost.bind (n := 0) .onPage (fun r => ?_) (by decide)
    split <;> trivial
  case isFalse =>
    refine AtMost.bind (n := 2) .addPage (fun r => ?_) le_rfl
    split
    case h_1 => trivial
    case h_2 =>
      refine AtMost.bind (n := 1) .onPage (fun r => ?_) le_rfl
      split
      case h_1 => trivial
      case h_2 =>
        refine AtMost.bind (n := 0) .onPage (fun r => ?_) le_rfl
        split <;> trivial

theorem validateHeader_code {c : PageChain} (h : c.validateHeader d = some (.error e)) : e.code ≠ .bufferFull := by
  rw [validateHeader_eq] at h
  split_ifs at h <;> cases h
  all_goals rintro ⟨⟩

-- The chain itself never reports that the pool is full.
theorem append_reports (c : PageChain) : (c.append last count entry).Reports (·.code ≠ .bufferFull)
    fun r => ∀ e, r.fst = .error e → e.code ≠ .bufferFull := by
  have hfail : ∀ e : Error, e.code ≠ .bufferFull → ∀ (dir : PageId) (n : Nat) (e' : Error),
      ((.error e, dir, n) : Status × PageId × Nat).fst = .error e' → e'.code ≠ .bufferFull := by
    rintro e he _ _ _ ⟨⟩
    exact he
  rw [append]
  split
  case isTrue =>
    refine ⟨fun e he => hfail e he _ _, fun d r hr => ?_⟩
    rcases hv : c.validateHeader d with _ | (e | ⟨⟩)
    · simp [hv] at hr
    · simp only [hv] at hr
      cases hr
      exact hfail e (validateHeader_code hv) _ _
    · rcases hw : c.writeEntry d count entry with _ | d'
      · simp [hv, hw] at hr
      · simp only [hv, hw] at hr
        cases hr
        rintro _ ⟨⟩
  case isFalse =>
    refine ⟨fun e he => hfail e he _ _, fun new => ⟨fun e he => hfail e he _ _, fun d r hr => ?_⟩⟩
    rcases hw : d.storeNat offNext 4 new.toNat with _ | d'
    · simp [hw] at hr
    · simp only [hw] at hr
      cases hr
      refine ⟨fun e he => hfail e he _ _, fun d r hr => ?_⟩
      rcases hw : c.writeEntry d 0 entry with _ | d'
      · simp [hw] at hr
      · simp only [hw] at hr
        cases hr
        rintro _ ⟨⟩

theorem direct_edit {f : PageData → Mem (PageCall β)} {s : PageStorage} (hd : s.page? i = some d)
    (hf : f d = some (r, some d')) : (Prog.onPage i f).direct s = (some r, s.setPage i d') := by
  rw [Prog.onPage, Prog.direct, if_neg (PageStorage.ne_invalidId hd), hd]
  simp only [hf]
  rfl

-- A full page gets a successor as long as there are page ids.
theorem append_direct_full {c : PageChain} {enc : α → Bytes} {s : PageStorage} (hl : c.Lawful) (hc : c.Stores enc s C)
    (hfull : ¬count < c.capacity) (he : entry.length = c.entrySize) (hn : s.numPages ≠ invalidId) :
    ∃ r s', (c.append C.last count entry).direct s = (some (.ok (), r), s') := by
  obtain ⟨d, hd, hh⟩ := hc.last
  obtain ⟨d₁, hd₁, _⟩ := hh.setNext s.numPages
  obtain ⟨d₂, hd₂, _⟩ : ∃ d₂, c.writeEntry c.initPage 0 entry = some d₂ ∧ _ := (holds_init hl).writeEntry hl.room he
  have hne : C.last ≠ s.numPages := PageStorage.ne_numPages (Option.isSome_of_eq_some hd)
  have hpush : ∀ i, (s.push c.initPage).page? i = if i = s.numPages then some c.initPage else s.page? i :=
    fun i => PageStorage.page?_push (PageStorage.pages_push hn)
  have hadd : (Prog.addPage c.initPage).direct s = (some (.ok s.numPages), s.push c.initPage) := by
    rw [Prog.addPage, Prog.direct, PageStorage.push, PageStorage.allocatePage, dif_neg hn]
    rfl
  have hlast : (s.push c.initPage).page? C.last = some d := by rw [hpush, if_neg hne, hd]
  have hnew : ((s.push c.initPage).setPage C.last d₁).page? s.numPages = some c.initPage := by
    rw [PageStorage.page?_setPage (by rw [hlast]; rfl), if_neg hne, hpush, if_pos rfl]
  have hset := direct_edit hlast (f := fun d => do return (.ok (), ← d.storeNat offNext 4 s.numPages.toNat)) (r := .ok ())
    (by simp only [hd₁]; rfl)
  have hwrite := direct_edit hnew (f := fun d => do return (.ok (), ← c.writeEntry d 0 entry)) (r := .ok ())
    (by simp only [hd₂]; rfl)
  rw [append, if_neg hfull, Prog.bind_eq, Prog.direct_bind, hadd]
  simp only [Prog.bind_eq]
  rw [Prog.direct_bind, hset]
  simp only
  rw [Prog.direct_bind, hwrite]
  exact ⟨_, _, rfl⟩

theorem append_ok [Device σ] {p : BufferPool σ} (c : PageChain)
    (he : (c.append last count entry).exec p = (some (.ok (), r), q)) :
    count < c.capacity ∨ Device.numPages p.dev ≠ invalidId := by
  by_cases hlt : count < c.capacity
  case pos => exact .inl hlt
  case neg =>
    rw [append, if_neg hlt, Prog.bind_eq, Prog.exec_bind, Prog.addPage, Prog.exec] at he
    rcases ha : Device.allocatePage p.dev with ⟨e | page, dev⟩
    · simp only [ha, Prog.exec] at he
      cases he
    · exact .inr (Device.alloc_ok ha).left

end PageChain

namespace HeapTable

open SlottedPage (WellFormed freeBytes slotEntrySize slotCount)

-- The arguments that get to the pages.
structure Insertable (record : Option Bytes) : Prop where
  ne_zero : (record.getD []).length ≠ 0
  le_max  : (record.getD []).length ≤ SlottedPage.maxRecordSize

theorem Insertable.exists_bytes (h : Insertable record) : ∃ bs, record = some bs := by
  cases record
  case none => exact absurd rfl h.ne_zero
  case some bs => exact ⟨bs, rfl⟩

theorem slot_ne_invalid (v : SlottedPage.Valid d) : UInt16.ofNat (slotCount d) ≠ SlottedPage.invalidSlot := by
  have hb := SlottedPage.slotCount_lt_invalid v
  intro h
  have h : (UInt16.ofNat (slotCount d)).toNat = 65535 := congrArg UInt16.toNat h
  rw [UInt16.toNat_ofNat_of_lt' (by simp [UInt16.size]; omega)] at h
  omega

-- A page with room for a record of this length.
def HasRoom (s : PageStorage) (length : Nat) (i : PageId) : Prop :=
  ∃ d n, s.page? i = some d ∧ freeBytes d = some n ∧ length + slotEntrySize ≤ n

section

variable [Device σ]

-- The steps of an insert on a pool.

theorem exec_tryInsertIntoPage (page : PageId) (record : Option Bytes) (out : Bool) (p : BufferPool σ) :
    (tryInsertIntoPage page record out).exec p =
      match p.fetch page with
      | (.error e, q) => (some (.error e), q)
      | (.ok i, q)    =>
        match SlottedPage.insert (q.frameAt i).page.data record with
        | none               => (none, q.unpinFrame i)
        | some (.error e, d) => (some (.error e), (q.edit i d).unpinFrame i)
        | some (.ok slot, d) =>
          if out then (some (.ok ⟨page, slot⟩), (q.edit i d).unpinFrame i) else (none, q.unpinFrame i) := by
  rw [tryInsertIntoPage, Prog.onPage, Prog.exec]
  rcases p.fetch page with ⟨e | i, q⟩
  · rfl
  · simp only
    rcases SlottedPage.insert (q.frameAt i).page.data record with _ | ⟨e | slot, d⟩
    · rfl
    · rfl
    · cases out <;> rfl

theorem exec_tryPages_cons (record : Option Bytes) (out : Bool) (page : PageId) (pages : List PageId)
    (p : BufferPool σ) :
    (tryPages record out (page :: pages)).exec p =
      match (tryInsertIntoPage page record out).exec p with
      | (none, q)            => (none, q)
      | (some (.ok id), q)   => (some (some (.ok id)), q)
      | (some (.error e), q) =>
        if e.code = .bufferFull then (tryPages record out pages).exec q else (some (some (.error e)), q) := by
  rw [tryPages, Prog.bind_eq, Prog.exec_bind]
  rcases (tryInsertIntoPage page record out).exec p with ⟨_ | (e | id), q⟩
  · rfl
  · simp only; split <;> rfl
  · rfl

theorem exec_insertFresh (t : HeapTable) (record : Option Bytes) (out : Bool) (fresh : PageId) (p : BufferPool σ) :
    (t.insertFresh record out fresh).exec p =
      match (tryInsertIntoPage fresh record out).exec p with
      | (none, q)            => (none, q)
      | (some (.error e), q) => (some (.error e, {}, t), q)
      | (some (.ok id), q)   =>
        match (t.appendDataPageId fresh).exec q with
        | (none, q)                => (none, q)
        | (some (.error e, t'), q) => (some (.error e, id, t'), q)
        | (some (.ok (), t'), q)   => (some (.ok (), id, { t' with lastDataPage := fresh }), q) := by
  rw [insertFresh, Prog.bind_eq, Prog.exec_bind]
  rcases (tryInsertIntoPage fresh record out).exec p with ⟨_ | (e | id), q⟩
  · rfl
  · rfl
  · simp only [Prog.bind_eq, Prog.exec_bind]
    rcases (t.appendDataPageId fresh).exec q with ⟨_ | ⟨e | ⟨⟩, t'⟩, q⟩
    · rfl
    · rfl
    · rfl

theorem exec_insertOut (t : HeapTable) (h : Insertable record) (out : Bool) (p : BufferPool σ) :
    (t.insertOut record out).exec p =
      match (tryPages record out t.candidates).exec p with
      | (none, q)                   => (none, q)
      | (some (some (.ok id)), q)   => (some (.ok (), id, { t with lastDataPage := id.page }), q)
      | (some (some (.error e)), q) => (some (.error e, {}, t), q)
      | (some none, q)              =>
        match allocateDataPage.exec q with
        | (none, q)             => (none, q)
        | (some (.error e), q)  => (some (.error e, {}, t), q)
        | (some (.ok fresh), q) => (t.insertFresh record out fresh).exec q := by
  rw [insertOut, if_neg h.ne_zero, if_neg (Nat.not_lt.mpr h.le_max), Prog.bind_eq, Prog.exec_bind]
  rcases (tryPages record out t.candidates).exec p with ⟨_ | (_ | (e | id)), q⟩
  · rfl
  · simp only [Prog.bind_eq, Prog.exec_bind]
    rcases allocateDataPage.exec q with ⟨_ | (e | fresh), q⟩
    · rfl
    · rfl
    · rfl
  · rfl
  · rfl

theorem exec_insertOut_rejected (t : HeapTable) (h : ¬Insertable record) (p : BufferPool σ) :
    ∃ e, ∀ out, (t.insertOut record out).exec p = (some (.error e, {}, t), p) := by
  simp only [insertOut]
  split
  case isTrue => exact ⟨_, fun _ => rfl⟩
  case isFalse h₀ =>
    split
    case isTrue => exact ⟨_, fun _ => rfl⟩
    case isFalse hm => exact absurd ⟨h₀, Nat.not_lt.mp hm⟩ h

-- An insert into one page fails in the same way with and without an out-parameter. When it succeeds, it writes
-- a record id.
theorem tryInsertIntoPage_out (page : PageId) (record : Option Bytes) (p : BufferPool σ) :
    (∃ e q, ∀ out, (tryInsertIntoPage page record out).exec p = (some (.error e), q)) ∨
    (∃ id q q', Insertable record ∧ id.valid ∧ (tryInsertIntoPage page record true).exec p = (some (.ok id), q) ∧
      (tryInsertIntoPage page record false).exec p = (none, q')) := by
  simp only [exec_tryInsertIntoPage]
  match hf : p.fetch page with
  | (.error e, q) => exact .inl ⟨e, q, fun _ => rfl⟩
  | (.ok i, q)    =>
    rcases SlottedPage.insert_cases (q.frameAt i).page.data record with ⟨e, he⟩ | ⟨bs, hr, v, h₀, hm, _, he⟩
    · exact .inl ⟨e, (q.edit i none).unpinFrame i, fun _ => by simp only [he]⟩
    · refine .inr ⟨⟨page, UInt16.ofNat (slotCount (q.frameAt i).page.data)⟩, _, q.unpinFrame i, ?_, ?_,
        by simp only [he]; rfl, by simp only [he]; rfl⟩
      · subst hr
        exact ⟨Nat.ne_of_gt h₀, hm⟩
      · have hp : page ≠ invalidId := fun h => by
          rw [BufferPool.fetch, if_pos h] at hf
          cases hf
        exact decide_eq_true ⟨hp, slot_ne_invalid v⟩

theorem tryPages_out (record : Option Bytes) (pages : List PageId) (p : BufferPool σ) :
    (∃ r q, (∀ id, r ≠ some (.ok id)) ∧ ∀ out, (tryPages record out pages).exec p = (some r, q)) ∨
    (∃ id q q', id.valid ∧ (tryPages record true pages).exec p = (some (some (.ok id)), q) ∧
      (tryPages record false pages).exec p = (none, q')) := by
  induction pages generalizing p
  case nil => exact .inl ⟨none, p, nofun, fun _ => rfl⟩
  case cons page pages ih =>
    simp only [exec_tryPages_cons]
    rcases tryInsertIntoPage_out page record p with ⟨e, q, he⟩ | ⟨id, q, q', _, hid, ht, hf⟩
    · simp only [he]
      split
      case isTrue => exact ih q
      case isFalse => exact .inl ⟨some (.error e), q, nofun, fun _ => rfl⟩
    · simp only [ht, hf]
      exact .inr ⟨id, q, q', hid, rfl, rfl⟩

theorem insertFresh_out (t : HeapTable) (record : Option Bytes) (fresh : PageId) (p : BufferPool σ) :
    (∃ e q, ∀ out, (t.insertFresh record out fresh).exec p = (some (.error e, {}, t), q)) ∨
    ((∀ r, ((t.insertFresh record true fresh).exec p).fst = some r → r.snd.fst.valid) ∧
      ((t.insertFresh record false fresh).exec p).fst = none) := by
  simp only [exec_insertFresh]
  rcases tryInsertIntoPage_out fresh record p with ⟨e, q, he⟩ | ⟨id, q, q', _, hid, ht, hf⟩
  · exact .inl ⟨e, q, fun out => by rw [he]⟩
  · refine .inr ⟨fun r hr => ?_, by rw [hf]⟩
    simp only [ht] at hr
    split at hr <;> cases hr <;> exact hid

-- An insert that writes no record id does the same without an out-parameter. One that writes a record id is
-- undefined without an out-parameter.
theorem insertOut_out (t : HeapTable) (record : Option Bytes) (p : BufferPool σ) :
    (∃ e q, ∀ out, (t.insertOut record out).exec p = (some (.error e, {}, t), q)) ∨
    ((∀ r, ((t.insertOut record true).exec p).fst = some r → r.snd.fst.valid) ∧
      ((t.insertOut record false).exec p).fst = none) := by
  by_cases h : Insertable record
  case neg =>
    have ⟨e, he⟩ := exec_insertOut_rejected t h p
    exact .inl ⟨e, p, he⟩
  case pos =>
    simp only [exec_insertOut t h]
    rcases tryPages_out record t.candidates p with ⟨r, q, hr, he⟩ | ⟨id, q, q', hid, ht, hf⟩
    · simp only [he]
      match r with
      | some (.ok id)   => exact absurd rfl (hr id)
      | some (.error e) => exact .inl ⟨e, q, fun _ => rfl⟩
      | none            =>
        simp only
        match allocateDataPage.exec q with
        | (none, q₁)             => exact .inr ⟨nofun, rfl⟩
        | (some (.error e), q₁)  => exact .inl ⟨e, q₁, fun _ => rfl⟩
        | (some (.ok fresh), q₁) => exact insertFresh_out t record fresh q₁
    · simp only [ht, hf]
      exact .inr ⟨fun r hr => by cases hr; exact hid, trivial⟩

end

-- The pages that are fetched.

theorem tryPages_atMost (record : Option Bytes) (out : Bool) (pages : List PageId) :
    (tryPages record out pages).AtMost pages.length := by
  induction pages
  case nil => trivial
  case cons page pages ih =>
    refine AtMost.bind .onPage (n := pages.length) (fun r => ?_) (Nat.add_comm ..).le
    split
    case h_1 => trivial
    case h_2 =>
      split
      case isTrue => exact ih
      case isFalse => trivial

theorem insertFresh_atMost (t : HeapTable) (record : Option Bytes) (out : Bool) (fresh : PageId) :
    (t.insertFresh record out fresh).AtMost 3 := by
  refine AtMost.bind (n := 2) .onPage (fun r => ?_) le_rfl
  split
  case h_1 => trivial
  case h_2 =>
    refine AtMost.bind (n := 0) (AtMost.bind (n := 0) directory.append_atMost (fun r => ?_) le_rfl) (fun r => ?_) le_rfl
    all_goals split <;> trivial

theorem length_candidates (t : HeapTable) : t.candidates.length ≤ t.dataPages.length + 1 := by
  rw [candidates, List.length_append, Nat.add_comm]
  refine Nat.add_le_add (List.length_filter_le ..) ?_
  split
  case isTrue => exact Nat.zero_le 1
  case isFalse => exact le_rfl

theorem insertOut_atMost (t : HeapTable) (record : Option Bytes) (out : Bool) :
    (t.insertOut record out).AtMost (t.dataPages.length + 4) := by
  rw [insertOut]
  split
  case isTrue => trivial
  case isFalse =>
    split
    case isTrue => trivial
    case isFalse =>
      have hlen := t.length_candidates
      refine AtMost.bind (n := 3) (tryPages_atMost record out t.candidates) (fun r => ?_) (by omega)
      split
      case h_1 => trivial
      case h_2 => trivial
      case h_3 =>
        refine AtMost.bind (n := 3) .addPage (fun r => ?_) le_rfl
        split
        case h_1 => trivial
        case h_2 fresh => exact t.insertFresh_atMost record out fresh

theorem mem_candidates_iff {t : HeapTable} (ht : Tracks t C) (hs : Stored s C) : i ∈ t.candidates ↔ i ∈ t.dataPages := by
  constructor
  case mp => exact fun hi => ht.data ▸ mem_candidates ht hi
  case mpr =>
    intro hi
    have hn : i ≠ invalidId := hs.ne_invalidId (List.mem_append_right _ (ht.data ▸ hi))
    rw [candidates, List.mem_append]
    by_cases h : i = t.lastDataPage
    case pos =>
      rw [← h, if_neg hn]
      exact .inl (List.mem_singleton_self i)
    case neg => exact .inr (List.mem_filter.mpr ⟨hi, by simpa using h⟩)

theorem Stored.length_all_lt {s : PageStorage} (hs : Stored s C) : C.all.length < 2 ^ 32 := by
  have hle := PageStorage.length_le (hs.nodup.sublist (List.sublist_append_right ..)) fun i hi =>
    hs.isSome (List.mem_append_right _ hi)
  have := s.bound
  omega

section

variable {p q : BufferPool Disk} {s : PageStorage} {bs : Bytes}

theorem hasRoom_iff (hd : s.page? i = some d) (hw : WellFormed d) :
    HasRoom s n i ↔ n + 4 ≤ SlottedPage.freeEnd d - SlottedPage.freeStart d := by
  have hfree := SlottedPage.freeBytes_eq hw.toValid
  constructor
  case mp =>
    rintro ⟨d', m, hd', hm, hle⟩
    cases hd.symm.trans hd'
    cases hfree.symm.trans hm
    exact hle
  case mpr => exact fun h => ⟨d, _, hd, hfree, h⟩

-- A new page has room for every record.
theorem hasRoom_init (hd : s.page? i = some SlottedPage.init) (hm : n ≤ SlottedPage.maxRecordSize) : HasRoom s n i := by
  have hfree : SlottedPage.freeEnd SlottedPage.init - SlottedPage.freeStart SlottedPage.init = 4080 := by
    decide
  rw [hasRoom_iff hd .init, hfree]
  simp at hm
  omega

section

variable (h₀ : 0 < bs.length) (hm : bs.length ≤ SlottedPage.maxRecordSize)

include h₀ hm

-- A page that the pool can hold gets the record if it has room, unless a call on the files fails.
theorem tryInsertIntoPage_cases (h : p.Ready s (n + 1)) (hd : s.page? i = some d) (hw : WellFormed d)
    (he : (tryInsertIntoPage i (some bs) true).exec p = (r, q)) :
    (∃ slot d', r = some (.ok ⟨i, slot⟩) ∧ p.CanHold i ∧ HasRoom s bs.length i ∧ q.Resident i ∧
      q.Ready (s.setPage i d') n ∧ p.SameRoom q ∧ WellFormed d') ∨
    (∃ e, r = some (.error e) ∧ q.Ready s n ∧ p.SameRoom q ∧
      ((e.code = .bufferFull ∧ ((¬p.CanHold i ∧ e = BufferPool.allPinned) ∨ ¬HasRoom s bs.length i)) ∨
        (e.code ≠ .bufferFull ∧ ¬Device.ok q.dev))) := by
  rw [exec_tryInsertIntoPage] at he
  rcases hf : p.fetch i with ⟨e | k, q'⟩
  · simp only [hf] at he
    cases he
    obtain ⟨hr, hsame⟩ := h.failed hf
    refine .inr ⟨e, rfl, hr.mono (Nat.le_succ n), hsame, ?_⟩
    rcases h.fetch_fails (by rw [hd]; rfl) hf with ⟨hold, rfl⟩ | hfail
    · exact .inl ⟨rfl, .inl ⟨hold, rfl⟩⟩
    · exact .inr hfail
  · have hold : p.CanHold i := by
      intro ha
      by_contra hr
      rw [BufferPool.fetch_allPinned h.inv ha (PageStorage.ne_invalidId hd) hr] at hf
      split at hf <;> cases hf
    simp only [hf] at he
    have hd' := (h.use (d := none) hf).left
    cases hd.symm.trans hd'
    rcases SlottedPage.insert_outcome hw h₀ hm with ⟨d', hins, hw', _⟩ | ⟨hins, hfull⟩
    · rw [hins] at he
      cases he
      obtain ⟨_, hr, hsame, hres⟩ := h.use (d := some d') hf
      refine .inl ⟨_, d', rfl, hold, (hasRoom_iff hd hw).mpr ?_, hres, hr, hsame, hw'⟩
      rcases SlottedPage.insert_cases (q'.frameAt k).page.data (some bs) with ⟨_, herr⟩ | ⟨_, hbs, _, _, _, hroom, _⟩
      · cases hins.symm.trans herr
      · cases hbs
        exact hroom
    · rw [hins] at he
      cases he
      obtain ⟨_, hr, hsame, _⟩ := h.use (d := none) hf
      refine .inr ⟨_, rfl, hr, hsame, .inl ⟨rfl, .inr fun hroom => ?_⟩⟩
      have := (hasRoom_iff hd hw).mp hroom
      omega

-- So does the first of several pages.
theorem tryPages_cases (h : p.Ready s (pages.length + n)) (hp : ∀ i ∈ pages, ∃ d, s.page? i = some d ∧ WellFormed d)
    (he : (tryPages (some bs) true pages).exec p = (r, q)) :
    (∃ i ∈ pages, ∃ slot, r = some (some (.ok ⟨i, slot⟩)) ∧ p.CanHold i ∧ HasRoom s bs.length i ∧ q.Resident i) ∨
    (∃ e, r = some (some (.error e)) ∧ e.code ≠ .bufferFull ∧ ¬Device.ok q.dev) ∨
    (r = some none ∧ q.Ready s n ∧ p.SameRoom q ∧ ∀ i ∈ pages, p.CanHold i → ¬HasRoom s bs.length i) := by
  induction pages generalizing p
  case nil =>
    cases he
    exact .inr <| .inr ⟨rfl, h.mono (Nat.le_add_left ..), .refl _, by rintro _ ⟨⟩⟩
  case cons i pages ih =>
    have ⟨d, hd, hw⟩ := hp i List.mem_cons_self
    have hp := fun j hj => hp j (List.mem_cons_of_mem i hj)
    have h : p.Ready s (pages.length + n + 1) := h.mono (by rw [List.length_cons]; omega)
    rw [exec_tryPages_cons] at he
    rcases ht : (tryInsertIntoPage i (some bs) true).exec p with ⟨r₁, q₁⟩
    rcases tryInsertIntoPage_cases h₀ hm h hd hw ht with ⟨slot, _, rfl, hold, hroom, hres, _⟩ | ⟨e, rfl, hr, hsame, hcase⟩
    · simp only [ht] at he
      cases he
      exact .inl ⟨i, List.mem_cons_self, slot, rfl, hold, hroom, hres⟩
    · simp only [ht] at he
      rcases hcase with ⟨hcode, hskip⟩ | ⟨hcode, ho⟩
      · rw [if_pos hcode] at he
        rcases ih hr hp he with ⟨j, hj, slot, rfl, hold, hrest⟩ | hfail | ⟨rfl, hr', hsame', hnone⟩
        · exact .inl ⟨j, List.mem_cons_of_mem i hj, slot, rfl, hsame.canHold.mp hold, hrest⟩
        · exact .inr <| .inl hfail
        · refine .inr <| .inr ⟨rfl, hr', hsame.trans hsame', fun j hj hold => ?_⟩
          rcases List.mem_cons.mp hj with rfl | hj
          · exact hskip.resolve_left fun hn => hn.left hold
          · exact hnone j hj (hsame.canHold.mpr hold)
      · rw [if_neg hcode] at he
        cases he
        exact .inr <| .inl ⟨e, rfl, hcode, ho⟩

end

-- A page is added, unless there is no page id left or a call on the files fails.
theorem exec_addPage_cases (h : p.Ready s n) (he : (Prog.addPage d).exec p = (r, q)) :
    (∃ e, r = some (.error e) ∧
      ((s.numPages = invalidId ∧ e = PageStorage.exhausted) ∨ (e.code ≠ .bufferFull ∧ ¬Device.ok q.dev))) ∨
    (r = some (.ok s.numPages) ∧ s.numPages ≠ invalidId ∧ q.Ready (s.push d) n ∧ p.SameRoom q ∧
      ¬q.Resident s.numPages) := by
  rw [Prog.addPage, Prog.exec] at he
  rcases ha : Device.allocatePage p.dev with ⟨e | page, dev⟩
  · simp only [ha] at he
    cases he
    refine .inl ⟨e, rfl, ?_⟩
    by_cases ho : Device.ok dev
    case pos =>
      obtain ⟨hn, he⟩ := Device.alloc_fails ha ho
      exact .inl ⟨h.coherent.numPages ▸ hn, he⟩
    case neg => exact .inr ⟨Disk.allocatePage_code ha, ho⟩
  · obtain ⟨hn, hpage, hpages⟩ := Device.alloc_ok ha
    simp only [ha] at he
    rcases hw : Device.writePage dev .direct { page with data := d, dirty := true } with ⟨e | ⟨⟩, dev'⟩
    · simp only [hw] at he
      cases he
      refine .inl ⟨e, rfl, .inr ⟨Disk.writePage_code hw, fun ho => Device.write_fails hw ho ?_⟩⟩
      rw [← Device.page?_isSome, hpages, if_pos rfl]
      rfl
    · simp only [hw] at he
      cases he
      have hready := h.dev (h.coherent.newPage ha hw)
      rw [h.coherent.numPages] at hn hpage
      refine .inr ⟨by rw [hpage], hn, hready, .dev p dev', ?_⟩
      rintro ⟨k, f, hf, hu, hid⟩
      exact PageStorage.ne_numPages (Option.isSome_of_eq_some (h.coherent.resident k f hf hu)) hid

-- No page of the table that the pool can hold has room.
def NoRoom (s : PageStorage) (t : HeapTable) (n : Nat) (p : BufferPool Disk) : Prop :=
  ∀ i ∈ t.dataPages, p.CanHold i → ¬HasRoom s n i

-- The directory has room for a new page, or can get a page of its own as well.
def Linkable (s : PageStorage) (t : HeapTable) : Prop :=
  t.lastDirCount < directory.capacity ∨ s.pages.length + 2 < 2 ^ 32

-- What an insert of a record of valid length comes to, and the id that it writes. Others may hold pages of the
-- pool, and the calls on the files may fail.
inductive Outcome (s : PageStorage) (t : HeapTable) (bs : Bytes) (p q : BufferPool Disk) : Status → RecordId → Prop
  | stored (hi : i ∈ t.dataPages) (hold : p.CanHold i) (room : HasRoom s bs.length i) (res : q.Resident i) :
      Outcome s t bs p q (.ok ()) ⟨i, slot⟩
  | failed (hc : e.code ≠ .bufferFull) (ho : ¬Device.ok q.dev) : Outcome s t bs p q (.error e) {}
  | exhausted (full : NoRoom s t bs.length p) (hn : s.numPages = invalidId) :
      Outcome s t bs p q (.error PageStorage.exhausted) {}
  | unloaded (full : NoRoom s t bs.length p) (hn : s.numPages ≠ invalidId) (pinned : p.AllPinned)
      (grown : Device.numPages q.dev = (s.push SlottedPage.init).numPages) :
      Outcome s t bs p q (.error BufferPool.allPinned) {}
  | fresh {id : RecordId} (full : NoRoom s t bs.length p) (hn : s.numPages ≠ invalidId) (spare : ¬p.AllPinned)
      (hid : id.valid) (linked : st = .ok () → Linkable s t)
      (fails : ∀ e, st = .error e → e.code ≠ .bufferFull ∧ (Device.ok q.dev → ¬Linkable s t)) : Outcome s t bs p q st id

variable {C : Chain PageId} {t : HeapTable}

theorem appendDataPageId_atMost (t : HeapTable) (i : PageId) : (t.appendDataPageId i).AtMost 2 := by
  refine AtMost.bind (n := 0) directory.append_atMost (fun r => ?_) le_rfl
  split <;> trivial

theorem appendDataPageId_code (h : p.Ready s 2) (hp : ¬p.AllPinned)
    (he : (t.appendDataPageId i).exec p = (some (.error e, t'), q)) : e.code ≠ .bufferFull := by
  have hr : (t.appendDataPageId i).Reports (·.code ≠ .bufferFull)
      fun r => ∀ e, r.fst = .error e → e.code ≠ .bufferFull := by
    refine directory.append_reports.bind ?_
    rintro ⟨e | ⟨⟩, dir, count⟩ hr
    · exact fun _ he => hr _ he
    · rintro _ ⟨⟩
  exact hr.exec (t.appendDataPageId_atMost i) h hp he e rfl

theorem exec_appendDataPageId [Device σ] (t : HeapTable) (i : PageId) (p : BufferPool σ) :
    (t.appendDataPageId i).exec p =
      match (directory.append t.lastDir t.lastDirCount (encodeId i)).exec p with
      | (none, q)                       => (none, q)
      | (some (.error e, dir, count), q) => (some (.error e, { t with lastDir := dir, lastDirCount := count }), q)
      | (some (.ok (), dir, count), q)   =>
        (some (.ok (), { t with lastDir := dir, lastDirCount := count, dataPages := t.dataPages ++ [i] }), q) := by
  rw [appendDataPageId, Prog.bind_eq, Prog.exec_bind, ← encodeId]
  rcases (directory.append t.lastDir t.lastDirCount (encodeId i)).exec p with ⟨_ | ⟨e | ⟨⟩, dir, count⟩, q⟩
  · rfl
  · rfl
  · rfl

-- The new page is put into the directory, unless a call on the files fails or there is no page id left.
theorem appendDataPageId_fails (h : p.Ready s 2) (hp : ¬p.AllPinned) (ht : Tracks t C) (hs : Stored s C)
    (hd : ∃ d, s.page? i = some d ∧ WellFormed d) (hi : i ∉ owned C)
    (he : (t.appendDataPageId i).exec p = (some (.error e, t'), q)) (ho : Device.ok q.dev) :
    ¬t.lastDirCount < directory.capacity ∧ s.numPages = invalidId := by
  have hh : (t.appendDataPageId i).Healthy p :=
    (t.appendDataPageId_atMost i).healthy h (fun _ => hp) (by rw [he]; exact ho)
  have hfull : ¬t.lastDirCount < directory.capacity := by
    intro hlt
    have hin : (t.appendDataPageId i).InPlace := by
      refine Prog.InPlace.bind ?_ fun r => ?_
      · rw [PageChain.append, if_pos hlt]
        refine Prog.InPlace.bind (fun _ => trivial) fun r => ?_
        split <;> trivial
      · split <;> trivial
    obtain ⟨r, _, hr, _, _, _, htol, _⟩ := Prog.wp_healthy
      (wp_appendDataPageId (K := .reliable) PageChain.grows_reliable ht hs hd hi) h.inv h.coherent hh (.inr hin)
    rw [he] at hr
    cases hr
    exact htol e rfl
  refine ⟨hfull, by_contra fun hn => ?_⟩
  obtain ⟨r, _, hdirect⟩ := PageChain.append_direct_full directory_lawful hs.chain hfull (length_encodeId i) hn
  have hexec := (Prog.exec_healthy _ h.inv h.coherent hh).left
  rw [he, appendDataPageId, ht.last, Prog.bind_eq, Prog.direct_bind, ← encodeId, hdirect] at hexec
  cases hexec

theorem insertFresh_outcome {id : RecordId} (h₀ : 0 < bs.length) (hm : bs.length ≤ SlottedPage.maxRecordSize)
    (ht : Tracks t C) (hs : Stored s C) (hn : s.numPages ≠ invalidId) (full : NoRoom s t bs.length p₀)
    (h : p.Ready (s.push SlottedPage.init) 3) (hsame : p₀.SameRoom p) (habs : ¬p.Resident s.numPages)
    (he : (t.insertFresh (some bs) true s.numPages).exec p = (some (st, id, t'), q)) : Outcome s t bs p₀ q st id := by
  have hinit : (s.push SlottedPage.init).page? s.numPages = some SlottedPage.init := PageStorage.page?_push_self hn
  rw [exec_insertFresh] at he
  rcases hins : (tryInsertIntoPage s.numPages (some bs) true).exec p with ⟨r₁, q₁⟩
  rcases tryInsertIntoPage_cases h₀ hm h hinit .init hins with
    ⟨slot, d, rfl, hold, _, _, hready, hsame₁, hw⟩ | ⟨e, rfl, hr, _, hcase⟩
  · have hspare : ¬p.AllPinned := fun ha => habs (hold ha)
    have hvalid : RecordId.valid ⟨s.numPages, slot⟩ := by
      rcases tryInsertIntoPage_out s.numPages (some bs) p with ⟨_, _, herr⟩ | ⟨_, _, _, _, hid, hok, _⟩
      · cases hins.symm.trans (herr true)
      · cases hins.symm.trans hok
        exact hid
    -- The pages of the table are the same, and the new one is not one of them yet.
    have hx : PageStorage.Extends (fun _ => False) s ((s.push SlottedPage.init).setPage s.numPages d) :=
      (PageStorage.Extends.push hn).setPage_new PageStorage.page?_numPages
    have hpage : ((s.push SlottedPage.init).setPage s.numPages d).page? s.numPages = some d :=
      (PageStorage.page?_setPage (by rw [hinit]; rfl)).trans (if_pos rfl)
    have hfresh : s.numPages ∉ owned C := fun hm => PageStorage.ne_numPages (hs.isSome hm) rfl
    have hlen : ((s.push SlottedPage.init).setPage s.numPages d).pages.length = s.pages.length + 1 := by
      rw [PageStorage.length_setPage, PageStorage.pages_push hn, List.length_append, List.length_singleton]
    simp only [hins] at he
    split at he <;> cases he
    case h_2 happ =>
      refine .fresh full hn (mt hsame.allPinned.mpr hspare) hvalid (by rintro ⟨⟩) ?_
      rintro _ ⟨⟩
      refine ⟨appendDataPageId_code hready (mt hsame₁.allPinned.mp hspare) happ, fun ho => ?_⟩
      obtain ⟨hfull, hlast⟩ := appendDataPageId_fails hready (mt hsame₁.allPinned.mp hspare) ht
        (hs.extends_ hx fun _ _ => id) ⟨d, hpage, hw⟩ hfresh happ ho
      rintro (hlt | hlt)
      · exact hfull hlt
      · exact PageStorage.numPages_ne_invalidId (by omega) hlast
    case h_3 happ =>
      refine .fresh full hn (mt hsame.allPinned.mpr hspare) hvalid (fun _ => ?_) (by rintro _ ⟨⟩)
      rw [exec_appendDataPageId] at happ
      split at happ <;> cases happ
      case h_3 happ =>
        refine (directory.append_ok happ).imp_right fun hne => ?_
        rw [hready.coherent.numPages] at hne
        by_contra hlt
        refine hne (UInt32.toNat_inj.mp ?_)
        have hb := ((s.push SlottedPage.init).setPage s.numPages d).bound
        have hmax : invalidId.toNat = 2 ^ 32 - 1 := rfl
        rw [PageStorage.toNat_numPages]
        omega
  · simp only [hins] at he
    cases he
    rcases hcase with ⟨_, ⟨hold, rfl⟩ | hroom⟩ | ⟨hcode, ho⟩
    · obtain ⟨ha, _⟩ := Classical.not_imp.mp hold
      exact .unloaded full hn (hsame.allPinned.mp ha) hr.coherent.numPages
    · exact absurd (hasRoom_init hinit hm) hroom
    · exact .failed hcode ho

theorem insertOut_outcome (h : p.Ready s (t.dataPages.length + 4)) (ht : Tracks t C) (hs : Stored s C)
    (h₀ : 0 < bs.length) (hm : bs.length ≤ SlottedPage.maxRecordSize) :
    ∃ st id t' q, (t.insertOut (some bs) true).exec p = (some (st, id, t'), q) ∧ Outcome s t bs p q st id := by
  -- Behavior is always defined.
  have hwp := wp_insertOut PageChain.grows_any (fun _ _ _ bs' (_ : some bs = some bs') _ _ _ => trivial) ht hs
  obtain ⟨⟨st, id, t'⟩, _, hr, _⟩ := Prog.wp_exec (c := .any) trivial hwp h.inv h.coherent
  rcases he : (t.insertOut (some bs) true).exec p with ⟨r, q⟩
  rw [he] at hr
  subst hr
  refine ⟨st, id, t', q, rfl, ?_⟩
  have hlen := t.length_candidates
  have hdata : ∀ i ∈ t.candidates, ∃ d, s.page? i = some d ∧ WellFormed d := fun i hi => hs.data i (mem_candidates ht hi)
  have hrec : Insertable (some bs) := ⟨Nat.ne_of_gt h₀, hm⟩
  rw [exec_insertOut t hrec] at he
  rcases hsearch : (tryPages (some bs) true t.candidates).exec p with ⟨r₁, q₁⟩
  rcases tryPages_cases (n := 3) h₀ hm (h.mono (by omega)) hdata hsearch with
    ⟨i, hi, slot, rfl, hold, hroom, hres⟩ | ⟨e, rfl, hcode, ho⟩ | ⟨rfl, hready, hsame, hnone⟩
  · simp only [hsearch] at he
    cases he
    exact .stored ((mem_candidates_iff ht hs).mp hi) hold hroom hres
  · simp only [hsearch] at he
    cases he
    exact .failed hcode ho
  · have full : NoRoom s t bs.length p := fun i hi => hnone i ((mem_candidates_iff ht hs).mpr hi)
    simp only [hsearch] at he
    rcases ha : allocateDataPage.exec q₁ with ⟨r₂, q₂⟩
    rcases exec_addPage_cases hready ha with ⟨e, rfl, hcase⟩ | ⟨rfl, hn, hready₂, hsame₂, habs⟩
    · simp only [ha] at he
      cases he
      rcases hcase with ⟨hn, rfl⟩ | ⟨hcode, ho⟩
      · exact .exhausted full hn
      · exact .failed hcode ho
    · simp only [ha] at he
      exact insertFresh_outcome h₀ hm ht hs hn full hready₂ (hsame.trans hsame₂) habs he

end

-- The directory of a table without records.
def emptyTable : PageStorage where
  pages := [directory.initPage]
  bound := by decide

-- A table with one page that has no records yet, and a page of somebody else.
def onePage : PageStorage where
  pages := [(directory.writeEntry directory.initPage 0 (encodeId 1)).getD zeroPage, SlottedPage.init, zeroPage]
  bound := by decide

theorem stored_onePage : Stored onePage { last := 0, entries := [1] } where
  chain := by
    obtain ⟨d, hd, hh⟩ := (PageChain.holds_init directory_lawful).writeEntry (by decide) (length_encodeId 1)
    refine ⟨trivial, ⟨d, ?_, hh⟩, by simp [Chain.ids_eq]⟩
    change some ((directory.writeEntry directory.initPage 0 (encodeId 1)).getD zeroPage) = some d
    exact congrArg (some <| Option.getD · zeroPage) hd
  data i hi := by
    rw [List.mem_singleton.mp (show i ∈ [1] from hi)]
    exact ⟨SlottedPage.init, rfl, .init⟩
  nodup := by decide

end HeapTable
end NexusDb
