import NexusDb.Catalog.Theorems.Acceptance
import NexusDb.Query.Theorems.ReadOnly
import NexusDb.Record.Theorems.Opening

open Bytes

namespace NexusDb

-- Without an out-parameter the call is defined, and up to what the out-parameter gets it does the same as with
-- one.
def OutOptional [Device σ] (call : Bool → Prog α) (rest : α → β) (p : BufferPool σ) : Prop :=
  ∃ r r' q, (call false).exec p = (some r, q) ∧ (call true).exec p = (some r', q) ∧ rest r = rest r'

namespace HeapTable

-- The table has a page with room for the record that the pool can hold, or it can get a new one.
def CanTake (s : PageStorage) (t : HeapTable) (record : Option Bytes) (p : BufferPool Disk) : Prop :=
  Insertable record ∧ ((∃ i ∈ t.dataPages, p.CanHold i ∧ HasRoom s (record.getD []).length i) ∨
    (¬p.AllPinned ∧ s.numPages ≠ invalidId))

variable {p : BufferPool Disk} {s : PageStorage} {C : Chain PageId} {t : HeapTable}

theorem Outcome.id_cases {q : BufferPool Disk} {id : RecordId} (h : Outcome s t bs p q st id) (hrec : Insertable (some bs)) :
    (CanTake s t (some bs) p ∧ ¬∃ e, st = .error e ∧ id = {}) ∨
    (id = {} ∧ (CanTake s t (some bs) p → ¬Device.ok q.dev)) := by
  have hfull : NoRoom s t bs.length p → s.numPages = invalidId ∨ p.AllPinned → ¬CanTake s t (some bs) p := by
    rintro full hn ⟨_, ⟨i, hi, hold, hroom⟩ | ⟨hspare, hne⟩⟩
    · exact full i hi hold hroom
    · exact hn.elim hne hspare
  cases h
  case stored i _ hi hold room _ => exact .inl ⟨⟨hrec, .inl ⟨i, hi, hold, room⟩⟩, by rintro ⟨_, ⟨⟩, _⟩⟩
  case failed _ ho => exact .inr ⟨rfl, fun _ => ho⟩
  case exhausted full hn => exact .inr ⟨rfl, fun htake => absurd htake (hfull full (.inl hn))⟩
  case unloaded full _ ha _ => exact .inr ⟨rfl, fun htake => absurd htake (hfull full (.inr ha))⟩
  case fresh _ hn hspare _ _ hid =>
    refine .inl ⟨⟨hrec, .inr ⟨hspare, hn⟩⟩, ?_⟩
    rintro ⟨_, _, rfl⟩
    cases hid

-- Then it writes a record id, unless a call on the files fails. Otherwise it never does.
theorem insertOut_canTake (h : p.Ready s (t.dataPages.length + 4)) (ht : Tracks t C) (hs : Stored s C)
    (record : Option Bytes) :
    (¬CanTake s t record p → ∃ e q, ∀ out, (t.insertOut record out).exec p = (some (.error e, {}, t), q)) ∧
    (CanTake s t record p → p.dev.Plain → ((t.insertOut record false).exec p).fst = none) := by
  by_cases hrec : Insertable record
  case neg =>
    have ⟨e, he⟩ := exec_insertOut_rejected t hrec p
    exact ⟨fun _ => ⟨e, p, he⟩, fun htake => absurd htake.left hrec⟩
  case pos =>
    obtain ⟨bs, rfl⟩ := hrec.exists_bytes
    have h₀ : 0 < bs.length := Nat.pos_of_ne_zero hrec.ne_zero
    obtain ⟨st, id, t', q, he, hout⟩ := insertOut_outcome h ht hs h₀ hrec.le_max
    rcases t.insertOut_out (some bs) p with ⟨e, q', hall⟩ | ⟨hid, hnone⟩
    · refine ⟨fun _ => ⟨e, q', hall⟩, fun htake hd => ?_⟩
      have hok := (Prog.exec_stable Disk.stable_plain (t.insertOut (some bs) true) hd).ok
      rw [he] at hok
      cases he.symm.trans (hall true)
      rcases hout.id_cases hrec with ⟨_, hn⟩ | ⟨_, ho⟩
      · exact absurd ⟨e, rfl, rfl⟩ hn
      · exact absurd hok (ho htake)
    · refine ⟨fun hn => ?_, fun _ _ => hnone⟩
      have hvalid := hid _ (congrArg Prod.fst he)
      rcases hout.id_cases hrec with ⟨htake, _⟩ | ⟨rfl, _⟩
      · exact absurd htake hn
      · cases hvalid

end HeapTable

namespace QueryExecutor

theorem openTable_readOnly (q : QueryExecutor) (name : Bytes) : (q.openTable name).ReadOnly := by
  rw [openTable]
  split
  case h_1 => trivial
  case h_2 =>
    rw [Catalog.openTable]
    split
    case h_1 => trivial
    case h_2 => exact HeapTable.open_readOnly

theorem exec_insert [Device σ] (q : QueryExecutor) (table : Bytes) (record : Option Bytes) (out : Bool)
    (p : BufferPool σ) :
    (q.insert table record out).exec p =
      match (q.openTable table).exec p with
      | (none, p)            => (none, p)
      | (some (.error e), p) => (some (.error e), p)
      | (some (.ok heap), p) =>
        match (heap.insertOut record out).exec p with
        | (none, p)          => (none, p)
        | (some (s, id, _), p) => (some (s.map fun _ => id), p) := by
  rw [insert, Prog.bind_eq, Prog.exec_bind]
  rcases (q.openTable table).exec p with ⟨_ | (e | heap), p⟩
  · rfl
  · rfl
  · simp only [HeapTable.insert, Prog.bind_eq, Prog.exec_bind]
    rcases (heap.insertOut record out).exec p with ⟨_ | ⟨s, id, t⟩, p⟩
    · rfl
    · rfl

theorem openTable_eq (q : QueryExecutor) (name : Bytes) :
    q.openTable name = match q.catalog.findTable name with
      | .error e => .ret (.error e)
      | .ok root => HeapTable.open root := by
  rw [openTable, Catalog.openTable]
  cases q.catalog.findTable name
  case error => rfl
  case ok => rfl

end QueryExecutor

section

variable {p : BufferPool Disk} {s : PageStorage} {C : Chain PageId} {t : HeapTable}

theorem HeapTable.CanTake.congr {q : BufferPool Disk} {t' : HeapTable} (h : p.SameRoom q) (ht : t'.dataPages = t.dataPages) :
    t'.CanTake s record q ↔ t.CanTake s record p := by
  simp only [CanTake, ht, h.canHold, h.allPinned]

-- Whether the table is opened, and what that leaves.
theorem QueryExecutor.openTable_cases (q : QueryExecutor) (hp : p.Ready s (2 ^ 34)) (hs : HeapTable.Stored s C)
    (hq : ∀ root, q.catalog.findTable table = .ok root → root = C.root) :
    (∃ e p₁, (q.openTable table).exec p = (some (.error e), p₁)) ∨
    (∃ p₁, (q.openTable table).exec p = (some (.ok (HeapTable.loaded C)), p₁) ∧ p₁.Ready s (2 ^ 33) ∧ p.SameRoom p₁ ∧
      q.catalog.findTable table = .ok C.root ∧ ∀ i ∈ C.ids, p.CanHold i) := by
  rw [openTable_eq]
  cases hfind : q.catalog.findTable table
  case error e => exact .inl ⟨e, p, rfl⟩
  case ok root =>
    cases hq root hfind
    rcases he : (HeapTable.open C.root).exec p with ⟨r, p₁⟩
    obtain ⟨_, r, _, hr, _, _, hcase⟩ :=
      Prog.wp_any (HeapTable.wp_open (K := .any) hs (.inl trivial)) hp.inv hp.coherent he
    subst hr
    rcases hcase with rfl | ⟨e, rfl, _⟩
    · obtain ⟨hready, hsame⟩ := HeapTable.open_readOnly.ready HeapTable.open_atMost (n := 2 ^ 33) (hp.mono (by decide)) he
      exact .inr ⟨p₁, rfl, hready, hsame, rfl, HeapTable.canHold_of_open hs (hp.mono (by decide)) he⟩
    · exact .inl ⟨e, p₁, rfl⟩

-- It is opened when the pool can hold its directory and no call on the files fails.
theorem QueryExecutor.openTable_plain (q : QueryExecutor) (hp : p.Ready s (2 ^ 34)) (hd : p.dev.Plain)
    (hs : HeapTable.Stored s C) (hfind : q.catalog.findTable table = .ok C.root) (hold : ∀ i ∈ C.ids, p.CanHold i)
    (hl : s.pages.length ≤ pageLimit) :
    ∃ p₁, (q.openTable table).exec p = (some (.ok (HeapTable.loaded C)), p₁) ∧ p₁.Ready s (2 ^ 33) ∧ p.SameRoom p₁ ∧
      p₁.dev.Plain := by
  have hplain := Prog.exec_stable Disk.stable_plain (q.openTable table) hd
  have hroot : ∀ root, q.catalog.findTable table = .ok root → root = C.root := fun root h =>
    Except.ok.inj (h.symm.trans hfind)
  rcases q.openTable_cases hp hs hroot with ⟨e, p₁, hopen⟩ | ⟨p₁, hopen, hready, hsame, _⟩
  · rw [openTable_eq, hfind] at hopen hplain
    have hok := HeapTable.exec_open hs (hp.mono (by decide)) hold hl hplain.ok
    rw [hopen] at hok
    cases hok
  · rw [hopen] at hplain
    exact ⟨p₁, hopen, hready, hsame, hplain⟩

theorem QueryExecutor.not_outOptional (q : QueryExecutor) (hopen : (q.openTable table).exec p = (some (.ok t), p₁))
    (hnone : ((t.insertOut record false).exec p₁).fst = none) :
    ¬OutOptional (q.insert table record) (·.map fun _ => ()) p := by
  rintro ⟨r, _, q', hr, _⟩
  have hexec := q.exec_insert table record false p
  rw [hopen] at hexec
  rcases hx : (t.insertOut record false).exec p₁ with ⟨_ | _, _⟩
  · simp only [hx, hr] at hexec
    cases hexec
  · rw [hx] at hnone
    cases hnone

theorem HeapTable.outOptional_iff (hp : p.Ready s (t.dataPages.length + 4)) (ht : Tracks t C) (hs : Stored s C)
    (record : Option Bytes) :
    (∀ dev : Disk, dev.storage = p.dev.storage →
      OutOptional (t.insertOut record) (fun r => (r.fst, r.snd.snd)) { p with dev }) ↔ ¬t.CanTake s record p := by
  have htake : ∀ dev : Disk, dev.storage = p.dev.storage → _ := fun dev hd =>
    insertOut_canTake (p := { p with dev }) (hp.same_pages (congrArg PageStorage.page? hd)) ht hs record
  constructor
  case mp =>
    intro h hrec
    obtain ⟨r, _, _, hr, _⟩ := h { storage := p.dev.storage } rfl
    have hnone := (htake { storage := p.dev.storage } rfl).right hrec (.new p.dev.storage)
    rw [hr] at hnone
    cases hnone
  case mpr =>
    intro hn dev hd
    obtain ⟨e, p', hall⟩ := (htake dev hd).left hn
    exact ⟨_, _, p', hall false, hall true, rfl⟩

-- Whatever the calls on the files return, the out-parameter of an insert is optional only if no page can take the
-- record, or the table cannot be opened.
theorem insert_outOptional_iff (hp : p.Ready s (2 ^ 34)) (ht : HeapTable.Tracks t C) (hs : HeapTable.Stored s C)
    (record : Option Bytes) (q : QueryExecutor) (table : Bytes)
    (hq : ∀ root, q.catalog.findTable table = .ok root → root = C.root) :
    ((∀ dev : Disk, dev.storage = p.dev.storage →
        OutOptional (t.insertOut record) (fun r => (r.fst, r.snd.snd)) { p with dev }) ↔ ¬t.CanTake s record p) ∧
    (s.pages.length ≤ pageLimit →
      ((∀ dev : Disk, dev.storage = p.dev.storage →
          OutOptional (q.insert table record) (·.map fun _ => ()) { p with dev }) ↔
        (∃ e, q.catalog.findTable table = .error e) ∨ (∃ i ∈ C.ids, ¬p.CanHold i) ∨ ¬t.CanTake s record p)) := by
  have hready : ∀ dev : Disk, dev.storage = p.dev.storage → BufferPool.Ready { p with dev } s (2 ^ 34) :=
    fun dev hd => hp.same_pages (congrArg PageStorage.page? hd)
  have hlen := hs.length_all_lt
  refine ⟨HeapTable.outOptional_iff (hp.mono (by rw [ht.data]; omega)) ht hs record, fun hl => ?_⟩
  have hlen : (HeapTable.loaded C).dataPages.length + 4 ≤ 2 ^ 33 := by
    change C.all.length + 4 ≤ _
    omega
  have htake : ∀ {dev : Disk} {p₁}, BufferPool.SameRoom { p with dev } p₁ →
      ((HeapTable.loaded C).CanTake s record p₁ ↔ t.CanTake s record p) :=
    fun {dev _} hsame => (HeapTable.CanTake.congr (p := { p with dev }) hsame ht.data.symm)
  constructor
  case mp =>
    intro h
    by_contra hn
    simp only [not_or, not_exists, not_and, not_not] at hn
    obtain ⟨hfind, hold, hrec⟩ := hn
    -- The table is there and can be opened when all calls on the files succeed.
    have hroot : q.catalog.findTable table = .ok C.root := by
      cases hroot : q.catalog.findTable table
      case error e => exact absurd hroot (hfind e)
      case ok root => rw [hq root hroot]
    obtain ⟨p₁, hopen, hready₁, hsame, hplain⟩ := q.openTable_plain (hready { storage := p.dev.storage } rfl)
      (.new p.dev.storage) hs hroot hold hl
    have hnone := (HeapTable.insertOut_canTake (hready₁.mono hlen) (HeapTable.loaded_tracks C) hs record).right
      ((htake hsame).mpr hrec) hplain
    exact q.not_outOptional hopen hnone (h { storage := p.dev.storage } rfl)
  case mpr =>
    intro h dev hd
    have hexec := fun out => q.exec_insert table record out { p with dev }
    rcases q.openTable_cases (hready dev hd) hs hq with ⟨e, p₁, hopen⟩ | ⟨p₁, hopen, hready₁, hsame, hroot, hold⟩
    · simp only [hopen] at hexec
      exact ⟨_, _, p₁, hexec false, hexec true, rfl⟩
    · have hn : ¬t.CanTake s record p := by
        rcases h with ⟨e, he⟩ | ⟨i, hi, hn⟩ | hn
        · cases hroot.symm.trans he
        · exact absurd (hold i hi) hn
        · exact hn
      obtain ⟨e, p', hall⟩ := (HeapTable.insertOut_canTake (hready₁.mono hlen) (HeapTable.loaded_tracks C) hs record).left
        (mt (htake hsame).mp hn)
      simp only [hopen, hall] at hexec
      exact ⟨_, _, p', hexec false, hexec true, rfl⟩

end

-- Somebody else holds the only frame of the pool.
theorem insert_outOptional_pinned :
    let t := HeapTable.loaded { last := 0, entries := [1] }
    let q : QueryExecutor := { catalog := { root := 3, entries := [([0x74], 0)] } }
    ∃ p p₁ : BufferPool Disk, BufferPool.create { storage := HeapTable.onePage } 1 = .ok p ∧ p.fetch 2 = (.ok 0, p₁) ∧
      ∀ dev : Disk, dev.storage = HeapTable.onePage →
        OutOptional (t.insertOut (some [7])) (fun r => (r.fst, r.snd.snd)) { p₁ with dev } ∧
        OutOptional (q.insert [0x74] (some [7])) (·.map fun _ => ()) { p₁ with dev } := by
  intro t q
  obtain ⟨p, hp⟩ : ∃ p : BufferPool Disk, BufferPool.create { storage := HeapTable.onePage } 1 = .ok p := ⟨_, rfl⟩
  have hready : p.Ready HeapTable.onePage (2 ^ 34 + 1) :=
    .of_serves (.create hp fun _ => rfl) (by rw [(BufferPool.Clock.create hp).right]; decide)
  cases hp
  obtain ⟨p₁, hp₁⟩ : ∃ p₁, BufferPool.fetch (⟨{ storage := HeapTable.onePage }, 1, [{}], 0, 0⟩ : BufferPool Disk) 2 =
    (.ok 0, p₁) := ⟨_, rfl⟩
  obtain ⟨ha, habs, hdev⟩ : p₁.AllPinned ∧ p₁.findFrame 1 = none ∧ p₁.dev.storage = HeapTable.onePage := by
    cases hp₁
    exact ⟨by decide, rfl, rfl⟩
  have htake : ¬t.CanTake HeapTable.onePage (some [7]) p₁ := by
    rintro ⟨_, ⟨i, hi, hold, _⟩ | ⟨hspare, _⟩⟩
    · rw [List.mem_singleton.mp (show i ∈ [1] from hi)] at hold
      exact BufferPool.findFrame_none habs (hold ha)
    · exact hspare ha
  have h := insert_outOptional_iff (hready.pin hp₁) (HeapTable.loaded_tracks _) HeapTable.stored_onePage (some [7]) q [0x74]
    (by rintro _ ⟨⟩; rfl)
  rw [hdev] at h
  refine ⟨_, p₁, rfl, hp₁, fun dev hd => ⟨h.left.mpr htake dev hd, (h.right (by decide)).mpr (.inr (.inr htake)) dev hd⟩⟩

-- A table without records on a database where everything works.
theorem insert_not_outOptional :
    let q : QueryExecutor := { catalog := { root := 0, lastPage := 0, lastPageCount := 1, entries := [([0x74], 1)] } }
    let p : BufferPool Disk := { dev := { storage := Catalog.oneTable }, capacity := 1, frames := [{}] }
    ¬OutOptional (q.insert [0x74] (some [7])) (·.map fun _ => ()) p := by
  intro q p
  rintro ⟨r, r', p', hr, _⟩
  have hnone : ((q.insert [0x74] (some [7]) false).exec p).fst.isNone := by decide +kernel
  rw [hr] at hnone
  cases hnone

end NexusDb
