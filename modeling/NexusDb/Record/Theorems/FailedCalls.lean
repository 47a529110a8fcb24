import NexusDb.Record.Theorems.Contents
import NexusDb.Record.Theorems.Reached

open Bytes

namespace NexusDb

namespace HeapTable

section

variable [Device σ]

-- A call that would have changed records has failed.
inductive Fails : BufferPool σ → HeapTable → BufferPool σ → HeapTable → Prop
  | insert {id : RecordId} (h : (t.insertOut record out).exec p = (some (.error e, id, t'), q)) : Fails p t q t'
  | update {id : RecordId} (h : (t.update id record).exec p = (some (.error e), q)) : Fails p t q t
  | delete {id : RecordId} (h : (t.delete id).exec p = (some (.error e), q)) : Fails p t q t

variable {p q : BufferPool σ} {t t' : HeapTable} {s s' : PageStorage} {C C' : Chain PageId}

theorem Attached.samePages (h : Attached p t s C) (hs : BufferPool.SamePages p q) : Attached q t s C :=
  ⟨hs.left, hs.right s h.coherent, h.tracks, h.stored, h.full⟩

-- It leaves the records and the root as they were. The directory may have got another page.
theorem Fails.kept (h : Fails p t q t') (ha : Attached p t s C) :
    ∃ s' C', Attached q t' s' C' ∧ Kept s C s' C' ∧ C'.root = C.root ∧ s.pages.length ≤ s'.pages.length := by
  cases h
  case insert h =>
    have ⟨s', C', ha', hl, hk, _⟩ := ha.insertOut h
    exact ⟨s', C', ha', hk, hl.grown.root, hl.frame.length⟩
  case update h =>
    have ⟨s', ha', hs, _⟩ := ha.update h
    subst hs
    exact ⟨s', C, ha', .refl, rfl, le_rfl⟩
  case delete h =>
    have ⟨s', ha', hs, _⟩ := ha.delete h
    subst hs
    exact ⟨s', C, ha', .refl, rfl, le_rfl⟩

theorem Kept.rows (h : Kept s C s' C') : rows s' C'.all = rows s C.all := by
  rw [h.all, HeapTable.rows, HeapTable.rows, List.flatMap_congr]
  intro i hi
  rw [slots_congr (h.same i hi)]

-- What the calls return when pages can be fetched.

namespace Attached

theorem get_healthy {id : RecordId} (h : Attached p t s C) (hh : (t.get id true).Healthy p) :
    ((t.get id true).exec p).fst = some (lookup s C id) :=
  HeapTable.get_healthy h.tracks h.stored h.inv h.coherent hh

theorem scanPages_inPlace {fn : τ → RecordId → Bytes → τ × Bool} (ctx : τ) (is : List PageId) :
    (scanPages fn ctx is).InPlace := by
  induction is generalizing ctx
  case nil => trivial
  case cons i is ih =>
    intro r
    match r with
    | .error _         => trivial
    | .ok (_, true)    => trivial
    | .ok (ctx, false) => exact ih ctx

theorem scan_healthy {fn : τ → RecordId → Bytes → τ × Bool} (h : Attached p t s C)
    (hh : (t.scan (some fn) ctx).Healthy p) :
    ((t.scan (some fn) ctx).exec p).fst = some (.ok (), (visit fn ctx (rows s C.all)).fst) := by
  have ⟨r, _, hr, _, _, hq⟩ := Prog.wp_healthy (wp_scan (K := .reliable) h.tracks h.stored ctx) h.inv h.coherent hh
    (.inr (scanPages_inPlace ctx t.dataPages))
  rcases hq with rfl | ⟨_, _, hf⟩
  · exact hr
  · cases hf

theorem insert_healthy (h : Attached p t s C) (h₀ : 0 < bs.length) (hm : bs.length ≤ SlottedPage.maxRecordSize)
    (hh : (t.insertOut (some bs) true).Healthy p)
    (hl : (Device.numPages ((t.insertOut (some bs) true).exec p).snd.dev).toNat ≤ pageLimit) :
    ∃ id t', ((t.insertOut (some bs) true).exec p).fst = some (.ok (), id, t') := by
  have ⟨⟨status, id, t'⟩, _, hr, _, _, _, hq⟩ := Prog.wp_healthy
    (wp_insertOut (K := .reliable) PageChain.grows_reliable (fun _ _ _ _ _ _ _ _ => trivial) h.tracks h.stored)
    h.inv h.coherent hh (.inl hl)
  cases status
  case ok => exact ⟨id, t', hr⟩
  case error e =>
    rcases hq.right.right with hrej | hf
    · cases hrej
      case empty h => exact absurd h (Nat.ne_of_gt h₀)
      case large h => exact absurd hm (Nat.not_le.mpr h)
    · cases hf

end Attached

-- What cannot be seen of a call that has failed, in files with not more than `limit` pages. The pool may be used by
-- others in between. When pages can be fetched, the calls return the same as before, and a record can be inserted.
structure Invisible (limit : Nat) (p : BufferPool σ) (t : HeapTable) (q : BufferPool σ) (t' : HeapTable) : Prop where
  count  : t'.dataPages.length = t.dataPages.length
  get    : ∀ p₁ q₁, BufferPool.SamePages p p₁ → BufferPool.SamePages q q₁ →
    ∀ id, (t.get id true).Healthy p₁ → (t'.get id true).Healthy q₁ →
      ((t'.get id true).exec q₁).fst = ((t.get id true).exec p₁).fst
  scan   : ∀ p₁ q₁, BufferPool.SamePages p p₁ → BufferPool.SamePages q q₁ →
    ∀ (τ : Type) (fn : τ → RecordId → Bytes → τ × Bool) (ctx : τ),
      (t.scan (some fn) ctx).Healthy p₁ → (t'.scan (some fn) ctx).Healthy q₁ →
        ((t'.scan (some fn) ctx).exec q₁).fst = ((t.scan (some fn) ctx).exec p₁).fst
  reopen : ∀ p₁ q₁, BufferPool.SamePages p p₁ → BufferPool.SamePages q q₁ →
    (HeapTable.open t.root).Healthy p₁ → (HeapTable.open t.root).Healthy q₁ →
      (Device.numPages q₁.dev).toNat ≤ limit →
        ∃ t₁ t₂, ((HeapTable.open t.root).exec p₁).fst = some (.ok t₁) ∧
          ((HeapTable.open t.root).exec q₁).fst = some (.ok t₂) ∧
          t₂.root = t₁.root ∧ t₂.dataPages = t₁.dataPages ∧ t₂.lastDataPage = t₁.lastDataPage
  insert : ∀ q₁, BufferPool.SamePages q q₁ →
    ∀ bs : Bytes, 0 < bs.length → bs.length ≤ SlottedPage.maxRecordSize →
      (t'.insertOut (some bs) true).Healthy q₁ →
        (Device.numPages ((t'.insertOut (some bs) true).exec q₁).snd.dev).toNat ≤ limit →
          ∃ id t'', ((t'.insertOut (some bs) true).exec q₁).fst = some (.ok (), id, t'')

theorem failed_call_invisible (h : Reached p t) (hf : Fails p t q t') : Invisible pageLimit p t q t' := by
  have ⟨s, C, ha⟩ := h.attached
  have ⟨s', C', ha', hk, hroot, hlen⟩ := hf.kept ha
  have hroot' : t'.root = t.root := by rw [ha.tracks.root, ha'.tracks.root, hroot]
  constructor
  case count => rw [ha.tracks.data, ha'.tracks.data, hk.all]
  case get =>
    intro p₁ q₁ hp hq id hh hh'
    rw [(ha.samePages hp).get_healthy hh, (ha'.samePages hq).get_healthy hh', hk.lookup]
  case scan =>
    intro p₁ q₁ hp hq τ fn ctx hh hh'
    rw [(ha.samePages hp).scan_healthy hh, (ha'.samePages hq).scan_healthy hh', hk.rows]
  case reopen =>
    intro p₁ q₁ hp hq hh hh' hl
    have ha := ha.samePages hp
    have ha' := ha'.samePages hq
    rw [ha'.coherent.numPages, PageStorage.toNat_numPages] at hl
    refine ⟨loaded C, loaded C', ha.open_healthy hh (hlen.trans hl), ?_, hroot, hk.all, ?_⟩
    · rw [← hroot'] at hh' ⊢
      exact ha'.open_healthy hh' hl
    · rw [loaded, loaded, hk.all]
  case insert => exact fun q₁ hq bs h₀ hm => (ha'.samePages hq).insert_healthy h₀ hm

end

-- The pages behind the directory of a table without records may belong to others.
theorem reached_empty {p : BufferPool Disk} {s : PageStorage} (hi : p.Inv) (hc : p.Coherent s.page?)
    (h₀ : s.page? 0 = some directory.initPage) : Reached p (loaded { last := 0 }) := by
  have ⟨q, hcreate, hcq⟩ := exec_create_newFile
  refine .others (reached_newFile hcreate) hi fun s₁ hc₁ => ⟨s, hc, fun C hC _ i hm => ?_⟩
  have hsome := hC.isSome hm
  rw [hcq.unique hc₁] at hsome ⊢
  have hi : i = 0 := by
    have hlt : i.toNat < 1 := UInt32.lt_iff_toNat_lt.mp (PageStorage.page?_isSome_iff.mp hsome)
    exact UInt32.toNat_inj.mp (Nat.lt_one_iff.mp hlt)
  rw [hi, h₀]
  rfl

-- The record is on a new page when the directory cannot be read.
theorem failed_call_invisible_unlinked : ∃ (p q : BufferPool Disk) (e : Error) (id : RecordId) (t' : HeapTable),
    BufferPool.create { storage := emptyTable, io := [.success, .success, .success, .failure 0] } 1 = .ok p ∧
    ((loaded { last := 0 }).insertOut (some [7]) true).exec p = (some (.error e, id, t'), q) ∧
    Device.numPages q.dev = 2 ∧ Invisible pageLimit p (loaded { last := 0 }) q t' := by
  obtain ⟨p, hp⟩ : ∃ p : BufferPool Disk, BufferPool.create
    { storage := emptyTable, io := [.success, .success, .success, .failure 0] } 1 = .ok p := ⟨_, rfl⟩
  have hs : p.Serves emptyTable := .create hp fun _ => rfl
  have hfails : (((loaded { last := 0 }).insertOut (some [7]) true).exec p).fst.any (!·.fst.isOk) ∧
      Device.numPages (((loaded { last := 0 }).insertOut (some [7]) true).exec p).snd.dev = 2 := by
    cases hp
    decide +kernel
  rcases he : ((loaded { last := 0 }).insertOut (some [7]) true).exec p with ⟨_ | ⟨e | ⟨⟩, id, t'⟩, q⟩
  all_goals rw [he] at hfails
  · cases hfails.left
  · exact ⟨p, q, e, id, t', hp, he, hfails.right, failed_call_invisible (reached_empty hs.inv hs.coherent rfl) (.insert he)⟩
  · cases hfails.left

theorem insertOut_empty {t : HeapTable} (h : Insertable record) (ht : t.candidates = []) :
    t.insertOut record true = .newPage SlottedPage.init fun
      | .error e  => .ret (.error e, {}, t)
      | .ok fresh => t.insertFresh record true fresh := by
  rw [insertOut, if_neg h.ne_zero, if_neg (Nat.not_lt.mpr h.le_max), ht]
  rfl

-- Without the limit this is not so. A call can take the last page id and then fail.
theorem failed_call_visible : ∃ (p q : BufferPool Disk) (t t' : HeapTable),
    Reached p t ∧ Fails p t q t' ∧ ¬Invisible (2 ^ 32) p t q t' := by
  have ⟨s, h₀, hn⟩ := PageStorage.exists_lastId directory.initPage
  have ⟨p, hp⟩ : ∃ p, BufferPool.create (Disk.lastId s) 1 = .ok p := ⟨_, rfl⟩
  have hs : p.Serves s := .create hp fun _ => rfl
  have hrecord : Insertable (some [7]) := ⟨by decide, by decide⟩
  have hempty := insertOut_empty (t := loaded { last := 0 }) hrecord rfl
  have ⟨e, dev, hexec, ht, hfull⟩ := Prog.exec_newPage_lastId (BufferPool.create_inv hp).right.right.left hn SlottedPage.init fun
    | .error e  => .ret (.error e, {}, loaded { last := 0 })
    | .ok fresh => (loaded { last := 0 }).insertFresh (some [7]) true fresh
  have hfails : ((loaded { last := 0 }).insertOut (some [7]) true).exec p =
      (some (.error e, {}, loaded { last := 0 }), { p with dev }) := by
    rw [hempty, hexec]
    rfl
  refine ⟨p, { p with dev }, loaded { last := 0 }, loaded { last := 0 }, reached_empty hs.inv hs.coherent h₀,
    .insert hfails, fun h => ?_⟩
  -- Then there is no page for the record that is inserted next.
  have ⟨hh, q, hexec'⟩ := Prog.newPage_exhausted (p := { p with dev }) ht hfull (k := fun
    | .error e  => .ret (.error e, {}, loaded { last := 0 })
    | .ok fresh => (loaded { last := 0 }).insertFresh (some [7]) true fresh) (fun _ => trivial) SlottedPage.init
  rw [← hempty] at hh hexec'
  have ⟨id, t', hok⟩ := h.insert { p with dev } ⟨(hs.inv.keeps_dev dev).inv, fun _ hc => hc⟩ [7] (by decide)
    (by decide) hh (Nat.le_of_lt (UInt32.toNat_lt _))
  rw [hexec'] at hok
  cases hok

end HeapTable
end NexusDb
