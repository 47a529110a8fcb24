import NexusDb.Record.HeapTable
import NexusDb.Record.Theorems.Chain
import NexusDb.Record.Theorems.SlottedArray

open Bytes

namespace NexusDb

open PageStorage (Extends)
open PageChain (Visits walked Appended)
open SlottedPage (WellFormed records)

namespace HeapTable

def encodeId (i : PageId) : Bytes :=
  leBytes 4 i.toNat

theorem decode_encodeId (i : PageId) : UInt32.ofNat (leNat (encodeId i)) = i := by
  rw [encodeId, leNat_leBytes_of_lt i.toNat_lt, UInt32.ofNat_toNat]

theorem length_encodeId (i : PageId) : (encodeId i).length = directory.entrySize :=
  length_leBytes 4 _

theorem directory_lawful : directory.Lawful :=
  ⟨rfl, by decide, by decide⟩

-- The pages that belong to a table whose directory is the chain `C`.
def owned (C : Chain PageId) : List PageId :=
  C.ids ++ C.all

-- A table is there, and its pages are different.
structure Stored (s : PageStorage) (C : Chain PageId) : Prop where
  chain : directory.Stores encodeId s C
  data  : ∀ i ∈ C.all, ∃ d, s.page? i = some d ∧ WellFormed d
  nodup : (owned C).Nodup

-- An open table has what its directory says. The hint for the next insert is one of its pages.
structure Tracks (t : HeapTable) (C : Chain PageId) : Prop where
  root  : t.root = C.root
  data  : t.dataPages = C.all
  last  : t.lastDir = C.last
  count : t.lastDirCount = C.entries.length
  hint  : t.lastDataPage = invalidId ∨ t.lastDataPage ∈ C.all

-- The slots of a page.
def slots (s : PageStorage) (i : PageId) : List (Option Bytes) :=
  (s.page? i).elim [] records

variable {s s' s₁ s₂ : PageStorage} {C C' C₁ C₂ : Chain PageId} {K : Contract} {t : HeapTable} {i : PageId}

theorem slots_eq (h : s.page? i = some d) : slots s i = records d := by
  rw [slots, h]
  rfl

theorem slots_congr (h : s'.page? i = s.page? i) : slots s' i = slots s i := by
  rw [slots, slots, h]

theorem last_mem_owned : C.last ∈ owned C :=
  List.mem_append_left _ Chain.last_mem

namespace Stored

theorem isSome (h : Stored s C) (hi : i ∈ owned C) : (s.page? i).isSome := by
  cases List.mem_append.mp hi
  case inl hi => exact h.chain.isSome hi
  case inr hi =>
    have ⟨d, hd, _⟩ := h.data i hi
    rw [hd]
    rfl

theorem ne_invalidId (h : Stored s C) (hi : i ∈ owned C) : i ≠ invalidId := by
  have ⟨d, hd⟩ := Option.isSome_iff_exists.mp (h.isSome hi)
  exact PageStorage.ne_invalidId hd

theorem disjoint (h : Stored s C) (hi : i ∈ C.ids) (hj : j ∈ C.all) : i ≠ j :=
  fun he => (List.nodup_append.mp h.nodup).right.right i hi j hj he

theorem congr (h : Stored s C) (hs : ∀ i ∈ owned C, s'.page? i = s.page? i) : Stored s' C where
  chain       := h.chain.congr fun i hi => hs i (List.mem_append_left _ hi)
  data i hi := by
    rw [hs i (List.mem_append_right _ hi)]
    exact h.data i hi
  nodup       := h.nodup

theorem extends_ (h : Stored s C) (hx : Extends S s s') (hS : ∀ i ∈ owned C, ¬S i) : Stored s' C :=
  h.congr fun i hi => hx.same i (h.isSome hi) (hS i hi)

-- A data page with other records.
theorem setPage (h : Stored s C) (hi : i ∈ C.all) (hw : WellFormed d) : Stored (s.setPage i d) C := by
  have hsome := h.isSome (List.mem_append_right _ hi)
  refine ⟨h.chain.congr fun j hj => ?_, fun j hj => ?_, h.nodup⟩
  · exact (PageStorage.page?_setPage hsome).trans (if_neg (h.disjoint hj hi).symm)
  · rw [PageStorage.page?_setPage hsome]
    split
    case isTrue => exact ⟨d, rfl, hw⟩
    case isFalse => exact h.data j hj

end Stored

-- What the directory becomes. New pages were not there before.
structure Grown (s : PageStorage) (C C' : Chain PageId) : Prop where
  root  : C'.root = C.root
  ids   : C.ids <+: C'.ids
  all   : C.all <+: C'.all
  full  : C.Full directory.capacity → C'.Full directory.capacity
  fresh : ∀ i ∈ owned C', i ∈ owned C ∨ s.page? i = none

-- What a call on a table leads to. It changes no pages of others.
structure Leads (s : PageStorage) (C : Chain PageId) (s' : PageStorage) (C' : Chain PageId) : Prop where
  stored : Stored s' C'
  grown  : Grown s C C'
  frame  : Extends (· ∈ owned C) s s'

theorem Grown.refl : Grown s C C :=
  ⟨rfl, List.prefix_rfl, List.prefix_rfl, id, fun _ => .inl⟩

theorem Leads.refl (h : Stored s C) : Leads s C s C :=
  ⟨h, .refl, .refl⟩

theorem Leads.setPage (h : Stored s C) (hi : i ∈ C.all) (hw : WellFormed d) : Leads s C (s.setPage i d) C :=
  ⟨h.setPage hi hw, .refl, .setPage (List.mem_append_right _ hi)⟩

-- Pages were added that do not belong to the table.
theorem Leads.extends_ (h : Stored s C) (hx : Extends (fun _ => False) s s') : Leads s C s' C :=
  ⟨h.extends_ hx fun _ _ => id, .refl, hx.mono fun _ => False.elim⟩

-- The records are still the same.
structure Kept (s : PageStorage) (C : Chain PageId) (s' : PageStorage) (C' : Chain PageId) : Prop where
  all  : C'.all = C.all
  same : ∀ i ∈ C.all, s'.page? i = s.page? i

theorem Kept.refl : Kept s C s C :=
  ⟨rfl, fun _ _ => rfl⟩

-- There is one more record, on a page that the table had or on a new one.
structure Inserted (s : PageStorage) (C : Chain PageId) (s' : PageStorage) (C' : Chain PageId) (bs : Bytes)
    (id : RecordId) : Prop where
  all   : (C'.all = C.all ∧ id.page ∈ C.all) ∨ (C'.all = C.all ++ [id.page] ∧ s.page? id.page = none)
  slot  : id.slot = UInt16.ofNat (slots s id.page).length
  slots : slots s' id.page = slots s id.page ++ [some bs]
  same  : ∀ i ∈ C.all, i ≠ id.page → s'.page? i = s.page? i

-- The table as it is after it was opened.
def loaded (C : Chain PageId) : HeapTable where
  root         := C.root
  dataPages    := C.all
  lastDir      := C.last
  lastDirCount := C.entries.length
  lastDataPage := C.all.getLastD invalidId

theorem loaded_tracks (C : Chain PageId) : Tracks (loaded C) C := by
  refine ⟨rfl, rfl, rfl, rfl, ?_⟩
  rw [loaded]
  cases h : C.all.getLast?
  case none => exact .inl (by simp [List.getLastD_eq_getLast?, h])
  case some i => exact .inr (by simpa [List.getLastD_eq_getLast?, h] using List.mem_of_getLast? h)

theorem visits_checkDataPage (h : Stored s C) :
    Visits K s encodeId (checkDataPage C.root) (fun ids i => .ok (ids ++ [i])) C.all := by
  intro ids i hi
  have hmem : i ∈ owned C := List.mem_append_right _ hi
  have hroot : ¬(i = invalidId ∨ i = C.root) := by
    rintro (he | he)
    · exact h.ne_invalidId hmem he
    · exact h.disjoint Chain.root_mem hi he.symm
  have hlt : i < s.numPages := PageStorage.page?_isSome_iff.mp (h.isSome hmem)
  rw [checkDataPage, decode_encodeId, if_neg hroot]
  refine Prog.wp_bind <| Prog.wp_pageExists (fun ht => ?_) ?_
  · exact ⟨rfl, .inr ⟨_, rfl, ht⟩⟩
  · simp only [hlt, decide_true]
    exact ⟨rfl, .inl rfl⟩

theorem foldlM_ids (ids is : List PageId) :
    is.foldlM (fun ids i => (.ok (ids ++ [i]) : Except Error (List PageId))) ids = .ok (ids ++ is) := by
  induction is generalizing ids
  case nil => simp; rfl
  case cons i is ih => exact (ih (ids ++ [i])).trans (by simp)

theorem wp_loadDirectory (h : Stored s C) (hf : K.Fits s) :
    (loadDirectory C.root).wp K
      (fun r t => t = s ∧ (r = .ok (loaded C) ∨ ∃ e, r = .error e ∧ K.tolerant)) s := by
  rw [loadDirectory]
  refine Prog.wp_bind <| Prog.wp_countPages (fun e he => ⟨rfl, .inr ⟨e, rfl, he⟩⟩) ?_
  apply Prog.wp_seq (PageChain.wp_walk h.chain hf (visits_checkDataPage h) [])
  rintro r t ⟨ht, hr⟩
  subst ht
  cases hr
  case inl hr =>
    rw [walked, foldlM_ids] at hr
    subst hr
    exact ⟨rfl, .inl rfl⟩
  case inr hr =>
    obtain ⟨e, he, hf⟩ := hr
    subst he
    exact ⟨rfl, .inr ⟨e, rfl, hf⟩⟩

theorem wp_open (h : Stored s C) (hf : K.Fits s) :
    (HeapTable.open C.root).wp K
      (fun r t => t = s ∧ (r = .ok (loaded C) ∨ ∃ e, r = .error e ∧ K.tolerant)) s := by
  rw [HeapTable.open, if_neg (h.ne_invalidId (List.mem_append_left _ Chain.root_mem))]
  exact wp_loadDirectory h hf

-- A table without records.
theorem stored_init (h : s.page? i = some directory.initPage) : Stored s { last := i } where
  chain      := .init directory_lawful h
  data _ hi  := by simp [Chain.all_eq] at hi
  nodup      := by simp [owned, Chain.ids_eq, Chain.all_eq]

theorem wp_create :
    create.wp K (fun r s' =>
      (s' = s.push directory.initPage ∧ Stored s' { last := s.numPages } ∧ s.numPages ≠ invalidId ∧
        r = .ok (loaded { last := s.numPages })) ∨
      (Extends (fun _ => False) s s' ∧ K.tolerant ∧ ∃ e, r = .error e)) s := by
  rw [create]
  refine Prog.wp_bind <| Prog.wp_addPage (fun e ht => .inr ⟨.refl, ht, e, rfl⟩)
    (fun hn e d ht => .inr ⟨.push hn, ht, e, rfl⟩) fun hn hf => ?_
  have hinit : (s.push directory.initPage).page? s.numPages = some directory.initPage := PageStorage.page?_push_self hn
  refine Prog.wp_mono (wp_loadDirectory (stored_init hinit) hf) ?_
  rintro r s' ⟨rfl, rfl | ⟨e, rfl, ht⟩⟩
  · exact .inl ⟨rfl, stored_init hinit, hn, rfl⟩
  · exact .inr ⟨.push hn, ht, e, rfl⟩

-- A page that the directory does not have yet becomes its last entry.
theorem wp_appendDataPageId (hg : directory.Grows K) (ht : Tracks t C) (hs : Stored s C)
    (hd : ∃ d, s.page? new = some d ∧ WellFormed d) (hn : new ∉ owned C) :
    (t.appendDataPageId new).wp K (fun r s' => ∃ C', Appended directory.capacity C new s.numPages r.fst C' ∧
      (∀ e, r.fst = .error e → K.tolerant) ∧ Tracks r.snd C' ∧ Stored s' C' ∧ Extends (· = C.last) s s') s := by
  rw [appendDataPageId, ht.last, ht.count, ← encodeId]
  refine Prog.wp_seq (PageChain.wp_append directory_lawful hg hs.chain (length_encodeId new)) ?_
  rintro ⟨r, last, count⟩ s' ⟨C', ha, hf, he, hc, hx⟩
  cases he
  have hsame : ∀ i ∈ C.all ++ [new], s'.page? i = s.page? i := by
    intro i hi
    have hne : i ≠ C.last := by
      cases List.mem_append.mp hi
      case inl hi => exact (hs.disjoint Chain.last_mem hi).symm
      case inr hi =>
        rw [List.mem_singleton.mp hi]
        exact fun he => hn (he ▸ last_mem_owned)
    refine hx.same i ?_ hne
    cases List.mem_append.mp hi
    case inl hi => exact hs.isSome (List.mem_append_right _ hi)
    case inr hi =>
      have ⟨d, hd, _⟩ := hd
      rw [List.mem_singleton.mp hi, hd]
      rfl
  have hdata : ∀ i ∈ C.all ++ [new], ∃ d, s'.page? i = some d ∧ WellFormed d := by
    intro i hi
    rw [hsame i hi]
    cases List.mem_append.mp hi
    case inl hi => exact hs.data i hi
    case inr hi => exact List.mem_singleton.mp hi ▸ hd
  -- The page that may have been added to the chain is not there yet.
  have hnew : s.numPages ∉ owned C ∧ s.numPages ≠ new := by
    constructor
    · exact fun hm => PageStorage.ne_numPages (hs.isSome hm) rfl
    · rintro rfl
      have ⟨d, hd, _⟩ := hd
      rw [PageStorage.page?_numPages] at hd
      cases hd
  have hnodup : ∀ {is js}, is = C.ids ∨ is = C.ids ++ [s.numPages] → js = C.all ∨ js = C.all ++ [new] →
      (is ++ js).Nodup := by
    have hn₀ := hs.nodup
    simp only [owned, List.nodup_append, List.mem_append] at hn₀ hn hnew
    rintro is js (rfl | rfl) (rfl | rfl) <;> simp [List.nodup_append] <;> grind
  cases ha
  case pushed =>
    refine ⟨_, .pushed, hf, ⟨ht.root, ?_, rfl, rfl, ?_⟩, ⟨hc, ?_, ?_⟩, hx⟩
    · simp [ht.data]
    · exact ht.hint.imp_right fun h => by simp [h]
    · simpa using hdata
    · exact hnodup (.inl (by simp)) (.inr (by simp))
  case grown he =>
    refine ⟨_, .grown he, hf, ⟨?_, ?_, rfl, rfl, ?_⟩, ⟨hc, ?_, ?_⟩, hx⟩
    · simp [ht.root]
    · simp [ht.data]
    · exact ht.hint.imp_right fun h => by simp [h]
    · simpa using hdata
    · exact hnodup (.inr (by simp)) (.inr (by simp))
  case same =>
    refine ⟨_, .same, hf, ⟨ht.root, ht.data, rfl, rfl, ht.hint⟩, ⟨hc, ?_, hs.nodup⟩, hx⟩
    exact fun i hi => hdata i (List.mem_append_left _ hi)
  case extended he =>
    refine ⟨_, .extended he, hf, ⟨?_, ?_, rfl, rfl, ?_⟩, ⟨hc, ?_, ?_⟩, hx⟩
    · simp [ht.root]
    · simp [ht.data]
    · exact ht.hint.imp_right fun h => by simp [h]
    · simp only [Chain.all_extend]
      exact fun i hi => hdata i (List.mem_append_left _ hi)
    · exact hnodup (.inr (by simp)) (.inl (by simp))

section

variable {bs : Bytes} (h₀ : 0 < bs.length) (hm : bs.length ≤ SlottedPage.maxRecordSize)
  (hk : ∀ i d d', WellFormed d → WellFormed d' → records d' = records d ++ [some bs] → K.change i d d')

include h₀ hm hk

-- A page gets the record, or it is full.
theorem wp_tryInsertIntoPage (hd : s.page? i = some d) (hw : WellFormed d) :
    (tryInsertIntoPage i (some bs) true).wp K (fun r s' =>
      (∃ d', r = .ok ⟨i, UInt16.ofNat (records d).length⟩ ∧ s' = s.setPage i d' ∧ WellFormed d' ∧
        records d' = records d ++ [some bs]) ∨
      (s' = s ∧ ∃ e, r = .error e ∧ ((e.code = .bufferFull ∧
        SlottedPage.freeEnd d - SlottedPage.freeStart d < 4 + bs.length) ∨ K.tolerant))) s := by
  rw [tryInsertIntoPage]
  cases SlottedPage.insert_outcome hw h₀ hm
  case inl h =>
    have ⟨d', hi, hw', hr⟩ := h
    exact Prog.wp_write hd (by simp [hi]) (fun e he => .inr ⟨rfl, e, rfl, .inr he⟩) (hk i d d' hw hw' hr)
      (.inl ⟨d', rfl, rfl, hw', hr⟩)
  case inr h =>
    exact Prog.wp_read hd (by simp [h.left]; rfl) (fun e he => .inr ⟨rfl, e, rfl, .inr he⟩)
      (.inr ⟨rfl, _, rfl, .inl ⟨rfl, h.right⟩⟩)

-- The first page with room for it gets the record. A page that could not be fetched can be skipped too.
theorem wp_tryPages (hp : ∀ i ∈ ps, ∃ d, s.page? i = some d ∧ WellFormed d) :
    (tryPages (some bs) true ps).wp K (fun r s' =>
      (∃ i ∈ ps, ∃ d d', r = some (.ok ⟨i, UInt16.ofNat (records d).length⟩) ∧ s.page? i = some d ∧
        s' = s.setPage i d' ∧ WellFormed d' ∧ records d' = records d ++ [some bs]) ∨
      (s' = s ∧ (r = none ∨ ∃ e, r = some (.error e) ∧ K.tolerant))) s := by
  induction ps
  case nil => exact .inr ⟨rfl, .inl rfl⟩
  case cons i ps ih =>
    have ⟨d, hd, hw⟩ := hp i List.mem_cons_self
    rw [tryPages]
    refine Prog.wp_seq (wp_tryInsertIntoPage h₀ hm hk hd hw) ?_
    rintro r s' (⟨d', rfl, rfl, hw', hr⟩ | ⟨rfl, e, rfl, he⟩)
    · exact .inl ⟨i, List.mem_cons_self, d, d', rfl, hd, rfl, hw', hr⟩
    · simp only
      split
      case isTrue =>
        refine Prog.wp_mono (ih fun j hj => hp j (List.mem_cons_of_mem _ hj)) fun r t h => h.imp_left ?_
        exact fun ⟨j, hj, h⟩ => ⟨j, List.mem_cons_of_mem _ hj, h⟩
      case isFalse hc => exact .inr ⟨rfl, .inr ⟨e, rfl, he.resolve_left fun h => hc h.left⟩⟩

end

theorem mem_candidates (ht : Tracks t C) (hi : i ∈ t.candidates) : i ∈ C.all := by
  rw [candidates, ht.data, List.mem_append] at hi
  cases hi
  case inr hi => exact List.mem_of_mem_filter hi
  case inl hi =>
    split at hi
    case isTrue => cases hi
    case isFalse hn => exact List.mem_singleton.mp hi ▸ ht.hint.resolve_left hn

-- The arguments that an insert rejects.
inductive InsertRejects : Bytes → Error → Prop
  | empty (h : bs.length = 0) : InsertRejects bs (bad "HeapTable::Insert: null or empty record")
  | large (h : SlottedPage.maxRecordSize < bs.length) :
      InsertRejects bs ⟨.bufferFull, "record is larger than a page can ever hold"⟩

-- What an insert returns and leads to.
def Inserts (K : Contract) (s : PageStorage) (C : Chain PageId) (record : Option Bytes) (r : Except Error RecordId)
    (s' : PageStorage) (C' : Chain PageId) : Prop :=
  Leads s C s' C' ∧
    match r with
    | .ok id   => ∃ bs, record = some bs ∧ Inserted s C s' C' bs id
    | .error e => Kept s C s' C' ∧ (InsertRejects (record.getD []) e ∨ K.tolerant)

-- The record on a page that was just added, and the page in the directory.
theorem inserts_new (hs : Stored s C) (hx : Extends (fun _ => False) s s₁) (hnew : s.page? new = none)
    (hd : s₁.page? new = some d) (hr : records d = [some bs]) (ha : Appended directory.capacity C new s₁.numPages res C')
    (hf : ∀ e, res = .error e → K.tolerant) (hs' : Stored s' C') (hx' : Extends (· = C.last) s₁ s') :
    Inserts K s C (some bs) (res.map fun _ => ⟨new, 0⟩) s' C' := by
  have hsome : ∀ {i}, i ∈ C.all → (s.page? i).isSome := fun hi => hs.isSome (List.mem_append_right _ hi)
  have hsame : ∀ i ∈ C.all, s'.page? i = s.page? i := by
    intro i hi
    have h := hx.same i (hsome hi) id
    exact (hx'.same i (h ▸ hsome hi) (hs.disjoint Chain.last_mem hi).symm).trans h
  have hlast : new ≠ C.last := by
    rintro rfl
    have := hs.isSome last_mem_owned
    rw [hnew] at this
    cases this
  have hleads : Leads s C s' C' := by
    refine ⟨hs', ⟨ha.root, ?_, ?_, ha.full, fun i hi => ?_⟩, ?_⟩
    · cases ha.ids
      case inl h => exact h ▸ List.prefix_rfl
      case inr h => exact h ▸ List.prefix_append _ _
    · cases res
      case ok => exact ha.all_ok ▸ List.prefix_append _ _
      case error => exact ha.all_error ▸ List.prefix_rfl
    · have hn : s.page? s₁.numPages = none := hx.page?_eq_none PageStorage.page?_numPages
      have hids : i ∈ C'.ids → i ∈ owned C ∨ s.page? i = none := by
        intro hi
        cases ha.ids
        case inl h => exact .inl (List.mem_append_left _ (h ▸ hi))
        case inr h =>
          rw [h] at hi
          cases List.mem_append.mp hi
          case inl hi => exact .inl (List.mem_append_left _ hi)
          case inr hi => exact .inr (List.mem_singleton.mp hi ▸ hn)
      have hall : i ∈ C'.all → i ∈ owned C ∨ s.page? i = none := by
        intro hi
        cases res
        case error => exact .inl (List.mem_append_right _ (ha.all_error ▸ hi))
        case ok =>
          rw [ha.all_ok] at hi
          cases List.mem_append.mp hi
          case inl hi => exact .inl (List.mem_append_right _ hi)
          case inr hi => exact .inr (List.mem_singleton.mp hi ▸ hnew)
      cases List.mem_append.mp hi
      case inl hi => exact hids hi
      case inr hi => exact hall hi
    · exact (hx.mono fun _ => False.elim).trans (hx'.mono fun _ h => h ▸ last_mem_owned)
  refine ⟨hleads, ?_⟩
  cases res
  case error e => exact ⟨⟨ha.all_error, hsame⟩, .inr (hf e rfl)⟩
  case ok =>
    have hd' : s'.page? new = some d := (hx'.same new (hd ▸ rfl) hlast).trans hd
    refine ⟨bs, rfl, .inr ⟨ha.all_ok, hnew⟩, ?_, ?_, fun i hi _ => hsame i hi⟩
    · simp [slots, hnew]
    · simp [slots, hnew, hd', hr]

-- The record on a page that was just added.
theorem wp_insertFresh {bs : Bytes} (h₀ : 0 < bs.length) (hm : bs.length ≤ SlottedPage.maxRecordSize)
    (hg : directory.Grows K)
    (hk : ∀ i d d', WellFormed d → WellFormed d' → records d' = records d ++ [some bs] → K.change i d d')
    (ht : Tracks t C) (hs : Stored s C) (hn : s.numPages ≠ invalidId) :
    (t.insertFresh (some bs) true s.numPages).wp K (fun r s' => ∃ C', Tracks r.snd.snd C' ∧
      Inserts K s C (some bs) (r.fst.map fun _ => r.snd.fst) s' C') (s.push SlottedPage.init) := by
  have hx : Extends (fun _ => False) s (s.push SlottedPage.init) := .push hn
  have hnone : s.page? s.numPages = none := PageStorage.page?_numPages
  have hinit : (s.push SlottedPage.init).page? s.numPages = some SlottedPage.init := PageStorage.page?_push_self hn
  rw [insertFresh]
  refine Prog.wp_seq (wp_tryInsertIntoPage h₀ hm hk hinit .init) ?_
  rintro r s₂ (⟨d, rfl, rfl, hw, hr⟩ | ⟨rfl, e, rfl, he⟩)
  · have hx₂ := hx.setPage_new (d := d) hnone
    have hd : ((s.push SlottedPage.init).setPage s.numPages d).page? s.numPages = some d :=
      (PageStorage.page?_setPage (by rw [hinit]; rfl)).trans (if_pos rfl)
    have hfresh : s.numPages ∉ owned C := fun hm => by
      have hsome := hs.isSome hm
      rw [hnone] at hsome
      cases hsome
    refine Prog.wp_seq (wp_appendDataPageId hg ht (hs.extends_ hx₂ fun _ _ => id) ⟨d, hd, hw⟩ hfresh) ?_
    rintro ⟨res, t'⟩ s₃ ⟨C', ha, hf, ht', hs', hx'⟩
    have hins := inserts_new hs hx₂ hnone hd hr ha hf hs' hx'
    cases res
    case error e => exact ⟨C', ht', hins⟩
    case ok => exact ⟨C', ⟨ht'.root, ht'.data, ht'.last, ht'.count, .inr (by simp [ha.all_ok])⟩, hins⟩
  · have hkept : Kept s C (s.push SlottedPage.init) C :=
      ⟨rfl, fun i hi => hx.same i (hs.isSome (List.mem_append_right _ hi)) id⟩
    refine ⟨C, ht, .extends_ hs hx, hkept, .inr (he.resolve_left fun h => ?_)⟩
    -- A new page has room for every record.
    have hfree : SlottedPage.freeEnd SlottedPage.init - SlottedPage.freeStart SlottedPage.init = 4080 := by
      decide
    have := h.right
    simp at hm
    omega

theorem wp_insertOut (hg : directory.Grows K)
    (hk : ∀ i d d' bs, record = some bs → WellFormed d → WellFormed d' → records d' = records d ++ [some bs] →
      K.change i d d')
    (ht : Tracks t C) (hs : Stored s C) :
    (t.insertOut record true).wp K (fun r s' => ∃ C', Tracks r.snd.snd C' ∧
      Inserts K s C record (r.fst.map fun _ => r.snd.fst) s' C') s := by
  rw [insertOut]
  split
  case isTrue h => exact ⟨C, ht, .refl hs, .refl, .inl (.empty h)⟩
  case isFalse h₀ =>
    split
    case isTrue h => exact ⟨C, ht, .refl hs, .refl, .inl (.large h)⟩
    case isFalse hm =>
      obtain ⟨bs, rfl⟩ : ∃ bs, record = some bs := by
        cases record
        case none => exact absurd rfl h₀
        case some bs => exact ⟨bs, rfl⟩
      have h₀ : 0 < bs.length := Nat.pos_of_ne_zero h₀
      have hm : bs.length ≤ SlottedPage.maxRecordSize := Nat.not_lt.mp hm
      have hk := fun i d d' => hk i d d' bs rfl
      refine Prog.wp_seq (wp_tryPages h₀ hm hk fun i hi => hs.data i (mem_candidates ht hi)) ?_
      rintro r s' (⟨i, hi, d, d', rfl, hd, rfl, hw', hr⟩ | ⟨rfl, rfl | ⟨e, rfl, he⟩⟩)
      · have hi := mem_candidates ht hi
        have hsome : (s.page? i).isSome := by rw [hd]; rfl
        have hd' : (s.setPage i d').page? i = some d' := (PageStorage.page?_setPage hsome).trans (if_pos rfl)
        refine ⟨C, ⟨ht.root, ht.data, ht.last, ht.count, .inr hi⟩, .setPage hs hi hw', bs, rfl, .inl ⟨rfl, hi⟩,
          by rw [slots_eq hd], by rw [slots_eq hd, slots_eq hd', hr], fun j _ hj => ?_⟩
        exact (PageStorage.page?_setPage hsome).trans (if_neg hj.symm)
      · -- No page has room, so that the table gets a new one.
        have hkept : ∀ {s₁}, Extends (fun _ => False) s' s₁ → Kept s' C s₁ C := fun hx =>
          ⟨rfl, fun i hi => hx.same i (hs.isSome (List.mem_append_right _ hi)) id⟩
        simp only [allocateDataPage]
        exact Prog.wp_bind <| Prog.wp_addPage (fun e he => ⟨C, ht, .refl hs, .refl, .inr he⟩)
          (fun hn e d he => ⟨C, ht, .extends_ hs (.push hn), hkept (.push hn), .inr he⟩)
          fun hn _ => wp_insertFresh h₀ hm hg hk ht hs hn
      · exact ⟨C, ht, .refl hs, .refl, .inr he⟩

theorem wp_insert (hg : directory.Grows K)
    (hk : ∀ i d d' bs, record = some bs → WellFormed d → WellFormed d' → records d' = records d ++ [some bs] →
      K.change i d d')
    (ht : Tracks t C) (hs : Stored s C) :
    (t.insert record true).wp K (fun r s' => ∃ C', Tracks r.snd C' ∧ Inserts K s C record r.fst s' C') s := by
  rw [insert]
  exact Prog.wp_seq (wp_insertOut hg hk ht hs) fun _ _ => id

-- What the table has for a record id.
def lookup (s : PageStorage) (C : Chain PageId) (id : RecordId) : Except Error Bytes :=
  if !id.valid then
    .error <| bad "HeapTable::Get: invalid record id"
  else if id.page ∉ C.all then
    .error ⟨.notFound, "heap table: record id does not name a table page"⟩
  else
    match (slots s id.page)[id.slot.toNat]? with
    | none           => .error <| bad "SlottedPage::Read: slot index out of range"
    | some none      => .error ⟨.notFound, "slot is deleted"⟩
    | some (some bs) => .ok bs

theorem length_slots_lt : (slots s i).length < 65536 := by
  rw [slots]
  cases s.page? i
  case none => decide
  case some d => exact SlottedPage.length_records.trans_lt SlottedPage.slotCount_lt

theorem isDataPage_eq (ht : Tracks t C) : t.isDataPage i = decide (i ∈ C.all) := by
  rw [isDataPage, ht.data]

theorem wp_get (ht : Tracks t C) (hs : Stored s C) (id : RecordId) :
    (t.get id true).wp K (fun r s' => s' = s ∧ (r = lookup s C id ∨ ∃ e, r = .error e ∧ K.tolerant)) s := by
  rw [get, lookup, isDataPage_eq ht]
  simp only [Bool.not_true, Bool.false_eq_true, ↓reduceIte]
  split
  case isTrue => exact ⟨rfl, .inl rfl⟩
  case isFalse =>
    by_cases hi : id.page ∈ C.all
    case neg =>
      simp only [hi, decide_false, Bool.not_false, ↓reduceIte, not_false_eq_true]
      exact ⟨rfl, .inl rfl⟩
    case pos =>
      simp only [hi, decide_true, Bool.not_true, Bool.false_eq_true, ↓reduceIte, not_true_eq_false]
      have ⟨d, hd, hw⟩ := hs.data _ hi
      rw [slots_eq hd]
      refine Prog.wp_read hd ?_ (fun e he => ⟨rfl, .inr ⟨e, rfl, he⟩⟩) ⟨rfl, .inl rfl⟩
      rw [SlottedPage.read_eq hw.toValid]
      rfl

-- One slot of a table has changed, and nothing else.
structure Changed (s : PageStorage) (C : Chain PageId) (s' : PageStorage) (id : RecordId) (new : Option Bytes) :
    Prop where
  leads : Leads s C s' C
  page  : id.page ∈ C.all
  live  : ∃ old, (slots s id.page)[id.slot.toNat]? = some (some old)
  slots : slots s' id.page = (slots s id.page).set id.slot.toNat new
  same  : ∀ i, i ≠ id.page → s'.page? i = s.page? i

theorem changed_setPage (hs : Stored s C) {id : RecordId} (hi : id.page ∈ C.all) (hd : s.page? id.page = some d)
    (hold : (records d)[id.slot.toNat]? = some (some old)) (hw : WellFormed d')
    (hr : records d' = (records d).set id.slot.toNat new) : Changed s C (s.setPage id.page d') id new := by
  have hsome : (s.page? id.page).isSome := by rw [hd]; rfl
  have hd' : (s.setPage id.page d').page? id.page = some d' :=
    (PageStorage.page?_setPage hsome).trans (if_pos rfl)
  refine ⟨.setPage hs hi hw, hi, ⟨old, by rw [slots_eq hd, hold]⟩, by rw [slots_eq hd, slots_eq hd', hr], ?_⟩
  exact fun i hne => (PageStorage.page?_setPage hsome).trans (if_neg hne.symm)

-- Why an update can fail when pages can be fetched.
inductive UpdateFails (s : PageStorage) (C : Chain PageId) (id : RecordId) (bs : Bytes) : Error → Prop
  | empty (h : bs.length = 0) : UpdateFails s C id bs (bad "HeapTable::Update: null or empty record")
  | large (h : SlottedPage.maxRecordSize < bs.length) :
      UpdateFails s C id bs ⟨.bufferFull, "record is larger than a page can ever hold"⟩
  | invalid (h : id.valid = false) : UpdateFails s C id bs (bad "HeapTable::Update: invalid record id")
  | foreign (h : id.page ∉ C.all) :
      UpdateFails s C id bs ⟨.notFound, "heap table: record id does not name a table page"⟩
  | range (h : (slots s id.page)[id.slot.toNat]? = none) :
      UpdateFails s C id bs (bad "SlottedPage::Update: slot index out of range")
  | deleted (h : (slots s id.page)[id.slot.toNat]? = some none) :
      UpdateFails s C id bs ⟨.notFound, "slot is deleted"⟩
  | full (h : id.page ∈ C.all) : UpdateFails s C id bs ⟨.bufferFull, "record cannot grow in the free region"⟩

def Updates (K : Contract) (s : PageStorage) (C : Chain PageId) (id : RecordId) (record : Option Bytes) (r : Status)
    (s' : PageStorage) : Prop :=
  match r with
  | .ok ()   => ∃ bs, record = some bs ∧ Changed s C s' id (some bs)
  | .error e => s' = s ∧ (UpdateFails s C id (record.getD []) e ∨ K.tolerant)

theorem wp_update (ht : Tracks t C) (hs : Stored s C) (id : RecordId)
    (hk : id.page ∈ C.all → ∀ d d' old bs, record = some bs → WellFormed d → WellFormed d' →
      (records d)[id.slot.toNat]? = some (some old) → records d' = (records d).set id.slot.toNat (some bs) →
      K.change id.page d d') :
    (t.update id record).wp K (Updates K s C id record) s := by
  rw [update]
  split
  case isTrue h => exact ⟨rfl, .inl (.empty h)⟩
  case isFalse h₀ =>
    split
    case isTrue h => exact ⟨rfl, .inl (.large h)⟩
    case isFalse hm =>
      split
      case isTrue h => exact ⟨rfl, .inl (.invalid (by simpa using h))⟩
      case isFalse =>
        rw [isDataPage_eq ht]
        split
        case isTrue h => exact ⟨rfl, .inl (.foreign (by simpa using h))⟩
        case isFalse hi =>
          have hi : id.page ∈ C.all := by simpa using hi
          obtain ⟨bs, rfl⟩ : ∃ bs, record = some bs := by
            cases record
            case none => exact absurd rfl h₀
            case some bs => exact ⟨bs, rfl⟩
          have ⟨d, hd, hw⟩ := hs.data _ hi
          have hslots := slots_eq hd
          have hout := SlottedPage.update_outcome hw id.slot (Nat.pos_of_ne_zero h₀) (Nat.not_lt.mp hm)
          have hread : ∀ {e}, SlottedPage.update d id.slot (some bs) = some (.error e, none) →
              UpdateFails s C id bs e → (Prog.onPage id.page fun d => SlottedPage.update d id.slot (some bs)).wp K
                (Updates K s C id (some bs)) s :=
            fun hu he => Prog.wp_read hd hu (fun e he => ⟨rfl, .inr he⟩) ⟨rfl, .inl he⟩
          split at hout
          case h_1 h => exact hread hout (.range (hslots ▸ h))
          case h_2 h => exact hread hout (.deleted (hslots ▸ h))
          case h_3 old h =>
            cases hout
            case inr hu => exact hread hu (.full hi)
            case inl hu =>
              have ⟨d', hu, hw', hr⟩ := hu
              exact Prog.wp_write hd hu (fun e he => ⟨rfl, .inr he⟩) (hk hi d d' old bs rfl hw hw' h hr)
                ⟨bs, rfl, changed_setPage hs hi hd h hw' hr⟩

-- Why a deletion can fail when pages can be fetched.
inductive DeleteFails (s : PageStorage) (C : Chain PageId) (id : RecordId) : Error → Prop
  | invalid (h : id.valid = false) : DeleteFails s C id (bad "HeapTable::Delete: invalid record id")
  | foreign (h : id.page ∉ C.all) :
      DeleteFails s C id ⟨.notFound, "heap table: record id does not name a table page"⟩
  | range (h : (slots s id.page)[id.slot.toNat]? = none) :
      DeleteFails s C id (bad "SlottedPage::Delete: slot index out of range")
  | deleted (h : (slots s id.page)[id.slot.toNat]? = some none) :
      DeleteFails s C id ⟨.notFound, "slot is already deleted"⟩

def Deletes (K : Contract) (s : PageStorage) (C : Chain PageId) (id : RecordId) (r : Status) (s' : PageStorage) :
    Prop :=
  match r with
  | .ok ()   => Changed s C s' id none
  | .error e => s' = s ∧ (DeleteFails s C id e ∨ K.tolerant)

theorem wp_delete (ht : Tracks t C) (hs : Stored s C) (id : RecordId)
    (hk : id.page ∈ C.all → ∀ d d' old, WellFormed d → WellFormed d' →
      (records d)[id.slot.toNat]? = some (some old) → records d' = (records d).set id.slot.toNat none →
      K.change id.page d d') :
    (t.delete id).wp K (Deletes K s C id) s := by
  rw [delete]
  split
  case isTrue h => exact ⟨rfl, .inl (.invalid (by simpa using h))⟩
  case isFalse =>
    rw [isDataPage_eq ht]
    split
    case isTrue h => exact ⟨rfl, .inl (.foreign (by simpa using h))⟩
    case isFalse hi =>
      have hi : id.page ∈ C.all := by simpa using hi
      have ⟨d, hd, hw⟩ := hs.data _ hi
      have hslots := slots_eq hd
      have hout := SlottedPage.delete_outcome hw id.slot
      split at hout
      case h_1 h => exact Prog.wp_read hd hout (fun e he => ⟨rfl, .inr he⟩) ⟨rfl, .inl (.range (hslots ▸ h))⟩
      case h_2 h => exact Prog.wp_read hd hout (fun e he => ⟨rfl, .inr he⟩) ⟨rfl, .inl (.deleted (hslots ▸ h))⟩
      case h_3 old h =>
        have ⟨d', hu, hw', hr⟩ := hout
        exact Prog.wp_write hd hu (fun e he => ⟨rfl, .inr he⟩) (hk hi d d' old hw hw' h hr)
          (changed_setPage hs hi hd h hw' hr)

-- The live records of a page with these slots, and those of some pages in the order of a scan.

def pageRows (i : PageId) (rs : List (Option Bytes)) : List (RecordId × Bytes) :=
  (SlottedPage.liveFrom 0 rs).map fun r => (⟨i, r.fst⟩, r.snd)

def rows (s : PageStorage) (is : List PageId) : List (RecordId × Bytes) :=
  is.flatMap fun i => pageRows i (slots s i)

-- Visits the records of a list until the visitor asks to stop. It also says whether the visitor did.
def visit (fn : σ → RecordId → Bytes → σ × Bool) (ctx : σ) : List (RecordId × Bytes) → σ × Bool
  | []            => (ctx, false)
  | (id, bs) :: r => if (fn ctx id bs).snd then visit fn (fn ctx id bs).fst r else ((fn ctx id bs).fst, true)

theorem visit_append {fn : σ → RecordId → Bytes → σ × Bool} (ctx : σ) (r r' : List (RecordId × Bytes)) :
    visit fn ctx (r ++ r') =
      if (visit fn ctx r).snd then visit fn ctx r else visit fn (visit fn ctx r).fst r' := by
  induction r generalizing ctx
  case nil => simp [visit]
  case cons p r ih =>
    rw [List.cons_append, visit, visit]
    split
    case isTrue => exact ih _
    case isFalse => simp

theorem visit_scanBridge {fn : σ → RecordId → Bytes → σ × Bool} (ctx : σ) (rs : List (SlotId × Bytes)) :
    SlottedPage.visit (scanBridge i fn) (ctx, false) rs =
      visit fn ctx (rs.map fun r => (⟨i, r.fst⟩, r.snd)) := by
  induction rs generalizing ctx
  case nil => rfl
  case cons r rs ih =>
    have hb : scanBridge i fn (ctx, false) r.fst r.snd =
        (((fn ctx ⟨i, r.fst⟩ r.snd).fst, !(fn ctx ⟨i, r.fst⟩ r.snd).snd), (fn ctx ⟨i, r.fst⟩ r.snd).snd) := rfl
    rw [List.map_cons, visit, SlottedPage.visit, hb]
    cases (fn ctx ⟨i, r.fst⟩ r.snd).snd
    case true => exact ih _
    case false => rfl

theorem wp_scanPages {fn : σ → RecordId → Bytes → σ × Bool} (ctx : σ)
    (hp : ∀ i ∈ is, ∃ d, s.page? i = some d ∧ WellFormed d) :
    (scanPages fn ctx is).wp K (fun r s' => s' = s ∧
      (r = (.ok (), (visit fn ctx (rows s is)).fst) ∨ ∃ e, r.fst = .error e ∧ K.tolerant)) s := by
  induction is generalizing ctx
  case nil => exact ⟨rfl, .inl rfl⟩
  case cons i is ih =>
    have ⟨d, hd, hw⟩ := hp i List.mem_cons_self
    have hscan : rows s (i :: is) = pageRows i (records d) ++ rows s is := by
      rw [rows, List.flatMap_cons, slots_eq hd]
      rfl
    rw [scanPages, hscan, visit_append]
    refine Prog.wp_bind <| Prog.wp_read hd (r := .ok (visit fn ctx (pageRows i (records d)))) ?_
      (fun e he => ⟨rfl, .inr ⟨e, rfl, he⟩⟩) ?_
    · rw [SlottedPage.scan_eq hw.toValid, visit_scanBridge]
      rfl
    · generalize visit fn ctx (pageRows i (records d)) = v
      have ⟨ctx', stop⟩ := v
      cases stop
      case true => exact ⟨rfl, .inl rfl⟩
      case false => exact ih ctx' fun j hj => hp j (List.mem_cons_of_mem _ hj)

theorem wp_scan {fn : σ → RecordId → Bytes → σ × Bool} (ht : Tracks t C) (hs : Stored s C) (ctx : σ) :
    (t.scan (some fn) ctx).wp K (fun r s' => s' = s ∧
      (r = (.ok (), (visit fn ctx (rows s C.all)).fst) ∨ ∃ e, r.fst = .error e ∧ K.tolerant)) s := by
  rw [scan, ht.data]
  exact wp_scanPages ctx hs.data

end HeapTable
end NexusDb
