import NexusDb.Record.Theorems.PageChain

namespace NexusDb

open PageStorage (Extends)

-- The pages of a chain with their entries. The last page is the one that gets new entries.
structure Chain (α : Type) where
  front   : List (PageId × List α) := []
  last    : PageId
  entries : List α := []

namespace Chain

def pages (C : Chain α) : List (PageId × List α) :=
  C.front ++ [(C.last, C.entries)]

def ids (C : Chain α) : List PageId :=
  C.pages.map Prod.fst

def all (C : Chain α) : List α :=
  C.pages.flatMap Prod.snd

-- The first page of the part of a chain that has these pages before the last one.
def first (last : PageId) : List (PageId × List α) → PageId
  | []          => last
  | (i, _) :: _ => i

theorem first_nil {j : PageId} : first (α := α) j [] = j :=
  rfl

theorem first_cons {j : PageId} {as : List α} {ps : List (PageId × List α)} : first j ((i, as) :: ps) = i :=
  rfl

def root (C : Chain α) : PageId :=
  first C.last C.front

-- All pages but the last one have `n` entries.
def Full (C : Chain α) (n : Nat) : Prop :=
  ∀ p ∈ C.front, p.snd.length = n

def push (C : Chain α) (a : α) : Chain α :=
  { C with entries := C.entries ++ [a] }

def extend (C : Chain α) (new : PageId) : Chain α :=
  { front := C.pages, last := new }

variable {C : Chain α}

theorem ids_eq : C.ids = C.front.map Prod.fst ++ [C.last] := by
  simp [ids, pages]

theorem all_eq : C.all = C.front.flatMap Prod.snd ++ C.entries := by
  simp [all, pages]

theorem last_mem : C.last ∈ C.ids := by
  simp [ids_eq]

theorem root_mem : C.root ∈ C.ids := by
  rw [ids_eq, root]
  cases C.front
  case nil => exact List.mem_singleton_self _
  case cons => exact List.mem_cons_self

@[simp]
theorem ids_push (a : α) : (C.push a).ids = C.ids := by
  simp [ids_eq, push]

@[simp]
theorem all_push (a : α) : (C.push a).all = C.all ++ [a] := by
  simp [all_eq, push]

@[simp]
theorem root_push (a : α) : (C.push a).root = C.root :=
  rfl

@[simp]
theorem ids_extend (i : PageId) : (C.extend i).ids = C.ids ++ [i] := by
  simp [ids_eq, extend, pages]

@[simp]
theorem all_extend (i : PageId) : (C.extend i).all = C.all := by
  simp [all, extend, pages]

@[simp]
theorem root_extend (i : PageId) : (C.extend i).root = C.root := by
  rw [root, root, extend, pages]
  cases C.front <;> rfl

end Chain

namespace PageChain

variable {c : PageChain} {enc : α → Bytes} {C : Chain α} {s s' : PageStorage} {K : Contract}

-- The pages before the last one point to each other.
def Linked (c : PageChain) (enc : α → Bytes) (s : PageStorage) (last : PageId) : List (PageId × List α) → Prop
  | []              => True
  | (i, as) :: rest =>
    (∃ d, s.page? i = some d ∧ c.Holds d (as.map enc) (Chain.first last rest)) ∧ c.Linked enc s last rest

-- The chain is there, and its pages are different.
structure Stores (c : PageChain) (enc : α → Bytes) (s : PageStorage) (C : Chain α) : Prop where
  linked : c.Linked enc s C.last C.front
  last   : ∃ d, s.page? C.last = some d ∧ c.Holds d (C.entries.map enc) invalidId
  nodup  : C.ids.Nodup

theorem Linked.isSome (h : c.Linked enc s last front) (hi : i ∈ front.map Prod.fst) : (s.page? i).isSome := by
  induction front
  case nil => cases hi
  case cons p front ih =>
    have ⟨⟨d, hd, _⟩, hl⟩ := h
    cases hi
    case head => rw [hd]; rfl
    case tail hi => exact ih hl hi

theorem Linked.congr (h : c.Linked enc s last front)
    (hs : ∀ i ∈ front.map Prod.fst, s'.page? i = s.page? i) : c.Linked enc s' last front := by
  induction front
  case nil => trivial
  case cons p front ih =>
    have ⟨⟨d, hd, hh⟩, hl⟩ := h
    exact ⟨⟨d, (hs _ List.mem_cons_self).trans hd, hh⟩, ih hl fun i hi => hs i (List.mem_cons_of_mem _ hi)⟩

-- One more page at the end of the front.
theorem Linked.snoc (h : c.Linked enc s last front) (hd : s.page? last = some d) (hh : c.Holds d (as.map enc) new) :
    c.Linked enc s new (front ++ [(last, as)]) := by
  induction front
  case nil => exact ⟨⟨d, hd, hh⟩, trivial⟩
  case cons p front ih =>
    have ⟨⟨d', hd', hh'⟩, hl⟩ := h
    refine ⟨⟨d', hd', ?_⟩, ih hl⟩
    cases front
    case nil => exact hh'
    case cons => exact hh'

namespace Stores

theorem isSome (h : c.Stores enc s C) (hi : i ∈ C.ids) : (s.page? i).isSome := by
  rw [Chain.ids_eq] at hi
  cases List.mem_append.mp hi
  case inl hi => exact h.linked.isSome hi
  case inr hi =>
    have ⟨d, hd, _⟩ := h.last
    rw [List.mem_singleton.mp hi, hd]
    rfl

theorem ne_invalidId (h : c.Stores enc s C) (hi : i ∈ C.ids) : i ≠ invalidId := by
  have ⟨d, hd⟩ := Option.isSome_iff_exists.mp (h.isSome hi)
  exact PageStorage.ne_invalidId hd

theorem not_mem_front (h : c.Stores enc s C) : C.last ∉ C.front.map Prod.fst := by
  have hn := h.nodup
  rw [Chain.ids_eq, List.nodup_append] at hn
  exact fun hm => hn.right.right _ hm _ (List.mem_singleton_self _) rfl

-- A chain is still there when its pages are the same.
theorem congr (h : c.Stores enc s C) (hs : ∀ i ∈ C.ids, s'.page? i = s.page? i) : c.Stores enc s' C := by
  rw [Chain.ids_eq] at hs
  have ⟨d, hd, hh⟩ := h.last
  refine ⟨h.linked.congr fun i hi => hs i (List.mem_append_left _ hi), ⟨d, ?_, hh⟩, h.nodup⟩
  exact (hs _ (List.mem_append_right _ (List.mem_singleton_self _))).trans hd

theorem extends_ (h : c.Stores enc s C) (hx : Extends S s s') (hS : ∀ i ∈ C.ids, ¬S i) : c.Stores enc s' C :=
  h.congr fun i hi => hx.same i (h.isSome hi) (hS i hi)

theorem length_le (h : c.Stores enc s C) : C.ids.length ≤ s.pages.length :=
  PageStorage.length_le h.nodup fun _ => h.isSome

-- The first page of a chain.
theorem init (hl : c.Lawful) (hd : s.page? i = some c.initPage) : c.Stores enc s { last := i } where
  linked := trivial
  last   := ⟨_, hd, holds_init hl⟩
  nodup  := by simp [Chain.ids_eq]

-- A new entry on the last page.
theorem push (h : c.Stores enc s C) (hh : c.Holds d ((C.entries ++ [a]).map enc) invalidId) :
    c.Stores enc (s.setPage C.last d) (C.push a) := by
  have hsome := h.isSome Chain.last_mem
  refine ⟨?_, ⟨d, ?_, hh⟩, by rw [Chain.ids_push]; exact h.nodup⟩
  · refine h.linked.congr fun i hi => ?_
    rw [PageStorage.page?_setPage hsome, if_neg]
    exact fun he => h.not_mem_front (he ▸ hi)
  · exact (PageStorage.page?_setPage hsome).trans (if_pos rfl)

-- A new page behind the last one.
theorem extend (h : c.Stores enc s C) (hl : c.Lawful) (hnew : s.page? new = some c.initPage) (hn : new ∉ C.ids)
    (hh : c.Holds d (C.entries.map enc) new) : c.Stores enc (s.setPage C.last d) (C.extend new) := by
  have hsome := h.isSome Chain.last_mem
  have hlast : (s.setPage C.last d).page? C.last = some d := (PageStorage.page?_setPage hsome).trans (if_pos rfl)
  have hother : ∀ i, i ≠ C.last → (s.setPage C.last d).page? i = s.page? i := fun i hi =>
    (PageStorage.page?_setPage hsome).trans (if_neg (Ne.symm hi))
  refine ⟨?_, ⟨c.initPage, ?_, holds_init hl⟩, ?_⟩
  · refine Linked.snoc (h.linked.congr fun i hi => hother i fun he => h.not_mem_front (he ▸ hi)) hlast hh
  · exact (hother new fun he => hn (he ▸ Chain.last_mem)).trans hnew
  · rw [Chain.ids_extend, List.nodup_append]
    refine ⟨h.nodup, by simp, fun i hi j hj he => hn ?_⟩
    rw [← List.mem_singleton.mp hj, ← he]
    exact hi

end Stores

-- What a visitor does with the entries in `as`, unless something goes wrong.
def Visits (K : Contract) (s : PageStorage) (enc : α → Bytes) (visit : β → Bytes → Prog (Except Error β))
    (f : β → α → Except Error β) (as : List α) : Prop :=
  ∀ acc, ∀ a ∈ as, (visit acc (enc a)).wp K
    (fun r t => t = s ∧ (r = f acc a ∨ ∃ e, r = .error e ∧ K.tolerant)) s

theorem visits_pure {g : β → Bytes → Except Error β} :
    Visits K s enc (fun acc entry => return g acc entry) (fun acc a => g acc (enc a)) as :=
  fun _ _ _ => ⟨rfl, .inl rfl⟩

theorem wp_visitEntries {visit : β → Bytes → Prog (Except Error β)} (hv : Visits K s enc visit f as) (acc : β) :
    (visitEntries visit acc (as.map enc)).wp K
      (fun r t => t = s ∧ (r = as.foldlM f acc ∨ ∃ e, r = .error e ∧ K.tolerant)) s := by
  induction as generalizing acc
  case nil => exact ⟨rfl, .inl rfl⟩
  case cons a as ih =>
    rw [List.map_cons, visitEntries]
    refine Prog.wp_seq (hv acc a List.mem_cons_self) fun r t ⟨ht, hr⟩ => ?_
    subst ht
    rw [List.foldlM_cons]
    cases hr
    case inr hr =>
      have ⟨e, he, hf⟩ := hr
      rw [he]
      exact ⟨rfl, .inr ⟨e, rfl, hf⟩⟩
    case inl hr =>
      rw [hr]
      cases f acc a
      case error e => exact ⟨rfl, .inl rfl⟩
      case ok acc' => exact ih (fun acc a ha => hv acc a (List.mem_cons_of_mem _ ha)) acc'

-- Where a walk over a chain ends, and what the visitor has collected.
def walked (f : β → α → Except Error β) (acc : β) (C : Chain α) : Except Error (β × PageId × Nat) :=
  (C.all.foldlM f acc).map fun acc => (acc, C.last, C.entries.length)

theorem walked_cons (f : β → α → Except Error β) (acc : β) :
    walked f acc ⟨(i, as) :: front, last, es⟩ =
      (as.foldlM f acc).bind fun acc => walked f acc ⟨front, last, es⟩ := by
  simp only [walked, Chain.all_eq, List.flatMap_cons, List.append_assoc, List.foldlM_append]
  cases as.foldlM f acc <;> rfl

-- The walk visits all entries in order, unless a page cannot be fetched.
theorem wp_walk_front {visit : β → Bytes → Prog (Except Error β)}
    (hv : Visits K s enc visit f (front.flatMap Prod.snd ++ es)) (acc : β) (prev : PageId)
    (hl : c.Linked enc s last front) (hlast : ∃ d, s.page? last = some d ∧ c.Holds d (es.map enc) invalidId)
    (hn : (prev :: (front.map Prod.fst ++ [last])).Nodup) (hf : front.length < fuel ∨ K.tolerant) :
    (c.walk visit acc (Chain.first last front) prev fuel).wp K (fun r t => t = s ∧
      (r = walked f acc ⟨front, last, es⟩ ∨ ∃ e, r = .error e ∧ K.tolerant)) s := by
  induction fuel generalizing acc prev front
  case zero =>
    have ht := hf.resolve_left (Nat.not_lt_zero _)
    exact ⟨rfl, .inr ⟨_, rfl, ht⟩⟩
  case succ fuel ih =>
    cases front
    case nil =>
      have ⟨d, hd, hh⟩ := hlast
      rw [Chain.first_nil, walk]
      refine Prog.wp_bind <| Prog.wp_read hd hh.readPage (fun e he => ⟨rfl, .inr ⟨e, rfl, he⟩⟩) ?_
      refine Prog.wp_seq (wp_visitEntries hv acc) fun r t ⟨ht, hr⟩ => ?_
      subst ht
      rw [walked, Chain.all_eq]
      cases hr
      case inr hr =>
        have ⟨e, he, hf⟩ := hr
        rw [he]
        exact ⟨rfl, .inr ⟨e, rfl, hf⟩⟩
      case inl hr =>
        rw [hr]
        simp only [List.flatMap_nil, List.nil_append]
        cases es.foldlM f acc
        case error e => exact ⟨rfl, .inl rfl⟩
        case ok acc' => exact ⟨rfl, .inl (by simp [Except.map])⟩
    case cons p front =>
      obtain ⟨i, as⟩ := p
      have ⟨⟨d, hd, hh⟩, hl⟩ := hl
      rw [List.flatMap_cons, List.append_assoc] at hv
      rw [Chain.first_cons, walk]
      refine Prog.wp_bind <| Prog.wp_read hd hh.readPage (fun e he => ⟨rfl, .inr ⟨e, rfl, he⟩⟩) ?_
      refine Prog.wp_seq (wp_visitEntries (fun acc a ha => hv acc a (List.mem_append_left _ ha)) acc)
        fun r t ⟨ht, hr⟩ => ?_
      subst ht
      rw [walked_cons]
      cases hr
      case inr hr =>
        have ⟨e, he, hf⟩ := hr
        rw [he]
        exact ⟨rfl, .inr ⟨e, rfl, hf⟩⟩
      case inl hr =>
        rw [hr]
        cases as.foldlM f acc
        case error e => exact ⟨rfl, .inl rfl⟩
        case ok acc' =>
          have hmem : Chain.first last front ∈ front.map Prod.fst ++ [last] := by
            rw [← Chain.ids_eq (C := ⟨front, last, es⟩)]
            exact Chain.root_mem (C := ⟨front, last, es⟩)
          have hsome : (t.page? (Chain.first last front)).isSome := by
            cases List.mem_append.mp hmem
            case inl hi => exact hl.isSome hi
            case inr hi =>
              have ⟨d, hd, _⟩ := hlast
              rw [List.mem_singleton.mp hi, hd]
              rfl
          have ⟨d', hd'⟩ := Option.isSome_iff_exists.mp hsome
          have ⟨hprev, hn⟩ := List.nodup_cons.mp hn
          have hi := (List.nodup_cons.mp hn).left
          have hne : Chain.first last front ≠ invalidId := PageStorage.ne_invalidId hd'
          have hself : ¬(Chain.first last front = i ∨ Chain.first last front = prev) := by
            rintro (he | he)
            · exact hi (he ▸ hmem)
            · exact hprev (he ▸ List.mem_cons_of_mem _ hmem)
          simp only [if_neg hne, if_neg hself, Except.bind]
          exact ih (fun acc a ha => hv acc a (List.mem_append_right _ ha)) acc' i hl hn
            (hf.imp_left Nat.lt_of_succ_lt_succ)

theorem lt_maxPages (h : n < s.pages.length) (hl : s.pages.length ≤ pageLimit) : n < maxPages s.numPages := by
  have h₂ : (2 : UInt32).toNat = 2 := rfl
  rw [maxPages, UInt32.toNat_add, s.toNat_numPages]
  simp only [pageLimit] at hl
  omega

theorem maxPages_le (h : K.Fits s) (hs : c.Stores enc s C) :
    C.front.length < maxPages s.numPages ∨ K.tolerant := by
  cases h
  case inl ht => exact .inr ht
  case inr hle =>
    have hlen := hs.length_le
    rw [Chain.ids_eq, List.length_append, List.length_map, List.length_singleton] at hlen
    exact .inl <| lt_maxPages hlen hle

theorem wp_walk {visit : β → Bytes → Prog (Except Error β)} (hs : c.Stores enc s C) (hf : K.Fits s)
    (hv : Visits K s enc visit f C.all) (acc : β) :
    (c.walk visit acc C.root invalidId (maxPages s.numPages)).wp K (fun r t => t = s ∧
      (r = walked f acc C ∨ ∃ e, r = .error e ∧ K.tolerant)) s := by
  rw [Chain.all_eq] at hv
  refine wp_walk_front hv acc invalidId hs.linked hs.last ?_ (maxPages_le hf hs)
  rw [← Chain.ids_eq]
  exact List.nodup_cons.mpr ⟨fun hm => hs.ne_invalidId hm rfl, hs.nodup⟩

-- What appending an entry makes of a chain whose pages have room for `n` entries: a new page may have been put
-- behind the last one before the call failed.
inductive Appended (n : Nat) (C : Chain α) (a : α) (new : PageId) : Status → Chain α → Prop
  | pushed                                : Appended n C a new (.ok ()) (C.push a)
  | grown (full : C.entries.length = n)    : Appended n C a new (.ok ()) ((C.extend new).push a)
  | same                                  : Appended n C a new (.error e) C
  | extended (full : C.entries.length = n) : Appended n C a new (.error e) (C.extend new)

namespace Appended

variable {C' : Chain α}

theorem root (h : Appended n C a new r C') : C'.root = C.root := by
  cases h <;> simp

theorem ids (h : Appended n C a new r C') : C'.ids = C.ids ∨ C'.ids = C.ids ++ [new] := by
  cases h <;> simp

theorem full (h : Appended n C a new r C') (hf : C.Full n) : C'.Full n := by
  have hextend : C.entries.length = n → (C.extend new).Full n := fun he p hp => by
    cases List.mem_append.mp hp
    case inl hp => exact hf p hp
    case inr hp => exact List.mem_singleton.mp hp ▸ he
  cases h
  case pushed => exact hf
  case grown he => exact hextend he
  case same => exact hf
  case extended he => exact hextend he

theorem all_ok (h : Appended n C a new (.ok ()) C') : C'.all = C.all ++ [a] := by
  cases h <;> simp

theorem all_error (h : Appended n C a new (.error e) C') : C'.all = C.all := by
  cases h <;> simp

end Appended

-- The contract allows that the last page of a chain grows. It is not the last one any more when it gets a next page.
def Grows (c : PageChain) (K : Contract) : Prop :=
  ∀ i d d' es es' next, c.Holds d es invalidId → c.Holds d' es' next → es <+: es' → K.change i d d'

theorem grows_any : c.Grows .any :=
  fun _ _ _ _ _ _ _ _ _ => trivial

theorem grows_reliable : c.Grows .reliable :=
  fun _ _ _ _ _ _ _ _ _ => trivial

theorem wp_append (hl : c.Lawful) (hg : c.Grows K) (hs : c.Stores enc s C) (he : (enc a).length = c.entrySize) :
    (c.append C.last C.entries.length (enc a)).wp K (fun r s' => ∃ C', Appended c.capacity C a s.numPages r.fst C' ∧
      (∀ e, r.fst = .error e → K.tolerant) ∧ r.snd = (C'.last, C'.entries.length) ∧ c.Stores enc s' C' ∧
      Extends (· = C.last) s s') s := by
  have ⟨d, hd, hh⟩ := hs.last
  have hsame : ∀ e t, K.tolerant → Extends (· = C.last) s t → (∀ i ∈ C.ids, t.page? i = s.page? i) →
      ∃ C', Appended c.capacity C a s.numPages (.error e) C' ∧ (∀ e', Except.error (α := Unit) e = .error e' → K.tolerant) ∧
        (C.last, C.entries.length) = (C'.last, C'.entries.length) ∧ c.Stores enc t C' ∧ Extends (· = C.last) s t :=
    fun e t hf hx hp => ⟨C, .same, fun _ _ => hf, rfl, hs.congr hp, hx⟩
  have hpush : ∀ d', s.numPages ≠ invalidId → ∀ i ∈ C.ids, (s.push d').page? i = s.page? i :=
    fun d' hn i hi => (Extends.push (S := fun _ => False) hn).same i (hs.isSome hi) id
  rw [append]
  split
  case isTrue hroom =>
    have hlen : (C.entries.map enc).length = C.entries.length := List.length_map _
    have ⟨d', hw, hh'⟩ := hh.writeEntry (by rw [hlen]; exact hroom) he
    rw [hlen] at hw
    refine Prog.wp_bind <| Prog.wp_write hd (r := .ok ()) (b := d') ?_ (fun e hf => hsame e s hf .refl fun _ _ => rfl)
      (hg _ _ _ _ _ _ hh hh' (List.prefix_append _ _)) ?_
    · simp [hh.validateHeader, hw]
    · refine ⟨C.push a, .pushed, nofun, ?_, hs.push ?_, .setPage rfl⟩
      · simp [Chain.push]
      · simpa using hh'
  case isFalse hroom =>
    have hfull : C.entries.length = c.capacity :=
      Nat.le_antisymm (C.entries.length_map enc ▸ hh.fits) (Nat.not_lt.mp hroom)
    refine Prog.wp_bind <| Prog.wp_addPage (fun e hf => hsame e s hf .refl fun _ _ => rfl)
      (fun hn e d' hf => hsame e _ hf (.push hn) (hpush d' hn)) fun hn _ => ?_
    -- The new page is there, and then it is put behind the last one.
    have hx : Extends (· = C.last) s (s.push c.initPage) := .push hn
    have hs₁ : c.Stores enc (s.push c.initPage) C := hs.congr (hpush _ hn)
    have hd₁ : (s.push c.initPage).page? C.last = some d := (hpush _ hn _ Chain.last_mem).trans hd
    have hnew : (s.push c.initPage).page? s.numPages = some c.initPage := PageStorage.page?_push_self hn
    have hfresh : s.numPages ∉ C.ids := fun hm => PageStorage.ne_numPages (hs.isSome hm) rfl
    have ⟨d₂, hw₂, hh₂⟩ := hh.setNext s.numPages
    refine Prog.wp_bind <| Prog.wp_write hd₁ (r := .ok ()) (b := d₂) (by simp [hw₂])
      (fun e hf => hsame e _ hf hx (hpush _ hn)) (hg _ _ _ _ _ _ hh hh₂ List.prefix_rfl) ?_
    have hs₂ := hs₁.extend hl hnew hfresh hh₂
    have hx₂ := hx.trans (Extends.setPage (s := s.push c.initPage) (d := d₂) rfl)
    have ⟨d₃, hd₃, hh₃⟩ := hs₂.last
    have ⟨d₄, hw₄, hh₄⟩ := hh₃.writeEntry (by simpa [Chain.extend] using hl.room) he
    refine Prog.wp_bind <| Prog.wp_write hd₃ (r := .ok ()) (b := d₄) ?_
      (fun e hf => ⟨C.extend s.numPages, .extended hfull, fun _ _ => hf, rfl, hs₂, hx₂⟩)
      (hg _ _ _ _ _ _ hh₃ hh₄ (List.prefix_append _ _)) ?_
    · simp [show c.writeEntry d₃ 0 (enc a) = some d₄ from hw₄]
    · have hs₃ := hs₂.push (a := a) (d := d₄) (by simpa using hh₄)
      exact ⟨(C.extend s.numPages).push a, .grown hfull, nofun, rfl, hs₃, hx₂.setPage_new PageStorage.page?_numPages⟩

end PageChain
end NexusDb
