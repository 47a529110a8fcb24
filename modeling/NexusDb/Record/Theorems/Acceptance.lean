import NexusDb.Buffer.Theorems.Healthy
import NexusDb.Record.Theorems.HeapTable

open Bytes ByteBlock

namespace NexusDb

namespace PageChain

variable {c : PageChain} {s : PageStorage}

theorem validateHeader_eq (d : PageData) :
    c.validateHeader d =
      if d.slice offMagic 4 ≠ c.magic then some (.error (bad c.badMagic))
      else if d.natAt offVersion 2 ≠ version then some (.error (bad c.badVersion))
      else if d.natAt offCount 4 > c.capacity then some (.error (bad c.badCount))
      else some (.ok ()) := by
  simp only [validateHeader, load_of_le (show offMagic + 4 ≤ 4096 by decide),
    loadNat_of_le (show offVersion + 2 ≤ 4096 by decide), loadNat_of_le (show offCount + 4 ≤ 4096 by decide)]
  simp

-- Every page whose header is valid holds entries, and the others are rejected.
theorem readPage_cases (d : PageData) :
    (∃ es next, c.Holds d es next) ∨ ∃ e, c.readPage d = some (.error e, none) := by
  by_cases hm : d.slice offMagic 4 = c.magic
  case neg => exact .inr ⟨_, by rw [readPage, validateHeader_eq, if_pos hm]; rfl⟩
  by_cases hv : d.natAt offVersion 2 = version
  case neg => exact .inr ⟨_, by rw [readPage, validateHeader_eq, if_neg (not_not.mpr hm), if_pos hv]; rfl⟩
  by_cases hc : d.natAt offCount 4 > c.capacity
  case pos =>
    exact .inr ⟨_, by rw [readPage, validateHeader_eq, if_neg (not_not.mpr hm), if_neg (not_not.mpr hv), if_pos hc]; rfl⟩
  refine .inl ⟨(List.range (d.natAt offCount 4)).map fun k => d.slice (c.entryOffset k) c.entrySize,
    UInt32.ofNat (d.natAt offNext 4), hm, hv, by simp, by simpa using hc, fun k e hk => ?_, ?_⟩
  · obtain ⟨j, hj, he⟩ : ∃ j, (List.range (d.natAt offCount 4))[k]? = some j ∧
        d.slice (c.entryOffset j) c.entrySize = e := by simpa using hk
    obtain ⟨_, hj⟩ := List.getElem?_eq_some_iff.mp hj
    rw [List.getElem_range] at hj
    exact hj ▸ he
  · rw [UInt32.toNat_ofNat_of_lt']
    exact natAt_lt d offNext 4

-- The pages that following the links from a page leads to until there is no next one, with their entries.
inductive Path (c : PageChain) (s : PageStorage) : PageId → List (PageId × List Bytes) → Prop
  | done : Path c s invalidId []
  | page (hd : s.page? i = some d) (hh : c.Holds d es next) (rest : Path c s next ps) : Path c s i ((i, es) :: ps)

namespace Path

theorem eq_invalidId (h : c.Path s i []) : i = invalidId := by
  cases h
  rfl

theorem cons (h : c.Path s i ((j, es) :: ps)) :
    i = j ∧ ∃ d next, s.page? j = some d ∧ c.Holds d es next ∧ c.Path s next ps := by
  cases h
  exact ⟨rfl, _, _, ‹_›, ‹_›, ‹_›⟩

theorem unique (h : c.Path s i ps) (h' : c.Path s i ps') : ps' = ps := by
  induction h generalizing ps'
  case done =>
    cases h'
    case done => rfl
    case page hd => exact absurd rfl (PageStorage.ne_invalidId hd)
  case page hd hh _ ih =>
    cases h'
    case done => exact absurd rfl (PageStorage.ne_invalidId hd)
    case page hh' rest' hd' =>
      cases hd.symm.trans hd'
      have ⟨he, hn⟩ := hh.unique hh'
      subst he hn
      rw [ih rest']

-- Where a page of the path leads to.
theorem from_mem (h : c.Path s i ps) (hj : j ∈ ps.map Prod.fst) : ∃ ps', c.Path s j ps' ∧ ps'.length ≤ ps.length := by
  induction h
  case done => cases hj
  case page hd hh rest ih =>
    cases hj
    case head => exact ⟨_, .page hd hh rest, le_rfl⟩
    case tail hj =>
      have ⟨ps', hp, hl⟩ := ih hj
      exact ⟨ps', hp, Nat.le_succ_of_le hl⟩

-- A path that ends visits no page twice: what comes after a page is determined by it.
theorem nodup (h : c.Path s i ps) : (ps.map Prod.fst).Nodup := by
  induction h
  case done => exact List.nodup_nil
  case page i d es next ps hd hh rest ih =>
    refine List.nodup_cons.mpr ⟨fun hm => ?_, ih⟩
    have ⟨ps', hp, hl⟩ := rest.from_mem hm
    rw [(Path.page hd hh rest).unique hp, List.length_cons] at hl
    omega

theorem isSome (h : c.Path s i ps) (hj : j ∈ ps.map Prod.fst) : (s.page? j).isSome := by
  induction h
  case done => cases hj
  case page hd _ _ ih =>
    cases hj
    case head => rw [hd]; rfl
    case tail hj => exact ih hj

theorem mem (h : c.Path s i ps) (hn : ps ≠ []) : i ∈ ps.map Prod.fst := by
  cases h
  case done => exact absurd rfl hn
  case page => exact List.mem_cons_self

theorem length_le (h : c.Path s i ps) : ps.length ≤ s.pages.length := by
  have := PageStorage.length_le h.nodup fun _ => h.isSome
  rwa [List.length_map] at this

end Path

theorem Linked.path {enc : α → Bytes} (h : c.Linked enc s last front) (hlast : c.Path s last ps) :
    c.Path s (Chain.first last front) (front.map (fun p => (p.fst, p.snd.map enc)) ++ ps) := by
  induction front
  case nil => exact hlast
  case cons p front ih =>
    have ⟨⟨d, hd, hh⟩, hl⟩ := h
    exact .page hd hh (ih hl)

theorem Stores.path {enc : α → Bytes} (h : c.Stores enc s C) :
    c.Path s C.root (C.pages.map fun p => (p.fst, p.snd.map enc)) := by
  have ⟨d, hd, hh⟩ := h.last
  rw [Chain.pages, List.map_append]
  exact h.linked.path (.page hd hh .done)

theorem readPage_direct (c : PageChain) (s : PageStorage) (i : PageId) :
    (∃ d es next, s.page? i = some d ∧ c.Holds d es next ∧
      (Prog.onPage i c.readPage).direct s = (some (.ok (es, next)), s)) ∨
    ((∃ e, (Prog.onPage i c.readPage).direct s = (some (.error e), s)) ∧
      ∀ d es next, s.page? i = some d → ¬c.Holds d es next) := by
  rw [Prog.onPage, Prog.direct]
  split
  case isTrue hi => exact .inr ⟨⟨_, rfl⟩, fun d _ _ hd _ => PageStorage.ne_invalidId hd hi⟩
  case isFalse =>
    split
    case h_1 hd => exact .inr ⟨⟨_, rfl⟩, fun d _ _ hd' _ => by rw [hd] at hd'; cases hd'⟩
    case h_2 d hd =>
      cases readPage_cases (c := c) d
      case inl h =>
        obtain ⟨es, next, hh⟩ := h
        exact .inl ⟨d, es, next, hd, hh, by rw [hh.readPage]; rfl⟩
      case inr h =>
        obtain ⟨e, he⟩ := h
        refine .inr ⟨⟨e, by rw [he]; rfl⟩, fun d' es next hd' hh => ?_⟩
        rw [hd] at hd'
        cases hd'
        rw [hh.readPage] at he
        cases he

theorem readPage_direct_of_holds (hd : s.page? i = some d) (hh : c.Holds d es next) :
    (Prog.onPage i c.readPage).direct s = (some (.ok (es, next)), s) := by
  rcases readPage_direct c s i with ⟨d', es', next', hd', hh', hr⟩ | ⟨_, hr⟩
  · rw [hd] at hd'
    cases hd'
    have ⟨he, hn⟩ := hh.unique hh'
    rw [hr, he, hn]
  · exact absurd hh (hr d es next hd)

section

variable {visit : β → Bytes → Prog (Except Error β)} {g : β → Bytes → Except Error β}
  (hv : ∀ acc e, (visit acc e).direct s = (some (g acc e), s))

include hv

theorem visitEntries_direct (acc : β) (es : List Bytes) :
    (visitEntries visit acc es).direct s = (some (es.foldlM g acc), s) := by
  induction es generalizing acc
  case nil => rfl
  case cons e es ih =>
    rw [visitEntries, List.foldlM_cons]
    refine (Prog.direct_bind _ _ s).trans ?_
    rw [hv acc e]
    cases g acc e
    case error => rfl
    case ok acc' => exact ih acc'

-- A walk that succeeds has followed a path to its end.
theorem path_of_walk (acc : β) (i prev : PageId) (fuel : Nat) :
    ∃ r, (c.walk visit acc i prev fuel).direct s = (some r, s) ∧
      ∀ acc' last n, r = .ok (acc', last, n) → ∃ ps es, c.Path s i (ps ++ [(last, es)]) ∧
        ((ps ++ [(last, es)]).flatMap Prod.snd).foldlM g acc = .ok acc' ∧ n = es.length := by
  induction fuel generalizing acc i prev
  case zero => exact ⟨_, rfl, by rintro _ _ _ ⟨⟩⟩
  case succ fuel ih =>
    rw [walk, Prog.bind_eq, Prog.direct_bind]
    rcases readPage_direct c s i with ⟨d, es, next, hd, hh, hr⟩ | ⟨⟨e, hr⟩, _⟩
    case inr => exact ⟨.error e, by rw [hr]; rfl, by rintro _ _ _ ⟨⟩⟩
    case inl =>
      simp only [hr, Prog.bind_eq, Prog.direct_bind, visitEntries_direct hv]
      cases hacc : es.foldlM g acc
      case error e => exact ⟨_, rfl, by rintro _ _ _ ⟨⟩⟩
      case ok acc₁ =>
        by_cases hn : next = invalidId
        case pos =>
          refine ⟨.ok (acc₁, i, es.length), by simp only [if_pos hn]; rfl, ?_⟩
          rintro _ _ _ ⟨⟩
          refine ⟨[], es, .page hd (hn ▸ hh) .done, ?_, rfl⟩
          simpa using hacc
        case neg =>
          by_cases hl : next = i ∨ next = prev
          case pos => exact ⟨.error (badState c.loops), by simp only [if_neg hn, if_pos hl]; rfl, by rintro _ _ _ ⟨⟩⟩
          case neg =>
            obtain ⟨r, hr, h⟩ := ih acc₁ next i
            refine ⟨r, by simp only [if_neg hn, if_neg hl]; exact hr, fun acc' last n he => ?_⟩
            obtain ⟨ps, es', hp, hf, hn⟩ := h acc' last n he
            refine ⟨(i, es) :: ps, es', .page hd hh hp, ?_, hn⟩
            rw [List.cons_append, List.flatMap_cons, List.foldlM_append, hacc]
            exact hf

-- The walk follows a path that is not too long and does not lead back.
theorem walk_of_path (hp : c.Path s i (ps ++ [(last, es)])) (hn : prev ∉ (ps ++ [(last, es)]).map Prod.fst)
    (hl : ps.length < fuel) (hf : ((ps ++ [(last, es)]).flatMap Prod.snd).foldlM g acc = .ok acc') :
    (c.walk visit acc i prev fuel).direct s = (some (.ok (acc', last, es.length)), s) := by
  induction fuel generalizing acc i prev ps
  case zero => cases hl
  case succ fuel ih =>
    rw [walk, Prog.bind_eq, Prog.direct_bind]
    cases ps
    case nil =>
      obtain ⟨hi, d, next, hd, hh, rest⟩ := hp.cons
      have hnext := rest.eq_invalidId
      subst hi hnext
      have hf : es.foldlM g acc = .ok acc' := by simpa using hf
      simp only [readPage_direct_of_holds hd hh, Prog.bind_eq, Prog.direct_bind, visitEntries_direct hv, hf]
      rfl
    case cons p ps =>
      obtain ⟨j, as⟩ := p
      have hnodup := hp.nodup
      obtain ⟨hi, d, next, hd, hh, rest⟩ := hp.cons
      subst hi
      rw [List.cons_append, List.map_cons] at hn hnodup
      obtain ⟨hi, _⟩ := List.nodup_cons.mp hnodup
      have hn := fun h => hn (List.mem_cons_of_mem _ h)
      have hmem : next ∈ (ps ++ [(last, es)]).map Prod.fst := rest.mem (by simp)
      have hne : next ≠ invalidId := by
        obtain ⟨d, hd⟩ := Option.isSome_iff_exists.mp (rest.isSome hmem)
        exact PageStorage.ne_invalidId hd
      have hself : ¬(next = i ∨ next = prev) := by
        rintro (rfl | rfl)
        · exact hi hmem
        · exact hn hmem
      rw [List.cons_append, List.flatMap_cons, List.foldlM_append] at hf
      simp only [readPage_direct_of_holds hd hh, Prog.bind_eq, Prog.direct_bind, visitEntries_direct hv]
      cases hacc : as.foldlM g acc
      case error e =>
        rw [hacc] at hf
        cases hf
      case ok acc₁ =>
        rw [hacc] at hf
        simp only [if_neg hne, if_neg hself]
        exact ih rest hi (Nat.lt_of_succ_lt_succ hl) hf

-- The step bound lets every path pass and stops all others.
theorem walk_direct (hl : s.pages.length ≤ pageLimit) (acc : β) (root : PageId) :
    ∃ r, (c.walk visit acc root invalidId (maxPages s.numPages)).direct s = (some r, s) ∧
      ∀ acc' last n, r = .ok (acc', last, n) ↔ ∃ ps es, c.Path s root (ps ++ [(last, es)]) ∧
        ((ps ++ [(last, es)]).flatMap Prod.snd).foldlM g acc = .ok acc' ∧ n = es.length := by
  have ⟨r, hr, h⟩ := path_of_walk (c := c) hv acc root invalidId (maxPages s.numPages)
  refine ⟨r, hr, fun acc' last n => ⟨h acc' last n, ?_⟩⟩
  rintro ⟨ps, es, hp, hf, rfl⟩
  have hlen := hp.length_le
  rw [List.length_append, List.length_singleton] at hlen
  have hprev : invalidId ∉ (ps ++ [(last, es)]).map Prod.fst := by
    intro hm
    have ⟨d, hd⟩ := Option.isSome_iff_exists.mp (hp.isSome hm)
    exact PageStorage.ne_invalidId hd rfl
  have hw := walk_of_path hv hp hprev (lt_maxPages hlen hl) hf
  rw [hr] at hw
  simpa using hw

end

end PageChain

namespace HeapTable

variable {s : PageStorage}

def decodeId (entry : Bytes) : PageId :=
  UInt32.ofNat (leNat entry)

-- The ids that the pages of a directory list, in the order of the chain.
def listed (ps : List (PageId × List Bytes)) : List PageId :=
  (ps.flatMap Prod.snd).map decodeId

-- The links from the root end, no page comes twice, every page has a valid header, and the listed ids are
-- those of pages that can be data pages.
structure ValidDirectory (s : PageStorage) (root : PageId) (ps : List (PageId × List Bytes)) : Prop where
  path  : directory.Path s root ps
  ne    : ps ≠ []
  nodup : (ps.map Prod.fst).Nodup
  ids   : ∀ i ∈ listed ps, i ≠ invalidId ∧ i ≠ root ∧ s.pageExists i

-- The table object for a directory.
def loadedFrom (root : PageId) (ps : List (PageId × List Bytes)) : HeapTable where
  root         := root
  dataPages    := listed ps
  lastDir      := (ps.getLastD (invalidId, [])).fst
  lastDirCount := (ps.getLastD (invalidId, [])).snd.length
  lastDataPage := (listed ps).getLastD invalidId

def checkedId (s : PageStorage) (root : PageId) (ids : List PageId) (entry : Bytes) : Except Error (List PageId) :=
  if decodeId entry = invalidId ∨ decodeId entry = root then
    .error <| badState "heap table: invalid data page id in directory"
  else if !s.pageExists (decodeId entry) then
    .error <| badState "heap table: directory references a missing page"
  else
    .ok (ids ++ [decodeId entry])

theorem checkDataPage_direct (root : PageId) (ids : List PageId) (entry : Bytes) :
    (checkDataPage root ids entry).direct s = (some (checkedId s root ids entry), s) := by
  rw [checkDataPage, checkedId]
  change (if decodeId entry = invalidId ∨ decodeId entry = root then _ else _ : Prog _).direct s = _
  split
  case isTrue => rfl
  case isFalse =>
    change (if !s.pageExists (decodeId entry) then _ else _ : Prog _).direct s = _
    split <;> rfl

theorem foldlM_checkedId (root : PageId) (ids : List PageId) (es : List Bytes) :
    es.foldlM (checkedId s root) ids = .ok ids' ↔
      ids' = ids ++ es.map decodeId ∧
        ∀ i ∈ es.map decodeId, i ≠ invalidId ∧ i ≠ root ∧ s.pageExists i := by
  induction es generalizing ids
  case nil =>
    rw [List.foldlM_nil, List.map_nil, List.append_nil]
    exact ⟨fun h => by cases h; exact ⟨rfl, nofun⟩, fun h => by rw [h.left]; rfl⟩
  case cons e es ih =>
    rw [List.foldlM_cons, checkedId, List.map_cons, List.forall_mem_cons]
    split
    case isTrue h => exact ⟨nofun, fun ⟨_, ⟨h₁, h₂, _⟩, _⟩ => (h.elim h₁ h₂).elim⟩
    case isFalse h =>
      have ⟨h₁, h₂⟩ := not_or.mp h
      cases h₃ : s.pageExists (decodeId e)
      case false => exact ⟨nofun, fun ⟨_, ⟨_, _, h⟩, _⟩ => by cases h⟩
      case true =>
        refine (ih (ids ++ [decodeId e])).trans ?_
        simp only [List.append_assoc, List.singleton_append]
        exact and_congr_right fun _ => ⟨fun h => ⟨⟨h₁, h₂, trivial⟩, h⟩, And.right⟩

-- What loading a directory comes to, whatever the pages hold.
theorem loadDirectory_direct (hl : s.pages.length ≤ pageLimit) (root : PageId) :
    ∃ r, (loadDirectory root).direct s = (some r, s) ∧
      ∀ t, r = .ok t ↔ ∃ ps, ValidDirectory s root ps ∧ t = loadedFrom root ps := by
  have ⟨r, hr, h⟩ := PageChain.walk_direct (c := directory) (checkDataPage_direct root) hl [] root
  have hload : (loadDirectory root).direct s =
      (some (r.map fun x => ⟨root, x.fst, x.snd.fst, x.snd.snd, x.fst.getLastD invalidId⟩), s) := by
    change ((directory.walk (checkDataPage root) [] root invalidId (PageChain.maxPages s.numPages)).bind _).direct s = _
    rw [Prog.direct_bind, hr]
    cases r <;> rfl
  refine ⟨_, hload, fun t => ?_⟩
  constructor
  case mp =>
    intro ht
    cases r
    case error => cases ht
    case ok x =>
      obtain ⟨ids, last, n⟩ := x
      cases ht
      have ⟨ps, es, hp, hf, hn⟩ := (h ids last n).mp rfl
      have ⟨hids, hall⟩ := (foldlM_checkedId root [] _).mp hf
      refine ⟨ps ++ [(last, es)], ⟨hp, by simp, hp.nodup, hall⟩, ?_⟩
      rw [List.nil_append] at hids
      simp [loadedFrom, listed, hids, hn]
  case mpr =>
    rintro ⟨ps, hv, rfl⟩
    have ⟨ps', p, hps⟩ := List.eq_nil_or_concat ps |>.resolve_left hv.ne
    obtain ⟨last, es⟩ := p
    rw [List.concat_eq_append] at hps
    subst hps
    have hf : ((ps' ++ [(last, es)]).flatMap Prod.snd).foldlM (checkedId s root) [] =
        .ok (listed (ps' ++ [(last, es)])) := (foldlM_checkedId root [] _).mpr ⟨rfl, hv.ids⟩
    have hr := (h _ last es.length).mpr ⟨ps', es, hv.path, hf, rfl⟩
    rw [hr]
    simp [loadedFrom, Except.map]

end HeapTable

-- Opening a table changes no page.

open Prog (ReadOnly)

theorem PageChain.readPage_readOnly (c : PageChain) (d : PageData) : ∃ r, c.readPage d = some (r, none) := by
  rcases readPage_cases d with ⟨es, next, h⟩ | ⟨e, h⟩
  · exact ⟨_, h.readPage⟩
  · exact ⟨_, h⟩

theorem PageChain.visitEntries_readOnly {visit : α → Bytes → Prog (Except Error α)}
    (h : ∀ acc entry, (visit acc entry).ReadOnly) (entries : List Bytes) :
    (visitEntries visit acc entries).ReadOnly := by
  induction entries generalizing acc
  case nil => trivial
  case cons entry entries hi =>
    refine ReadOnly.bind (h acc entry) fun r => ?_
    split
    case h_1 => trivial
    case h_2 => exact hi

theorem PageChain.walk_readOnly (c : PageChain) {visit : α → Bytes → Prog (Except Error α)}
    (h : ∀ acc entry, (visit acc entry).ReadOnly) : (c.walk visit acc page prev fuel).ReadOnly := by
  induction fuel generalizing acc page prev
  case zero => trivial
  case succ fuel hi =>
    refine ReadOnly.bind (.onPage c.readPage_readOnly) fun r => ?_
    split
    case h_1 => trivial
    case h_2 =>
      refine ReadOnly.bind (visitEntries_readOnly h _) fun r => ?_
      split
      case h_1 => trivial
      case h_2 =>
        split_ifs
        · trivial
        · trivial
        · exact hi

theorem HeapTable.checkDataPage_readOnly : (checkDataPage i ids entry).ReadOnly := by
  rw [checkDataPage]
  split
  case isTrue => trivial
  case isFalse =>
    refine ReadOnly.bind .pageExists fun b => ?_
    split <;> trivial

theorem HeapTable.loadDirectory_readOnly : (loadDirectory i).ReadOnly := by
  refine ReadOnly.bind .countPages fun r => ?_
  split
  case h_1 => trivial
  case h_2 =>
    refine ReadOnly.bind (PageChain.walk_readOnly _ fun _ _ => checkDataPage_readOnly) fun r => ?_
    split <;> trivial

theorem HeapTable.open_readOnly : (HeapTable.open i).ReadOnly := by
  rw [HeapTable.open]
  split
  case isTrue => trivial
  case isFalse => exact loadDirectory_readOnly

end NexusDb
