import NexusDb.Catalog.Theorems.Layout
import NexusDb.Record.Theorems.Older

open Relation (ReflTransGen)

namespace NexusDb

open SlottedPage (WellFormed records)
open Layout (Realized)

-- How the slots of a page may change.
abbrev SlotChange : Type :=
  PageId → List (Option Bytes) → List (Option Bytes) → Prop

-- How a page may change in memory: the last page of a chain grows, or the slots of a data page change.
inductive PageGrows (A : SlotChange) (i : PageId) (d d' : PageData) : Prop
  | chain {c : PageChain} (hc : c = Catalog.chain ∨ c = HeapTable.directory) (h : c.Holds d es invalidId)
      (h' : c.Holds d' es' next) (hp : es <+: es')
  | slots (h : WellFormed d) (h' : WellFormed d') (ha : A i (records d) (records d'))

abbrev Grown (A : SlotChange) (i : PageId) : PageData → PageData → Prop :=
  ReflTransGen (PageGrows A i)

variable {A B : SlotChange} {i : PageId} {d d' : PageData} {c : PageChain}

theorem PageGrows.mono (hA : ∀ rs rs', A i rs rs' → B i rs rs') (h : PageGrows A i d d') : PageGrows B i d d' := by
  cases h
  case chain hc h h' hp => exact .chain hc h h' hp
  case slots h h' ha => exact .slots h h' (hA _ _ ha)

-- The kinds of pages have different magics, and a page keeps its own.

theorem PageGrows.magic (h : PageGrows A i d d') : d.slice 0 4 = d'.slice 0 4 := by
  cases h
  case chain h h' _ => exact h.magic.trans h'.magic.symm
  case slots h h' _ => exact h.magic_eq.trans h'.magic_eq.symm

theorem PageGrows.kind (h : PageGrows A i d d') :
    d.slice 0 4 = Catalog.chain.magic ∨ d.slice 0 4 = HeapTable.directory.magic ∨ d.slice 0 4 = SlottedPage.magic := by
  cases h
  case chain hc h _ _ =>
    rcases hc with rfl | rfl
    · exact .inl h.magic
    · exact .inr <| .inl h.magic
  case slots h _ _ => exact .inr <| .inr h.magic_eq

theorem magic_ne (hc : c = Catalog.chain ∨ c = HeapTable.directory) : c.magic ≠ SlottedPage.magic := by
  rcases hc with rfl | rfl <;> decide

theorem eq_of_magic {c' : PageChain} (hc : c = Catalog.chain ∨ c = HeapTable.directory)
    (hc' : c' = Catalog.chain ∨ c' = HeapTable.directory) (hm : c.magic = c'.magic) : c = c' := by
  rcases hc with rfl | rfl <;> rcases hc' with rfl | rfl
  · rfl
  · exact absurd hm (by decide)
  · exact absurd hm (by decide)
  · rfl

namespace Grown

theorem magic (h : Grown A i d d') : d.slice 0 4 = d'.slice 0 4 := by
  induction h
  case refl => rfl
  case tail hs ih => exact ih.trans hs.magic

-- Pages of other kinds stay the same.
theorem eq (h : Grown A i d d') (hm : d.slice 0 4 ≠ Catalog.chain.magic ∧ d.slice 0 4 ≠ HeapTable.directory.magic ∧
    d.slice 0 4 ≠ SlottedPage.magic) : d = d' := by
  cases h.cases_head
  case inl h => exact h
  case inr h =>
    have ⟨_, hs, _⟩ := h
    rcases hs.kind with hk | hk | hk
    · exact absurd hk hm.left
    · exact absurd hk hm.right.left
    · exact absurd hk hm.right.right

theorem older (hc : c = Catalog.chain ∨ c = HeapTable.directory) (h : Grown A i d d') (hm : d'.slice 0 4 = c.magic) :
    c.Older d d' := by
  induction h using ReflTransGen.head_induction_on
  case refl => exact .inl rfl
  case head d d₁ hs ht ih =>
    have hm₁ := (Grown.magic ht).trans hm
    cases hs
    case slots h h' _ => exact absurd (hm₁.symm.trans h'.magic_eq) (magic_ne hc)
    case chain hc' h h' hp =>
      cases eq_of_magic hc hc' (hm₁.symm.trans h'.magic)
      rcases ih with rfl | ⟨es, es', next, h₁, h₂, hp'⟩
      · exact .inr ⟨_, _, _, h, h', hp⟩
      · exact .inr ⟨_, _, _, h, h₂, hp.trans ((h₁.unique h').left ▸ hp')⟩

theorem wellFormed (h : Grown A i d d') (hw : WellFormed d) :
    WellFormed d' ∧ ReflTransGen (A i) (records d) (records d') := by
  induction h
  case refl => exact ⟨hw, .refl⟩
  case tail d₁ d₂ ht hs ih =>
    cases hs
    case chain hc h _ _ => exact absurd (h.magic.symm.trans ih.left.magic_eq) (magic_ne hc)
    case slots h h' ha => exact ⟨h', ih.right.tail ha⟩

theorem wellFormed_of (h : Grown A i d d') (hw : WellFormed d') : WellFormed d := by
  induction h using ReflTransGen.head_induction_on
  case refl => exact hw
  case head d d₁ hs ht ih =>
    cases hs
    case chain hc _ h' _ => exact absurd (h'.magic.symm.trans ih.magic_eq) (magic_ne hc)
    case slots h _ _ => exact h

end Grown

-- The page in `x` has become the one in `s`.
def GrownAt (A : SlotChange) (x s : PageStorage) (i : PageId) : Prop :=
  ∃ d d', x.page? i = some d ∧ s.page? i = some d' ∧ Grown A i d d'

namespace GrownAt

variable {x s t : PageStorage}

theorem refl (h : (s.page? i).isSome) : GrownAt A s s i :=
  have ⟨d, hd⟩ := Option.isSome_iff_exists.mp h
  ⟨d, d, hd, hd, .refl⟩

theorem trans (h : GrownAt A x s i) (h' : GrownAt A s t i) : GrownAt A x t i := by
  have ⟨d, d₁, hd, hd₁, hg⟩ := h
  have ⟨d₂, d', hd₂, hd', hg'⟩ := h'
  cases hd₁.symm.trans hd₂
  exact ⟨d, d', hd, hd', hg.trans hg'⟩

theorem mono (hA : ∀ rs rs', A i rs rs' → B i rs rs') (h : GrownAt A x s i) : GrownAt B x s i :=
  have ⟨d, d', hd, hd', hg⟩ := h
  ⟨d, d', hd, hd', ReflTransGen.mono (fun _ _ => PageGrows.mono hA) _ _ hg⟩

theorem slots (h : GrownAt A x s i) (hw : ∃ d, x.page? i = some d ∧ WellFormed d) :
    ReflTransGen (A i) (HeapTable.slots x i) (HeapTable.slots s i) := by
  have ⟨d, d', hd, hd', hg⟩ := h
  have ⟨d₁, hd₁, hw⟩ := hw
  cases hd.symm.trans hd₁
  rw [HeapTable.slots_eq hd, HeapTable.slots_eq hd']
  exact (hg.wellFormed hw).right

end GrownAt

namespace PageChain

variable {enc : α → Bytes} {x s : PageStorage} {C : Chain α}

theorem Linked.magic (h : c.Linked enc s last front) (hi : i ∈ front.map Prod.fst) :
    ∃ d, s.page? i = some d ∧ d.slice 0 4 = c.magic := by
  induction front
  case nil => cases hi
  case cons p front ih =>
    have ⟨⟨d, hd, hh⟩, hl⟩ := h
    cases hi
    case head => exact ⟨d, hd, hh.magic⟩
    case tail hi => exact ih hl hi

theorem Stores.magic (h : c.Stores enc s C) (hi : i ∈ C.ids) : ∃ d, s.page? i = some d ∧ d.slice 0 4 = c.magic := by
  rw [Chain.ids_eq] at hi
  cases List.mem_append.mp hi
  case inl hi => exact h.linked.magic hi
  case inr hi =>
    have ⟨d, hd, hh⟩ := h.last
    exact ⟨d, List.mem_singleton.mp hi ▸ hd, hh.magic⟩

-- The pages of a chain are older than what they have become, seen from either end.

theorem Stores.olderAt (h : c.Stores enc s C) (hc : c = Catalog.chain ∨ c = HeapTable.directory)
    (hg : ∀ i ∈ C.ids, GrownAt A x s i) : c.OlderAt x s C.ids := by
  intro i hi
  have ⟨d, d', hd, hd', hg⟩ := hg i hi
  have ⟨d₁, hd₁, hm⟩ := h.magic hi
  cases hd'.symm.trans hd₁
  exact ⟨d, d', hd, hd', hg.older hc hm⟩

theorem Stores.olderAt_of (h : c.Stores enc x C) (hc : c = Catalog.chain ∨ c = HeapTable.directory)
    (hg : ∀ i ∈ C.ids, GrownAt A x s i) : c.OlderAt x s C.ids := by
  intro i hi
  have ⟨d, d', hd, hd', hg⟩ := hg i hi
  have ⟨d₁, hd₁, hm⟩ := h.magic hi
  cases hd.symm.trans hd₁
  exact ⟨d, d', hd, hd', hg.older hc (hg.magic.symm.trans hm)⟩

end PageChain

theorem Catalog.encode_inj {e e' : Bytes × PageId} (h : isValidTableName e.fst) (h' : isValidTableName e'.fst)
    (he : encode e = encode e') : e = e' := by
  have hl := (length_writeNameField h).trans (length_writeNameField h').symm
  have ⟨hname, hroot⟩ := List.append_inj he hl
  have hname := congrArg readNameField hname
  rw [readNameField_writeNameField h, readNameField_writeNameField h', Option.some_inj] at hname
  have hroot : e.snd = e'.snd := by
    rw [← HeapTable.decode_encodeId e.snd, ← HeapTable.decode_encodeId e'.snd]
    exact congrArg (fun b => UInt32.ofNat (Bytes.leNat b)) hroot
  exact Prod.ext hname hroot

theorem HeapTable.encodeId_inj {i j : PageId} (h : encodeId i = encodeId j) : i = j := by
  rw [← decode_encodeId i, h, decode_encodeId]

namespace Layout

-- The first layout is a part of the second one.
structure Within (L L' : Layout) : Prop where
  catalog : L.catalog.ids <+: L'.catalog.ids
  tables  : L.tables <+: L'.tables
  dirs    : ∀ e ∈ L.tables, (L.dir e.snd).ids <+: (L'.dir e.snd).ids
  data    : ∀ e ∈ L.tables, (L.dir e.snd).all <+: (L'.dir e.snd).all

variable {x s : PageStorage} {L L' : Layout} {e : Bytes × PageId}

namespace Within

theorem tablePages (h : Within L L') (he : e ∈ L.tables) : (L.tablePages e).Sublist (L'.tablePages e) :=
  (h.dirs e he).sublist.append (h.data e he).sublist

theorem owned (h : Within L L') (hi : i ∈ L.owned) : i ∈ L'.owned := by
  cases List.mem_append.mp hi
  case inl hi => exact mem_owned_catalog (h.catalog.subset hi)
  case inr hi =>
    have ⟨e, he, hi⟩ := List.mem_flatMap.mp hi
    exact mem_owned_table (h.tables.subset he) ((h.tablePages he).subset hi)

end Within

-- Whatever mixture of older versions of its pages there is, it is a part of the database.
theorem Realized.cut (h : Realized s L) (hg : ∀ i ∈ L.owned, GrownAt A x s i) :
    ∃ L', Realized x L' ∧ L'.catalog.root = L.catalog.root ∧ L'.Within L := by
  have ⟨C, hC, hroot, hids, htables⟩ := h.chain.cut (h.chain.olderAt (.inl rfl) fun i hi => hg i (mem_owned_catalog hi))
  have hdir : ∀ r, ∃ D, ∀ e ∈ L.tables, e.snd = r → HeapTable.directory.Stores HeapTable.encodeId x D ∧
      D.root = (L.dir r).root ∧ D.ids <+: (L.dir r).ids ∧ D.all <+: (L.dir r).all := by
    intro r
    by_cases hr : ∃ e ∈ L.tables, e.snd = r
    case neg => exact ⟨L.dir r, fun e he hs => absurd ⟨e, he, hs⟩ hr⟩
    case pos =>
      have ⟨e, he, hs⟩ := hr
      subst hs
      have hst := (h.stored e he).chain
      have ⟨D, hD⟩ := hst.cut (hst.olderAt (.inr rfl) fun i hi => hg i (mem_owned_table he (List.mem_append_left _ hi)))
      exact ⟨D, fun _ _ _ => hD⟩
  choose dir hdir using hdir
  have hwithin : Within ⟨C, dir⟩ L :=
    ⟨hids, htables, fun e he => (hdir _ e (htables.subset he) rfl).right.right.left,
      fun e he => (hdir _ e (htables.subset he) rfl).right.right.right⟩
  have hpages : ∀ e ∈ C.all, (Layout.tablePages ⟨C, dir⟩ e).Sublist (L.tablePages e) := fun e he => hwithin.tablePages he
  have hunique : (C.all.map Prod.fst).Nodup := h.unique.sublist (htables.sublist.map _)
  refine ⟨⟨C, dir⟩, ⟨hC, fun e he => h.names e (htables.subset he), hunique, fun e he => ?_, fun e he => ?_, ?_⟩, hroot,
    hwithin⟩
  · exact (hdir _ e (htables.subset he) rfl).right.left.trans (h.root e (htables.subset he))
  · have hst := h.stored e (htables.subset he)
    refine ⟨(hdir _ e (htables.subset he) rfl).left, fun i hi => ?_, hst.nodup.sublist (hpages e he)⟩
    have hi := (hwithin.data e he).subset hi
    have ⟨d, d', hd, hd', hg⟩ := hg i (mem_owned_table (htables.subset he) (List.mem_append_right _ hi))
    have ⟨d₁, hd₁, hw⟩ := hst.data i hi
    cases hd'.symm.trans hd₁
    exact ⟨d, hd, hg.wellFormed_of hw⟩
  · have ⟨h₁, h₂, h₃, h₄⟩ := (owned_nodup_iff h.unique).mp h.nodup
    refine (owned_nodup_iff (L := ⟨C, dir⟩) hunique).mpr ⟨h₁.sublist hids.sublist, fun e he => ?_,
      fun e he e' he' hne i hi hi' => ?_, fun e he i hi hi' => ?_⟩
    · exact (h₂ e (htables.subset he)).sublist (hpages e he)
    · exact h₃ e (htables.subset he) e' (htables.subset he') hne ((hpages e he).subset hi) ((hpages e' he').subset hi')
    · exact h₄ e (htables.subset he) (hids.subset hi) ((hpages e he).subset hi')

-- What a database was is a part of what it has become.
theorem Realized.within (h : Realized x L) (h' : Realized s L') (hroot : L.catalog.root = L'.catalog.root)
    (hg : ∀ i ∈ L.owned, GrownAt A x s i) : L.Within L' := by
  have ⟨hids, htables⟩ := h.chain.mono h'.chain hroot (h.chain.olderAt_of (.inl rfl) fun i hi => hg i (mem_owned_catalog hi))
    fun e he e' he' heq => Catalog.encode_inj (h.names e he) (h'.names e' he') heq
  have hdir : ∀ e ∈ L.tables, (L.dir e.snd).ids <+: (L'.dir e.snd).ids ∧ (L.dir e.snd).all <+: (L'.dir e.snd).all := by
    intro e he
    have he' : e ∈ L'.tables := htables.subset he
    have hst := (h.stored e he).chain
    exact hst.mono (h'.stored e he').chain ((h.root e he).trans (h'.root e he').symm)
      (hst.olderAt_of (.inr rfl) fun i hi => hg i (mem_owned_table he (List.mem_append_left _ hi)))
      fun _ _ _ _ => HeapTable.encodeId_inj
  exact ⟨hids, htables, fun e he => (hdir e he).left, fun e he => (hdir e he).right⟩

end Layout
end NexusDb
