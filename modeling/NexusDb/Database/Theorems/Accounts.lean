import NexusDb.Catalog.Theorems.Growth
import NexusDb.Database.Theorems.Creation
import NexusDb.Database.Theorems.Effects
import NexusDb.Database.Theorems.Moments

open Relation (ReflTransGen)

namespace NexusDb

open Layout (Realized)
open HeapTable (slots)
open Database (Laid)

namespace Query

-- What a query may do to the slots of a page.
inductive Writes (L : Layout) : Query → SlotChange
  | insert : Writes L (.insert t (some bs)) i rs (rs ++ [some bs])
  | update {id : RecordId} (he : e ∈ L.tables) (hi : id.page ∈ (L.dir e.snd).all) :
      Writes L (.update e.fst id (some bs)) id.page rs (rs.set id.slot.toNat (some bs))
  | delete {id : RecordId} (he : e ∈ L.tables) (hi : id.page ∈ (L.dir e.snd).all) :
      Writes L (.delete e.fst id) id.page rs (rs.set id.slot.toNat none)

-- Its page calls may all fail.
def contract (q : Query) (L : Layout) : Contract :=
  ⟨True, PageGrows (Writes L q)⟩

theorem permits (q : Query) (L : Layout) : q.Permits (q.contract L) L where
  catalog _ _ _ _ _ _ h h' hp   := .chain (.inl rfl) h h' hp
  directory _ _ _ _ _ _ h h' hp := .chain (.inr rfl) h h' hp
  insert := by
    rintro t bs rfl i d d' h h' hr
    exact .slots h h' (hr ▸ .insert)
  update := by
    rintro id bs e he rfl hi d d' _ h h' _ hr
    exact .slots h h' (hr ▸ .update he hi)
  delete := by
    rintro id e he rfl hi d d' _ h h' _ hr
    exact .slots h h' (hr ▸ .delete he hi)

-- The query puts these bytes into some slot.
def Puts (q : Query) (bs : Bytes) : Prop :=
  (∃ t, q = .insert t (some bs)) ∨ ∃ t id, q = .update t id (some bs)

namespace Writes

variable {L : Layout} {q : Query} {i : PageId} {rs rs' : List (Option Bytes)} {k : Nat} {bs : Bytes}

-- The records that are there afterwards.
theorem origin (h : ReflTransGen (Writes L q i) rs rs') (hk : rs'[k]? = some (some bs)) :
    rs[k]? = some (some bs) ∨ q.Puts bs := by
  induction h
  case refl => exact .inl hk
  case tail hs ih =>
    have hset : ∀ {rs : List (Option Bytes)} {n new}, (rs.set n new)[k]? = some (some bs) →
        rs[k]? = some (some bs) ∨ new = some bs := by
      intro rs n new hk
      rw [List.getElem?_set] at hk
      split at hk
      case isTrue =>
        split at hk
        case isTrue => exact .inr (Option.some_inj.mp hk)
        case isFalse => cases hk
      case isFalse => exact .inl hk
    cases hs
    case insert t bs' rs =>
      rw [List.getElem?_append] at hk
      split at hk
      case isTrue => exact ih hk
      case isFalse =>
        have hm := List.mem_singleton.mp (List.mem_of_getElem? hk)
        exact .inr <| .inl ⟨t, by rw [← hm]⟩
    case update =>
      rcases hset hk with hk | hn
      · exact ih hk
      · exact .inr <| .inr ⟨_, _, by rw [hn]⟩
    case delete => exact ih ((hset hk).resolve_right nofun)

-- What the query has put somewhere stays there.
theorem stays (h : ReflTransGen (Writes L q i) rs rs') (hp : q.Puts bs) (hk : rs[k]? = some (some bs)) :
    rs'[k]? = some (some bs) := by
  induction h
  case refl => exact hk
  case tail hs ih =>
    have hlt := (List.getElem?_eq_some_iff.mp ih).fst
    cases hs
    case insert => rwa [List.getElem?_append_left hlt]
    case update bs' _ _ _ _ =>
      rcases hp with ⟨_, hq⟩ | ⟨_, _, hq⟩ <;> cases hq
      rw [List.getElem?_set]
      split
      case isTrue hs => rw [if_pos (hs ▸ hlt)]
      case isFalse => exact ih
    case delete => rcases hp with ⟨_, hq⟩ | ⟨_, _, hq⟩ <;> cases hq

-- A record that the query does not name stays where it is.
theorem keeps (h : ReflTransGen (Writes L q i) rs rs')
    (hn : ∀ e ∈ L.tables, ∀ id, q.target = some (e.fst, id) → id.page = i → i ∈ (L.dir e.snd).all → id.slot.toNat ≠ k)
    (hk : rs[k]? = some (some bs)) : rs'[k]? = some (some bs) := by
  induction h
  case refl => exact hk
  case tail hs ih =>
    cases hs
    case insert => rwa [List.getElem?_append_left (List.getElem?_eq_some_iff.mp ih).fst]
    case update he hi _ => rwa [List.getElem?_set_ne (hn _ he _ rfl rfl hi)]
    case delete he hi _ => rwa [List.getElem?_set_ne (hn _ he _ rfl rfl hi)]

end Writes

variable {q : Query} {L : Layout} {s t : PageStorage}

theorem grownAt (h : (q.contract L).Evolves s t) (hi : (s.page? i).isSome) : GrownAt (Writes L q) s t i := by
  have ⟨d, hd⟩ := Option.isSome_iff_exists.mp hi
  have ⟨d', hd', hg⟩ := h i d hd
  exact ⟨d, d', hd, hd', hg⟩

end Query

namespace Database

variable {s : PageStorage} {L : Layout} {q : Query}

theorem kind_header {r : PageId} : (header r).slice 0 4 ≠ Catalog.chain.magic ∧
    (header r).slice 0 4 ≠ HeapTable.directory.magic ∧ (header r).slice 0 4 ≠ SlottedPage.magic := by
  have hm : (header r).slice 0 4 = magic := magic_header
  rw [hm]
  decide

-- Queries do not change the header page, and older versions of it are the same.

theorem Laid.spares (h : Laid s L) : (q.contract L).SparesHeader s := by
  rintro u i d d' hev hd hc rfl
  have ⟨d₁, hd₁, hg⟩ := hev 0 _ h.header
  cases hd.symm.trans hd₁
  cases Grown.eq hg kind_header
  have ⟨h₁, h₂, h₃⟩ := kind_header (r := L.catalog.root)
  rcases PageGrows.kind hc with hk | hk | hk
  · exact h₁ hk
  · exact h₂ hk
  · exact h₃ hk

theorem header_of_older (h : s.page? 0 = some (header r)) (hg : GrownAt A x s 0) : x.page? 0 = some (header r) := by
  have ⟨d, d', hd, hd', hg⟩ := hg
  cases hd'.symm.trans h
  have hm := hg.magic
  rw [hd, Grown.eq hg (hm ▸ kind_header)]

end Database

-- Any change of the slots.
abbrev anySlots : SlotChange :=
  fun _ _ _ => True

-- What is known about the records agrees with the pages: `s` as the pool shows them, with the layout `L`, and `st` as the
-- storage has them.
structure Accounts (l : Ledger) (s : PageStorage) (L : Layout) (st : PageStorage) : Prop where
  laid    : Laid s L
  size    : ∀ i, (st.page? i).isSome → (s.page? i).isSome
  older   : ∀ i, (s.page? i).isSome → GrownAt anySlots st s i
  live    : ∀ t id bs, l.live t id bs → L.Shows s t id bs
  saved   : ∀ t id bs, l.saved t id bs → L.Shows s t id bs
  stored  : ∃ M, Realized st M ∧ M.catalog.root = L.catalog.root ∧ ∀ t id bs, l.saved t id bs → M.Shows st t id bs
  written : ∀ e ∈ L.tables, ∀ id bs, id.page ∈ (L.dir e.snd).all → (slots s id.page)[id.slot.toNat]? = some (some bs) ∨
              (slots st id.page)[id.slot.toNat]? = some (some bs) → l.written e.fst id bs

-- The pages are a database with everything that was saved and nothing that was not written.
structure Ledger.Sound (l : Ledger) (s : PageStorage) (L : Layout) : Prop where
  laid    : Laid s L
  saved   : ∀ t id bs, l.saved t id bs → L.Shows s t id bs
  written : ∀ t id bs, L.Shows s t id bs → l.written t id bs

namespace Accounts

variable {l : Ledger} {s st v x s₁ : PageStorage} {L Lv L₁ : Layout} {q : Query} {a a' : Answer} {t bs : Bytes}
  {id : RecordId}

theorem anyGrown (h : GrownAt A x s i) : GrownAt anySlots x s i :=
  h.mono fun _ _ _ => trivial

variable (h : Accounts l s L st) (hm : Moment (q.contract L) s st v x)

include h hm

-- The pages of a moment lie between the ones that the storage had and the ones that the pool shows.

theorem before (hi : (v.page? i).isSome) : GrownAt anySlots x v i := by
  have ⟨d, hd, hp⟩ := hm.pages i hi
  rcases hp with hst | ⟨u, _, huv, hu⟩
  · have hsome := h.size i (by rw [hst]; rfl)
    have hg := (h.older i hsome).trans (anyGrown (Query.grownAt hm.view hsome))
    have ⟨d₁, d', hd₁, hd', hg⟩ := hg
    cases hst.symm.trans hd₁
    exact ⟨d, d', hd, hd', hg⟩
  · have ⟨d₁, d', hd₁, hd', hg⟩ := anyGrown (Query.grownAt huv (i := i) (by rw [hu]; rfl))
    cases hu.symm.trans hd₁
    exact ⟨d, d', hd, hd', hg⟩

theorem since (hi : (s.page? i).isSome) : GrownAt anySlots st x i := by
  have ⟨d, hd, hp⟩ := hm.pages i (hm.view.isSome hi)
  rcases hp with hst | ⟨u, hsu, _, hu⟩
  · exact ⟨d, d, hst, hd, .refl⟩
  · have ⟨d₁, d', hd₁, hd', hg⟩ := (h.older i hi).trans (anyGrown (Query.grownAt hsu hi))
    cases hu.symm.trans hd'
    exact ⟨d₁, d, hd₁, hd, hg⟩

-- Records that were saved and that the query does not name are in every version since then.
theorem saved_slots (hs : L.Shows s t id bs) (hn : q.target ≠ some (t, id))
    (hst : (slots st id.page)[id.slot.toNat]? = some (some bs)) : (slots x id.page)[id.slot.toNat]? = some (some bs) := by
  have ⟨e, he, ht, hi, hslot⟩ := hs
  have ⟨d₀, hd₀, hwf⟩ := (h.laid.realized.stored e he).data _ hi
  have hsome : (s.page? id.page).isSome := by rw [hd₀]; rfl
  have ⟨d, hd, hp⟩ := hm.pages id.page (hm.view.isSome hsome)
  rcases hp with hp | ⟨u, hsu, _, hu⟩
  · rwa [HeapTable.slots_congr (hd.trans hp.symm)]
  · rw [HeapTable.slots_congr (hd.trans hu.symm)]
    refine Query.Writes.keeps ((Query.grownAt hsu hsome).slots ⟨d₀, hd₀, hwf⟩) (fun e' he' id' ht' hp hi' hs => hn ?_) hslot
    have hee : e' = e := by
      by_contra hee
      exact h.laid.realized.disjoint he' he hee (List.mem_append_right _ hi') (List.mem_append_right _ hi)
    rw [ht', hee, ht, HeapTable.eq_of_slot hp hs]

-- The pages of a moment are a database. It has all saved records, and its records were all written.
theorem snapshot (hp : q.Performs K s L a s₁ L₁) (hv : q.Performs K s L a' v Lv) (hend : (q.contract L).Evolves v s₁) :
    ∃ M, Realized x M ∧ M.catalog.root = L.catalog.root ∧ M.Within Lv ∧
      (∀ t id bs, (l.ask q a).saved t id bs → M.Shows x t id bs) ∧
      ∀ e ∈ Lv.tables, ∀ id bs, id.page ∈ (Lv.dir e.snd).all → (slots x id.page)[id.slot.toNat]? = some (some bs) →
        (l.ask q a).written e.fst id bs := by
  have hleads := hv.leads h.laid.realized
  have hleads₁ := hp.leads h.laid.realized
  have ⟨M, hM, hroot, hwithin⟩ := hleads.realized.cut fun i hi => h.before hm (hleads.realized.isSome hi)
  refine ⟨M, hM, hroot.trans hleads.root, hwithin, fun t id bs hs => ?_, fun e he id bs hi hslot => ?_⟩
  · have ⟨N, hN, hNroot, hNs⟩ := h.stored
    have ⟨e, he, ht, hi, hst⟩ := hNs t id bs hs.left
    have hsub : N.Within M := hN.within hM (hNroot.trans (hroot.trans hleads.root).symm) fun i hi =>
      h.since hm (h.size i (hN.isSome hi))
    exact ⟨e, hsub.tables.subset he, ht, (hsub.data e he).subset hi, h.saved_slots hm (h.saved t id bs hs.left) hs.right hst⟩
  · have hsub : Lv.Within L₁ := hleads.realized.within hleads₁.realized (hleads.root.trans hleads₁.root.symm) fun i hi =>
      anyGrown (Query.grownAt hend (hleads.realized.isSome hi))
    -- What the table has at the end was there before, or the query has written it.
    have hwritten : (slots s₁ id.page)[id.slot.toNat]? = some (some bs) → (l.ask q a).written e.fst id bs := by
      intro hs₁
      have hshows : L₁.Shows s₁ e.fst id bs := ⟨e, hsub.tables.subset he, rfl, (hsub.data e he).subset hi, hs₁⟩
      rcases (hp.effect h.laid.realized).of_shows h.laid.realized hshows with ⟨e', he', ht, hi', hs⟩ | hw
      · exact .inl (ht ▸ h.written e' he' id bs hi' (.inl hs))
      · exact .inr hw
    have ⟨dv, hdv, hwfv⟩ := (hleads.realized.stored e he).data _ hi
    have ⟨d, hd, hpage⟩ := hm.pages id.page (by rw [hdv]; rfl)
    have hdata := (hv.effect h.laid.realized).data h.laid.realized he hi
    rcases hpage with hst | ⟨u, hsu, huv, hu⟩
    · have hsome := h.size id.page (by rw [hst]; rfl)
      rcases hdata with ⟨he, hi⟩ | ⟨hnone, _⟩
      · rw [HeapTable.slots_congr (hd.trans hst.symm)] at hslot
        exact .inl (h.written e he id bs hi (.inr hslot))
      · rw [hnone] at hsome
        cases hsome
    · rw [HeapTable.slots_congr (hd.trans hu.symm)] at hslot
      have husome : (u.page? id.page).isSome := by rw [hu]; rfl
      have hwfu : ∃ d, u.page? id.page = some d ∧ SlottedPage.WellFormed d := by
        have ⟨d₁, d', hd₁, hd', hg⟩ := Query.grownAt huv husome
        cases hdv.symm.trans hd'
        exact ⟨d₁, hd₁, hg.wellFormed_of hwfv⟩
      have hrest := (Query.grownAt (huv.trans hend) husome).slots hwfu
      rcases hdata with ⟨he₀, hi₀⟩ | ⟨_, hn⟩
      · have hwf := (h.laid.realized.stored e he₀).data _ hi₀
        have hsome := h.laid.realized.stored_isSome he₀ (List.mem_append_right _ hi₀)
        rcases Query.Writes.origin ((Query.grownAt hsu hsome).slots hwf) hslot with hs | hputs
        · exact .inl (h.written e he₀ id bs hi₀ (.inl hs))
        · exact hwritten (Query.Writes.stays hrest hputs hslot)
      · refine hwritten (Query.Writes.keeps hrest (fun e' _ id' ht => ?_) hslot)
        rw [hn] at ht
        cases ht

theorem sound (hp : q.Performs K s L a s₁ L₁) (hv : q.Performs K s L a' v Lv) (hend : (q.contract L).Evolves v s₁) :
    ∃ M, (l.ask q a).Sound x M := by
  have ⟨M, hM, hroot, hwithin, hsaved, hwritten⟩ := h.snapshot hm hp hv hend
  have hleads := hv.leads h.laid.realized
  have hlaid := h.laid.leads hleads
  refine ⟨M, ⟨?_, hM, fun h₀ => hlaid.apart (hwithin.owned h₀)⟩, hsaved, ?_⟩
  · rw [hroot, ← hleads.root]
    exact Database.header_of_older hlaid.header (h.before hm hlaid.isSome_header)
  · rintro _ id bs ⟨e, he, rfl, hi, hs⟩
    exact hwritten e (hwithin.tables.subset he) id bs ((hwithin.data e he).subset hi) hs

end Accounts

namespace Accounts

variable {l : Ledger} {s st s₁ st₁ : PageStorage} {L L₁ : Layout} {q : Query} {a : Answer} (h : Accounts l s L st)

include h

-- The query is done.
theorem ask (hp : q.Performs K s L a s₁ L₁) (hm : Moment (q.contract L) s st s₁ st₁)
    (hsize : ∀ i, (st₁.page? i).isSome → (s₁.page? i).isSome) : Accounts (l.ask q a) s₁ L₁ st₁ := by
  have heffect := hp.effect h.laid.realized
  have hleads := hp.leads h.laid.realized
  have ⟨M, hM, hroot, _, hsaved, hwritten⟩ := h.snapshot hm hp hp .refl
  constructor
  case laid => exact h.laid.leads hleads
  case size => exact hsize
  case older => exact fun i => h.before hm
  case live =>
    rintro t id bs (hw | ⟨hl, hn⟩)
    · exact heffect.shows_wrote h.laid.realized hw
    · exact heffect.shows h.laid.realized hn (h.live t id bs hl)
  case saved => exact fun t id bs hs => heffect.shows h.laid.realized (fun ht => hs.right ht.left) (h.saved t id bs hs.left)
  case stored => exact ⟨M, hM, hroot.trans hleads.root.symm, hsaved⟩
  case written =>
    rintro e he id bs hi (hs | hs)
    · rcases heffect.of_shows h.laid.realized ⟨e, he, rfl, hi, hs⟩ with ⟨e', he', ht, hi', hs⟩ | hw
      · exact .inl (ht ▸ h.written e' he' id bs hi' (.inl hs))
      · exact .inr hw
    · exact hwritten e he id bs hi hs

-- Everything is in the storage.
theorem flushed (hst : st = s) : Accounts { l with saved := l.live } s L st where
  laid    := h.laid
  size    := h.size
  older   := h.older
  live    := h.live
  saved   := h.live
  stored  := ⟨L, hst ▸ h.laid.realized, rfl, hst ▸ h.live⟩
  written := h.written

end Accounts

-- A database that was just opened.
theorem Accounts.start {l : Ledger} {s : PageStorage} {L : Layout} {P : Bytes → RecordId → Bytes → Prop} (h : l.Sound s L)
    (hlive : ∀ t id bs, P t id bs → L.Shows s t id bs) : Accounts { l with live := P } s L s where
  laid    := h.laid
  size _  := id
  older _ := .refl
  live    := hlive
  saved   := h.saved
  stored  := ⟨L, h.laid.realized, rfl, h.saved⟩
  written e he id bs hi hs := h.written e.fst id bs ⟨e, he, rfl, hi, or_self_iff.mp hs⟩

end NexusDb
