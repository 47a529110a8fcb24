import NexusDb.Record.Theorems.Chain

namespace NexusDb

namespace PageChain

variable {c : PageChain} {enc : α → Bytes} {C C' : Chain α} {s x : PageStorage} {d d' : PageData}

-- An older version of a page of a chain: the same one, or one from when it was the last page.
def Older (c : PageChain) (d d' : PageData) : Prop :=
  d = d' ∨ ∃ es es' next, c.Holds d es invalidId ∧ c.Holds d' es' next ∧ es <+: es'

-- The pages with these ids, as they are in `x`, are older than in `s`.
def OlderAt (c : PageChain) (x s : PageStorage) (ids : List PageId) : Prop :=
  ∀ i ∈ ids, ∃ d d', x.page? i = some d ∧ s.page? i = some d' ∧ c.Older d d'

theorem Older.cases (h : c.Older d d') (hh : c.Holds d' (as.map enc) next) :
    d = d' ∨ ∃ as', as' <+: as ∧ c.Holds d (as'.map enc) invalidId := by
  rcases h with h | ⟨es, es', next', hd, hd', hp⟩
  · exact .inl h
  · rw [(hh.unique hd').left, List.prefix_map_iff] at hp
    have ⟨as', hp, he⟩ := hp
    exact .inr ⟨as', hp, he ▸ hd⟩

-- Whatever mixture of older versions there is, it is a part of the chain.
theorem Linked.cut (h : c.Linked enc s last front) (hlast : ∃ d, s.page? last = some d ∧ c.Holds d (es.map enc) invalidId)
    (hx : c.OlderAt x s (front.map Prod.fst ++ [last])) :
    ∃ front' last' es', c.Linked enc x last' front' ∧
      (∃ d, x.page? last' = some d ∧ c.Holds d (es'.map enc) invalidId) ∧
      Chain.first last' front' = Chain.first last front ∧
      front'.map Prod.fst ++ [last'] <+: front.map Prod.fst ++ [last] ∧
      front'.flatMap Prod.snd ++ es' <+: front.flatMap Prod.snd ++ es := by
  induction front
  case nil =>
    have ⟨d', hd', hh⟩ := hlast
    have ⟨d, d'', hd, hd'', ho⟩ := hx last List.mem_cons_self
    cases hd'.symm.trans hd''
    rcases ho.cases hh with he | ⟨as, hp, hh⟩
    · exact ⟨[], last, es, trivial, ⟨d, hd, he ▸ hh⟩, rfl, List.prefix_rfl, List.prefix_rfl⟩
    · exact ⟨[], last, as, trivial, ⟨d, hd, hh⟩, rfl, List.prefix_rfl, hp⟩
  case cons p front ih =>
    obtain ⟨i, as⟩ := p
    have ⟨⟨d', hd', hh⟩, hl⟩ := h
    have ⟨d, d'', hd, hd'', ho⟩ := hx i List.mem_cons_self
    cases hd'.symm.trans hd''
    rcases ho.cases hh with he | ⟨as', hp, hh⟩
    · have ⟨front', last', es', hl', hlast', hfirst, hids, hall⟩ := ih hl fun i hi => hx i (List.mem_cons_of_mem _ hi)
      refine ⟨(i, as) :: front', last', es', ⟨⟨d, hd, ?_⟩, hl'⟩, hlast', rfl, ?_, ?_⟩
      · rw [hfirst, he]
        exact hh
      · exact List.cons_prefix_cons.mpr ⟨rfl, hids⟩
      · rw [List.flatMap_cons, List.flatMap_cons, List.append_assoc, List.append_assoc]
        exact (List.prefix_append_right_inj as).mpr hall
    · refine ⟨[], i, as', trivial, ⟨d, hd, hh⟩, rfl, ?_, ?_⟩
      · exact List.cons_prefix_cons.mpr ⟨rfl, List.nil_prefix⟩
      · rw [List.flatMap_cons, List.append_assoc]
        exact hp.trans (List.prefix_append ..)

theorem Stores.cut (h : c.Stores enc s C) (hx : c.OlderAt x s C.ids) :
    ∃ C', c.Stores enc x C' ∧ C'.root = C.root ∧ C'.ids <+: C.ids ∧ C'.all <+: C.all := by
  rw [Chain.ids_eq] at hx
  have ⟨front, last, es, hl, hlast, hfirst, hids, hall⟩ := h.linked.cut h.last hx
  rw [← Chain.ids_eq (C := C), ← Chain.ids_eq (C := ⟨front, last, es⟩)] at hids
  rw [← Chain.all_eq (C := C), ← Chain.all_eq (C := ⟨front, last, es⟩)] at hall
  exact ⟨⟨front, last, es⟩, ⟨hl, hlast, h.nodup.sublist hids.sublist⟩, hfirst, hids, hall⟩

theorem prefix_of_map (hinj : ∀ a ∈ as, ∀ b ∈ bs, enc a = enc b → a = b) (h : as.map enc <+: bs.map enc) : as <+: bs := by
  induction as generalizing bs
  case nil => exact List.nil_prefix
  case cons a as ih =>
    cases bs
    case nil => exact absurd (List.prefix_nil.mp h) (List.cons_ne_nil _ _)
    case cons b bs =>
      have ⟨he, hp⟩ := List.cons_prefix_cons.mp h
      have hab := hinj a List.mem_cons_self b List.mem_cons_self he
      have hinj' := fun a ha b hb => hinj a (List.mem_cons_of_mem _ ha) b (List.mem_cons_of_mem _ hb)
      exact List.cons_prefix_cons.mpr ⟨hab, ih hinj' hp⟩

-- What the older version of a page with a next page is.
theorem Older.eq_of_next (h : c.Older d d') (hh : c.Holds d es next) (hn : next ≠ invalidId) : d = d' := by
  rcases h with h | ⟨_, _, _, hd, _⟩
  · exact h
  · exact absurd (hd.unique hh).right hn

theorem Older.prefix_map (h : c.Older d d') (hh : c.Holds d (as.map enc) next) (hh' : c.Holds d' (bs.map enc) next')
    (hinj : ∀ a ∈ as, ∀ b ∈ bs, enc a = enc b → a = b) : as <+: bs := by
  refine prefix_of_map hinj ?_
  rcases h with h | ⟨_, _, _, hd, hd', hp⟩
  · subst h
    exact (hh.unique hh').left ▸ List.prefix_rfl
  · rwa [(hd.unique hh).left, (hd'.unique hh').left]

-- The older chain is a part of the newer one.
theorem Linked.mono {last last' : PageId} {front front' : List (PageId × List α)} (h : c.Linked enc x last front)
    (hlast : ∃ d, x.page? last = some d ∧ c.Holds d (es.map enc) invalidId)
    (h' : c.Linked enc s last' front') (hlast' : ∃ d, s.page? last' = some d ∧ c.Holds d (es'.map enc) invalidId)
    (hfirst : Chain.first last front = Chain.first last' front') (hx : c.OlderAt x s (front.map Prod.fst ++ [last]))
    (hinj : ∀ a ∈ front.flatMap Prod.snd ++ es, ∀ b ∈ front'.flatMap Prod.snd ++ es', enc a = enc b → a = b) :
    front.map Prod.fst ++ [last] <+: front'.map Prod.fst ++ [last'] ∧
      front.flatMap Prod.snd ++ es <+: front'.flatMap Prod.snd ++ es' := by
  induction front generalizing front'
  case nil =>
    have ⟨d, hd, hh⟩ := hlast
    have ⟨d₁, d', hd₁, hd', ho⟩ := hx last List.mem_cons_self
    cases hd.symm.trans hd₁
    cases front'
    case nil =>
      have ⟨d₂, hd₂, hh'⟩ := hlast'
      cases (show last = last' from hfirst)
      cases hd'.symm.trans hd₂
      exact ⟨List.prefix_rfl, ho.prefix_map hh hh' hinj⟩
    case cons p front' =>
      have ⟨⟨d₂, hd₂, hh'⟩, _⟩ := h'
      cases (show last = p.fst from hfirst)
      cases hd'.symm.trans hd₂
      rw [List.flatMap_cons, List.append_assoc] at hinj ⊢
      have hp := ho.prefix_map hh hh' fun a ha b hb => hinj a ha b (List.mem_append_left _ hb)
      exact ⟨List.cons_prefix_cons.mpr ⟨rfl, List.nil_prefix⟩, hp.trans (List.prefix_append ..)⟩
  case cons p front ih =>
    obtain ⟨i, as⟩ := p
    have ⟨⟨d, hd, hh⟩, hl⟩ := h
    have ⟨d₁, d', hd₁, hd', ho⟩ := hx i List.mem_cons_self
    cases hd.symm.trans hd₁
    -- The page has a next one, and so it is the same in both.
    have hmem : Chain.first last front ∈ front.map Prod.fst ++ [last] := by
      rw [← Chain.ids_eq (C := ⟨front, last, es⟩)]
      exact Chain.root_mem (C := ⟨front, last, es⟩)
    have ⟨dn, _, hdn, _⟩ := hx _ (List.mem_cons_of_mem _ hmem)
    have hne : Chain.first last front ≠ invalidId := PageStorage.ne_invalidId hdn
    cases ho.eq_of_next hh hne
    cases front'
    case nil =>
      have ⟨d₂, hd₂, hh'⟩ := hlast'
      cases (show i = last' from hfirst)
      cases hd'.symm.trans hd₂
      exact absurd (hh'.unique hh).right hne
    case cons p front' =>
      have ⟨⟨d₂, hd₂, hh'⟩, hl'⟩ := h'
      cases (show i = p.fst from hfirst)
      cases hd'.symm.trans hd₂
      have ⟨hes, hnext⟩ := hh.unique hh'
      rw [List.flatMap_cons, List.append_assoc, List.flatMap_cons, List.append_assoc] at hinj ⊢
      have has : as <+: p.snd := ho.prefix_map hh hh' fun a ha b hb =>
        hinj a (List.mem_append_left _ ha) b (List.mem_append_left _ hb)
      have has : as = p.snd := has.eq_of_length (by rw [← List.length_map enc, ← hes, List.length_map])
      have ⟨hids, hall⟩ := ih hl hl' hnext.symm (fun i hi => hx i (List.mem_cons_of_mem _ hi))
        fun a ha b hb => hinj a (List.mem_append_right _ ha) b (List.mem_append_right _ hb)
      exact ⟨List.cons_prefix_cons.mpr ⟨rfl, hids⟩, has ▸ (List.prefix_append_right_inj as).mpr hall⟩

theorem Stores.mono (h : c.Stores enc x C) (h' : c.Stores enc s C') (hroot : C.root = C'.root) (hx : c.OlderAt x s C.ids)
    (hinj : ∀ a ∈ C.all, ∀ b ∈ C'.all, enc a = enc b → a = b) : C.ids <+: C'.ids ∧ C.all <+: C'.all := by
  rw [Chain.ids_eq] at hx
  rw [Chain.all_eq, Chain.all_eq] at hinj
  rw [Chain.ids_eq, Chain.ids_eq, Chain.all_eq, Chain.all_eq]
  exact h.linked.mono h.last h'.linked h'.last hroot hx hinj

end PageChain
end NexusDb
