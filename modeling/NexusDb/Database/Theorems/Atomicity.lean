import NexusDb.Database.Theorems.Accounts
import NexusDb.Query.Theorems.Attempts

open Relation (ReflTransGen)

namespace NexusDb

open Layout (Realized)
open HeapTable (slots contents contents_eq)
open Database (Laid)

namespace Query.Writes

variable {L : Layout} {q : Query} {i : PageId} {rs us vs : List (Option Bytes)} {new : Option Bytes} {k : Nat}

theorem insert_reached (h : ReflTransGen (Writes L (.insert t (some bs)) i) rs us) :
    ∃ n, us = rs ++ List.replicate n (some bs) := by
  induction h
  case refl => exact ⟨0, (List.append_nil rs).symm⟩
  case tail hs ih =>
    have ⟨n, hn⟩ := ih
    cases hs
    exact ⟨n + 1, by rw [hn, List.append_assoc, List.replicate_succ']⟩

-- Setting a slot again changes nothing.
theorem set_reached (hq : ∀ rs us, Writes L q i rs us → us = rs.set k r) (h : ReflTransGen (Writes L q i) rs us) :
    us = rs ∨ us = rs.set k r := by
  induction h
  case refl => exact .inl rfl
  case tail hs ih =>
    rw [hq _ _ hs]
    rcases ih with rfl | rfl
    · exact .inr rfl
    · exact .inr (List.set_set _)

theorem set_between (hq : ∀ rs us, Writes L q i rs us → us = rs.set k r) (h : ReflTransGen (Writes L q i) rs us)
    (h' : ReflTransGen (Writes L q i) us vs) : us = rs ∨ us = vs := by
  rcases set_reached hq h with rfl | rfl
  · exact .inl rfl
  · rcases set_reached hq h' with rfl | rfl
    · exact .inr rfl
    · exact .inr (List.set_set _).symm

-- There is nothing between the slots before a query and the ones after it.
theorem between (h : ReflTransGen (Writes L q i) rs us) (h' : ReflTransGen (Writes L q i) us vs)
    (hone : vs.length ≤ rs.length + 1) : us = rs ∨ us = vs := by
  cases q
  case insert t record =>
    cases record
    case none => exact set_between (r := none) (k := 0) (by rintro _ _ ⟨⟩) h h'
    case some bs =>
      have ⟨n, hn⟩ := insert_reached h
      have ⟨m, hm⟩ := insert_reached h'
      have hlen : vs.length = rs.length + n + m := by
        rw [hm, hn, List.length_append, List.length_append, List.length_replicate, List.length_replicate]
      obtain hz | hz : n = 0 ∨ m = 0 := by omega
      · rw [hz, List.replicate_zero, List.append_nil] at hn
        exact .inl hn
      · rw [hz, List.replicate_zero, List.append_nil] at hm
        exact .inr hm.symm
  case update t id record =>
    refine set_between (k := id.slot.toNat) (r := record) (fun _ _ hs => ?_) h h'
    cases hs
    rfl
  case delete t id =>
    refine set_between (k := id.slot.toNat) (r := none) (fun _ _ hs => ?_) h h'
    cases hs
    rfl
  all_goals exact set_between (r := none) (k := 0) (by rintro _ _ ⟨⟩) h h'

end Query.Writes

-- Two tables with the same records. The second one may have more pages, which are empty.
structure HeapTable.Alike (s : PageStorage) (C : Chain PageId) (x : PageStorage) (D : Chain PageId) : Prop where
  data  : C.all ⊆ D.all
  slots : ∀ i ∈ D.all, slots x i = if i ∈ C.all then slots s i else []

theorem HeapTable.Alike.contents (h : Alike s C x D) (hs : Stored s C) (hx : Stored x D) : contents x D = contents s C := by
  funext id
  rw [contents_eq hs, contents_eq hx]
  by_cases hD : id.page ∈ D.all
  case neg =>
    have hC : id.page ∉ C.all := fun hi => hD (h.data hi)
    rw [if_neg hD, if_neg hC]
  case pos =>
    rw [if_pos hD, h.slots _ hD]
    split
    case isTrue => rfl
    case isFalse => rfl

-- The same for all tables.
structure Layout.Alike (s : PageStorage) (L : Layout) (x : PageStorage) (M : Layout) : Prop where
  tables : M.tables = L.tables
  table  : ∀ e ∈ L.tables, HeapTable.Alike s (L.dir e.snd) x (M.dir e.snd)

theorem Layout.Alike.describes {L M : Layout} {T : Tables} (h : Alike s L x M) (hs : Realized s L) (hx : Realized x M)
    (hd : T.Describes s L) : T.Describes x M where
  contents := by
    rw [hd.contents]
    refine hx.maps_ext (fun e he => ?_) fun name hn => maps_eq_none (h.tables ▸ hn)
    have hxe := hx.stored e he
    rw [h.tables] at he
    rw [hs.maps_eq he, (h.table e he).contents (hs.stored e he) hxe]
  issued hi := by
    refine hd.issued_mono (fun e he => h.tables ▸ he) (fun e he i hi => ⟨(h.table e he).data hi, ?_⟩) hi
    rw [(h.table e he).slots i ((h.table e he).data hi), if_pos hi]

section

variable {q : Query} {a : Answer} {s v x : PageStorage} {L Lv : Layout} {T : Tables} {e : Bytes × PageId} {i : PageId}

-- When the storage had everything at first, it has each page as it was at some moment since.
theorem Moment.version {K : Contract} (h : Moment K s s v x) (hi : (v.page? i).isSome) :
    ∃ u, K.Evolves s u ∧ K.Evolves u v ∧ (u.page? i).isSome ∧ x.page? i = u.page? i := by
  have ⟨d, hd, hp⟩ := h.pages i hi
  rcases hp with hs | ⟨u, hsu, huv, hu⟩
  · exact ⟨s, .refl, h.view, hs ▸ rfl, hd.trans hs.symm⟩
  · exact ⟨u, hsu, huv, hu ▸ rfl, hd.trans hu.symm⟩

-- A query was interrupted on pages that were all written. It has come as far as `v`, and the recovery gives `x`.
structure CutShort (q : Query) (a : Answer) (s : PageStorage) (L : Layout) (v : PageStorage) (Lv : Layout)
    (x : PageStorage) : Prop where
  laid     : Laid s L
  performs : q.Performs (q.contract L) s L a v Lv
  moment   : Moment (q.contract L) s s v x

namespace CutShort

variable (h : CutShort q a s L v Lv x)

include h

theorem realized : Realized v Lv :=
  (h.performs.leads h.laid.realized).realized

-- The pages are a database that lies between the one before the query and the one after it.
theorem layout : ∃ M, Laid x M ∧ L.Within M ∧ M.Within Lv := by
  have hleads := h.performs.leads h.laid.realized
  have hacc : Accounts { live := fun _ _ _ => False, written := fun _ _ _ => True } s L s :=
    .start (l := { written := fun _ _ _ => True }) ⟨h.laid, nofun, fun _ _ _ _ => trivial⟩ nofun
  have ⟨M, hM, hroot, hwithin⟩ := hleads.realized.cut fun i hi => hacc.before h.moment (hleads.realized.isSome hi)
  have hlaid := h.laid.leads hleads
  refine ⟨M, ⟨?_, hM, fun h₀ => hlaid.apart (hwithin.owned h₀)⟩, ?_, hwithin⟩
  · rw [hroot]
    exact Database.header_of_older hlaid.header (hacc.before h.moment hlaid.isSome_header)
  · exact h.laid.realized.within hM (hleads.root.symm.trans hroot.symm) fun i hi =>
      hacc.since h.moment (h.laid.realized.isSome hi)

-- The slots of a page are the ones before the query or the ones after it.
theorem slots_between (he : e ∈ L.tables) (hi : i ∈ (L.dir e.snd).all)
    (hone : (slots v i).length ≤ (slots s i).length + 1) : slots x i = slots s i ∨ slots x i = slots v i := by
  have hsome := h.laid.realized.stored_isSome he (List.mem_append_right _ hi)
  have hwf := (h.laid.realized.stored e he).data i hi
  have ⟨u, hsu, huv, husome, hx⟩ := h.moment.version (h.moment.view.isSome hsome)
  have hgrown := Query.grownAt hsu hsome
  have hwfu : ∃ d, u.page? i = some d ∧ SlottedPage.WellFormed d := by
    have ⟨d, d', hd, hd', hg⟩ := hgrown
    have ⟨d₁, hd₁, hw⟩ := hwf
    cases hd.symm.trans hd₁
    exact ⟨d', hd', (hg.wellFormed hw).left⟩
  rw [HeapTable.slots_congr hx]
  exact Query.Writes.between (hgrown.slots hwf) ((Query.grownAt huv husome).slots hwfu) hone

-- The page that an insert has added is empty or has the record.
theorem slots_added (hq : q = .insert t (some bs)) (hi : (v.page? i).isSome) (hv : slots v i = [some bs])
    (hx : ∃ d, x.page? i = some d ∧ SlottedPage.WellFormed d) : slots x i = [] ∨ slots x i = slots v i := by
  subst hq
  have ⟨u, _, huv, husome, hxu⟩ := h.moment.version hi
  rw [hxu] at hx
  have ⟨n, hn⟩ := Query.Writes.insert_reached ((Query.grownAt huv husome).slots hx)
  rw [hv] at hn ⊢
  rw [HeapTable.slots_congr hxu]
  have hlen := congrArg List.length hn
  rw [List.length_append, List.length_replicate, List.length_singleton] at hlen
  obtain hz | hz : (slots u i).length = 0 ∨ n = 0 := by omega
  · exact .inl (List.eq_nil_of_length_eq_zero hz)
  · rw [hz, List.replicate_zero, List.append_nil] at hn
    exact .inr hn.symm

section

variable {M : Layout} (hx : Realized x M) (hLM : L.Within M) (hMv : M.Within Lv)

include hLM hMv

omit h in
theorem all_eq (he : e ∈ L.tables) (hall : (Lv.dir e.snd).all = (L.dir e.snd).all) :
    (M.dir e.snd).all = (L.dir e.snd).all := by
  have hle := hLM.data e he
  exact (hle.eq_of_length_le (hall ▸ (hMv.data e (hLM.tables.subset he)).length_le)).symm

-- A table that the query has not changed.
theorem alike_kept (he : e ∈ L.tables) (hk : HeapTable.Kept s (L.dir e.snd) v (Lv.dir e.snd)) :
    HeapTable.Alike s (L.dir e.snd) x (M.dir e.snd) ∧ HeapTable.Alike v (Lv.dir e.snd) x (M.dir e.snd) := by
  have hall := all_eq hLM hMv he hk.all
  have hsame : ∀ i ∈ (L.dir e.snd).all, slots x i = slots s i ∧ slots v i = slots s i := by
    intro i hi
    have hv := HeapTable.slots_congr (hk.same i hi)
    have hb := h.slots_between he hi (by rw [hv]; exact Nat.le_succ _)
    rw [hv, or_self_iff] at hb
    exact ⟨hb, hv⟩
  refine ⟨⟨hall.symm ▸ List.Subset.refl _, fun i hi => ?_⟩, ⟨(hall.trans hk.all.symm).symm ▸ List.Subset.refl _, fun i hi => ?_⟩⟩
  · rw [hall] at hi
    rw [if_pos hi, (hsame i hi).left]
  · rw [hall] at hi
    rw [hk.all, if_pos hi, (hsame i hi).left, (hsame i hi).right]

omit h in
theorem tables_eq (ht : Lv.tables = L.tables) : M.tables = L.tables :=
  (hLM.tables.eq_of_length_le (ht ▸ hMv.tables.length_le)).symm

-- The record that is changed has its old bytes or the new ones.
theorem alike_changed {id : RecordId} {new : Option Bytes} (he : e ∈ L.tables)
    (hc : HeapTable.Changed s (L.dir e.snd) v id new) (hL : Lv = L) : Layout.Alike s L x M ∨ Layout.Alike v Lv x M := by
  subst hL
  have hother : ∀ i, i ≠ id.page → slots v i = slots s i := fun i hi => HeapTable.slots_congr (hc.same i hi)
  have hone : ∀ i, (slots v i).length ≤ (slots s i).length + 1 := by
    intro i
    by_cases hi : i = id.page
    case pos =>
      rw [hi, hc.slots, List.length_set]
      exact Nat.le_succ _
    case neg =>
      rw [hother i hi]
      exact Nat.le_succ _
  have hboth : ∀ e' ∈ Lv.tables, ∀ t : PageStorage, (t = s ∨ t = v) → slots x id.page = slots t id.page →
      HeapTable.Alike t (Lv.dir e'.snd) x (M.dir e'.snd) := by
    intro e' he' t ht hpage
    have hall := all_eq hLM hMv he' rfl
    refine ⟨hall.symm ▸ List.Subset.refl _, fun i hi => ?_⟩
    rw [hall] at hi
    rw [if_pos hi]
    by_cases hp : i = id.page
    case pos => rw [hp, hpage]
    case neg =>
      have hx : slots x i = slots s i := by
        have hb := h.slots_between he' hi (hone i)
        rwa [hother i hp, or_self_iff] at hb
      rcases ht with rfl | rfl
      · exact hx
      · rw [hx, hother i hp]
  have ht := tables_eq hLM hMv rfl
  rcases h.slots_between he hc.page (hone _) with hp | hp
  · exact .inl ⟨ht, fun e' he' => hboth e' he' s (.inl rfl) hp⟩
  · exact .inr ⟨ht, fun e' he' => hboth e' he' v (.inr rfl) hp⟩

-- The record that is inserted is there or not.
theorem alike_inserted {id : RecordId} {C : Chain PageId} (hx : Realized x M) (he : e ∈ L.tables)
    (hq : q = .insert e.fst (some bs)) (hl : HeapTable.Leads s (L.dir e.snd) v C)
    (hi : HeapTable.Inserted s (L.dir e.snd) v C bs id) (hL : Lv = L.setDir e.snd C) :
    Layout.Alike s L x M ∨ Layout.Alike v Lv x M := by
  have ht : M.tables = L.tables := tables_eq hLM hMv (hL ▸ rfl)
  have hC : (Lv.dir e.snd).all = C.all := by rw [hL, Layout.setDir_self]
  have hkept : ∀ e' ∈ L.tables, e' ≠ e → HeapTable.Kept s (L.dir e'.snd) v (Lv.dir e'.snd) := by
    intro e' he' hne
    rw [hL]
    exact h.laid.realized.kept he he' hne hl
  have hle := hLM.data e he
  have hleC : (M.dir e.snd).all <+: C.all := hC ▸ hMv.data e (ht ▸ he)
  have hmem : ∀ i ∈ (M.dir e.snd).all, i ≠ id.page → i ∈ (L.dir e.snd).all := by
    intro i hm hne
    have hm := hleC.subset hm
    rcases hi.all with ⟨ha, _⟩ | ⟨ha, _⟩
    · exact ha ▸ hm
    · rw [ha] at hm
      exact (List.mem_append.mp hm).resolve_right fun hm => hne (List.mem_singleton.mp hm)
  have hother : ∀ i ∈ (L.dir e.snd).all, i ≠ id.page → slots x i = slots s i ∧ slots v i = slots s i := by
    intro i hm hne
    have hv := HeapTable.slots_congr (hi.same i hm hne)
    have hb := h.slots_between he hm (by rw [hv]; exact Nat.le_succ _)
    rw [hv, or_self_iff] at hb
    exact ⟨hb, hv⟩
  -- The slots of a page that is not there yet.
  have hnew : id.page ∉ (L.dir e.snd).all → slots s id.page = [] := by
    intro hn
    rcases hi.all with ⟨_, hm⟩ | ⟨_, hnone⟩
    · exact absurd hm hn
    · rw [slots, hnone]
      rfl
  have hpage : id.page ∈ (M.dir e.snd).all → slots x id.page = slots s id.page ∨ slots x id.page = slots v id.page := by
    intro hm
    by_cases hmL : id.page ∈ (L.dir e.snd).all
    case pos =>
      refine h.slots_between he hmL ?_
      rw [hi.slots, List.length_append]
      exact le_rfl
    case neg =>
      rw [hnew hmL]
      have hv : slots v id.page = [some bs] := by rw [hi.slots, hnew hmL, List.nil_append]
      have hsome : (v.page? id.page).isSome := h.realized.stored_isSome (hL ▸ he) (List.mem_append_right _ (hC ▸ hi.mem))
      exact h.slots_added hq hsome hv ((hx.stored e (ht ▸ he)).data _ hm)
  by_cases hthere : id.page ∈ (M.dir e.snd).all ∧ slots x id.page = slots v id.page
  case pos =>
    refine .inr ⟨ht.trans (hL ▸ rfl), fun e' he' => ?_⟩
    have he' : e' ∈ L.tables := by rwa [hL] at he'
    by_cases hee : e' = e
    case neg => exact (h.alike_kept hLM hMv he' (hkept e' he' hee)).right
    case pos =>
      subst hee
      have hsub : C.all ⊆ (M.dir e'.snd).all := by
        rcases hi.all with ⟨ha, _⟩ | ⟨ha, _⟩
        · exact ha ▸ hle.subset
        · rw [ha]
          exact List.append_subset.mpr ⟨hle.subset, List.cons_subset.mpr ⟨hthere.left, List.nil_subset _⟩⟩
      refine ⟨hC ▸ hsub, fun i hm => ?_⟩
      rw [hC, if_pos (hleC.subset hm)]
      by_cases hp : i = id.page
      case pos => rw [hp, hthere.right]
      case neg =>
        obtain ⟨hxs, hvs⟩ := hother i (hmem i hm hp) hp
        rw [hxs, hvs]
  case neg =>
    refine .inl ⟨ht, fun e' he' => ?_⟩
    by_cases hee : e' = e
    case neg => exact (h.alike_kept hLM hMv he' (hkept e' he' hee)).left
    case pos =>
      subst hee
      refine ⟨hle.subset, fun i hm => ?_⟩
      by_cases hp : i = id.page
      case neg => rw [if_pos (hmem i hm hp), (hother i (hmem i hm hp) hp).left]
      case pos =>
        subst hp
        rw [(hpage hm).resolve_right fun hv => hthere ⟨hm, hv⟩]
        split
        case isTrue => rfl
        case isFalse hn => exact hnew hn

theorem alike_created (hc : Catalog.Creates K s L name r v Lv) : Layout.Alike s L x M ∨ Layout.Alike v Lv x M := by
  have hkept := fun e he => h.alike_kept hLM hMv he (h.laid.realized.kept_creates hc (e := e) he)
  cases r
  case error => exact .inl ⟨tables_eq hLM hMv hc.right.right.right.left, fun e he => (hkept e he).left⟩
  case ok root =>
    have ⟨_, _, _, _, _, ht, hroot, _⟩ := hc
    have htables := hMv.tables
    rw [ht, List.prefix_concat_iff] at htables
    rcases htables with hM | hM
    · refine .inr ⟨hM.trans ht.symm, fun e he => ?_⟩
      have heM : e ∈ M.tables := by rwa [hM, ← ht]
      rw [ht] at he
      cases List.mem_append.mp he
      case inl he => exact (hkept e he).right
      case inr he =>
        have hnil : (Lv.dir e.snd).all = [] := by
          rw [List.mem_singleton.mp he, hroot]
          rfl
        have hMnil : (M.dir e.snd).all = [] := List.prefix_nil.mp (hnil ▸ hMv.data e heM)
        refine ⟨by rw [hnil]; exact List.nil_subset _, fun i hi => ?_⟩
        rw [hMnil] at hi
        cases hi
    · exact .inl ⟨(hLM.tables.eq_of_length_le hM.length_le).symm, fun e he => (hkept e he).left⟩

end

-- A query that is interrupted has done all of its work or nothing.
theorem alike : ∃ M, Laid x M ∧ (Layout.Alike s L x M ∨ Layout.Alike v Lv x M) := by
  have ⟨M, hM, hLM, hMv⟩ := h.layout
  refine ⟨M, hM, ?_⟩
  by_cases hcreate : ∃ name, q = .createTable name
  case pos =>
    obtain ⟨name, rfl⟩ := hcreate
    have hp := h.performs
    cases hp
    case createTable hc => exact h.alike_created hLM hMv hc
    case noTable hq => cases hq
    case notOpen hq => cases hq
  case neg =>
    have htables : Lv.tables = L.tables := by
      have hp := h.performs
      cases hp
      case createTable => exact absurd ⟨_, rfl⟩ hcreate
      all_goals rfl
    cases h.performs.effect h.laid.realized
    case kept hk _ => exact .inl ⟨tables_eq hLM hMv htables, fun e he => (h.alike_kept hLM hMv he (hk e he)).left⟩
    case inserted he hq _ hl hi hL => exact h.alike_inserted hLM hMv hM.realized he hq hl hi hL
    case changed he _ _ _ hc hL => exact h.alike_changed hLM hMv he hc hL

end CutShort

theorem Tables.Describes.interrupted (hd : T.Describes s L) (h : CutShort q a s L v Lv x) :
    ∃ a' T' M, T.Attempt q a' T' ∧ Laid x M ∧ T'.Describes x M := by
  have ⟨M, hM, hlike⟩ := h.alike
  rcases hlike with hlike | hlike
  · exact ⟨_, T, M, T.attempt_rejected q ⟨.badState, ""⟩, hM, hlike.describes h.laid.realized hM.realized hd⟩
  · have ⟨T', hT, hd'⟩ := hd.attempts h.laid.realized h.performs
    exact ⟨a, T', M, hT, hM, hlike.describes h.realized hM.realized hd'⟩

end
end NexusDb
