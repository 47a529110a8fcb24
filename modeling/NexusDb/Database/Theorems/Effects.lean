import NexusDb.Database.History
import NexusDb.Query.Theorems.MapOfMaps

namespace NexusDb

open Layout (Realized)
open HeapTable (slots Kept Inserted Changed)

-- A table has the record under this id.
def Layout.Shows (L : Layout) (s : PageStorage) (t : Bytes) (id : RecordId) (bs : Bytes) : Prop :=
  ∃ e ∈ L.tables, e.fst = t ∧ id.page ∈ (L.dir e.snd).all ∧ (slots s id.page)[id.slot.toNat]? = some (some bs)

namespace Query

-- What a query may do to the records of all tables: nothing, add one, or replace or remove the one that it names.
inductive Effect (s : PageStorage) (L : Layout) (q : Query) (a : Answer) (s' : PageStorage) (L' : Layout) : Prop
  | kept (hw : q.wrote a = none) (ht : ∀ x, ¬(q.target = some x ∧ a.error? = none))
      (hsub : ∀ e ∈ L.tables, e ∈ L'.tables)
      (hk : ∀ e ∈ L.tables, Kept s (L.dir e.snd) s' (L'.dir e.snd))
      (hnew : ∀ e ∈ L'.tables, e ∈ L.tables ∨ (L'.dir e.snd).all = [])
  | inserted {e : Bytes × PageId} {bs : Bytes} {id : RecordId} {C : Chain PageId} (he : e ∈ L.tables)
      (hq : q = .insert e.fst (some bs)) (ha : a = .inserted (.ok id)) (hl : HeapTable.Leads s (L.dir e.snd) s' C)
      (hi : Inserted s (L.dir e.snd) s' C bs id) (hL : L' = L.setDir e.snd C)
  | changed {e : Bytes × PageId} {id : RecordId} {new : Option Bytes} (he : e ∈ L.tables)
      (ht : q.target = some (e.fst, id)) (ha : a.error? = none)
      (hw : q.wrote a = new.map (e.fst, id, ·)) (hc : Changed s (L.dir e.snd) s' id new) (hL : L' = L)

variable {s s' : PageStorage} {L L' : Layout} {K : Contract} {q : Query} {a : Answer} {t bs : Bytes} {id : RecordId}

theorem Effect.same (hw : q.wrote a = none) (ht : ∀ x, ¬(q.target = some x ∧ a.error? = none)) : Effect s L q a s L :=
  .kept hw ht (fun _ he => he) (fun _ _ => .refl) fun _ he => .inl he

theorem error?_rejected (q : Query) (e : Error) : (q.rejected e).error? = some e := by
  cases q <;> rfl

theorem wrote_rejected (q : Query) (e : Error) : q.wrote (q.rejected e) = none := by
  cases q
  case insert _ r => cases r <;> rfl
  case update _ _ r => cases r <;> rfl
  all_goals rfl

theorem Performs.effect (h : Realized s L) (hp : Performs K s L q a s' L') : Effect s L q a s' L' := by
  have hrejected : ∀ e, Effect s L q (q.rejected e) s L := fun e =>
    .same (q.wrote_rejected e) fun x hx => by rw [error?_rejected] at hx; cases hx.right
  cases hp
  case createTable name r hc =>
    have hkept := fun e he => h.kept_creates hc (e := e) he
    cases r
    case error =>
      have ht := hc.right.right.right.left
      exact .kept rfl (fun _ hx => by cases hx.left) (fun e he => ht ▸ he) hkept fun e he => .inl (ht ▸ he)
    case ok root =>
      have ⟨_, _, _, _, _, ht, hroot, _⟩ := hc
      refine .kept rfl (fun _ hx => by cases hx.left) (fun e he => ht ▸ List.mem_append_left _ he) hkept fun e he => ?_
      rw [ht] at he
      refine (List.mem_append.mp he).imp_right fun he => ?_
      rw [List.mem_singleton.mp he, hroot]
      rfl
  case listTables => exact .same rfl fun _ hx => by cases hx.left
  case noTable => exact hrejected _
  case notOpen => exact hrejected _
  case insert e record r C he hi =>
    cases r
    case ok id =>
      have ⟨hl, bs, hr, hins⟩ := hi
      subst hr
      exact .inserted he rfl rfl hl hins rfl
    case error err =>
      have ⟨hl, hk, _⟩ := hi
      refine .kept (by cases record <;> rfl) (fun _ hx => by cases hx.left) (fun _ he => he) (fun e' he' => ?_)
        fun _ he => .inl he
      by_cases hee : e' = e
      case pos =>
        subst hee
        rwa [Layout.setDir_self]
      case neg => exact h.kept he he' hee hl
  case get => exact .same rfl fun _ hx => by cases hx.left
  case update e rid record r he hu =>
    cases r
    case ok =>
      have ⟨bs, hr, hc⟩ := hu
      subst hr
      exact .changed he rfl rfl rfl hc rfl
    case error =>
      rw [hu.left]
      exact .same (by cases record <;> rfl) fun _ hx => by cases hx.right
  case delete e rid r he hd =>
    cases r
    case ok => exact .changed he rfl rfl (rfl : _ = Option.map _ (none : Option Bytes)) hd rfl
    case error =>
      rw [hd.left]
      exact .same rfl fun _ hx => by cases hx.right
  case scan => exact .same rfl fun _ hx => by cases hx.left
  case scanNull => exact .same rfl fun _ hx => by cases hx.left

namespace Effect

variable (h : Realized s L) (hx : Effect s L q a s' L')

include h hx

-- A record that was not changed is still there.
theorem shows (hn : ¬(q.target = some (t, id) ∧ a.error? = none)) (hs : L.Shows s t id bs) : L'.Shows s' t id bs := by
  have ⟨e, he, ht, hi, hslot⟩ := hs
  subst ht
  cases hx
  case kept hsub hk _ =>
    have hk := hk e he
    exact ⟨e, hsub e he, rfl, hk.all ▸ hi, HeapTable.slots_congr (hk.same _ hi) ▸ hslot⟩
  case inserted e' bs' id' C he' _ _ hl hi' hL =>
    subst hL
    by_cases hee : e = e'
    case neg =>
      have hk := h.kept he' he hee hl
      exact ⟨e, he, rfl, hk.all ▸ hi, HeapTable.slots_congr (hk.same _ hi) ▸ hslot⟩
    case pos =>
      subst hee
      refine ⟨e, he, rfl, ?_, ?_⟩
      · rw [Layout.setDir_self]
        rcases hi'.all with ⟨ha, _⟩ | ⟨ha, _⟩
        · exact ha ▸ hi
        · exact ha ▸ List.mem_append_left _ hi
      · by_cases hp : id.page = id'.page
        case pos =>
          rw [hp] at hslot ⊢
          rw [hi'.slots, List.getElem?_append_left (List.getElem?_eq_some_iff.mp hslot).fst]
          exact hslot
        case neg => exact HeapTable.slots_congr (hi'.same _ hi hp) ▸ hslot
  case changed e' id' new he' ht' ha _ hc hL =>
    subst hL
    refine ⟨e, he, rfl, hi, ?_⟩
    by_cases hp : id.page = id'.page
    case neg => exact HeapTable.slots_congr (hc.same _ hp) ▸ hslot
    case pos =>
      -- The pages of different tables are different.
      have hee : e = e' := by
        by_contra hee
        exact h.disjoint he he' hee (List.mem_append_right _ hi) (List.mem_append_right _ (hp ▸ hc.page))
      subst hee
      have hne : id'.slot.toNat ≠ id.slot.toNat := fun hs => hn ⟨HeapTable.eq_of_slot hp hs.symm ▸ ht', ha⟩
      rw [hp] at hslot ⊢
      rw [hc.slots, List.getElem?_set_ne hne]
      exact hslot

theorem shows_wrote (hw : q.wrote a = some (t, id, bs)) : L'.Shows s' t id bs := by
  cases hx
  case kept hn _ _ _ _ =>
    rw [hn] at hw
    cases hw
  case inserted e bs' id' C he hq ha _ hi hL =>
    subst hq ha hL
    cases hw
    refine ⟨e, he, rfl, by rw [Layout.setDir_self]; exact hi.mem, ?_⟩
    rw [hi.slots, hi.slot_toNat]
    exact List.getElem?_concat_length
  case changed e id' new he _ _ hw' hc hL =>
    subst hL
    rw [hw'] at hw
    have ⟨_, hnew, hid⟩ := Option.map_eq_some_iff.mp hw
    cases hid
    have ⟨_, hold⟩ := hc.live
    refine ⟨e, he, rfl, hc.page, ?_⟩
    rw [hc.slots, hnew, List.getElem?_set_self (List.getElem?_eq_some_iff.mp hold).fst]

-- There are no other records.
theorem of_shows (hs : L'.Shows s' t id bs) : L.Shows s t id bs ∨ q.wrote a = some (t, id, bs) := by
  obtain ⟨e, he, ht, hi, hslot⟩ := hs
  subst ht
  cases hx
  case kept hk hnew =>
    rcases hnew e he with he | hnil
    · have hk := hk e he
      rw [hk.all] at hi
      exact .inl ⟨e, he, rfl, hi, HeapTable.slots_congr (hk.same _ hi) ▸ hslot⟩
    · rw [hnil] at hi
      cases hi
  case inserted e' bs' id' C he' hq ha hl hi' hL =>
    subst hq ha hL
    by_cases hee : e = e'
    case neg =>
      have hk := h.kept he' he hee hl
      rw [hk.all] at hi
      exact .inl ⟨e, he, rfl, hi, HeapTable.slots_congr (hk.same _ hi) ▸ hslot⟩
    case pos =>
      subst hee
      rw [Layout.setDir_self] at hi
      by_cases hp : id.page = id'.page
      case neg =>
        have hi : id.page ∈ (L.dir e.snd).all := by
          rcases hi'.all with ⟨ha, _⟩ | ⟨ha, _⟩
          · exact ha ▸ hi
          · rw [ha] at hi
            exact (List.mem_append.mp hi).resolve_right fun hm => hp (List.mem_singleton.mp hm)
        exact .inl ⟨e, he, rfl, hi, HeapTable.slots_congr (hi'.same _ hi hp) ▸ hslot⟩
      case pos =>
        rw [hp, hi'.slots, List.getElem?_append] at hslot
        split at hslot
        case isTrue hlt =>
          -- The slot was there, and so was the page.
          have hi : id'.page ∈ (L.dir e.snd).all := by
            rcases hi'.all with ⟨_, hm⟩ | ⟨_, hn⟩
            · exact hm
            · rw [slots, hn] at hlt
              cases hlt
          exact .inl ⟨e, he, rfl, hp ▸ hi, hp ▸ hslot⟩
        case isFalse hlt =>
          have hz := (List.getElem?_eq_some_iff.mp hslot).fst
          rw [List.length_singleton, Nat.lt_one_iff] at hz
          have hslots : id.slot.toNat = id'.slot.toNat := by
            rw [hi'.slot_toNat]
            omega
          rw [hz] at hslot
          cases hslot
          exact .inr (HeapTable.eq_of_slot hp hslots ▸ rfl)
  case changed e' id' new he' _ _ hw hc hL =>
    subst hL
    by_cases hp : id.page = id'.page
    case neg => exact .inl ⟨e, he, rfl, hi, HeapTable.slots_congr (hc.same _ hp) ▸ hslot⟩
    case pos =>
      have hee : e = e' := by
        by_contra hee
        exact h.disjoint he he' hee (List.mem_append_right _ hi) (List.mem_append_right _ (hp ▸ hc.page))
      subst hee
      obtain ⟨_, hold⟩ := hc.live
      by_cases hs : id'.slot.toNat = id.slot.toNat
      case pos =>
        rw [hp, hc.slots, ← hs, List.getElem?_set_self (List.getElem?_eq_some_iff.mp hold).fst, Option.some_inj] at hslot
        refine .inr ?_
        rw [hw, hslot, HeapTable.eq_of_slot hp hs.symm]
        rfl
      case neg =>
        rw [hp, hc.slots, List.getElem?_set_ne hs] at hslot
        exact .inl ⟨e, he, rfl, hi, hp ▸ hslot⟩

-- A data page of a table was one before, unless an insert has added it.
theorem data (he : e ∈ L'.tables) (hi : i ∈ (L'.dir e.snd).all) :
    (e ∈ L.tables ∧ i ∈ (L.dir e.snd).all) ∨ (s.page? i = none ∧ q.target = none) := by
  cases hx
  case kept hk hnew =>
    rcases hnew e he with he | hnil
    · exact .inl ⟨he, (hk e he).all ▸ hi⟩
    · rw [hnil] at hi
      cases hi
  case inserted e' bs id C he' hq ha hl hi' hL =>
    subst hq ha hL
    by_cases hee : e = e'
    case neg => exact .inl ⟨he, (h.kept he' he hee hl).all ▸ hi⟩
    case pos =>
      subst hee
      rw [Layout.setDir_self] at hi
      rcases hi'.all with ⟨ha, _⟩ | ⟨ha, hn⟩
      · exact .inl ⟨he, ha ▸ hi⟩
      · rw [ha] at hi
        cases List.mem_append.mp hi
        case inl hi => exact .inl ⟨he, hi⟩
        case inr hi => exact .inr ⟨List.mem_singleton.mp hi ▸ hn, rfl⟩
  case changed hL =>
    subst hL
    exact .inl ⟨he, hi⟩

end Effect
end Query
end NexusDb
