import NexusDb.Query.Theorems.MapOfMaps

namespace NexusDb.Tables

open Layout (Realized)

variable {s s' : PageStorage} {L L' : Layout} {T : Tables} {K : Contract} {q : Query} {a : Answer}

theorem attempt_rejected (T : Tables) (q : Query) (e : Error) : T.Attempt q (q.rejected e) T := by
  cases q <;> exact .failed rfl

theorem Attempt.listTables (h : T.Attempt .listTables a T') : T' = T := by
  cases h
  case done hs =>
    cases hs
    rfl
  case failed => rfl

namespace Describes

variable (hd : T.Describes s L) (h : Realized s L)

include hd h

-- A query that fails changes no table, whatever it was that went wrong.

theorem attempt_insert (he : e ∈ L.tables) (hi : HeapTable.Inserts K s (L.dir e.snd) record r s' C) :
    ∃ T', T.Attempt (.insert e.fst record) (.inserted r) T' ∧ T'.Describes s' (L.setDir e.snd C) := by
  cases r
  case ok id =>
    -- The contract only matters when the insert fails.
    have hok : HeapTable.Inserts .reliable s (L.dir e.snd) record (.ok id) s' C := hi
    have ⟨T', hs, hd'⟩ := hd.step_insert h he hok
    exact ⟨T', .done hs, hd'⟩
  case error err =>
    have ⟨hl, hk, _⟩ := hi
    refine ⟨T, .failed rfl, hd.kept h (Layout.Leads.table h he hl).realized rfl fun e' he' => ?_⟩
    by_cases hee : e' = e
    case pos =>
      subst hee
      rwa [Layout.setDir_self]
    case neg => exact h.kept he he' hee hl

theorem attempt_update {id : RecordId} (he : e ∈ L.tables) (hu : HeapTable.Updates K s (L.dir e.snd) id record r s') :
    ∃ T', T.Attempt (.update e.fst id record) (.status r) T' ∧ T'.Describes s' L := by
  cases r
  case ok =>
    have hok : HeapTable.Updates .reliable s (L.dir e.snd) id record (.ok ()) s' := hu
    have ⟨T', hs, hd'⟩ := hd.step_update h he hok
    exact ⟨T', .done hs, hd'⟩
  case error => exact ⟨T, .failed rfl, hu.left ▸ hd⟩

theorem attempt_delete {id : RecordId} (he : e ∈ L.tables) (hu : HeapTable.Deletes K s (L.dir e.snd) id r s') :
    ∃ T', T.Attempt (.delete e.fst id) (.status r) T' ∧ T'.Describes s' L := by
  cases r
  case ok =>
    have hok : HeapTable.Deletes .reliable s (L.dir e.snd) id (.ok ()) s' := hu
    have ⟨T', hs, hd'⟩ := hd.step_delete h he hok
    exact ⟨T', .done hs, hd'⟩
  case error => exact ⟨T, .failed rfl, hu.left ▸ hd⟩

theorem attempts (hp : q.Performs K s L a s' L') : ∃ T', T.Attempt q a T' ∧ T'.Describes s' L' := by
  have hl := hp.leads h
  cases hp
  case createTable name r hc =>
    cases r
    case ok root =>
      have ⟨_, _, _, hv, hn, _⟩ := hc
      exact ⟨_, .done (.create hv (hd.missing hn)), hd.created h hc⟩
    case error e =>
      have ⟨_, _, _, ht, _⟩ := hc
      exact ⟨T, .failed rfl, hd.kept h hl.realized ht fun e he => h.kept_creates hc he⟩
  case listTables =>
    refine ⟨T, .done (.list h.unique fun name => ?_), hd⟩
    rw [hd.contents, h.maps_isSome]
  case noTable => exact ⟨T, T.attempt_rejected q _, hd⟩
  case notOpen => exact ⟨T, T.attempt_rejected q _, hd⟩
  case insert r C he hi => exact hd.attempt_insert h he hi
  case get r rid he hr =>
    rcases hr with rfl | ⟨_, rfl, _⟩
    · exact ⟨T, .done (hd.step_get h he), hd⟩
    · exact ⟨T, .failed rfl, hd⟩
  case update r he hu => exact hd.attempt_update h he hu
  case delete r he hu => exact hd.attempt_delete h he hu
  case scan he hr =>
    rcases hr with hr | ⟨_, rfl, _⟩
    · cases hr
      exact ⟨T, .done (hd.step_scan h he _), hd⟩
    · exact ⟨T, .failed rfl, hd⟩
  case scanNull => exact ⟨T, .failed rfl, hd⟩

end Describes
end NexusDb.Tables
