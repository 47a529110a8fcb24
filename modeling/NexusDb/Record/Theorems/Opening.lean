import NexusDb.Record.Theorems.Search

open Bytes

namespace NexusDb

open Prog (AtMost ReadOnly)

-- Opening a table on a pool that others hold pages of. It succeeds only if the pool can hold the pages of the
-- directory, and then it does unless a call on the device fails.

namespace PageChain

section

variable {visit : β → Bytes → Prog (Except Error β)}

theorem visitEntries_atMost (h : ∀ acc entry, (visit acc entry).AtMost 0) (acc : β) (entries : List Bytes) :
    (visitEntries visit acc entries).AtMost 0 := by
  induction entries generalizing acc
  case nil => trivial
  case cons entry entries hi =>
    refine AtMost.bind (h acc entry) (fun r => ?_) (Nat.zero_add 0).le
    split
    case h_1 => trivial
    case h_2 => exact hi _

theorem walk_atMost (c : PageChain) (h : ∀ acc entry, (visit acc entry).AtMost 0) (acc : β) (page prev : PageId)
    (fuel : Nat) : (c.walk visit acc page prev fuel).AtMost fuel := by
  induction fuel generalizing acc page prev
  case zero => trivial
  case succ fuel ih =>
    refine AtMost.bind (n := fuel) .onPage (fun r => ?_) (Nat.add_comm ..).le
    split
    case h_1 => trivial
    case h_2 =>
      refine AtMost.bind (visitEntries_atMost h acc _) (fun r => ?_) (Nat.zero_add fuel).le
      split
      case h_1 => trivial
      case h_2 =>
        split_ifs
        · trivial
        · trivial
        · exact ih _ _ _

section

variable [Device σ] {p q : BufferPool σ} {c : PageChain} {s : PageStorage}

-- The first page of a path, as the walk reads it.
theorem exec_readPage (h : p.Ready s (n + 1)) (hd : s.page? i = some d) (hh : c.Holds d es next)
    (he : (Prog.onPage i c.readPage).exec p = (some r, q)) :
    (∃ e, r = .error e ∧ p.fetch i = (.error e, q)) ∨
    (r = .ok (es, next) ∧ p.CanHold i ∧ q.Ready s n ∧ p.SameRoom q) := by
  rw [Prog.onPage, Prog.exec] at he
  rcases hf : p.fetch i with ⟨e | k, q₁⟩
  · simp only [hf] at he
    cases he
    exact .inl ⟨e, rfl, rfl⟩
  · obtain ⟨hd', hready, hsame, _⟩ := h.use (d := none) hf
    cases hd.symm.trans hd'
    simp only [hf, hh.readPage] at he
    cases he
    refine .inr ⟨rfl, fun ha => ?_, hready, hsame⟩
    by_contra hr
    rw [BufferPool.fetch_allPinned h.inv ha (PageStorage.ne_invalidId hd) hr] at hf
    split at hf <;> cases hf

theorem healthy_onPage {read : PageData → Mem (PageCall α)}
    (he : (Prog.onPage i read).exec p = (some (.ok r), q)) : (Prog.onPage i read).Healthy p := by
  rw [Prog.onPage, Prog.exec] at he
  rw [Prog.onPage, Prog.Healthy]
  rcases hf : p.fetch i with ⟨e | k, q'⟩
  · simp only [hf] at he
    cases he
  · simp only
    split <;> trivial

variable (hro : ∀ acc entry, (visit acc entry).ReadOnly) (hat : ∀ acc entry, (visit acc entry).AtMost 0)

include hro hat

-- What the walk does with the first page of a path.
theorem exec_page (h : p.Ready s (n + 1)) (hd : s.page? i = some d) (hh : c.Holds d es next) (acc : β) :
    (∃ e q, (Prog.onPage i c.readPage).exec p = (some (.error e), q) ∧ p.fetch i = (.error e, q)) ∨
    (∃ q₁ r q, (Prog.onPage i c.readPage).exec p = (some (.ok (es, next)), q₁) ∧
      (visitEntries visit acc es).exec q₁ = (some r, q) ∧ p.CanHold i ∧ q₁.Ready s n ∧ q.Ready s n ∧ p.SameRoom q) := by
  obtain ⟨r₁, hr₁⟩ := (ReadOnly.onPage (i := i) c.readPage_readOnly).returns p
  rcases hread : (Prog.onPage i c.readPage).exec p with ⟨_, q₁⟩
  rw [hread] at hr₁
  subst hr₁
  rcases exec_readPage h hd hh hread with ⟨e, rfl, hf⟩ | ⟨rfl, hold, hready, hsame⟩
  · exact .inl ⟨e, q₁, rfl, hf⟩
  · have hvisit : (visitEntries visit acc es).ReadOnly := visitEntries_readOnly hro es
    obtain ⟨r, hr⟩ := hvisit.returns q₁
    rcases hv : (visitEntries visit acc es).exec q₁ with ⟨_, q⟩
    rw [hv] at hr
    subst hr
    obtain ⟨hready', hsame'⟩ := hvisit.ready (visitEntries_atMost hat acc es) (hready.mono (Nat.zero_add n).le) hv
    exact .inr ⟨q₁, r, q, rfl, hv, hold, hready, hready', hsame.trans hsame'⟩

theorem canHold_of_walk (hp : c.Path s i ps) (h : p.Ready s fuel)
    (he : (c.walk visit acc i prev fuel).exec p = (some (.ok r), q)) : ∀ j ∈ ps.map Prod.fst, p.CanHold j := by
  induction fuel generalizing acc i prev ps p
  case zero => cases he
  case succ fuel ih =>
    cases hp
    case done => rintro _ ⟨⟩
    case page es next ps hh rest hd =>
      rw [walk, Prog.bind_eq, Prog.exec_bind] at he
      rcases exec_page hro hat h hd hh acc with ⟨e, q₁, hread, _⟩ | ⟨q₁, r₂, q₂, hread, hv, hold, _, hready, hsame⟩
      · simp only [hread] at he
        cases he
      · simp only [hread, Prog.bind_eq, Prog.exec_bind, hv] at he
        cases r₂
        case error => cases he
        case ok acc' =>
          intro j hj
          rcases List.mem_cons.mp hj with rfl | hj
          · exact hold
          · simp only at he
            split_ifs at he with hnext hloop
            · subst hnext
              rw [Path.done.unique rest] at hj
              cases hj
            · cases he
            · exact hsame.canHold.mp (ih rest hready he j hj)

theorem healthy_walk (hp : c.Path s i ps) (h : p.Ready s fuel) (hold : ∀ j ∈ ps.map Prod.fst, p.CanHold j)
    (hn : ps ≠ []) (ho : Device.ok ((c.walk visit acc i prev fuel).exec p).snd.dev) :
    (c.walk visit acc i prev fuel).Healthy p := by
  induction fuel generalizing acc i prev ps p
  case zero => trivial
  case succ fuel ih =>
    cases hp
    case done => exact absurd rfl hn
    case page es next ps hh rest hd =>
      rw [walk, Prog.bind_eq, Prog.exec_bind] at ho
      rw [walk, Prog.bind_eq, Prog.healthy_bind]
      rcases exec_page hro hat h hd hh acc with ⟨e, q₁, hread, hf⟩ | ⟨q₁, r₂, q₂, hread, hv, _, hready₁, hready, hsame⟩
      · simp only [hread] at ho
        rcases h.fetch_missing (fun _ => hold i List.mem_cons_self) hf ho with ⟨hinv, _⟩ | ⟨_, hnone, _⟩
        · exact absurd hinv (PageStorage.ne_invalidId hd)
        · cases hd.symm.trans hnone
      · simp only [hread, Prog.bind_eq, Prog.exec_bind, hv] at ho
        refine ⟨healthy_onPage hread, fun _ _ hr => ?_⟩
        cases hread.symm.trans hr
        simp only [Prog.bind_eq, Prog.healthy_bind]
        constructor
        case left =>
          refine (visitEntries_atMost hat acc es).healthy (hready₁.mono (Nat.zero_le _)) (absurd rfl) ?_
          rw [hv]
          exact Prog.exec_ok_mono _ _ ho
        case right =>
          intro _ _ hr
          cases hv.symm.trans hr
          rcases r₂ with e | acc'
          · trivial
          · simp only at ho ⊢
            split_ifs at ho ⊢ with hnext
            · trivial
            · trivial
            · refine ih rest hready (fun j hj => ?_) (fun he => hnext (he ▸ rest).eq_invalidId) ho
              exact hsame.canHold.mpr (hold j (List.mem_cons_of_mem _ hj))

end
end
end PageChain

namespace HeapTable

theorem checkDataPage_atMost : (checkDataPage i ids entry).AtMost 0 := by
  rw [checkDataPage]
  split
  case isTrue => trivial
  case isFalse =>
    refine AtMost.bind .pageExists (fun b => ?_) (Nat.zero_add 0).le
    split <;> trivial

theorem maxPages_le (n : PageId) : PageChain.maxPages n ≤ 2 ^ 32 :=
  UInt32.toNat_lt _

theorem loadDirectory_atMost : (loadDirectory i).AtMost (2 ^ 32) := by
  refine AtMost.bind (m := 0) (n := 2 ^ 32) (fun _ => trivial) (fun r => ?_) (Nat.zero_add _).le
  split
  case h_1 => trivial
  case h_2 total =>
    refine AtMost.bind (n := 0) (directory.walk_atMost (fun _ _ => checkDataPage_atMost) _ _ _ _) (fun r => ?_)
      (maxPages_le total)
    split <;> trivial

theorem open_atMost : (HeapTable.open i).AtMost (2 ^ 32) := by
  rw [HeapTable.open]
  split
  case isTrue => trivial
  case isFalse => exact loadDirectory_atMost

theorem create_atMost : create.AtMost (2 ^ 32) := by
  refine AtMost.bind (n := 2 ^ 32) .addPage (fun r => ?_) (Nat.zero_add _).le
  split
  case h_1 => trivial
  case h_2 => exact loadDirectory_atMost

section

variable [Device σ] {p q : BufferPool σ} {s : PageStorage} {C : Chain PageId}

theorem Stored.path_ids (hs : Stored s C) : ∃ ps, directory.Path s C.root ps ∧ ps.map Prod.fst = C.ids ∧ ps ≠ [] := by
  refine ⟨_, hs.chain.path, ?_, by simp [Chain.pages]⟩
  simp [Chain.ids]

theorem canHold_of_open (hs : Stored s C) (h : p.Ready s (2 ^ 32))
    (he : (HeapTable.open C.root).exec p = (some (.ok t), q)) : ∀ i ∈ C.ids, p.CanHold i := by
  obtain ⟨ps, hpath, hids, _⟩ := hs.path_ids
  rw [HeapTable.open, if_neg (hs.ne_invalidId (List.mem_append_left _ Chain.root_mem)), loadDirectory, Prog.bind_eq,
    Prog.exec_bind, Prog.countPages, Prog.exec] at he
  rcases hn : Device.countPages p.dev with ⟨e | total, dev⟩
  · simp only [hn] at he
    cases he
  · have hready := h.same_pages (BufferPool.count_same hn)
    simp only [hn, Prog.exec, Prog.bind_eq, Prog.exec_bind] at he
    rcases hw : (directory.walk (checkDataPage C.root) [] C.root invalidId (PageChain.maxPages total)).exec
      { p with dev } with ⟨_ | (e | r), q'⟩
    · simp only [hw] at he
      cases he
    · simp only [hw] at he
      cases he
    · rw [← hids]
      exact PageChain.canHold_of_walk (p := { p with dev }) (fun _ _ => checkDataPage_readOnly)
        (fun _ _ => checkDataPage_atMost) hpath (hready.mono (maxPages_le total)) hw

theorem exec_open (hs : Stored s C) (h : p.Ready s (2 ^ 32)) (hold : ∀ i ∈ C.ids, p.CanHold i)
    (hl : s.pages.length ≤ pageLimit) (ho : Device.ok ((HeapTable.open C.root).exec p).snd.dev) :
    ((HeapTable.open C.root).exec p).fst = some (.ok (loaded C)) := by
  obtain ⟨ps, hpath, hids, hn⟩ := hs.path_ids
  have hh : (HeapTable.open C.root).Healthy p := by
    rw [HeapTable.open, if_neg (hs.ne_invalidId (List.mem_append_left _ Chain.root_mem)), loadDirectory,
      Prog.bind_eq] at ho ⊢
    rw [Prog.exec_bind, Prog.countPages, Prog.exec] at ho
    rw [Prog.healthy_bind, Prog.countPages, Prog.Healthy]
    rcases hc : Device.countPages p.dev with ⟨e | total, dev⟩
    · simp only [hc, Prog.exec] at ho
      exact absurd ho (Device.count_fails hc)
    · have hready := h.same_pages (BufferPool.count_same hc)
      simp only [hc, Prog.exec, Prog.bind_eq] at ho ⊢
      refine ⟨trivial, ?_⟩
      rintro _ _ ⟨⟩
      rw [Prog.healthy_bind]
      refine ⟨PageChain.healthy_walk (fun _ _ => checkDataPage_readOnly) (fun _ _ => checkDataPage_atMost) hpath
        (hready.mono (maxPages_le total)) (hids ▸ hold) hn ?_, fun r q _ => ?_⟩
      · rw [Prog.exec_bind] at ho
        split at ho
        case h_1 hw =>
          rw [hw]
          split at ho <;> exact ho
        case h_2 hw =>
          rw [hw]
          exact ho
      · split <;> trivial
  obtain ⟨r, _, hr, _, _, hcase⟩ := Prog.wp_healthy (wp_open (K := .reliable) hs (.inr hl)) h.inv h.coherent hh
    (.inr open_readOnly.inPlace)
  rcases hcase with rfl | ⟨_, _, hf⟩
  · exact hr
  · cases hf

end

end HeapTable
end NexusDb
