import NexusDb.Buffer.Theorems.Simulation

namespace NexusDb

-- The greatest number of pages for which the counters of the walks over page chains do not wrap around.
@[simp]
abbrev pageLimit : Nat := 2 ^ 32 - 4

-- What is said about the page calls of some code: whether any of them may fail because of the
-- environment, and how the bytes of a page may change.
structure Contract where
  tolerant : Prop
  change   : PageId → PageData → PageData → Prop

-- There is nothing to show when the file grows beyond the limit, unless anything can go wrong.
def Contract.Fits (c : Contract) (s : PageStorage) : Prop :=
  c.tolerant ∨ s.pages.length ≤ pageLimit

-- Contracts that do not restrict the changes: everything can go wrong, and nothing.

def Contract.any : Contract :=
  ⟨True, fun _ _ _ => True⟩

def Contract.reliable : Contract :=
  ⟨False, fun _ _ _ => True⟩

namespace Prog

-- The code keeps the contract, behavior is defined, and what it returns and leaves satisfies `Q`. It
-- only fetches pages that exist. A new page that could not be written completely is there all the same.
def wp (c : Contract) : Prog α → (α → PageStorage → Prop) → PageStorage → Prop
  | ret a,           Q, s => Q a s
  | numPages k,      Q, s =>
    (∀ e, c.tolerant → (k (.error e)).wp c Q s) ∧ (k (.ok s.numPages)).wp c Q s
  | newPage data k,  Q, s =>
    (∀ e, c.tolerant → (k (.error e)).wp c Q s) ∧
    (s.numPages ≠ invalidId → (∀ e d, c.tolerant → (k (.error e)).wp c Q (s.push d)) ∧
      (c.Fits (s.push data) → (k (.ok s.numPages)).wp c Q (s.push data)))
  | withPage id f k, Q, s =>
    (∀ e, c.tolerant → (k (.error e)).wp c Q s) ∧
      ∃ d r, s.page? id = some d ∧ f d = some r ∧
        match r.snd with
        | none      => (k r.fst).wp c Q s
        | some data => c.change id d data ∧ (k r.fst).wp c Q (s.setPage id data)

variable {c : Contract} {s : PageStorage}

-- The code and what comes after it, from what the code leaves.
theorem wp_seq {g : Prog α} {k : α → Prog β} (h : g.wp c P s) (hk : ∀ a s, P a s → (k a).wp c Q s) :
    (g.bind k).wp c Q s := by
  induction g generalizing s
  case ret a => exact hk a s h
  case numPages hi => exact ⟨fun e ht => hi _ (h.left e ht), hi _ h.right⟩
  case newPage hi =>
    refine ⟨fun e he => hi _ (h.left e he), fun hn => ?_⟩
    have ⟨hfail, hok⟩ := h.right hn
    exact ⟨fun e d he => hi _ (hfail e d he), fun hf => hi _ (hok hf)⟩
  case withPage hi =>
    have ⟨hf, d, r, hd, hr, hk⟩ := h
    refine ⟨fun e h => hi _ (hf e h), d, r, hd, hr, ?_⟩
    split at hk
    case h_1 => exact hi _ hk
    case h_2 => exact ⟨hk.left, hi _ hk.right⟩

theorem wp_bind {g : Prog α} {k : α → Prog β} (h : g.wp c (fun a s => (k a).wp c Q s) s) : (g.bind k).wp c Q s :=
  wp_seq h fun _ _ hk => hk

theorem wp_mono {g : Prog α} (h : g.wp c Q s) (hq : ∀ a s, Q a s → Q' a s) : g.wp c Q' s :=
  g.bind_ret ▸ wp_seq h hq

theorem wp_countPages (hf : ∀ e, c.tolerant → Q (.error e) s) (h : Q (.ok s.numPages) s) : countPages.wp c Q s :=
  ⟨hf, h⟩

theorem wp_pageExists (hf : c.tolerant → Q false s) (h : Q (i < s.numPages) s) : (pageExists i).wp c Q s :=
  ⟨fun _ => hf, h⟩

theorem wp_addPage (hfail : ∀ e, c.tolerant → Q (.error e) s)
    (hpart : s.numPages ≠ invalidId → ∀ e d, c.tolerant → Q (.error e) (s.push d))
    (hok : s.numPages ≠ invalidId → c.Fits (s.push d) → Q (.ok s.numPages) (s.push d)) :
    (addPage d).wp c Q s :=
  ⟨hfail, fun hn => ⟨hpart hn, hok hn⟩⟩

theorem wp_read {f : PageData → Mem (PageCall β)} (hd : s.page? i = some d)
    (hr : f d = some (r, none)) (hf : ∀ e, c.tolerant → Q (.error e) s) (h : Q r s) :
    (onPage i f).wp c Q s :=
  ⟨hf, d, (r, none), hd, hr, h⟩

theorem wp_write {f : PageData → Mem (PageCall β)} (hd : s.page? i = some d)
    (hr : f d = some (r, some b)) (hf : ∀ e, c.tolerant → Q (.error e) s) (hc : c.change i d b)
    (h : Q r (s.setPage i b)) : (onPage i f).wp c Q s :=
  ⟨hf, d, (r, some b), hd, hr, hc, h⟩

theorem length_le_direct (g : Prog α) (s : PageStorage) : s.pages.length ≤ (g.direct s).snd.pages.length := by
  induction g generalizing s
  case ret => exact le_rfl
  case numPages hi => exact hi _ s
  case newPage d k hi =>
    rw [direct, PageStorage.allocatePage]
    split
    case h_1 h =>
      split at h <;> cases h
      exact hi _ s
    case h_2 h =>
      split at h <;> cases h
      refine le_trans ?_ (hi _ _)
      simp
  case withPage hi =>
    rw [direct]
    split
    case isTrue => exact hi _ s
    case isFalse =>
      split
      case h_1 => exact hi _ s
      case h_2 =>
        split
        case h_1 => exact le_rfl
        case h_2 => exact hi _ s
        case h_3 => exact (PageStorage.length_setPage).ge.trans (hi _ _)

-- Programs that add no pages.
def InPlace : Prog α → Prop
  | ret _          => True
  | numPages k     => ∀ r, (k r).InPlace
  | newPage _ _    => False
  | withPage _ _ k => ∀ r, (k r).InPlace

theorem InPlace.bind {g : Prog α} {k : α → Prog β} (hg : g.InPlace) (hk : ∀ a, (k a).InPlace) :
    (g.bind k).InPlace := by
  induction g
  case ret a => exact hk a
  case numPages hi => exact fun r => hi r (hg r)
  case newPage => cases hg
  case withPage hi => exact fun r => hi r (hg r)

theorem ReadOnly.inPlace {g : Prog α} (hg : g.ReadOnly) : g.InPlace := by
  induction g
  case ret => trivial
  case numPages hi => exact fun r => hi r (hg r)
  case newPage => cases hg
  case withPage hi => exact fun r => hi r (hg.right r)

-- What the contract says holds when the code runs directly on the pages, as long as the file does not grow
-- beyond the limit.
theorem wp_direct {g : Prog α} (h : g.wp c Q s)
    (hl : (g.direct s).snd.pages.length ≤ pageLimit ∨ g.InPlace) :
    ∃ a, (g.direct s).fst = some a ∧ Q a (g.direct s).snd := by
  induction g generalizing s
  case ret a => exact ⟨a, rfl, h⟩
  case numPages hi => exact hi _ h.right (hl.imp_right fun hg => hg _)
  case newPage d k hi =>
    replace hl := hl.resolve_right id
    rw [direct] at hl ⊢
    have hn : s.numPages ≠ invalidId := PageStorage.numPages_ne_invalidId <| by
      have hle := length_le_direct (.newPage d k) s
      rw [direct] at hle
      simp at hl
      omega
    have hs : s.allocatePage = (.ok { id := s.numPages }, s.allocatePage.snd) := by
      have : s.allocatePage.fst = .ok { id := s.numPages } := by rw [PageStorage.allocatePage, dif_neg hn]
      rw [← this]
    rw [hs] at hl ⊢
    have hle := length_le_direct (k (.ok s.numPages)) (s.push d)
    exact hi _ ((h.right hn).right <| .inr <| hle.trans hl) (.inl hl)
  case withPage id f k hi =>
    obtain ⟨_, d, r, hd, hr, hk⟩ := h
    have hid := PageStorage.ne_invalidId hd
    simp only [direct, if_neg hid, hd] at hl ⊢
    obtain ⟨r, d'⟩ := r
    cases d'
    case none =>
      simp only [hr] at hl ⊢
      exact hi _ hk (hl.imp_right fun hg => hg _)
    case some =>
      simp only [hr] at hl ⊢
      exact hi _ hk.right (hl.imp_right fun hg => hg _)

-- And so when the code runs on a pool that nobody else uses, without errors of the environment.
theorem wp_serves [Device σ] {g : Prog α} {p : BufferPool σ} (hw : g.wp c Q s) (h : p.Serves s)
    (ho : Device.ok (g.exec p).snd.dev)
    (hf : (g.exec p).snd.fetches < BufferPool.maxStamp ∨ p.fetches + g.calls s < BufferPool.maxStamp)
    (hl : (Device.numPages (g.exec p).snd.dev).toNat ≤ pageLimit ∨ g.InPlace) :
    ∃ a s' q, g.exec p = (some a, q) ∧ g.direct s = (some a, s') ∧ q.Serves s' ∧ Q a s' ∧
      q.fetches = p.fetches + g.calls s := by
  have ⟨hfst, hs, hn⟩ := exec_direct g h ho hf
  have hlen : (g.direct s).snd.pages.length ≤ pageLimit ∨ g.InPlace := by
    rwa [hs.coherent.numPages, PageStorage.toNat_numPages] at hl
  have ⟨a, ha, hq⟩ := wp_direct hw hlen
  exact ⟨a, _, _, Prod.ext (hfst.trans ha) rfl, Prod.ext ha rfl, hs, hq, hn⟩

-- It also holds when the code runs on a pool and anything goes wrong that can.
theorem wp_exec [Device σ] {g : Prog α} {p : BufferPool σ} (ht : c.tolerant) (h : g.wp c Q s) (hi : p.Inv)
    (hp : p.Coherent s.page?) :
    ∃ a s', (g.exec p).fst = some a ∧ (g.exec p).snd.Coherent s'.page? ∧ Q a s' := by
  induction g generalizing p s
  case ret a => exact ⟨a, s, rfl, hp, h⟩
  case numPages k ih =>
    rw [exec]
    rcases hc : Device.countPages p.dev with ⟨r, s₁⟩
    have hi' := (hi.keeps_dev s₁).inv
    have hp' : BufferPool.Coherent { p with dev := s₁ } s.page? :=
      hp.same_pages (BufferPool.count_same hc)
    cases r
    case error e => exact ih _ (h.left e ht) hi' hp'
    case ok n =>
      have hn := Device.count_ok hc
      rw [hp.numPages] at hn
      exact ih _ (hn ▸ h.right) hi' hp'
  case newPage d k ih =>
    have hi' := fun dev => (hi.keeps_dev dev).inv
    rw [exec]
    rcases ha : Device.allocatePage p.dev with ⟨e | page, s₁⟩
    · exact ih _ (h.left e ht) (hi' s₁) (hp.same_pages (Device.alloc_error ha))
    · obtain ⟨hn, hpage, _⟩ := Device.alloc_ok ha
      rw [hp.numPages] at hn hpage
      obtain ⟨hpart, hok⟩ := h.right hn
      rcases hw : Device.writePage s₁ .direct { page with data := d, dirty := true } with ⟨e | ⟨⟩, s₂⟩
      · obtain ⟨d', hs⟩ := hp.newPage_failed ha hw
        simp only [hw]
        exact ih _ (hpart e d' ht) (hi' s₂) hs
      · have hs := hp.newPage ha hw
        simp only [hw]
        rw [hpage]
        exact ih _ (hok (.inl ht)) (hi' s₂) hs
  case withPage id f k ih =>
    obtain ⟨hf, d, r, hd, hr, hk⟩ := h
    rw [exec]
    rcases hfetch : p.fetch id with ⟨e | i, q⟩
    · rcases BufferPool.fetch_cases hfetch with ⟨_, _, st⟩ | ⟨_, _, hr, _⟩
      · exact ih _ (hf e ht) (hi.keeps_steps st).inv (hp.steps hi st)
      · cases hr
    · obtain ⟨hd', hnone, hsome⟩ := hp.use hi hfetch
      have hi' := fun d => (hi.keeps_use hfetch d).inv
      cases hd.symm.trans hd'
      simp only [hr]
      obtain ⟨r, d'⟩ := r
      cases d'
      case none => exact ih _ hk (hi' none) hnone
      case some d' => exact ih _ hk.right (hi' (some d')) (hsome d')

-- A run of code whose page calls may all fail.
theorem wp_any [Device σ] {g : Prog α} {p q : BufferPool σ} (hw : g.wp .any Q s) (hi : p.Inv)
    (hp : p.Coherent s.page?) (he : g.exec p = (r, q)) :
    BufferPool.Keeps p q ∧ ∃ a s', r = some a ∧ q.Coherent s'.page? ∧ Q a s' := by
  have ⟨a, s', hr, hc, hq⟩ := wp_exec (c := .any) trivial hw hi hp
  have hk := exec_keeps hi g
  rw [he] at hr hc hk
  exact ⟨hk, a, s', hr, hc, hq⟩

end Prog
end NexusDb
