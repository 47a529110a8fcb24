import NexusDb.Buffer.Theorems.Views
import NexusDb.Database.Theorems.Settled

namespace NexusDb

open BufferPool (Step Steps Pinned Reframes)

-- Some code runs whose page calls keep the contract `K`. At first the pool shows the pages `s₀` and the storage has `st₀`.
section

variable (K : Contract) (s₀ st₀ : PageStorage)

-- The pool shows the pages `v`, and `x` has each of them as the storage had it at first or as it was at some moment since.
structure Moment (v x : PageStorage) : Prop where
  view  : K.Evolves s₀ v
  pages : ∀ i, (v.page? i).isSome → ∃ d, x.page? i = some d ∧
            (st₀.page? i = some d ∨ ∃ u, K.Evolves s₀ u ∧ K.Evolves u v ∧ u.page? i = some d)

-- The pool between two of its steps.
structure Poised (p : BufferPool Disk) (v : PageStorage) : Prop where
  settled : p.dev.Settled
  dirty   : ∀ i f, p.frame? i = some f → f.inUse → f.page.dirty → f.page.id ≠ 0
  moment  : Moment K s₀ st₀ v p.dev.storage

-- From one moment to another. Wherever a crash falls in between, the recovery gives the pages of a moment with a view
-- that satisfies `G`.
def Passes (G : PageStorage → Prop) (p : BufferPool Disk) (v : PageStorage) (q : BufferPool Disk) (w : PageStorage) : Prop :=
  ∃ es, q.dev.trace = p.dev.trace ++ es ∧ (Poised K s₀ st₀ p v →
    p.dev.files.Safe (fun f => ∃ x, f.Recovers x ∧ ∃ u, G u ∧ Moment K s₀ st₀ u x) es ∧
    ((∀ e ∈ es, e.failed = false) → Poised K s₀ st₀ q w ∧ q.dev.files = p.dev.files.after es))

end

variable {K : Contract} {s₀ st₀ v w x : PageStorage} {G : PageStorage → Prop} {p q r : BufferPool Disk}

namespace Moment

theorem start (h : ∀ i, (s₀.page? i).isSome → (st₀.page? i).isSome) : Moment K s₀ st₀ s₀ st₀ := by
  refine ⟨.refl, fun i hi => ?_⟩
  have ⟨d, hd⟩ := Option.isSome_iff_exists.mp (h i hi)
  exact ⟨d, hd, .inl hd⟩

variable (h : Moment K s₀ st₀ v x)

include h

-- A page was written back.
theorem setPage (hd : v.page? i = some d) : Moment K s₀ st₀ v (x.setPage i d) := by
  refine ⟨h.view, fun j hj => ?_⟩
  have ⟨e, he, hp⟩ := h.pages i (by rw [hd]; rfl)
  rw [PageStorage.page?_setPage (by rw [he]; rfl)]
  split
  case isTrue hij =>
    subst hij
    exact ⟨d, rfl, .inr ⟨v, h.view, .refl, hd⟩⟩
  case isFalse => exact h.pages j hj

-- There is one more page, which nobody has seen.
theorem extend (hn : x.numPages ≠ invalidId) : Moment K s₀ st₀ v (x.push d) := by
  refine ⟨h.view, fun i hi => ?_⟩
  have ⟨e, he, hp⟩ := h.pages i hi
  have hx : PageStorage.Extends (fun _ => False) x (x.push d) := .push hn
  exact ⟨e, (hx.same i (by rw [he]; rfl) id).trans he, hp⟩

-- The pages have changed in memory.
theorem evolve (hv : K.Evolves v w) (hnew : ∀ i, (w.page? i).isSome → (v.page? i).isSome) : Moment K s₀ st₀ w x := by
  refine ⟨h.view.trans hv, fun i hi => ?_⟩
  have ⟨d, hd, hp⟩ := h.pages i (hnew i hi)
  exact ⟨d, hd, hp.imp_right fun ⟨u, hu, huv, hud⟩ => ⟨u, hu, huv.trans hv, hud⟩⟩

theorem push (hn : v.numPages ≠ invalidId) (hnum : x.numPages = v.numPages) : Moment K s₀ st₀ (v.push d) (x.push d) := by
  have hv : K.Evolves v (v.push d) := .push hn
  refine ⟨h.view.trans hv, fun i hi => ?_⟩
  have hpush : ∀ {s : PageStorage}, s.numPages ≠ invalidId →
      (s.push d).page? i = if i = s.numPages then some d else s.page? i :=
    fun hn => PageStorage.page?_push (PageStorage.pages_push hn)
  rw [hpush (hnum ▸ hn), hnum]
  rw [hpush hn] at hi
  by_cases hin : i = v.numPages
  case pos =>
    rw [if_pos hin]
    exact ⟨d, rfl, .inr ⟨v.push d, h.view.trans hv, .refl, (hpush hn).trans (if_pos hin)⟩⟩
  case neg =>
    rw [if_neg hin] at hi ⊢
    have ⟨e, he, hp⟩ := h.pages i hi
    exact ⟨e, he, hp.imp_right fun ⟨u, hu, huv, hud⟩ => ⟨u, hu, huv.trans hv, hud⟩⟩

end Moment

namespace Passes

theorem refl (hG : G v) : Passes K s₀ st₀ G p v p v := by
  refine ⟨[], (List.append_nil _).symm, fun h => ⟨.nil ⟨_, h.settled.recovers, v, hG, h.moment⟩, fun _ => ⟨h, rfl⟩⟩⟩

theorem trans (h : Passes K s₀ st₀ G p v q w) (h' : Passes K s₀ st₀ G q w r u) : Passes K s₀ st₀ G p v r u := by
  have ⟨es, hes, h⟩ := h
  have ⟨es', hes', h'⟩ := h'
  refine ⟨es ++ es', by rw [hes', hes, List.append_assoc], fun hp => ?_⟩
  have ⟨hsafe, hok⟩ := h hp
  constructor
  case left =>
    refine hsafe.append fun hf => ?_
    have ⟨hq, hfiles⟩ := hok hf
    exact hfiles ▸ (h' hq).left
  case right =>
    intro hf
    have ⟨hq, hfiles⟩ := hok fun e he => hf e (List.mem_append_left _ he)
    have ⟨hr, hfiles'⟩ := (h' hq).right fun e he => hf e (List.mem_append_right _ he)
    exact ⟨hr, by rw [hfiles', hfiles, Files.after_append]⟩

-- One call on the disk.
theorem of_moves (hm : Disk.Moves H R P p.dev q.dev) (hH : Poised K s₀ st₀ p v → H)
    (hR : Poised K s₀ st₀ p v → ∀ x, R x → ∃ u, G u ∧ Moment K s₀ st₀ u x)
    (hP : Poised K s₀ st₀ p v → P → (∀ i f, q.frame? i = some f → f.inUse → f.page.dirty → f.page.id ≠ 0) ∧
      Moment K s₀ st₀ w q.dev.storage) : Passes K s₀ st₀ G p v q w := by
  have ⟨es, hes, h⟩ := hm
  refine ⟨es, hes, fun hp => ?_⟩
  have ⟨hsafe, hok⟩ := h (hH hp)
  constructor
  case left =>
    intro pre f hpre hf hc
    have ⟨x, hx, hRx⟩ := hsafe pre f hpre hf hc
    exact ⟨x, hx, hR hp x hRx⟩
  case right =>
    intro hf
    have ⟨hs, hfiles, hPq⟩ := hok hf
    have ⟨hd, hmoment⟩ := hP hp hPq
    exact ⟨⟨hs, hd, hmoment⟩, hfiles⟩

-- A call that leaves the storage as it is.
theorem of_same (hm : Disk.Moves p.dev.Settled (· = p.dev.storage) (d.storage = p.dev.storage) p.dev d) (hG : G v) :
    Passes K s₀ st₀ G p v { p with dev := d } v := by
  refine of_moves hm (·.settled) (fun hp x hx => ⟨v, hG, hx ▸ hp.moment⟩) fun hp hs => ⟨hp.dirty, ?_⟩
  change Moment K s₀ st₀ v d.storage
  exact hs ▸ hp.moment

-- Other frames, and nothing happens to the files.
theorem frames (hdev : q.dev = p.dev) (hG : G v)
    (h : ∀ i f, q.frame? i = some f → f.inUse → f.page.dirty →
      ∃ j g, p.frame? j = some g ∧ g.inUse ∧ g.page.dirty ∧ g.page.id = f.page.id) : Passes K s₀ st₀ G p v q v := by
  have ⟨es, hes, hrefl⟩ : Passes K s₀ st₀ G p v p v := refl hG
  refine ⟨es, hdev ▸ hes, fun hp => ?_⟩
  have ⟨hsafe, hok⟩ := hrefl hp
  refine ⟨hsafe, fun hf => ⟨⟨hdev ▸ hp.settled, fun i f hif hu hd => ?_, hdev ▸ hp.moment⟩, hdev ▸ (hok hf).right⟩⟩
  have ⟨j, g, hg, hgu, hgd, hid⟩ := h i f hif hu hd
  exact hid ▸ hp.dirty j g hg hgu hgd

theorem reframe (hr : Reframes p q) (hG : G v) : Passes K s₀ st₀ G p v q v := by
  refine frames hr.dev hG fun i f hf hu hd => ?_
  have ⟨g, hg, he⟩ := hr.keep i f hf hu
  have ⟨hp, _, hin⟩ := Frame.eq_of_unstamped he
  exact ⟨i, g, hg, hin ▸ hu, hp ▸ hd, hp ▸ rfl⟩

-- One frame is replaced, and its page is clean or the same as before.
theorem setFrame (hf : p.frame? i = some f) (hg : g.inUse → g.page.dirty → f.inUse ∧ f.page = g.page) (hG : G v) :
    Passes K s₀ st₀ G p v (p.setFrame i g) v := by
  refine frames rfl hG fun j k hk hu hd => ?_
  rw [BufferPool.frame?_setFrame] at hk
  split at hk
  case isTrue hij =>
    have ⟨_, _, he⟩ := Option.map_eq_some_iff.mp hk
    subst he
    have ⟨hfu, hp⟩ := hg hu hd
    exact ⟨i, f, hf, hfu, hp ▸ hd, hp ▸ rfl⟩
  case isFalse => exact ⟨j, k, hk, hu, hd, rfl⟩

theorem unpin (i : Nat) (hG : G v) : Passes K s₀ st₀ G p v (p.unpinFrame i) v := by
  rw [BufferPool.unpinFrame]
  split
  case isTrue => exact refl hG
  case isFalse hl =>
    have hf : p.frame? i = some (p.frameAt i) := by
      have hl : i < p.frames.length := Nat.not_le.mp hl
      simp [BufferPool.frame?, BufferPool.frameAt, hl]
    exact setFrame hf (fun hu _ => ⟨hu, rfl⟩) hG

theorem pinned {id : PageId} (hp : Pinned p id i q) (hG : G v) : Passes K s₀ st₀ G p v q v := by
  cases hp
  case hit f hf hu _ same =>
    refine .trans (setFrame (g := { f with pinCount := f.pinCount + 1 }) hf (fun _ _ => ⟨hu, rfl⟩) hG) ?_
    exact reframe (.of_same same) hG
  case load f d hf _ _ _ same => exact (setFrame hf (fun _ hd => by cases hd) hG).trans (reframe (.of_same same) hG)

theorem step (hc : p.Coherent v.page?) (hG : G v) (st : Step p q) : Passes K s₀ st₀ G p v q v := by
  have hsome : ∀ {i f}, p.frame? i = some f → f.inUse → (p.dev.storage.page? f.page.id).isSome := by
    intro i f hf hu
    have hd := hc.allocated f.page.id
    rw [hc.resident i f hf hu] at hd
    exact hd
  -- A crash while a frame is written back.
  have hmoment : ∀ {i f}, p.frame? i = some f → f.inUse → Poised K s₀ st₀ p v → ∀ x,
      x = p.dev.storage ∨ x = p.dev.storage.setPage f.page.id f.page.data → ∃ u, G u ∧ Moment K s₀ st₀ u x := by
    rintro i f hf hu hp x (rfl | rfl)
    · exact ⟨v, hG, hp.moment⟩
    · exact ⟨v, hG, hp.moment.setPage (hc.resident i f hf hu)⟩
  cases st
  case reframe h => exact reframe h hG
  case read => exact of_same (Disk.read_moves rfl) hG
  case logFailed log =>
    exact of_moves (P := False) (Disk.log_failed_moves log) (·.settled) (fun hp x hx => ⟨v, hG, hx ▸ hp.moment⟩)
      fun _ => False.elim
  case writeFailed i f _ _ _ hf hu hd log write =>
    refine of_moves (Disk.flush_moves (hsome hf hu) log write) (fun hp => ⟨hp.settled, hp.dirty i f hf hu hd⟩)
      (hmoment hf hu) ?_
    exact fun _ hres => by cases hres.left
  case flushed i f _ _ hf hu hd log write =>
    refine of_moves (Disk.flush_moves (hsome hf hu) log write) (fun hp => ⟨hp.settled, hp.dirty i f hf hu hd⟩)
      (hmoment hf hu) ?_
    intro hp ⟨_, hs⟩
    refine ⟨fun j g hg hgu hgd => ?_, ?_⟩
    · change (p.setFrame i f.cleaned).frame? j = some g at hg
      rw [BufferPool.frame?_setFrame] at hg
      split at hg
      case isTrue =>
        have ⟨_, _, he⟩ := Option.map_eq_some_iff.mp hg
        subst he
        cases hgd
      case isFalse => exact hp.dirty j g hg hgu hgd
    · rw [hs]
      exact hp.moment.setPage (hc.resident i f hf hu)

theorem steps (hi : p.Inv) (hc : p.Coherent v.page?) (hG : G v) (st : Steps p q) : Passes K s₀ st₀ G p v q v := by
  induction st
  case refl => exact refl hG
  case tail st' st ih => exact ih.trans (step (hc.steps hi st') hG st)

end Passes

-- The header page is not changed.
def Contract.SparesHeader (K : Contract) (s₀ : PageStorage) : Prop :=
  ∀ u i d d', K.Evolves s₀ u → u.page? i = some d → K.change i d d' → i ≠ 0

-- A page is modified in its frame.
theorem Passes.edit (hz : K.SparesHeader s₀) (hf : p.frame? i = some f) (hd : v.page? f.page.id = some d)
    (hd' : K.change f.page.id d d') (hG : G v) : Passes K s₀ st₀ G p v (p.edit i (some d')) (v.setPage f.page.id d') := by
  rw [BufferPool.edit_eq hf]
  refine of_moves (R := (· = p.dev.storage)) Disk.touch_moves (·.settled) (fun hp x hx => ⟨v, hG, hx ▸ hp.moment⟩)
    fun hp _ => ⟨?_, ?_⟩
  · intro j k hk hu hkd
    change (p.setFrame i _).frame? j = some k at hk
    rw [BufferPool.frame?_setFrame] at hk
    split at hk
    case isTrue =>
      have ⟨_, _, he⟩ := Option.map_eq_some_iff.mp hk
      subst he
      exact hz v _ d d' hp.moment.view hd hd'
    case isFalse => exact hp.dirty j k hk hu hkd
  · refine hp.moment.evolve (.setPage hd hd') fun j hj => ?_
    rwa [PageStorage.isSome_setPage] at hj

theorem Prog.exec_passes {g : Prog α} (ht : K.tolerant) (hz : K.SparesHeader s₀) (hw : g.wp K Q v) (hi : p.Inv)
    (hc : p.Coherent v.page?) (hend : (g.exec p).snd.Coherent t.page?) (hG : ∀ u, (∃ a, Q a u) → K.Evolves u t → G u) :
    Passes K s₀ st₀ G p v (g.exec p).snd t := by
  have hGv := hG v (wp_now ht hw) (exec_evolves ht hw hi hc hend)
  induction g generalizing p v
  case ret =>
    cases PageStorage.page?_ext fun i => congrFun (hend.unique hc) i
    exact .refl hGv
  case numPages k ih =>
    rw [exec] at hend ⊢
    rcases hcount : Device.countPages p.dev with ⟨r, dev⟩
    simp only [hcount] at hend ⊢
    have hi' := (hi.keeps_dev dev).inv
    have hc' : BufferPool.Coherent { p with dev } v.page? := hc.same_pages (BufferPool.count_same hcount)
    have hmoves : Passes K s₀ st₀ G p v { p with dev } v := .of_same (Disk.count_moves hcount) hGv
    have hwk : (k r).wp K Q v := by
      cases r
      case error e => exact hw.left e ht
      case ok n =>
        have hn := Device.count_ok hcount
        rw [hc.numPages] at hn
        exact hn ▸ hw.right
    exact hmoves.trans (ih r hwk hi' hc' hend hGv)
  case newPage d k ih =>
    rw [exec] at hend ⊢
    rcases ha : Device.allocatePage p.dev with ⟨e | page, dev₁⟩
    · simp only [ha] at hend ⊢
      have hc' : BufferPool.Coherent { p with dev := dev₁ } v.page? := hc.same_pages (Device.alloc_error ha)
      have hmoves : Passes K s₀ st₀ G p v { p with dev := dev₁ } v := .of_same (Disk.alloc_error_moves ha) hGv
      exact hmoves.trans (ih _ (hw.left e ht) (hi.keeps_dev dev₁).inv hc' hend hGv)
    · obtain ⟨hn, hpage, _⟩ := Device.alloc_ok ha
      have hnum : p.dev.storage.numPages = v.numPages := hc.numPages
      rw [hc.numPages] at hn hpage
      obtain ⟨hpart, hok⟩ := hw.right hn
      rcases hwrite : Device.writePage dev₁ .direct { page with data := d, dirty := true } with ⟨res, dev₂⟩
      simp only [ha, hwrite] at hend ⊢
      have hi' := (hi.keeps_dev dev₂).inv
      have hmoves := Disk.newPage_moves ha hwrite
      -- A crash before the page is complete.
      have hmoment : Poised K s₀ st₀ p v → ∀ x, (x = p.dev.storage ∨ ∃ g, x = p.dev.storage.push g) →
          ∃ u, G u ∧ Moment K s₀ st₀ u x := by
        rintro hp x (rfl | ⟨g, rfl⟩)
        · exact ⟨v, hGv, hp.moment⟩
        · exact ⟨v, hGv, hp.moment.extend (hnum ▸ hn)⟩
      cases res
      case error e =>
        obtain ⟨d', hc'⟩ := hc.newPage_failed ha hwrite
        have hwk := hpart e d' ht
        have hGk := hG _ (wp_now ht hwk) (exec_evolves ht hwk hi' hc' hend)
        refine .trans (.of_moves hmoves (·.settled) hmoment fun _ hres => ?_) (ih _ hwk hi' hc' hend hGk)
        cases hres.left
      case ok =>
        rw [hpage] at hend ⊢
        have hc' := hc.newPage ha hwrite
        have hwk := hok (.inl ht)
        have hGk := hG _ (wp_now ht hwk) (exec_evolves ht hwk hi' hc' hend)
        have hpass : Passes K s₀ st₀ G p v { p with dev := dev₂ } (v.push d) := by
          refine .of_moves hmoves (·.settled) hmoment fun hp hres => ⟨hp.dirty, ?_⟩
          rw [hres.right]
          exact hp.moment.push hn hnum
        exact hpass.trans (ih _ hwk hi' hc' hend hGk)
  case withPage id f k ih =>
    obtain ⟨hf, d, r, hd, hr, hk⟩ := hw
    rw [exec] at hend ⊢
    rcases hfetch : p.fetch id with ⟨e | i, q⟩
    · simp only [hfetch] at hend ⊢
      rcases BufferPool.fetch_cases hfetch with ⟨_, _, st⟩ | ⟨_, _, hr, _⟩
      · exact (Passes.steps hi hc hGv st).trans (ih _ (hf e ht) (hi.keeps_steps st).inv (hc.steps hi st) hend hGv)
      · cases hr
    · obtain ⟨hd', hnone, hsome⟩ := hc.use hi hfetch
      have hi' := fun d => (hi.keeps_use hfetch d).inv
      cases hd.symm.trans hd'
      have hpin : Passes K s₀ st₀ G p v q v ∧ ∃ f, q.frame? i = some f ∧ f.page.id = id := by
        rcases BufferPool.fetch_cases hfetch with ⟨_, hr, _⟩ | ⟨_, p₁, hr, st, hp⟩ <;> cases hr
        obtain ⟨_, f, hframe, _, hid, _⟩ := (hc.steps hi st).pinned hp
        exact ⟨(Passes.steps hi hc hGv st).trans (.pinned hp hGv), f, hframe, hid⟩
      obtain ⟨hpass, fr, hframe, hid⟩ := hpin
      simp only [hfetch, hr] at hend ⊢
      obtain ⟨r, d'⟩ := r
      cases d'
      case none => exact hpass.trans <| (Passes.unpin i hGv).trans (ih _ hk (hi' none) hnone hend hGv)
      case some d' =>
        have hGk := hG _ (wp_now ht hk.right) (exec_evolves ht hk.right (hi' (some d')) (hsome d') hend)
        subst hid
        have hedit : Passes K s₀ st₀ G q v (q.edit i (some d')) (v.setPage fr.page.id d') := .edit hz hframe hd hk.left hGv
        exact hpass.trans <| hedit.trans <| (Passes.unpin i hGk).trans (ih _ hk.right (hi' (some d')) (hsome d') hend hGk)

end NexusDb
