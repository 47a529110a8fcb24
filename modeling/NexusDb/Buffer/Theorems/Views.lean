import NexusDb.Buffer.Theorems.Contract

open Relation (ReflTransGen)

namespace NexusDb

namespace Contract

-- The pages of `s` have become the ones of `t`, each by changes that the contract allows.
def Evolves (K : Contract) (s t : PageStorage) : Prop :=
  ∀ i d, s.page? i = some d → ∃ d', t.page? i = some d' ∧ ReflTransGen (K.change i) d d'

namespace Evolves

variable {K : Contract} {s t u : PageStorage}

theorem refl : K.Evolves s s :=
  fun _ d hd => ⟨d, hd, .refl⟩

theorem trans (h : K.Evolves s t) (h' : K.Evolves t u) : K.Evolves s u := by
  intro i d hd
  have ⟨d₁, hd₁, hc⟩ := h i d hd
  have ⟨d₂, hd₂, hc'⟩ := h' i d₁ hd₁
  exact ⟨d₂, hd₂, hc.trans hc'⟩

theorem isSome (h : K.Evolves s t) (hi : (s.page? i).isSome) : (t.page? i).isSome := by
  have ⟨d, hd⟩ := Option.isSome_iff_exists.mp hi
  have ⟨d', hd', _⟩ := h i d hd
  rw [hd']
  rfl

theorem push (hn : s.numPages ≠ invalidId) : K.Evolves s (s.push d) := by
  intro i e he
  have hx : PageStorage.Extends (fun _ => False) s (s.push d) := .push hn
  have hsome : (s.page? i).isSome := by rw [he]; rfl
  exact ⟨e, (hx.same i hsome id).trans he, .refl⟩

theorem setPage (hd : s.page? i = some d) (hc : K.change i d d') : K.Evolves s (s.setPage i d') := by
  intro j e he
  rw [PageStorage.page?_setPage (by rw [hd]; rfl)]
  split
  case isTrue hj =>
    subst hj
    cases hd.symm.trans he
    exact ⟨d', rfl, .single hc⟩
  case isFalse => exact ⟨e, he, .refl⟩

end Evolves
end Contract

namespace Prog

variable {K : Contract} {s s₀ : PageStorage}

-- What code may leave that has failed page calls, it may leave at every moment: all calls may fail from then on.
theorem wp_now {g : Prog α} (ht : K.tolerant) (h : g.wp K Q s) : ∃ a, Q a s := by
  induction g
  case ret a => exact ⟨a, h⟩
  case numPages ih => exact ih _ (h.left (bad "") ht)
  case newPage ih => exact ih _ (h.left (bad "") ht)
  case withPage ih => exact ih _ (h.left (bad "") ht)

-- The pages that there were have only changed as the contract says.
theorem wp_evolves {g : Prog α} (h : g.wp K Q s) (hs : K.Evolves s₀ s) :
    g.wp K (fun a t => Q a t ∧ K.Evolves s₀ t) s := by
  induction g generalizing s
  case ret => exact ⟨h, hs⟩
  case numPages ih => exact ⟨fun e ht => ih _ (h.left e ht) hs, ih _ h.right hs⟩
  case newPage ih =>
    refine ⟨fun e ht => ih _ (h.left e ht) hs, fun hn => ?_⟩
    have ⟨hpart, hok⟩ := h.right hn
    exact ⟨fun e d ht => ih _ (hpart e d ht) (hs.trans (.push hn)), fun hf => ih _ (hok hf) (hs.trans (.push hn))⟩
  case withPage ih =>
    have ⟨hf, d, r, hd, hr, hk⟩ := h
    refine ⟨fun e ht => ih _ (hf e ht) hs, d, r, hd, hr, ?_⟩
    split at hk
    case h_1 => exact ih _ hk hs
    case h_2 => exact ⟨hk.left, ih _ hk.right (hs.trans (.setPage hd hk.left))⟩

theorem exec_evolves [Device σ] {g : Prog α} {p : BufferPool σ} (ht : K.tolerant) (hw : g.wp K Q s) (hi : p.Inv)
    (hc : p.Coherent s.page?) (hend : (g.exec p).snd.Coherent t.page?) : K.Evolves s t := by
  have ⟨_, s', _, hc', _, he⟩ := wp_exec ht (wp_evolves hw .refl) hi hc
  have hs : s' = t := PageStorage.page?_ext fun i => congrFun (hend.unique hc') i
  exact hs ▸ he

end Prog
end NexusDb
