import NexusDb.Buffer.Theorems.Contract

namespace NexusDb.Prog

-- The code changes at most `m` pages through the pool and adds at most `n`, whatever it finds.
def Bounded : Nat → Nat → Prog α → Prop
  | _, _, ret _          => True
  | m, n, numPages k     => ∀ r, (k r).Bounded m n
  | m, n, newPage _ k    => 0 < n ∧ ∀ r, (k r).Bounded m (n - 1)
  | m, n, withPage _ f k => (∀ e, (k (.error e)).Bounded m n) ∧ ∀ d r, f d = some r →
    match r.snd with
    | none   => (k r.fst).Bounded m n
    | some _ => 0 < m ∧ (k r.fst).Bounded (m - 1) n

namespace Bounded

variable {g : Prog α} {k : α → Prog β}

theorem mono (h : g.Bounded a b) (hm : a ≤ m) (hn : b ≤ n) : g.Bounded m n := by
  induction g generalizing a b m n
  case ret => trivial
  case numPages ih => exact fun r => ih r (h r) hm hn
  case newPage ih => exact ⟨h.left.trans_le hn, fun r => ih r (h.right r) hm (Nat.sub_le_sub_right hn 1)⟩
  case withPage ih =>
    refine ⟨fun e => ih _ (h.left e) hm hn, fun d r hr => ?_⟩
    have hd := h.right d r hr
    split at hd
    case h_1 => exact ih _ hd hm hn
    case h_2 => exact ⟨hd.left.trans_le hm, ih _ hd.right (Nat.sub_le_sub_right hm 1) hn⟩

theorem bind (h : g.Bounded a b) (hk : ∀ x, (k x).Bounded c d) (hm : a + c ≤ m) (hn : b + d ≤ n) :
    (g.bind k).Bounded m n := by
  induction g generalizing a b m n
  case ret x => exact (hk x).mono (Nat.le_of_add_left_le hm) (Nat.le_of_add_left_le hn)
  case numPages ih => exact fun r => ih r (h r) hm hn
  case newPage ih =>
    have ⟨hpos, hrest⟩ := h
    exact ⟨by omega, fun r => ih r (hrest r) hm (by omega)⟩
  case withPage ih =>
    refine ⟨fun e => ih _ (h.left e) hm hn, fun d r hr => ?_⟩
    have hd := h.right d r hr
    split at hd
    case h_1 => exact ih _ hd hm hn
    case h_2 =>
      have ⟨hpos, hrest⟩ := hd
      exact ⟨by omega, ih _ hrest (by omega) hn⟩

theorem addPage : (Prog.addPage d).Bounded 0 1 :=
  ⟨Nat.one_pos, fun _ => trivial⟩

theorem onPage {f : PageData → Mem (PageCall γ)} : (Prog.onPage i f).Bounded 1 0 := by
  refine ⟨fun _ => trivial, fun d r _ => ?_⟩
  split
  case h_1 => trivial
  case h_2 => exact ⟨Nat.one_pos, trivial⟩

theorem of_noEdit (hg : g.NoEdit) (hi : g.InPlace) : g.Bounded 0 0 := by
  induction g
  case ret => trivial
  case numPages ih => exact fun r => ih r (hg r) (hi r)
  case newPage => cases hi
  case withPage ih =>
    refine ⟨fun e => ih _ (hg.right _) (hi _), fun d r hr => ?_⟩
    rw [hg.left d r hr]
    exact ih _ (hg.right _) (hi _)

theorem of_readOnly (hg : g.ReadOnly) : g.Bounded 0 0 :=
  of_noEdit hg.noEdit hg.inPlace

-- The file does not grow by more.
theorem length_direct_le (h : g.Bounded m n) (s : PageStorage) :
    (g.direct s).snd.pages.length ≤ s.pages.length + n := by
  induction g generalizing m n s
  case ret => exact Nat.le_add_right ..
  case numPages ih => exact ih _ (h _) s
  case newPage d k ih =>
    have ⟨hpos, hrest⟩ := h
    rw [direct, PageStorage.allocatePage]
    split
    case h_1 ha =>
      split at ha <;> cases ha
      exact (ih _ (hrest _) s).trans (by omega)
    case h_2 ha =>
      split at ha <;> cases ha
      refine (ih _ (hrest _) _).trans ?_
      simp only [PageStorage.length_setPage, List.length_append, List.length_singleton]
      omega
  case withPage id f k ih =>
    rw [direct]
    split
    case isTrue => exact ih _ (h.left _) s
    case isFalse =>
      split
      case h_1 => exact ih _ (h.left _) s
      case h_2 d _ =>
        split
        case h_1 => exact Nat.le_add_right ..
        case h_2 hr => exact ih _ (h.right d _ hr) s
        case h_3 r data hr =>
          refine (ih _ (h.right d _ hr).right _).trans ?_
          rw [PageStorage.length_setPage]

end Bounded
end NexusDb.Prog
