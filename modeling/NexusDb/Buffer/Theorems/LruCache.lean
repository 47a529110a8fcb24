import NexusDb.General.LruCache
import NexusDb.Buffer.Theorems.Eviction
import NexusDb.Buffer.Theorems.Simulation

namespace NexusDb

namespace BufferPool

-- The pool holds the pages of the cache, and their stamps are in its order.
structure Caches (p : BufferPool σ) (c : LruCache PageId) : Prop where
  capacity : c.capacity = p.capacity
  resident : ∀ id, id ∈ c.keys ↔ p.Resident id
  order    : c.keys.Pairwise fun a b => ∀ m n, p.Stamped a m → p.Stamped b n → n < m

-- The pages that a shrink can evict, in the order in which it does.
def victims (p : BufferPool σ) : List PageId :=
  p.victimOrder.map fun i => (p.frameAt i).page.id

section

variable {p q : BufferPool σ} {c : LruCache PageId} {id : PageId}

theorem mem_victims : id ∈ p.victims ↔ p.Unpinned id := by
  rw [victims, List.mem_map]
  constructor
  case mp =>
    intro ⟨i, hi, hid⟩
    have ⟨f, hf, he⟩ := mem_victimOrder.mp hi
    rw [frameAt_eq hf] at hid
    exact ⟨i, f, hf, he, hid⟩
  case mpr =>
    intro ⟨i, f, hf, he, hid⟩
    exact ⟨i, mem_victimOrder.mpr ⟨f, hf, he⟩, by rw [frameAt_eq hf, hid]⟩

theorem mem_drop_victimOrder : k ∈ p.victimOrder.drop n ↔ k ∈ p.victimOrder ∧ k ∉ p.victimOrder.take n := by
  have hnodup := victimOrder_nodup (p := p)
  have hmem : k ∈ p.victimOrder ↔ k ∈ p.victimOrder.take n ∨ k ∈ p.victimOrder.drop n := by
    rw [← List.mem_append, List.take_append_drop]
  rw [← List.take_append_drop n p.victimOrder, List.nodup_append] at hnodup
  rw [hmem]
  constructor
  case mp => exact fun hk => ⟨.inr hk, fun hk' => hnodup.right.right k hk' k hk rfl⟩
  case mpr => exact fun hk => hk.left.resolve_left hk.right

theorem Inv.victims_nodup (hi : p.Inv) : p.victims.Nodup := by
  refine List.Nodup.map_on (fun i hm j hn he => ?_) victimOrder_nodup
  have ⟨f, hf, hfe⟩ := mem_victimOrder.mp hm
  have ⟨g, hg, hge⟩ := mem_victimOrder.mp hn
  rw [frameAt_eq hf, frameAt_eq hg] at he
  exact hi.unique i j f g hf hg hfe.left hge.left he

theorem Inv.stamped_unique (hi : p.Inv) (hm : p.Stamped id m) (hn : p.Stamped id n) : m = n := by
  have ⟨i, f, hf, hu, hid, hl⟩ := hm
  have ⟨j, g, hg, hu', hid', hl'⟩ := hn
  cases hi.unique i j f g hf hg hu hu' (hid.trans hid'.symm)
  cases hf.symm.trans hg
  exact hl.symm.trans hl'

theorem Inv.victims_sorted (hi : p.Inv) :
    p.victims.Pairwise fun a b => ∀ m n, p.Stamped a m → p.Stamped b n → m ≤ n := by
  refine List.pairwise_map.mpr <| victimOrder_sorted.imp_of_mem fun {i j} hm hn hle a b ha hb => ?_
  have ⟨f, hf, hfe⟩ := mem_victimOrder.mp hm
  have ⟨g, hg, hge⟩ := mem_victimOrder.mp hn
  rw [frameAt_eq hf] at ha hle
  rw [frameAt_eq hg] at hb hle
  cases hi.stamped_unique ha ⟨i, f, hf, hfe.left, rfl, rfl⟩
  cases hi.stamped_unique hb ⟨j, g, hg, hge.left, rfl, rfl⟩
  exact hle

theorem Caches.distinct (h : p.Caches c) (ha : a ∈ c.keys) (hb : b ∈ c.keys) (hne : a ≠ b) (hm : p.Stamped a m)
    (hn : p.Stamped b n) : m < n ∨ n < m := by
  obtain ⟨i, hi, rfl⟩ := List.getElem_of_mem ha
  obtain ⟨j, hj, rfl⟩ := List.getElem_of_mem hb
  rcases Nat.lt_trichotomy i j with hij | hij | hij
  · exact .inr (List.pairwise_iff_getElem.mp h.order i j hi hj hij m n hm hn)
  · subst hij
    exact absurd rfl hne
  · exact .inl (List.pairwise_iff_getElem.mp h.order j i hj hi hij n m hn hm)

-- Nobody holds a page of the pool.
section

variable (hp : ∀ i, p.pins i = 0)

include hp

theorem eligible_of_no_pins (hf : p.frame? i = some f) (hu : f.inUse) : eligible f :=
  ⟨hu, (pins_eq hf).symm.trans (hp i)⟩

theorem unpinned_iff : p.Unpinned id ↔ p.Resident id := by
  refine ⟨Unpinned.resident, fun ⟨i, f, hf, hu, hid⟩ => ?_⟩
  exact ⟨i, f, hf, eligible_of_no_pins hp hf hu, hid⟩

theorem Caches.keys_eq (h : p.Caches c) (hi : p.Inv) : c.keys = p.victims.reverse := by
  have hmem : ∀ id, id ∈ c.keys ↔ id ∈ p.victims.reverse := by
    intro id
    rw [List.mem_reverse, mem_victims, unpinned_iff hp, h.resident]
  have hperm : c.keys.Perm p.victims.reverse :=
    (List.perm_ext_iff_of_nodup c.nodup (List.nodup_reverse.mpr hi.victims_nodup)).mpr hmem
  have hanti : ∀ a b, a ∈ c.keys → b ∈ p.victims.reverse → (∀ m n, p.Stamped a m → p.Stamped b n → n ≤ m) →
      (∀ m n, p.Stamped b m → p.Stamped a n → n ≤ m) → a = b := by
    intro a b ha hb hab hba
    have ⟨m, hm⟩ := Resident.iff_stamped.mp ((h.resident a).mp ha)
    have ⟨n, hn⟩ := Resident.iff_stamped.mp ((h.resident b).mp ((hmem b).mpr hb))
    by_contra hne
    rcases h.distinct ha ((hmem b).mpr hb) hne hm hn with hlt | hlt
    · exact Nat.not_lt.mpr (hab m n hm hn) hlt
    · exact Nat.not_lt.mpr (hba n m hn hm) hlt
  refine hperm.eq_of_pairwise hanti ?_ ?_
  · exact h.order.imp fun hlt m n hm hn => (hlt m n hm hn).le
  · exact List.pairwise_reverse.mpr <| hi.victims_sorted.imp fun hle m n hm hn => hle n m hn hm

theorem Caches.length_keys (h : p.Caches c) (hi : p.Inv) : c.keys.length = p.size := by
  have hpinned : p.pinnedFrames = 0 := by
    refine List.countP_eq_zero.mpr fun f hf => ?_
    have ⟨i, hf⟩ := frame?_of_mem hf
    simp [← pins_eq hf, hp i]
  rw [h.keys_eq hp hi, List.length_reverse, victims, List.length_map, hi.size_eq, hpinned, Nat.zero_add]

end

theorem Caches.retains (h : p.Caches c) (hr : p.Retains q) (hres : ∀ id, q.Resident id ↔ p.Resident id)
    (hcap : q.capacity = p.capacity) : q.Caches c where
  capacity := h.capacity.trans hcap.symm
  resident id := (h.resident id).trans (hres id).symm
  order := h.order.imp fun hlt m n hm hn => hlt m n (hr.pages _ _ hm) (hr.pages _ _ hn)

theorem Caches.cleans (h : p.Caches c) (hc : Cleans p q) : q.Caches c where
  capacity := h.capacity.trans hc.capacity.symm
  resident id := (h.resident id).trans hc.resident.symm
  order := h.order.imp fun hlt m n hm hn => hlt m n (hc.stamped.mp hm) (hc.stamped.mp hn)

theorem Caches.dev (h : p.Caches c) (s : σ) : Caches { p with dev := s } c :=
  h.retains (.dev p s) (fun _ => .rfl) rfl

theorem Caches.unpin (h : p.Caches c) (i : Nat) : (p.unpinFrame i).Caches c :=
  have ⟨hres, _, hcap⟩ := unpin_resident p i
  h.retains (.unpin p i) hres hcap

theorem Caches.setPage (h : p.Caches c) (i : Nat) {page : Page} (hid : page.id = (p.frameAt i).page.id) :
    (p.setFrame i { p.frameAt i with page }).Caches c := by
  have hr : p.Retains (p.setFrame i { p.frameAt i with page }) := .setFrame p rfl hid rfl
  refine h.retains hr (fun id => ⟨fun hid => ?_, fun ⟨k, x, hx, hu, hxid⟩ => ?_⟩) rfl
  · have ⟨n, hn⟩ := Resident.iff_stamped.mp hid
    exact Resident.iff_stamped.mpr ⟨n, hr.pages id n hn⟩
  · by_cases hk : k = i
    case neg => exact ⟨k, x, by rwa [frame?_setFrame, if_neg (Ne.symm hk)], hu, hxid⟩
    case pos =>
      subst hk
      rw [frameAt_eq hx] at hid ⊢
      exact ⟨k, _, frame?_setFrame_self hx, hu, hid.trans hxid⟩

theorem findFrame_isSome : (p.findFrame id).isSome ↔ p.Resident id := by
  cases hf : p.findFrame id
  case none => exact iff_of_false Bool.false_ne_true (findFrame_none hf)
  case some i => exact iff_of_true rfl ⟨i, findFrame_some hf⟩

-- The page that was fetched comes first, before pages that were there.
theorem Fetches.order (h : Fetches p id i q) (hc : p.Caches c) (hi : p.Inv) (hcl : p.Clock) (hl : l.Sublist c.keys)
    (hn : id ∉ l) : (id :: l).Pairwise fun a b => ∀ m n, q.Stamped a m → q.Stamped b n → n < m := by
  have hold : ∀ b ∈ l, ∀ n, q.Stamped b n → p.Stamped b n := by
    intro b hb n hn'
    rcases h.stamped hi hn' with ⟨hid, _⟩ | ⟨_, hn'⟩
    · exact absurd (hid ▸ hb) hn
    · exact hn'
  refine List.pairwise_cons.mpr ⟨fun b hb m n hm hn' => ?_, (hc.order.sublist hl).imp_of_mem ?_⟩
  · rcases h.stamped hi hm with ⟨_, hm⟩ | ⟨hne, _⟩
    · obtain ⟨k, f, hf, _, _, hlu⟩ := hold b hb n hn'
      rw [hm, ← hlu]
      exact Nat.lt_succ_of_le (hcl.stamps f (mem_of_frame? hf))
    · exact absurd rfl hne
  · exact fun ha hb hlt m n hm hn' => hlt m n (hold _ ha m hm) (hold _ hb n hn')

theorem create_caches {s : σ} (h : create s n = .ok p) : p.Caches (.empty PageId n) := by
  have ⟨_, _, _, hempty⟩ := create_inv h
  rw [create] at h
  split at h <;> cases h
  exact ⟨rfl, fun id => iff_of_false List.not_mem_nil (hempty id), .nil⟩

end

section

variable [Device σ] {p q : BufferPool σ} {c : LruCache PageId} {id : PageId}

theorem Caches.edit (h : p.Caches c) (i : Nat) (d : Option PageData) : (p.edit i d).Caches c := by
  cases d
  case none => exact h
  case some d =>
    have hid : ({ (p.frameAt i).page with data := d, dirty := true } : Page).id = (p.frameAt i).page.id := rfl
    exact (h.setPage i hid).dev _

theorem Caches.fetch (h : p.Caches c) (hi : p.Inv) (hp : ∀ i, p.pins i = 0) (hcl : p.Clock) (hn : p.fetches < maxStamp)
    (hf : p.fetch id = (.ok i, q)) : q.Caches (c.access id) := by
  have hfs := fetch_fetches hi hcl hn hf
  have hcap : (c.access id).capacity = q.capacity := h.capacity.trans (fetch_capacity hi hf).symm
  have hlen := h.length_keys hp hi
  rcases hfs.resident hi with ⟨hres, hq⟩ | ⟨habs, hroom, hq⟩ | ⟨habs, hfull, f, hf, he, hle, hq⟩
  · have hm := (h.resident id).mpr hres
    refine ⟨hcap, fun k => ?_, ?_⟩ <;> rw [LruCache.access_hit hm]
    · rw [hq, ← h.resident, List.mem_cons, c.nodup.mem_erase_iff]
      by_cases hk : k = id
      case pos => simp [hk, hm]
      case neg => simp [hk]
    · exact hfs.order h hi hcl List.erase_sublist c.nodup.not_mem_erase
  · have hm := fun hm => habs ((h.resident id).mp hm)
    have hroom : c.keys.length < c.capacity := by rwa [hlen, h.capacity]
    refine ⟨hcap, fun k => ?_, ?_⟩ <;> rw [LruCache.access_room hm hroom]
    · rw [hq, ← h.resident, List.mem_cons]
    · exact hfs.order h hi hcl (.refl _) hm
  · have hm := fun hm => habs ((h.resident id).mp hm)
    have hfull : c.keys.length = c.capacity := by
      have hle := hi.size_le
      rw [hlen, h.capacity]
      omega
    have hpos : 0 < c.capacity := h.capacity ▸ hi.positive
    -- The page that is evicted is the last one.
    have hne : c.keys ≠ [] := List.ne_nil_of_length_pos (hfull ▸ hpos)
    obtain ⟨l, b, hkeys⟩ : ∃ l b, c.keys = l ++ [b] := ⟨_, _, (List.dropLast_append_getLast hne).symm⟩
    have hnodup := c.nodup
    have horder := h.order
    rw [hkeys, List.nodup_append] at hnodup
    rw [hkeys, List.pairwise_append] at horder
    have hv : f.page.id = b := by
      have hmem : f.page.id ∈ c.keys := (h.resident _).mpr ⟨i, f, hf, he.left, rfl⟩
      rw [hkeys, List.mem_append, List.mem_singleton] at hmem
      refine hmem.resolve_left fun hl => ?_
      obtain ⟨k, g, hg, hu, hgb⟩ := (h.resident b).mp (by simp [hkeys])
      have hlt := horder.right.right _ hl b (List.mem_singleton_self b) _ _ ⟨i, f, hf, he.left, rfl, rfl⟩
        ⟨k, g, hg, hu, hgb, rfl⟩
      exact Nat.not_lt.mpr (hle g (mem_of_frame? hg) (eligible_of_no_pins hp hg hu)) hlt
    refine ⟨hcap, fun k => ?_, ?_⟩ <;> rw [LruCache.access_full hm hfull hpos, hkeys, List.dropLast_concat]
    · rw [hq, ← h.resident, List.mem_cons, hkeys, List.mem_append, List.mem_singleton, hv]
      have hb : b ∉ l := fun hb => hnodup.right.right b hb b (List.mem_singleton_self b) rfl
      by_cases hk : k = b
      case pos => simp [hk, hb]
      case neg => simp [hk]
    · have hsub : l.Sublist c.keys := hkeys ▸ List.sublist_append_left _ _
      exact hfs.order h hi hcl hsub fun hid => hm (hsub.subset hid)

theorem Caches.resize (h : p.Caches c) (hi : p.Inv) (hp : ∀ i, p.pins i = 0) (hr : p.resize a n = (.ok (), q)) :
    q.Caches (c.resize n) := by
  have hcap : n = q.capacity := by
    cases resize_cases hr
    case same hn => exact hn
    case grown => rfl
    case shrunk => rfl
  have ⟨_, p₁, hcl, hq⟩ := resize_frames hr hi
  refine ⟨hcap, fun id => ?_, ?_⟩
  · refine Iff.trans ?_ (hq (fun f => f.inUse ∧ f.page.id = id) fun _ h => h.left).symm
    have hlen := h.length_keys hp hi
    have hkeys : (c.resize n).keys = (p.victims.drop (p.size - n)).reverse := by
      rw [h.keys_eq hp hi, List.length_reverse] at hlen
      rw [LruCache.keys_resize, h.keys_eq hp hi, List.take_reverse, hlen]
    rw [hkeys, List.mem_reverse, victims, ← List.map_drop, List.mem_map]
    constructor
    case mp =>
      rintro ⟨k, hk, hid⟩
      obtain ⟨hk, hnot⟩ := mem_drop_victimOrder.mp hk
      obtain ⟨f, hf, he⟩ := mem_victimOrder.mp hk
      obtain ⟨g, hg, hg'⟩ := hcl.frame? hf
      obtain ⟨hpid, _, _, _, hin⟩ := Frame.eq_of_cleaned hg'
      rw [frameAt_eq hf] at hid
      exact ⟨k, g, hg, hnot, hin ▸ he.left, hpid.trans hid⟩
    case mpr =>
      rintro ⟨k, g, hg, hnot, hu, hid⟩
      obtain ⟨f, hf, hf'⟩ := hcl.back hg
      obtain ⟨hpid, _, _, _, hin⟩ := Frame.eq_of_cleaned hf'
      have hk := mem_victimOrder.mpr ⟨f, hf, eligible_of_no_pins hp hf (hin ▸ hu)⟩
      exact ⟨k, mem_drop_victimOrder.mpr ⟨hk, hnot⟩, by rw [frameAt_eq hf, ← hpid, hid]⟩
  · have hret := resize_retains hr hi
    exact (h.order.sublist (List.take_sublist _ _)).imp fun hlt m n hm hn =>
      hlt m n (hret.pages _ _ hm) (hret.pages _ _ hn)

-- A resize that fails leaves all pages in the pool.
theorem Caches.resize_failed (h : p.Caches c) (hr : p.resize a n = (.error e, q)) : q.Caches c := by
  rcases resize_error hr with hq | ⟨is, hf⟩
  · exact hq ▸ h
  · exact h.cleans (flushFrames_cleans hf).left

end

end BufferPool

namespace Prog

open BufferPool (maxStamp)

-- The pages that are fetched when the code runs directly on the pages.
def visits : Prog α → PageStorage → List PageId
  | ret _,           _ => []
  | numPages k,      s => (k (.ok s.numPages)).visits s
  | newPage data k,  s =>
    match s.allocatePage with
    | (.error e, s) => (k (.error e)).visits s
    | (.ok page, s) => (k (.ok page.id)).visits (s.setPage page.id data)
  | withPage id f k, s =>
    if id = invalidId then
      (k (.error <| bad "invalid page id")).visits s
    else
      match s.page? id with
      | none   => (k (.error <| PageStorage.beyondEnd id s.numPages)).visits s
      | some d =>
        match f d with
        | none                => [id]
        | some (r, none)      => id :: (k r).visits s
        | some (r, some data) => id :: (k r).visits (s.setPage id data)

section

variable [Device σ] {p q : BufferPool σ} {s : PageStorage} {c : LruCache PageId}

-- How many pages the pool reads from the storage when the code runs on it.
def loads : Prog α → BufferPool σ → Nat
  | ret _,           _ => 0
  | numPages k,      p =>
    match Device.countPages p.dev with
    | (r, dev) => (k r).loads { p with dev }
  | newPage data k,  p =>
    match Device.allocatePage p.dev with
    | (.error e, dev) => (k (.error e)).loads { p with dev }
    | (.ok page, dev) =>
      match Device.writePage dev .direct { page with data, dirty := true } with
      | (.error e, dev) => (k (.error e)).loads { p with dev }
      | (.ok (), dev)   => (k (.ok page.id)).loads { p with dev }
  | withPage id f k, p =>
    match p.fetch id with
    | (.error e, q) => (k (.error e)).loads q
    | (.ok i, q)    =>
      (if (p.findFrame id).isSome then 0 else 1) +
        match f (q.frameAt i).page.data with
        | none           => 0
        | some (r, data) => (k r).loads ((q.edit i data).unpinFrame i)

-- Without errors of the environment, and as long as the stamps last, the pool is a cache of the pages that the code
-- fetches.
theorem exec_caches (g : Prog α) (h : p.Serves s) (hc : p.Caches c) (ho : Device.ok (g.exec p).snd.dev)
    (hf : (g.exec p).snd.fetches < maxStamp) :
    (g.exec p).snd.Caches (c.accesses (g.visits s)) ∧ g.loads p = c.misses (g.visits s) := by
  induction g generalizing p s c
  case ret => exact ⟨hc, rfl⟩
  case numPages k hi =>
    rw [exec] at ho hf ⊢
    rw [visits, loads]
    rcases hn : Device.countPages p.dev with ⟨e | n, s₁⟩
    · simp only [hn] at ho
      exact absurd (exec_ok_mono _ _ ho) (Device.count_fails hn)
    · simp only [hn] at ho hf ⊢
      have hn' := Device.count_ok hn
      rw [h.coherent.numPages] at hn'
      subst hn'
      exact hi _ (h.dev (BufferPool.count_same hn)) (hc.dev s₁) ho hf
  case newPage d k hi =>
    rw [exec] at ho hf ⊢
    rw [visits, loads]
    rcases ha : Device.allocatePage p.dev with ⟨e | page, s₁⟩
    · simp only [ha] at ho hf ⊢
      obtain ⟨hn, he⟩ := Device.alloc_fails ha (exec_ok_mono _ _ ho)
      rw [h.coherent.numPages] at hn
      have hs : s.allocatePage = (.error e, s) := by rw [PageStorage.allocatePage, dif_pos hn, he]
      simp only [hs]
      exact hi _ (h.dev (Device.alloc_error ha)) (hc.dev s₁) ho hf
    · obtain ⟨hn, hpage, hpages⟩ := Device.alloc_ok ha
      rw [h.coherent.numPages] at hn hpage
      have hs : s.allocatePage.fst = .ok { id := s.numPages } := by rw [PageStorage.allocatePage, dif_neg hn]
      have hs : s.allocatePage = (.ok { id := s.numPages }, s.allocatePage.snd) := by rw [← hs]
      simp only [ha] at ho hf ⊢
      rcases hw : Device.writePage s₁ .direct { page with data := d, dirty := true } with ⟨e | ⟨⟩, s₂⟩
      · simp only [hw] at ho
        refine absurd ?_ (Device.write_fails hw (exec_ok_mono _ _ ho))
        rw [← Device.page?_isSome, hpages, if_pos rfl]
        rfl
      · have hp := h.newPage ha hw
        simp only [hw] at ho hf ⊢
        rw [hs]
        rw [hpage] at ho hf ⊢
        exact hi _ hp (hc.dev s₂) ho hf
  case withPage id f k hi =>
    rw [exec] at ho hf ⊢
    rw [visits, loads]
    rcases hfetch : p.fetch id with ⟨e | i, q⟩
    · simp only [hfetch] at ho hf ⊢
      obtain ⟨hq, hn, hcases⟩ := h.fetch_error hfetch (exec_ok_mono _ _ ho)
      obtain ⟨s₁, hdev⟩ := BufferPool.fetch_error hfetch
      have hcq : q.Caches c := hdev ▸ hc.dev s₁
      rcases hcases with ⟨hid, he⟩ | ⟨hid, hnone, he⟩ | ⟨hmax, hsome, _⟩
      · rw [if_pos hid]
        exact he ▸ hi _ hq hcq (he ▸ ho) (he ▸ hf)
      · simp only [if_neg hid, hnone]
        exact he ▸ hi _ hq hcq (he ▸ ho) (he ▸ hf)
      · have hle := exec_fetches_le (k (.error e)) q
        omega
    · obtain ⟨hd, hn, hnone, hsome⟩ := h.fetch_ok hfetch
      simp only [hfetch] at ho hf ⊢
      simp only [if_neg (PageStorage.ne_invalidId hd), hd]
      have hfetches : ∀ d, ((q.edit i d).unpinFrame i).fetches = p.fetches + 1 := fun d =>
        ((BufferPool.edit_stamps q i d).trans (.unpin _ i)).fetches.trans hn
      have hhit : (p.findFrame id).isSome ↔ id ∈ c.keys := by rw [hc.resident, BufferPool.findFrame_isSome]
      have hcaches : p.fetches + 1 < maxStamp → ∀ d, ((q.edit i d).unpinFrame i).Caches (c.access id) := by
        intro hlt d
        have hlt := Nat.lt_of_succ_lt hlt
        exact ((hc.fetch h.inv h.pins (h.clock hlt) hlt hfetch).edit i d).unpin i
      have hgo : ∀ {r} {d} {s'}, ((q.edit i d).unpinFrame i).Serves s' →
          Device.ok ((k r).exec ((q.edit i d).unpinFrame i)).snd.dev →
          ((k r).exec ((q.edit i d).unpinFrame i)).snd.fetches < maxStamp →
          ((k r).exec ((q.edit i d).unpinFrame i)).snd.Caches (c.accesses (id :: (k r).visits s')) ∧
            (if (p.findFrame id).isSome then 0 else 1) + (k r).loads ((q.edit i d).unpinFrame i) =
              c.misses (id :: (k r).visits s') := by
        intro r d s' hs ho hf
        have hlt := (hfetches d).symm.trans_le (exec_fetches_le (k r) _)
        obtain ⟨hc', hl⟩ := hi r hs (hcaches (hlt.trans_lt hf) d) ho hf
        exact ⟨hc', by rw [LruCache.misses, hl]; simp only [hhit]⟩
      rcases hr : f (q.frameAt i).page.data with _ | ⟨r, _ | d⟩
      · simp only [hr] at hf ⊢
        refine ⟨hcaches ((hfetches none).symm.trans_lt hf) none, ?_⟩
        simp only [LruCache.misses, hhit]
      · simp only [hr] at ho hf ⊢
        exact hgo hnone ho hf
      · simp only [hr] at ho hf ⊢
        exact hgo (hsome d) ho hf

-- More frames never cost anything: on a larger pool the same code has the same result, the pool reads no more pages from
-- the storage, and it ends with all pages that the smaller pool holds.
theorem larger_pool (g : Prog α) {d d' : σ} (hle : m ≤ n) (hm : BufferPool.create d m = .ok p)
    (hn : BufferPool.create d' n = .ok q) (hd : ∀ i, Device.page? d i = s.page? i)
    (hd' : ∀ i, Device.page? d' i = s.page? i) (hp : Device.ok (g.exec p).snd.dev) (hq : Device.ok (g.exec q).snd.dev)
    (hpf : (g.exec p).snd.fetches < maxStamp) (hqf : (g.exec q).snd.fetches < maxStamp) :
    (g.exec q).fst = (g.exec p).fst ∧ g.loads q ≤ g.loads p ∧
      ∀ id, (g.exec p).snd.Resident id → (g.exec q).snd.Resident id := by
  have hsp := BufferPool.Serves.create hm hd
  have hsq := BufferPool.Serves.create hn hd'
  have ⟨hcp, hlp⟩ := exec_caches g hsp (BufferPool.create_caches hm) hp hpf
  have ⟨hcq, hlq⟩ := exec_caches g hsq (BufferPool.create_caches hn) hq hqf
  have hext : (LruCache.empty PageId n).Extends (.empty PageId m) := LruCache.extends_empty hle
  refine ⟨?_, ?_, fun id hid => ?_⟩
  · rw [(exec_direct g hsp hp (.inl hpf)).left, (exec_direct g hsq hq (.inl hqf)).left]
  · rw [hlp, hlq]
    exact hext.misses_le _
  · exact (hcq.resident id).mp <| (hext.accesses _).keys.subset ((hcp.resident id).mpr hid)

end

def readEach : List PageId → Prog Unit
  | []        => ret ()
  | id :: ids => (onPage id fun _ => some (.ok (), none)).bind fun _ => readEach ids

-- With one frame three pages are read, with two frames only two.
theorem larger_pool_two :
    ∃ p q : BufferPool Disk, BufferPool.create twoPages 1 = .ok p ∧ BufferPool.create twoPages 2 = .ok q ∧
      (readEach [0, 1, 0]).loads p = 3 ∧ (readEach [0, 1, 0]).loads q = 2 ∧
      ((readEach [0, 1, 0]).exec q).fst = ((readEach [0, 1, 0]).exec p).fst ∧
      (readEach [0, 1, 0]).loads q ≤ (readEach [0, 1, 0]).loads p ∧
      ∀ id, ((readEach [0, 1, 0]).exec p).snd.Resident id → ((readEach [0, 1, 0]).exec q).snd.Resident id := by
  refine ⟨_, _, rfl, rfl, by decide +kernel, by decide +kernel, ?_⟩
  have hok : ∀ {d : Disk}, d.trace.isEmpty = true → Device.ok d := fun h e he => by
    rw [List.isEmpty_iff.mp h] at he
    cases he
  exact larger_pool (readEach [0, 1, 0]) (s := twoPages.storage) (m := 1) (n := 2) (by decide) rfl rfl (fun _ => rfl)
    (fun _ => rfl) (hok (by decide +kernel)) (hok (by decide +kernel)) (by decide +kernel) (by decide +kernel)

end Prog
end NexusDb
