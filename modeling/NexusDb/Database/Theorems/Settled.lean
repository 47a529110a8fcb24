import NexusDb.Database.Theorems.Versions
import NexusDb.Storage.Theorems.Disk
import NexusDb.Wal.Theorems.Appending
import NexusDb.Wal.Theorems.Restart

namespace NexusDb

namespace PageStorage

-- The storage already has what the log would bring back, and the log leaves the header page alone.
structure Redundant (s : PageStorage) (ps : List (PageId × PageData)) : Prop where
  last   : ∀ i d, lastWrite ps i = some d → s.page? i = some d
  header : ∀ p ∈ ps, p.fst ≠ 0

namespace Redundant

variable {s t : PageStorage} {ps : List (PageId × PageData)} {i : PageId}

theorem nil : s.Redundant [] :=
  ⟨nofun, nofun⟩

theorem isSome (h : s.Redundant ps) (hp : p ∈ ps) : (s.page? p.fst).isSome := by
  match hl : lastWrite ps p.fst with
  | none   => exact absurd hp (lastWrite_eq_none_iff.mp hl p.snd)
  | some d => rw [h.last _ _ hl]; rfl

theorem pageExists (h : s.Redundant ps) (hp : p ∈ ps) : s.pageExists p.fst := by
  simpa [PageStorage.pageExists] using page?_isSome_iff.mp (h.isSome hp)

theorem replay (h : s.Redundant ps) : s.replay ps = s :=
  (replay_eq_self_iff fun _ => h.isSome).mpr h.last

-- One more page is in the log and in the storage.
theorem snoc (h : s.Redundant ps) (hi : (s.page? i).isSome) (h₀ : i ≠ 0) :
    (s.setPage i d).Redundant (ps ++ [(i, d)]) := by
  refine ⟨fun j e he => ?_, fun p hp => ?_⟩
  · rw [page?_setPage hi]
    rw [lastWrite_append, lastWrite_singleton] at he
    split
    case isTrue hj => rwa [if_pos hj, Option.some_or] at he
    case isFalse hj =>
      rw [if_neg hj, Option.none_or] at he
      exact h.last j e he
  · cases List.mem_append.mp hp
    case inl hp => exact h.header p hp
    case inr hp => exact List.mem_singleton.mp hp ▸ h₀

-- Whatever the storage has for the page that is in the log last.
theorem replay_snoc (h : s.Redundant ps) (hi : (s.page? i).isSome) (h₀ : i ≠ 0) (hl : t.pages.length = s.pages.length)
    (ht : ∀ j, j ≠ i → t.page? j = s.page? j) : t.replay (ps ++ [(i, d)]) = s.setPage i d := by
  have hs := h.snoc (d := d) hi h₀
  rw [← hs.replay]
  refine replay_congr (hl.trans length_setPage.symm) (fun _ => hs.pageExists) fun j hj => ?_
  have hne : i ≠ j := fun he => hj d (he ▸ List.mem_append_right _ List.mem_cons_self)
  rw [page?_setPage hi, if_neg hne]
  exact ht j hne.symm

theorem push (h : s.Redundant ps) (ht : ∀ j, (s.page? j).isSome → t.page? j = s.page? j) : t.Redundant ps :=
  ⟨fun j d hl => (ht j (by rw [h.last j d hl]; rfl)).trans (h.last j d hl), h.header⟩

end Redundant
end PageStorage

namespace Files

-- The recovery of these files succeeds and leaves the pages of `x`. The header page is not in the log.
structure Recovers (f : Files) (x : PageStorage) : Prop where
  log : ∃ w, Wal.open (f.wal.getD []) = .ok w
  db  : ∃ s, f.db = some s ∧ (∀ p ∈ f.logImages, s.pageExists p.fst ∧ p.fst ≠ 0) ∧ s.replay f.logImages = x

variable {f f' : Files} {s x : PageStorage} {ps : List (PageId × PageData)}

theorem Recovers.congr (h : f.Recovers x) (hd : f'.db = f.db) (hw : f'.wal.getD [] = f.wal.getD []) : f'.Recovers x := by
  have ⟨hlog, hdb⟩ := h
  constructor
  case log => rwa [hw]
  case db => rwa [hd, logImages, hw]

-- A log that was cut somewhere.
theorem Recovers.of_take (hd : f.db = some s) (hw : f.wal.getD [] = (Wal.encodeLog 1 ps).take n)
    (hn : n ≤ (Wal.encodeLog 1 ps).length) (hf : ps.length ≤ Wal.maxFileSize / Wal.recordSize)
    (he : ∀ p ∈ ps, s.pageExists p.fst ∧ p.fst ≠ 0) : f.Recovers (s.replay (ps.take (n / 4128))) := by
  have hv : ∀ p ∈ ps, p.fst ≠ invalidId := by
    intro p hp hi
    have hx := (he p hp).left
    rw [hi] at hx
    exact PageStorage.not_invalidId_lt (by simpa [PageStorage.pageExists] using hx)
  obtain ⟨w, ho, _⟩ := Wal.open_take hv hf hn
  have himages : f.logImages = ps.take (n / 4128) := by
    rw [Wal.length_encodeLog] at hn
    simp at hf
    obtain ⟨_, ha, _⟩ := Wal.all_take_encodeLog hv (by omega) hn
    rw [logImages, hw, ha, Wal.map_image_numbered]
  refine ⟨⟨w, hw ▸ ho⟩, s, hd, fun p hp => ?_, by rw [himages]⟩
  rw [himages] at hp
  exact he p (List.mem_of_mem_take hp)

theorem Recovers.of_log (hd : f.db = some s) (hw : f.wal.getD [] = Wal.encodeLog 1 ps)
    (hf : ps.length ≤ Wal.maxFileSize / Wal.recordSize) (he : ∀ p ∈ ps, s.pageExists p.fst ∧ p.fst ≠ 0) :
    f.Recovers (s.replay ps) := by
  have h := of_take hd (hw.trans (List.take_length ..).symm) le_rfl hf he
  rwa [Wal.length_encodeLog, Nat.mul_div_cancel_left _ (by decide), List.take_length] at h

theorem Recovers.of_nil (hd : f.db = some s) (hw : f.wal.getD [] = []) : f.Recovers s := by
  have hlog : f.wal.getD [] = Wal.encodeLog 1 [] := hw
  exact of_log hd hlog (Nat.zero_le _) nofun

-- What the recovery does to the header page.
theorem Recovers.page?_zero (h : f.Recovers x) : ∃ s, f.db = some s ∧ s.page? 0 = x.page? 0 := by
  have ⟨s, hd, hp, hx⟩ := h.db
  refine ⟨s, hd, ?_⟩
  have hnone : lastWrite f.logImages 0 = none := lastWrite_eq_none_iff.mpr fun d hm => (hp _ hm).right rfl
  rw [← hx, PageStorage.page?_replay fun p hm => PageStorage.page?_isSome_of_pageExists (hp p hm).left, hnone,
    Option.none_or]

-- Wherever a crash falls in these events, as long as none of them failed, `R` holds of the files that are left.
def Safe (R : Files → Prop) (f : Files) (es : List FileEvent) : Prop :=
  ∀ pre f', pre <+: es → (∀ e ∈ pre, e.failed = false) → f.Crash pre f' → R f'

variable {R : Files → Prop} {es es' : List FileEvent}

theorem Safe.nil (h : R f) : f.Safe R [] := by
  intro pre f' hp _ hc
  rw [List.prefix_nil.mp hp] at hc
  cases hc
  exact h

theorem Safe.cons (h : R f) (htorn : e.failed = false → ∀ f', e.Torn f f' → R f')
    (hrest : e.failed = false → (e.apply f).Safe R es) : f.Safe R (e :: es) := by
  intro pre f' hp hok hc
  cases hp' : pre
  case nil =>
    rw [hp'] at hc
    cases hc
    exact h
  case cons e' pre =>
    rw [hp'] at hp hok hc
    have ⟨he, hpre⟩ := List.cons_prefix_cons.mp hp
    subst he
    have hf := hok e' List.mem_cons_self
    cases hc
    case here => exact h
    case torn ht => exact htorn hf f' ht
    case later hc => exact hrest hf pre f' hpre (fun e he => hok e (List.mem_cons_of_mem _ he)) hc

theorem Safe.append (h : f.Safe R es) (h' : (∀ e ∈ es, e.failed = false) → (f.after es).Safe R es') :
    f.Safe R (es ++ es') := by
  intro pre f' hp hok hc
  rcases List.prefix_or_prefix_of_prefix hp (List.prefix_append es es') with hpre | ⟨pre', hpre⟩
  · exact h pre f' hpre hok hc
  · subst hpre
    have hp := (List.prefix_append_right_inj es).mp hp
    have hok' : ∀ e ∈ es, e.failed = false := fun e he => hok e (List.mem_append_left _ he)
    rcases hc.append with hc | hc
    · exact h es f' List.prefix_rfl hok' hc
    · exact h' hok' pre' f' hp (fun e he => hok e (List.mem_append_right _ he)) hc

end Files

namespace Disk

-- The log only has what the storage has already. It is like this whenever the pool is not writing back a page.
def Settled (d : Disk) : Prop :=
  ∃ w ps, d.wal = some w ∧ w.Appending ps ∧ w.good ∧ d.storage.Redundant ps

-- The page is in the log and goes to the storage next.
def Logged (d : Disk) (page : Page) : Prop :=
  ∃ w ps, d.wal = some w ∧ w.Appending (ps ++ [(page.id, page.data)]) ∧ w.good ∧ d.storage.Redundant ps

-- What a call adds to the trace. Wherever a crash falls in it, the recovery gives pages that satisfy `R`, and `P` holds
-- when nothing failed, provided that `H` holds at first.
def Moves (H : Prop) (R : PageStorage → Prop) (P : Prop) (d d' : Disk) : Prop :=
  ∃ es, d'.trace = d.trace ++ es ∧ (H → d.files.Safe (fun f => ∃ x, f.Recovers x ∧ R x) es ∧
    ((∀ e ∈ es, e.failed = false) → d'.Settled ∧ d'.files = d.files.after es ∧ P))

variable {d d' d₁ : Disk} {page : Page} {R : PageStorage → Prop}

theorem file_eq (ha : Wal.Appending w ps) (hg : w.good) : w.file = Wal.encodeLog 1 ps := by
  have ⟨_, hf, _, ht⟩ := ha.file
  rw [hf, ht hg, List.append_nil]

theorem Settled.recovers (h : d.Settled) : d.files.Recovers d.storage := by
  have ⟨w, ps, hw, ha, hg, hr⟩ := h
  have hlog : d.files.wal.getD [] = Wal.encodeLog 1 ps := by
    rw [files, hw]
    exact file_eq ha hg
  have hrec := Files.Recovers.of_log (f := d.files) rfl hlog ha.fits fun p hp => ⟨hr.pageExists hp, hr.header p hp⟩
  rwa [hr.replay] at hrec

-- Files with the whole log, and with anything on the page that is in it last.
theorem Logged.recovers {f : Files} {t : PageStorage} (h : d.Logged page) (hi : (d.storage.page? page.id).isSome)
    (h₀ : page.id ≠ 0) (hd : f.db = some t) (hl : t.pages.length = d.storage.pages.length)
    (ht : ∀ j, j ≠ page.id → t.page? j = d.storage.page? j)
    (hw : f.wal = d.files.wal) : f.Recovers (d.storage.setPage page.id page.data) := by
  have ⟨w, ps, hwal, ha, hg, hr⟩ := h
  have hlog : f.wal.getD [] = Wal.encodeLog 1 (ps ++ [(page.id, page.data)]) := by
    rw [hw, files, hwal]
    exact file_eq ha hg
  have hs := hr.snoc (d := page.data) hi h₀
  have hrec := Files.Recovers.of_log hd hlog ha.fits fun p hp => ⟨?_, hs.header p hp⟩
  · rwa [hr.replay_snoc hi h₀ hl ht] at hrec
  · have hx := hs.pageExists hp
    rw [PageStorage.pageExists_setPage, PageStorage.pageExists_iff] at hx
    rwa [PageStorage.pageExists_iff, hl]

-- The log step of writing back a page.
theorem Settled.log (h : d.Settled) (hi : (d.storage.page? page.id).isSome) (h₀ : page.id ≠ 0)
    (hb : d.beforePageWrite page = (res, d')) :
    ∃ bytes, d'.trace = d.trace ++ [.log page.id bytes res.isOk] ∧ (res = .ok () → d'.storage = d.storage ∧ d'.Logged page ∧
      d'.files = (FileEvent.log page.id bytes true).apply d.files ∧
      ∀ n, Files.Recovers { d.files with wal := d.files.wal.map (· ++ bytes.take n) } d.storage ∨
        Files.Recovers { d.files with wal := d.files.wal.map (· ++ bytes.take n) }
          (d.storage.setPage page.id page.data)) := by
  obtain ⟨w, ps, hw, ha, hg, hr⟩ := h
  obtain ⟨_, hpage⟩ := Option.isSome_iff_exists.mp hi
  rcases beforePageWrite_cases hb with ⟨_, _, hn⟩ | ⟨w₁, w', io₁, io₂, hw₁, hb, hd⟩
  · cases hw.symm.trans hn
  cases hw.symm.trans hw₁
  obtain ⟨bytes, hfile, hcases⟩ := ha.beforePageWrite (PageStorage.ne_invalidId hpage) hb
  have hbytes : w'.file.drop w.file.length = bytes := by rw [hfile, List.drop_left]
  rw [hbytes] at hd
  refine ⟨bytes, by rw [hd, emit], fun hres => ?_⟩
  subst hres
  rcases hcases with ⟨_, _, hg', hl, ha'⟩ | ⟨⟨_, he⟩, _⟩
  case inr => cases he
  have hstorage : d'.storage = d.storage := by rw [hd, emit]
  have hlogged : d'.Logged page := ⟨w', ps, by rw [hd, emit], ha', hg', hstorage.symm ▸ hr⟩
  refine ⟨hstorage, hlogged, ?_, fun n => ?_⟩
  · rw [hd]
    simp [emit, files, FileEvent.apply, hw, hfile]
  -- The log ends somewhere in the new record, or after it.
  have hlog : Files.wal { d.files with wal := d.files.wal.map (· ++ bytes.take n) } = some (w.file ++ bytes.take n) := by
    simp [files, hw]
  cases Nat.lt_or_ge n 4128
  case inr hn =>
    refine .inr ?_
    rw [← hstorage]
    refine hlogged.recovers (hstorage.symm ▸ hi) h₀ (congrArg some hstorage.symm) rfl (fun _ _ => rfl) ?_
    rw [hlog, List.take_of_length_le (hl.trans_le hn), ← hfile, hd]
    rfl
  case inl hn =>
    have hs := hr.snoc (d := page.data) hi h₀
    have hlen : w.file.length = 4128 * ps.length := ha.length_file hg
    have htake : w.file ++ bytes.take n = (Wal.encodeLog 1 (ps ++ [(page.id, page.data)])).take (w.file.length + n) := by
      rw [← file_eq ha' hg', hfile, List.take_append, List.take_of_length_le (Nat.le_add_right ..), Nat.add_sub_cancel_left]
    have hcut : (ps ++ [(page.id, page.data)]).take ((w.file.length + n) / 4128) = ps := by
      have hdiv : (w.file.length + n) / 4128 = ps.length := by omega
      rw [hdiv, List.take_left]
    have hrec := Files.Recovers.of_take (f := { d.files with wal := d.files.wal.map (· ++ bytes.take n) }) (s := d.storage)
      rfl (by rw [hlog]; exact htake) (by simp; omega) ha'.fits
      fun p hp => ⟨PageStorage.pageExists_setPage.symm.trans (hs.pageExists hp), hs.header p hp⟩
    rw [hcut, hr.replay] at hrec
    exact .inl hrec

namespace Moves

-- Nothing has happened to the files.
theorem none (ht : d'.trace = d.trace) (hs : d'.storage = d.storage) (hw : d'.wal = d.wal) (hR : R d.storage) (hP : P) :
    Moves d.Settled R P d d' := by
  have hfiles : d'.files = d.files := by rw [files, files, hs, hw]
  refine ⟨[], ht.trans (List.append_nil _).symm, fun h => ⟨.nil ⟨_, h.recovers, hR⟩, fun _ => ⟨?_, hfiles, hP⟩⟩⟩
  rw [Settled, hs, hw]
  exact h

theorem failed (ht : d'.trace = d.trace ++ [e]) (he : e.failed) (hR : R d.storage) : Moves d.Settled R P d d' := by
  refine ⟨[e], ht, fun h => ⟨?_, fun hok => ?_⟩⟩
  · refine .cons ⟨_, h.recovers, hR⟩ (fun hf => ?_) fun hf => ?_ <;> rw [he] at hf <;> cases hf
  · rw [hok e List.mem_cons_self] at he
    cases he

end Moves

theorem count_moves (h : d.countPages = (res, d')) : Moves d.Settled (· = d.storage) (d'.storage = d.storage) d d' := by
  rcases countPages_cases h with ⟨_, _, _, _, rfl⟩ | ⟨_, rfl⟩
  · exact .failed rfl rfl rfl
  · exact .none rfl rfl rfl rfl rfl

theorem read_moves (h : d.readPage i = (res, d')) : Moves d.Settled (· = d.storage) (d'.storage = d.storage) d d' := by
  rcases readPage_cases h with ⟨_, _, _, rfl⟩ | ⟨_, _, _, _, rfl⟩ | ⟨_, _, _, rfl⟩
  · exact .none rfl rfl rfl rfl rfl
  · exact .failed rfl rfl rfl
  · exact .none rfl rfl rfl rfl rfl

theorem touch_moves : Moves d.Settled (· = d.storage) ((d.touch i data).storage = d.storage) d (d.touch i data) := by
  refine ⟨[.modify i data], rfl, fun h => ⟨?_, fun _ => ⟨h, rfl, rfl⟩⟩⟩
  exact .cons ⟨_, h.recovers, rfl⟩ (fun _ _ ht => by cases ht) fun _ => .nil ⟨_, h.recovers, rfl⟩

theorem log_failed_moves (h : d.beforePageWrite page = (.error e, d')) : Moves d.Settled (· = d.storage) P d d' := by
  rcases beforePageWrite_cases h with ⟨hr, _⟩ | ⟨_, _, _, _, _, _, rfl⟩
  · cases hr
  · exact .failed rfl rfl rfl

-- Writing back a page.
theorem flush_moves (hi : (d.storage.page? page.id).isSome) (hb : d.beforePageWrite page = (.ok (), d₁))
    (hw : d₁.writePage .pool page = (res, d')) :
    Moves (d.Settled ∧ page.id ≠ 0) (fun x => x = d.storage ∨ x = d.storage.setPage page.id page.data)
      (res = .ok () ∧ d'.storage = d.storage.setPage page.id page.data) d d' := by
  have hstorage : d₁.storage = d.storage := by
    rcases beforePageWrite_cases hb with ⟨_, rfl, _⟩ | ⟨_, _, _, _, _, _, rfl⟩ <;> rfl
  have hlt : page.id < d₁.storage.numPages := by
    rw [hstorage]
    exact PageStorage.page?_isSome_iff.mp hi
  rcases writePage_cases hw with ⟨_, _, _, _, hn⟩ | ⟨_, _, _, _, hn⟩ | ⟨io, rest, _, _, hio, hd⟩
  · exact absurd hlt hn
  · exact absurd hlt hn
  have ⟨es, hes⟩ : ∃ es, d₁.trace = d.trace ++ es := by
    rcases beforePageWrite_cases hb with ⟨_, rfl, _⟩ | ⟨_, _, _, _, _, _, rfl⟩
    · exact ⟨[], (List.append_nil _).symm⟩
    · exact ⟨_, rfl⟩
  refine ⟨es ++ [.overwrite .pool page.id page.data io], by rw [hd, emit, hes, List.append_assoc], fun ⟨h, h₀⟩ => ?_⟩
  have ⟨bytes, hlog, hok⟩ := h.log hi h₀ hb
  have ⟨_, hlogged, hfiles, htorn⟩ := hok rfl
  cases List.append_cancel_left (hes.symm.trans hlog)
  have hafter : d.files.after [.log page.id bytes true] = d₁.files := hfiles.symm
  -- From here on the page is in the log, and it does not matter what the storage has for it.
  have hrec : ∀ {t : PageStorage}, t.pages.length = d.storage.pages.length →
      (∀ j, j ≠ page.id → t.page? j = d.storage.page? j) →
      Files.Recovers { d₁.files with db := some t } (d.storage.setPage page.id page.data) := by
    intro t hl ht
    rw [← hstorage] at hl ht hi ⊢
    exact hlogged.recovers hi h₀ rfl hl ht rfl
  have hset : ∀ data, Files.Recovers { d₁.files with db := d₁.files.db.map (·.overwrite page.id data .success) }
      (d.storage.setPage page.id page.data) := by
    intro data
    refine (hrec (t := d.storage.setPage page.id data) PageStorage.length_setPage fun j hj => ?_).congr ?_ rfl
    · exact (PageStorage.page?_setPage hi).trans (if_neg hj.symm)
    · rw [files, Option.map_some, PageStorage.overwrite_success, hstorage]
  have hmid : d₁.files.Recovers (d.storage.setPage page.id page.data) :=
    (hrec rfl fun _ _ => rfl).congr (congrArg some hstorage) rfl
  constructor
  case left =>
    refine .append (.cons ⟨_, h.recovers, .inl rfl⟩ (fun _ f ht => ?_) fun _ => .nil ?_) fun _ => ?_
    · cases ht
      rcases htorn _ with hr | hr
      · exact ⟨_, hr, .inl rfl⟩
      · exact ⟨_, hr, .inr rfl⟩
    · exact ⟨_, hfiles ▸ hmid, .inr rfl⟩
    · change (d.files.after [.log page.id bytes true]).Safe _ _
      rw [hafter]
      refine .cons ⟨_, hmid, .inr rfl⟩ (fun _ f ht => ?_) fun hf => .nil ⟨_, ?_, .inr rfl⟩
      · cases ht
        exact ⟨_, hset _, .inr rfl⟩
      · cases io
        case failure => cases hf
        case success => exact hset page.data
  case right =>
    intro hok
    cases io
    case failure => cases hok _ (List.mem_append_right _ List.mem_cons_self)
    case success =>
      have hstorage' : d'.storage = d.storage.setPage page.id page.data := by
        rw [hd, emit, PageStorage.overwrite_success, hstorage]
      refine ⟨?_, ?_, hio.mpr rfl, hstorage'⟩
      · have ⟨w, ps, hwal, ha, hg, hr⟩ := hlogged
        rw [hstorage] at hr
        exact ⟨w, _, by rw [hd, emit, hwal], ha, hg, hstorage' ▸ hr.snoc hi h₀⟩
      · change d'.files = (d.files.after ([.log page.id bytes true] ++ _))
        rw [Files.after_append, hafter, hd]
        rfl

-- Adding a page, whose first bytes do not go through the log.
theorem newPage_moves {page : Page} (ha : d.allocatePage = (.ok page, d₁))
    (hw : d₁.writePage .direct { page with data := data, dirty := true } = (res, d')) :
    Moves d.Settled (fun x => x = d.storage ∨ ∃ g, x = d.storage.push g) (res = .ok () ∧ d'.storage = d.storage.push data)
      d d' := by
  rcases allocatePage_cases ha with ⟨hr, _⟩ | ⟨_, _, _, _, hr, _⟩ | ⟨s, hr, hn, hs, hpages, hd₁⟩
  · cases hr
  · cases hr
  cases hr
  have hpush : s = d.storage.push zeroPage := PageStorage.ext (hpages.trans (PageStorage.pages_push hn).symm)
  have hset : ∀ g, s.setPage d.storage.numPages g = d.storage.push g := fun g => by rw [← hs]; rfl
  have hlt : d.storage.numPages < d₁.storage.numPages := by
    rw [hd₁, ← PageStorage.page?_isSome_iff]
    change (s.page? _).isSome
    rw [PageStorage.page?_push hpages, if_pos rfl]
    rfl
  rcases writePage_cases hw with ⟨_, _, _, _, hn⟩ | ⟨_, _, _, _, hn⟩ | ⟨io, rest, _, _, hio, hd⟩
  · exact absurd hlt hn
  · exact absurd hlt hn
  refine ⟨[.extend, .overwrite .direct d.storage.numPages data io], by rw [hd, hd₁]; simp [emit], fun h => ?_⟩
  have ⟨w, ps, hwal, happ, hg, hr⟩ := h
  have hsettled : ∀ g, Settled { d with storage := d.storage.push g } := fun g =>
    ⟨w, ps, hwal, happ, hg, hr.push fun j hj => (PageStorage.Extends.push (S := fun _ => False) hn).same j hj id⟩
  have hrec : ∀ g, Files.Recovers { d.files with db := some (d.storage.push g) } (d.storage.push g) := fun g =>
    (hsettled g).recovers
  have hext : FileEvent.extend.apply d.files = { d.files with db := some (d.storage.push zeroPage) } := by
    rw [FileEvent.apply, files, Option.map_some, hs, hpush]
  have hover : ∀ g, (some (d.storage.push zeroPage)).map (·.overwrite d.storage.numPages g .success) =
      some (d.storage.push g) := by
    intro g
    rw [Option.map_some, PageStorage.overwrite_success, ← hpush, hset]
  constructor
  case left =>
    refine .cons ⟨_, h.recovers, .inl rfl⟩ (fun _ f ht => by cases ht) fun _ => ?_
    rw [hext]
    refine .cons ⟨_, hrec _, .inr ⟨_, rfl⟩⟩ (fun _ f ht => ?_) fun hf => .nil ?_
    · cases ht
      exact ⟨_, (hrec _).congr (hover _) rfl, .inr ⟨_, rfl⟩⟩
    · cases io
      case failure => cases hf
      case success => exact ⟨_, (hrec data).congr (hover data) rfl, .inr ⟨_, rfl⟩⟩
  case right =>
    intro hok
    cases io
    case failure => cases hok _ (List.mem_cons_of_mem _ List.mem_cons_self)
    case success =>
      have hstorage : d'.storage = d.storage.push data := by
        rw [hd, emit, PageStorage.overwrite_success, hd₁]
        exact hset data
      have hwal' : d'.wal = d.wal := by rw [hd, hd₁]; rfl
      refine ⟨?_, ?_, hio.mpr rfl, hstorage⟩
      · have ⟨w, ps, hwal, hsettled⟩ := hsettled data
        exact ⟨w, ps, hwal'.trans hwal, hstorage.symm ▸ hsettled⟩
      · rw [Files.after_cons, hext, Files.after_cons, Files.after_nil, FileEvent.apply, hover, files, hstorage, hwal']
        rfl

theorem alloc_error_moves (h : d.allocatePage = (.error e, d')) :
    Moves d.Settled (· = d.storage) (d'.storage = d.storage) d d' := by
  rcases allocatePage_cases h with ⟨_, rfl, _⟩ | ⟨_, _, _, _, _, rfl⟩ | ⟨_, hr, _⟩
  · exact .none rfl rfl rfl rfl rfl
  · exact .failed rfl rfl rfl
  · cases hr

end Disk
end NexusDb
