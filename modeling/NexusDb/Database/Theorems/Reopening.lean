import NexusDb.Database.Theorems.AtomicCreation
import NexusDb.Database.Theorems.Tracked
import NexusDb.Database.Theorems.Visible

namespace NexusDb

open Wal (reader Apart)

namespace Files.Recovers

variable {f f' : Files} {s t x : PageStorage} (h : f.Recovers x)

include h

theorem exists_of_record (hd : f.db = some s) : ∀ r ∈ (reader.all (f.wal.getD [])).fst, s.pageExists r.pageId := by
  intro r hr
  have ⟨t, ht, hp, _⟩ := h.db
  cases hd.symm.trans ht
  exact (hp _ (List.mem_map_of_mem hr)).left

theorem recover (hd : f.db = some s) (ho : Wal.open (f.wal.getD []) = .ok w) :
    (∃ st, (w.recover s).result = .ok st) ∧ (w.recover s).storage = x := by
  have ⟨st, hr⟩ := Wal.recover_of_open (h.exists_of_record hd) ho
  have ⟨t, ht, _, hx⟩ := h.db
  cases hd.symm.trans ht
  rw [hr]
  exact ⟨⟨st, rfl⟩, hx⟩

-- The pages that the log names do not matter.
theorem apart (hd : f.db = some s) (ht : f'.db = some t) (hw : f'.wal.getD [] = f.wal.getD [])
    (ha : Apart (reader.all (f.wal.getD [])).fst s t) : f'.Recovers x := by
  have ⟨s', hs, hp, hx⟩ := h.db
  cases hd.symm.trans hs
  have hlog : f'.logImages = f.logImages := by rw [logImages, logImages, hw]
  refine ⟨hw ▸ h.log, t, ht, fun p hm => ?_, ?_⟩
  · rw [hlog] at hm
    rw [ha.pageExists]
    exact hp p hm
  · rw [hlog, ← hx]
    refine PageStorage.replay_congr ha.length (fun p hm => (hp p hm).left) fun i hi => ha.page? i fun r hr he => ?_
    exact hi r.page.data (List.mem_map.mpr ⟨r, hr, by rw [ParsedRecord.image, he]⟩)

-- A crash while the log is replayed.
theorem replayCrash (hd : f.db = some s) (ho : Wal.open (f.wal.getD []) = .ok w)
    (hc : f.Crash (.createWal :: (w.recover s).written.map fun p => .overwrite .recovery p.id p.data .success) f') :
    f'.Recovers x := by
  have he := h.exists_of_record hd
  have hset : ∀ {t p data}, p ∈ (w.recover s).written → Apart (reader.all (f.wal.getD [])).fst s t →
      Apart (reader.all (f.wal.getD [])).fst s (t.overwrite p.id data .success) := by
    intro t p data hp ha
    have ⟨_, hr⟩ := Wal.recover_of_open he ho
    rw [hr] at hp
    have ⟨r, hr, hrp⟩ := List.mem_map.mp hp
    rw [PageStorage.overwrite_success, ← hrp]
    exact ha.setPage hr (he r hr)
  suffices ht : ∃ t, f'.db = some t ∧ f'.wal.getD [] = f.wal.getD [] ∧ Apart (reader.all (f.wal.getD [])).fst s t by
    have ⟨t, ht, hw, ha⟩ := ht
    exact h.apart hd ht hw ha
  refine hc.rule (fun f' => ∃ t, f'.db = some t ∧ f'.wal.getD [] = f.wal.getD [] ∧
    Apart (reader.all (f.wal.getD [])).fst s t) ?step ?torn ⟨s, hd, rfl, rfl, fun _ _ => rfl⟩
  case step =>
    intro f' e hm ⟨t, ht, hw, ha⟩
    cases List.mem_cons.mp hm
    case inl he => exact he ▸ ⟨t, ht, hw, ha⟩
    case inr hm =>
      have ⟨p, hp, he⟩ := List.mem_map.mp hm
      subst he
      exact ⟨_, congrArg (Option.map _) ht, hw, hset hp ha⟩
  case torn =>
    intro f' e hm f'' ⟨t, ht, hw, ha⟩ htorn
    cases List.mem_cons.mp hm
    case inl he =>
      subst he
      cases htorn
    case inr hm =>
      have ⟨p, hp, he⟩ := List.mem_map.mp hm
      subst he
      cases htorn
      exact ⟨_, congrArg (Option.map _) ht, hw, hset hp ha⟩

-- A crash while the files are opened.
theorem openCrash (hd : f.db = some s) (hc : f.Crash (Database.openFiles s f.wal n io).snd f') : f'.Recovers x := by
  obtain ⟨w, ho⟩ := h.log
  have hopened : ∃ es, f.Crash (Database.recoveryEvents w s ++ es) f' ∧ ∀ e ∈ es, e = .fail := by
    rcases Database.openFiles_trace s f.wal n io with ht | ⟨w', es, ho', ⟨rest, ht⟩, hes⟩
    · rw [ht] at hc
      exact ⟨[], hc.extend, nofun⟩
    · cases ho.symm.trans ho'
      exact ⟨es, ht ▸ hc.extend, hes⟩
  obtain ⟨es, hc, hes⟩ := hopened
  rw [Database.recoveryEvents, List.append_assoc] at hc
  rcases hc.append with hc | hc
  · exact h.replayCrash hd ho hc
  -- From here on the storage has everything.
  have hafter : f.after (.createWal :: (w.recover s).written.map fun p => .overwrite .recovery p.id p.data .success) =
      { f with db := some x, wal := some (f.wal.getD []) } := by
    have hd' : (FileEvent.createWal.apply f).db = some s := hd
    rw [Files.after_cons, Wal.after_recover (Wal.isOpen_open ho) hd', (h.recover hd ho).right]
    rfl
  have hx : Files.Recovers { f with db := some x, wal := some (f.wal.getD []) } x := by
    have ha := Wal.apart_recovered (h.exists_of_record hd) ho
    rw [(h.recover hd ho).right] at ha
    exact h.apart hd rfl rfl ha
  change Files.Crash (f.after _) _ _ at hc
  rw [hafter] at hc
  refine (hc.rule (fun f => f.db = some x ∧ f.Recovers x) ?step ?torn ⟨rfl, hx⟩).right
  case step =>
    rintro f e hm ⟨hd, hr⟩
    cases List.mem_cons.mp hm
    case inl he => exact he ▸ ⟨hd, .of_nil hd rfl⟩
    case inr hm => exact hes e hm ▸ ⟨hd, hr⟩
  case torn =>
    intro f e hm f' _ ht
    cases List.mem_cons.mp hm
    case inl he =>
      subst he
      cases ht
    case inr hm =>
      cases hes e hm
      cases ht

end Files.Recovers

open Database (isFresh openFiles readHeader readHeader_header)

variable {f f' : Files} {l : Ledger} {s x : PageStorage} {L : Layout} {db : Database}

-- A database that was just opened: its storage has all pages, and its pool has none to write.
structure Database.Started (db : Database) (x : PageStorage) (L : Layout) : Prop where
  inv      : db.pool.Inv
  coherent : db.pool.Coherent x.page?
  executor : db.executor = .loaded L
  laid     : Database.Laid x L
  clean    : db.pool.Clean
  settled  : db.pool.dev.Settled
  storage  : db.pool.dev.storage = x

theorem Files.Recovers.readHeader (hr : f.Recovers x) (hl : Database.Laid x L) (hd : f.db = some s) :
    Database.readHeader s = .ok L.catalog.root := by
  have ⟨t, ht, h₀⟩ := hr.page?_zero
  cases hd.symm.trans ht
  exact hl.readHeader_of h₀

-- A database that is opened on files that a crash has left.
theorem Files.Recovers.started (hr : f.Recovers x) (hl : Database.Laid x L) (hd : f.db = some s)
    (ho : openFiles s f.wal n io = (some (.ok db), es)) : db.Started x L := by
  have ⟨w, w', p, ho, _⟩ := Database.openFiles_ok ho
  have hx := (hr.recover hd ho.wal).right
  have hroot := Except.ok.inj ((hr.readHeader hl hd).symm.trans ho.header)
  have ⟨he, hi, _, hc⟩ := ho.laid (hx.symm ▸ hl) hroot
  rw [hx] at hc
  have ⟨hclean, hreads⟩ := (QueryExecutor.open_readOnly (i := db.catalogRoot)).exec (BufferPool.create_clean ho.create)
  rw [ho.load, (BufferPool.create_inv ho.create).right.right.left] at hreads
  rw [ho.load] at hclean
  have ⟨hstorage, hwal, _⟩ := Disk.reads hreads
  refine ⟨hi, hc, he, hl, hclean, ⟨w', [], hwal, .of_reset ho.reset, ?_, .nil⟩, hstorage.trans hx⟩
  rw [Wal.reset_ok ho.reset]

theorem Ledger.Sound.tracked (hs : l.Sound x L) (h : db.Started x L) : Tracked (l.opened db) db x L := by
  constructor
  case inv => exact h.inv
  case coherent => exact h.coherent
  case executor => exact h.executor
  case settled => exact h.settled
  case dirty =>
    intro i g hg hu hdirty
    rw [h.clean i g hg hu] at hdirty
    cases hdirty
  case accounts =>
    rw [h.storage]
    exact .start hs fun t id bs => Database.shows_of_record? h.inv h.coherent h.executor hs.laid.realized

-- There is no database yet, or the recovery gives one.
def Ledger.Openable (l : Ledger) (f : Files) : Prop :=
  (isFresh f ∧ ∀ t id bs, ¬l.saved t id bs) ∨ l.Recoverable f

theorem Ledger.Recoverable.not_isFresh (h : l.Recoverable f) : ¬isFresh f := by
  have ⟨x, L, hr, hs⟩ := h
  have ⟨s, hd, h₀⟩ := hr.page?_zero
  exact Database.not_isFresh hd (h₀ ▸ hs.laid.isSome_header)

-- A new database has no records.
theorem Ledger.sound_image (hn : ∀ t id bs, ¬l.saved t id bs) : l.Sound Database.image (.initial 1) where
  laid             := Database.image_laid
  saved t id bs hs := absurd hs (hn t id bs)
  written _ _ _    := nofun

-- Up to the publishing of its image a new database is not there.
theorem Database.isFresh_or_recovers (hf : isFresh f)
    (hc : f.Crash (Database.creationEvents Database.image ++ (openFiles Database.image none n io).snd) f') :
    isFresh f' ∨ f'.Recovers Database.image := by
  have hsplit : Database.creationEvents Database.image ++ (openFiles Database.image none n io).snd =
      [.creating none, .creating (some Database.image), .removeWal, .removeDb] ++
        .publish :: (openFiles Database.image none n io).snd := rfl
  rw [hsplit] at hc
  cases hc.append
  case inl hc =>
    refine .inl <| hc.rule (isFresh ·) (fun f e he hf => ?_) (fun f e he g hf ht => ?_) hf
    · simp only [List.mem_cons, List.not_mem_nil, or_false] at he
      rcases he with rfl | rfl | rfl | rfl
      · exact hf
      · exact hf
      · exact hf
      · rfl
    · simp only [List.mem_cons, List.not_mem_nil, or_false] at he
      rcases he with rfl | rfl | rfl | rfl <;> cases ht <;> exact hf
  case inr hc =>
    cases hc
    case here => exact .inl rfl
    case torn ht => cases ht
    case later hc =>
      have hr : Files.Recovers { db := some Database.image } Database.image := .of_nil rfl rfl
      exact .inr (hr.openCrash rfl hc)

-- A crash while a database is created.
theorem Database.openCrash_fresh (hf : isFresh f) (hc : f.Crash (Database.open f n io).snd f') :
    isFresh f' ∨ f'.Recovers Database.image := by
  rcases Database.open_fresh_events hf n io with he | ⟨disk, hb, he⟩
  case inl =>
    refine .inl <| hc.rule (isFresh ·) (fun f e hm hf => ?_) (fun f e hm g hf ht => ?_) hf
    · have ⟨_, he⟩ := he e hm
      rw [he]
      exact hf
    · have ⟨_, he⟩ := he e hm
      rw [he] at ht
      cases ht
      exact hf
  case inr =>
    rw [he, Database.buildImage_ok hb] at hc
    exact isFresh_or_recovers hf hc

-- And while one is opened that is there.
theorem Files.Recovers.openCrash_existing (hr : f.Recovers x) (hf : ¬isFresh f)
    (hc : f.Crash (Database.open f n io).snd f') : f'.Recovers x := by
  have ⟨s, hd, _⟩ := hr.page?_zero
  rw [Database.open] at hc
  split at hc
  case isTrue =>
    cases hc
    exact hr
  case isFalse =>
    simp only [hd, Option.getD_some] at hc
    cases hc
    case here => exact hr
    case torn ht =>
      cases ht
      exact hr.congr rfl rfl
    case later hc =>
      have hr : Files.Recovers { f with creating := none } x := hr.congr rfl rfl
      exact hr.openCrash hd hc

-- A recovery adds no page.
theorem Files.Recovers.length (hr : f.Recovers x) (hd : f.db = some s) : x.pages.length = s.pages.length := by
  have ⟨w, hw⟩ := hr.log
  have ⟨_, hx⟩ := hr.recover hd hw
  rw [← hx, (Wal.apart_recovered (hr.exists_of_record hd) hw).length]

-- When nothing fails, it is opened.
theorem Files.Recovers.ready (hr : f.Recovers x) (hf : ¬isFresh f) (hl : Database.Laid x L) (hlen : x.pages.length ≤ pageLimit)
    (n : Nat) : ∃ db es, Database.open f (n + 1) [] = (some (.ok db), es) ∧ Database.Ready db x L := by
  have ⟨s, hd, _⟩ := hr.page?_zero
  have ⟨w, hw⟩ := hr.log
  have ⟨⟨st, hst⟩, hx⟩ := hr.recover hd hw
  have ⟨db, es, ho, hready⟩ := Database.openFiles_laid hw (hr.readHeader hl hd) hst (hx.symm ▸ hl) (hx.symm ▸ hlen) n
  rw [hx] at hready
  exact ⟨db, _, Database.open_of_openFiles hf hd ho, hready⟩

namespace Ledger.Openable

variable (h : l.Openable f)

include h

theorem sound_tracked (ho : Database.open f n io = (some (.ok db), es)) :
    ∃ x L, l.Sound x L ∧ Tracked (l.opened db) db x L := by
  rcases h with ⟨hf, hn⟩ | hr
  case inl =>
    have ⟨disk, es', hb, ho, _⟩ := Database.open_fresh_ok hf ho
    rw [Database.buildImage_ok hb] at ho
    have hr : Files.Recovers { db := some Database.image } Database.image := .of_nil rfl rfl
    exact ⟨_, _, sound_image hn, (sound_image hn).tracked (hr.started Database.image_laid rfl ho)⟩
  case inr =>
    have ⟨s, es', hd, ho, _⟩ := Database.open_existing_ok hr.not_isFresh ho
    have ⟨x, L, hr, hs⟩ := hr
    exact ⟨x, L, hs, hs.tracked (hr.started hs.laid hd ho)⟩

theorem tracked (ho : Database.open f n io = (some (.ok db), es)) : ∃ x L, Tracked (l.opened db) db x L := by
  have ⟨x, L, _, ht⟩ := h.sound_tracked ho
  exact ⟨x, L, ht⟩

-- A crash while it is opened.
theorem openCrash (hc : f.Crash (Database.open f n io).snd f') : l.Openable f' := by
  rcases h with ⟨hf, hn⟩ | hr
  case inl =>
    rcases Database.openCrash_fresh hf hc with hf | hr
    · exact .inl ⟨hf, hn⟩
    · exact .inr ⟨_, _, hr, sound_image hn⟩
  case inr =>
    have hf := hr.not_isFresh
    have ⟨x, L, hr, hs⟩ := hr
    exact .inr ⟨x, L, hr.openCrash_existing hf hc, hs⟩

-- When it is not interrupted, it is opened.
theorem «open» (hl : ∀ s, f.db = some s → s.pages.length ≤ pageLimit) (n : Nat) :
    ∃ db es x L, Database.open f (n + 1) [] = (some (.ok db), es) ∧ Database.Ready db x L ∧ l.Sound x L := by
  rcases h with ⟨hf, hn⟩ | hr
  case inl =>
    have ⟨db, es, ho, hr⟩ := Database.open_fresh_ready hf n
    exact ⟨db, es, _, _, ho, hr, sound_image hn⟩
  case inr =>
    have hf := hr.not_isFresh
    have ⟨x, L, hr, hs⟩ := hr
    have ⟨s, hd, _⟩ := hr.page?_zero
    have ⟨db, es, ho, hready⟩ := hr.ready hf hs.laid ((hr.length hd).trans_le (hl s hd)) n
    exact ⟨db, es, x, L, ho, hready, hs⟩

end Ledger.Openable
end NexusDb
