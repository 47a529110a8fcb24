import NexusDb.Database.RawFiles
import NexusDb.Database.Theorems.Creation

namespace NexusDb

namespace PageStorage

theorem length_toBytes (s : PageStorage) : s.toBytes.length = s.pages.length * pageSize :=
  ByteBlock.length_join

theorem ofBytes_toBytes (s : PageStorage) : ofBytes s.toBytes = s := by
  have hn : s.toBytes.length / pageSize % 2 ^ 32 = s.pages.length := by
    rw [length_toBytes, Nat.mul_div_cancel _ (by decide), Nat.mod_eq_of_lt s.bound]
  ext1
  change (List.range (s.toBytes.length / pageSize % 2 ^ 32)).map _ = s.pages
  rw [hn]
  refine List.ext_getElem (by simp) fun i _ hi => ?_
  rw [List.getElem_map, List.getElem_range, toBytes, ByteBlock.drop_join_getElem hi]
  exact ByteBlock.ofBytes_toBytes_append

end PageStorage

namespace Database

-- On a file of whole pages, `Open` works on the pages.
theorem openRaw_pages {f : RawFiles} (hdb : f.db = some s.toBytes) (hs : s.pages ≠ []) (hn : n ≠ 0) :
    openRaw path f n io = ((openFiles s f.wal n io).fst, .creating none :: (openFiles s f.wal n io).snd) := by
  have hlen := s.length_toBytes
  have hpos := List.length_pos_of_ne_nil hs
  have hfresh : ¬f.isFresh := by
    rw [RawFiles.isFresh, hdb, Option.all_some, List.isEmpty_iff_length_eq_zero, hlen]
    exact Nat.mul_ne_zero hpos.ne' (by decide)
  have hmod : ¬s.toBytes.length % pageSize ≠ 0 := by
    rw [hlen, Nat.mul_mod_left]
    decide
  rw [openRaw, if_neg hn, if_neg hfresh, hdb]
  simp only [Option.getD_some, if_neg hmod, PageStorage.ofBytes_toBytes]

-- Openings that were interrupted, one after the other.
inductive Attempts (path : String) (f : RawFiles) : RawFiles → Prop
  | none : Attempts path f f
  | more (h : Attempts path f g) (hc : RawFiles.Crash g (openRaw path g n io).snd g') : Attempts path f g'

-- A database without tables.
def Complete (file : Bytes) : Prop :=
  ∃ s L, file = s.toBytes ∧ Laid s L ∧ L.tables = []

-- What `Open` does to the files when it creates a database.
theorem open_fresh_events (hf : isFresh f) (n : Nat) (io : List IoResult) :
    (∀ e ∈ (Database.open f n io).snd, ∃ image, e = .creating image) ∨
    ∃ disk, buildImage n io = some (.ok disk) ∧
      (Database.open f n io).snd = creationEvents disk.storage ++ (openFiles disk.storage none n disk.io).snd := by
  rw [Database.open]
  split
  case isTrue => exact .inl (by rintro _ ⟨⟩)
  case isFalse =>
    rw [createFreshDatabaseAtomically]
    rcases hb : buildImage n io with _ | (e | disk)
    · refine .inl fun e he => ?_
      exact ⟨_, List.mem_singleton.mp he⟩
    · refine .inl fun e he => ?_
      cases List.mem_pair.mp he
      case inl he => exact ⟨_, he⟩
      case inr he => exact ⟨_, he⟩
    · exact .inr ⟨disk, rfl, rfl⟩

-- The events on a database without records in its log.
theorem openFiles_image_events (hlog : log.getD [] = []) (h : e ∈ (openFiles image log n io).snd) :
    e = .createWal ∨ e = .truncate ∨ e = .fail := by
  rcases openFiles_events h with h | h | h | ⟨w, page, hw, hp, _⟩
  · exact .inl h
  · exact .inr <| .inl h
  · exact .inr <| .inr h
  · rw [hlog, Wal.open_nil] at hw
    cases hw
    rw [Wal.recover_nil] at hp
    cases hp

-- What an interrupted creation can leave.
def Begun (f : RawFiles) : Prop :=
  f.isFresh ∨ (f.db = some image.toBytes ∧ f.wal.getD [] = [])

theorem begun_published {f : RawFiles} (hdb : f.db = some image.toBytes) (hwal : f.wal.getD [] = [])
    (hlog : log.getD [] = []) (hc : RawFiles.Crash f (openFiles image log n io).snd g) :
    g.db = some image.toBytes ∧ g.wal.getD [] = [] := by
  refine hc.rule (fun f => f.db = some image.toBytes ∧ f.wal.getD [] = []) ?_ ?_ ⟨hdb, hwal⟩
  · intro f e he ⟨hdb, hwal⟩
    rcases openFiles_image_events hlog he with rfl | rfl | rfl
    · exact ⟨hdb, hwal⟩
    · exact ⟨hdb, rfl⟩
    · exact ⟨hdb, hwal⟩
  · intro f e he g _ ht
    rcases openFiles_image_events hlog he with rfl | rfl | rfl <;> cases ht

-- Up to the publishing of the image there is no database.
theorem fresh_created {f : RawFiles} (hf : f.isFresh) (hc : RawFiles.Crash f (creationEvents image ++ es) g)
    (hes : ∀ f, f.db = some image.toBytes → f.wal = none → RawFiles.Crash f es g → Begun g) : Begun g := by
  have hsplit : creationEvents image ++ es =
      [.creating none, .creating (some image), .removeWal, .removeDb] ++ .publish :: es := rfl
  rw [hsplit] at hc
  cases hc.append
  case inl hc =>
    refine .inl <| hc.rule (·.isFresh) (fun f e he hf => ?_) (fun f e he g hf ht => ?_) hf
    · simp only [List.mem_cons, List.not_mem_nil, or_false] at he
      rcases he with rfl | rfl | rfl | rfl
      · exact hf
      · exact hf
      · exact hf
      · rfl
    · simp only [List.mem_cons, List.not_mem_nil, or_false] at he
      rcases he with rfl | rfl | rfl | rfl <;> cases ht <;> exact hf
  case inr hc =>
    cases hc
    case here => exact .inl rfl
    case torn ht => cases ht
    case later hc => exact hes _ rfl rfl hc

theorem Begun.attempt {f : RawFiles} (h : Begun f) (hc : RawFiles.Crash f (openRaw path f n io).snd g) : Begun g := by
  by_cases hn : n = 0
  case pos =>
    rw [openRaw, if_pos hn] at hc
    cases hc
    exact h
  case neg =>
    cases h
    case inl hf =>
      rw [openRaw, if_neg hn, if_pos hf] at hc
      rcases open_fresh_events (f := { db := none, wal := f.wal }) rfl n io with he | ⟨disk, hb, he⟩
      · refine .inl <| hc.rule (·.isFresh) (fun f e hm hf => ?_) (fun f e hm g hf ht => ?_) hf
        · have ⟨_, he⟩ := he e hm
          rw [he]
          exact hf
        · have ⟨_, he⟩ := he e hm
          rw [he] at ht
          cases ht
          exact hf
      · rw [he, buildImage_ok hb] at hc
        refine fresh_created hf hc fun f hdb hwal hc => .inr ?_
        exact begun_published hdb (by rw [hwal]; rfl) rfl hc
    case inr h =>
      have ⟨hdb, hwal⟩ := h
      rw [openRaw_pages hdb nofun hn] at hc
      cases hc
      case here => exact .inr h
      case torn ht =>
        cases ht
        exact .inr h
      case later hc => exact .inr <| begun_published (f := f.apply (.creating none)) hdb hwal hwal hc

theorem begun_attempts {f : RawFiles} (hf : f.isFresh) (h : Attempts path f g) : Begun g := by
  induction h
  case none => exact .inl hf
  case more hc ih => exact ih.attempt hc

-- The first opening that is not interrupted succeeds.
theorem Begun.open {f : RawFiles} (h : Begun f) (path : String) (n : Nat) :
    ∃ db es, openRaw path f (n + 1) [] = (some (.ok db), es) ∧ db.executor.listTables = [] := by
  have hlist : ∀ {log io db es}, openFiles image log (n + 1) io = (some (.ok db), es) → log.getD [] = [] →
      db.executor.listTables = [] := by
    intro log io db es ho hlog
    obtain ⟨_, _, _, ho, _⟩ := openFiles_ok ho
    have hs := ho.recover_nil hlog
    have hroot := Except.ok.inj <| image_laid.readHeader.symm.trans ho.header
    rw [(ho.laid (hs.symm ▸ image_laid) hroot).left]
    rfl
  cases h
  case inl hf =>
    obtain ⟨disk, hb, hq⟩ := buildImage_quiet n
    have hs := buildImage_ok hb
    obtain ⟨db, es, ho, _⟩ := openFiles_ready (rfl : (none : Option Bytes).getD [] = []) image_laid (by decide) n
    have hopen : Database.open { db := none, wal := f.wal } (n + 1) [] = (some (.ok db), creationEvents image ++ es) := by
      rw [Database.open, if_neg (Nat.succ_ne_zero n), if_pos (by rfl), createFreshDatabaseAtomically, hb]
      simp only [hs, hq.io, ho]
      rfl
    refine ⟨db, creationEvents image ++ es, ?_, hlist ho rfl⟩
    rw [openRaw, if_neg (Nat.succ_ne_zero n), if_pos hf, hopen]
  case inr h =>
    obtain ⟨hdb, hwal⟩ := h
    obtain ⟨db, es, ho, _⟩ := openFiles_ready hwal image_laid (by decide) n
    refine ⟨db, .creating none :: es, ?_, hlist ho hwal⟩
    rw [openRaw_pages hdb (by rintro ⟨⟩) (Nat.succ_ne_zero n), ho]

-- What `Open` does to the files when the database file is not empty.
theorem openRaw_events {f : RawFiles} (hdb : f.db = some file) (hne : file ≠ []) (he : e ∈ (openRaw path f n io).snd) :
    e = .creating none ∨ e = .createWal ∨ e = .truncate ∨ e = .fail ∨
      ∃ id data, e = .overwrite .recovery id data .success ∧ RawFiles.pagePos id + pageSize ≤ file.length := by
  have hfresh : ¬f.isFresh := by
    rw [RawFiles.isFresh, hdb, Option.all_some, List.isEmpty_iff]
    exact hne
  rw [openRaw] at he
  split at he
  case isTrue => cases he
  case isFalse =>
    rw [hdb, Option.getD_some] at he
    simp only at he
    split at he
    case isTrue => exact .inl (List.mem_singleton.mp he)
    case isFalse =>
      cases List.mem_cons.mp he
      case inl he => exact .inl he
      case inr he =>
        rcases openFiles_events he with he | he | he | ⟨w, page, hw, hp, he⟩
        · exact .inr <| .inl he
        · exact .inr <| .inr <| .inl he
        · exact .inr <| .inr <| .inr <| .inl he
        · refine .inr <| .inr <| .inr <| .inr ⟨page.id, page.data, he, ?_⟩
          have hlt := PageStorage.pageExists_iff.mp <| Wal.recover_written (Wal.isOpen_open hw) hp
          have hle : page.id.toNat < file.length / pageSize := by
            refine hlt.trans_le ?_
            change ((List.range _).map _).length ≤ _
            simp only [List.length_map, List.length_range]
            exact Nat.mod_le _ _
          calc
            RawFiles.pagePos page.id + pageSize = (page.id.toNat + 1) * pageSize := (Nat.succ_mul _ _).symm
            _ ≤ file.length / pageSize * pageSize := Nat.mul_le_mul_right _ hle
            _ ≤ file.length := Nat.div_mul_le_self _ _

-- A database is created completely or not at all, whatever happens, and an existing file is never given up.
theorem creation_atomic (path : String) (f : RawFiles) :
    (f.isFresh → ∀ g, Attempts path f g →
      (g.db = none ∨ g.db = some [] ∨
        ∃ file, g.db = some file ∧ Complete file ∧ (g.wal = none ∨ g.wal = some [])) ∧
      ∀ n, ∃ db es, openRaw path g (n + 1) [] = (some (.ok db), es) ∧ db.executor.listTables = []) ∧
    (∀ file, f.db = some file → file ≠ [] → ∀ n io,
      (∀ e ∈ (openRaw path f n io).snd, e = .creating none ∨ e = .createWal ∨ e = .truncate ∨ e = .fail ∨
        ∃ id data, e = .overwrite .recovery id data .success) ∧
      ∀ g, RawFiles.Crash f (openRaw path f n io).snd g → ∃ file', g.db = some file' ∧ file'.length = file.length) := by
  refine ⟨fun hf g hg => ⟨?_, (begun_attempts hf hg).open path⟩, fun file hdb hne n io => ?_⟩
  · cases begun_attempts hf hg
    case inl hf =>
      cases hdb : g.db
      case none => exact .inl rfl
      case some b =>
        rw [RawFiles.isFresh, hdb, Option.all_some, List.isEmpty_iff] at hf
        exact .inr <| .inl <| congrArg some hf
    case inr h =>
      have ⟨hdb, hwal⟩ := h
      refine .inr <| .inr ⟨_, hdb, ⟨image, _, rfl, image_laid, rfl⟩, ?_⟩
      cases hw : g.wal
      case none => exact .inl rfl
      case some b => rw [hw] at hwal; exact .inr <| congrArg some hwal
  · refine ⟨fun e he => ?_, fun g hg => ?_⟩
    · have hweak : ∀ {P : PageId → Prop}, (∃ id data, e = .overwrite .recovery id data .success ∧ P id) →
          ∃ id data, e = .overwrite .recovery id data .success := fun ⟨id, data, he, _⟩ => ⟨id, data, he⟩
      exact (openRaw_events hdb hne he).imp_right <| .imp_right <| .imp_right <| .imp_right hweak
    · refine hg.rule (fun g : RawFiles => ∃ file', g.db = some file' ∧ file'.length = file.length) ?_ ?_ ⟨file, hdb, rfl⟩
      · intro g e he ⟨file', hdb', hlen⟩
        rcases openRaw_events hdb hne he with rfl | rfl | rfl | rfl | ⟨id, data, rfl, hpos⟩
        all_goals try exact ⟨file', hdb', hlen⟩
        refine ⟨_, congrArg (Option.map _) hdb', ?_⟩
        rw [← hlen] at hpos
        exact (Bytes.length_writeAt (by rw [ByteBlock.length_toBytes]; exact hpos)).trans hlen
      · intro g e he g' ⟨file', hdb', hlen⟩ ht
        rcases openRaw_events hdb hne he with rfl | rfl | rfl | rfl | ⟨id, data, rfl, hpos⟩ <;> cases ht
        · exact ⟨file', hdb', hlen⟩
        · refine ⟨_, congrArg (Option.map _) hdb', ?_⟩
          rw [← hlen] at hpos
          exact (Bytes.length_writeAt (by rw [ByteBlock.length_toBytes]; exact hpos)).trans hlen

end Database
end NexusDb
