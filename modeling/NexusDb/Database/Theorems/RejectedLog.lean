import NexusDb.Database.Theorems.Opening
import NexusDb.Wal.Theorems.Log

namespace NexusDb

namespace Wal

-- The records that a recovery applies before it rejects the log leave every page as it is.
def Harmless (log : Bytes) (s : PageStorage) : Prop :=
  ∀ id d, lastWrite ((accepted s 0 (reader.all log).fst).map ParsedRecord.image) id = some d →
    s.page? id = some d

variable {w : Wal} {s : PageStorage}

theorem recover_storage_eq_iff (ho : w.isOpen) : (w.recover s).storage = s ↔ Harmless w.file s := by
  rw [recover_storage ho]
  apply PageStorage.replay_eq_self_iff
  intro p hp
  have ⟨r, hr, he⟩ := List.mem_map.mp hp
  exact he ▸ PageStorage.page?_isSome_of_pageExists (accepted_pageExists hr)

end Wal

namespace Database

-- How opening the files of an existing database can end, with the files it leaves.
theorem openFiles_cases {f : Files} (hf : f.db = some s) (h : openFiles s log n io = (r, es)) :
    ((∀ w, Wal.open (log.getD []) ≠ .ok w) ∧ (f.after es).db = some s) ∨
    (∃ e, readHeader s = .error e ∧ (f.after es).db = some s ∧ r = some (.error e)) ∨
    (∃ w, Wal.open (log.getD []) = .ok w ∧ (f.after es).db = some (w.recover s).storage) := by
  rw [openFiles] at h
  have hc : (FileEvent.createWal.apply f).db = some s := hf
  rcases ho : Wal.open (log.getD []) with e | w
  · rw [ho] at h
    cases h
    exact .inl ⟨by rintro _ ⟨⟩, hf⟩
  · have hw : w.isOpen := by
      obtain ⟨_, _, hw⟩ := Wal.open_eq_ok_iff.mp ho
      rw [hw]
    have hr := congrArg Files.db <| Wal.after_recover hw hc
    rw [ho] at h
    simp only at h
    split at h
    case h_1 hh =>
      cases h
      exact .inr <| .inl ⟨_, hh, hf, rfl⟩
    case h_2 root _ =>
      refine .inr <| .inr ⟨w, rfl, ?_⟩
      split at h
      case h_1 =>
        cases h
        exact hr
      case h_2 =>
        split at h
        case h_1 =>
          cases h
          exact hr
        case h_2 =>
          split at h
          case h_1 =>
            cases h
            simpa [FileEvent.apply] using hr
          case h_2 pool hp =>
            have hreads := (QueryExecutor.open_readOnly (i := root)).exec (BufferPool.create_clean hp) |>.right
            obtain ⟨_, _, ht⟩ := Disk.reads hreads
            rw [(BufferPool.create_inv hp).right.right.left] at ht
            split at h <;> cases h
            all_goals
              rename_i he
              rw [he] at ht
              simpa [FileEvent.apply, ht] using hr

theorem openFiles_readHeader (h : (openFiles s log n io).fst = some (.ok db)) :
    ∃ root, readHeader s = .ok root := by
  rw [openFiles] at h
  split at h
  case h_1 => cases h
  case h_2 =>
    split at h
    case h_1 => cases h
    case h_2 root hr => exact ⟨root, hr⟩

theorem rejected_log_iff (s : PageStorage) :
    (∀ (w : Wal) e, (w.recover s).result = .error e → e.code = .badState →
      ((w.recover s).storage = s ↔ (w.isOpen = false ∨ Wal.Harmless w.file s))) ∧
    (∀ (f : Files) capacity io e es db, f.db = some s → isFresh f = false →
      Database.open f capacity io = (some (.error e), es) →
      (Database.open { f with wal := none } capacity io).fst = some (.ok db) →
      ((f.after es).db = some s ↔
        ((∀ w, Wal.open (f.wal.getD []) ≠ .ok w) ∨ Wal.Harmless (f.wal.getD []) s))) := by
  constructor
  · intro w e _ _
    cases ho : w.isOpen
    case true => simpa using Wal.recover_storage_eq_iff ho
    case false => simp [Wal.recover, ho]
  · intro f capacity io e es db hf hfresh ho hempty
    have hfresh' : isFresh { f with wal := none } = false := hfresh
    rw [Database.open] at ho hempty
    split at ho
    case isTrue hc => rw [if_pos hc] at hempty; cases hempty
    case isFalse hc =>
      rw [if_neg hc, hfresh'] at hempty
      rw [hfresh] at ho
      simp only [hf, Option.getD_some] at ho hempty
      obtain ⟨root, hroot⟩ := openFiles_readHeader hempty
      have hfc : (FileEvent.apply f (.creating none)).db = some s := hf
      rcases hof : openFiles s f.wal capacity io with ⟨r, es'⟩
      rw [hof] at ho
      obtain ⟨_, hes⟩ := Prod.mk.inj ho
      rw [← hes, Files.after_cons]
      rcases openFiles_cases hfc hof with ⟨hw, hd⟩ | ⟨e', hh, _⟩ | ⟨w, hw, hd⟩
      · exact ⟨fun _ => .inl hw, fun _ => hd⟩
      · cases hroot.symm.trans hh
      · obtain ⟨_, _, hw'⟩ := Wal.open_eq_ok_iff.mp hw
        have hi := Wal.recover_storage_eq_iff (w := w) (s := s) (by rw [hw'])
        have hfile : w.file = f.wal.getD [] := by rw [hw']
        rw [hd, Option.some_inj, hi, hfile]
        exact ⟨.inr, fun h => h.resolve_left fun hn => hn w hw⟩

-- The first record changes an allocated page, the second one names a page that is not allocated.
theorem rejected_log_changes_page :
    ∃ w, Wal.open (Wal.encodeLog 1 [(0, ByteBlock.fill 4096 7), (9999, zeroPage)]) = .ok w ∧
      (w.recover ⟨[zeroPage], by decide⟩).result =
        .error (badState "wal: record names an unallocated page") ∧
      (w.recover ⟨[zeroPage], by decide⟩).storage = ⟨[ByteBlock.fill 4096 7], by decide⟩ ∧
      (ByteBlock.fill 4096 7 : PageData) ≠ zeroPage := by
  let images : List (PageId × PageData) := [(0, ByteBlock.fill 4096 7), (9999, zeroPage)]
  let storage : PageStorage := ⟨[zeroPage], by decide⟩
  have hids : ∀ p ∈ images, p.fst ≠ invalidId := by
    rw [List.forall_mem_cons, List.forall_mem_singleton]
    decide
  have ⟨w, ho, hw⟩ : ∃ w, Wal.open (Wal.encodeLog 1 images) = .ok w ∧ Wal.Holds w images [] :=
    Wal.Holds.of_open hids (by decide)
  have hf : RecordReader.Frames Wal.reader (Wal.numbered 1 images) (Wal.encodeLog 1 images) :=
    Wal.frames_encodeLog hids (by simp [images])
  have hr : w.recover storage = _ := Wal.recover_eq hw.isOpen
  rw [hw.file, hf.all_eq] at hr
  simp [images, storage, Wal.numbered, Wal.recoverRecords, PageStorage.pageExists, PageStorage.numPages] at hr
  refine ⟨w, ho, by rw [hr], ?_, fun h => ?_⟩
  · rw [hr]
    simp [ParsedRecord.page, ByteBlock.ofBytes_toBytes, PageStorage.setPage]
  have := congrFun h 0
  revert this
  decide

end Database
end NexusDb
