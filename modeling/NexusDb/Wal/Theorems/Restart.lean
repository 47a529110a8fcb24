import NexusDb.General.Interrupted
import NexusDb.Wal.Theorems.TornTail

namespace NexusDb

namespace PageStorage

variable {s s' : PageStorage} {ws : List (PageId × PageData)}

-- What the replaced pages held before does not matter.
theorem replay_congr (hl : s'.pages.length = s.pages.length) (hw : ∀ w ∈ ws, s.pageExists w.fst)
    (h : ∀ i, (∀ d, (i, d) ∉ ws) → s'.page? i = s.page? i) : s'.replay ws = s.replay ws := by
  have hs : ∀ t : PageStorage, t.pages.length = s.pages.length → ∀ w ∈ ws, (t.page? w.fst).isSome := by
    intro t ht w hm
    have hl := pageExists_iff.mp <| hw w hm
    simp [page?, ht, hl]
  apply page?_ext
  intro i
  rw [page?_replay (hs s' hl), page?_replay (hs s rfl)]
  cases hi : lastWrite ws i
  case none => exact h i <| lastWrite_eq_none_iff.mp hi
  case some => rfl

end PageStorage

namespace Wal

-- What recovery may leave when it stops. The page that it was writing then holds any bytes.
def Stopped (w : Wal) (storage : PageStorage) : PageStorage → Prop :=
  Interrupted (fun s p => s.setPage p.id p.data) (fun s p s' => ∃ d, s' = s.setPage p.id d) storage
    (w.recover storage).written

-- The same file outside of the pages that the records name.
structure Apart (rs : List ParsedRecord) (s s' : PageStorage) : Prop where
  length : s'.pages.length = s.pages.length
  page?  : ∀ i, (∀ r ∈ rs, r.pageId ≠ i) → s'.page? i = s.page? i

namespace Apart

variable {rs : List ParsedRecord} {s s' : PageStorage}

theorem pageExists (h : Apart rs s s') : s'.pageExists i = s.pageExists i := by
  rw [Bool.eq_iff_iff, PageStorage.pageExists_iff, PageStorage.pageExists_iff, h.length]

theorem setPage (h : Apart rs s s') (hr : r ∈ rs) (he : s.pageExists r.pageId) :
    Apart rs s (s'.setPage r.pageId d) where
  length := PageStorage.length_setPage.trans h.length
  page? i hi := by
    have hl := PageStorage.pageExists_iff.mp <| h.pageExists.trans he
    rw [PageStorage.page?_setPage (by simp [PageStorage.page?, hl]), if_neg (hi r hr), h.page? i hi]

end Apart

section

variable {file : Bytes} {storage s : PageStorage}
  (he : ∀ r ∈ (reader.all file).fst, storage.pageExists r.pageId)

include he

theorem exists_of_image : ∀ p ∈ (reader.all file).fst.map ParsedRecord.image, storage.pageExists p.fst := by
  intro p hp
  have ⟨r, hr, hrp⟩ := List.mem_map.mp hp
  exact hrp ▸ he r hr

variable {w : Wal} (h : Wal.open file = .ok w)

include h

theorem recover_of_open : ∃ stats, w.recover storage =
    ⟨.ok stats, storage.replay ((reader.all file).fst.map ParsedRecord.image),
     (reader.all file).fst.map ParsedRecord.page⟩ := by
  have ⟨rs, _, left, _, _, _, ha, hi, hw⟩ := open_frames h
  subst hw
  rw [ha] at he ⊢
  exact ⟨_, recover_of_accepted rfl ha hi he⟩

theorem page?_recover : (w.recover storage).storage.page? i =
    (lastWrite ((reader.all file).fst.map ParsedRecord.image) i).or (storage.page? i) := by
  have ⟨_, hrec⟩ := recover_of_open he h
  rw [hrec]
  exact PageStorage.page?_replay fun p hp => PageStorage.page?_isSome_of_pageExists (exists_of_image he p hp)

theorem recover_congr (hs : Apart (reader.all file).fst storage s) : w.recover s = w.recover storage := by
  have ⟨rs, _, left, _, _, _, ha, hi, hw⟩ := open_frames h
  have hx := exists_of_image he
  subst hw
  rw [ha] at he hs hx
  have he' : ∀ r ∈ rs, s.pageExists r.pageId := fun r hr => hs.pageExists.trans (he r hr)
  rw [recover_of_accepted rfl ha hi he', recover_of_accepted rfl ha hi he, PageStorage.replay_congr hs.length hx]
  intro i hn
  apply hs.page? i
  intro r hr hri
  exact hn r.page.data <| List.mem_map.mpr ⟨r, hr, by rw [ParsedRecord.image, hri]⟩

theorem apart_stopped (hs : Stopped w storage s) : Apart (reader.all file).fst storage s := by
  have ⟨_, hrec⟩ := recover_of_open he h
  have hset : ∀ s d, ∀ p ∈ (w.recover storage).written,
      Apart (reader.all file).fst storage s → Apart (reader.all file).fst storage (s.setPage p.id d) := by
    intro s d p hp hs
    rw [hrec] at hp
    have ⟨r, hr, hrp⟩ := List.mem_map.mp hp
    exact hrp ▸ hs.setPage hr (he r hr)
  have htorn : ∀ s, ∀ p ∈ (w.recover storage).written, ∀ s', Apart (reader.all file).fst storage s →
      (∃ d, s' = s.setPage p.id d) → Apart (reader.all file).fst storage s' := by
    intro s p hp s' hs ⟨d, hd⟩
    exact hd ▸ hset s d p hp hs
  exact Interrupted.rule _ (fun s p hp => hset s p.data p hp) htorn ⟨rfl, fun _ _ => rfl⟩ hs

theorem apart_recovered : Apart (reader.all file).fst storage (w.recover storage).storage := by
  refine ⟨?_, fun i hi => ?_⟩
  · have ⟨_, hrec⟩ := recover_of_open he h
    rw [hrec, PageStorage.length_replay]
  · rw [page?_recover he h, lastWrite_eq_none_iff.mpr]
    · rfl
    · intro d hd
      have ⟨r, hr, hrp⟩ := List.mem_map.mp hd
      exact hi r hr (congrArg Prod.fst hrp)

theorem page?_recover_last (hr : (reader.all file).fst = rs ++ r :: rs')
    (hl : ∀ r' ∈ rs', r'.pageId ≠ r.pageId) :
    (w.recover storage).storage.page? r.pageId = some r.page.data := by
  have hn : lastWrite (rs'.map ParsedRecord.image) r.pageId = none := by
    rw [lastWrite_eq_none_iff]
    intro d hd
    have ⟨r', hr', hrp⟩ := List.mem_map.mp hd
    exact hl r' hr' (congrArg Prod.fst hrp)
  rw [page?_recover he h, hr, List.map_append, List.map_cons, lastWrite_append, lastWrite, hn]
  simp [ParsedRecord.image]

end

-- Recovery that is repeated, also after it was stopped in the middle of a write, ends with the same pages.
theorem recover_restartable {file : Bytes} (h : Wal.open file = .ok w)
    (he : ∀ r ∈ (reader.all file).fst, storage.pageExists r.pageId) :
    (∃ stats, (w.recover storage).result = .ok stats) ∧
    w.recover (w.recover storage).storage = w.recover storage ∧
    (∀ s, Stopped w storage s → w.recover s = w.recover storage) ∧
    (∀ i, (∀ r ∈ (reader.all file).fst, r.pageId ≠ i) →
      (w.recover storage).storage.page? i = storage.page? i) ∧
    ∀ rs r rs', (reader.all file).fst = rs ++ r :: rs' → (∀ r' ∈ rs', r'.pageId ≠ r.pageId) →
      (w.recover storage).storage.page? r.pageId = some r.page.data := by
  have hap := apart_recovered he h
  refine ⟨?_, recover_congr he h hap, ?_, hap.page?, ?_⟩
  · have ⟨stats, hrec⟩ := recover_of_open he h
    exact ⟨stats, by rw [hrec]⟩
  · exact fun s hs => recover_congr he h <| apart_stopped he h hs
  · exact fun rs r rs' hr hl => page?_recover_last he h hr hl

-- Two images of one page, and a stop in the middle of the first write.
theorem recover_restartable_two :
    ∃ w, Wal.open (encodeLog 1 [(0, ByteBlock.fill 4096 1), (0, ByteBlock.fill 4096 2)]) = .ok w ∧
      Stopped w ⟨[zeroPage], by decide⟩ ⟨[ByteBlock.fill 4096 9], by decide⟩ ∧
      (w.recover ⟨[ByteBlock.fill 4096 9], by decide⟩).storage.page? 0 = some (ByteBlock.fill 4096 2) := by
  have hv : ∀ p ∈ [((0 : PageId), ByteBlock.fill 4096 1), (0, ByteBlock.fill 4096 2)], p.fst ≠ invalidId := by
    simp [invalidId]
  obtain ⟨w, ho, _⟩ := Holds.of_open hv (by simp)
  have hf : RecordReader.Frames reader (numbered 1 _) (encodeLog 1 _) := frames_encodeLog hv (by simp)
  have hall := hf.all_eq
  have he : ∀ r ∈ (reader.all (encodeLog 1 [(0, ByteBlock.fill 4096 1), (0, ByteBlock.fill 4096 2)])).fst,
      (⟨[zeroPage], by decide⟩ : PageStorage).pageExists r.pageId := by
    simp [hall, numbered, PageStorage.pageExists, PageStorage.numPages]
  obtain ⟨_, _, hs, _, hl⟩ := recover_restartable ho he
  obtain ⟨_, hrec⟩ := recover_of_open he ho
  have hst : Stopped w ⟨[zeroPage], by decide⟩ ⟨[ByteBlock.fill 4096 9], by decide⟩ := by
    rw [Stopped, hrec, hall]
    exact .torn ⟨_, rfl⟩
  refine ⟨w, ho, hst, ?_⟩
  rw [hs _ hst]
  rw [hall] at hl
  have h := hl _ _ _ (List.singleton_append ..).symm (by rintro _ ⟨⟩)
  rw [h, ParsedRecord.page, ByteBlock.ofBytes_toBytes]

end Wal
end NexusDb
