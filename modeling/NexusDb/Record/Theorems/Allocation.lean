import NexusDb.Record.Theorems.Search

open Bytes

namespace NexusDb

namespace HeapTable

-- An insert allocates a page only when no page of the table has room. In particular the file does not grow when
-- the insert fails because all frames are pinned.
def AllocatesWhenFull [Device σ] (s : PageStorage) (t : HeapTable) (bs : Bytes) (p : BufferPool σ) : Prop :=
  (∀ q, (tryPages (some bs) true t.candidates).exec p = (some none, q) → ∀ i ∈ t.dataPages, ¬HasRoom s bs.length i) ∧
  (∀ id t' q, (t.insertOut (some bs) true).exec p = (some (.error BufferPool.allPinned, id, t'), q) →
    Device.numPages q.dev = Device.numPages p.dev)

section

variable {p : BufferPool Disk} {s : PageStorage} {C : Chain PageId} {t : HeapTable} {bs : Bytes}

-- The search goes on to allocate a page only when no page that the pool can hold has room.
theorem noRoom_of_search (h : p.Ready s (t.dataPages.length + 4)) (ht : Tracks t C) (hs : Stored s C)
    (h₀ : 0 < bs.length) (hm : bs.length ≤ SlottedPage.maxRecordSize)
    (he : (tryPages (some bs) true t.candidates).exec p = (some none, q)) : NoRoom s t bs.length p := by
  have hlen := t.length_candidates
  have hdata := fun i hi => hs.data i (mem_candidates ht hi)
  rcases tryPages_cases (n := 3) h₀ hm (h.mono (by omega)) hdata he with ⟨_, _, _, hr, _⟩ | ⟨_, hr, _⟩ | ⟨_, _, _, hnone⟩
  · cases hr
  · cases hr
  · exact fun i hi => hnone i ((mem_candidates_iff ht hs).mpr hi)

-- And it does so then, unless a call on the files fails.
theorem search_of_noRoom (h : p.Ready s (t.dataPages.length + 4)) (hd : p.dev.Plain) (ht : Tracks t C) (hs : Stored s C)
    (h₀ : 0 < bs.length) (hm : bs.length ≤ SlottedPage.maxRecordSize) (hn : NoRoom s t bs.length p) :
    ∃ q, (tryPages (some bs) true t.candidates).exec p = (some none, q) := by
  have hlen := t.length_candidates
  have hdata := fun i hi => hs.data i (mem_candidates ht hi)
  rcases he : (tryPages (some bs) true t.candidates).exec p with ⟨r, q⟩
  rcases tryPages_cases (n := 3) h₀ hm (h.mono (by omega)) hdata he with
    ⟨i, hi, _, _, hold, hroom, _⟩ | ⟨_, _, _, ho⟩ | ⟨hr, _⟩
  · exact absurd hroom (hn i ((mem_candidates_iff ht hs).mp hi) hold)
  · have hok := (Prog.exec_stable Disk.stable_plain (tryPages (some bs) true t.candidates) hd).ok
    rw [he] at hok
    exact absurd hok ho
  · exact ⟨q, by rw [hr]⟩

theorem AllocatesWhenFull.of_noRoom (h : p.Ready s (t.dataPages.length + 4)) (ht : Tracks t C) (hs : Stored s C)
    (h₀ : 0 < bs.length) (hm : bs.length ≤ SlottedPage.maxRecordSize)
    (hfull : NoRoom s t bs.length p → (∀ i ∈ t.dataPages, ¬HasRoom s bs.length i) ∧
      (s.numPages ≠ invalidId → ¬p.AllPinned)) : AllocatesWhenFull s t bs p := by
  constructor
  case left => exact fun q hq => (hfull (noRoom_of_search h ht hs h₀ hm hq)).left
  case right =>
    intro id t' q he
    obtain ⟨st, id, t'', q', he', hout⟩ := insertOut_outcome h ht hs h₀ hm
    cases he.symm.trans he'
    cases hout
    case failed _ hc => exact absurd rfl hc
    case unloaded full hn ha _ => exact absurd ha ((hfull full).right hn)
    case fresh fails _ => exact absurd rfl (fails _ rfl).left

-- Pages that are not in the pool are taken for full ones when all frames are pinned.
theorem AllocatesWhenFull.resident (ha : AllocatesWhenFull s t bs p) (h : p.Ready s (t.dataPages.length + 4))
    (hd : p.dev.Plain) (ht : Tracks t C) (hs : Stored s C) (h₀ : 0 < bs.length)
    (hm : bs.length ≤ SlottedPage.maxRecordSize) (hpin : p.AllPinned)
    (hres : ∀ i ∈ t.dataPages, p.Resident i → ¬HasRoom s bs.length i) :
    s.numPages = invalidId ∧ ∀ i ∈ t.dataPages, ¬HasRoom s bs.length i := by
  obtain ⟨_, hsearch⟩ := search_of_noRoom h hd ht hs h₀ hm fun i hi hold => hres i hi (hold hpin)
  have hroom := ha.left _ hsearch
  refine ⟨?_, hroom⟩
  obtain ⟨st, id, t', q, he, hout⟩ := insertOut_outcome h ht hs h₀ hm
  cases hout
  case stored hi _ room _ => exact absurd room (hroom _ hi)
  case failed ho =>
    have hok := (Prog.exec_stable Disk.stable_plain (t.insertOut (some bs) true) hd).ok
    rw [he] at hok
    exact absurd hok ho
  case exhausted hn => exact hn
  case unloaded hn _ grown =>
    have hsame := ha.right _ _ _ he
    rw [grown, h.coherent.numPages] at hsame
    exact absurd hsame (PageStorage.numPages_push_ne hn)
  case fresh spare _ _ _ => exact absurd hpin spare

-- Whatever the calls on the files return, the insert keeps to this unless all frames are pinned and none of the
-- pages in the pool has room. Then it takes pages that it cannot load for full ones.
theorem allocatesWhenFull_iff (hp : p.Ready s (t.dataPages.length + 4)) (ht : Tracks t C) (hs : Stored s C)
    (h₀ : 0 < bs.length) (hm : bs.length ≤ SlottedPage.maxRecordSize) :
    (∀ dev : Disk, dev.storage = p.dev.storage → AllocatesWhenFull s t bs { p with dev }) ↔
      ¬p.AllPinned ∨ (∃ i ∈ t.dataPages, p.Resident i ∧ HasRoom s bs.length i) ∨
        (s.numPages = invalidId ∧ ∀ i ∈ t.dataPages, ¬HasRoom s bs.length i) := by
  have hready : ∀ dev : Disk, dev.storage = p.dev.storage → BufferPool.Ready { p with dev } s (t.dataPages.length + 4) :=
    fun dev hd => hp.same_pages (congrArg PageStorage.page? hd)
  constructor
  case mp =>
    intro h
    by_contra hn
    obtain ⟨hpin, hres, hroom⟩ : p.AllPinned ∧ (∀ i ∈ t.dataPages, p.Resident i → ¬HasRoom s bs.length i) ∧
        ¬(s.numPages = invalidId ∧ ∀ i ∈ t.dataPages, ¬HasRoom s bs.length i) := by
      simpa only [not_or, not_not, not_exists, not_and] using hn
    -- The calls on the files all succeed.
    exact hroom ((h { storage := p.dev.storage } rfl).resident (hready _ rfl) (.new p.dev.storage) ht hs h₀ hm hpin hres)
  case mpr =>
    intro h dev hd
    refine .of_noRoom (hready dev hd) ht hs h₀ hm fun hnone => ?_
    rcases h with hspare | ⟨i, hi, hres, hroom⟩ | ⟨hn, hroom⟩
    · exact ⟨fun i hi => hnone i hi fun ha => absurd ha hspare, fun _ => hspare⟩
    · exact absurd hroom (hnone i hi fun _ => hres)
    · exact ⟨hroom, fun hne => absurd hn hne⟩

end

-- Somebody else holds one of the two frames of the pool.
theorem allocatesWhenFull_onePage : ∃ p q : BufferPool Disk, BufferPool.create { storage := onePage } 2 = .ok p ∧
    p.fetch 2 = (.ok 0, q) ∧ ∀ dev : Disk, dev.storage = onePage →
      AllocatesWhenFull onePage (loaded { last := 0, entries := [1] }) [7] { q with dev } := by
  obtain ⟨p, hp⟩ : ∃ p : BufferPool Disk, BufferPool.create { storage := onePage } 2 = .ok p := ⟨_, rfl⟩
  have hready : p.Ready onePage 6 := .of_serves (.create hp fun _ => rfl) (by rw [(BufferPool.Clock.create hp).right]; decide)
  cases hp
  obtain ⟨q, hq⟩ : ∃ q, BufferPool.fetch (⟨{ storage := onePage }, 2, [{}, {}], 0, 0⟩ : BufferPool Disk) 2 = (.ok 0, q) :=
    ⟨_, rfl⟩
  refine ⟨_, q, rfl, hq, ?_⟩
  have hspare : ¬q.AllPinned := by
    cases hq
    decide
  have hdev : q.dev.storage = onePage := by
    cases hq
    rfl
  have h₀ : 0 < List.length [(7 : UInt8)] := by decide
  have h := (allocatesWhenFull_iff (hready.pin hq) (loaded_tracks _) stored_onePage h₀ (by decide)).mpr (.inl hspare)
  rwa [hdev] at h

-- Somebody else holds the only frame of the pool.
theorem not_allocatesWhenFull :
    let p : BufferPool Disk := {
      dev         := { storage := onePage }
      capacity    := 1
      frames      := [{ page := { id := 2, data := zeroPage }, pinCount := 1, lastUsed := 1, inUse := true }]
      accessClock := 1
      fetches     := 1
    }
    ¬AllocatesWhenFull onePage (loaded { last := 0, entries := [1] }) [7] p := by
  intro p h
  have hsearch : ((tryPages (some [7]) true (loaded { last := 0, entries := [1] }).candidates).exec p).fst.any
      (·.isNone) := by decide +kernel
  match hq : (tryPages (some [7]) true (loaded { last := 0, entries := [1] }).candidates).exec p with
  | (none, _)          => rw [hq] at hsearch; cases hsearch
  | (some (some _), _) => rw [hq] at hsearch; cases hsearch
  | (some none, q)     =>
    refine h.left q hq 1 (by decide) ⟨SlottedPage.init, 4080, rfl, ?_, by decide⟩
    decide +kernel

end HeapTable
end NexusDb
