import NexusDb.Record.Theorems.Search

open Bytes

namespace NexusDb

-- The next calls on the files return `ios`.
structure Disk.Script (d : Disk) (ios : List IoResult) : Prop where
  results : d.io = ios
  whole   : d.torn = false

namespace Disk.Script

variable {d : Disk} {io : IoResult}

theorem nextIo (h : d.Script (io :: ios)) : d.nextIo = (io, { d with io := ios }) := by
  rw [Disk.nextIo, h.results]
  rfl

theorem readPage (h : d.Script (.success :: ios)) (hi : (d.storage.page? i).isSome) :
    ∃ page d', d.readPage i = (.ok page, d') ∧ d'.Script ios := by
  rw [Disk.readPage, h.whole, h.nextIo, PageStorage.readPage,
    if_neg (UInt32.not_le.mpr (PageStorage.page?_isSome_iff.mp hi))]
  exact ⟨_, _, rfl, rfl, h.whole⟩

theorem allocatePage (h : d.Script (.success :: ios)) (hn : d.storage.numPages ≠ invalidId) :
    ∃ page d', d.allocatePage = (.ok page, d') ∧ d'.Script ios := by
  rw [Disk.allocatePage, h.whole, PageStorage.allocatePage, dif_neg hn, h.nextIo]
  exact ⟨_, _, rfl, rfl, h.whole⟩

theorem writePage {page : Page} (h : d.Script (.success :: ios)) (hp : page.id < d.storage.numPages) :
    ∃ d', d.writePage w page = (.ok (), d') ∧ d'.Script ios := by
  rw [Disk.writePage, h.whole, h.nextIo]
  rcases hw : d.storage.writePage page with ⟨r, s⟩
  rcases PageStorage.writePage_cases hw with ⟨_, _, _, hn⟩ | ⟨rfl, _, _⟩
  · exact absurd hp hn
  · exact ⟨_, rfl, rfl, h.whole⟩

end Disk.Script

namespace BufferPool

section

variable [Device σ] {p q : BufferPool σ}

theorem Clean.flushFrame (h : p.Clean) (i : Nat) : p.flushFrame i = (.ok (), p) := by
  rw [BufferPool.flushFrame]
  refine if_pos ?_
  cases hu : (p.frameAt i).inUse
  case false => rfl
  case true => rw [h i _ (frame?_of_inUse hu) hu]; rfl

theorem Clean.acquireFrame (h : p.Clean) (ha : p.acquireFrame = (res, q)) : q = p := by
  rw [BufferPool.acquireFrame] at ha
  split at ha
  case h_1 => cases ha; rfl
  case h_2 =>
    split at ha
    case h_1 => cases ha; rfl
    case h_2 i _ =>
      rw [h.flushFrame i] at ha
      cases ha
      rfl

-- Loading a page writes nothing back.
theorem Clean.fetch_dev {s : σ} (h : p.Clean) (hr : ¬p.Resident j) (hread : Device.readPage p.dev j = (.ok page, s))
    (hf : p.fetch j = (.ok i, q)) : q.dev = s := by
  have h : Clean { p with dev := s } := h
  rw [BufferPool.fetch, findFrame_absent hr, hread] at hf
  simp only at hf
  split at hf
  case isTrue => cases hf
  case isFalse =>
    split at hf <;> cases hf
    case h_2 ha =>
      cases h.acquireFrame ha
      exact (nextTimestamp_same _).dev

end

-- A pool that shows the pages of `s` and has a frame for more, and nothing to write back. The next calls on the
-- files return `ios`.
structure Scripted (p : BufferPool Disk) (s : PageStorage) (n : Nat) (ios : List IoResult) : Prop where
  ready  : p.Ready s n
  clean  : p.Clean
  spare  : ¬p.AllPinned
  script : p.dev.Script ios

namespace Scripted

variable {p : BufferPool Disk} {s : PageStorage}

-- Loading a page takes one call on the files.
theorem load (h : p.Scripted s (n + 1) (.success :: ios)) (hr : ¬p.Resident j) (hd : s.page? j = some d) :
    ∃ i q, p.fetch j = (.ok i, q) ∧ (q.frameAt i).page.data = d ∧ q.Clean ∧ q.dev.Script ios ∧
      ∀ k, q.Resident k → k = j ∨ p.Resident k := by
  have hj := PageStorage.ne_invalidId hd
  have hlt : p.fetches < maxStamp := by
    have := h.ready.stamps
    omega
  have hsome : (p.dev.storage.page? j).isSome := by
    rw [show (p.dev.storage.page? j).isSome = _ from h.ready.coherent.allocated j, hd]
    rfl
  obtain ⟨page, dev, hread, hscript⟩ := h.script.readPage hsome
  have hread : Device.readPage p.dev j = (.ok page, dev) := hread
  have hclean : Clean { p with dev } := h.clean
  rcases hf : p.fetch j with ⟨e | i, q⟩
  · rcases fetch_spare h.ready.inv h.ready.clock hlt h.spare hf with ⟨hinv, _⟩ | ⟨_, _, herr, _⟩ | ⟨_, _, i, hok, hfl⟩
    · exact absurd hinv hj
    · cases hread.symm.trans herr
    · cases hread.symm.trans hok
      cases hfl.symm.trans (hclean.flushFrame i)
  · have hdata := (h.ready.use (d := none) hf).left
    cases hd.symm.trans hdata
    refine ⟨i, q, rfl, rfl, (h.clean.fetch hf).left, ?_, fun k hk => ?_⟩
    · rwa [h.clean.fetch_dev hr hread hf]
    · rcases (fetch_fetches h.ready.inv h.ready.clock hlt hf).resident h.ready.inv with
        ⟨_, hq⟩ | ⟨_, _, hq⟩ | ⟨_, _, _, _, _, _, hq⟩
      · exact .inr ((hq k).mp hk)
      · exact (hq k).mp hk
      · exact ((hq k).mp hk).imp_right And.left

theorem addPage (h : p.Scripted s n (.success :: .success :: ios)) (hn : s.numPages ≠ invalidId) (d : PageData) :
    ∃ q, (Prog.addPage d).exec p = (some (.ok s.numPages), q) ∧ q.Scripted (s.push d) n ios ∧
      ∀ k, q.Resident k ↔ p.Resident k := by
  have hnum : p.dev.storage.numPages = s.numPages := h.ready.coherent.numPages
  obtain ⟨page, dev, ha, hscript⟩ := h.script.allocatePage (hnum ▸ hn)
  have ha : Device.allocatePage p.dev = (.ok page, dev) := ha
  obtain ⟨_, hpage, hpages⟩ := Device.alloc_ok ha
  have hlt : page.id < dev.storage.numPages := by
    refine PageStorage.page?_isSome_iff.mp ?_
    rw [show dev.storage.page? page.id = _ from hpages page.id, if_pos rfl]
    rfl
  obtain ⟨dev', hw, hscript⟩ : ∃ dev', dev.writePage .direct { page with data := d, dirty := true } = (.ok (), dev') ∧ _ :=
    hscript.writePage hlt
  have he : (Prog.addPage d).exec p = (some (.ok page.id), { p with dev := dev' }) := by
    rw [Prog.addPage, Prog.exec, ha]
    simp only
    rw [show Device.writePage dev .direct { page with data := d, dirty := true } = _ from hw]
    rfl
  have hid : page.id = s.numPages := (congrArg Page.id hpage).trans hnum
  rw [hid] at he
  refine ⟨_, he, ⟨h.ready.dev (h.ready.coherent.newPage ha hw), h.clean, h.spare, hscript⟩, fun _ => .rfl⟩

end Scripted

end BufferPool

namespace HeapTable

open SlottedPage (WellFormed)

variable {p : BufferPool Disk} {s : PageStorage} {bs : Bytes}

section

variable (h₀ : 0 < bs.length) (hm : bs.length ≤ SlottedPage.maxRecordSize)

include h₀ hm

end

end HeapTable
end NexusDb
