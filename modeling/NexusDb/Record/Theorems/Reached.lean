import NexusDb.Record.Theorems.InsertOut
import NexusDb.Record.Theorems.Opening

open Bytes

namespace NexusDb

open SlottedPage (WellFormed records)

namespace HeapTable

section

variable [Device σ]

-- What a pool and a table object can become. Every call may fail in any way. In between, others may use the pool
-- and the file, but they do not write to the pages of the table.
inductive Reached : BufferPool σ → HeapTable → Prop
  | create {s : PageStorage} (hi : p.Inv) (hc : p.Coherent s.page?) (h : create.exec p = (some (.ok t), q)) :
      Reached q t
  | open (hr : Reached p t) (h : (HeapTable.open t.root).exec p = (some (.ok t'), q)) : Reached q t'
  | openFails (hr : Reached p t) (h : (HeapTable.open t.root).exec p = (r, q)) : Reached q t
  | insert {id : RecordId} (hr : Reached p t) (h : (t.insertOut record out).exec p = (some (status, id, t'), q)) :
      Reached q t'
  | update {id : RecordId} (hr : Reached p t) (h : (t.update id record).exec p = (some status, q)) : Reached q t
  | delete {id : RecordId} (hr : Reached p t) (h : (t.delete id).exec p = (some status, q)) : Reached q t
  | get {id : RecordId} (hr : Reached p t) (h : (t.get id out).exec p = (r, q)) : Reached q t
  | scan {fn : Option (τ → RecordId → Bytes → τ × Bool)} (hr : Reached p t) (h : (t.scan fn ctx).exec p = (r, q)) :
      Reached q t
  | others (hr : Reached p t) (hi : q.Inv)
      (h : ∀ s : PageStorage, p.Coherent s.page? → ∃ s' : PageStorage, q.Coherent s'.page? ∧
        ∀ C, Stored s C → C.root = t.root → ∀ i ∈ owned C, s'.page? i = s.page? i) : Reached q t

-- The object agrees with the directory that the pages seen through the pool hold.
structure Attached (p : BufferPool σ) (t : HeapTable) (s : PageStorage) (C : Chain PageId) : Prop where
  inv      : p.Inv
  coherent : p.Coherent s.page?
  tracks   : Tracks t C
  stored   : Stored s C
  full     : C.Full directory.capacity

namespace Attached

variable {p q : BufferPool σ} {t t' : HeapTable} {s s' : PageStorage} {C : Chain PageId} {id : RecordId} {status : Status}

-- Code that changes no page.
theorem read (h : Attached p t s C) {g : Prog α} {Q : α → Prop} (hw : g.wp .any (fun r s' => s' = s ∧ Q r) s)
    (he : g.exec p = (r, q)) : Attached q t s C ∧ ∃ a, r = some a ∧ Q a := by
  have ⟨hk, a, s', hr, hc, hs, hq⟩ := Prog.wp_any hw h.inv h.coherent he
  subst hs
  exact ⟨⟨hk.inv, hc, h.tracks, h.stored, h.full⟩, a, hr, hq⟩

theorem create (hi : p.Inv) (hc : p.Coherent s.page?) (he : create.exec p = (some (.ok t), q)) :
    ∃ s' C, Attached q t s' C := by
  have ⟨hk, a, s', hr, hc', hq⟩ := Prog.wp_any wp_create hi hc he
  cases hr
  rcases hq with ⟨rfl, hs, _, ht⟩ | ⟨_, _, _, ht⟩
  · cases ht
    exact ⟨_, _, hk.inv, hc', loaded_tracks _, hs, nofun⟩
  · cases ht

theorem opening (h : Attached p t s C) (he : (HeapTable.open t.root).exec p = (r, q)) :
    Attached q t s C ∧ ∀ t', r = some (.ok t') → t' = loaded C := by
  rw [h.tracks.root] at he
  have ⟨ha, a, hr, ho⟩ := h.read (wp_open h.stored (.inl trivial)) he
  refine ⟨ha, fun t' ht => ?_⟩
  cases hr.symm.trans ht
  rcases ho with ho | ⟨_, ho, _⟩
  · cases ho
    rfl
  · cases ho

theorem insertOut (h : Attached p t s C) (he : (t.insertOut record out).exec p = (some (status, id, t'), q)) :
    ∃ s' C', Attached q t' s' C' ∧ Inserts .any s C record (status.map fun _ => id) s' C' := by
  -- Without an out-parameter the call has failed, as it does with one.
  have he : (t.insertOut record true).exec p = (some (status, id, t'), q) := by
    rcases t.insertOut_out record p with ⟨_, _, hout⟩ | ⟨_, hf⟩
    · rw [hout out] at he
      rw [hout true, he]
    · cases out
      case true => exact he
      case false =>
        rw [he] at hf
        cases hf
  have ⟨hk, _, s', hr, hc, C', ht, hins⟩ := Prog.wp_any
    (wp_insertOut PageChain.grows_any (fun _ _ _ _ _ _ _ _ => trivial) h.tracks h.stored) h.inv h.coherent he
  cases hr
  exact ⟨s', C', ⟨hk.inv, hc, ht, hins.left.stored, hins.left.grown.full h.full⟩, hins⟩

theorem changed (h : Attached p t s C) (hi : q.Inv) (hc : q.Coherent s'.page?) (hx : Changed s C s' id new) :
    Attached q t s' C :=
  ⟨hi, hc, h.tracks, hx.leads.stored, h.full⟩

theorem update (h : Attached p t s C) (he : (t.update id record).exec p = (some status, q)) :
    ∃ s', Attached q t s' C ∧ Updates .any s C id record status s' := by
  have ⟨hk, _, s', hr, hc, hu⟩ := Prog.wp_any
    (wp_update h.tracks h.stored id fun _ _ _ _ _ _ _ _ _ _ => trivial) h.inv h.coherent he
  cases hr
  refine ⟨s', ?_, hu⟩
  cases status
  case error e => exact ⟨hk.inv, hc, h.tracks, hu.left ▸ h.stored, h.full⟩
  case ok =>
    have ⟨_, _, hx⟩ := hu
    exact h.changed hk.inv hc hx

theorem delete (h : Attached p t s C) (he : (t.delete id).exec p = (some status, q)) :
    ∃ s', Attached q t s' C ∧ Deletes .any s C id status s' := by
  have ⟨hk, _, s', hr, hc, hd⟩ := Prog.wp_any
    (wp_delete h.tracks h.stored id fun _ _ _ _ _ _ _ _ => trivial) h.inv h.coherent he
  cases hr
  refine ⟨s', ?_, hd⟩
  cases status
  case error e => exact ⟨hk.inv, hc, h.tracks, hd.left ▸ h.stored, h.full⟩
  case ok => exact h.changed hk.inv hc hd

theorem get (h : Attached p t s C) (he : (t.get id out).exec p = (r, q)) : Attached q t s C := by
  cases out
  case false =>
    cases he
    exact h
  case true => exact (h.read (wp_get h.tracks h.stored id) he).left

theorem scan {fn : Option (τ → RecordId → Bytes → τ × Bool)} (h : Attached p t s C)
    (he : (t.scan fn ctx).exec p = (r, q)) : Attached q t s C := by
  cases fn
  case none =>
    cases he
    exact h
  case some => exact (h.read (wp_scan h.tracks h.stored ctx) he).left

theorem open_healthy (h : Attached p t s C) (hh : (HeapTable.open t.root).Healthy p)
    (hl : s.pages.length ≤ pageLimit) : ((HeapTable.open t.root).exec p).fst = some (.ok (loaded C)) := by
  rw [h.tracks.root] at hh ⊢
  have ⟨r, _, hr, _, _, hq⟩ := Prog.wp_healthy (wp_open (K := .reliable) h.stored (.inr hl)) h.inv h.coherent hh
    (.inr open_readOnly.inPlace)
  rcases hq with rfl | ⟨_, _, hf⟩
  · exact hr
  · cases hf

end Attached

theorem Reached.attached {p : BufferPool σ} {t : HeapTable} (h : Reached p t) : ∃ s C, Attached p t s C := by
  induction h
  case create hi hc h => exact Attached.create hi hc h
  case «open» h ih =>
    have ⟨s, C, ha⟩ := ih
    have ⟨ha, ht⟩ := ha.opening h
    cases ht _ rfl
    exact ⟨s, C, ha.inv, ha.coherent, loaded_tracks C, ha.stored, ha.full⟩
  case openFails h ih =>
    have ⟨s, C, ha⟩ := ih
    exact ⟨s, C, (ha.opening h).left⟩
  case insert h ih =>
    have ⟨s, C, ha⟩ := ih
    have ⟨s', C', ha, _⟩ := ha.insertOut h
    exact ⟨s', C', ha⟩
  case update h ih =>
    have ⟨s, C, ha⟩ := ih
    have ⟨s', ha, _⟩ := ha.update h
    exact ⟨s', C, ha⟩
  case delete h ih =>
    have ⟨s, C, ha⟩ := ih
    have ⟨s', ha, _⟩ := ha.delete h
    exact ⟨s', C, ha⟩
  case get h ih =>
    have ⟨s, C, ha⟩ := ih
    exact ⟨s, C, ha.get h⟩
  case scan h ih =>
    have ⟨s, C, ha⟩ := ih
    exact ⟨s, C, ha.scan h⟩
  case others hi h ih =>
    have ⟨s, C, ha⟩ := ih
    have ⟨s', hc, hs⟩ := h s ha.coherent
    exact ⟨s', C, hi, hc, ha.tracks, ha.stored.congr (hs C ha.stored ha.tracks.root.symm), ha.full⟩

variable {p : BufferPool σ} {t : HeapTable}

-- Whatever has happened, a table that is opened again has the same directory as the object that was in use, and
-- the pages of the directory are filled one after the other.
theorem reopen_agrees (h : Reached p t) :
    ((HeapTable.open t.root).Healthy p → (Device.numPages p.dev).toNat ≤ pageLimit →
      ∃ t', ((HeapTable.open t.root).exec p).fst = some (.ok t') ∧ t'.root = t.root ∧ t'.dataPages = t.dataPages ∧
        t'.lastDir = t.lastDir ∧ t'.lastDirCount = t.lastDirCount) ∧
    ∃ (s : PageStorage) (ps : List (PageId × List Bytes)) (es : List Bytes),
      p.Coherent s.page? ∧ directory.Path s t.root (ps ++ [(t.lastDir, es)]) ∧
        (∀ page ∈ ps, page.snd.length = directory.capacity) ∧ es.length ≤ directory.capacity := by
  obtain ⟨s, C, ha⟩ := h.attached
  have ht := ha.tracks
  constructor
  case left =>
    intro hh hl
    rw [ha.coherent.numPages, PageStorage.toNat_numPages] at hl
    exact ⟨loaded C, ha.open_healthy hh hl, ht.root.symm, ht.data.symm, ht.last.symm, ht.count.symm⟩
  case right =>
    have hpath := ha.stored.chain.path
    rw [Chain.pages, List.map_append] at hpath
    refine ⟨s, _, _, ha.coherent, by rw [ht.root, ht.last]; exact hpath, ?_, ?_⟩
    · intro page hp
      obtain ⟨x, hx, hpage⟩ := List.mem_map.mp hp
      rw [← hpage, List.length_map]
      exact ha.full x hx
    · obtain ⟨_, _, hh⟩ := ha.stored.chain.last
      exact hh.fits

end

-- A pool over a new file.
def newFile : BufferPool Disk where
  dev      := { storage := .empty }
  capacity := 1
  frames   := [{}]

theorem newFile_serves : newFile.Serves .empty :=
  .create (show BufferPool.create newFile.dev 1 = .ok newFile from rfl) fun _ => rfl

theorem exec_create_newFile : ∃ q, create.exec newFile = (some (.ok (loaded { last := 0 })), q) ∧
    q.Coherent emptyTable.page? := by
  have ⟨r, s', hr, hc, hq⟩ := Prog.wp_exec (c := .any) trivial wp_create newFile_serves.inv newFile_serves.coherent
  have hok : (create.exec newFile).fst.any (·.isOk) := by decide +kernel
  rcases hq with ⟨rfl, _, _, rfl⟩ | ⟨_, _, e, rfl⟩
  · exact ⟨_, Prod.ext hr rfl, hc⟩
  · rw [hr] at hok
    cases hok

theorem reached_newFile (h : create.exec newFile = (some (.ok t), q)) : Reached q t :=
  .create newFile_serves.inv newFile_serves.coherent h

-- The table gets its first record.
theorem reopen_agrees_inserted : ∃ p q t id, create.exec newFile = (some (.ok (loaded { last := 0 })), p) ∧
    ((loaded { last := 0 }).insertOut (some [7]) true).exec p = (some (.ok (), id, t), q) ∧
    ∃ t', ((HeapTable.open t.root).exec q).fst = some (.ok t') ∧ t'.dataPages = [1] ∧ t'.lastDirCount = 1 := by
  obtain ⟨p, hcreate, _⟩ := exec_create_newFile
  have hready : newFile.Ready .empty (2 ^ 32 + (4 + 2 ^ 32)) := .of_serves newFile_serves (by decide)
  have hplain : newFile.dev.Plain := .new .empty
  obtain ⟨_, hp, hroom, _⟩ := create_atMost.ready hready
  have hdev := Prog.exec_stable Disk.stable_plain create hplain
  rw [hcreate] at hp hroom hdev
  obtain ⟨_, hq, hroom', _⟩ := (insertOut_atMost (loaded { last := 0 }) (some [7]) true).ready hp
  have hdev' := Prog.exec_stable Disk.stable_plain ((loaded { last := 0 }).insertOut (some [7]) true) hdev
  have heval : (((loaded { last := 0 }).insertOut (some [7]) true).exec (create.exec newFile).snd).fst.any fun r =>
      r.fst.isOk && r.snd.snd.dataPages == [1] && r.snd.snd.lastDirCount == 1 := by decide +kernel
  have hpages : (Device.numPages (((loaded { last := 0 }).insertOut (some [7]) true).exec (create.exec newFile).snd).snd.dev)
      = 2 := by decide +kernel
  rw [hcreate] at heval hpages
  rcases he : ((loaded { last := 0 }).insertOut (some [7]) true).exec p with ⟨_ | ⟨e | ⟨⟩, id, t⟩, q⟩
  all_goals
    rw [he] at heval hq hroom' hdev' hpages
  · cases heval
  · cases heval
  · simp only [Option.any_some, Bool.and_eq_true, beq_iff_eq] at heval
    obtain ⟨⟨_, hdata⟩, hcount⟩ := heval
    have hspare : ¬q.AllPinned := mt (hroom.trans hroom').allPinned.mp (by decide)
    have hh : (HeapTable.open t.root).Healthy q :=
      open_atMost.healthy hq (fun _ => hspare) (Prog.exec_stable Disk.stable_plain _ hdev').ok
    obtain ⟨t', ht', _, hdata', _, hcount'⟩ := (reopen_agrees (.insert (reached_newFile hcreate) he)).left hh
      (by rw [hpages]; decide)
    exact ⟨p, q, t, id, hcreate, he, t', ht', hdata'.trans hdata, hcount'.trans hcount⟩

end HeapTable
end NexusDb
