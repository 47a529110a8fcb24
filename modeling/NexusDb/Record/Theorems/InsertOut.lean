import NexusDb.Record.Theorems.Scripted

open Bytes

namespace NexusDb

namespace HeapTable

open SlottedPage (WellFormed)

section

variable [Device σ] {p q : BufferPool σ} {s : PageStorage} {C : Chain PageId} {t : HeapTable}

theorem get_inPlace (t : HeapTable) (id : RecordId) (out : Bool) : (t.get id out).InPlace := by
  rw [get]
  split_ifs
  · trivial
  · trivial
  · trivial
  · exact fun _ => trivial

theorem get_healthy {id : RecordId} (ht : Tracks t C) (hs : Stored s C) (hi : p.Inv) (hc : p.Coherent s.page?)
    (h : (t.get id true).Healthy p) : ((t.get id true).exec p).fst = some (lookup s C id) := by
  have ⟨r, s', hr, _, _, hq⟩ := Prog.wp_healthy (wp_get (K := .reliable) ht hs id) hi hc h (.inr (t.get_inPlace id true))
  rcases hq with rfl | ⟨_, _, hf⟩
  · exact hr
  · cases hf

end

section

variable {p : BufferPool Disk} {s : PageStorage} {C : Chain PageId} {t : HeapTable}

end

end HeapTable
end NexusDb
