import NexusDb.Query.QueryExecutor
import NexusDb.Catalog.Theorems.Calls

namespace NexusDb

open Layout (Realized)
open Prog (ReadOnly)

-- Opening an executor on an existing catalog changes no page, and fetches each page at most once.

theorem QueryExecutor.create_noEdit : create.NoEdit := by
  refine Prog.NoEdit.bind (Prog.NoEdit.bind .addPage fun r => ?_) fun r => ?_
  · split
    case h_1 => trivial
    case h_2 => exact Catalog.load_readOnly.noEdit
  · split <;> trivial

theorem QueryExecutor.open_readOnly : (QueryExecutor.open i).ReadOnly := by
  refine ReadOnly.bind Catalog.open_readOnly fun r => ?_
  split <;> trivial

theorem QueryExecutor.calls_open (h : Realized s L) (hl : s.pages.length ≤ pageLimit) :
    (QueryExecutor.open L.catalog.root).calls s ≤ s.pages.length := by
  have ⟨r, hfst, hsnd, _⟩ := Prog.wp_direct (Catalog.wp_open (K := .reliable) h (.inr hl))
    (.inr Catalog.open_readOnly.inPlace)
  have hcalls : (QueryExecutor.open L.catalog.root).calls s = (Catalog.open L.catalog.root).calls s := by
    rw [QueryExecutor.open, Prog.bind_eq, Prog.calls_bind (Prod.ext hfst hsnd)]
    split <;> rfl
  rw [hcalls]
  exact Catalog.calls_open h hl

end NexusDb
