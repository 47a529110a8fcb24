import NexusDb.Storage.Page

namespace NexusDb

-- The open database file, as the sequence of its pages. The file is only ever extended by whole
-- pages and only written one page at a time. Its pages can be counted with 32 bits.
@[ext]
structure PageStorage where
  pages : List PageData
  bound : pages.length < 2 ^ 32

namespace PageStorage

def empty : PageStorage :=
  ⟨[], by decide⟩

def numPages (s : PageStorage) : PageId :=
  UInt32.ofNat s.pages.length

def pageExists (s : PageStorage) (id : PageId) : Bool :=
  id < s.numPages

def page? (s : PageStorage) (id : PageId) : Option PageData :=
  s.pages[id.toNat]?

def setPage (s : PageStorage) (id : PageId) (d : PageData) : PageStorage where
  pages := s.pages.set id.toNat d
  bound := by simpa using s.bound

def beyondEnd (id count : PageId) : Error :=
  ⟨.notFound, "page " ++ toString id.toNat ++ " beyond end (" ++ toString count.toNat ++ " pages)"⟩

def exhausted : Error :=
  ⟨.ioError, "page id space exhausted"⟩

def sizeChanged : Error :=
  ⟨.ioError, "database file size changed unexpectedly"⟩

def readPage (s : PageStorage) (id : PageId) : Except Error Page :=
  if id ≥ s.numPages then
    .error <| beyondEnd id s.numPages
  else
    .ok { id, dirty := false, data := (s.page? id).getD zeroPage }

def writePage (s : PageStorage) (page : Page) : Status × PageStorage :=
  if page.id = invalidId then
    (.error <| bad "invalid page id", s)
  else if page.id ≥ s.numPages then
    (.error ⟨.notFound, "page " ++ toString page.id.toNat ++ " not allocated ("
      ++ toString s.numPages.toNat ++ " pages)"⟩, s)
  else
    (.ok (), s.setPage page.id page.data)

theorem toNat_numPages (s : PageStorage) : s.numPages.toNat = s.pages.length :=
  UInt32.toNat_ofNat_of_lt' s.bound

theorem length_lt_of_ne {s : PageStorage} (h : s.numPages ≠ invalidId) :
    s.pages.length + 1 < 2 ^ 32 := by
  have hb := s.bound
  have hn : s.numPages.toNat ≠ 4294967295 := fun hi => h <| UInt32.toNat_inj.mp hi
  rw [toNat_numPages] at hn
  omega

def allocatePage (s : PageStorage) : Except Error Page × PageStorage :=
  if h : s.numPages = invalidId then
    (.error exhausted, s)
  else
    (.ok { id := s.numPages },
     { pages := s.pages ++ [zeroPage], bound := by simpa using length_lt_of_ne h })

end PageStorage
end NexusDb
