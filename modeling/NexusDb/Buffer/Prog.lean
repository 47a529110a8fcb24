import NexusDb.Buffer.BufferPool

namespace NexusDb

-- Code that works on pages. It asks for the number of pages, adds a page with given bytes to the
-- storage, or fetches a page into a local handle and works on its bytes until the handle goes out of
-- scope. Undefined behavior on the bytes of a page ends the run.
--
-- New pages do not go through the pool: the code allocates a page, initializes a copy of it and writes
-- it to the storage. Until then nobody has fetched it.
inductive Prog (α : Type) : Type 1
  | ret (a : α)
  | numPages (k : Except Error PageId → Prog α)
  | newPage (data : PageData) (k : Except Error PageId → Prog α)
  | withPage {β : Type} (id : PageId) (f : PageData → Mem (PageCall β))
      (k : Except Error β → Prog α)

namespace Prog

def bind : Prog α → (α → Prog β) → Prog β
  | ret a,           g => g a
  | numPages k,      g => numPages fun r => (k r).bind g
  | newPage d k,     g => newPage d fun r => (k r).bind g
  | withPage id f k, g => withPage id f fun r => (k r).bind g

instance : Monad Prog where
  pure := ret
  bind := bind

-- The page calls on their own.

def countPages : Prog (Except Error PageId) :=
  numPages ret

-- A page does not exist when the pages cannot be counted.
def pageExists (id : PageId) : Prog Bool :=
  numPages fun
    | .error _ => ret false
    | .ok n    => ret (id < n)

def addPage (data : PageData) : Prog (Except Error PageId) :=
  newPage data ret

def onPage (id : PageId) (f : PageData → Mem (PageCall β)) : Prog (Except Error β) :=
  withPage id f ret

end Prog

namespace BufferPool

-- The page in a frame was modified and marked dirty, or left as it is.
def edit [Device σ] (p : BufferPool σ) (i : Nat) : Option PageData → BufferPool σ
  | none      => p
  | some data =>
    let f := p.frameAt i
    { p.setFrame i { f with page := { f.page with data, dirty := true } } with
      dev := Device.touch p.dev f.page.id data }

end BufferPool

namespace Prog

-- Running the code on a pool. There is no result when the behavior is undefined; the pool is then the
-- one that was there at that point, and nothing is known about what a program really leaves.
def exec [Device σ] : Prog α → BufferPool σ → Option α × BufferPool σ
  | ret a,           p => (some a, p)
  | numPages k,      p =>
    match Device.countPages p.dev with
    | (r, dev) => (k r).exec { p with dev }
  | newPage data k,  p =>
    match Device.allocatePage p.dev with
    | (.error e, dev) => (k (.error e)).exec { p with dev }
    | (.ok page, dev) =>
      match Device.writePage dev .direct { page with data, dirty := true } with
      | (.error e, dev) => (k (.error e)).exec { p with dev }
      | (.ok (), dev)   => (k (.ok page.id)).exec { p with dev }
  | withPage id f k, p =>
    match p.fetch id with
    | (.error e, p) => (k (.error e)).exec p
    | (.ok i, p)    =>
      match f (p.frameAt i).page.data with
      | none           => (none, p.unpinFrame i)
      | some (r, data) => (k r).exec ((p.edit i data).unpinFrame i)

-- Running the code without a pool, directly on the pages of a storage.
def direct : Prog α → PageStorage → Option α × PageStorage
  | ret a,           s => (some a, s)
  | numPages k,      s => (k (.ok s.numPages)).direct s
  | newPage data k,  s =>
    match s.allocatePage with
    | (.error e, s) => (k (.error e)).direct s
    | (.ok page, s) => (k (.ok page.id)).direct (s.setPage page.id data)
  | withPage id f k, s =>
    if id = invalidId then
      (k (.error <| bad "invalid page id")).direct s
    else
      match s.page? id with
      | none   => (k (.error <| PageStorage.beyondEnd id s.numPages)).direct s
      | some d =>
        match f d with
        | none                => (none, s)
        | some (r, none)      => (k r).direct s
        | some (r, some data) => (k r).direct (s.setPage id data)

end Prog
end NexusDb
