import NexusDb.Buffer.BufferPool

namespace NexusDb

-- A handle that is not empty: the frame that it pins, and the page that was fetched into it.
structure Handle where
  frame : Nat
  id    : PageId

-- The users of a pool, with the handles they have declared so far. A handle that was destroyed is
-- empty. `fetched` has the pages that were ever fetched.
structure Client (σ : Type) where
  pool    : BufferPool σ
  handles : List (Option Handle) := []
  fetched : List PageId          := []

inductive PoolOp
  | declare
  | fetch (h : Nat) (id : PageId)
  | moveConstruct (src : Nat)
  | moveAssign (dst src : Nat)
  | unpin (h : Nat)
  | destroy (h : Nat)
  | modify (h : Nat) (f : PageData → PageData)
  | flushPage (id : PageId)
  | flushAll
  | resize (alloc : Allocation) (capacity : Nat)
  | allocate
  | write (page : Page)

namespace Client

variable [Device σ]

def handle? (c : Client σ) (h : Nat) : Option Handle :=
  c.handles[h]?.join

-- Giving up the pin of a handle, which is empty afterwards.
def release (c : Client σ) (h : Nat) : Client σ :=
  match c.handle? h with
  | none   => c
  | some k => { c with pool := c.pool.unpinFrame k.frame, handles := c.handles.set h none }

def fetch (c : Client σ) (h : Nat) (id : PageId) : Status × Client σ :=
  let c := c.release h
  match c.pool.fetch id with
  | (.error e, pool) => (.error e, { c with pool })
  | (.ok i, pool)    =>
    (.ok (), { c with pool, handles := c.handles.set h (some ⟨i, id⟩), fetched := id :: c.fetched })

def moveAssign (c : Client σ) (dst src : Nat) : Client σ :=
  if dst = src then
    c
  else
    let c := c.release dst
    { c with handles := (c.handles.set dst (c.handle? src)).set src none }

-- The page is modified through the handle and marked dirty.
def modify (c : Client σ) (h : Nat) (f : PageData → PageData) : Client σ :=
  match c.handle? h with
  | none   => c
  | some k =>
    let g := c.pool.frameAt k.frame
    let page := { g.page with data := f g.page.data, dirty := true }
    { c with pool := { c.pool.setFrame k.frame { g with page } with
                       dev := Device.touch c.pool.dev page.id page.data } }

def step (c : Client σ) : PoolOp → Status × Client σ
  | .declare           => (.ok (), { c with handles := c.handles ++ [none] })
  | .fetch h id        => if h < c.handles.length then c.fetch h id else (.ok (), c)
  | .moveConstruct src => (.ok (), { c with handles := c.handles.set src none ++ [c.handle? src] })
  | .moveAssign dst src =>
    (.ok (), if dst < c.handles.length then c.moveAssign dst src else c)
  | .unpin h           =>
    if (c.handle? h).isNone then
      (.error <| bad "handle is empty", c)
    else
      (.ok (), c.release h)
  | .destroy h         => (.ok (), c.release h)
  | .modify h f        => (.ok (), c.modify h f)
  | .flushPage id      => let (s, pool) := c.pool.flushPage id; (s, { c with pool })
  | .flushAll          => let (s, pool) := c.pool.flushAll; (s, { c with pool })
  | .resize alloc n    => let (s, pool) := c.pool.resize alloc n; (s, { c with pool })
  | .allocate          =>
    match Device.allocatePage c.pool.dev with
    | (.error e, dev) => (.error e, { c with pool := { c.pool with dev } })
    | (.ok _, dev)    => (.ok (), { c with pool := { c.pool with dev } })
  -- Other code writes only pages that were never fetched.
  | .write page        =>
    if page.id ∈ c.fetched then
      (.ok (), c)
    else
      let (s, dev) := Device.writePage c.pool.dev .direct page
      (s, { c with pool := { c.pool with dev } })

def run (c : Client σ) : List PoolOp → Client σ
  | []        => c
  | op :: ops => (c.step op).snd.run ops

end Client
end NexusDb
