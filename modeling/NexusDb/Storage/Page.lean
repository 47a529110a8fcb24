import NexusDb.General.ByteBlock

namespace NexusDb

-- Error codes of the engine. The code of success has no counterpart here: a call that succeeds
-- returns `Except.ok`.
inductive DbError
  | invalidArgument
  | notFound
  | ioError
  | badState
  | bufferFull
  | outOfMemory
  deriving DecidableEq, Repr

structure Error where
  code    : DbError
  message : String
  deriving DecidableEq, Repr

abbrev Status := Except Error Unit

def bad (message : String) : Error :=
  ⟨.invalidArgument, message⟩

def badState (message : String) : Error :=
  ⟨.badState, message⟩

@[simp]
abbrev pageSize : Nat := 4096

abbrev PageData := ByteBlock 4096

abbrev PageId := UInt32

-- Never the id of an allocated page.
abbrev invalidId : PageId := 0xFFFFFFFF

def zeroPage : PageData :=
  ByteBlock.fill 4096 0

@[ext]
structure Page where
  id    : PageId   := invalidId
  dirty : Bool     := false
  data  : PageData := zeroPage

-- The result of code that dereferences pointers, `none` when an access leaves its object.
abbrev Mem := Option

-- What a call on the bytes of one page returns, together with the bytes it left and marked dirty.
-- The second component is `none` when the call did not touch the page.
abbrev PageCall (α : Type) := Except Error α × Option PageData

end NexusDb
