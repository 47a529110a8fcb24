import NexusDb.Container.Container

-- The command line of the database engine.
namespace NexusDb.Engine

def maxPoolFrames : UInt64 := UInt64.ofNat (1 <<< 20)

-- The loop of `ParseCount`, with the arithmetic of `std::size_t`.
def countDigits (value : UInt64) : Text → Option UInt64
  | []      => some value
  | c :: cs =>
    if c < '0' ∨ c > '9' then
      none
    else
      let value := value * 10 + UInt64.ofNat (c.toNat - '0'.toNat)
      if value > maxPoolFrames then none else countDigits value cs

def parseCount (text : Option Text) : Option UInt64 :=
  match text with
  | none | some [] => none
  | some text      => countDigits 0 text

structure Options where
  dataDir    : Text   := []
  poolFrames : UInt64 := 64

-- There are no options when the command line is not accepted.
def parseOptions (o : Options) : List Text → Option Options
  | []                 => some o
  | [_]                => none
  | arg :: val :: args =>
    if arg = "--data-dir".toList then
      parseOptions { o with dataDir := val } args
    else if arg = "--buffer-pool".toList then
      match parseCount (some val) with
      | none        => none
      | some frames => if frames = 0 then none else parseOptions { o with poolFrames := frames } args
    else
      none

end NexusDb.Engine
