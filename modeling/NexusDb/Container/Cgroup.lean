import NexusDb.General.Double
import NexusDb.General.Scan
import NexusDb.Container.Container

namespace NexusDb

structure CgroupMetrics (δ : Type) where
  memoryCurrent  : UInt64
  memoryMax      : UInt64
  cpuUsageUsec   : UInt64
  memoryPressure : δ

-- How the write of a file ends. A write that fails can leave anything.
inductive FileWrite
  | complete
  | failed (left : Option Text)

-- How a conversion of a number by `fscanf` ends. The behaviour is undefined when the number is too large.
inductive Conversion
  | mismatch
  | undefined
  | value (n : UInt64) (rest : Text)

namespace Cgroup

open Container (pathMax)

-- The text in an array of characters, up to the first NUL.
def cString (s : Text) : Text :=
  s.takeWhile (· ≠ '\x00')

def ulong (negative : Bool) (n : Nat) : UInt64 :=
  if negative then -UInt64.ofNat n else UInt64.ofNat n

-- The conversion `%lu`.
def scanULong (s : Text) : Conversion :=
  match Decimal.number s with
  | none                     => .mismatch
  | some (negative, n, rest) => if n ≥ 2 ^ 64 then .undefined else .value (ulong negative n) rest

-- The conversion `%s` with a width.
def scanWord (width : Nat) (s : Text) : Option (Text × Text) :=
  let word := (Decimal.word s).take width
  if word = [] then none else some (word, (s.dropWhile Decimal.isSpace).drop word.length)

-- The buffer for a path is longer than `pathMax` by 32.
def childPath (dir file : Text) : Text :=
  (dir ++ '/' :: file).take (pathMax + 31)

def writeFileStr (files : Text → Option Text) (path value : Text) : FileWrite → Bool × (Text → Option Text)
  | .complete    => (true, Function.update files path (some (value ++ ['\n'])))
  | .failed left => (false, Function.update files path left)

def memoryCurrentPath (path : Text) : Text :=
  childPath path "memory.current".toList

def memoryMaxPath (path : Text) : Text :=
  childPath path "memory.max".toList

def cpuMaxPath (path : Text) : Text :=
  childPath path "cpu.max".toList

def cpuStatPath (path : Text) : Text :=
  childPath path "cpu.stat".toList

def memoryLimit (memoryBytes : UInt64) : Text :=
  if memoryBytes > 0 then Decimal.padded 1 memoryBytes.toNat else "max".toList

def cpuLimit (cpuPercent : UInt32) : Text :=
  if cpuPercent > 0 && cpuPercent ≤ 100 then
    let period := 100000
    let quota := (period * cpuPercent.toNat) / 100
    Decimal.padded 1 quota ++ ' ' :: Decimal.padded 1 period
  else
    "max 100000".toList

def setLimits (files : Text → Option Text) (path : Text) (memoryBytes : UInt64) (cpuPercent : UInt32)
    (memory cpu : FileWrite) : Rc × (Text → Option Text) :=
  if path = [] then
    (.invalid, files)
  else if cpuPercent > 100 then
    (.invalid, files)
  else
    match writeFileStr files (memoryMaxPath path) (memoryLimit memoryBytes) memory with
    | (false, files) => (.process, files)
    | (true, files)  =>
      match writeFileStr files (cpuMaxPath path) (cpuLimit cpuPercent) cpu with
      | (false, files) => (.process, files)
      | (true, files)  => (.ok, files)

-- A limit that is a number is read by `strtoul`, which must take all of it and not overflow.
def parseLimit (buf : Text) : Option UInt64 :=
  if buf = "max".toList then
    some 0
  else
    match Decimal.number buf with
    | some (negative, n, []) => if n ≥ 2 ^ 64 then none else some (ulong negative n)
    | _                      => none

theorem scanWord_lt (h : scanWord width s = some (word, rest)) : rest.length < s.length := by
  simp only [scanWord] at h
  split at h <;> cases h
  case isFalse hne =>
    have hpos := List.length_pos_iff.mpr hne
    have hle : ((Decimal.word s).take width).length ≤ (s.dropWhile Decimal.isSpace).length :=
      (List.length_take_le' _ _).trans (List.takeWhile_sublist _).length_le
    have hs := (List.dropWhile_sublist Decimal.isSpace (l := s)).length_le
    rw [List.length_drop]
    omega

theorem scanULong_le (h : scanULong s = .value n rest) : rest.length ≤ s.length := by
  rw [scanULong] at h
  split at h
  case h_1 => cases h
  case h_2 hn =>
    split at h <;> cases h
    exact Decimal.number_length hn

-- The loop over `cpu.stat`. The result is `none` when the behaviour is undefined.
def cpuUsage (s : Text) : Option UInt64 :=
  match _hk : scanWord 63 s with
  | none             => some 0
  | some (key, rest) =>
    match _hv : scanULong rest with
    | .mismatch     => some 0
    | .undefined    => none
    | .value n rest => if cString key = "usage_usec".toList then some n else cpuUsage rest
termination_by s.length
decreasing_by exact (scanULong_le _hv).trans_lt (scanWord_lt _hk)

-- `metrics` is what the caller has there before. The result is `none` when the behaviour is undefined.
def readMetrics [Double δ] (files : Text → Option Text) (path : Text) (metrics : CgroupMetrics δ) :
    Option (Rc × CgroupMetrics δ) :=
  if path = [] then
    some (.invalid, metrics)
  else
    let metrics := ⟨0, 0, 0, Double.zero⟩
    match (files (memoryCurrentPath path)).map scanULong with
    | none                     => some (.process, metrics)
    | some .mismatch           => some (.process, metrics)
    | some .undefined          => none
    | some (.value current _)  =>
      let metrics := { metrics with memoryCurrent := current }
      match (files (memoryMaxPath path)).bind (scanWord 31) with
      | none          => some (.process, metrics)
      | some (buf, _) =>
        match parseLimit (cString buf) with
        | none     => some (.process, metrics)
        | some max =>
          let metrics := { metrics with memoryMax := max }
          match (files (cpuStatPath path)).elim (some 0) cpuUsage with
          | none       => none
          | some usage =>
            let pressure :=
              if max > 0 then Double.div (Double.ofULong current) (Double.ofULong max) else Double.zero
            some (.ok, { metrics with cpuUsageUsec := usage, memoryPressure := pressure })

end Cgroup
end NexusDb
