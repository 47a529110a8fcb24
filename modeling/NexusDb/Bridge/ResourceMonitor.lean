import NexusDb.Bridge.AdaptationPolicy
import NexusDb.Container.Cgroup

namespace NexusDb

-- A reading of the resources of a container, with the part that the policy looks at.
structure Snapshot (δ : Type) extends ResourceSnapshot δ where
  memoryCurrent : UInt64
  hasCpu        : Bool
  cpuUsageUsec  : UInt64

namespace Snapshot

variable [Double δ]

def zero : Snapshot δ where
  valid          := false
  hasMemory      := false
  hasLimit       := false
  hasCpu         := false
  memoryCurrent  := 0
  memoryMax      := 0
  cpuUsageUsec   := 0
  memoryPressure := Double.zero

end Snapshot

namespace Bridge

section

variable [Double δ]

def cpuStatPresent (files : Text → Option Text) (dir : Text) : Bool :=
  (files (Cgroup.cpuStatPath dir)).isSome

-- `out` is what the caller has there before. The result is `none` when the behaviour is undefined.
def readCgroup (files : Text → Option Text) (dir : Text) (out : Snapshot δ) : Mem (Rc × Snapshot δ) :=
  if dir = [] then
    some (.invalid, out)
  else
    match Cgroup.readMetrics files dir ⟨0, 0, 0, Double.zero⟩ with
    | none         => none
    | some (rc, m) =>
      if rc ≠ .ok then
        some (rc, .zero)
      else
        let hasCpu := cpuStatPresent files dir
        some (.ok, { valid          := true
                     hasMemory      := true
                     hasLimit       := m.memoryMax > 0
                     hasCpu
                     memoryCurrent  := m.memoryCurrent
                     memoryMax      := m.memoryMax
                     cpuUsageUsec   := if hasCpu then m.cpuUsageUsec else 0
                     memoryPressure := m.memoryPressure })

def readContainer (r : Registry) (files : Text → Option Text) (name : Text) (out : Snapshot δ) :
    Mem (Rc × Snapshot δ) :=
  if name = [] then
    some (.invalid, out)
  else
    match r.find? name with
    | none        => some (.notFound, out)
    | some (_, c) => if c.state = .deleted then some (.state, out) else readCgroup files c.cgroupPath out

end

-- A rate that cannot be computed is negative.
def cpuPercent [DoubleArith δ] (prev cur : Snapshot δ) (elapsedMs : Int) : δ :=
  if !prev.valid || !cur.valid || !prev.hasCpu || !cur.hasCpu then
    DoubleArith.minusOne
  else if elapsedMs ≤ 0 then
    DoubleArith.minusOne
  else if cur.cpuUsageUsec < prev.cpuUsageUsec then
    DoubleArith.minusOne
  else
    let delta := Double.ofULong (cur.cpuUsageUsec - prev.cpuUsageUsec)
    let elapsed := Double.mul (Double.ofULong (UInt64.ofNat elapsedMs.toNat)) (Double.ofULong 1000)
    Double.mul (Double.div delta elapsed) (Double.ofULong 100)

end Bridge
end NexusDb
