import NexusDb.General.Double
import NexusDb.Container.Container
import NexusDb.Buffer.BufferPool

namespace NexusDb

structure PolicyConfig (δ : Type) where
  shrinkThreshold : δ
  growThreshold   : δ
  poolFraction    : δ
  pageSize        : UInt64
  minFrames       : UInt64
  maxFrames       : UInt64
  maxStepDown     : UInt64
  maxStepUp       : UInt64

inductive AdaptAction
  | hold
  | grow
  | shrink
deriving DecidableEq

inductive AdaptReason
  | ok
  | noMetrics
  | unlimited
  | withinBand
  | atMin
  | atMax
  | duplicate
  | requestFailed
  | invalidConfig
deriving DecidableEq

structure ResourceSnapshot (δ : Type) where
  valid          : Bool
  hasMemory      : Bool
  hasLimit       : Bool
  memoryMax      : UInt64
  memoryPressure : δ

structure AdaptDecision (δ : Type) where
  action       : AdaptAction
  targetFrames : UInt64
  pressure     : δ
  reason       : AdaptReason

-- The last target that was requested.
structure Policy where
  lastTarget : UInt64 := 0
  haveLast   : Bool   := false

namespace Policy

abbrev ulongMax : UInt64 := 18446744073709551615

def subFloor (a b : UInt64) : UInt64 :=
  if a > b then a - b else 0

def addSat (a b : UInt64) : UInt64 :=
  if a > ulongMax - b then ulongMax else a + b

section

variable [Double δ]

def configDefault [OfScientific δ] : PolicyConfig δ where
  shrinkThreshold := 0.85
  growThreshold   := 0.60
  poolFraction    := 0.6
  pageSize        := 4096
  minFrames       := 16
  maxFrames       := 0
  maxStepDown     := 256
  maxStepUp       := 256

def configValid (cfg : PolicyConfig δ) : Bool :=
  if !Double.lt Double.zero cfg.shrinkThreshold then
    false
  else if Double.lt cfg.growThreshold Double.zero then
    false
  else if Double.le cfg.shrinkThreshold cfg.growThreshold then
    false
  else if !(Double.lt Double.zero cfg.poolFraction && Double.le cfg.poolFraction Double.one) then
    false
  else if cfg.pageSize = 0 then
    false
  else if cfg.minFrames = 0 then
    false
  else if cfg.maxFrames ≠ 0 ∧ cfg.maxFrames < cfg.minFrames then
    false
  else if cfg.maxStepDown = 0 ∧ cfg.maxStepUp = 0 then
    false
  else
    true

-- The frames that the limit allows before they are clamped.
def rawCeiling (cfg : PolicyConfig δ) (limitBytes : UInt64) : UInt64 :=
  let limitFrames := Double.div (Double.ofULong limitBytes) (Double.ofULong cfg.pageSize)
  let ceiling := Double.mul limitFrames cfg.poolFraction
  if Double.le (Double.ofULong ulongMax) ceiling then ulongMax else Double.toULong ceiling

def ceilingFrames (cfg : PolicyConfig δ) (limitBytes : UInt64) : UInt64 :=
  let ceiling := rawCeiling cfg limitBytes
  let ceiling := if ceiling < cfg.minFrames then cfg.minFrames else ceiling
  if cfg.maxFrames ≠ 0 ∧ ceiling > cfg.maxFrames then cfg.maxFrames else ceiling

-- The targets of a step down and of a step up.
def shrinkTarget (cfg : PolicyConfig δ) (currentFrames : UInt64) : UInt64 :=
  let target := subFloor currentFrames cfg.maxStepDown
  if target < cfg.minFrames then cfg.minFrames else target

def growTarget (cfg : PolicyConfig δ) (ceiling currentFrames : UInt64) : UInt64 :=
  let target := addSat currentFrames cfg.maxStepUp
  if target > ceiling then ceiling else target

def pressureOf (snapshot : ResourceSnapshot δ) : δ :=
  if Double.lt snapshot.memoryPressure Double.zero then Double.zero else snapshot.memoryPressure

def evaluate (policy : Policy) (cfg : PolicyConfig δ) (snapshot : Option (ResourceSnapshot δ))
    (currentFrames : UInt64) : Rc × Policy × AdaptDecision δ :=
  let hold := fun (rc : Rc) (pressure : δ) reason =>
    (rc, policy, AdaptDecision.mk .hold currentFrames pressure reason)
  -- A target that was just requested is not requested again.
  let issue := fun action target pressure =>
    if policy.haveLast ∧ policy.lastTarget = target then
      hold .ok pressure .duplicate
    else
      (.ok, { lastTarget := target, haveLast := true }, ⟨action, target, pressure, .ok⟩)
  if !configValid cfg then
    hold .invalid Double.zero .invalidConfig
  else
    match snapshot with
    | none          => hold .ok Double.zero .noMetrics
    | some snapshot =>
      if !snapshot.valid || !snapshot.hasMemory then
        hold .ok Double.zero .noMetrics
      else
        let pressure := pressureOf snapshot
        if !snapshot.hasLimit then
          hold .ok pressure .unlimited
        else
          let ceiling := ceilingFrames cfg snapshot.memoryMax
          if Double.le cfg.shrinkThreshold pressure then
            let target := shrinkTarget cfg currentFrames
            if target ≥ currentFrames then hold .ok pressure .atMin else issue .shrink target pressure
          else if Double.le pressure cfg.growThreshold then
            if currentFrames ≥ ceiling then
              hold .ok pressure .atMax
            else
              let target := growTarget cfg ceiling currentFrames
              if target ≤ currentFrames then hold .ok pressure .atMax else issue .grow target pressure
          else
            hold .ok pressure .withinBand

-- `request` asks for a number of frames. It works on its own context, such as a buffer pool.
def apply (policy : Policy) (cfg : PolicyConfig δ) (snapshot : Option (ResourceSnapshot δ))
    (currentFrames : UInt64) (request : Option (κ → UInt64 → Rc × κ)) (context : κ) :
    Rc × Policy × AdaptDecision δ × κ :=
  let (rc, policy, out) := policy.evaluate cfg snapshot currentFrames
  if rc ≠ .ok then
    (rc, policy, out, context)
  else if out.action = .hold then
    (.ok, policy, out, context)
  else
    match request with
    | none         => (.invalid, policy, out, context)
    | some request =>
      let (rc, context) := request context out.targetFrames
      if rc ≠ .ok then
        -- The target was not applied and can be requested again.
        (rc, {}, { out with reason := .requestFailed }, context)
      else
        (.ok, policy, out, context)

end

end Policy

-- The policy next to the capacity that it controls, which is the context of its requests.
structure Adaptation where
  policy   : Policy
  capacity : UInt64

namespace Adaptation

-- A request that ends with this code: the capacity becomes the target when it succeeds.
def request (rc : Rc) (capacity target : UInt64) : Rc × UInt64 :=
  (rc, if rc = .ok then target else capacity)

def step [Double δ] (cfg : PolicyConfig δ) (a : Adaptation) (snapshot : Option (ResourceSnapshot δ)) (rc : Rc) :
    AdaptDecision δ × Adaptation :=
  let (_, policy, out, capacity) :=
    a.policy.apply cfg snapshot a.capacity (some (request rc)) a.capacity
  (out, { policy, capacity })

def run [Double δ] (cfg : PolicyConfig δ) (a : Adaptation) :
    List (Option (ResourceSnapshot δ) × Rc) → Adaptation
  | []                   => a
  | (snapshot, rc) :: xs => (a.step cfg snapshot rc).snd.run cfg xs

-- The decisions of calls whose configurations may differ.
def loop [Double δ] (a : Adaptation) :
    List (PolicyConfig δ × Option (ResourceSnapshot δ) × Rc) → List (AdaptDecision δ) × Adaptation
  | []                        => ([], a)
  | (cfg, snapshot, rc) :: xs =>
    let (d, a) := a.step cfg snapshot rc
    let (ds, a) := a.loop xs
    (d :: ds, a)

end Adaptation

-- The adapter between the policy and a pool.
def bufferPoolRequest [Device σ] (alloc : Allocation) (pool : BufferPool σ) (targetFrames : UInt64) :
    Rc × BufferPool σ :=
  if targetFrames = 0 then
    (.invalid, pool)
  else
    match pool.resize alloc targetFrames.toNat with
    | (.ok (), pool)   => (.ok, pool)
    | (.error _, pool) => (.process, pool)

-- A pool that is under the control of the policy.
structure AdaptivePool (σ : Type) where
  policy : Policy
  pool   : BufferPool σ

namespace AdaptivePool

variable [Double δ] [Device σ]

def step (cfg : PolicyConfig δ) (a : AdaptivePool σ) (snapshot : Option (ResourceSnapshot δ))
    (alloc : Allocation) : AdaptivePool σ :=
  let (_, policy, _, pool) :=
    a.policy.apply cfg snapshot (UInt64.ofNat a.pool.capacity) (some (bufferPoolRequest alloc)) a.pool
  { policy, pool }

def run (cfg : PolicyConfig δ) (a : AdaptivePool σ) :
    List (Option (ResourceSnapshot δ) × Allocation) → AdaptivePool σ
  | []                      => a
  | (snapshot, alloc) :: xs => (a.step cfg snapshot alloc).run cfg xs

end AdaptivePool
end NexusDb
