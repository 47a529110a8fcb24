import NexusDb.Bridge.ResourceMonitor

namespace NexusDb

structure BenchConfig where
  scenario        : Option Text := some "default".toList
  containerName   : Text        := "nexusbench".toList
  dbPath          : Option Text := some "data/benchmark.db".toList
  enginePath      : Option Text := some []
  limitMb         : UInt64      := 512
  pageCount       : UInt64      := 4096
  iterations      : UInt64      := 4096
  sampleEvery     : UInt64      := 32
  poolFramesStart : UInt64      := 256
  dirtyEvery      : UInt64      := 8
  random          : Bool        := false
  randomSeed      : UInt64      := 1
  manageContainer : Bool        := true

-- The callbacks of a workload, which work on its context. A callback can be missing.
structure BenchWorkload (ω : Type) where
  «open»   : Option (ω → BenchConfig → Rc × ω)
  step     : Option (ω → UInt64 → Rc × Bool × ω)
  capacity : Option (ω → UInt64)
  resident : Option (ω → UInt64)
  pinned   : Option (ω → UInt64)
  resize   : Option (ω → UInt64 → Rc × ω)
  close    : Option (ω → ω)

-- A sampler fills the snapshot that it is given.
abbrev Sampler (δ κ : Type) := κ → Snapshot δ → Rc × Snapshot δ × κ

structure PoolStats where
  startFrames    : UInt64 := 0
  endFrames      : UInt64 := 0
  minFrames      : UInt64 := 0
  maxFrames      : UInt64 := 0
  residentLast   : UInt64 := 0
  pinnedLast     : UInt64 := 0
  growRequests   : UInt64 := 0
  shrinkRequests : UInt64 := 0
  holdDecisions  : UInt64 := 0
  failedResizes  : UInt64 := 0

structure ResourceStats (δ : Type) where
  samples           : UInt64 := 0
  sawLimit          : Bool   := false
  memoryMaxBytes    : UInt64 := 0
  memoryCurrentLast : UInt64 := 0
  pressureMin       : δ
  pressureMax       : δ
  pressureLast      : δ
  haveCpu           : Bool   := false
  cpuPercentMin     : δ
  cpuPercentMax     : δ
  cpuPercentAvg     : δ

structure BenchResult (δ : Type) where
  scenario          : Text
  limitMb           : UInt64
  pageCount         : UInt64
  iterations        : UInt64
  sampleEvery       : UInt64
  poolFramesStart   : UInt64
  dirtyEvery        : UInt64
  random            : Bool
  randomSeed        : UInt64
  containerManaged  : Bool
  selfBoundToCgroup : Bool   := false
  stepsRun          : UInt64 := 0
  cacheHits         : UInt64 := 0
  cacheMisses       : UInt64 := 0
  hitRatio          : δ
  fetchErrors       : UInt64 := 0
  fetchMsMin        : δ
  fetchMsMax        : δ
  fetchMsAvg        : δ
  fetchMsTotal      : δ
  pool              : PoolStats := {}
  resource          : ResourceStats δ

-- What the benchmark meets: the monotonic clock and the files of the cgroups each time the clock is read, the primitives
-- of the calls on the container, and whether the process could join its cgroup.
structure BenchEnv (δ : Type) where
  now       : Nat → δ
  files     : Nat → Text → Option Text
  create    : Primitives
  stopOld   : Primitives
  deleteOld : Primitives
  recreate  : Primitives
  bindSelf  : Bool
  start     : Primitives
  stop      : Primitives
  delete    : Primitives

-- The state of a run. `ticks` counts how often the clock was read.
structure BenchRun (δ ω κ : Type) where
  ctx          : ω
  samplerCtx   : κ
  res          : BenchResult δ
  policy       : Policy := {}
  prev         : Option (Snapshot δ × δ) := none
  havePressure : Bool   := false
  haveCpu      : Bool   := false
  haveLatency  : Bool   := false
  cpuSum       : δ
  cpuCount     : UInt64 := 0
  ticks        : Nat    := 0

namespace Bench

open Container (pathMax)

def copyLabel (len : Nat) (src : Option Text) : Text :=
  (src.getD "unnamed".toList).take (len - 1)

def capacity (wl : BenchWorkload ω) (ctx : ω) : UInt64 :=
  wl.capacity.elim 0 (· ctx)

-- The request that the policy makes. The frames are counted even when it fails.
def resizeRequest (wl : BenchWorkload ω) : ω × PoolStats → UInt64 → Rc × ω × PoolStats
  | (ctx, pool), target =>
    match wl.resize with
    | none        => (.process, ctx, pool)
    | some resize =>
      let (status, ctx) := resize ctx target
      let cap := capacity wl ctx
      let pool := if cap > pool.maxFrames then { pool with maxFrames := cap } else pool
      let pool := if cap < pool.minFrames then { pool with minFrames := cap } else pool
      (status, ctx, pool)

def finishPool (wl : BenchWorkload ω) (ctx : ω) (pool : PoolStats) : PoolStats :=
  let cap := capacity wl ctx
  let pool := { pool with endFrames := cap }
  let pool := if cap > pool.maxFrames then { pool with maxFrames := cap } else pool
  let pool := if cap < pool.minFrames then { pool with minFrames := cap } else pool
  let pool := wl.resident.elim pool fun resident => { pool with residentLast := resident ctx }
  wl.pinned.elim pool fun pinned => { pool with pinnedLast := pinned ctx }

section

variable [DoubleArith δ]

def notePressure (r : BenchRun δ ω κ) (pressure : δ) : BenchRun δ ω κ :=
  let s := r.res.resource
  let s :=
    if !r.havePressure then
      { s with pressureMin := pressure }
    else if Double.lt pressure s.pressureMin then
      { s with pressureMin := pressure }
    else
      s
  let s := if Double.lt s.pressureMax pressure then { s with pressureMax := pressure } else s
  { r with havePressure := true, res := { r.res with resource := { s with pressureLast := pressure } } }

def noteMemory (r : BenchRun δ ω κ) (snap : Snapshot δ) : BenchRun δ ω κ :=
  let s := r.res.resource
  let s := if snap.hasLimit then { s with sawLimit := true, memoryMaxBytes := snap.memoryMax } else s
  { r with res := { r.res with resource := { s with memoryCurrentLast := snap.memoryCurrent } } }

def notePercent (r : BenchRun δ ω κ) (pct : δ) : BenchRun δ ω κ :=
  if Double.le Double.zero pct then
    let s := r.res.resource
    let s :=
      if !r.haveCpu then
        { s with cpuPercentMin := pct, cpuPercentMax := pct }
      else
        let s := if Double.lt pct s.cpuPercentMin then { s with cpuPercentMin := pct } else s
        if Double.lt s.cpuPercentMax pct then { s with cpuPercentMax := pct } else s
    { r with
      haveCpu  := true
      cpuSum   := DoubleArith.add r.cpuSum pct
      cpuCount := r.cpuCount + 1
      res      := { r.res with resource := { s with haveCpu := true } } }
  else
    r

def noteCpu (r : BenchRun δ ω κ) (snap : Snapshot δ) (t : δ) : Mem (BenchRun δ ω κ) :=
  match r.prev with
  | none           => some r
  | some (prev, t') =>
    if snap.hasCpu then
      match DoubleArith.toLongLong (DoubleArith.sub t t') with
      | none         => none
      | some elapsed => some (notePercent r (Bridge.cpuPercent prev snap elapsed))
    else
      some r

-- Only a valid reading is the baseline of the next rate.
def noteSnapshot (r : BenchRun δ ω κ) («have» : Bool) (snap : Snapshot δ) (t : δ) : Mem (BenchRun δ ω κ) :=
  if «have» && snap.valid then
    match noteCpu (noteMemory (notePressure r snap.memoryPressure) snap) snap t with
    | none   => none
    | some r => some { r with prev := some (snap, t) }
  else
    some { r with prev := none }

-- The reading of a sample, and whether there is one.
def takeSnapshot (cfg : BenchConfig) (env : BenchEnv δ) (registry : Registry) (sampler : Option (Sampler δ κ))
    (r : BenchRun δ ω κ) : Mem (Bool × Snapshot δ × κ) :=
  match sampler with
  | some sampler =>
    let (rc, snap, κ) := sampler r.samplerCtx .zero
    some (rc = .ok, snap, κ)
  | none         =>
    match Bridge.readContainer registry (env.files r.ticks) cfg.containerName .zero with
    | none            => none
    | some (rc, snap) => some (rc = .ok, snap, r.samplerCtx)

def countDecision (pool : PoolStats) (rc : Rc) (action : AdaptAction) : PoolStats :=
  let pool := if rc ≠ .ok then { pool with failedResizes := pool.failedResizes + 1 } else pool
  match action with
  | .grow   => { pool with growRequests := pool.growRequests + 1 }
  | .shrink => { pool with shrinkRequests := pool.shrinkRequests + 1 }
  | .hold   => { pool with holdDecisions := pool.holdDecisions + 1 }

-- The policy gets the reading even when there is none. It then looks at a snapshot of zeros.
def adapt [OfScientific δ] (wl : BenchWorkload ω) (r : BenchRun δ ω κ) (snap : Snapshot δ) : BenchRun δ ω κ :=
  let (rc, policy, dec, ctx, pool) := r.policy.apply Policy.configDefault (some snap.toResourceSnapshot)
    (capacity wl r.ctx) (some (resizeRequest wl)) (r.ctx, r.res.pool)
  { r with policy, ctx, res := { r.res with pool := countDecision pool rc dec.action } }

def sample [OfScientific δ] (cfg : BenchConfig) (wl : BenchWorkload ω) (env : BenchEnv δ) (registry : Registry)
    (sampler : Option (Sampler δ κ)) (r : BenchRun δ ω κ) : Mem (BenchRun δ ω κ) :=
  match takeSnapshot cfg env registry sampler r with
  | none                           => none
  | some («have», snap, samplerCtx) =>
    let resource := { r.res.resource with samples := r.res.resource.samples + 1 }
    let t := env.now r.ticks
    match noteSnapshot { r with samplerCtx, ticks := r.ticks + 1, res := { r.res with resource } } «have» snap t with
    | none   => none
    | some r => some (adapt wl r snap)

def noteLatency (r : BenchRun δ ω κ) (lat : δ) : BenchRun δ ω κ :=
  let res := r.res
  let res :=
    if !r.haveLatency then
      { res with fetchMsMin := lat, fetchMsMax := lat }
    else
      let res := if Double.lt lat res.fetchMsMin then { res with fetchMsMin := lat } else res
      if Double.lt res.fetchMsMax lat then { res with fetchMsMax := lat } else res
  { r with haveLatency := true, res := { res with fetchMsTotal := DoubleArith.add res.fetchMsTotal lat } }

def step (env : BenchEnv δ) (wlStep : ω → UInt64 → Rc × Bool × ω) (i : UInt64) (r : BenchRun δ ω κ) :
    BenchRun δ ω κ :=
  let (s, hit, ctx) := wlStep r.ctx i
  let lat := DoubleArith.sub (env.now (r.ticks + 1)) (env.now r.ticks)
  let r := { r with ctx, ticks := r.ticks + 2 }
  if s ≠ .ok then
    { r with res := { r.res with fetchErrors := r.res.fetchErrors + 1 } }
  else
    let res := { r.res with stepsRun := r.res.stepsRun + 1 }
    let res :=
      if hit then { res with cacheHits := res.cacheHits + 1 } else { res with cacheMisses := res.cacheMisses + 1 }
    noteLatency { r with res } lat

def every (cfg : BenchConfig) : UInt64 :=
  if cfg.sampleEvery = 0 then 1 else cfg.sampleEvery

-- The loop of the benchmark, with `n` iterations to go.
def loop [OfScientific δ] (cfg : BenchConfig) (wl : BenchWorkload ω) (env : BenchEnv δ) (registry : Registry)
    (sampler : Option (Sampler δ κ)) (wlStep : ω → UInt64 → Rc × Bool × ω) :
    Nat → UInt64 → BenchRun δ ω κ → Mem (BenchRun δ ω κ)
  | 0,     _, r => some r
  | n + 1, i, r =>
    match if i % every cfg = 0 then sample cfg wl env registry sampler r else some r with
    | none   => none
    | some r => loop cfg wl env registry sampler wlStep n (i + 1) (step env wlStep i r)

def finish (wl : BenchWorkload ω) (r : BenchRun δ ω κ) : BenchResult δ :=
  let res : BenchResult δ := { r.res with pool := finishPool wl r.ctx r.res.pool }
  let res :=
    if res.stepsRun > 0 then
      { res with fetchMsAvg := Double.div res.fetchMsTotal (Double.ofULong res.stepsRun) }
    else
      res
  let accesses := res.cacheHits + res.cacheMisses
  let res :=
    if accesses > 0 then
      { res with hitRatio := Double.div (Double.ofULong res.cacheHits) (Double.ofULong accesses) }
    else
      res
  if r.cpuCount > 0 then
    { res with resource := { res.resource with cpuPercentAvg := Double.div r.cpuSum (Double.ofULong r.cpuCount) } }
  else
    res

def begin (cfg : BenchConfig) : BenchResult δ where
  scenario         := copyLabel 64 cfg.scenario
  limitMb          := cfg.limitMb
  pageCount        := cfg.pageCount
  iterations       := cfg.iterations
  sampleEvery      := cfg.sampleEvery
  poolFramesStart  := cfg.poolFramesStart
  dirtyEvery       := cfg.dirtyEvery
  random           := cfg.random
  randomSeed       := cfg.randomSeed
  containerManaged := cfg.manageContainer
  hitRatio         := DoubleArith.minusOne
  fetchMsMin       := Double.zero
  fetchMsMax       := Double.zero
  fetchMsAvg       := Double.zero
  fetchMsTotal     := Double.zero
  resource         :=
    { pressureMin   := Double.zero
      pressureMax   := Double.zero
      pressureLast  := Double.zero
      cpuPercentMin := Double.zero
      cpuPercentMax := Double.zero
      cpuPercentAvg := Double.zero }

-- The container is stopped and deleted, whatever these calls return.
def cleanup (cfg : BenchConfig) (env : BenchEnv δ) (registry : Registry) : Registry :=
  let (_, _, registry) := registry.containerStop cfg.containerName env.stop
  let (_, _, registry) := registry.containerDelete cfg.containerName env.delete
  registry

-- A container of an earlier run is replaced. The result says whether the process has joined the cgroup.
def createContainer (cfg : BenchConfig) (env : BenchEnv δ) (registry : Registry) : Rc × Registry :=
  let bytes := cfg.limitMb * 1024 * 1024
  match registry.containerCreateEx cfg.containerName bytes 50 cfg.enginePath none env.create with
  | (.alreadyExists, registry) =>
    let (_, _, registry) := registry.containerStop cfg.containerName env.stopOld
    let (_, _, registry) := registry.containerDelete cfg.containerName env.deleteOld
    registry.containerCreateEx cfg.containerName bytes 50 cfg.enginePath none env.recreate
  | created => created

def enterContainer (cfg : BenchConfig) (env : BenchEnv δ) (registry : Registry) : Rc × Bool × Registry :=
  match createContainer cfg env registry with
  | (.ok, registry) =>
    match registry.find? cfg.containerName with
    | none        => (.state, false, registry)
    | some (_, c) =>
      let cgroupPath := copyLabel pathMax (some c.cgroupPath)
      let bound := cgroupPath ≠ [] && env.bindSelf
      match registry.containerStart cfg.containerName env.start with
      | (.ok, _, registry) => (.ok, bound, registry)
      | (rc, _, registry)  => (rc, bound, cleanup cfg env registry)
  | (rc, registry)  => (rc, false, registry)

-- `out` is what the caller has there before.
def run [OfScientific δ] (cfg : BenchConfig) (wl : BenchWorkload ω) (env : BenchEnv δ) (registry : Registry)
    (sampler : Option (Sampler δ κ)) (samplerCtx : κ) (ctx : ω) (out : BenchResult δ) :
    Mem (Rc × BenchResult δ × ω × Registry) :=
  match wl.open, wl.step, wl.close with
  | some wlOpen, some wlStep, some wlClose =>
    if !cfg.manageContainer && sampler.isNone then
      some (.invalid, out, ctx, registry)
    else
      let out := begin cfg
      let (rc, bound, registry) :=
        if cfg.manageContainer then enterContainer cfg env registry else (.ok, false, registry)
      let out := { out with selfBoundToCgroup := bound }
      if rc ≠ .ok then
        some (rc, out, ctx, registry)
      else
        match wlOpen ctx cfg with
        | (.ok, ctx) =>
          let frames := capacity wl ctx
          let pool := { out.pool with startFrames := frames, minFrames := frames, maxFrames := frames }
          let r : BenchRun δ ω κ := { ctx, samplerCtx, res := { out with pool }, cpuSum := Double.zero }
          match loop cfg wl env registry sampler wlStep cfg.iterations.toNat 0 r with
          | none   => none
          | some r =>
            match sample cfg wl env registry sampler r with
            | none   => none
            | some r =>
              some (.ok, finish wl r, wlClose r.ctx, if cfg.manageContainer then cleanup cfg env registry else registry)
        | (rc, ctx)  =>
          some (rc, out, ctx, if cfg.manageContainer then cleanup cfg env registry else registry)
  | _, _, _ => some (.invalid, out, ctx, registry)

end

end Bench
end NexusDb
