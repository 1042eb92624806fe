import CryptixMiner.Lib.StepSystem

/-! The autotuner of a CUDA GPU, `src/plugins/cuda/src/autotune.rs`, in a release build. What the channel, the worker
    and the device reply is a `Tick`; `calls` records what the device is asked and steers nothing. -/

namespace CryptixMiner.Autotune

/-! ### Integers -/

/-- `u32::saturating_sub`. -/
def saturatingSub (a b : UInt32) : UInt32 := if b ≤ a then a - b else 0

/-- `as u32` of a wider signed integer. -/
def asU32 (i : Int) : UInt32 := UInt32.ofNat (i % 0x100000000).toNat

/-- `Ord::clamp`. -/
def clamp (i lo hi : Int) : Int := if i < lo then lo else if hi < i then hi else i

/-! ### The setting of a GPU -/

structure AutotuneConfig where
  intervalSecs : UInt64
  stepW : UInt32
  minPowerW : Option UInt32
  maxPowerW : Option UInt32
  maxTempC : UInt32

structure OverClock where
  cudaPowerLimits : Option (List UInt32)
  cudaAutotune : Bool
  cudaAutotuneIntervalSecs : UInt64
  cudaAutotunePowerStepWatts : UInt32
  cudaAutotuneMinPowerWatts : Option (List UInt32)
  cudaAutotuneMaxPowerWatts : Option (List UInt32)
  cudaAutotuneMaxTempC : UInt32

def pickIndexed (values : Option (List UInt32)) (i : Nat) : Option UInt32 :=
  match values with
  | some v => if i < v.length then v[i]? else v.getLast?
  | none => none

def buildAutotuneSetting (overclock : OverClock) (i : Nat) : Option AutotuneConfig :=
  if !overclock.cudaAutotune then none
  else
    let minPowerW := pickIndexed overclock.cudaAutotuneMinPowerWatts i
    let maxPowerW := pickIndexed overclock.cudaAutotuneMaxPowerWatts i
    let maxPowerW := if maxPowerW.isNone then pickIndexed overclock.cudaPowerLimits i else maxPowerW
    some
      { intervalSecs := overclock.cudaAutotuneIntervalSecs
        stepW := max overclock.cudaAutotunePowerStepWatts 1
        minPowerW := minPowerW
        maxPowerW := maxPowerW
        maxTempC := overclock.cudaAutotuneMaxTempC }

/-! ### The worker's sample -/

/-- `Duration`, in nanoseconds. -/
abbrev Duration := Nat

def fromSecs (secs : Nat) : Duration := secs * 1000000000

def fromMillis (millis : Nat) : Duration := millis * 1000000

structure AutotuneShared where
  lastHashrateBits : UInt64
  lastSampleMs : UInt64

namespace AutotuneShared

def new : AutotuneShared := ⟨0, 0⟩

/-- `elapsed` is the time since `start`. -/
def recordSample (shared : AutotuneShared) (hashes elapsedSecs : Float) (elapsed : Duration) : AutotuneShared :=
  if elapsedSecs ≤ 0 ∨ hashes ≤ 0 then shared
  else { lastHashrateBits := (hashes / elapsedSecs).toBits, lastSampleMs := max (UInt64.ofNat (elapsed / 1000000)) 1 }

def latest (shared : AutotuneShared) (elapsed : Duration) : Option (Float × Duration) :=
  if shared.lastSampleMs = 0 then none
  else some (Float.ofBits shared.lastHashrateBits, elapsed - fromMillis shared.lastSampleMs.toNat)

end AutotuneShared

/-! ### `run_autotune_loop` -/

/-- It is only printed. -/
inductive NvmlError where
  | mk

structure PowerManagementConstraints where
  minLimit : UInt32
  maxLimit : UInt32

inductive RecvTimeoutError where
  | timeout
  | disconnected

/-- What an iteration meets; a reply that it does not ask for is not looked at. -/
structure Tick where
  shutdown : Except RecvTimeoutError Unit
  shared : AutotuneShared
  elapsed : Duration
  temperature : Except NvmlError UInt32
  powerUsage : Except NvmlError UInt32
  applied : Except NvmlError Unit

inductive DeviceCall where
  | temperature (reply : Except NvmlError UInt32)
  | powerUsage (reply : Except NvmlError UInt32)
  | setPowerManagementLimit (limitMw : UInt32) (reply : Except NvmlError Unit)

def hardMinMw (config : AutotuneConfig) (constraints : PowerManagementConstraints) : UInt32 :=
  max ((config.minPowerW.map (· * 1000)).getD constraints.minLimit) constraints.minLimit

def hardMaxMw (config : AutotuneConfig) (constraints : PowerManagementConstraints) : UInt32 :=
  min ((config.maxPowerW.map (· * 1000)).getD constraints.maxLimit) constraints.maxLimit

def stepMw (config : AutotuneConfig) : Int := (max config.stepW 1 * 1000).toNat

/-- The variables of the loop; it goes on while `running`. -/
structure Tuner where
  hardMinMw : UInt32
  hardMaxMw : UInt32
  stepMw : Int
  currentLimitMw : UInt32
  bestScore : Option Float
  direction : Int
  consecutiveErrors : UInt32
  running : Bool

namespace Tuner

def start (config : AutotuneConfig) (constraints : PowerManagementConstraints) (limit : UInt32) : Tuner where
  hardMinMw := Autotune.hardMinMw config constraints
  hardMaxMw := Autotune.hardMaxMw config constraints
  stepMw := Autotune.stepMw config
  currentLimitMw := limit
  bestScore := none
  direction := -Autotune.stepMw config
  consecutiveErrors := 0
  running := true

/-- What stands before the loop; `none` where it returns. -/
def setUp (config : AutotuneConfig) (init deviceByIndex : Except NvmlError Unit)
    (constraints : Except NvmlError PowerManagementConstraints) (limit : Except NvmlError UInt32) : Option Tuner :=
  match init, deviceByIndex, constraints, limit with
  | .ok (), .ok (), .ok constraints, .ok limit =>
    if Autotune.hardMinMw config constraints ≥ Autotune.hardMaxMw config constraints then none
    else some (start config constraints limit)
  | _, _, _, _ => none

def safeLimit (s : Tuner) : UInt32 := max s.hardMinMw (saturatingSub s.currentLimitMw (asU32 s.stepMw))

def safetyOverride (s : Tuner) (applied : Except NvmlError Unit) : Tuner × List DeviceCall :=
  let s' := match applied with
    | .ok () => { s with currentLimitMw := s.safeLimit, bestScore := none }
    | .error _ => s
  (s', [.setPowerManagementLimit s.safeLimit applied])

/-- A score that does not beat the last one turns the climb. -/
def scored (s : Tuner) (score : Float) : Tuner :=
  let direction := match s.bestScore with
    | some prev => if score ≤ prev then -s.direction else s.direction
    | none => s.direction
  { s with direction := direction, bestScore := some score }

def clamped (s : Tuner) : UInt32 :=
  let proposed := (s.currentLimitMw.toNat : Int) + s.direction
  asU32 (clamp proposed s.hardMinMw.toNat s.hardMaxMw.toNat)

def hillClimb (s : Tuner) (hashrate : Float) (powerMw : UInt32) (applied : Except NvmlError Unit) :
    Tuner × List DeviceCall :=
  let s := s.scored (hashrate / (powerMw.toFloat / 1000))
  if s.clamped = s.currentLimitMw then ({ s with direction := -s.direction }, [])
  else
    let s' := match applied with
      | .ok () => { s with currentLimitMw := s.clamped, consecutiveErrors := 0 }
      | .error _ =>
        { s with consecutiveErrors := s.consecutiveErrors + 1, running := !decide (s.consecutiveErrors + 1 ≥ 5) }
    (s', [.setPowerManagementLimit s.clamped applied])

/-- An iteration after its temperature has been read. -/
def act (config : AutotuneConfig) (s : Tuner) (hashrate : Float) (tempC : UInt32) (tick : Tick) :
    Tuner × List DeviceCall :=
  if tempC ≥ config.maxTempC then s.safetyOverride tick.applied
  else
    match tick.powerUsage with
    | .error e => (s, [.powerUsage (.error e)])
    | .ok powerMw =>
      if powerMw = 0 then (s, [.powerUsage (.ok powerMw)])
      else
        let r := s.hillClimb hashrate powerMw tick.applied
        (r.1, .powerUsage (.ok powerMw) :: r.2)

def iterate (config : AutotuneConfig) (s : Tuner) (tick : Tick) : Tuner × List DeviceCall :=
  match tick.shutdown with
  | .ok () | .error .disconnected => ({ s with running := false }, [])
  | .error .timeout =>
    match tick.shared.latest tick.elapsed with
    | none => (s, [])
    | some (hashrate, age) =>
      -- `saturating_mul(3)` and `max(30)`
      if age > fromSecs (max (min (config.intervalSecs.toNat * 3) 0xffffffffffffffff) 30) then (s, [])
      else
        match tick.temperature with
        | .error e => (s, [.temperature (.error e)])
        | .ok tempC =>
          let r := s.act config hashrate tempC tick
          (r.1, .temperature (.ok tempC) :: r.2)

end Tuner

structure Autotuner where
  tuner : Tuner
  calls : List DeviceCall

namespace Autotuner

def start (config : AutotuneConfig) (constraints : PowerManagementConstraints) (limit : UInt32) : Autotuner :=
  ⟨.start config constraints limit, []⟩

def step (config : AutotuneConfig) (s : Autotuner) (tick : Tick) : Option Autotuner :=
  if s.tuner.running then
    let r := s.tuner.iterate config tick
    some ⟨r.1, s.calls ++ r.2⟩
  else none

end Autotuner
end CryptixMiner.Autotune
