import CryptixMiner.Client.Submission
import CryptixMiner.Launch.CudaWorker
import CryptixMiner.Launch.OpenClWorker

/-! The GPU threads on their workers. What a thread reads from the cell is what the launch has left there, for the job
    that was loaded; a launch that fails may leave anything in the memory of the device. -/

namespace CryptixMiner
namespace Miner

/-- The worker of a thread. -/
inductive Device where
  | cuda (w : Cuda.CudaGPUWorker)
  | openCl (w : OpenCl.LaunchingWorker)

/-- What a launch depends on beside its job: the random word that `calculate_hash` may draw, what the copies of the
    matrix held, and the order in which the threads take their steps. -/
structure Chance where
  nextU64 : UInt64
  uninit : Nat → Bytes 4096
  order : List Nat

/-- What is in the memory of a device after a launch that failed. -/
structure Wreck where
  states : Nat → UInt64
  finalNonce : UInt64
  finalHash : Vector UInt64 4
  hashHeader : Bytes 72
  matrix : Bytes 4096
  target : Uint256

namespace Device

/-- `load_to_gpu`, `pow_gpu`, `sync` and `copy_output_to`, where all goes well. -/
def launch (s : State RpcBlock) (c : Chance) : Device → Option (UInt64 × Device)
  | .cuda w => (s.powCuda (s.loadToCuda w) c.nextU64 c.uninit c.order).map fun w' => (w'.copyOutputTo, .cuda w')
  | .openCl w => (s.powOpenCl (s.loadToOpenCl w) c.nextU64 c.uninit c.order).map fun w' => (w'.copyOutputTo, .openCl w')

def wreck (left : Wreck) : Device → Device
  | .cuda w => .cuda { w with
      randState := left.states, finalNonceBuff := left.finalNonce, hashHeader := left.hashHeader
      matrix := left.matrix, target := left.target.words }
  | .openCl w => .openCl { w with
      randomState := left.states, finalNonce := left.finalNonce, finalHash := left.finalHash
      hashHeader := left.hashHeader, matrix := left.matrix, target := left.target }

end Device

/-- The workers of the threads, and those that their fallbacks build. -/
structure Rig where
  device : Nat → Device
  spare : Nat → Device

/-- How the launch of a step goes. -/
inductive DeviceAction where
  | completes (c : Chance)
  | fails (left : Wreck)

namespace Rig

def setDevice (r : Rig) (k : Nat) (d : Device) : Rig := { r with device := Function.update r.device k d }

/-- A nonce is reported where it was read; after a failure the thread goes on with its fallback, if it has one. -/
def launch (r : Rig) (k : Nat) (w : GpuWorker RpcBlock) (report : Report) (a : DeviceAction) : Option Rig :=
  match report, w.state, a with
  | .cell nonce, some s, .completes c =>
    match (r.device k).launch s c with
    | some (read, d) => if read = nonce then some (r.setDevice k d) else none
    | none => none
  | .cell _, _, _ => none
  | _, _, .fails left => some (r.setDevice k (if w.fallback then r.spare k else (r.device k).wreck left))
  | _, _, .completes _ => none

def step (r : Rig) (x : Site) (a : DeviceAction) : SiteAction → Option Rig
  | .thread k (.launch report _) =>
    match x.threads k with
    | .gpu w => r.launch k w report a
    | .cpu _ => none
  | _ => some r

end Rig
end Miner

/-! ### A node and a pool, with the workers of the threads -/

/-- An action of a session with what the device of a launch does, and the workers that a new connection builds. -/
structure Miner.RigAction (A : Type) where
  action : A
  device : DeviceAction
  built : Rig

namespace Grpc
open Miner (Rig RigAction Setting)

structure RigSession where
  session : Session
  rig : Rig

namespace RigSession

def nextRig (s : RigSession) (a : RigAction SessionAction) : Option Rig :=
  match a.action with
  | .client .connect _ _ => some a.built
  | .site b => s.rig.step s.session.site a.device b
  | _ => some s.rig

def step (opt : Opt) (S : Semver) (E : Setting) (s : RigSession) (a : RigAction SessionAction) : Option RigSession := do
  let session ← s.session.step opt S E a.action
  let rig ← s.nextRig a
  return ⟨session, rig⟩

end RigSession

end Grpc

namespace Stratum
open Miner (Rig RigAction Setting)

structure RigSession where
  session : Session
  rig : Rig

namespace RigSession

def nextRig (s : RigSession) (a : RigAction SessionAction) : Option Rig :=
  match a.action with
  | .client .connect _ => some a.built
  | .site b => s.rig.step s.session.site a.device b
  | _ => some s.rig

def step (opt : Opt) (E : Setting) (s : RigSession) (a : RigAction SessionAction) : Option RigSession := do
  let session ← s.session.step opt E a.action
  let rig ← s.nextRig a
  return ⟨session, rig⟩

end RigSession

end Stratum
end CryptixMiner
