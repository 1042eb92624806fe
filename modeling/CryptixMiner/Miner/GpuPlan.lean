import CryptixMiner.Lib.KeyedMap
import CryptixMiner.Lib.Text

/-! Which workers `src/miner.rs` starts for the devices that the plugins found: a device that both plugins see is
    to have one worker, with the other as its fallback. -/

namespace CryptixMiner.Miner
open KeyedMap

/-! ### Names of devices -/

def isCudaId (id : List Char) : Bool := decide ('(' ∈ id) && decide (')' ∈ id)

/-- Places are those of characters; as both parentheses take one byte, the test is the same on bytes. -/
def normalizeGpuName (id : List Char) : List Char :=
  let trimmed := Text.trim id
  let base :=
    match Text.find '(' trimmed, Text.rfind ')' trimmed with
    | some start, some stop => if start + 1 < stop then Text.slice trimmed (start + 1) stop else trimmed
    | _, _ => if trimmed.head? = some '#' then (Text.afterFirst ' ' trimmed).getD trimmed else trimmed
  Text.toAsciiLowercase (Text.trim base)

def gpuSlot (id : List Char) : List Char :=
  let trimmed := Text.trim id
  if trimmed.head? = some '#' then Text.toAsciiLowercase (Text.firstWord trimmed) else []

def nvidiaMatchKey (id : List Char) : List Char := gpuSlot id ++ '|' :: normalizeGpuName id

def isNvidia (id : List Char) : Bool := Text.contains (normalizeGpuName id) "nvidia".toList

/-! ### The plan -/

/-- What the first loop sorts the specs into. -/
structure Routed (Spec : Type) where
  planned : List (Spec × Option Spec)
  nvidiaOpenclPrimary : Map (List Char) Spec
  nvidiaCudaFallbacks : Map (List Char) Spec

section
variable {Spec : Type} (id : Spec → List Char)

def route (r : Routed Spec) (spec : Spec) : Routed Spec :=
  if !isNvidia (id spec) then { r with planned := r.planned ++ [(spec, none)] }
  else if isCudaId (id spec) then
    { r with nvidiaCudaFallbacks := orInsert r.nvidiaCudaFallbacks (nvidiaMatchKey (id spec)) spec }
  else { r with nvidiaOpenclPrimary := orInsert r.nvidiaOpenclPrimary (nvidiaMatchKey (id spec)) spec }

def routed (specs : List Spec) : Routed Spec := specs.foldl (route id) ⟨[], ∅, ∅⟩

/-- The maps are iterated over in the orders `opencl` and `cuda`. -/
def planGpuSpecs (opencl cuda : Order (Sigma fun _ : List Char => Spec)) (specs : List Spec) :
    List (Spec × Option Spec) :=
  let r := routed id specs
  let (planned, cudaLeft) := pairUp r.planned r.nvidiaCudaFallbacks (opencl.order r.nvidiaOpenclPrimary.entries)
  planned ++ (cuda.order cudaLeft.entries).map fun e => (e.2, none)

end

/-! ### Ids of the two plugins -/

/-- A spec of the OpenCL plugin or of the CUDA one, with the number and the name of its device. -/
inductive GpuSpec where
  | opencl (index : Nat) (name : List Char)
  | cuda (deviceId : Nat) (name : List Char)
  deriving DecidableEq

def GpuSpec.number : GpuSpec → Nat
  | .opencl index _ => index
  | .cuda deviceId _ => deviceId

def GpuSpec.name : GpuSpec → List Char
  | .opencl _ name | .cuda _ name => name

def GpuSpec.isCuda : GpuSpec → Bool
  | .opencl .. => false
  | .cuda .. => true

def GpuSpec.id : GpuSpec → List Char
  | .opencl index name => '#' :: (Text.decimal index ++ ' ' :: name)
  | .cuda deviceId name => '#' :: (Text.decimal deviceId ++ ' ' :: '(' :: (name ++ [')']))

end CryptixMiner.Miner
