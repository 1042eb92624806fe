import CryptixMiner.Lib.StepSystem
import CryptixMiner.Pow.State
import CryptixMiner.Watch.Channel

/-! The worker loops of `src/miner.rs`, cut where they call the channel. What the channel replies, what a
    launch comes to and whether a nonce meets the target are the actions; `hashed`, `log`, `loaded` and
    `jobVersion` record the run and steer nothing. -/

namespace CryptixMiner

/-- `if let BlockSeed::FullBlock(_) = block_seed`. -/
def BlockSeed.isFull {Block : Type} : BlockSeed Block → Bool
  | .fullBlock _ => true
  | .partialBlock .. => false

namespace Miner

inductive WorkerCommand (Block : Type) where
  | job (s : State Block)
  | close

/-- What the channel carries; `none` while the node is not synced. -/
abbrev Command (Block : Type) := Option (WorkerCommand Block)

/-- A job of a pool with this partition; its header and matrix do not matter here. -/
def poolJob (nonceMask nonceFixed : UInt64) : State Unit :=
  State.ofParts { header := fun _ => none, generate := fun _ => ⟨Vector.replicate 64 (Vector.replicate 64 0)⟩ } 0
    (.partialBlock "job" ⟨#v[0, 0, 0, 0]⟩ 0 0 ⟨#v[0, 0, 0, 0]⟩ nonceMask nonceFixed none) ⟨#v[0, 0, 0, 0]⟩ 0
    ⟨#v[0, 0, 0, 0]⟩ nonceMask nonceFixed

/-- The same with a target that every hash meets. -/
def easyJob (nonceMask nonceFixed : UInt64) : State Unit :=
  let target : Uint256 := ⟨Vector.replicate 4 0xffffffffffffffff⟩
  State.ofParts { header := fun _ => none, generate := fun _ => ⟨Vector.replicate 64 (Vector.replicate 64 0)⟩ } 0
    (.partialBlock "job" ⟨Vector.replicate 4 0⟩ 0 0 target nonceMask nonceFixed none) ⟨Vector.replicate 4 0⟩ 0
    target nonceMask nonceFixed

inductive ChannelClosed where
  | mk

/-! ### `launch_cpu_miner` -/

inductive CpuPc where
  | head
  | poll
  | stopped
  deriving DecidableEq

structure CpuWorker (Block : Type) where
  state : Option (State Block)
  nonce : UInt64
  mask : UInt64
  fixed : UInt64
  pc : CpuPc
  hashed : List (State Block × UInt64)

inductive CpuAction (Block : Type) where
  | waitForChange (reply : Except ChannelClosed (Command Block))
  | hash (found : Bool)
  | getChanged (reply : Except ChannelClosed (Option (Command Block)))

namespace CpuWorker
variable {Block : Type}

def start (nonce : UInt64) : CpuWorker Block where
  state := none
  nonce := nonce
  mask := 0
  fixed := 0
  pc := .head
  hashed := []

/-- `state = match wait_for_change() { .. }`, and the mask and fixed bits of the job. -/
def receive (w : CpuWorker Block) : Except ChannelClosed (Command Block) → CpuWorker Block
  | .error _ | .ok (some .close) => { w with pc := .stopped }
  | .ok (some (.job s)) => { w with state := some s, mask := s.nonceMask, fixed := s.nonceFixed }
  | .ok none => { w with state := none }

/-- The block a nonce that was found goes into is the one of the state. -/
def hash (w : CpuWorker Block) (s : State Block) (found : Bool) : CpuWorker Block :=
  let nonce := (w.nonce &&& w.mask) ||| w.fixed
  { w with
    state := if found && s.block.isFull then none else some s
    nonce := nonce + 1
    pc := if (nonce + 1) % 128 = 0 then .poll else .head
    hashed := (s, nonce) :: w.hashed }

/-- `if let Some(new_cmd) = get_changed()? { state = .. }`. -/
def poll (w : CpuWorker Block) : Except ChannelClosed (Option (Command Block)) → CpuWorker Block
  | .error _ | .ok (some (some .close)) => { w with pc := .stopped }
  | .ok none => { w with pc := .head }
  | .ok (some (some (.job s))) => { w with state := some s, pc := .head }
  | .ok (some none) => { w with state := none, pc := .head }

def step (w : CpuWorker Block) (a : CpuAction Block) : Option (CpuWorker Block) :=
  match w.pc, w.state, a with
  | .head, none, .waitForChange reply => some (w.receive reply)
  | .head, some s, .hash found => some (w.hash s found)
  | .poll, _, .getChanged reply => some (w.poll reply)
  | _, _, _ => none

end CpuWorker

/-! ### `launch_gpu_miner` -/

/-- What a launch comes to: the closure panics; `sync` or `copy_output_to` fails; the cell is 0, or holds a
    nonce that is good, or one that is not. -/
inductive RunResult where
  | panicked
  | syncError
  | outputError
  | noNonce
  | share
  | wrongNonce
  deriving DecidableEq

inductive GpuPc where
  | head
  | clone
  | poll
  | stopped
  deriving DecidableEq

inductive GpuEvent where
  | polled
  | panicked
  | launched (jobVersion version : Nat) (full : Bool) (result : RunResult)
  deriving DecidableEq

/-- A worker with its side of the channel: what is published, and the id it last observed. -/
structure GpuWorker (Block : Type) where
  channel : Watch.Published (Command Block)
  senderAlive : Bool
  lastObserved : UInt64
  state : Option (State Block)
  fallback : Bool
  pc : GpuPc
  loaded : Nat
  jobVersion : Nat
  log : List GpuEvent

inductive GpuAction (Block : Type) where
  | publish (cmd : Command Block)
  | dropSender
  | worker (result : RunResult) (builds : Bool)

namespace GpuWorker
variable {Block : Type}

def start (init : Command Block) (fallback : Bool) : GpuWorker Block where
  channel := { value := init, id := 1, version := 1 }
  senderAlive := true
  lastObserved := 0
  state := none
  fallback := fallback
  pc := .head
  loaded := 0
  jobVersion := 0
  log := []

/-- The id is loaded; the value is cloned in a step of its own. -/
def load (w : GpuWorker Block) : GpuWorker Block :=
  { w with lastObserved := w.channel.id, loaded := w.channel.version, pc := .clone, log := .polled :: w.log }

/-- `fallback_spec.take()` and its build; without a fallback the loop goes `otherwise`. -/
def useFallback (w : GpuWorker Block) (builds : Bool) (otherwise : GpuPc) : GpuWorker Block :=
  if w.fallback then { w with fallback := false, pc := if builds then .head else .stopped }
  else { w with pc := otherwise }

def launch (w : GpuWorker Block) (s : State Block) (result : RunResult) (builds : Bool) : GpuWorker Block :=
  let launched : GpuWorker Block :=
    { w with log := .launched w.jobVersion w.channel.version s.block.isFull result :: w.log }
  match result with
  | .panicked => { w with log := .panicked :: w.log }.useFallback builds .stopped
  | .syncError => launched.useFallback builds .head
  | .outputError => launched.useFallback builds .stopped
  | .noNonce => { launched with pc := .poll }
  | .share => { launched with state := if s.block.isFull then none else some s, pc := .head }
  | .wrongNonce => { launched with pc := .stopped }

/-- The reply of `wait_for_change` or `get_changed` becomes the state. -/
def receive (w : GpuWorker Block) : GpuWorker Block :=
  match w.channel.value with
  | some (.job s) => { w with state := some s, jobVersion := w.channel.version, pc := .head }
  | some .close => { w with pc := .stopped }
  | none => { w with state := none, pc := .head }

def step (w : GpuWorker Block) : GpuAction Block → Option (GpuWorker Block)
  | .publish cmd => some { w with channel := w.channel.replaceValue cmd }
  | .dropSender => some { w with senderAlive := false }
  | .worker result builds =>
    match w.pc, w.state with
    -- When `wait_for_change` returns is up to the channel; a late notification may end it early.
    | .head, none => some (if w.senderAlive then w.load else { w with pc := .stopped })
    | .head, some s => some (w.launch s result builds)
    | .clone, _ => some w.receive
    | .poll, _ =>
      if w.senderAlive then
        some (if w.lastObserved = w.channel.id then { w with pc := .head, log := .polled :: w.log } else w.load)
      else some { w with pc := .stopped }
    | .stopped, _ => none

end GpuWorker
end Miner
end CryptixMiner
