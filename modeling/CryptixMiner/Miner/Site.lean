import CryptixMiner.Miner.Solution

/-! Everything between a client and its submission task, in `src/miner.rs`: the manager, the channel of the jobs, the
    worker threads, and the queue of what they found. One step of one of them at a time; what a device reports is up
    to the device, and a thread that the freeze handler kills takes no further step. `log` records the run and steers
    nothing. -/

namespace CryptixMiner.Miner

/-- What a build and its machine fix. -/
structure Setting where
  checks : Bool
  digest : List UInt8 → Hash
  generate : Hash → Matrix
  primitives : Primitives
  useAvx2 : Bool
  /-- The date of a timestamp, where the calendar reaches. -/
  date : UInt64 → Option String

namespace Setting

def newOrPanic (E : Setting) (id : Nat) (seed : BlockSeed RpcBlock) : Option (Except String (State RpcBlock)) :=
  State.newOrPanic E.checks E.digest E.generate id seed

def generateBlockIfPow (E : Setting) (s : State RpcBlock) (nonce : UInt64) : Option (Option (BlockSeed RpcBlock)) :=
  s.generateBlockIfPow E.primitives E.useAvx2 nonce

end Setting

inductive Thread where
  | cpu (w : CpuWorker RpcBlock)
  | gpu (w : GpuWorker RpcBlock)

/-- What `wait_for_change` or `get_changed` comes to. -/
inductive Reply where
  | changed
  | unchanged
  | closed
  deriving DecidableEq

/-- What a launch, `sync` and `copy_output_to` come to, where `catch_unwind` or a `Result` tells the thread of it; the
    cell of the nonce may hold anything. -/
inductive Report where
  | panicked
  | syncError
  | outputError
  | cell (nonce : UInt64)
  deriving DecidableEq

inductive ThreadAction where
  | reply (r : Reply)
  | hash
  | launch (report : Report) (builds : Bool)
  /-- A GPU thread at the channel. -/
  | channel
  /-- The worker of a GPU thread was not built, or panics in `sync`, `copy_output_to` or `id`, where nothing catches it. -/
  | unwind
  deriving DecidableEq

inductive Event where
  | took (k : Nat)
  | handed (k : Nat) (b : BlockSeed RpcBlock)
  | sent (b : BlockSeed RpcBlock)
  | panicked (k : Nat) (b : Option (BlockSeed RpcBlock))
  | unwound (k : Nat)

/-- `managerAlive` until the manager is dropped, `senderAlive` until its side of the channel is, and `queueOpen` while
    the submission task takes blocks. -/
structure Site where
  manager : MinerManager
  managerAlive : Bool
  channel : Watch.Published (Command RpcBlock)
  senderAlive : Bool
  threads : Nat → Thread
  queueOpen : Bool
  queue : List (BlockSeed RpcBlock)
  log : List Event

namespace Site

/-- `MinerManager::new`, with the CPU and GPU threads that `kinds` says; a CPU thread draws its first nonce. -/
def start (kinds : Nat → UInt64 ⊕ Bool) : Site where
  manager := { isSynced := true, currentStateId := 0, sent := none }
  managerAlive := true
  channel := { value := none, id := 1, version := 1 }
  senderAlive := true
  threads k := match kinds k with
    | .inl nonce => .cpu (.start nonce)
    | .inr fallback => .gpu (.start none fallback)
  queueOpen := true
  queue := []
  log := []

def publish (x : Site) (command : Command RpcBlock) : Site := { x with channel := x.channel.replaceValue command }

/-- `process_block`; the command that it sends, if it does, is published. -/
def process (E : Setting) (x : Site) (delivered : Bool) (block : Option (BlockSeed RpcBlock)) : ProcessOutcome × Site :=
  let (outcome, manager) :=
    { x.manager with sent := none }.processBlock E.checks E.digest E.generate delivered block
  let x := { x with manager := manager }
  (outcome, match manager.sent with
    | some command => x.publish command
    | none => x)

def setThread (x : Site) (k : Nat) (t : Thread) : Site := { x with threads := Function.update x.threads k t }

/-- A job that the thread has now, and not before, is one it took. -/
def took (x : Site) (k : Nat) (job : Bool) : Site := if job then { x with log := .took k :: x.log } else x

/-- `blocking_send` waits until the one place of the queue is free; then the block is reported, or the send has
    failed. The thread dies where the report panics. -/
def handOver (E : Setting) (x : Site) (k : Nat) (b : BlockSeed RpcBlock) (next dead : Thread) : Option Site :=
  if x.queueOpen then
    if x.queue = [] then
      let x := { x with queue := [b], log := .handed k b :: x.log }
      match b.reportBlock E.digest E.date with
      | some _ => some (x.setThread k next)
      | none => some ({ x with log := .panicked k (some b) :: x.log }.setThread k dead)
    else none
  else some (x.setThread k next)

/-- What the channel holds is a job. -/
def offersJob (x : Site) : Bool :=
  match x.channel.value with
  | some (.job _) => true
  | _ => false

/-- The call that a CPU thread is in, and what it returns. -/
def cpuCall (x : Site) (w : CpuWorker RpcBlock) (r : Reply) : Option (CpuAction RpcBlock) :=
  match w.pc, r with
  | .head, .changed => some (.waitForChange (.ok x.channel.value))
  | .head, .closed => if x.senderAlive then none else some (.waitForChange (.error .mk))
  | .poll, .changed => some (.getChanged (.ok (some x.channel.value)))
  | .poll, .unchanged => some (.getChanged (.ok none))
  | .poll, .closed => if x.senderAlive then none else some (.getChanged (.error .mk))
  | .head, .unchanged | .stopped, _ => none

def cpuReply (x : Site) (k : Nat) (w : CpuWorker RpcBlock) (r : Reply) : Option Site := do
  let action ← x.cpuCall w r
  let w' ← w.step action
  return (x.took k (x.offersJob && r == .changed)).setThread k (.cpu w')

/-- One round of a CPU thread. -/
def cpuHash (E : Setting) (x : Site) (k : Nat) (w : CpuWorker RpcBlock) : Option Site :=
  match w.pc, w.state with
  | .head, some s =>
    match E.generateBlockIfPow s ((w.nonce &&& w.mask) ||| w.fixed) with
    | none => some ({ x with log := .panicked k none :: x.log }.setThread k (.cpu { w with state := none, pc := .stopped }))
    | some none => some (x.setThread k (.cpu (w.hash s false)))
    | some (some b) => x.handOver E k b (.cpu (w.hash s true)) (.cpu { w with state := none, pc := .stopped })
  | _, _ => none

/-- One launch of a GPU thread, and what the host makes of the nonce. -/
def gpuLaunch (E : Setting) (x : Site) (k : Nat) (w : GpuWorker RpcBlock) (report : Report) (builds : Bool) :
    Option Site :=
  match w.pc, w.state with
  | .head, some s =>
    let next (result : RunResult) : Thread := .gpu (w.launch s result builds)
    match report with
    | .panicked => some (x.setThread k (next .panicked))
    | .syncError => some (x.setThread k (next .syncError))
    | .outputError => some (x.setThread k (next .outputError))
    | .cell nonce =>
      if nonce = 0 then some (x.setThread k (next .noNonce))
      else
        match E.generateBlockIfPow s nonce with
        | none => some ({ x with log := .panicked k none :: x.log }.setThread k (.gpu { w with state := none, pc := .stopped }))
        | some none => some (x.setThread k (next .wrongNonce))
        | some (some b) => x.handOver E k b (next .share) (.gpu { w with state := none, pc := .stopped })
  | _, _ => none

/-- The thread ends with its worker. -/
def gpuUnwind (x : Site) (k : Nat) (w : GpuWorker RpcBlock) : Option Site :=
  match w.pc with
  | .head => some ({ x with log := .unwound k :: x.log }.setThread k (.gpu { w with state := none, pc := .stopped }))
  | .clone | .poll | .stopped => none

/-- A GPU thread waits for a job or polls, or clones what it was told of. -/
def gpuChannel (x : Site) (k : Nat) (w : GpuWorker RpcBlock) : Option Site :=
  match w.pc, w.state with
  | .head, some _ => none
  | _, _ => (w.step (.worker .noNonce false)).map fun w' =>
    (x.took k (x.offersJob && w.pc == .clone)).setThread k (.gpu w')

def stepThread (E : Setting) (x : Site) (k : Nat) (a : ThreadAction) : Option Site :=
  match x.threads k, a with
  | .cpu w, .reply r => x.cpuReply k w r
  | .cpu w, .hash => x.cpuHash E k w
  | .gpu w, .launch report builds =>
    x.gpuLaunch E k { w with channel := x.channel, senderAlive := x.senderAlive } report builds
  | .gpu w, .channel => x.gpuChannel k { w with channel := x.channel, senderAlive := x.senderAlive }
  | .gpu w, .unwind => x.gpuUnwind k w
  | _, _ => none

/-- The manager is dropped: the threads are told to close, if any listens. -/
def drop (x : Site) (delivered : Bool) : Site :=
  let x := { x with managerAlive := false }
  if delivered then x.publish (some .close) else x

/-- The manager's side of the channel goes last. -/
def dropSender (x : Site) : Option Site := if x.managerAlive then none else some { x with senderAlive := false }

def closeQueue (x : Site) : Site := { x with queueOpen := false, queue := [] }

/-- The submission task takes the block that has waited longest. -/
def forward (x : Site) : Option (BlockSeed RpcBlock × Site) :=
  match x.queue with
  | b :: rest => some (b, { x with queue := rest, log := .sent b :: x.log })
  | [] => none

end Site
end CryptixMiner.Miner
