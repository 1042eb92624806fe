import CryptixMiner.Miner.Site

/-! The manager with its threads at the grain of the watch channel: `new`, `process_block` and `drop` of `MinerManager`
    in `src/miner.rs`, with the freeze handler, each thread on a receiver of its own, and the submission task with the
    bounded channel to the connection; one atomic step of one of them at a time. -/

namespace CryptixMiner

/-- What a step of a call comes to for the thread that made it. -/
inductive Watch.Told where
  | closed
  | loaded
  | unchanged
  | cloned
  deriving DecidableEq

namespace Watch
variable {α : Type}

/-- What the next step of a receiver comes to, when it decides the call or reads the id. -/
def Receiver.tells (s : Shared α) (r : Receiver α) : Option Told :=
  match r.pc with
  | .alive _ => if s.senderAlive then none else some .closed
  | .load site =>
    if site ≠ .woken ∧ r.lastObserved = s.id then if site = .getChanged then some .unchanged else none
    else some .loaded
  | .clone _ => some .cloned
  | .idle | .acquire | .enqueue | .waiting | .reacquire | .release => none

end Watch

namespace Miner

/-- The two calls of a thread's loop. -/
inductive Call where
  | waitForChange
  | getChanged
  deriving DecidableEq

namespace Thread

/-- The call that the loop is at. -/
def call : Thread → Option Call
  | .cpu w =>
    match w.pc, w.state with
    | .head, none => some .waitForChange
    | .poll, _ => some .getChanged
    | .head, some _ | .stopped, _ => none
  | .gpu g =>
    match g.pc, g.state with
    | .head, none => some .waitForChange
    | .poll, _ => some .getChanged
    | .head, some _ | .clone, _ | .stopped, _ => none

def stopped : Thread → Bool
  | .cpu w => w.pc == .stopped
  | .gpu g => g.pc == .stopped

end Thread

/-- What a thread makes of a step of its call; a GPU thread goes by the id that its receiver had observed. -/
def Site.tell (x : Site) (k : Nat) (lastObserved : UInt64) (told : Watch.Told) : Option Site :=
  match x.threads k with
  | .cpu w =>
    match told with
    | .closed => x.cpuReply k w .closed
    | .loaded => some x
    | .unchanged => x.cpuReply k w .unchanged
    | .cloned => x.cpuReply k w .changed
  | .gpu g =>
    x.gpuChannel k { g with channel := x.channel, senderAlive := told != .closed, lastObserved := lastObserved }

/-- Where the manager is: at work, in the last `send`, at the joins, or in the drop of its sender. -/
inductive ManagerPc where
  | mining
  | closing
  | joining
  | dropping
  deriving DecidableEq

/-- The submission task has `held` a message since it took the block until the channel has room for it, and `outgoing`
    messages wait there for the connection. -/
structure Outlet where
  held : Bool
  outgoing : Nat
  capacity : Nat

namespace Outlet

/-- `PollSender` waits until there is room. -/
def relay (o : Outlet) : Option Outlet :=
  if o.held ∧ o.outgoing < o.capacity then some { o with held := false, outgoing := o.outgoing + 1 } else none

def drain (o : Outlet) : Option Outlet := if 0 < o.outgoing then some { o with outgoing := o.outgoing - 1 } else none

def post (o : Outlet) : Option Outlet :=
  if o.outgoing < o.capacity then some { o with outgoing := o.outgoing + 1 } else none

end Outlet

/-- `handles`, the one that is popped next first; thread `k` has receiver `k`. The freeze handler has `killed` threads,
    or `aborted` the process. -/
structure Crew where
  watch : Watch.Channel (Command RpcBlock)
  site : Site
  handles : List Nat
  pc : ManagerPc
  outlet : Outlet
  killed : List Nat
  aborted : Bool

inductive CrewAction where
  | process (block : Option (BlockSeed RpcBlock))
  | drop
  /-- The manager goes on with a `send` or with the drop. -/
  | manager
  /-- A thread starts the call its loop is at. -/
  | call (k : Nat)
  /-- A step of that call. -/
  | channel (k : Nat)
  | work (k : Nat) (a : ThreadAction)
  /-- The closure of a thread returns. -/
  | exit (k : Nat)
  | spurious (k : Nat)
  /-- The submission task takes a block. -/
  | forward
  /-- The channel has room for what the task holds. -/
  | relay
  /-- The connection takes a message. -/
  | drain
  /-- The client sends a message of its own. -/
  | post
  /-- The submission task ends. -/
  | closeQueue
  /-- A join has taken a second. -/
  | freeze (aborts : Bool)

namespace CrewAction

/-- The thread that takes the step. -/
def thread? : CrewAction → Option Nat
  | .call k | .channel k | .work k _ | .exit k | .spurious k => some k
  | .process _ | .drop | .manager | .forward | .relay | .drain | .post | .closeQueue | .freeze _ => none

def freezes : CrewAction → Bool
  | .freeze _ => true
  | _ => false

end CrewAction

namespace Crew

/-- `MinerManager::new` with `n` threads, on a channel with this capacity. -/
def start (n capacity : Nat) (kinds : Nat → UInt64 ⊕ Bool) : Crew where
  watch := Watch.spawned none n
  site := .start kinds
  handles := (List.range' 1 n).reverse
  pc := .mining
  outlet := ⟨false, 0, capacity⟩
  killed := []
  aborted := false

def setWatch (s : Crew) (c : Watch.Channel (Command RpcBlock)) : Crew :=
  { s with
    watch := c
    site := { s.site with channel := c.shared.toPublished, senderAlive := c.shared.senderAlive } }

def watchStep (s : Crew) (a : Watch.Action (Command RpcBlock)) : Option Crew := (Watch.step s.watch a).map s.setWatch

/-- `process_block` between two sends; the send fails when no receiver is left. -/
def process (E : Setting) (s : Crew) (block : Option (BlockSeed RpcBlock)) : Option Crew :=
  match s.pc, s.watch.sender with
  | .mining, .idle =>
    let manager := ({ s.site.manager with sent := none }.processBlock E.checks E.digest E.generate
      (s.watch.shared.receiversCount != 0) block).2
    let s := { s with site := { s.site with manager := manager } }
    match manager.sent with
    | some command => s.watchStep (.send command)
    | none => some s
  | _, _ => none

def drop (s : Crew) : Option Crew :=
  match s.pc, s.watch.sender with
  | .mining, .idle =>
    { s with site := { s.site with managerAlive := false }, pc := .closing }.watchStep (.send (some .close))
  | _, _ => none

/-- The thread has dropped its receiver, which is the last thing it does, or is killed. -/
def gone (s : Crew) (k : Nat) : Bool := (s.watch.rx k).isNone || s.killed.contains k

def manager (s : Crew) : Option Crew :=
  match s.pc with
  | .mining | .dropping => s.watchStep .sender
  | .closing =>
    match s.watch.sender with
    | .idle => some { s with pc := .joining }
    | _ => s.watchStep .sender
  | .joining =>
    match s.handles with
    | k :: rest => if s.gone k then some { s with handles := rest } else none
    | [] => { s with pc := .dropping }.watchStep .drop

def call (s : Crew) (k : Nat) : Option Crew :=
  match (s.site.threads k).call with
  | some .waitForChange => s.watchStep (.waitForChange k)
  | some .getChanged => s.watchStep (.getChanged k)
  | none => none

def channel (s : Crew) (k : Nat) : Option Crew := do
  let r ← s.watch.rx k
  match r.tells s.watch.shared with
  | some told =>
    let site ← s.site.tell k r.lastObserved told
    { s with site := site }.watchStep (.receiver k)
  | none => s.watchStep (.receiver k)

def work (E : Setting) (s : Crew) (k : Nat) (a : ThreadAction) : Option Crew :=
  match s.watch.idleRx k, a with
  | some _, .hash | some _, .launch .. | some _, .unwind => (s.site.stepThread E k a).map fun site => { s with site := site }
  | _, _ => none

/-- The client's own messages go through the same channel; while it drops the manager it sends none. -/
def post (s : Crew) : Option Crew :=
  match s.pc, s.watch.sender with
  | .mining, .idle => s.outlet.post.map fun outlet => { s with outlet := outlet }
  | _, _ => none

/-- The next block is taken when the message of the last one is on its way. -/
def forward (s : Crew) : Option Crew :=
  if s.outlet.held then none
  else s.site.forward.map fun next => { s with site := next.2, outlet := { s.outlet with held := true } }

def closeQueue (s : Crew) : Option Crew :=
  if s.site.queueOpen then some { s with site := s.site.closeQueue, outlet := { s.outlet with held := false } } else none

/-- The freeze handler of a join that still waits: a panic in a C function ends the process, `TerminateThread` the
    thread alone. -/
def freeze (s : Crew) (aborts : Bool) : Option Crew :=
  match s.pc, s.handles with
  | .joining, k :: _ =>
    if s.gone k then none
    else some (if aborts then { s with aborted := true } else { s with killed := k :: s.killed })
  | _, _ => none

def act (E : Setting) (s : Crew) : CrewAction → Option Crew
  | .process block => s.process E block
  | .drop => s.drop
  | .manager => s.manager
  | .call k => s.call k
  | .channel k => s.channel k
  | .work k a => s.work E k a
  | .exit k => if (s.site.threads k).stopped then s.watchStep (.dropReceiver k) else none
  | .spurious k => s.watchStep (.spurious k)
  | .forward => s.forward
  | .relay => s.outlet.relay.map fun outlet => { s with outlet := outlet }
  | .drain => s.outlet.drain.map fun outlet => { s with outlet := outlet }
  | .post => s.post
  | .closeQueue => s.closeQueue
  | .freeze aborts => s.freeze aborts

/-- A killed thread takes no step, and nobody does in a process that is aborted. -/
def step (E : Setting) (s : Crew) (a : CrewAction) : Option Crew :=
  if s.aborted || a.thread?.any s.killed.contains then none else s.act E a

/-- The drop has returned. -/
def done (s : Crew) : Prop := s.pc = .dropping ∧ s.watch.sender matches .dropped

instance (s : Crew) : Decidable s.done := inferInstanceAs (Decidable (s.pc = .dropping ∧ _))

end Crew
end Miner
end CryptixMiner
