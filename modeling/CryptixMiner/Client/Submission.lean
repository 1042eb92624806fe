import CryptixMiner.Client.Grpc
import CryptixMiner.Client.Session
import CryptixMiner.Miner.Site

/-! The clients with their miners: what a node or a pool sends becomes jobs, and what the threads find is sent back by
    `create_block_channel` of `src/client/grpc.rs` and `src/client/stratum.rs`. `blocks` and `lines` record what was
    sent, newest first, `past` how the miners of earlier connections ended, and `unreachable` that one of the two
    `unreachable!` was reached. -/

namespace CryptixMiner
open Miner (Setting Site ThreadAction)

/-- What goes on beside the messages of the client. -/
inductive Miner.SiteAction where
  | thread (k : Nat) (a : ThreadAction)
  | drop (delivered : Bool)
  | dropSender
  | closeQueue

/-- The manager is dropped when the client has ended. -/
def Miner.Site.step (E : Setting) (x : Site) (connected : Bool) : SiteAction → Option Site
  | .thread k a => x.stepThread E k a
  | .drop delivered => if connected then none else some (x.drop delivered)
  | .dropSender => x.dropSender
  | .closeQueue => some x.closeQueue

/-- The miners by themselves: what the manager is given, and what goes on beside it. -/
inductive Miner.SiteMove where
  | process (delivered : Bool) (block : Option (BlockSeed RpcBlock))
  | act (a : SiteAction)
  | forward

def Miner.Site.move (E : Setting) (x : Site) : SiteMove → Option Site
  | .process delivered block => if x.managerAlive then some (x.process E delivered block).2 else none
  | .act a => x.step E false a
  | .forward => x.forward.map Prod.snd

/-! ### A node -/

namespace Grpc

def Outcome.ofProcess : Miner.ProcessOutcome → Outcome
  | .ok => .ok
  | .err text => .err (.process text)
  | .panicked => .panicked

structure Session where
  process : Process
  site : Site
  past : List Site
  blocks : List RpcBlock
  unreachable : Bool

inductive SessionAction where
  | client (a : Action RpcBlock) (delivered : Bool) (kinds : Nat → UInt64 ⊕ Bool)
  | site (a : Miner.SiteAction)
  | forward

namespace Session

def start (blockTemplateCtr : UInt16) (kinds : Nat → UInt64 ⊕ Bool) : Session where
  process := .start blockTemplateCtr
  site := .start kinds
  past := []
  blocks := []
  unreachable := false

/-- What `handle_message` gives to `process_block`; the answers say what that comes to. -/
def receive (S : Semver) (E : Setting) (s : Session) (h : CryptixdHandler) (payload : Payload RpcBlock) (answers : Answers)
    (delivered : Bool) (process : Process) : Option Session :=
  match (h.handleMessage S answers s.process.blockTemplateCtr payload).given with
  | none => some { s with process := process }
  | some block =>
    let (outcome, site) := s.site.process E delivered (block.map .fullBlock)
    if answers.processed = .ofProcess outcome then some { s with process := process, site := site } else none

/-- A new client has a manager, threads and a queue of its own. -/
def client (opt : Opt) (S : Semver) (E : Setting) (s : Session) (a : Action RpcBlock) (delivered : Bool)
    (kinds : Nat → UInt64 ⊕ Bool) : Option Session := do
  let process ← s.process.step opt S a
  match a, s.process.handler with
  | .connect, _ => some { s with process := process, site := .start kinds, past := s.site :: s.past }
  | .receive (some payload) answers, some h => s.receive S E h payload answers delivered process
  | _, _ => some { s with process := process }

def step (opt : Opt) (S : Semver) (E : Setting) (s : Session) : SessionAction → Option Session
  | .client a delivered kinds => s.client opt S E a delivered kinds
  | .site a => (s.site.step E s.process.handler.isSome a).map fun site => { s with site := site }
  | .forward => s.site.forward.map fun
    | (.fullBlock block, site) => { s with site := site, blocks := block :: s.blocks }
    | (.partialBlock .., site) => { s with site := site, unreachable := true }

end Session
end Grpc

/-! ### A pool -/

/-- The jobs of a pool are never whole blocks. -/
def BlockSeed.ofPool : BlockSeed Empty → BlockSeed RpcBlock
  | .fullBlock block => block.elim
  | .partialBlock id headerHash timestamp nonce target nonceMask nonceFixed hash =>
    .partialBlock id headerHash timestamp nonce target nonceMask nonceFixed hash

namespace Stratum

/-- `MiningSubmitShort`, with the id of the message. -/
structure MiningSubmit where
  msgId : UInt32
  submitWorker : String
  jobId : String
  nonce : String
  deriving DecidableEq

structure Session where
  process : Process
  site : Site
  past : List Site
  lines : List MiningSubmit
  unreachable : Bool

inductive SessionAction where
  | client (a : Action) (kinds : Nat → UInt64 ⊕ Bool)
  | site (a : Miner.SiteAction)
  | forward

namespace Session

def start (blockTemplateCtr : UInt16) (kinds : Nat → UInt64 ⊕ Bool) : Session where
  process := .start blockTemplateCtr
  site := .start kinds
  past := []
  lines := []
  unreachable := false

def receive (E : Setting) (s : Session) (h : StratumHandler) (line : StratumLine) (delivered : Bool) (process : Process) :
    Session :=
  match (h.handleMessage E.checks delivered s.process.shared line).seed with
  | none => { s with process := process }
  | some seed => { s with process := process, site := (s.site.process E delivered (some seed.ofPool)).2 }

/-- The shares are sent by the submission task alone. -/
def client (opt : Opt) (E : Setting) (s : Session) (a : Action) (kinds : Nat → UInt64 ⊕ Bool) : Option Session := do
  let process ← s.process.step opt E.checks a
  match a, s.process.handler with
  | .connect, _ => some { s with process := process, site := .start kinds, past := s.site :: s.past }
  | .receive line delivered, some h => some (s.receive E h line delivered process)
  | .submit _, _ => none
  | _, _ => some { s with process := process }

/-- `create_block_channel`, with the share that it inserts. -/
def forward (opt : Opt) (E : Setting) (s : Session) : Option Session := do
  let h ← s.process.handler
  let (b, site) ← s.site.forward
  match b with
  | .fullBlock _ => some { s with site := site, unreachable := true }
  | .partialBlock id _ _ nonce .. =>
    let process ← s.process.step opt E.checks (.submit id)
    let line := { msgId := h.lastStratumId, submitWorker := h.submitWorker, jobId := id,
                  nonce := Hex.format 16 nonce.toNat }
    return { s with process := process, site := site, lines := line :: s.lines }

def step (opt : Opt) (E : Setting) (s : Session) : SessionAction → Option Session
  | .client a kinds => s.client opt E a kinds
  | .site a => (s.site.step E s.process.listening.isSome a).map fun site => { s with site := site }
  | .forward => s.forward opt E

end Session
end Stratum
end CryptixMiner
