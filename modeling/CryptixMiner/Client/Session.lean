import CryptixMiner.Client.Stratum
import CryptixMiner.Lib.StepSystem

/-! The life of a pool miner: `main` connects again and again, each session registers and listens, and
    meanwhile, and until the client is dropped, the submission task sends the shares that miners find. `submitted`,
    `failed` and `advances` record the run and steer nothing. -/

namespace CryptixMiner.Stratum

/-- The options that the client is made with. -/
structure Opt where
  miningAddress : String
  devfundAddress : String
  devfundPercent : UInt16

/-- A notification advanced the counter from `ctr`, in a session with this flag and address. -/
structure Advance where
  ctr : UInt16
  miningDev : Bool
  submitWorker : String
  deriving DecidableEq, Repr

structure Process where
  shared : Shared
  handler : Option StratumHandler
  /-- `listen` is over; the submission task goes on until the client is dropped. -/
  ended : Bool
  /-- A panic in the client ends the process. -/
  alive : Bool
  submitted : Nat
  failed : Nat
  advances : List Advance

inductive Action where
  | connect
  | register
  | submit (jobId : String)
  | receive (line : StratumLine) (delivered : Bool)
  | close
  | drop

/-- The notifications that `handle_message` takes; those in the long form it refuses. -/
def StratumLine.advances (line : StratumLine) : Bool :=
  match line.error, line.payload with
  | none, .command (.miningNotify (.short ..)) | none, .command (.miningNotify (.headerHex ..)) => true
  | _, _ => false

/-- The errors that `handle_message` passes on and no counter counts. -/
def ErrorCode.passedOn : ErrorCode → Bool
  | .unknown | .unauthorized | .notSubscribed => true
  | .jobNotFound | .duplicateShare | .lowDifficultyShare => false

/-- The reply settles a pending share with such an error. -/
def StratumLine.fails (line : StratumLine) (pending : PendingShares) : Bool :=
  match line.error, line.payload, line.id with
  | some e, .result _, some id => e.code.passedOn && (pending.lookup id).isSome
  | _, _, _ => false

/-- `listen` reads the next line only while the address of the session is the one to mine to. -/
def StratumHandler.listens (h : StratumHandler) (blockTemplateCtr : UInt16) : Bool :=
  !(h.devfundEnabled && h.miningDev.getD false != h.shouldMineDev blockTemplateCtr)

namespace Process

def start (blockTemplateCtr : UInt16) : Process where
  shared := { stats := .default, blockTemplateCtr := blockTemplateCtr }
  handler := none
  ended := false
  alive := true
  submitted := 0
  failed := 0
  advances := []

/-- The handler while its session goes on. -/
def listening (p : Process) : Option StratumHandler := if p.ended then none else p.handler

/-- `get_client` and `add_devfund`; a handler that is still there is dropped. -/
def connect (opt : Opt) (p : Process) : Process :=
  let h := StratumHandler.connect opt.miningAddress
  { p with
    handler := some (if 0 < opt.devfundPercent then h.addDevfund opt.devfundAddress opt.devfundPercent else h)
    ended := false }

/-- One share through `create_block_channel`. -/
def submit (p : Process) (h : StratumHandler) (jobId : String) : Process :=
  { p with
    handler := some { h with lastStratumId := h.lastStratumId + 1 }
    shared := { p.shared with stats := p.shared.stats.insert h.lastStratumId jobId }
    submitted := p.submitted + 1 }

/-- One line through `handle_message`; an error ends the session, and the client is dropped after the miner. -/
def receive (checks : Bool) (p : Process) (h : StratumHandler) (line : StratumLine) (delivered : Bool) : Process :=
  let r := h.handleMessage checks delivered p.shared line
  { p with
    handler := some r.handler
    ended := r.outcome != .ok
    alive := r.outcome != .panicked
    shared := r.shared
    failed := if line.fails p.shared.stats.sharesPending then p.failed + 1 else p.failed
    advances :=
      if line.advances then ⟨p.shared.blockTemplateCtr, h.miningDev.getD false, h.submitWorker⟩ :: p.advances
      else p.advances }

/-- Shares are taken for as long as the client is there, also while `main` drops the miner, or unwinds. -/
def step (opt : Opt) (checks : Bool) (p : Process) : Action → Option Process
  | .connect => if p.alive then some (p.connect opt) else none
  | .register => p.listening.map fun h => { p with handler := some (h.register p.shared.blockTemplateCtr) }
  | .submit jobId => p.handler.map fun h => p.submit h jobId
  | .receive line delivered => p.listening.bind fun h =>
    if h.miningDev.isSome && h.listens p.shared.blockTemplateCtr then some (p.receive checks h line delivered)
    else none
  | .close => some { p with ended := true }
  | .drop => if p.ended then some { p with handler := none } else none

theorem listening_eq_some {p : Process} {h : StratumHandler} :
    p.listening = some h ↔ p.ended = false ∧ p.handler = some h := by
  unfold listening
  cases p.ended <;> simp

/-- What a step does, by the action it takes. -/
theorem step_cases {opt : Opt} {checks : Bool} {p q : Process} {a : Action} (hs : step opt checks p a = some q) :
    (a = .connect ∧ q = p.connect opt) ∨ (a = .close ∧ q = { p with ended := true }) ∨
    (a = .drop ∧ p.ended = true ∧ q = { p with handler := none }) ∨
    ∃ h, p.handler = some h ∧
      ((a = .register ∧ p.ended = false ∧ q = { p with handler := some (h.register p.shared.blockTemplateCtr) }) ∨
       (∃ jobId, a = .submit jobId ∧ q = p.submit h jobId) ∨
       ∃ line delivered, a = .receive line delivered ∧ p.ended = false ∧ h.miningDev.isSome = true ∧
         h.listens p.shared.blockTemplateCtr = true ∧ q = p.receive checks h line delivered) := by
  cases a with
  | connect =>
    obtain ⟨-, hs⟩ := Option.ite_none_right_eq_some.mp hs
    cases hs
    exact Or.inl ⟨rfl, rfl⟩
  | close =>
    cases hs
    exact Or.inr (Or.inl ⟨rfl, rfl⟩)
  | drop =>
    obtain ⟨hended, hs⟩ := Option.ite_none_right_eq_some.mp hs
    cases hs
    exact Or.inr (Or.inr (Or.inl ⟨rfl, hended, rfl⟩))
  | register =>
    obtain ⟨h, hlistening, rfl⟩ := Option.map_eq_some_iff.mp hs
    obtain ⟨hended, hh⟩ := listening_eq_some.mp hlistening
    exact Or.inr (Or.inr (Or.inr ⟨h, hh, Or.inl ⟨rfl, hended, rfl⟩⟩))
  | submit jobId =>
    obtain ⟨h, hh, rfl⟩ := Option.map_eq_some_iff.mp hs
    exact Or.inr (Or.inr (Or.inr ⟨h, hh, Or.inr (Or.inl ⟨jobId, rfl, rfl⟩)⟩))
  | receive line delivered =>
    obtain ⟨h, hlistening, hs⟩ := Option.bind_eq_some_iff.mp hs
    obtain ⟨hended, hh⟩ := listening_eq_some.mp hlistening
    obtain ⟨hlistens, hs⟩ := Option.ite_none_right_eq_some.mp hs
    cases hs
    obtain ⟨hdev, hlistens⟩ := Bool.and_eq_true_iff.mp hlistens
    exact Or.inr (Or.inr (Or.inr ⟨h, hh, Or.inr (Or.inr ⟨line, delivered, rfl, hended, hdev, hlistens, rfl⟩)⟩))

end Process
end CryptixMiner.Stratum
