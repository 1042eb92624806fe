import CryptixMiner.Lib.StepSystem

/-! The node client of `src/client/grpc.rs`: the messages of the node, the templates it is asked for, and the
    runs of a process that connects again and again. `asked` records the run and steers nothing. -/

namespace CryptixMiner.Grpc

/-- What `semver` offers; its crate is not part of the source. -/
structure Semver where
  Version : Type
  parse : String → Option Version
  le : Version → Version → Bool

def VERSION_UPDATE : String := "0.11.15"

/-- The messages of a node, with the fields that `handle_message` reads. -/
inductive Payload (Block : Type) where
  | blockAddedNotification
  | newBlockTemplateNotification
  | getBlockTemplateResponse (block : Option Block) (isSynced : Bool) (error : Option String)
  | submitBlockResponse (error : Option String)
  | getBlockResponse (error : Option String)
  | getInfoResponse (serverVersion : String)
  | notifyNewBlockTemplateResponse (error : Option String)
  | notifyBlockAddedResponse (error : Option String)
  | other

inductive Request where
  | getBlockTemplate (payAddress : String)
  | notifyNewBlockTemplate
  | notifyBlockAdded
  deriving DecidableEq, Repr

def Request.payAddress? : Request → Option String
  | .getBlockTemplate payAddress => some payAddress
  | .notifyNewBlockTemplate | .notifyBlockAdded => none

inductive HandlerError where
  | channelClosed
  | template (e : String)
  | block (message : String)
  | version
  | process (text : String)
  deriving DecidableEq, Repr

inductive Outcome where
  | ok
  | err (e : HandlerError)
  | panicked
  deriving DecidableEq, Repr

/-- What the world answers while a message is handled: whether the `n`th send finds the channel open, and
    what `process_block` comes to. -/
structure Answers where
  sent : Nat → Bool
  processed : Outcome

structure CryptixdHandler where
  minerAddress : String
  mineWhenNotSynced : Bool
  devfundAddress : Option String
  devfundPercent : UInt16

/-- The result, the counter after it, what was sent, and what `process_block` was given. -/
structure Handled (Block : Type) where
  outcome : Outcome
  blockTemplateCtr : UInt16
  sends : List Request
  given : Option (Option Block)

namespace CryptixdHandler
variable {Block : Type}

def connect (minerAddress : String) (mineWhenNotSynced : Bool) : CryptixdHandler where
  minerAddress := minerAddress
  mineWhenNotSynced := mineWhenNotSynced
  devfundAddress := none
  devfundPercent := 0

def addDevfund (h : CryptixdHandler) (address : String) (percent : UInt16) : CryptixdHandler :=
  { h with devfundAddress := some address, devfundPercent := percent }

/-- The guard compares with `<=`. -/
def payAddress (h : CryptixdHandler) (blockTemplateCtr : UInt16) : String :=
  match h.devfundAddress with
  | some devfundAddress => if blockTemplateCtr ≤ h.devfundPercent then devfundAddress else h.minerAddress
  | none => h.minerAddress

def clientGetBlockTemplate (h : CryptixdHandler) (ctr : UInt16) (sent : Bool) : Handled Block where
  outcome := if sent then .ok else .err .channelClosed
  blockTemplateCtr := (ctr + 1) % 10000
  sends := [.getBlockTemplate (h.payAddress ctr)]
  given := none

def processBlock (ctr : UInt16) (answers : Answers) (block : Option Block) : Handled Block :=
  ⟨answers.processed, ctr, [], some block⟩

/-- A message that is only logged, or answered with an error. -/
def unchanged (ctr : UInt16) (outcome : Outcome) : Handled Block := ⟨outcome, ctr, [], none⟩

/-- The notifications are asked for, and then a first template. -/
def subscribe (answers : Answers) (h : CryptixdHandler) (ctr : UInt16) (newTemplates : Bool) : Handled Block :=
  let notify : Request := if newTemplates then .notifyNewBlockTemplate else .notifyBlockAdded
  if answers.sent 0 then
    let r := h.clientGetBlockTemplate ctr (answers.sent 1)
    { r with sends := notify :: r.sends }
  else ⟨.err .channelClosed, ctr, [notify], none⟩

def handleMessage (S : Semver) (answers : Answers) (h : CryptixdHandler) (ctr : UInt16) : Payload Block → Handled Block
  | .blockAddedNotification | .newBlockTemplateNotification => h.clientGetBlockTemplate ctr (answers.sent 0)
  | .getBlockTemplateResponse (some b) true none => processBlock ctr answers (some b)
  | .getBlockTemplateResponse block false none =>
    match block with
    | some b => processBlock ctr answers (if h.mineWhenNotSynced then some b else none)
    | none => processBlock ctr answers none
  | .getBlockTemplateResponse _ _ (some e) => unchanged ctr (.err (.template e))
  | .getBlockTemplateResponse none true none => unchanged ctr .ok
  | .submitBlockResponse _ => unchanged ctr .ok
  | .getBlockResponse (some message) => unchanged ctr (.err (.block message))
  | .getBlockResponse none => unchanged ctr .ok
  | .getInfoResponse serverVersion =>
    match S.parse serverVersion, S.parse VERSION_UPDATE with
    | some version, some update => h.subscribe answers ctr (S.le update version)
    | _, _ => unchanged ctr (.err .version)
  | .notifyNewBlockTemplateResponse _ | .notifyBlockAddedResponse _ | .other => unchanged ctr .ok

end CryptixdHandler

/-! ### Runs of the client -/

structure Opt where
  miningAddress : String
  mineWhenNotSynced : Bool
  devfundAddress : String
  devfundPercent : UInt16

/-- A call of `client_get_block_template` at this value of the counter. -/
structure Asked where
  ctr : UInt16
  payAddress : String
  deriving DecidableEq, Repr

structure Process where
  blockTemplateCtr : UInt16
  handler : Option CryptixdHandler
  alive : Bool
  asked : List Asked

inductive Action (Block : Type) where
  | connect
  /-- `none` is a message without payload. -/
  | receive (payload : Option (Payload Block)) (answers : Answers)
  | close

namespace Process
variable {Block : Type}

def start (blockTemplateCtr : UInt16) : Process := ⟨blockTemplateCtr, none, true, []⟩

def connect (opt : Opt) (p : Process) : Process :=
  let h := CryptixdHandler.connect opt.miningAddress opt.mineWhenNotSynced
  { p with handler := some (if 0 < opt.devfundPercent then h.addDevfund opt.devfundAddress opt.devfundPercent else h) }

def receive (S : Semver) (p : Process) (h : CryptixdHandler) (payload : Payload Block) (answers : Answers) : Process :=
  let r := h.handleMessage S answers p.blockTemplateCtr payload
  { blockTemplateCtr := r.blockTemplateCtr
    handler := match r.outcome with
      | .ok => some h
      | .err _ | .panicked => none
    alive := r.outcome != .panicked
    asked := (r.sends.filterMap Request.payAddress?).map (Asked.mk p.blockTemplateCtr) ++ p.asked }

def step (opt : Opt) (S : Semver) (p : Process) (a : Action Block) : Option Process :=
  if p.alive then
    match a, p.handler with
    | .connect, _ => some (p.connect opt)
    | .close, _ => some { p with handler := none }
    | .receive (some payload) answers, some h => some (p.receive S h payload answers)
    | .receive none _, some _ => some p
    | .receive _ _, none => none
  else none

end Process
end CryptixMiner.Grpc
