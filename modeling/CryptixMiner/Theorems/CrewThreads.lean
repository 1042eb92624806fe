import CryptixMiner.Miner.Crew
import CryptixMiner.Theorems.CpuWalk
import CryptixMiner.Theorems.GpuWorker
import CryptixMiner.Theorems.Solution
import CryptixMiner.Theorems.WatchReceivers

/-! What a thread makes of a step of its receiver, and how near a step of its own brings it to its next look at the
    channel. -/

namespace CryptixMiner.Miner
open StepSystem
open Watch (Told RxPc Receiver)

/-- At least eight bits of the nonce are the miner's. -/
def Walkable (mask fixed : UInt64) : Prop := ∃ k, 8 ≤ k ∧ IsPartition k mask fixed

def Command.Walks (command : Command RpcBlock) : Prop :=
  ∀ s, command = some (.job s) → Walkable s.nonceMask s.nonceFixed

def Call.of : Watch.Site → Call
  | .getChanged => .getChanged
  | .unlocked | .locked | .woken => .waitForChange

namespace Thread

/-- A CPU thread that may hash has a partition to walk in. -/
def Walks : Thread → Prop
  | .cpu w => w.state.isSome = true ∨ w.pc = .poll → Walkable w.mask w.fixed
  | .gpu _ => True

/-- No GPU thread is between load and clone. -/
def Between : Thread → Prop
  | .cpu _ => True
  | .gpu g => g.pc ≠ .clone

/-- The thread is where its receiver is: a call goes on until its result is there. -/
def At (t : Thread) : RxPc → Prop
  | .idle | .release => t.Between
  | .alive site | .load site => t.call = some (.of site)
  | .clone site => match t with
    | .cpu _ => t.call = some (.of site)
    | .gpu g => g.pc = .clone
  | .acquire | .enqueue | .waiting | .reacquire => t.call = some .waitForChange

variable {t : Thread} {w : CpuWorker RpcBlock} {g : GpuWorker RpcBlock} {c : Call}

theorem call_cpu (h : (Thread.cpu w).call = some c) :
    (c = .waitForChange ∧ w.pc = .head ∧ w.state = none) ∨ (c = .getChanged ∧ w.pc = .poll) := by
  unfold call at h
  dsimp only at h
  split at h
  · next hpc hstate =>
    cases h
    exact Or.inl ⟨rfl, hpc, hstate⟩
  · next hpc =>
    cases h
    exact Or.inr ⟨rfl, hpc⟩
  all_goals cases h

theorem call_gpu (h : (Thread.gpu g).call = some c) :
    (c = .waitForChange ∧ g.pc = .head ∧ g.state = none) ∨ (c = .getChanged ∧ g.pc = .poll) := by
  unfold call at h
  dsimp only at h
  split at h
  · next hpc hstate =>
    cases h
    exact Or.inl ⟨rfl, hpc, hstate⟩
  · next hpc =>
    cases h
    exact Or.inr ⟨rfl, hpc⟩
  all_goals cases h

/-- A thread at a call has not stopped. -/
theorem not_stopped_of_call (h : t.call = some c) : t.stopped = false := by
  cases t with
  | cpu w => rcases call_cpu h with ⟨-, hpc, -⟩ | ⟨-, hpc⟩ <;> (rw [stopped, hpc]; rfl)
  | gpu g => rcases call_gpu h with ⟨-, hpc, -⟩ | ⟨-, hpc⟩ <;> (rw [stopped, hpc]; rfl)

end Thread

/-! ### What a thread is told -/

/-- Thread `k` has moved, and nothing else has. -/
structure Site.Moved (x y : Site) (k : Nat) (t : Thread) : Prop where
  threads : y.threads = Function.update x.threads k t
  channel : y.channel = x.channel
  senderAlive : y.senderAlive = x.senderAlive
  queue : y.queue = x.queue
  queueOpen : y.queueOpen = x.queueOpen

theorem Site.moved_took (x : Site) (k : Nat) (job : Bool) (t : Thread) : x.Moved ((x.took k job).setThread k t) k t := by
  unfold Site.took
  split <;> exact ⟨rfl, rfl, rfl, rfl, rfl⟩

/-- What the thread has become by what its call told it. -/
structure Thread.Answered (t u : Thread) (value : Command RpcBlock) (lastObserved : UInt64) (told : Told) : Prop where
  closed : told = .closed → u.stopped = true
  loaded : told = .loaded → ∀ site, t.call = some (.of site) → u.At (.clone site)
  unchanged : told = .unchanged → u.Between
  cloned : told = .cloned → u.Between ∧ (value = some .close → u.stopped = true)
  walks : t.Walks → Command.Walks value → u.Walks
  observed : ∀ g, u = .gpu g → g.lastObserved = lastObserved

section
variable {x : Site} {k : Nat} {w : CpuWorker RpcBlock} {g : GpuWorker RpcBlock} {told : Told} {lastObserved : UInt64}
  {value : Command RpcBlock} {t u : Thread}

theorem Thread.Answered.of_closed (hstopped : u.stopped = true) (hwalks : t.Walks → Command.Walks value → u.Walks)
    (hobserved : ∀ g, u = .gpu g → g.lastObserved = lastObserved) : t.Answered u value lastObserved .closed :=
  ⟨fun _ => hstopped, nofun, nofun, nofun, hwalks, hobserved⟩

theorem Thread.Answered.of_loaded (hloaded : ∀ site, t.call = some (.of site) → u.At (.clone site))
    (hwalks : t.Walks → Command.Walks value → u.Walks) (hobserved : ∀ g, u = .gpu g → g.lastObserved = lastObserved) :
    t.Answered u value lastObserved .loaded :=
  ⟨nofun, fun _ => hloaded, nofun, nofun, hwalks, hobserved⟩

theorem Thread.Answered.of_unchanged (hbetween : u.Between) (hwalks : t.Walks → Command.Walks value → u.Walks)
    (hobserved : ∀ g, u = .gpu g → g.lastObserved = lastObserved) : t.Answered u value lastObserved .unchanged :=
  ⟨nofun, nofun, fun _ => hbetween, nofun, hwalks, hobserved⟩

theorem Thread.Answered.of_cloned (hbetween : u.Between) (hclosed : value = some .close → u.stopped = true)
    (hwalks : t.Walks → Command.Walks value → u.Walks) (hobserved : ∀ g, u = .gpu g → g.lastObserved = lastObserved) :
    t.Answered u value lastObserved .cloned :=
  ⟨nofun, nofun, nofun, fun _ => ⟨hbetween, hclosed⟩, hwalks, hobserved⟩

theorem cpuReply_of_step {r : Reply} {a : CpuAction RpcBlock} {w' : CpuWorker RpcBlock} (hcall : x.cpuCall w r = some a)
    (hstep : w.step a = some w') :
    x.cpuReply k w r = some ((x.took k (x.offersJob && r == .changed)).setThread k (.cpu w')) := by
  simp only [Site.cpuReply, hcall, hstep, Option.bind_eq_bind, Option.bind_some]
  rfl

/-- The reply of `wait_for_change` to a thread without a job. -/
theorem answered_receive (hstate : w.state = none) (hpc : w.pc = .head) :
    Thread.Answered (.cpu w) (.cpu (w.receive (.ok value))) value lastObserved .cloned := by
  refine .of_cloned trivial ?_ (fun _ hvalue hor => ?_) fun _ => nofun
  · rintro rfl
    rfl
  · match value with
    | some (.job s) => exact hvalue s rfl
    | some .close =>
      simp only [CpuWorker.receive, hstate] at hor
      rcases hor with hor | hor <;> cases hor
    | none =>
      simp only [CpuWorker.receive, hpc] at hor
      rcases hor with hor | hor <;> cases hor

/-- The reply of `get_changed`; the loop keeps its mask and fixed bits. -/
theorem answered_poll (hpc : w.pc = .poll) {reply : Except ChannelClosed (Option (Command RpcBlock))}
    (hreply : (told = .closed ∧ reply = .error .mk) ∨ (told = .unchanged ∧ reply = .ok none) ∨
      (told = .cloned ∧ reply = .ok (some value))) :
    Thread.Answered (.cpu w) (.cpu (w.poll reply)) value lastObserved told where
  closed htold := by
    rcases hreply with ⟨-, rfl⟩ | ⟨rfl, -⟩ | ⟨rfl, -⟩
    · rfl
    · cases htold
    · cases htold
  loaded htold := by
    rcases hreply with ⟨rfl, -⟩ | ⟨rfl, -⟩ | ⟨rfl, -⟩ <;> cases htold
  unchanged _ := trivial
  cloned htold := by
    refine ⟨trivial, ?_⟩
    rcases hreply with ⟨rfl, -⟩ | ⟨rfl, -⟩ | ⟨-, rfl⟩
    · cases htold
    · cases htold
    · rintro rfl
      rfl
  walks hwalks _ _ := by
    have hwalk := hwalks (Or.inr hpc)
    unfold CpuWorker.poll
    split <;> exact hwalk
  observed _ := nofun

/-- A CPU thread takes what its call tells it. -/
theorem tell_cpu {seen : UInt64} (hk : x.threads k = .cpu w) {c : Call} (hcall : (Thread.cpu w).call = some c)
    (hclosed : told = .closed → x.senderAlive = false) (hunchanged : told = .unchanged → c = .getChanged) :
    ∃ y u, x.tell k lastObserved told = some y ∧ x.Moved y k u ∧ (Thread.cpu w).Answered u x.channel.value seen told := by
  unfold Site.tell
  rw [hk]
  cases told with
  | loaded =>
    refine ⟨x, .cpu w, rfl, ⟨?_, rfl, rfl, rfl, rfl⟩,
      .of_loaded (fun _ hsite => hsite) (fun hwalks _ => hwalks) fun _ => nofun⟩
    rw [← hk, Function.update_eq_self]
  | closed =>
    have halive := hclosed rfl
    rcases Thread.call_cpu hcall with ⟨rfl, hpc, hstate⟩ | ⟨rfl, hpc⟩
    · refine ⟨_, .cpu (w.receive (.error .mk)), cpuReply_of_step (a := .waitForChange (.error .mk)) ?_ ?_,
        x.moved_took .., .of_closed rfl (fun _ _ hor => ?_) fun _ => nofun⟩
      · simp only [Site.cpuCall, hpc, halive, if_neg Bool.false_ne_true]
      · simp only [CpuWorker.step, hpc, hstate]
      · simp only [CpuWorker.receive, hstate] at hor
        rcases hor with hor | hor <;> cases hor
    · refine ⟨_, .cpu (w.poll (.error .mk)), cpuReply_of_step (a := .getChanged (.error .mk)) ?_ ?_, x.moved_took ..,
        answered_poll hpc (Or.inl ⟨rfl, rfl⟩)⟩
      · simp only [Site.cpuCall, hpc, halive, if_neg Bool.false_ne_true]
      · simp only [CpuWorker.step, hpc]
  | unchanged =>
    rcases Thread.call_cpu hcall with ⟨rfl, -, -⟩ | ⟨-, hpc⟩
    · cases hunchanged rfl
    · refine ⟨_, .cpu (w.poll (.ok none)), cpuReply_of_step (a := .getChanged (.ok none)) ?_ ?_, x.moved_took ..,
        answered_poll hpc (Or.inr (Or.inl ⟨rfl, rfl⟩))⟩
      · simp only [Site.cpuCall, hpc]
      · simp only [CpuWorker.step, hpc]
  | cloned =>
    rcases Thread.call_cpu hcall with ⟨rfl, hpc, hstate⟩ | ⟨rfl, hpc⟩
    · refine ⟨_, .cpu (w.receive (.ok x.channel.value)),
        cpuReply_of_step (a := .waitForChange (.ok x.channel.value)) ?_ ?_, x.moved_took ..,
        answered_receive hstate hpc⟩
      · simp only [Site.cpuCall, hpc]
      · simp only [CpuWorker.step, hpc, hstate]
    · refine ⟨_, .cpu (w.poll (.ok (some x.channel.value))),
        cpuReply_of_step (a := .getChanged (.ok (some x.channel.value))) ?_ ?_, x.moved_took ..,
        answered_poll hpc (Or.inr (Or.inr ⟨rfl, rfl⟩))⟩
      · simp only [Site.cpuCall, hpc]
      · simp only [CpuWorker.step, hpc]

theorem gpuChannel_of_step {g' : GpuWorker RpcBlock} (hstate : g.pc = .head → g.state = none)
    (hstep : g.step (.worker .noNonce false) = some g') :
    x.gpuChannel k g = some ((x.took k (x.offersJob && g.pc == .clone)).setThread k (.gpu g')) := by
  unfold Site.gpuChannel
  split
  · next hpc hs => cases (hstate hpc).symm.trans hs
  · rw [hstep]
    rfl

/-- A step of a GPU thread at the channel, for what it is told. -/
theorem gpuStep_told (halive : g.senderAlive = (told != .closed))
    (hcall : (told = .cloned ∧ g.pc = .clone) ∨ (told ≠ .cloned ∧ ∃ c, (Thread.gpu g).call = some c ∧
      (told = .unchanged → c = .getChanged ∧ g.lastObserved = g.channel.id) ∧
      (told = .loaded → c = .waitForChange ∨ g.lastObserved ≠ g.channel.id))) :
    (g.pc = .head → g.state = none) ∧ ∃ g', g.step (.worker .noNonce false) = some g' ∧
      (Thread.gpu g).Answered (.gpu g') g.channel.value (if told = .loaded then g.channel.id else g.lastObserved) told := by
  rcases hcall with ⟨rfl, hpc⟩ | ⟨hne, c, hcall, hunchanged, hloaded⟩
  · refine ⟨fun hhead => ?_, g.receive, by simp only [GpuWorker.step, hpc], .of_cloned ?_ (fun hclose => ?_)
      (fun _ _ => trivial) ?_⟩
    · rw [hpc] at hhead
      cases hhead
    · unfold GpuWorker.receive
      split <;> simp [Thread.Between]
    · unfold GpuWorker.receive
      rw [hclose]
      rfl
    · rintro _ ⟨⟩
      unfold GpuWorker.receive
      split <;> rfl
  have hidle : g.pc = .head → g.state = none := fun hpc => by
    rcases Thread.call_gpu hcall with ⟨-, -, hstate⟩ | ⟨-, hpc'⟩
    · exact hstate
    · cases hpc.symm.trans hpc'
  refine ⟨hidle, ?_⟩
  cases told with
  | cloned => exact absurd rfl hne
  | closed =>
    refine ⟨{ g with pc := .stopped }, ?_, .of_closed rfl (fun _ _ => trivial) (by rintro _ ⟨⟩; rfl)⟩
    rcases Thread.call_gpu hcall with ⟨-, hpc, hstate⟩ | ⟨-, hpc⟩
    · simp only [GpuWorker.step, hpc, hstate, halive]
      rfl
    · simp only [GpuWorker.step, hpc, halive]
      rfl
  | loaded =>
    refine ⟨g.load, ?_, .of_loaded (fun _ _ => rfl) (fun _ _ => trivial) (by rintro _ ⟨⟩; rfl)⟩
    rcases Thread.call_gpu hcall with ⟨-, hpc, hstate⟩ | ⟨rfl, hpc⟩
    · simp only [GpuWorker.step, hpc, hstate, halive]
      rfl
    · simp only [GpuWorker.step, hpc, halive, if_neg ((hloaded rfl).resolve_left (by decide))]
      rfl
  | unchanged =>
    obtain ⟨rfl, hold⟩ := hunchanged rfl
    rcases Thread.call_gpu hcall with ⟨hno, -⟩ | ⟨-, hpc⟩
    · cases hno
    · refine ⟨{ g with pc := .head, log := .polled :: g.log }, ?_,
        .of_unchanged (by simp [Thread.Between]) (fun _ _ => trivial) (by rintro _ ⟨⟩; rfl)⟩
      simp only [GpuWorker.step, hpc, halive, hold, if_true]
      rfl

/-- A GPU thread takes what its call tells it. -/
theorem tell_gpu (hk : x.threads k = .gpu g)
    (hcall : (told = .cloned ∧ g.pc = .clone) ∨ (told ≠ .cloned ∧ ∃ c, (Thread.gpu g).call = some c ∧
      (told = .unchanged → c = .getChanged ∧ lastObserved = x.channel.id) ∧
      (told = .loaded → c = .waitForChange ∨ lastObserved ≠ x.channel.id))) :
    ∃ y u, x.tell k lastObserved told = some y ∧ x.Moved y k u ∧
      (Thread.gpu g).Answered u x.channel.value (if told = .loaded then x.channel.id else lastObserved) told := by
  obtain ⟨hidle, g', hstep, hanswered⟩ := gpuStep_told
    (g := { g with channel := x.channel, senderAlive := told != .closed, lastObserved := lastObserved }) rfl hcall
  unfold Site.tell
  rw [hk]
  exact ⟨_, .gpu g', gpuChannel_of_step hidle hstep, x.moved_took .., hanswered.closed, hanswered.loaded,
    hanswered.unchanged, hanswered.cloned, hanswered.walks, hanswered.observed⟩

end

/-! ### A step of a receiver -/

section
variable {x : Site} {k : Nat} {t : Thread} {sh sh' : Watch.Shared (Command RpcBlock)} {r r' : Receiver (Command RpcBlock)}
  {told : Told}

/-- What a receiver tells when it moves, and where it is then. -/
theorem step_tells (hs : r.step k sh = some (sh', r')) :
    (∃ site, r.tells sh = some .closed ∧ r.pc = .alive site ∧ sh.senderAlive = false ∧ r' = { r with pc := site.exit }) ∨
    (r.tells sh = some .unchanged ∧ r.pc = .load .getChanged ∧ r.lastObserved = sh.id ∧ r' = { r with pc := .idle }) ∨
    (∃ site, r.tells sh = some .loaded ∧ r.pc = .load site ∧ (site = .woken ∨ r.lastObserved ≠ sh.id) ∧
      r' = { r with lastObserved := sh.id, loaded := sh.version, pc := .clone site }) ∨
    (∃ site, r.tells sh = some .cloned ∧ r.pc = .clone site ∧
      r' = { r with history := ⟨sh.value, sh.version, r.loaded⟩ :: r.history, pc := site.exit }) ∨
    (r.tells sh = none ∧ r'.history = r.history ∧ r'.lastObserved = r.lastObserved ∧
      (r'.pc = .idle ∨ r'.pc = .release → r.pc = .release) ∧ ∀ t : Thread, t.At r.pc → t.At r'.pc) := by
  unfold Receiver.tells
  rcases Receiver.step_cases hs with ⟨site, hpc, -, rfl⟩ | ⟨site, hpc, hsite, heq, -, rfl⟩ |
    ⟨site, hpc, hcond, -, rfl⟩ | ⟨site, hpc, -, rfl⟩ | ⟨site, hpc, -, -, rfl⟩ | ⟨hpc, -, rfl⟩ | ⟨hpc, -, rfl⟩
  · rw [hpc]
    cases halive : sh.senderAlive with
    | false => exact Or.inl ⟨site, rfl, rfl, rfl, rfl⟩
    | true => exact Or.inr (Or.inr (Or.inr (Or.inr ⟨rfl, rfl, rfl, by simp, fun _ hat => hat⟩)))
  · rw [hpc]
    dsimp only
    rw [if_pos ⟨hsite, heq⟩]
    cases site with
    | getChanged => exact Or.inr (Or.inl ⟨rfl, rfl, heq, rfl⟩)
    | unlocked | locked => exact Or.inr (Or.inr (Or.inr (Or.inr ⟨rfl, rfl, rfl, (by rintro (h | h) <;> cases h), fun _ hat => hat⟩)))
    | woken => exact absurd rfl hsite
  · rw [hpc]
    dsimp only
    rw [if_neg fun h => hcond.elim h.1 fun hne => hne h.2]
    exact Or.inr (Or.inr (Or.inl ⟨site, rfl, rfl, hcond, rfl⟩))
  · rw [hpc]
    exact Or.inr (Or.inr (Or.inr (Or.inl ⟨site, rfl, rfl, rfl⟩)))
  · refine Or.inr (Or.inr (Or.inr (Or.inr ?_)))
    rcases hpc with ⟨hpc, rfl⟩ | ⟨hpc, rfl⟩ <;> (rw [hpc]; exact ⟨rfl, rfl, rfl, by simp, fun _ hat => hat⟩)
  · rw [hpc]
    exact Or.inr (Or.inr (Or.inr (Or.inr ⟨rfl, rfl, rfl, by simp, fun _ hat => hat⟩)))
  · rw [hpc]
    exact Or.inr (Or.inr (Or.inr (Or.inr ⟨rfl, rfl, rfl, by simp, fun _ hat => hat⟩)))

/-- The thread is ready for what its receiver tells it. -/
theorem tell_at (hat : (x.threads k).At r.pc) (hs : r.step k sh = some (sh', r')) (htold : r.tells sh = some told)
    (hid : x.channel.id = sh.id) (halive : x.senderAlive = sh.senderAlive) :
    ∃ y u, x.tell k r.lastObserved told = some y ∧ x.Moved y k u ∧
      (x.threads k).Answered u x.channel.value r'.lastObserved told := by
  rcases step_tells hs with ⟨site, htells, hpc, hdead, rfl⟩ | ⟨htells, hpc, hold, rfl⟩ | ⟨site, htells, hpc, hnew, rfl⟩ |
    ⟨site, htells, hpc, rfl⟩ | ⟨htells, -⟩ <;> cases htold.symm.trans htells
  · rw [hpc] at hat
    cases hk : x.threads k with
    | cpu w => exact tell_cpu hk (hk ▸ hat) (fun _ => halive.trans hdead) nofun
    | gpu g => exact tell_gpu hk (Or.inr ⟨nofun, _, hk ▸ hat, nofun, nofun⟩)
  · rw [hpc] at hat
    cases hk : x.threads k with
    | cpu w => exact tell_cpu hk (hk ▸ hat) nofun fun _ => rfl
    | gpu g => exact tell_gpu hk (Or.inr ⟨nofun, _, hk ▸ hat, fun _ => ⟨rfl, hold.trans hid.symm⟩, nofun⟩)
  · rw [hpc] at hat
    cases hk : x.threads k with
    | cpu w => exact tell_cpu hk (hk ▸ hat) nofun nofun
    | gpu g =>
      rw [← hid]
      refine tell_gpu hk (Or.inr ⟨nofun, _, hk ▸ hat, nofun, fun _ => ?_⟩)
      exact hnew.imp (fun hwoken => by rw [hwoken]; rfl) fun hne => hid.symm ▸ hne
  · rw [hpc] at hat
    cases hk : x.threads k with
    | cpu w =>
      rw [hk] at hat
      exact tell_cpu hk hat nofun nofun
    | gpu g =>
      rw [hk] at hat
      exact tell_gpu hk (Or.inl ⟨rfl, hat⟩)

end
/-! ### Work -/

/-- Thread `k` has worked, and may have handed over a block to an empty queue. -/
structure Site.Worked (x y : Site) (k : Nat) (t : Thread) : Prop where
  threads : y.threads = Function.update x.threads k t
  channel : y.channel = x.channel
  senderAlive : y.senderAlive = x.senderAlive
  queueOpen : y.queueOpen = x.queueOpen
  queue : y.queue = x.queue ∨ (x.queue = [] ∧ y.queue.length = 1)

/-- How much a thread has left to do until it has stopped, once `Close` is there; a hash or a launch may also leave a
    block, which takes three steps to the connection. -/
def Thread.left : Thread → Nat
  | .cpu w =>
    match w.pc, w.state with
    | .stopped, _ => 0
    | .poll, _ | .head, none => 4
    | .head, some _ => 4 * (128 - w.nonce.toNat % 128) + 4
  | .gpu g =>
    match g.pc, g.state with
    | .stopped, _ | .clone, _ => 0
    | .poll, _ | .head, none => 4
    | .head, some _ => if g.fallback then 9 else 8

/-- A launch after which the thread launches again without a look at the channel: a failed `sync` without a fallback,
    or a share of a pool. -/
def Setting.relaunches (E : Setting) (g : GpuWorker RpcBlock) : Report → Bool
  | .syncError => !g.fallback
  | .cell nonce => nonce != 0 && match g.state with
    | some s => !s.block.isFull && match E.generateBlockIfPow s nonce with
      | some (some _) => true
      | some none | none => false
    | none => false
  | .panicked | .outputError => false

section
variable {E : Setting} {x y : Site} {k : Nat} {w : CpuWorker RpcBlock} {g : GpuWorker RpcBlock} {s : State RpcBlock}
  {b : BlockSeed RpcBlock} {next dead : Thread}

theorem worked_setThread (x : Site) (k : Nat) (t : Thread) : x.Worked (x.setThread k t) k t :=
  ⟨rfl, rfl, rfl, rfl, Or.inl rfl⟩

theorem worked_handOver (h : x.handOver E k b next dead = some y) : ∃ u, (u = next ∨ u = dead) ∧ x.Worked y k u := by
  unfold Site.handOver at h
  split at h
  · split at h
    · next hqueue =>
      dsimp only at h
      split at h
      · cases h
        exact ⟨next, Or.inl rfl, rfl, rfl, rfl, rfl, Or.inr ⟨hqueue, rfl⟩⟩
      · cases h
        exact ⟨dead, Or.inr rfl, rfl, rfl, rfl, rfl, Or.inr ⟨hqueue, rfl⟩⟩
    · cases h
  · cases h
    exact ⟨next, Or.inl rfl, worked_setThread x k next⟩

theorem Site.Worked.queue_le {t : Thread} (h : x.Worked y k t) : y.queue.length ≤ x.queue.length + 1 := by
  rcases h.queue with heq | ⟨hempty, hone⟩
  · rw [heq]
    omega
  · rw [hempty, hone]
    exact Nat.le_refl 1

/-- The low seven bits of the nonce count the rounds to the next poll. -/
theorem left_hash (hstate : w.state = some s) (hpc : w.pc = .head) (hwalk : Walkable w.mask w.fixed) (found : Bool) :
    (Thread.cpu (w.hash s found)).left + 3 < (Thread.cpu w).left := by
  obtain ⟨j, hj, hpart⟩ := hwalk
  have hlow : ((w.nonce &&& w.mask) ||| w.fixed).toNat % 128 = w.nonce.toNat % 128 := by
    have hdvd : 128 ∣ 2 ^ j := Nat.pow_dvd_pow 2 (by omega : 7 ≤ j)
    rw [hpart.toNat_next, Nat.add_mod, Nat.mod_eq_zero_of_dvd (Nat.dvd_trans hdvd hpart.fixed_dvd), Nat.zero_add,
      Nat.mod_mod, Nat.mod_mod_of_dvd _ hdvd]
  have hnext : (((w.nonce &&& w.mask) ||| w.fixed) + 1).toNat % 128 = (w.nonce.toNat + 1) % 128 := by
    rw [UInt64.toNat_add, Nat.mod_mod_of_dvd _ (by decide : 128 ∣ 2 ^ 64), Nat.add_mod, hlow, ← Nat.add_mod]
    rfl
  have hpoll := pollsAfter_iff (x := (w.nonce &&& w.mask) ||| w.fixed)
  unfold PollsAfter at hpoll
  rw [hlow] at hpoll
  have hleft : (Thread.cpu w).left = 4 * (128 - w.nonce.toNat % 128) + 4 := by
    simp only [Thread.left, hpc, hstate]
  rw [hleft]
  by_cases hdue : w.nonce.toNat % 128 = 127
  · have hto : (w.hash s found).pc = .poll := if_pos (hpoll.mpr hdue)
    simp only [Thread.left, hto]
    omega
  · have hto : (w.hash s found).pc = .head := if_neg fun h => hdue (hpoll.mp h)
    have hle : (Thread.cpu (w.hash s found)).left ≤
        4 * (128 - (((w.nonce &&& w.mask) ||| w.fixed) + 1).toNat % 128) + 4 := by
      simp only [Thread.left, hto]
      split
      · cases ‹_›
      · cases ‹_›
      · omega
      · exact Nat.le_refl _
    omega

/-- A round of a CPU thread brings it nearer to its next poll. -/
theorem cpuHash_worked (h : x.cpuHash E k w = some y) :
    ∃ w', x.Worked y k (.cpu w') ∧ (Thread.cpu w).stopped = false ∧ ((Thread.cpu w).Walks →
      (Thread.cpu w').Walks ∧
        (Thread.cpu w').left + 3 * y.queue.length < (Thread.cpu w).left + 3 * x.queue.length) := by
  unfold Site.cpuHash at h
  split at h
  case h_2 => cases h
  next s hpc hstate =>
  have hmoving : (Thread.cpu w).stopped = false := by
    rw [Thread.stopped, hpc]
    rfl
  have hwalk : (Thread.cpu w).Walks → Walkable w.mask w.fixed := fun hwalks => hwalks (Or.inl (by rw [hstate]; rfl))
  have hdead : (Thread.cpu { w with state := none, pc := .stopped }).Walks := fun hor => by
    rcases hor with hor | hor <;> cases hor
  have hleft : (Thread.cpu w).Walks → ∀ found, (Thread.cpu (w.hash s found)).left + 3 < (Thread.cpu w).left :=
    fun hwalks => left_hash hstate hpc (hwalk hwalks)
  split at h
  · cases h
    exact ⟨{ w with state := none, pc := .stopped }, ⟨rfl, rfl, rfl, rfl, Or.inl rfl⟩, hmoving,
      fun hwalks => ⟨hdead, Nat.add_lt_add_right (Nat.zero_lt_of_lt (hleft hwalks false)) _⟩⟩
  · cases h
    exact ⟨_, worked_setThread .., hmoving, fun hwalks =>
      ⟨fun _ => hwalk hwalks, Nat.add_lt_add_right (Nat.lt_of_add_right_lt (hleft hwalks false)) _⟩⟩
  · obtain ⟨u, hu, hworked⟩ := worked_handOver h
    have hqueue := hworked.queue_le
    rcases hu with rfl | rfl
    · refine ⟨_, hworked, hmoving, fun hwalks => ⟨fun _ => hwalk hwalks, ?_⟩⟩
      have := hleft hwalks true
      omega
    · refine ⟨_, hworked, hmoving, fun hwalks => ⟨hdead, ?_⟩⟩
      have hzero : (Thread.cpu { w with state := none, pc := .stopped }).left = 0 := rfl
      have := hleft hwalks true
      omega

/-- A launch that ends with a share of a pool leaves the thread as it was, and so does a failed `sync` without a
    fallback; any other brings it on. -/
theorem left_launch (hpc : g.pc = .head) (hstate : g.state = some s) (result : RunResult) (builds : Bool) :
    (Thread.gpu (g.launch s result builds)).Between ∧
    (Thread.gpu (g.launch s result builds)).left ≤ (Thread.gpu g).left ∧
    (result = .share → s.block.isFull = true → (Thread.gpu (g.launch s result builds)).left = 4) ∧
    (result ≠ .share → (result = .syncError → g.fallback = true) →
      (Thread.gpu (g.launch s result builds)).left < (Thread.gpu g).left) := by
  have hleft : (Thread.gpu g).left = if g.fallback then 9 else 8 := by simp only [Thread.left, hpc, hstate]
  rw [hleft]
  cases hfallback : g.fallback with
  | false =>
    cases result with
    | panicked | outputError | wrongNonce | noNonce =>
      simp [GpuWorker.launch, GpuWorker.useFallback, hfallback, Thread.left, Thread.Between]
    | syncError => simp [GpuWorker.launch, GpuWorker.useFallback, hfallback, Thread.left, Thread.Between, hstate]
    | share =>
      cases hfull : s.block.isFull <;>
        simp [GpuWorker.launch, hfallback, Thread.left, Thread.Between, hfull]
  | true =>
    cases result with
    | panicked | outputError | syncError =>
      cases builds <;> simp [GpuWorker.launch, GpuWorker.useFallback, hfallback, Thread.left, Thread.Between, hstate]
    | wrongNonce | noNonce => simp [GpuWorker.launch, Thread.left, Thread.Between]
    | share =>
      cases hfull : s.block.isFull <;>
        simp [GpuWorker.launch, hfallback, Thread.left, Thread.Between, hfull]

theorem GpuWorker.launch_lastObserved (g : GpuWorker RpcBlock) (s : State RpcBlock) (result : RunResult) (builds : Bool) :
    (g.launch s result builds).lastObserved = g.lastObserved := by
  have hfallback : ∀ (g : GpuWorker RpcBlock) pc, (g.useFallback builds pc).lastObserved = g.lastObserved := fun g pc => by
    unfold useFallback
    split <;> rfl
  cases result with
  | panicked | syncError | outputError => exact hfallback _ _
  | noNonce | share | wrongNonce => rfl

/-- A launch brings a GPU thread on, unless it launches again. -/
theorem gpuLaunch_worked {report : Report} {builds : Bool} (h : x.gpuLaunch E k g report builds = some y) :
    ∃ g', x.Worked y k (.gpu g') ∧ (Thread.gpu g').Between ∧ (Thread.gpu g).stopped = false ∧
      g'.lastObserved = g.lastObserved ∧
      if E.relaunches g report then
        (Thread.gpu g').left + 3 * y.queue.length ≤ (Thread.gpu g).left + 3 * x.queue.length + 3
      else (Thread.gpu g').left + 3 * y.queue.length < (Thread.gpu g).left + 3 * x.queue.length := by
  unfold Site.gpuLaunch at h
  split at h
  case h_2 => cases h
  next s hpc hstate =>
  have hmoving : (Thread.gpu g).stopped = false := by
    rw [Thread.stopped, hpc]
    rfl
  have hpos : 7 < (Thread.gpu g).left := by
    simp only [Thread.left, hpc, hstate]
    split <;> decide
  have hlaunch := fun result => left_launch hpc hstate result builds
  have hobserved := fun result => g.launch_lastObserved s result builds
  have hdead : (Thread.gpu { g with state := none, pc := .stopped }).Between := by simp [Thread.Between]
  have hgoesOn : ∀ result, result ≠ .share → (result ≠ .syncError ∨ g.fallback = true) →
      (Thread.gpu (g.launch s result builds)).left + 3 * x.queue.length < (Thread.gpu g).left + 3 * x.queue.length :=
    fun result hne hsync => Nat.add_lt_add_right ((hlaunch result).2.2.2 hne fun h => hsync.resolve_left fun hn => hn h) _
  dsimp only at h
  cases report with
  | panicked =>
    cases h
    exact ⟨_, worked_setThread .., (hlaunch _).1, hmoving, hobserved _, hgoesOn .panicked (by decide) (by simp)⟩
  | syncError =>
    cases h
    refine ⟨_, worked_setThread .., (hlaunch _).1, hmoving, hobserved _, ?_⟩
    simp only [Setting.relaunches, Bool.not_eq_true']
    split
    · exact Nat.le_add_right_of_le (Nat.add_le_add_right (hlaunch .syncError).2.1 _)
    · next hfallback => exact hgoesOn .syncError (by decide) (Or.inr (Bool.not_eq_false _ ▸ hfallback))
  | outputError =>
    cases h
    exact ⟨_, worked_setThread .., (hlaunch _).1, hmoving, hobserved _, hgoesOn .outputError (by decide) (by simp)⟩
  | cell nonce =>
    dsimp only at h
    split at h
    · next hzero =>
      cases h
      have hnot : E.relaunches g (.cell nonce) = false := by simp [Setting.relaunches, hzero]
      rw [hnot]
      exact ⟨_, worked_setThread .., (hlaunch _).1, hmoving, hobserved _, hgoesOn .noNonce (by decide) (by simp)⟩
    · next hne =>
      split at h
      · next hnone =>
        cases h
        have hnot : E.relaunches g (.cell nonce) = false := by simp [Setting.relaunches, hstate, hnone]
        rw [hnot]
        exact ⟨{ g with state := none, pc := .stopped }, ⟨rfl, rfl, rfl, rfl, Or.inl rfl⟩, hdead, hmoving, rfl,
          Nat.add_lt_add_right (Nat.zero_lt_of_lt hpos) _⟩
      · next hmiss =>
        cases h
        have hnot : E.relaunches g (.cell nonce) = false := by simp [Setting.relaunches, hstate, hmiss]
        rw [hnot]
        exact ⟨_, worked_setThread .., (hlaunch _).1, hmoving, hobserved _, hgoesOn .wrongNonce (by decide) (by simp)⟩
      · next b hfound =>
        obtain ⟨u, hu, hworked⟩ := worked_handOver h
        have hqueue := hworked.queue_le
        have hfull : E.relaunches g (.cell nonce) = !s.block.isFull := by
          simp [Setting.relaunches, hstate, hfound, hne]
        rw [hfull]
        rcases hu with rfl | rfl
        · refine ⟨_, hworked, (hlaunch _).1, hmoving, hobserved _, ?_⟩
          cases hblock : s.block.isFull with
          | false =>
            have hle := (hlaunch .share).2.1
            simp only [Bool.not_false, if_true]
            omega
          | true =>
            have hfour := (hlaunch .share).2.2.1 rfl hblock
            simp only [Bool.not_true, Bool.false_eq_true, if_false]
            omega
        · refine ⟨_, hworked, hdead, hmoving, rfl, ?_⟩
          have hzero : (Thread.gpu { g with state := none, pc := .stopped }).left = 0 := rfl
          split <;> omega

/-- The thread that loses its worker has nothing left to do. -/
theorem gpuUnwind_worked (h : x.gpuUnwind k g = some y) :
    x.Worked y k (.gpu { g with state := none, pc := .stopped }) ∧ (Thread.gpu g).stopped = false ∧
      (Thread.gpu { g with state := none, pc := .stopped }).left + 3 * y.queue.length <
        (Thread.gpu g).left + 3 * x.queue.length := by
  unfold Site.gpuUnwind at h
  split at h
  case h_2 | h_3 | h_4 => cases h
  next hpc =>
  cases h
  refine ⟨⟨rfl, rfl, rfl, rfl, Or.inl rfl⟩, by rw [Thread.stopped, hpc]; rfl, Nat.add_lt_add_right ?_ _⟩
  simp only [Thread.left, hpc]
  cases g.state with
  | none => exact Nat.succ_pos 3
  | some s =>
    cases g.fallback
    · exact Nat.succ_pos 7
    · exact Nat.succ_pos 8

/-- The action makes a GPU thread launch again without a look at the channel. -/
def Crew.relaunches (E : Setting) (s : Crew) : CrewAction → Bool
  | .work k (.launch report _) =>
    match s.site.threads k with
    | .gpu g => E.relaunches g report
    | .cpu _ => false
  | _ => false

/-- A hash or a launch, or the end of the worker. -/
def ThreadAction.isWork : ThreadAction → Bool
  | .hash | .launch .. | .unwind => true
  | .reply _ | .channel => false

theorem stepThread_worked {c : Crew} {a : ThreadAction} (h : c.site.stepThread E k a = some y) (ha : a.isWork = true) :
    ∃ u, c.site.Worked y k u ∧ u.Between ∧ (c.site.threads k).stopped = false ∧
      (∀ g', u = .gpu g' → ∃ g, c.site.threads k = .gpu g ∧ g'.lastObserved = g.lastObserved) ∧
      ((c.site.threads k).Walks → u.Walks ∧
      if c.relaunches E (.work k a) then
        u.left + 3 * y.queue.length ≤ (c.site.threads k).left + 3 * c.site.queue.length + 3
      else u.left + 3 * y.queue.length < (c.site.threads k).left + 3 * c.site.queue.length) := by
  unfold Site.stepThread at h
  split at h
  · cases ha
  · next w hk =>
    obtain ⟨w', hworked, hmoving, hleft⟩ := cpuHash_worked h
    rw [hk]
    exact ⟨.cpu w', hworked, trivial, hmoving, fun _ => nofun, hleft⟩
  · next g report builds hk =>
    obtain ⟨g', hworked, hbetween, hmoving, hobserved, hleft⟩ :=
      gpuLaunch_worked (g := { g with channel := c.site.channel, senderAlive := c.site.senderAlive }) h
    simp only [Crew.relaunches, hk]
    refine ⟨.gpu g', hworked, hbetween, hmoving, ?_, fun _ => ⟨trivial, hleft⟩⟩
    rintro _ ⟨⟩
    exact ⟨g, rfl, hobserved⟩
  · cases ha
  · next g hk =>
    obtain ⟨hworked, hmoving, hleft⟩ := gpuUnwind_worked h
    rw [hk]
    refine ⟨_, hworked, by simp [Thread.Between], hmoving, ?_, fun _ => ⟨trivial, hleft⟩⟩
    rintro _ ⟨⟩
    exact ⟨g, rfl, rfl⟩
  · cases h

end
end CryptixMiner.Miner
