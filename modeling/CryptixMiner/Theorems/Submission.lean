import CryptixMiner.Theorems.Site

/-! What a node or a pool is sent, over any run of a client and its miners: solutions of what it has sent itself. -/

namespace CryptixMiner
open StepSystem
open Miner (Setting Site SiteAction Event)

/-! ### A node -/

namespace Grpc

def SessionAction.template? : SessionAction → Option RpcBlock
  | .client (.receive (some (.getBlockTemplateResponse block _ _)) _) _ _ => block
  | _ => none

/-- A message of the run carries the template. -/
def Offered (as : List SessionAction) (template : RpcBlock) : Prop := ∃ a ∈ as, a.template? = some template

def IsOffered (as : List SessionAction) (seed : BlockSeed RpcBlock) : Prop :=
  ∃ template, Offered as template ∧ seed = .fullBlock template

namespace Session

structure Sound (opt : Opt) (S : Semver) (E : Setting) (ctr : UInt16) (as : List SessionAction) (s : Session) : Prop where
  process : Reachable (@Process.step RpcBlock opt S) (.start ctr) s.process
  site : s.site.Sound E (IsOffered as)
  past : ∀ x ∈ s.past, x.Sound E (IsOffered as)
  blocks : ∀ block ∈ s.blocks, E.Found (IsOffered as) (.fullBlock block)
  reached : s.unreachable = false
  sent : s.blocks.map .fullBlock = (s.site :: s.past).flatMap fun x => x.sent.reverse

variable {opt : Opt} {S : Semver} {E : Setting} {ctr : UInt16} {as : List SessionAction} {s t : Session}

theorem start_sound (opt : Opt) (S : Semver) (E : Setting) (ctr : UInt16) (kinds : Nat → UInt64 ⊕ Bool)
    (as : List SessionAction) : (start ctr kinds).Sound opt S E ctr as :=
  ⟨.init, Miner.Site.start_sound kinds, fun _ hx => absurd hx List.not_mem_nil,
    fun _ hblock => absurd hblock List.not_mem_nil, rfl, rfl⟩

/-- Only a template is given to `process_block`. -/
theorem template_of_given {answers : Answers} {h : CryptixdHandler} {c : UInt16} {payload : Payload RpcBlock}
    {block : RpcBlock} (hgiven : (h.handleMessage S answers c payload).given = some (some block)) :
    ∃ isSynced error, payload = .getBlockTemplateResponse (some block) isSynced error := by
  unfold CryptixdHandler.handleMessage at hgiven
  split at hgiven
  · cases hgiven
  · cases hgiven
  · next b =>
    cases hgiven
    exact ⟨true, none, rfl⟩
  · split at hgiven
    · next b =>
      have hmines : (if h.mineWhenNotSynced = true then some b else none) = some block := Option.some.inj hgiven
      obtain ⟨-, hb⟩ := Option.ite_none_right_eq_some.mp hmines
      cases hb
      exact ⟨false, none, rfl⟩
    · cases hgiven
  · cases hgiven
  · cases hgiven
  · cases hgiven
  · cases hgiven
  · cases hgiven
  · split at hgiven
    · unfold CryptixdHandler.subscribe at hgiven
      dsimp only at hgiven
      split at hgiven <;> cases hgiven
    · cases hgiven
  · cases hgiven
  · cases hgiven
  · cases hgiven

theorem Sound.receive {h : CryptixdHandler} {payload : Payload RpcBlock} {answers : Answers} {delivered : Bool}
    {process : Process} (hs : s.Sound opt S E ctr as) (hprocess : Reachable (@Process.step RpcBlock opt S) (.start ctr) process)
    (ha : ∀ template isSynced error, payload = .getBlockTemplateResponse (some template) isSynced error →
      Offered as template)
    (hstep : s.receive S E h payload answers delivered process = some t) : t.Sound opt S E ctr as := by
  unfold Session.receive at hstep
  split at hstep
  · cases hstep
    exact ⟨hprocess, hs.site, hs.past, hs.blocks, hs.reached, hs.sent⟩
  · next block hgiven =>
    dsimp only at hstep
    split at hstep
    case isFalse => cases hstep
    cases hstep
    refine ⟨hprocess, hs.site.process delivered fun seed hseed => ?_, hs.past, hs.blocks, hs.reached, ?_⟩
    · obtain ⟨template, hblock, rfl⟩ := Option.map_eq_some_iff.mp hseed
      rw [hblock] at hgiven
      obtain ⟨isSynced, error, hpayload⟩ := template_of_given hgiven
      exact ⟨template, ha template isSynced error hpayload, rfl⟩
    · rw [hs.sent, List.flatMap_cons, List.flatMap_cons, Site.sent_process]

/-- The task reaches no `unreachable!`: what solves a template is a block. -/
theorem full_of_found {b : BlockSeed RpcBlock} (h : E.Found (IsOffered as) b) : ∃ block, b = .fullBlock block := by
  obtain ⟨seed, nonce, ⟨template, -, rfl⟩, hsolves⟩ := h
  cases hsolves.withNonce
  exact ⟨_, rfl⟩

theorem Sound.step {a : SessionAction} (h : s.Sound opt S E ctr as) (ha : a ∈ as) (hstep : s.step opt S E a = some t) :
    t.Sound opt S E ctr as := by
  cases a with
  | client a delivered kinds =>
    obtain ⟨process, hprocess, hstep⟩ := Option.bind_eq_some_iff.mp hstep
    have hreach := h.process.step trivial hprocess
    split at hstep
    · cases hstep
      exact ⟨hreach, Miner.Site.start_sound kinds, List.forall_mem_cons.mpr ⟨h.site, h.past⟩, h.blocks, h.reached, h.sent⟩
    · next payload answers handler _ =>
      refine h.receive hreach (fun template isSynced error hpayload => ?_) hstep
      exact ⟨_, ha, by rw [hpayload]; rfl⟩
    · cases hstep
      exact ⟨hreach, h.site, h.past, h.blocks, h.reached, h.sent⟩
  | site a =>
    obtain ⟨site, hsite, rfl⟩ := Option.map_eq_some_iff.mp hstep
    refine ⟨h.process, h.site.step hsite, h.past, h.blocks, h.reached, ?_⟩
    rw [h.sent, List.flatMap_cons, List.flatMap_cons, Site.sent_step hsite]
  | forward =>
    obtain ⟨⟨b, site⟩, hforward, heq⟩ := Option.map_eq_some_iff.mp hstep
    obtain ⟨hfound, hsite, hsent⟩ := h.site.forward hforward
    obtain ⟨block, rfl⟩ := full_of_found hfound
    cases heq
    refine ⟨h.process, hsite, h.past, fun c hc => ?_, h.reached, ?_⟩
    · rcases List.mem_cons.mp hc with rfl | hc
      · exact hfound
      · exact h.blocks c hc
    · rw [List.map_cons, h.sent, List.flatMap_cons, List.flatMap_cons, hsent, List.reverse_append]
      rfl

end Session

end Grpc

/-! ### A pool -/

/-- The id of a job of a pool. -/
def BlockSeed.jobId : BlockSeed Empty → String
  | .fullBlock block => block.elim
  | .partialBlock id .. => id

/-- The id and the nonce of a share, as its line has them. -/
def BlockSeed.submitted : BlockSeed RpcBlock → Option (String × String)
  | .fullBlock _ => none
  | .partialBlock id _ _ nonce .. => some (id, Hex.format 16 nonce.toNat)

namespace Stratum

/-- A line of the run made this a job, as the client stood then. -/
def Notified (opt : Opt) (E : Setting) (init : Session) (as : List SessionAction) (seed : BlockSeed Empty) : Prop :=
  ∃ pre line delivered kinds post s h, as = pre ++ .client (.receive line delivered) kinds :: post ∧
    run (Session.step opt E) init pre = some s ∧ s.process.handler = some h ∧
    (h.handleMessage E.checks delivered s.process.shared line).seed = some seed

def IsNotified (opt : Opt) (E : Setting) (init : Session) (as : List SessionAction) (b : BlockSeed RpcBlock) : Prop :=
  ∃ seed, Notified opt E init as seed ∧ b = seed.ofPool

namespace Session

structure Sound (opt : Opt) (E : Setting) (ctr : UInt16) (s init : Session) (as : List SessionAction) : Prop where
  process : Reachable (Process.step opt E.checks) (.start ctr) s.process
  site : s.site.Sound E (IsNotified opt E init as)
  past : ∀ x ∈ s.past, x.Sound E (IsNotified opt E init as)
  lines : ∀ line ∈ s.lines, ∃ seed nonce b, Notified opt E init as seed ∧ seed.jobId = line.jobId ∧
    line.nonce = Hex.format 16 nonce.toNat ∧ E.Solves seed.ofPool b nonce
  reached : s.unreachable = false
  sent : (s.lines.map fun line => some (line.jobId, line.nonce)) =
    (s.site :: s.past).flatMap fun x => (x.sent.map BlockSeed.submitted).reverse

variable {opt : Opt} {E : Setting} {ctr : UInt16} {init s t : Session} {as : List SessionAction}

/-- What solves a job of the pool is a share, with the id of the job. -/
theorem share_of_solves {seed : BlockSeed Empty} {b : BlockSeed RpcBlock} {nonce : UInt64}
    (h : E.Solves seed.ofPool b nonce) : ∃ headerHash timestamp target nonceMask nonceFixed hash,
      b = .partialBlock seed.jobId headerHash timestamp nonce target nonceMask nonceFixed hash := by
  cases seed with
  | fullBlock block => exact block.elim
  | partialBlock id headerHash timestamp nonce₀ target nonceMask nonceFixed hash₀ =>
    cases h.withNonce with
    | share => exact ⟨_, _, _, _, _, _, rfl⟩

theorem start_sound (opt : Opt) (E : Setting) (ctr : UInt16) (kinds : Nat → UInt64 ⊕ Bool) (init : Session)
    (as : List SessionAction) : (start ctr kinds).Sound opt E ctr init as :=
  ⟨.init, Miner.Site.start_sound kinds, fun _ hx => absurd hx List.not_mem_nil,
    fun _ hline => absurd hline List.not_mem_nil, rfl, rfl⟩

theorem Sound.client {pre post : List SessionAction} {a : Action} {kinds : Nat → UInt64 ⊕ Bool}
    (h : s.Sound opt E ctr init as) (has : as = pre ++ .client a kinds :: post)
    (hpre : run (Session.step opt E) init pre = some s) (hstep : s.client opt E a kinds = some t) :
    t.Sound opt E ctr init as := by
  obtain ⟨process, hprocess, hstep⟩ := Option.bind_eq_some_iff.mp hstep
  have hreach := h.process.step trivial hprocess
  split at hstep
  · cases hstep
    exact ⟨hreach, Miner.Site.start_sound kinds, List.forall_mem_cons.mpr ⟨h.site, h.past⟩, h.lines, h.reached, h.sent⟩
  · next line delivered handler hhandler _ =>
    cases hstep
    unfold Session.receive
    split
    · exact ⟨hreach, h.site, h.past, h.lines, h.reached, h.sent⟩
    · next seed hseed =>
      have hjob : ∀ b, some seed.ofPool = some b → IsNotified opt E init as b := fun b hb => by
        cases hb
        exact ⟨seed, ⟨pre, line, delivered, kinds, post, s, handler, has, hpre, hhandler, hseed⟩, rfl⟩
      refine ⟨hreach, h.site.process delivered hjob, h.past, h.lines, h.reached, ?_⟩
      rw [h.sent, List.flatMap_cons, List.flatMap_cons, Miner.Site.sent_process]
  · cases hstep
  · cases hstep
    exact ⟨hreach, h.site, h.past, h.lines, h.reached, h.sent⟩

theorem Sound.forward (h : s.Sound opt E ctr init as) (hstep : s.forward opt E = some t) : t.Sound opt E ctr init as := by
  obtain ⟨handler, hhandler, hstep⟩ := Option.bind_eq_some_iff.mp hstep
  obtain ⟨⟨b, site⟩, hforward, hstep⟩ := Option.bind_eq_some_iff.mp hstep
  obtain ⟨⟨_, nonce, ⟨seed, hnotified, rfl⟩, hsolves⟩, hsite, hsent⟩ := h.site.forward hforward
  obtain ⟨headerHash, timestamp, target, nonceMask, nonceFixed, hash, rfl⟩ := share_of_solves hsolves
  obtain ⟨process, hprocess, hstep⟩ := Option.bind_eq_some_iff.mp hstep
  cases hstep
  refine ⟨h.process.step trivial hprocess, hsite, h.past, fun line hline => ?_, h.reached, ?_⟩
  · rcases List.mem_cons.mp hline with rfl | hline
    · exact ⟨seed, nonce, _, hnotified, rfl, rfl, hsolves⟩
    · exact h.lines line hline
  · rw [List.map_cons, h.sent, List.flatMap_cons, List.flatMap_cons, hsent, List.map_append, List.reverse_append]
    rfl

theorem Sound.step {pre post : List SessionAction} {a : SessionAction} (h : s.Sound opt E ctr init as)
    (has : as = pre ++ a :: post) (hpre : run (Session.step opt E) init pre = some s) (hstep : s.step opt E a = some t) :
    t.Sound opt E ctr init as := by
  cases a with
  | client a kinds => exact h.client has hpre hstep
  | site a =>
    obtain ⟨site, hsite, rfl⟩ := Option.map_eq_some_iff.mp hstep
    refine ⟨h.process, h.site.step hsite, h.past, h.lines, h.reached, ?_⟩
    rw [h.sent, List.flatMap_cons, List.flatMap_cons, Miner.Site.sent_step hsite]
  | forward => exact h.forward hstep

end Session

end Stratum
end CryptixMiner
