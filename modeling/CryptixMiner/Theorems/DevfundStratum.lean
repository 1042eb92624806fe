import CryptixMiner.Client.Session
import CryptixMiner.Lib.Cyclic

/-! Whose shares a pool miner mines. The address of a session is chosen when it registers, the counter moves
    within the session, and `listen` ends a session before a notification would be handled for the wrong
    address. -/

namespace CryptixMiner.Stratum
open StepSystem

/-! ### What handling a line keeps -/

/-- What `register` settles for a session. -/
def StratumHandler.session (h : StratumHandler) : String × Option String × UInt16 × Option Bool × String :=
  (h.minerAddress, h.devfundAddress, h.devfundPercent, h.miningDev, h.submitWorker)

section
variable {checks delivered : Bool} {h : StratumHandler} {shared : Shared}

theorem session_setPartition (sizeBytes : UInt32) (val : Except Hex.ParseIntError UInt64) :
    (h.setPartition sizeBytes val).2.session = h.session := by
  unfold StratumHandler.setPartition
  split
  · rfl
  · split <;> rfl

theorem session_setExtranonce (extranonce : String) (nonceSize : UInt32) :
    (h.setExtranonce extranonce nonceSize).2.session = h.session :=
  session_setPartition _ _

theorem session_setExtranonceEth (extranonce : String) : (h.setExtranonceEth extranonce).2.session = h.session :=
  session_setPartition _ _

theorem session_setDifficulty (difficulty : Difficulty) :
    (h.setDifficulty checks difficulty).2.session = h.session := by
  simp only [StratumHandler.setDifficulty]
  repeat' split
  all_goals rfl

theorem handler_onNotify (msg : StratumLine) (n : MiningNotify) :
    (h.onNotify shared delivered msg n).handler = h := by
  cases n with
  | short => rfl
  | headerHex id headerHex timestamp =>
    simp only [StratumHandler.onNotify]
    split <;> rfl
  | long => rfl

theorem handler_onAccepted (id : UInt32) : (h.onAccepted shared id).handler = h := by
  unfold StratumHandler.onAccepted
  split <;> rfl

theorem handler_onError (id : UInt32) (e : StratumError) : (h.onError shared id e).handler = h := by
  unfold StratumHandler.onError
  split
  · rfl
  · split <;> rfl

theorem session_handleMessage (line : StratumLine) :
    (h.handleMessage checks delivered shared line).handler.session = h.session := by
  unfold StratumHandler.handleMessage
  split
  · rename_i r id _ _ _
    unfold StratumHandler.onResult
    split
    · rw [handler_onAccepted]
    · rw [handler_onAccepted]
    · exact session_setExtranonce _ _
    · rfl
    · rfl
  · rfl
  · rename_i c _ _
    unfold StratumHandler.onCommand
    split
    · exact session_setExtranonce _ _
    · exact session_setExtranonceEth _
    · exact session_setDifficulty _
    · rw [handler_onNotify]
    all_goals rfl
  · rw [handler_onError]
  · rfl

/-! ### What a line does to the counter -/

theorem ctr_onNotify (msg : StratumLine) (n : MiningNotify) :
    (h.onNotify shared delivered msg n).shared.blockTemplateCtr =
      if StratumLine.advances ⟨msg.id, .command (.miningNotify n), none⟩ then (shared.blockTemplateCtr + 1) % 10000
      else shared.blockTemplateCtr := by
  cases n with
  | short => rfl
  | headerHex id headerHex timestamp =>
    simp only [StratumHandler.onNotify]
    split <;> rfl
  | long => rfl

theorem ctr_onAccepted (id : UInt32) :
    (h.onAccepted shared id).shared.blockTemplateCtr = shared.blockTemplateCtr := by
  unfold StratumHandler.onAccepted
  split <;> rfl

theorem ctr_onError (id : UInt32) (e : StratumError) :
    (h.onError shared id e).shared.blockTemplateCtr = shared.blockTemplateCtr := by
  unfold StratumHandler.onError
  split
  · rfl
  · split <;> rfl

/-- Only the two short forms of a notification move the counter, by one. -/
theorem ctr_handleMessage (line : StratumLine) :
    (h.handleMessage checks delivered shared line).shared.blockTemplateCtr =
      if line.advances then (shared.blockTemplateCtr + 1) % 10000 else shared.blockTemplateCtr := by
  obtain ⟨id, payload, e⟩ := line
  cases payload with
  | result r =>
    have hadvances : StratumLine.advances ⟨id, .result r, e⟩ = false := by cases e <;> rfl
    rw [hadvances, if_neg Bool.false_ne_true]
    cases e with
    | some e =>
      cases id with
      | none => rfl
      | some id => exact ctr_onError id e
    | none =>
      cases id with
      | none => rfl
      | some id =>
        change (h.onResult shared _ id r).shared.blockTemplateCtr = _
        unfold StratumHandler.onResult
        split <;> first | exact ctr_onAccepted id | rfl
  | command c =>
    cases e with
    | some e => rfl
    | none =>
      cases c with
      | setExtranonce e => cases e <;> rfl
      | miningNotify n => exact ctr_onNotify _ n
      | miningSetDifficulty | subscribe | authorize | miningSubmit => rfl

end

/-! ### The invariant of a run -/

namespace Process

/-- The session mines to the devfund just when its flag says so. -/
structure SessionOk (opt : Opt) (h : StratumHandler) : Prop where
  minerAddress : h.minerAddress = opt.miningAddress
  devfundAddress : h.devfundAddress = some opt.devfundAddress
  devfundPercent : h.devfundPercent = opt.devfundPercent
  submitWorker : ∀ dev, h.miningDev = some dev →
    h.submitWorker = if dev then opt.devfundAddress else opt.miningAddress

/-- The notification was handled for the address that its counter value stands for. -/
structure AdvanceOk (opt : Opt) (a : Advance) : Prop where
  miningDev : a.miningDev = decide (a.ctr < opt.devfundPercent)
  submitWorker : a.submitWorker = if a.miningDev then opt.devfundAddress else opt.miningAddress

structure DevfundInv (opt : Opt) (p : Process) : Prop where
  session : ∀ h, p.handler = some h → SessionOk opt h
  advances : ∀ a ∈ p.advances, AdvanceOk opt a
  counts : Cyclic.CountsTo 10000 (p.advances.map fun a => a.ctr.toNat) p.shared.blockTemplateCtr.toNat

section
variable {opt : Opt} {checks : Bool} {p q : Process} {a : Action} {h : StratumHandler} {ctr : UInt16}

theorem SessionOk.of_session (hok : SessionOk opt h) {h' : StratumHandler} (heq : h'.session = h.session) :
    SessionOk opt h' := by
  simp only [StratumHandler.session, Prod.mk.injEq] at heq
  obtain ⟨hminer, haddress, hpercent, hdev, hworker⟩ := heq
  exact ⟨hminer.trans hok.minerAddress, haddress.trans hok.devfundAddress, hpercent.trans hok.devfundPercent,
    fun dev hsome => hworker.trans (hok.submitWorker dev (hdev.symm.trans hsome))⟩

theorem SessionOk.shouldMineDev (hok : SessionOk opt h) (hpos : 0 < opt.devfundPercent) :
    h.shouldMineDev ctr = decide (ctr < opt.devfundPercent) := by
  simp [StratumHandler.shouldMineDev, StratumHandler.devfundEnabled, hok.devfundAddress, hok.devfundPercent, hpos]

theorem SessionOk.register (hok : SessionOk opt h) : SessionOk opt (h.register ctr) := by
  refine ⟨hok.minerAddress, hok.devfundAddress, hok.devfundPercent, fun dev hdev => ?_⟩
  cases hdev
  simp only [StratumHandler.register, hok.devfundAddress, hok.minerAddress, Option.getD_some]

theorem SessionOk.connect :
    SessionOk opt ((StratumHandler.connect opt.miningAddress).addDevfund opt.devfundAddress opt.devfundPercent) :=
  ⟨rfl, rfl, rfl, fun _ hdev => nomatch hdev⟩

/-- The check in front of the next line leaves only sessions that mine to the address it is for. -/
theorem SessionOk.miningDev_of_listens (hok : SessionOk opt h) (hpos : 0 < opt.devfundPercent)
    (hlistens : h.listens ctr = true) : h.miningDev.getD false = decide (ctr < opt.devfundPercent) := by
  have henabled : h.devfundEnabled = true := by
    simp [StratumHandler.devfundEnabled, hok.devfundAddress, hok.devfundPercent, hpos]
  simpa [StratumHandler.listens, henabled, hok.shouldMineDev hpos] using hlistens

theorem advanceOk_of_listens (hok : SessionOk opt h) (hpos : 0 < opt.devfundPercent)
    (hsome : h.miningDev.isSome = true) (hlistens : h.listens ctr = true) :
    AdvanceOk opt ⟨ctr, h.miningDev.getD false, h.submitWorker⟩ := by
  obtain ⟨dev, hdev⟩ := Option.isSome_iff_exists.mp hsome
  refine ⟨hok.miningDev_of_listens hpos hlistens, ?_⟩
  simpa only [hdev, Option.getD_some] using hok.submitWorker dev hdev

theorem DevfundInv.receive (hinv : DevfundInv opt p) (hpos : 0 < opt.devfundPercent) (hh : p.handler = some h)
    (hsome : h.miningDev.isSome = true) (hlistens : h.listens p.shared.blockTemplateCtr = true) (line : StratumLine)
    (delivered : Bool) : DevfundInv opt (p.receive checks h line delivered) := by
  have hok := hinv.session h hh
  refine ⟨fun h' hh' => ?_, fun a ha => ?_, ?_⟩
  · have hkept : (h.handleMessage checks delivered p.shared line).handler.session = h.session :=
      session_handleMessage line
    cases hh'
    exact hok.of_session hkept
  · simp only [Process.receive] at ha
    split at ha
    · rcases List.mem_cons.mp ha with rfl | ha
      · exact advanceOk_of_listens hok hpos hsome hlistens
      · exact hinv.advances a ha
    · exact hinv.advances a ha
  · simp only [Process.receive, ctr_handleMessage]
    split
    · exact ⟨Cyclic.toNat_next (hinv.counts.lt (by decide)), hinv.counts⟩
    · exact hinv.counts

theorem DevfundInv.kept (hinv : DevfundInv opt p) (hpos : 0 < opt.devfundPercent)
    (hs : step opt checks p a = some q) : DevfundInv opt q := by
  obtain ⟨rfl, rfl⟩ | ⟨rfl, rfl⟩ | ⟨rfl, -, rfl⟩ | ⟨h, hh, ⟨rfl, -, rfl⟩ | ⟨jobId, rfl, rfl⟩ |
    ⟨line, delivered, rfl, -, hsome, hlistens, rfl⟩⟩ := step_cases hs
  · refine ⟨fun h hh => ?_, hinv.advances, hinv.counts⟩
    simp only [connect, if_pos hpos, Option.some.injEq] at hh
    exact hh ▸ SessionOk.connect
  · exact ⟨hinv.session, hinv.advances, hinv.counts⟩
  · exact ⟨(fun _ hh => nomatch hh), hinv.advances, hinv.counts⟩
  · refine ⟨fun h' hh' => ?_, hinv.advances, hinv.counts⟩
    cases hh'
    exact (hinv.session h hh).register
  · refine ⟨fun h' hh' => ?_, hinv.advances, hinv.counts⟩
    cases hh'
    exact (hinv.session h hh).of_session rfl
  · exact hinv.receive hpos hh hsome hlistens line delivered

theorem DevfundInv.of_run {as : List Action} (hpos : 0 < opt.devfundPercent) (hctr : ctr < 10000)
    (hrun : run (step opt checks) (start ctr) as = some p) : DevfundInv opt p :=
  (Reachable.of_run as hrun).inv ⟨(fun _ hh => nomatch hh), (fun _ ha => nomatch ha), UInt16.lt_iff_toNat_lt.mp hctr⟩
    fun _ _ _ hinv _ hs => hinv.kept hpos hs

/-! ### The share of the devfund -/

theorem countP_miningDev {w : List Advance} (hok : ∀ a ∈ w, AdvanceOk opt a) :
    w.countP (fun a => a.miningDev) = (w.map fun a => a.ctr.toNat).countP (fun v => v < opt.devfundPercent.toNat) := by
  rw [List.countP_map]
  refine List.countP_congr fun a ha => ?_
  rw [(hok a ha).miningDev, Function.comp_apply, decide_eq_true_iff, decide_eq_true_iff, UInt16.lt_iff_toNat_lt]

/-- Among any 10000 advances in a row the devfund has exactly its share. -/
theorem DevfundInv.count_window (hinv : DevfundInv opt p) (hpercent : opt.devfundPercent ≤ 10000)
    {pre w post : List Advance} (hadvances : p.advances = pre ++ w ++ post) (hw : w.length = 10000) :
    w.countP (fun a => a.miningDev) = opt.devfundPercent.toNat := by
  have hmem : ∀ a ∈ w, AdvanceOk opt a := fun a ha =>
    hinv.advances a (hadvances ▸ List.mem_append_left _ (List.mem_append_right _ ha))
  have hcounts := hinv.counts
  rw [hadvances, List.map_append, List.map_append] at hcounts
  rw [countP_miningDev hmem, hcounts.count_window (· < opt.devfundPercent.toNat) (by decide) (by simpa using hw)]
  exact Cyclic.count_lt (UInt16.le_iff_toNat_le.mp hpercent)

theorem countP_devfundAddress {w : List Advance} (hok : ∀ a ∈ w, AdvanceOk opt a)
    (hne : opt.devfundAddress ≠ opt.miningAddress) :
    w.countP (fun a => a.submitWorker = opt.devfundAddress) = w.countP (fun a => a.miningDev) ∧
      w.countP (fun a => a.submitWorker = opt.miningAddress) = w.countP (fun a => !a.miningDev) := by
  constructor <;> refine List.countP_congr fun a ha => ?_
  · rw [(hok a ha).submitWorker]
    cases a.miningDev <;> simp [hne.symm]
  · rw [(hok a ha).submitWorker]
    cases a.miningDev <;> simp [hne]

/-- Every notification is handled for the address that its counter value stands for, and so among any 10000
    advances in a row the devfund address gets exactly its percentage and the miner address the rest. -/
theorem devfund_share {as : List Action} (hpos : 0 < opt.devfundPercent) (hpercent : opt.devfundPercent < 10000)
    (hctr : ctr < 10000) (hrun : run (step opt checks) (start ctr) as = some p) :
    Cyclic.CountsTo 10000 (p.advances.map fun a => a.ctr.toNat) p.shared.blockTemplateCtr.toNat ∧
    (∀ a ∈ p.advances, a.miningDev = decide (a.ctr < opt.devfundPercent) ∧
      a.submitWorker = (if a.miningDev then opt.devfundAddress else opt.miningAddress) ∧
      (opt.devfundAddress ≠ opt.miningAddress → (a.submitWorker = opt.devfundAddress ↔ a.miningDev = true))) ∧
    ∀ pre w post, p.advances = pre ++ w ++ post → w.length = 10000 →
      w.countP (fun a => a.miningDev) = opt.devfundPercent.toNat ∧
      w.countP (fun a => !a.miningDev) = 10000 - opt.devfundPercent.toNat ∧
      (opt.devfundAddress ≠ opt.miningAddress →
        w.countP (fun a => a.submitWorker = opt.devfundAddress) = opt.devfundPercent.toNat ∧
        w.countP (fun a => a.submitWorker = opt.miningAddress) = 10000 - opt.devfundPercent.toNat) := by
  have hinv := DevfundInv.of_run hpos hctr hrun
  refine ⟨hinv.counts, fun a ha => ?_, fun pre w post hadvances hw => ?_⟩
  · have hok := hinv.advances a ha
    refine ⟨hok.miningDev, hok.submitWorker, fun hne => ?_⟩
    rw [hok.submitWorker]
    cases a.miningDev <;> simp [hne.symm]
  · have hmem : ∀ a ∈ w, AdvanceOk opt a := fun a ha =>
      hinv.advances a (hadvances ▸ List.mem_append_left _ (List.mem_append_right _ ha))
    have hdev := hinv.count_window (UInt16.le_of_lt hpercent) hadvances hw
    have hrest : w.countP (fun a => !a.miningDev) = 10000 - opt.devfundPercent.toNat := by
      have hsum := List.length_eq_countP_add_countP (fun a : Advance => a.miningDev) (l := w)
      simp only [Bool.not_eq_true, Bool.decide_eq_false] at hsum
      omega
    refine ⟨hdev, hrest, fun hne => ?_⟩
    obtain ⟨hdevfund, hminer⟩ := countP_devfundAddress hmem hne
    exact ⟨hdevfund.trans hdev, hminer.trans hrest⟩

/-- One percent in ten thousand: the counter comes round, the devfund gets one notification in a session of its own,
    and the miner the next ones. -/
def threeSessions : List Action :=
  let notify : Action := .receive ⟨none, .command (.miningNotify (.short "job" ⟨Vector.replicate 4 0⟩ 0)), none⟩ true
  [.connect, .register, notify, .close, .drop, .connect, .register, notify, .close, .submit "job", .drop,
   .connect, .register, notify, notify]

theorem devfund_share_three :
    ∃ p, run (step ⟨"miner", "devfund", 1⟩ false) (start 9999) threeSessions = some p ∧
      p.advances = [⟨2, false, "miner"⟩, ⟨1, false, "miner"⟩, ⟨0, true, "devfund"⟩, ⟨9999, false, "miner"⟩] ∧
      ∀ a ∈ p.advances, a.miningDev = decide (a.ctr < 1) ∧
        a.submitWorker = (if a.miningDev then "devfund" else "miner") := by
  obtain ⟨p, hrun⟩ : ∃ p, run (step ⟨"miner", "devfund", 1⟩ false) (start 9999) threeSessions = some p := ⟨_, rfl⟩
  have hshare := devfund_share (by decide) (by decide) (by decide) hrun
  refine ⟨p, hrun, ?_, fun a ha => ⟨(hshare.2.1 a ha).1, (hshare.2.1 a ha).2.1⟩⟩
  cases hrun
  rfl

end
end Process
end CryptixMiner.Stratum
