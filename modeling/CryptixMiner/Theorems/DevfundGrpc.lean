import CryptixMiner.Client.Grpc
import CryptixMiner.Lib.Cyclic

/-! Whom the templates of a node pay. The counter runs through ten thousand values and the guard takes one
    value more than the percentage: the devfund gets one template too many in each ten thousand. -/

namespace CryptixMiner.Grpc
open StepSystem

/-! ### What a message does to the counter -/

section
variable {Block : Type} {S : Semver} {answers : Answers} {h : CryptixdHandler} {ctr : UInt16}

/-- The handling asked for no template and left the counter, or asked for one and advanced it. -/
def AsksAtMostOnce (h : CryptixdHandler) (ctr : UInt16) (r : Handled Block) : Prop :=
  (r.sends.filterMap Request.payAddress? = [] ∧ r.blockTemplateCtr = ctr) ∨
  (r.sends.filterMap Request.payAddress? = [h.payAddress ctr] ∧ r.blockTemplateCtr = (ctr + 1) % 10000)

theorem asks_subscribe (newTemplates : Bool) :
    AsksAtMostOnce h ctr (h.subscribe answers ctr newTemplates : Handled Block) := by
  unfold CryptixdHandler.subscribe
  cases answers.sent 0
  · exact Or.inl ⟨by cases newTemplates <;> rfl, rfl⟩
  · exact Or.inr ⟨by cases newTemplates <;> rfl, rfl⟩

theorem asks_handleMessage (payload : Payload Block) :
    AsksAtMostOnce h ctr (h.handleMessage S answers ctr payload) := by
  unfold CryptixdHandler.handleMessage
  split
  case h_1 | h_2 => exact Or.inr ⟨rfl, rfl⟩
  case h_4 => split <;> exact Or.inl ⟨rfl, rfl⟩
  case h_10 =>
    split
    · exact asks_subscribe _
    · exact Or.inl ⟨rfl, rfl⟩
  all_goals exact Or.inl ⟨rfl, rfl⟩

end

/-! ### The invariant of a run -/

namespace Process
variable {Block : Type} {opt : Opt} {S : Semver} {p q : Process} {a : Action Block} {h : CryptixdHandler} {ctr : UInt16}

/-- The address that a template is asked for at this value of the counter. -/
def payAddress (opt : Opt) (ctr : UInt16) : String :=
  if ctr ≤ opt.devfundPercent then opt.devfundAddress else opt.miningAddress

structure DevfundInv (opt : Opt) (p : Process) : Prop where
  session : ∀ h, p.handler = some h → ∀ ctr, h.payAddress ctr = payAddress opt ctr
  asked : ∀ a ∈ p.asked, a.payAddress = payAddress opt a.ctr
  counts : Cyclic.CountsTo 10000 (p.asked.map fun a => a.ctr.toNat) p.blockTemplateCtr.toNat

theorem DevfundInv.receive (hinv : DevfundInv opt p) (hh : p.handler = some h) (payload : Payload Block)
    (answers : Answers) : DevfundInv opt (p.receive S h payload answers) := by
  have hsession : ∀ h', (p.receive S h payload answers).handler = some h' →
      ∀ ctr, h'.payAddress ctr = payAddress opt ctr := fun h' hh' => by
    simp only [Process.receive] at hh'
    split at hh'
    · cases hh'
      exact hinv.session h hh
    · cases hh'
    · cases hh'
  have hasks : AsksAtMostOnce h p.blockTemplateCtr (h.handleMessage S answers p.blockTemplateCtr payload) :=
    asks_handleMessage payload
  obtain ⟨hasked, hctr⟩ | ⟨hasked, hctr⟩ := hasks
  · refine ⟨hsession, ?_, ?_⟩ <;> simp only [Process.receive, hasked, hctr, List.map_nil, List.nil_append]
    · exact hinv.asked
    · exact hinv.counts
  · refine ⟨hsession, fun a ha => ?_, ?_⟩
    · simp only [Process.receive, hasked, List.map_cons, List.map_nil, List.singleton_append, List.mem_cons] at ha
      rcases ha with rfl | ha
      · exact hinv.session h hh _
      · exact hinv.asked a ha
    · simp only [Process.receive, hasked, hctr, List.map_cons, List.map_nil, List.singleton_append]
      exact ⟨Cyclic.toNat_next (hinv.counts.lt (by decide)), hinv.counts⟩

theorem DevfundInv.kept (hinv : DevfundInv opt p) (hpos : 0 < opt.devfundPercent) (hs : step opt S p a = some q) :
    DevfundInv opt q := by
  unfold step at hs
  split at hs
  · split at hs
    · cases hs
      refine ⟨fun h hh ctr => ?_, hinv.asked, hinv.counts⟩
      simp only [connect, if_pos hpos, Option.some.injEq] at hh
      exact hh ▸ rfl
    · cases hs
      exact ⟨(fun _ hh => nomatch hh), hinv.asked, hinv.counts⟩
    · rename_i payload answers h hh
      cases hs
      exact hinv.receive hh payload answers
    · cases hs
      exact hinv
    · cases hs
  · cases hs

theorem DevfundInv.of_run {as : List (Action Block)} (hpos : 0 < opt.devfundPercent) (hctr : ctr < 10000)
    (hrun : run (step opt S) (start ctr) as = some p) : DevfundInv opt p :=
  (Reachable.of_run as hrun).inv ⟨(fun _ hh => nomatch hh), (fun _ ha => nomatch ha), UInt16.lt_iff_toNat_lt.mp hctr⟩
    fun _ _ _ hinv _ hs => hinv.kept hpos hs

/-! ### The share of the devfund -/

/-- Of ten thousand counter values the guard takes those up to the percentage, and the percentage too. -/
theorem count_le {q : Nat} (hq : q < 10000) : Nat.count (· ≤ q) 10000 = q + 1 := by
  have hlt := Cyclic.count_lt (n := 10000) (q := q + 1) hq
  simpa only [Nat.lt_succ_iff] using hlt

theorem DevfundInv.count_window (hinv : DevfundInv opt p) (hpercent : opt.devfundPercent < 10000)
    {pre w post : List Asked} (hasked : p.asked = pre ++ w ++ post) (hw : w.length = 10000) :
    w.countP (fun a => a.ctr ≤ opt.devfundPercent) = opt.devfundPercent.toNat + 1 := by
  have hcounts := hinv.counts
  rw [hasked, List.map_append, List.map_append] at hcounts
  have hwindow := hcounts.count_window (· ≤ opt.devfundPercent.toNat) (by decide) (by simpa using hw)
  rw [List.countP_map] at hwindow
  simpa only [Function.comp_def, ← UInt16.le_iff_toNat_le, count_le (UInt16.lt_iff_toNat_lt.mp hpercent)] using hwindow

/-- With two different addresses the devfund is paid by exactly one template more than its percentage. -/
theorem DevfundInv.count_devfund (hinv : DevfundInv opt p) (hpercent : opt.devfundPercent < 10000)
    (hne : opt.devfundAddress ≠ opt.miningAddress) {pre w post : List Asked} (hasked : p.asked = pre ++ w ++ post)
    (hw : w.length = 10000) :
    w.countP (fun a => a.payAddress = opt.devfundAddress) = opt.devfundPercent.toNat + 1 := by
  rw [← hinv.count_window hpercent hasked hw]
  refine List.countP_congr fun a ha => ?_
  rw [hinv.asked a (hasked ▸ List.mem_append_left _ (List.mem_append_right _ ha)), payAddress]
  by_cases hle : a.ctr ≤ opt.devfundPercent <;> simp [hle, hne.symm]

theorem DevfundInv.count_same (hinv : DevfundInv opt p) (hsame : opt.devfundAddress = opt.miningAddress)
    {pre w post : List Asked} (hasked : p.asked = pre ++ w ++ post) (hw : w.length = 10000) :
    w.countP (fun a => a.payAddress = opt.devfundAddress) = 10000 := by
  rw [← hw, List.countP_eq_length]
  intro a ha
  rw [hinv.asked a (hasked ▸ List.mem_append_left _ (List.mem_append_right _ ha)), payAddress, ← hsame, ite_self]
  exact decide_eq_true rfl

theorem run_notifications (S : Semver) (Block : Type) (opt : Opt) (answers : Answers) (hsent : answers.sent 0 = true) (n : Nat) :
    ∀ p : Process, p.alive = true → p.handler.isSome = true →
      ∃ q, run (step opt S) p (List.replicate n (.receive (some (.newBlockTemplateNotification : Payload Block)) answers)) =
        some q ∧ q.asked.length = p.asked.length + n := by
  induction n with
  | zero => exact fun p _ _ => ⟨p, rfl, rfl⟩
  | succ n ih =>
    intro p halive hsome
    obtain ⟨h, hh⟩ := Option.isSome_iff_exists.mp hsome
    have hstep : step opt S p (.receive (some (.newBlockTemplateNotification : Payload Block)) answers) =
        some (p.receive S h (.newBlockTemplateNotification : Payload Block) answers) := by
      simp only [step, halive, hh, if_true]
    have houtcome : (h.handleMessage S answers p.blockTemplateCtr
        (.newBlockTemplateNotification : Payload Block)).outcome = .ok := by
      simp only [CryptixdHandler.handleMessage, CryptixdHandler.clientGetBlockTemplate, hsent, if_true]
    obtain ⟨q, hrun, hlen⟩ := ih (p.receive S h (.newBlockTemplateNotification : Payload Block) answers)
      (by simp only [Process.receive, houtcome]; rfl) (by simp only [Process.receive, houtcome]; rfl)
    refine ⟨q, run_cons_iff.mpr ⟨_, hstep, hrun⟩, ?_⟩
    have hasked : (p.receive S h (.newBlockTemplateNotification : Payload Block) answers).asked.length =
        p.asked.length + 1 := rfl
    omega

/-- From any start of the counter, notifications make a run with any number of templates asked for. -/
theorem exists_run_asked (S : Semver) (Block : Type) (opt : Opt) (ctr : UInt16) (n : Nat) :
    ∃ (as : List (Action Block)) (p : Process), run (step opt S) (start ctr) as = some p ∧ p.asked.length = n := by
  obtain ⟨p, hrun, hlen⟩ := run_notifications S Block opt ⟨fun _ => true, .ok⟩ rfl n
    ((start ctr).connect opt) rfl rfl
  refine ⟨.connect :: List.replicate n (.receive (some .newBlockTemplateNotification) ⟨fun _ => true, .ok⟩), p,
    run_cons_iff.mpr ⟨_, rfl, hrun⟩, ?_⟩
  rw [hlen]
  exact Nat.zero_add n

/-- Whatever the percentage, the start of the counter and the run, no ten thousand templates in a row pay the
    devfund as often as they should: one too many pays it, or all of them where the addresses are the same. -/
theorem devfund_share_never (S : Semver) (Block : Type) (opt : Opt) (hpos : 0 < opt.devfundPercent)
    (hpercent : opt.devfundPercent < 10000) (ctr : UInt16) (hctr : ctr < 10000) :
    (∀ (as : List (Action Block)) (p : Process), run (step opt S) (start ctr) as = some p →
      ∀ pre w post, p.asked = pre ++ w ++ post → w.length = 10000 →
        w.countP (fun a => a.payAddress = opt.devfundAddress) ≠ opt.devfundPercent.toNat ∧
        (opt.devfundAddress ≠ opt.miningAddress →
          w.countP (fun a => a.payAddress = opt.devfundAddress) = opt.devfundPercent.toNat + 1)) ∧
    ∃ (as : List (Action Block)) (p : Process),
      run (step opt S) (start ctr) as = some p ∧ p.asked.length = 10000 := by
  refine ⟨fun as p hrun pre w post hasked hw => ?_, exists_run_asked S Block opt ctr 10000⟩
  have hinv := DevfundInv.of_run hpos hctr hrun
  refine ⟨?_, fun hne => hinv.count_devfund hpercent hne hasked hw⟩
  by_cases hne : opt.devfundAddress = opt.miningAddress
  · have hlt := UInt16.lt_iff_toNat_lt.mp hpercent
    rw [hinv.count_same hne hasked hw]
    exact Nat.ne_of_gt hlt
  · rw [hinv.count_devfund hpercent hne hasked hw]
    exact Nat.succ_ne_self _

/-- A crate that takes every version for the newest. -/
def anyVersion : Semver := ⟨Unit, fun _ => some (), fun _ _ => true⟩

theorem devfund_share_never_one :
    ∃ (as : List (Action Unit)) (p : Process),
      run (step ⟨"miner", false, "devfund", 1⟩ anyVersion) (start 0) as = some p ∧
      p.asked.countP (fun a => a.payAddress = "devfund") ≠ 1 := by
  obtain ⟨hnever, as, p, hrun, hlen⟩ :=
    devfund_share_never anyVersion Unit ⟨"miner", false, "devfund", 1⟩ (by decide) (by decide) 0 (by decide)
  exact ⟨as, p, hrun, (hnever as p hrun [] p.asked [] (by simp) hlen).1⟩

/-- One percent in ten thousand from a counter at 0: the values 0 and 1 both pay the devfund. -/
theorem two_of_one_percent :
    ∃ (as : List (Action Unit)) (p : Process),
      run (step ⟨"miner", false, "devfund", 1⟩ anyVersion) (start 0) as = some p ∧ p.asked.length = 10000 ∧
      p.asked.countP (fun a => a.payAddress = "devfund") = 2 := by
  obtain ⟨as, p, hrun, hlen⟩ := exists_run_asked anyVersion Unit ⟨"miner", false, "devfund", 1⟩ 0 10000
  have hinv := DevfundInv.of_run (by decide) (by decide) hrun
  have hasked : p.asked = [] ++ p.asked ++ [] := by simp
  exact ⟨as, p, hrun, hlen, hinv.count_devfund (by decide) (by decide) hasked hlen⟩

end Process
end CryptixMiner.Grpc
