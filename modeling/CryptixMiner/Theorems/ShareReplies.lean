import CryptixMiner.Theorems.ShareAccounting

/-! The replies of a pool: what one does to the books of the shares, and which ones the client outlives. -/

namespace CryptixMiner.Stratum
open StepSystem

inductive Counter where
  | accepted
  | stale
  | duplicate
  | lowDiff
  deriving DecidableEq

namespace ShareStats

def get (stats : ShareStats) : Counter → UInt64
  | .accepted => stats.accepted
  | .stale => stats.stale
  | .duplicate => stats.duplicate
  | .lowDiff => stats.lowDiff

/-- `fetch_add(1)` on one counter. -/
def bump (stats : ShareStats) : Counter → ShareStats
  | .accepted => { stats with accepted := stats.accepted + 1 }
  | .stale => { stats with stale := stats.stale + 1 }
  | .duplicate => { stats with duplicate := stats.duplicate + 1 }
  | .lowDiff => { stats with lowDiff := stats.lowDiff + 1 }

@[simp] theorem get_bump (stats : ShareStats) (k j : Counter) :
    (stats.bump k).get j = if j = k then stats.get j + 1 else stats.get j := by
  cases k <;> cases j <;> rfl

@[simp] theorem sharesPending_bump (stats : ShareStats) (k : Counter) :
    (stats.bump k).sharesPending = stats.sharesPending := by
  cases k <;> rfl

@[simp] theorem get_remove (stats : ShareStats) (id : UInt32) (k : Counter) : (stats.remove id).get k = stats.get k := by
  cases k <;> rfl

@[simp] theorem sharesPending_remove (stats : ShareStats) (id : UInt32) :
    (stats.remove id).sharesPending = stats.sharesPending.erase id := rfl

def SameCounters (before after : ShareStats) : Prop := ∀ k, after.get k = before.get k

/-- One counter, and no other, counts one more. -/
def AddsOne (before after : ShareStats) : Prop :=
  ∃ k, ∀ j, after.get j = if j = k then before.get j + 1 else before.get j

theorem SameCounters.not_addsOne {before after : ShareStats} (h : SameCounters before after) :
    ¬AddsOne before after := by
  rintro ⟨k, hk⟩
  have hstep := hk k
  rw [h k, if_pos rfl] at hstep
  have hnat := congrArg UInt64.toNat hstep
  have hone : (1 : UInt64).toNat = 1 := rfl
  rw [UInt64.toNat_add, hone] at hnat
  omega

end ShareStats

/-! ### What a reply does -/

/-- The counter for the shares with this error. -/
def ErrorCode.settledBy : ErrorCode → Option Counter
  | .jobNotFound => some .stale
  | .duplicateShare => some .duplicate
  | .lowDifficultyShare => some .lowDiff
  | .unknown | .unauthorized | .notSubscribed => none

/-- The counter for the share of the reply: a success, or one of the three errors about shares. -/
def StratumLine.settledBy (line : StratumLine) : Option Counter :=
  match line.error, line.payload with
  | some e, .result _ => e.code.settledBy
  | none, .result (.plain (some true)) | none, .result (.eth true _) => some .accepted
  | none, .result _ | _, .command _ => none

/-- The id that the reply takes out of the pending ones, if it is there. -/
def StratumLine.takes (line : StratumLine) : Option UInt32 :=
  if line.error.isSome ∨ line.settledBy.isSome then line.id else none

/-- The statistics after a reply. -/
def StratumLine.settle (line : StratumLine) (stats : ShareStats) : ShareStats :=
  match line.takes with
  | none => stats
  | some id =>
    if id ∈ stats.sharesPending then line.settledBy.elim (stats.remove id) (stats.remove id).bump else stats.remove id

section
variable (checks delivered : Bool) (h : StratumHandler) (shared : Shared) (line : StratumLine)

theorem stats_onAccepted_eq (id : UInt32) :
    (h.onAccepted shared id).shared.stats =
      if id ∈ shared.stats.sharesPending then (shared.stats.remove id).bump .accepted else shared.stats.remove id := by
  unfold StratumHandler.onAccepted
  cases hlookup : shared.stats.sharesPending.lookup id with
  | none => rw [if_neg (AList.lookup_eq_none.mp hlookup)]
  | some jobId =>
    rw [if_pos (AList.lookup_isSome.mp (hlookup ▸ rfl))]
    rfl

theorem stats_onError_eq (id : UInt32) (e : StratumError) :
    (h.onError shared id e).shared.stats =
      if id ∈ shared.stats.sharesPending then e.code.settledBy.elim (shared.stats.remove id) (shared.stats.remove id).bump
      else shared.stats.remove id := by
  unfold StratumHandler.onError
  cases hlookup : shared.stats.sharesPending.lookup id with
  | none => rw [if_neg (AList.lookup_eq_none.mp hlookup)]
  | some jobId =>
    rw [if_pos (AList.lookup_isSome.mp (hlookup ▸ rfl))]
    cases e.code <;> rfl

theorem stats_reply {r : StratumResult} (hr : line.payload = .result r) :
    (h.handleMessage checks delivered shared line).shared.stats = line.settle shared.stats := by
  obtain ⟨id, payload, e⟩ := line
  cases hr
  cases id with
  | none => cases e <;> simp [StratumHandler.handleMessage, StratumLine.settle, StratumLine.takes]
  | some id =>
    cases e with
    | some e => exact stats_onError_eq h shared id e
    | none =>
      rcases r with (_ | _ | _) | ⟨_ | _, _⟩ | _
      case plain.some.true => exact stats_onAccepted_eq h shared id
      case eth.true => exact stats_onAccepted_eq h shared id
      all_goals rfl

theorem setPartition_ne_panicked (size : UInt32) (val : Except Hex.ParseIntError UInt64) :
    (h.setPartition size val).1 ≠ .panicked := by
  unfold StratumHandler.setPartition
  split
  · exact fun h => Outcome.noConfusion h
  · split <;> exact fun h => Outcome.noConfusion h

/-- `remove(&id).unwrap()` is the one step of a reply that can panic. -/
theorem reply_panics_iff {r : StratumResult} (hr : line.payload = .result r) :
    (h.handleMessage checks delivered shared line).outcome = .panicked ↔
      line.error ≠ none ∧ ∃ id ∈ line.id, id ∉ shared.stats.sharesPending := by
  obtain ⟨id, payload, e⟩ := line
  cases hr
  cases id with
  | none => cases e <;> simp [StratumHandler.handleMessage]
  | some id =>
    cases e with
    | some e =>
      simp only [StratumHandler.handleMessage, StratumHandler.onError]
      cases hlookup : shared.stats.sharesPending.lookup id with
      | none => simp [AList.lookup_eq_none.mp hlookup]
      | some jobId =>
        have hid : id ∈ shared.stats.sharesPending := AList.lookup_isSome.mp (hlookup ▸ rfl)
        cases e.code <;> simp [hid]
    | none =>
      refine iff_of_false ?_ fun hne => hne.1 rfl
      rcases r with (_ | _ | _) | ⟨_ | _, _⟩ | ⟨_, extranonce, nonceSize⟩
      case plain.some.true | eth.true =>
        simp only [StratumHandler.handleMessage, StratumHandler.onResult, StratumHandler.onAccepted]
        split <;> exact fun h => Outcome.noConfusion h
      case subscribe => exact setPartition_ne_panicked _ _ _
      all_goals exact fun h => Outcome.noConfusion h

end

/-! ### Ids of a connection -/

/-- A process with what its connection took its ids for: the ids that were last taken by a registration, and
    the ids that were answered since they were last taken. -/
structure Traced where
  process : Process
  registered : List UInt32
  answered : List UInt32

namespace Traced

def start (blockTemplateCtr : UInt16) : Traced := ⟨.start blockTemplateCtr, [], []⟩

def record (s : Traced) (a : Action) (q : Process) : Traced :=
  match a, s.process.handler with
  | .connect, _ => ⟨q, [], []⟩
  | .register, some h => ⟨q, h.lastStratumId :: (h.lastStratumId + 1) :: s.registered, s.answered⟩
  | .submit _, some h => ⟨q, s.registered.filter (· ≠ h.lastStratumId), s.answered.filter (· ≠ h.lastStratumId)⟩
  | .receive ⟨some id, .result _, _⟩ _, some _ => ⟨q, s.registered, id :: s.answered⟩
  | _, _ => ⟨q, s.registered, s.answered⟩

def step (opt : Opt) (checks : Bool) (s : Traced) (a : Action) : Option Traced :=
  (s.process.step opt checks a).map (s.record a)

/-- The trace steers nothing. -/
theorem run_process (opt : Opt) (checks : Bool) (s : Traced) (as : List Action) :
    (run (step opt checks) s as).map process = run (Process.step opt checks) s.process as := by
  refine (run_map process (fun s a => ?_) as s).symm
  unfold step
  cases s.process.step opt checks a with
  | none => rfl
  | some q =>
    rw [Option.map_some, Option.map_some]
    unfold record
    split <;> rfl

/-- The ids that no share of the connection is to be counted under. -/
def Own (s : Traced) (id : UInt32) : Prop := id ∈ s.registered ∨ id ∈ s.answered

end Traced

/-! ### The replies of a run -/

/-- What the handling of a reply should come to. -/
structure ReplyHandled (checks delivered : Bool) (s : Traced) (h : StratumHandler) (line : StratumLine) : Prop where
  total : (h.handleMessage checks delivered s.process.shared line).outcome ≠ .panicked
  own_entry :
    let before := s.process.shared.stats.sharesPending
    let after := (h.handleMessage checks delivered s.process.shared line).shared.stats.sharesPending
    after = before ∨ ∃ id ∈ line.id, after = before.erase id
  counted :
    let before := s.process.shared.stats
    let after := (h.handleMessage checks delivered s.process.shared line).shared.stats
    before.AddsOne after ↔
      (∃ id ∈ line.id, id ∈ before.sharesPending ∧ id ∉ after.sharesPending) ∧ line.settledBy.isSome
  uncounted :
    let before := s.process.shared.stats
    let after := (h.handleMessage checks delivered s.process.shared line).shared.stats
    before.AddsOne after ∨ before.SameCounters after
  not_a_share : ∀ id ∈ line.id, s.Own id →
    s.process.shared.stats.SameCounters (h.handleMessage checks delivered s.process.shared line).shared.stats

/-- An error is about a pending share, and no share is pending under an id that was taken for a registration or
    was answered already, unless the reply is of a kind that settles none. -/
structure StratumLine.Meets (s : Traced) (line : StratumLine) : Prop where
  pending : line.error ≠ none → ∀ id ∈ line.id, id ∈ s.process.shared.stats.sharesPending
  free : line.settledBy.isSome → ∀ id ∈ line.id, s.Own id → id ∉ s.process.shared.stats.sharesPending

section
variable {checks delivered : Bool} {s : Traced} {h : StratumHandler} {line : StratumLine}

theorem remove_of_notMem {stats : ShareStats} {id : UInt32} (hid : id ∉ stats.sharesPending) : stats.remove id = stats := by
  have herase : stats.sharesPending.erase id = stats.sharesPending :=
    AList.ext (List.kerase_of_notMem_keys fun hkey => hid (AList.mem_keys.mpr hkey))
  rw [ShareStats.remove, herase]

theorem settle_of_settledBy {stats : ShareStats} {id : UInt32} {k : Counter} (hk : line.settledBy = some k)
    (hline : line.id = some id) (hid : id ∈ stats.sharesPending) : line.settle stats = (stats.remove id).bump k := by
  have htakes : line.takes = some id := by rw [StratumLine.takes, hk, if_pos (Or.inr Option.isSome_some), hline]
  simp only [StratumLine.settle, htakes, hid, if_true, hk, Option.elim_some]

/-- A reply counts a pending share, drops one, or leaves the statistics alone. -/
theorem settle_cases (line : StratumLine) (stats : ShareStats) :
    (∃ id k, line.id = some id ∧ line.settledBy = some k ∧ id ∈ stats.sharesPending ∧
      line.settle stats = (stats.remove id).bump k) ∨
    (line.settledBy = none ∧ ∃ id, line.id = some id ∧ line.settle stats = stats.remove id) ∨
    line.settle stats = stats := by
  cases htakes : line.takes with
  | none => exact Or.inr (Or.inr (by rw [StratumLine.settle, htakes]))
  | some id =>
    have hline : line.id = some id := by
      unfold StratumLine.takes at htakes
      split at htakes
      · exact htakes
      · cases htakes
    by_cases hid : id ∈ stats.sharesPending
    · cases hk : line.settledBy with
      | some k => exact Or.inl ⟨id, k, hline, rfl, hid, settle_of_settledBy hk hline hid⟩
      | none =>
        refine Or.inr (Or.inl ⟨rfl, id, hline, ?_⟩)
        simp only [StratumLine.settle, htakes, hid, if_true, hk, Option.elim_none]
    · refine Or.inr (Or.inr ?_)
      simp only [StratumLine.settle, htakes, hid, if_false]
      exact remove_of_notMem hid

theorem mem_of_mem_settle {stats : ShareStats} {id : UInt32} (hid : id ∈ (line.settle stats).sharesPending) :
    id ∈ stats.sharesPending := by
  rcases settle_cases line stats with ⟨_, k, _, _, _, heq⟩ | ⟨_, _, _, heq⟩ | heq
  · rw [heq, ShareStats.sharesPending_bump] at hid
    exact (AList.mem_erase.mp hid).2
  · rw [heq] at hid
    exact (AList.mem_erase.mp hid).2
  · rwa [heq] at hid

theorem notMem_settle {stats : ShareStats} {id : UInt32} (htakes : line.takes = some id) :
    id ∉ (line.settle stats).sharesPending := by
  unfold StratumLine.settle
  simp only [htakes]
  split
  · cases line.settledBy with
    | none => exact fun hid => (AList.mem_erase.mp hid).1 rfl
    | some k =>
      rw [Option.elim_some, ShareStats.sharesPending_bump]
      exact fun hid => (AList.mem_erase.mp hid).1 rfl
  · exact fun hid => (AList.mem_erase.mp hid).1 rfl

/-- A reply that keeps the session and is none to a subscription takes its id out of the pending ones. -/
theorem takes_of_ok {shared : Shared} {r : StratumResult} (hr : line.payload = .result r)
    (hok : (h.handleMessage checks delivered shared line).outcome = .ok)
    (hnot : ∀ subscriptions extranonce nonceSize, r ≠ .subscribe subscriptions extranonce nonceSize) :
    line.takes = line.id := by
  obtain ⟨id, payload, e⟩ := line
  cases hr
  cases e with
  | some e => rfl
  | none =>
    cases id with
    | none => cases hok
    | some id =>
      rcases r with (_ | _ | _) | ⟨_ | _, _⟩ | ⟨subscriptions, extranonce, nonceSize⟩
      case plain.some.true | eth.true => rfl
      case subscribe => exact absurd rfl (hnot _ _ _)
      all_goals cases hok

theorem ReplyHandled.of_settle {r : StratumResult} (hr : line.payload = .result r) (hmeets : line.Meets s) :
    ReplyHandled checks delivered s h line := by
  have hstats := stats_reply checks delivered h s.process.shared line hr
  have hpanics := reply_panics_iff checks delivered h s.process.shared line hr
  have htotal : (h.handleMessage checks delivered s.process.shared line).outcome ≠ .panicked := fun hpanic => by
    obtain ⟨herror, id, hline, hid⟩ := hpanics.mp hpanic
    exact hid (hmeets.pending herror id hline)
  rcases settle_cases line s.process.shared.stats with ⟨id, k, hline, hk, hid, heq⟩ | ⟨hk, id, hline, heq⟩ | heq
  · have hadds : s.process.shared.stats.AddsOne ((s.process.shared.stats.remove id).bump k) := ⟨k, fun j => by simp⟩
    refine ⟨htotal, Or.inr ⟨id, hline, ?_⟩, ⟨fun _ => ⟨⟨id, hline, hid, ?_⟩, ?_⟩, fun _ => ?_⟩, Or.inl ?_, ?_⟩
    · rw [hstats, heq, ShareStats.sharesPending_bump, ShareStats.sharesPending_remove]
    · rw [hstats, heq, ShareStats.sharesPending_bump, ShareStats.sharesPending_remove, AList.mem_erase]
      exact fun hmem => hmem.1 rfl
    · rw [hk]
      rfl
    · rwa [hstats, heq]
    · rwa [hstats, heq]
    · intro id' hline' hown
      have hsame : id' = id := Option.some_inj.mp (hline'.symm.trans hline)
      exact absurd (hsame ▸ hid) (hmeets.free (hk ▸ rfl) id' hline' hown)
  · have hsame : s.process.shared.stats.SameCounters (s.process.shared.stats.remove id) := fun k => by simp
    rw [← heq, ← hstats] at hsame
    refine ⟨htotal, Or.inr ⟨id, hline, ?_⟩, iff_of_false hsame.not_addsOne ?_, Or.inr hsame, fun _ _ _ => hsame⟩
    · rw [hstats, heq, ShareStats.sharesPending_remove]
    · rw [hk]
      exact fun hsome => nomatch hsome.2
  · have hsame : s.process.shared.stats.SameCounters s.process.shared.stats := fun k => rfl
    refine ⟨htotal, Or.inl ?_, ?_, Or.inr ?_, ?_⟩
    · rw [hstats, heq]
    · rw [hstats, heq]
      exact iff_of_false hsame.not_addsOne fun ⟨⟨id, _, hid, hnot⟩, _⟩ => hnot hid
    · rwa [hstats, heq]
    · rw [hstats, heq]
      exact fun _ _ _ => hsame

theorem replyHandled_iff {r : StratumResult} (hr : line.payload = .result r) :
    ReplyHandled checks delivered s h line ↔ line.Meets s := by
  refine ⟨fun hhandled => ⟨fun herror id hline => ?_, fun hsettles id hline hown hid => ?_⟩, .of_settle hr⟩
  · by_contra hid
    exact hhandled.total ((reply_panics_iff checks delivered h s.process.shared line hr).mpr ⟨herror, id, hline, hid⟩)
  · obtain ⟨k, hk⟩ := Option.isSome_iff_exists.mp hsettles
    have hsame := hhandled.not_a_share id hline hown
    rw [stats_reply checks delivered h _ line hr, settle_of_settledBy hk hline hid] at hsame
    exact hsame.not_addsOne ⟨k, fun j => by simp⟩

end

/-! ### Sessions as `main` runs them -/

namespace Traced

/-- The replies that an action brings are handled as they should be. -/
def RepliesHandled (checks : Bool) (s : Traced) (a : Action) : Prop :=
  match a with
  | .receive line delivered =>
    ∀ h ∈ s.process.listening, ∀ r, line.payload = .result r → ReplyHandled checks delivered s h line
  | _ => True

def RepliesMeet (s : Traced) (a : Action) : Prop :=
  match a with
  | .receive line _ => ∀ _h ∈ s.process.listening, ∀ r, line.payload = .result r → line.Meets s
  | _ => True

/-- The errors that an action brings are about pending shares. -/
def ErrorsPending (s : Traced) (a : Action) : Prop :=
  match a with
  | .receive line _ => ∀ _h ∈ s.process.listening, ∀ r, line.payload = .result r → line.error ≠ none →
      ∀ id ∈ line.id, id ∈ s.process.shared.stats.sharesPending
  | _ => True

/-- A session registers once, before its first share, and its ids do not come round; the pool does not answer
    a share as it answers a subscription. -/
def AsClient (s : Traced) (a : Action) : Prop :=
  match a with
  | .register => ∀ h ∈ s.process.handler, h.lastStratumId = 0
  | .submit _ => ∀ h ∈ s.process.handler, 2 ≤ h.lastStratumId
  | .receive line _ => ∀ subscriptions extranonce nonceSize,
      line.payload = .result (.subscribe subscriptions extranonce nonceSize) →
      ∀ id ∈ line.id, id ∉ s.process.shared.stats.sharesPending
  | _ => True

/-- Only a session's first ids are registered, no share is ever pending under them, and while the session goes on
    none is pending under an id that was answered. -/
structure Inv (s : Traced) : Prop where
  pending : ∀ id ∈ s.process.shared.stats.sharesPending, 2 ≤ id
  registered : ∀ id ∈ s.registered, id < 2
  answered : s.process.ended = false → ∀ id ∈ s.answered, id ∉ s.process.shared.stats.sharesPending

theorem Inv.free {s : Traced} (hinv : s.Inv) (hended : s.process.ended = false) {id : UInt32} (hown : s.Own id) :
    id ∉ s.process.shared.stats.sharesPending := by
  rcases hown with hreg | hans
  · exact fun hid => absurd (hinv.pending id hid) (UInt32.not_le.mpr (hinv.registered id hreg))
  · exact hinv.answered hended id hans

theorem Inv.start (ctr : UInt16) : (Traced.start ctr).Inv where
  pending _ hid := absurd hid (List.not_mem_nil)
  registered _ hid := absurd hid List.not_mem_nil
  answered _ _ hid := absurd hid List.not_mem_nil

section
variable {opt : Opt} {checks : Bool} {s t : Traced} {a : Action}

theorem Inv.submit (hinv : s.Inv) {h : StratumHandler} (hh : s.process.handler = some h) (hid : 2 ≤ h.lastStratumId)
    (jobId : String) : (s.record (.submit jobId) (s.process.submit h jobId)).Inv := by
  simp only [record, hh]
  refine ⟨fun id hmem => ?_, fun id hmem => ?_, fun hended id hmem hpend => ?_⟩
  · rcases (AList.mem_insert _).mp hmem with rfl | hmem
    · exact hid
    · exact hinv.pending id hmem
  · exact hinv.registered id (List.mem_filter.mp hmem).1
  · obtain ⟨hmem, hne⟩ := List.mem_filter.mp hmem
    rcases (AList.mem_insert _).mp hpend with rfl | hpend
    · simp at hne
    · exact hinv.answered hended id hmem hpend

theorem Inv.receive (hinv : s.Inv) {h : StratumHandler} (hh : s.process.handler = some h)
    (hended : s.process.ended = false) {line : StratumLine} {delivered : Bool}
    (hclient : s.AsClient (.receive line delivered)) :
    (s.record (.receive line delivered) (s.process.receive checks h line delivered)).Inv := by
  have hfree := hinv.answered hended
  obtain ⟨id, payload, e⟩ := line
  cases payload with
  | command c =>
    have hstats : (s.process.receive checks h ⟨id, .command c, e⟩ delivered).shared.stats = s.process.shared.stats :=
      stats_command id c e
    have hrecord : s.record (.receive ⟨id, .command c, e⟩ delivered) (s.process.receive checks h ⟨id, .command c, e⟩ delivered) =
        ⟨s.process.receive checks h ⟨id, .command c, e⟩ delivered, s.registered, s.answered⟩ := by
      cases id <;> simp [record]
    rw [hrecord]
    exact ⟨by rw [hstats]; exact hinv.pending, hinv.registered, fun _ => by rw [hstats]; exact hfree⟩
  | result r =>
    have hstats : (s.process.receive checks h ⟨id, .result r, e⟩ delivered).shared.stats =
        StratumLine.settle ⟨id, .result r, e⟩ s.process.shared.stats :=
      stats_reply checks delivered h s.process.shared ⟨id, .result r, e⟩ rfl
    have hpending : ∀ id' ∈ (s.process.receive checks h ⟨id, .result r, e⟩ delivered).shared.stats.sharesPending,
        id' ∈ s.process.shared.stats.sharesPending := fun id' hid => mem_of_mem_settle (hstats ▸ hid)
    cases id with
    | none =>
      exact ⟨fun id' hid => hinv.pending id' (hpending id' hid), hinv.registered,
        fun _ id' hid hpend => hfree id' hid (hpending id' hpend)⟩
    | some id =>
      simp only [record, hh]
      refine ⟨fun id' hid => hinv.pending id' (hpending id' hid), hinv.registered, fun hgoesOn id' hid hpend => ?_⟩
      rcases List.mem_cons.mp hid with rfl | hid
      · -- The reply to this id: it was pending only if the reply took it.
        have hok : (h.handleMessage checks delivered s.process.shared ⟨some id', .result r, e⟩).outcome = .ok := by
          simpa [Process.receive] using hgoesOn
        by_cases hsub : ∃ subscriptions extranonce nonceSize, r = .subscribe subscriptions extranonce nonceSize
        · obtain ⟨subscriptions, extranonce, nonceSize, rfl⟩ := hsub
          exact hclient _ _ _ rfl id' rfl (hpending id' hpend)
        · have htakes := takes_of_ok rfl hok fun _ _ _ heq => hsub ⟨_, _, _, heq⟩
          exact notMem_settle htakes (hstats ▸ hpend)
      · exact hfree id' hid (hpending id' hpend)

theorem Inv.step (hinv : s.Inv) (hclient : s.AsClient a) (hs : step opt checks s a = some t) : t.Inv := by
  obtain ⟨q, hq, rfl⟩ := Option.map_eq_some_iff.mp hs
  obtain ⟨rfl, rfl⟩ | ⟨rfl, rfl⟩ | ⟨rfl, -, rfl⟩ | ⟨h, hh, ⟨rfl, hended, rfl⟩ | ⟨jobId, rfl, rfl⟩ |
    ⟨line, delivered, rfl, hended, -, -, rfl⟩⟩ := Process.step_cases hq
  · simp only [record]
    exact ⟨hinv.pending, fun _ hid => absurd hid List.not_mem_nil, fun _ _ hid => absurd hid List.not_mem_nil⟩
  · simp only [record]
    exact ⟨hinv.pending, hinv.registered, fun hended => nomatch hended⟩
  · simp only [record]
    exact ⟨hinv.pending, hinv.registered, hinv.answered⟩
  · have hfirst : h.lastStratumId = 0 := hclient h hh
    simp only [record, hh, hfirst]
    refine ⟨hinv.pending, fun id hid => ?_, hinv.answered⟩
    rcases List.mem_cons.mp hid with rfl | hid
    · decide
    rcases List.mem_cons.mp hid with rfl | hid
    · decide
    · exact hinv.registered id hid
  · exact hinv.submit hh (hclient h hh) jobId
  · exact hinv.receive hh hended hclient

theorem repliesHandled_iff : s.RepliesHandled checks a ↔ s.RepliesMeet a := by
  cases a with
  | receive line delivered =>
    exact forall_congr' fun h => forall_congr' fun _ => forall_congr' fun r => forall_congr' fun hr => replyHandled_iff hr
  | _ => exact Iff.rfl

theorem Inv.repliesMeet_iff (hinv : s.Inv) : s.RepliesMeet a ↔ s.ErrorsPending a := by
  cases a with
  | receive line delivered =>
    refine ⟨fun hmeets h hh r hr => (hmeets h hh r hr).pending, fun herrors h hh r hr => ⟨herrors h hh r hr, ?_⟩⟩
    exact fun _ id _ hown => hinv.free (Process.listening_eq_some.mp hh).1 hown
  | _ => exact Iff.rfl

end

variable (opt : Opt) (checks : Bool) (ctr : UInt16) (as : List Action)

/-- Every reply of a run is handled as it should be just when it meets the condition in its state; in a run of
    sessions as `main` makes them that says no more than that its errors are about pending shares. -/
theorem along_repliesHandled_iff :
    (Along (step opt checks) (RepliesHandled checks) (start ctr) as ↔
      Along (step opt checks) RepliesMeet (start ctr) as) ∧
    (Along (step opt checks) AsClient (start ctr) as →
      (Along (step opt checks) (RepliesHandled checks) (start ctr) as ↔
        Along (step opt checks) ErrorsPending (start ctr) as)) := by
  have hmeets : Along (step opt checks) (RepliesHandled checks) (start ctr) as ↔
      Along (step opt checks) RepliesMeet (start ctr) as :=
    ⟨fun h => h.imp fun _ _ => repliesHandled_iff.mp, fun h => h.imp fun _ _ => repliesHandled_iff.mpr⟩
  exact ⟨hmeets, fun hclient => hmeets.trans
    (hclient.congr_inv (Inv.start ctr) (fun _ _ _ hinv hok hs => hinv.step hok hs) fun _ _ hinv => hinv.repliesMeet_iff)⟩

/-- The pool refuses the name of the miner. -/
theorem not_replyHandled_authorize :
    ∃ s h, run (step ⟨"miner", "devfund", 0⟩ false) (start 0) [.connect, .register] = some s ∧
      s.process.listening = some h ∧
      ¬ReplyHandled false true s h ⟨some 1, .result (.plain none), some ⟨.unauthorized, "Unauthorized worker"⟩⟩ := by
  refine ⟨_, _, rfl, rfl, fun hhandled => hhandled.total ?_⟩
  decide

end Traced

end CryptixMiner.Stratum
