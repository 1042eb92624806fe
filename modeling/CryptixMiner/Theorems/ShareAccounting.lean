import CryptixMiner.Client.Session

/-! The books of the shares. `SHARE_STATS` outlives the connections whose ids it is keyed by, and each of
    them counts its ids from 0: a share that takes the id of one still pending removes it from the books. -/

namespace CryptixMiner.Stratum
open StepSystem

/-! ### What the statistics account for -/

namespace ShareStats
variable {stats : ShareStats} {id : UInt32}

def total (stats : ShareStats) : Nat :=
  stats.accepted.toNat + stats.stale.toNat + stats.duplicate.toNat + stats.lowDiff.toNat +
    stats.sharesPending.keys.length

/-- A share that takes a pending id takes the place of the share that had it. -/
theorem total_insert (jobId : String) :
    (stats.insert id jobId).total + (if id ∈ stats.sharesPending then 1 else 0) = stats.total + 1 := by
  by_cases hid : id ∈ stats.sharesPending
  · have hpos := List.length_pos_of_mem (AList.mem_keys.mp hid)
    simp only [insert, total, AList.keys_insert, List.length_cons, List.length_erase_of_mem (AList.mem_keys.mp hid),
      hid, if_true]
    omega
  · have hkeys : stats.sharesPending.keys.erase id = stats.sharesPending.keys :=
      List.erase_of_not_mem fun h => hid (AList.mem_keys.mpr h)
    simp only [insert, total, AList.keys_insert, List.length_cons, hkeys, hid, if_false]
    omega

theorem total_remove (hid : id ∈ stats.sharesPending) : (stats.remove id).total + 1 = stats.total := by
  have hpos := List.length_pos_of_mem (AList.mem_keys.mp hid)
  simp only [remove, total, AList.keys_erase, List.length_erase_of_mem (AList.mem_keys.mp hid)]
  omega

theorem total_remove_of_notMem (hid : id ∉ stats.sharesPending) : (stats.remove id).total = stats.total := by
  have hkeys : stats.sharesPending.keys.erase id = stats.sharesPending.keys :=
    List.erase_of_not_mem fun h => hid (AList.mem_keys.mpr h)
  simp only [remove, total, AList.keys_erase, hkeys]

end ShareStats

/-! ### What a line does to the statistics -/

/-- The counter of the shares that this error settles. -/
def ErrorCode.counter (stats : ShareStats) : ErrorCode → Option UInt64
  | .jobNotFound => some stats.stale
  | .duplicateShare => some stats.duplicate
  | .lowDifficultyShare => some stats.lowDiff
  | .unknown | .unauthorized | .notSubscribed => none

def StratumResult.counter (stats : ShareStats) : StratumResult → Option UInt64
  | .plain (some true) | .eth true _ => some stats.accepted
  | .plain _ | .eth false _ | .subscribe .. => none

/-- The counter that a reply adds one to: its share must be pending. -/
def StratumLine.counter (line : StratumLine) (stats : ShareStats) : Option UInt64 :=
  match line.error, line.payload, line.id with
  | none, .result r, some id => if id ∈ stats.sharesPending then r.counter stats else none
  | some e, .result _, some id => if id ∈ stats.sharesPending then e.code.counter stats else none
  | _, _, _ => none

theorem toNat_add_one (x : UInt64) :
    (x + 1).toNat + (if some x = some 0xffffffffffffffff then UInt64.size else 0) = x.toNat + 1 := by
  have hlt := x.toNat_lt
  have hiff : some x = some 0xffffffffffffffff ↔ x.toNat = 18446744073709551615 := by
    rw [Option.some_inj, ← UInt64.toNat_inj]
    rfl
  simp only [hiff, UInt64.toNat_add, UInt64.size, UInt64.reduceToNat]
  split <;> omega

section
variable {checks delivered : Bool} {h : StratumHandler} {shared : Shared} {id : UInt32}

theorem stats_onNotify (msg : StratumLine) (n : MiningNotify) :
    (h.onNotify shared delivered msg n).shared.stats = shared.stats := by
  cases n with
  | short => rfl
  | headerHex id headerHex timestamp =>
    simp only [StratumHandler.onNotify]
    split <;> rfl
  | long => rfl

theorem stats_command (id : Option UInt32) (c : StratumCommand) (e : Option StratumError) :
    (h.handleMessage checks delivered shared ⟨id, .command c, e⟩).shared.stats = shared.stats := by
  cases e with
  | some e => cases id <;> rfl
  | none =>
    cases c with
    | setExtranonce e => cases e <;> rfl
    | miningNotify n => exact stats_onNotify _ n
    | miningSetDifficulty | subscribe | authorize | miningSubmit => rfl

theorem total_onAccepted :
    (h.onAccepted shared id).shared.stats.total +
      (if (if id ∈ shared.stats.sharesPending then some shared.stats.accepted else none) = some 0xffffffffffffffff
       then UInt64.size else 0) = shared.stats.total := by
  unfold StratumHandler.onAccepted
  cases hlookup : shared.stats.sharesPending.lookup id with
  | none =>
    have hid : id ∉ shared.stats.sharesPending := AList.lookup_eq_none.mp hlookup
    simpa [hid] using ShareStats.total_remove_of_notMem hid
  | some jobId =>
    have hid : id ∈ shared.stats.sharesPending := AList.lookup_isSome.mp (hlookup ▸ rfl)
    have hremove := ShareStats.total_remove hid
    have hadd := toNat_add_one shared.stats.accepted
    simp only [if_pos hid]
    simp only [ShareStats.total, ShareStats.remove] at hremove ⊢
    omega

theorem total_onResult (msg : StratumLine) (r : StratumResult) :
    (h.onResult shared msg id r).shared.stats.total + 0 +
      (if (if id ∈ shared.stats.sharesPending then r.counter shared.stats else none) = some 0xffffffffffffffff
       then UInt64.size else 0) = shared.stats.total := by
  cases r with
  | subscribe => simp [StratumResult.counter, StratumHandler.onResult, StratumHandler.configured]
  | plain value =>
    rcases value with _ | _ | _
    · simp [StratumResult.counter, StratumHandler.onResult]
    · simp [StratumResult.counter, StratumHandler.onResult]
    · exact total_onAccepted
  | eth value =>
    cases value with
    | false => simp [StratumResult.counter, StratumHandler.onResult]
    | true => exact total_onAccepted

theorem total_onError (line : StratumLine) (e : StratumError)
    (hfails : line.fails shared.stats.sharesPending =
      (e.code.passedOn && (shared.stats.sharesPending.lookup id).isSome))
    (hcounter : line.counter shared.stats =
      if id ∈ shared.stats.sharesPending then e.code.counter shared.stats else none) :
    (h.onError shared id e).shared.stats.total + (if line.fails shared.stats.sharesPending then 1 else 0) +
      (if line.counter shared.stats = some 0xffffffffffffffff then UInt64.size else 0) = shared.stats.total := by
  unfold StratumHandler.onError
  rw [hfails, hcounter]
  cases hlookup : shared.stats.sharesPending.lookup id with
  | none =>
    have hid : id ∉ shared.stats.sharesPending := AList.lookup_eq_none.mp hlookup
    simpa [hid] using ShareStats.total_remove_of_notMem hid
  | some jobId =>
    have hid : id ∈ shared.stats.sharesPending := AList.lookup_isSome.mp (hlookup ▸ rfl)
    have hremove := ShareStats.total_remove hid
    have hstale := toNat_add_one shared.stats.stale
    have hduplicate := toNat_add_one shared.stats.duplicate
    have hlowDiff := toNat_add_one shared.stats.lowDiff
    rw [if_pos hid]
    cases e.code <;> simp [ShareStats.total, ShareStats.remove, ErrorCode.passedOn, ErrorCode.counter] at * <;> omega

/-- A line moves shares from pending to a counter or to the failed ones; only a counter that wraps loses any. -/
theorem total_handleMessage (checks delivered : Bool) (h : StratumHandler) (shared : Shared) (line : StratumLine) :
    (h.handleMessage checks delivered shared line).shared.stats.total +
      (if line.fails shared.stats.sharesPending then 1 else 0) +
      (if line.counter shared.stats = some 0xffffffffffffffff then UInt64.size else 0) = shared.stats.total := by
  obtain ⟨id, payload, e⟩ := line
  cases payload with
  | command c =>
    rw [stats_command]
    cases id <;> cases e <;> rfl
  | result r =>
    cases id with
    | none => cases e <;> rfl
    | some id =>
      cases e with
      | some e => exact total_onError _ e rfl rfl
      | none => exact total_onResult _ r

end

/-! ### The books of a run -/

namespace Process

/-- The shares that a counter, a failed reply or the pending table accounts for. -/
def books (p : Process) : Nat := p.shared.stats.total + p.failed

def Balanced (p : Process) : Prop := p.submitted = p.books

/-- A submission takes an id under which no share is pending, and a reply adds to a counter that is not at
    its last value. -/
def KeepsBooks (p : Process) (a : Action) : Prop :=
  match a with
  | .submit _ => ∀ h ∈ p.handler, h.lastStratumId ∉ p.shared.stats.sharesPending
  | .receive line _ => line.counter p.shared.stats ≠ some 0xffffffffffffffff
  | .connect | .register | .close | .drop => True

section
variable {opt : Opt} {checks : Bool} {p q : Process} {a : Action} {h : StratumHandler}

theorem books_submit (jobId : String) :
    (p.submit h jobId).books + (if h.lastStratumId ∈ p.shared.stats.sharesPending then 1 else 0) = p.books + 1 := by
  have hinsert : (p.shared.stats.insert h.lastStratumId jobId).total + _ = p.shared.stats.total + 1 :=
    ShareStats.total_insert jobId
  simp only [books, submit]
  omega

theorem books_receive (checks : Bool) (h : StratumHandler) (line : StratumLine) (delivered : Bool) :
    (p.receive checks h line delivered).books +
      (if line.counter p.shared.stats = some 0xffffffffffffffff then UInt64.size else 0) = p.books := by
  have hline := total_handleMessage checks delivered h p.shared line
  simp only [books, receive]
  cases hfails : line.fails p.shared.stats.sharesPending <;> simp [hfails] at hline ⊢ <;> omega

/-- What a step takes off the books without a trace is nothing just when the action keeps them. -/
theorem step_books (hs : step opt checks p a = some q) :
    ∃ lost, q.submitted + p.books = p.submitted + q.books + lost ∧ (lost = 0 ↔ KeepsBooks p a) := by
  obtain ⟨rfl, rfl⟩ | ⟨rfl, rfl⟩ | ⟨rfl, -, rfl⟩ | ⟨h, hh, ⟨rfl, -, rfl⟩ | ⟨jobId, rfl, rfl⟩ |
    ⟨line, delivered, rfl, -, -, -, rfl⟩⟩ := step_cases hs
  · exact ⟨0, rfl, iff_of_true rfl trivial⟩
  · exact ⟨0, rfl, iff_of_true rfl trivial⟩
  · exact ⟨0, rfl, iff_of_true rfl trivial⟩
  · exact ⟨0, rfl, iff_of_true rfl trivial⟩
  · have hbooks := books_submit (p := p) (h := h) jobId
    refine ⟨if h.lastStratumId ∈ p.shared.stats.sharesPending then 1 else 0, ?_, ?_⟩
    · simp only [submit] at hbooks ⊢
      omega
    · simp [KeepsBooks, hh]
  · have hbooks := books_receive (p := p) checks h line delivered
    refine ⟨if line.counter p.shared.stats = some 0xffffffffffffffff then UInt64.size else 0, ?_, ?_⟩
    · simp only [receive] at hbooks ⊢
      omega
    · simp [KeepsBooks]

/-- The books of a run balance at its end just when each of its actions keeps them. -/
theorem balanced_iff {ctr : UInt16} {as : List Action} (hrun : run (step opt checks) (start ctr) as = some p) :
    p.Balanced ↔ Along (step opt checks) KeepsBooks (start ctr) as := by
  have hstep : ∀ s t a, s.books ≤ s.submitted → step opt checks s a = some t →
      t.books ≤ t.submitted ∧ s.submitted - s.books ≤ t.submitted - t.books ∧
        (t.submitted - t.books = s.submitted - s.books ↔ KeepsBooks s a) := fun s t a hle hs => by
    obtain ⟨lost, heq, hlost⟩ := step_books hs
    exact ⟨by omega, by omega, by rw [← hlost]; omega⟩
  have hstart : (start ctr).books ≤ (start ctr).submitted := Nat.le_refl 0
  have hinv : p.books ≤ p.submitted :=
    (Reachable.of_run as hrun).inv (I := fun p => p.books ≤ p.submitted) hstart
      fun s t a hle _ hs => (hstep s t a hle hs).1
  have hlost := (along_iff_of_mono (μ := fun p : Process => p.submitted - p.books) hstep hstart hrun).2
  have hzero : (start ctr).submitted - (start ctr).books = 0 := rfl
  rw [← hlost, hzero]
  unfold Balanced
  omega

/-- Two connections. The first still sends a share when the pool has closed it; the second ends on an error about a
    share of the first, and then sends one itself. -/
def twoConnections : List Action :=
  [.connect, .register, .submit "job 1", .submit "job 2", .receive ⟨some 2, .result (.plain (some true)), none⟩ true,
   .close, .submit "job 3", .drop, .connect, .register,
   .receive ⟨some 3, .result (.plain none), some ⟨.unauthorized, "Unauthorized worker"⟩⟩ true, .submit "job 4", .drop]

theorem balanced_iff_two_connections :
    ∃ p, run (step ⟨"miner", "devfund", 0⟩ false) (start 0) twoConnections = some p ∧
      (p.submitted, p.shared.stats.accepted, p.failed, p.shared.stats.sharesPending.keys) = (4, 1, 1, [2, 4]) ∧
      Along (step ⟨"miner", "devfund", 0⟩ false) KeepsBooks (start 0) twoConnections := by
  refine ⟨_, rfl, rfl, (balanced_iff rfl).mp ?_⟩
  unfold Balanced
  decide

/-- A share is pending when the connection breaks; the first share of the next one has the same id. -/
theorem not_balanced_reconnect :
    ∃ p, run (step ⟨"miner", "devfund", 0⟩ false) (start 0)
        [.connect, .register, .submit "job 1", .close, .connect, .register, .submit "job 2"] = some p ∧
      p.submitted = 2 ∧ p.books = 1 ∧ ¬p.Balanced := by
  refine ⟨_, rfl, rfl, rfl, ?_⟩
  unfold Balanced
  decide

end
end Process
end CryptixMiner.Stratum
