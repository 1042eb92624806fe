import CryptixMiner.Miner.Worker

/-! The nonce partition of the CPU worker. The loop keeps a mask and fixed bits of its own; they are those of
    the job when the job came through `wait_for_change`, and those of an earlier one when it came through
    `get_changed`. -/

namespace CryptixMiner.Miner
open StepSystem

section Partition
variable {Block : Type} {s : State Block} {w w' : CpuWorker Block} {a : CpuAction Block} {m f m' f' n x y : UInt64}

/-- The nonce is in the partition of the job. -/
def InPartition (s : State Block) (nonce : UInt64) : Prop := nonce = (nonce &&& s.nonceMask) ||| s.nonceFixed

/-- The fixed bits of the job are fixed in the loop, and what the loop may set is in the job's reach. -/
def Covers (s : State Block) (mask fixed : UInt64) : Prop :=
  s.nonceFixed &&& ~~~fixed = 0 ∧ (mask ||| fixed) &&& ~~~(s.nonceMask ||| s.nonceFixed) = 0

/-- A job taken by a poll is one that the mask and fixed bits of the loop are good for. -/
def PollsCovered (w : CpuWorker Block) : CpuAction Block → Prop
  | .getChanged (.ok (some (some (.job s)))) => Covers s w.mask w.fixed
  | _ => True

/-! ### Bits -/

theorem eq_of_bits (h : ∀ i, i < 64 → x.toBitVec.getLsbD i = y.toBitVec.getLsbD i) : x = y :=
  UInt64.toBitVec_inj.mp (BitVec.eq_of_getLsbD_eq h)

theorem and_not_eq_zero_iff :
    x &&& ~~~y = 0 ↔ ∀ i, i < 64 → x.toBitVec.getLsbD i = true → y.toBitVec.getLsbD i = true := by
  constructor
  · intro h i hi hx
    have hbit : (x &&& ~~~y).toBitVec.getLsbD i = false := by
      rw [h]
      exact BitVec.getLsbD_zero
    simpa [hi, hx] using hbit
  · intro h
    refine eq_of_bits fun i hi => ?_
    have hi' := h i hi
    cases hx : x.toBitVec.getLsbD i with
    | false => simp [hx]
    | true => simp [hx, hi, hi' hx]

theorem eq_and_or_iff : n = (n &&& m) ||| f ↔
    ∀ i, i < 64 → (f.toBitVec.getLsbD i = true → n.toBitVec.getLsbD i = true) ∧
      (n.toBitVec.getLsbD i = true → m.toBitVec.getLsbD i = true ∨ f.toBitVec.getLsbD i = true) := by
  constructor
  · intro h i hi
    have hbit : n.toBitVec.getLsbD i = ((n &&& m) ||| f).toBitVec.getLsbD i := by rw [← h]
    simp only [UInt64.toBitVec_or, UInt64.toBitVec_and, BitVec.getLsbD_or, BitVec.getLsbD_and] at hbit
    refine ⟨fun hf => ?_, fun hn => ?_⟩
    · rw [hbit, hf, Bool.or_true]
    · rw [hn, Bool.true_and] at hbit
      exact (Bool.or_eq_true _ _).mp hbit.symm
  · intro h
    refine eq_of_bits fun i hi => ?_
    obtain ⟨hf, hn⟩ := h i hi
    simp only [UInt64.toBitVec_or, UInt64.toBitVec_and, BitVec.getLsbD_or, BitVec.getLsbD_and]
    cases hnb : n.toBitVec.getLsbD i with
    | false =>
      cases hfb : f.toBitVec.getLsbD i with
      | false => rfl
      | true => exact absurd (hf hfb) (by rw [hnb]; exact Bool.false_ne_true)
    | true =>
      rcases hn hnb with hm | hf
      · rw [hm]
        rfl
      · rw [hf, Bool.or_true]

/-- The loop's mask and fixed bits are good for a job exactly when every nonce they make is in its
    partition. -/
theorem covers_iff : Covers s m f ↔ ∀ x, InPartition s ((x &&& m) ||| f) := by
  simp only [Covers, InPartition, eq_and_or_iff, and_not_eq_zero_iff, UInt64.toBitVec_or, UInt64.toBitVec_and,
    BitVec.getLsbD_or, BitVec.getLsbD_and, Bool.or_eq_true, Bool.and_eq_true]
  constructor
  · rintro ⟨hfixed, hreach⟩ x i hi
    exact ⟨fun hf => .inr (hfixed i hi hf), fun hn => hreach i hi (hn.imp_left And.right)⟩
  · intro h
    refine ⟨fun i hi hf => ?_, fun i hi hmf => ?_⟩
    · have h0 := (h 0 i hi).1 hf
      simpa using h0
    · have hones : (~~~(0 : UInt64)).toBitVec.getLsbD i = true := by
        rw [UInt64.toBitVec_not, BitVec.getLsbD_not, decide_eq_true hi, UInt64.toBitVec_zero, BitVec.getLsbD_zero]
        rfl
      exact (h (~~~0) i hi).2 (hmf.imp_left fun hm => ⟨hones, hm⟩)

theorem covers_self (s : State Block) : Covers s s.nonceMask s.nonceFixed := by
  simp only [Covers, and_not_eq_zero_iff]
  exact ⟨fun _ _ h => h, fun _ _ h => h⟩

/-! ### Runs -/

/-- What was hashed is in its job's partition, and so is what the loop makes next. -/
structure CpuWorker.Partitioned (w : CpuWorker Block) : Prop where
  hashed : ∀ p ∈ w.hashed, InPartition p.1 p.2
  covers : ∀ s, w.state = some s → Covers s w.mask w.fixed

theorem CpuWorker.Partitioned.receive (h : w.Partitioned) (reply) : (w.receive reply).Partitioned := by
  unfold CpuWorker.receive
  split
  · exact ⟨h.hashed, h.covers⟩
  · exact ⟨h.hashed, h.covers⟩
  · next s =>
    refine ⟨h.hashed, fun t ht => ?_⟩
    cases ht
    exact covers_self s
  · exact ⟨h.hashed, nofun⟩

theorem CpuWorker.Partitioned.hash (h : w.Partitioned) (hs : w.state = some s) (found : Bool) :
    (w.hash s found).Partitioned := by
  have hcov := h.covers s hs
  refine ⟨fun p hp => ?_, fun t ht => ?_⟩
  · rcases List.mem_cons.mp hp with rfl | hp
    · exact covers_iff.mp hcov w.nonce
    · exact h.hashed p hp
  · simp only [CpuWorker.hash] at ht ⊢
    split at ht
    · cases ht
    · cases ht
      exact hcov

theorem CpuWorker.Partitioned.poll (h : w.Partitioned) {reply} (hcov : PollsCovered w (.getChanged reply)) :
    (w.poll reply).Partitioned := by
  unfold CpuWorker.poll
  split
  · exact ⟨h.hashed, h.covers⟩
  · exact ⟨h.hashed, h.covers⟩
  · exact ⟨h.hashed, h.covers⟩
  · refine ⟨h.hashed, fun t ht => ?_⟩
    cases ht
    exact hcov
  · exact ⟨h.hashed, nofun⟩

theorem CpuWorker.Partitioned.step (h : w.Partitioned) (hcov : PollsCovered w a) (hs : w.step a = some w') :
    w'.Partitioned := by
  unfold CpuWorker.step at hs
  split at hs
  · cases hs
    exact h.receive _
  · next hstate =>
    cases hs
    exact h.hash hstate _
  · cases hs
    exact h.poll hcov
  · cases hs

/-- In a run whose polls hand over no job that the loop's mask and fixed bits are not good for, every nonce
    hashed for a job is in the job's partition. -/
theorem hashed_in_partition {nonce : UInt64} (h : ReachableBy CpuWorker.step PollsCovered (.start nonce) w) :
    ∀ p ∈ w.hashed, InPartition p.1 p.2 := by
  have hinv : w.Partitioned :=
    h.inv ⟨nofun, nofun⟩ fun _ _ _ hw hcov hs => hw.step hcov hs
  exact hinv.hashed

/-- Two jobs of one partition, the second through a poll. -/
theorem hashed_in_partition_same : ∃ w : CpuWorker Unit, w.hashed.map Prod.snd = [0x180, 0x17f] ∧
    ∀ p ∈ w.hashed, InPartition p.1 p.2 := by
  have hreach : ReachableBy CpuWorker.step PollsCovered (.start 127) _ :=
    .of_run [.waitForChange (.ok (some (.job (poolJob 0xff 0x100)))), .hash false,
      .getChanged (.ok (some (some (.job (poolJob 0xff 0x100))))), .hash false] rfl
      (.cons trivial rfl (.cons trivial rfl (.cons ⟨by decide, by decide⟩ rfl (.cons trivial rfl trivial))))
  exact ⟨_, rfl, hashed_in_partition hreach⟩

/-- The pool changes the extranonce from 0x100 to 0x200, and a poll picks the new job up: its nonces still
    have the old fixed bits. -/
theorem hashed_outside_partition : ¬∀ (nonce : UInt64) (w : CpuWorker Unit),
    Reachable CpuWorker.step (.start nonce) w → ∀ p ∈ w.hashed, InPartition p.1 p.2 := by
  intro h
  have hreach : Reachable CpuWorker.step (.start 127) _ :=
    .of_run [.waitForChange (.ok (some (.job (poolJob 0xff 0x100)))), .hash false,
      .getChanged (.ok (some (some (.job (poolJob 0xff 0x200))))), .hash false] rfl
  exact absurd (h 127 _ hreach (poolJob 0xff 0x200, 0x180) List.mem_cons_self)
    (by unfold InPartition; decide)

end Partition
end CryptixMiner.Miner
