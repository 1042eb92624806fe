import CryptixMiner.Lib.Cyclic
import CryptixMiner.Theorems.CpuWorker
import CryptixMiner.Theorems.Extranonce

/-! The nonces of the CPU worker in a row. In a partition of `2^k` nonces the loop counts modulo `2^k`: any `2^k`
    rounds hash each of them once, and any 128 of them poll the channel once. -/

namespace CryptixMiner.Miner
open StepSystem Cyclic

/-- The low `k` bits are the miner's, and the others are fixed. -/
structure IsPartition (k : Nat) (mask fixed : UInt64) : Prop where
  pos : 1 ≤ k
  le : k ≤ 64
  mask_eq : mask.toNat = 2 ^ k - 1
  fixed_dvd : 2 ^ k ∣ fixed.toNat

namespace IsPartition
variable {k n : Nat} {mask fixed x y : UInt64}

theorem toNat_and (h : IsPartition k mask fixed) (x : UInt64) : (x &&& mask).toNat = x.toNat % 2 ^ k := by
  rw [UInt64.toNat_and, h.mask_eq, Nat.and_two_pow_sub_one_eq_mod]

/-- The nonce that the loop makes of `x`. -/
theorem toNat_next (h : IsPartition k mask fixed) (x : UInt64) :
    ((x &&& mask) ||| fixed).toNat = fixed.toNat + x.toNat % 2 ^ k := by
  obtain ⟨q, hq⟩ := h.fixed_dvd
  rw [UInt64.toNat_or, h.toNat_and, hq, Nat.or_comm,
    ← Nat.two_pow_add_eq_or_of_lt (Nat.mod_lt _ (Nat.two_pow_pos k))]

theorem mem_iff (h : IsPartition k mask fixed) : x &&& ~~~mask = fixed ↔ x.toNat = fixed.toNat + x.toNat % 2 ^ k := by
  have hfree : fixed &&& mask = 0 := by
    apply UInt64.toNat_inj.mp
    rw [h.toNat_and, Nat.mod_eq_zero_of_dvd h.fixed_dvd]
    rfl
  rw [← h.toNat_next, UInt64.toNat_inj]
  constructor
  · rintro rfl
    refine eq_of_bits fun i hi => ?_
    simp only [UInt64.toBitVec_or, UInt64.toBitVec_and, UInt64.toBitVec_not, BitVec.getLsbD_or, BitVec.getLsbD_and,
      BitVec.getLsbD_not, hi, decide_true, Bool.true_and]
    cases x.toBitVec.getLsbD i <;> cases mask.toBitVec.getLsbD i <;> rfl
  · intro hx
    refine eq_of_bits fun i hi => ?_
    have hbit := congrArg (fun y => y.toBitVec.getLsbD i) hx
    have hfree := congrArg (fun y => y.toBitVec.getLsbD i) hfree
    simp only [UInt64.toBitVec_or, UInt64.toBitVec_and, UInt64.toBitVec_not, BitVec.getLsbD_or, BitVec.getLsbD_and,
      BitVec.getLsbD_not, UInt64.toBitVec_zero, BitVec.getLsbD_zero, hi, decide_true, Bool.true_and] at hbit hfree ⊢
    revert hbit hfree
    cases x.toBitVec.getLsbD i <;> cases mask.toBitVec.getLsbD i <;> cases fixed.toBitVec.getLsbD i <;> decide

end IsPartition

/-! ### Rounds in a row -/

/-- Every job that is waited for has this partition, so that the loop keeps it. -/
def WaitsFor (Block : Type) (mask fixed : UInt64) (_ : CpuWorker Block) : CpuAction Block → Prop
  | .waitForChange (.ok (some (.job s))) => s.nonceMask = mask ∧ s.nonceFixed = fixed
  | _ => True

/-- The poll condition, after the increment. -/
def PollsAfter (nonce : UInt64) : Prop := (nonce + 1) % 128 = 0

instance (nonce : UInt64) : Decidable (PollsAfter nonce) := inferInstanceAs (Decidable (_ = _))

/-- A poll is due. -/
def CpuWorker.due {Block : Type} (w : CpuWorker Block) : Nat := if w.pc = .poll then 1 else 0

def CpuAction.isPoll {Block : Type} : CpuAction Block → Bool
  | .getChanged _ => true
  | _ => false

/-- What the loop hashed since it was in `w`: its numbers modulo a divisor of `2^k` count up, each is in the
    partition, and each poll condition was followed by a poll, or will be. -/
structure Walked {Block : Type} (k : Nat) (mask fixed : UInt64) (w w' : CpuWorker Block) (nonces : List UInt64)
    (polls : Nat) : Prop where
  mask_eq : w'.mask = mask
  fixed_eq : w'.fixed = fixed
  hashed : w'.hashed.map Prod.snd = nonces ++ w.hashed.map Prod.snd
  counts : ∀ m, m ∣ 2 ^ k → CountsTo m (nonces.map fun x => x.toNat % m) (w'.nonce.toNat % m)
  mem : ∀ x ∈ nonces, x.toNat = fixed.toNat + x.toNat % 2 ^ k
  polls_eq : polls + w'.due = nonces.countP (fun x => PollsAfter x) + w.due

section
variable {Block : Type} {k polls : Nat} {mask fixed : UInt64} {w w' u : CpuWorker Block} {nonces : List UInt64}
  {a : CpuAction Block} {s : State Block}

theorem Walked.refl (hmask : w.mask = mask) (hfixed : w.fixed = fixed) : Walked k mask fixed w w [] 0 :=
  ⟨hmask, hfixed, rfl, fun _ hm => Nat.mod_lt _ (Nat.pos_of_dvd_of_pos hm (Nat.two_pow_pos k)), nofun, rfl⟩

theorem Walked.hash (hpart : IsPartition k mask fixed) (h : Walked k mask fixed w w' nonces polls) (hpc : w'.pc = .head)
    (s : State Block) (found : Bool) :
    Walked k mask fixed w (w'.hash s found) (((w'.nonce &&& mask) ||| fixed) :: nonces) polls := by
  obtain ⟨q, hq⟩ := hpart.fixed_dvd
  have hnext := hpart.toNat_next w'.nonce
  have hmod : ∀ m, m ∣ 2 ^ k → ((w'.nonce &&& mask) ||| fixed).toNat % m = w'.nonce.toNat % m := fun m hm => by
    rw [hnext, Nat.add_mod, Nat.mod_eq_zero_of_dvd (Nat.dvd_trans hm hpart.fixed_dvd), Nat.zero_add, Nat.mod_mod,
      Nat.mod_mod_of_dvd _ hm]
  refine ⟨h.mask_eq, h.fixed_eq, ?_, fun m hm => ?_, fun x hx => ?_, ?_⟩
  · simp only [CpuWorker.hash, List.map_cons, h.hashed, h.mask_eq, h.fixed_eq, List.cons_append]
  · have hcounts := h.counts m hm
    have hword : m ∣ 2 ^ 64 := Nat.dvd_trans hm (Nat.pow_dvd_pow 2 hpart.le)
    simp only [CpuWorker.hash, h.mask_eq, h.fixed_eq, List.map_cons]
    refine ⟨?_, ?_⟩
    · rw [UInt64.toNat_add, Nat.mod_mod_of_dvd _ hword, Nat.mod_add_mod]
      rfl
    · rwa [hmod m hm]
  · rcases List.mem_cons.mp hx with rfl | hx
    · rw [hmod _ (Nat.dvd_refl _)]
      exact hnext
    · exact h.mem x hx
  · have hpolls := h.polls_eq
    have hdue : (w'.hash s found).due = if PollsAfter ((w'.nonce &&& mask) ||| fixed) then 1 else 0 := by
      simp only [CpuWorker.due, CpuWorker.hash, h.mask_eq, h.fixed_eq]
      by_cases hpoll : PollsAfter ((w'.nonce &&& mask) ||| fixed)
      · have hzero : ((w'.nonce &&& mask ||| fixed) + 1) % 128 = 0 := hpoll
        rw [if_pos hzero, if_pos hpoll, if_pos rfl]
      · have hzero : ¬((w'.nonce &&& mask ||| fixed) + 1) % 128 = 0 := hpoll
        rw [if_neg hzero, if_neg hpoll, if_neg (by decide)]
    have hhead : w'.due = 0 := by rw [CpuWorker.due, hpc, if_neg (by decide)]
    rw [List.countP_cons, hdue]
    simp only [decide_eq_true_eq]
    omega

theorem Walked.receive (h : Walked k mask fixed w w' nonces polls) (hpc : w'.pc = .head) {reply}
    (hok : WaitsFor Block mask fixed w' (.waitForChange reply)) : Walked k mask fixed w (w'.receive reply) nonces polls := by
  have hpolls := h.polls_eq
  rw [CpuWorker.due, hpc, if_neg (by decide)] at hpolls
  unfold CpuWorker.receive
  split
  · exact ⟨h.mask_eq, h.fixed_eq, h.hashed, h.counts, h.mem, hpolls⟩
  · exact ⟨h.mask_eq, h.fixed_eq, h.hashed, h.counts, h.mem, hpolls⟩
  · refine ⟨hok.1, hok.2, h.hashed, h.counts, h.mem, ?_⟩
    rwa [CpuWorker.due, hpc, if_neg (by decide)]
  · refine ⟨h.mask_eq, h.fixed_eq, h.hashed, h.counts, h.mem, ?_⟩
    rwa [CpuWorker.due, hpc, if_neg (by decide)]

theorem Walked.poll (h : Walked k mask fixed w w' nonces polls) (hpc : w'.pc = .poll) (reply) :
    Walked k mask fixed w (w'.poll reply) nonces (polls + 1) := by
  have hpolls := h.polls_eq
  rw [CpuWorker.due, hpc, if_pos rfl] at hpolls
  unfold CpuWorker.poll
  split <;> exact ⟨h.mask_eq, h.fixed_eq, h.hashed, h.counts, h.mem, hpolls⟩

theorem Walked.step (hpart : IsPartition k mask fixed) (h : Walked k mask fixed w w' nonces polls)
    (hok : WaitsFor Block mask fixed w' a) (hs : w'.step a = some u) :
    ∃ nonces', Walked k mask fixed w u nonces' (polls + if a.isPoll then 1 else 0) := by
  unfold CpuWorker.step at hs
  split at hs
  · next hpc _ =>
    cases hs
    exact ⟨nonces, h.receive hpc hok⟩
  · next hpc _ =>
    cases hs
    exact ⟨_, h.hash hpart hpc _ _⟩
  · next hpc =>
    cases hs
    exact ⟨nonces, h.poll hpc _⟩
  · cases hs

theorem Walked.run (hpart : IsPartition k mask fixed) {as : List (CpuAction Block)}
    (h : Walked k mask fixed w w' nonces polls) (hrun : run CpuWorker.step w' as = some u)
    (hwaits : Along CpuWorker.step (WaitsFor Block mask fixed) w' as) :
    ∃ nonces', Walked k mask fixed w u nonces' (polls + as.countP CpuAction.isPoll) := by
  induction as generalizing w' nonces polls with
  | nil =>
    cases hrun
    exact ⟨nonces, h⟩
  | cons a as ih =>
    obtain ⟨t, ht, hrest⟩ := run_cons_iff.mp hrun
    obtain ⟨nonces', hstep⟩ := h.step hpart hwaits.1 ht
    obtain ⟨nonces'', hend⟩ := ih hstep hrest (hwaits.2 t ht)
    refine ⟨nonces'', ?_⟩
    rwa [List.countP_cons, Nat.add_comm (as.countP _), ← Nat.add_assoc]

/-! ### Windows -/

/-- Among the nonces, newest first: any `2^k` in a row are the partition, each nonce of it once, and when `k` is at
    least 8 the poll condition holds once among any 128 in a row. -/
structure WalkCovers (k : Nat) (mask fixed : UInt64) (nonces : List UInt64) : Prop where
  covers : ∀ pre win post, nonces = pre ++ win ++ post → win.length = 2 ^ k →
    ∀ x, win.count x = if x &&& ~~~mask = fixed then 1 else 0
  polls : 8 ≤ k → ∀ pre win post, nonces = pre ++ win ++ post → win.length = 128 →
    win.countP (fun x => PollsAfter x) = 1

theorem count_eq_one {n v : Nat} (hv : v < n) : n.count (· = v) = 1 := by
  rw [Nat.count_eq_card_filter_range, Finset.card_eq_one]
  exact ⟨v, by ext x; simp only [Finset.mem_filter, Finset.mem_range, Finset.mem_singleton]; omega⟩

/-- One value modulo `m` comes once among any `m` in a row. -/
theorem Walked.count_mod (h : Walked k mask fixed w w' nonces polls) {m v : Nat} (hm : m ∣ 2 ^ k) (hv : v < m)
    {pre win post : List UInt64} (hwin : nonces = pre ++ win ++ post) (hlen : win.length = m) :
    win.countP (fun x => x.toNat % m = v) = 1 := by
  have hcounts := h.counts m hm
  rw [hwin, List.map_append, List.map_append] at hcounts
  have hcount := hcounts.count_window (· = v) (Nat.zero_lt_of_lt hv) (by rw [List.length_map, hlen])
  rw [count_eq_one hv, List.countP_map] at hcount
  exact hcount

theorem pollsAfter_iff {x : UInt64} : PollsAfter x ↔ x.toNat % 128 = 127 := by
  have hone : (1 : UInt64).toNat = 1 := rfl
  have hmod : ((x + 1) % 128).toNat = (x.toNat + 1) % 2 ^ 64 % 128 := by
    rw [UInt64.toNat_mod, UInt64.toNat_add, hone]
    rfl
  have hzero : (0 : UInt64).toNat = 0 := rfl
  rw [PollsAfter, ← UInt64.toNat_inj, hmod, hzero]
  omega

theorem Walked.covers (hpart : IsPartition k mask fixed) (h : Walked k mask fixed w w' nonces polls) :
    WalkCovers k mask fixed nonces := by
  refine ⟨fun pre win post hwin hlen x => ?_, fun hk pre win post hwin hlen => ?_⟩
  · have hmem : ∀ y ∈ win, y.toNat = fixed.toNat + y.toNat % 2 ^ k := fun y hy =>
      h.mem y (hwin ▸ List.mem_append_left _ (List.mem_append_right _ hy))
    split
    · next hx =>
      have hx := hpart.mem_iff.mp hx
      rw [← h.count_mod (Nat.dvd_refl _) (Nat.mod_lt x.toNat (Nat.two_pow_pos k)) hwin hlen]
      refine List.countP_congr fun y hy => ?_
      have hy := hmem y hy
      rw [beq_iff_eq, decide_eq_true_iff, ← UInt64.toNat_inj]
      omega
    · next hx =>
      exact List.count_eq_zero.mpr fun hy => hx (hpart.mem_iff.mpr (hmem x hy))
  · rw [← h.count_mod (m := 128) (Nat.pow_dvd_pow 2 (by omega : 7 ≤ k)) (by decide : 127 < 128) hwin hlen]
    exact List.countP_congr fun y _ => by rw [decide_eq_true_iff, decide_eq_true_iff, pollsAfter_iff]

end
/-! ### The partitions that a pool hands out -/

/-- The partition of a connection: at least eight bits are the miner's. -/
def Installed (h : Stratum.StratumHandler) : Prop := ∃ k, 8 ≤ k ∧ IsPartition k h.nonceMask h.nonceFixed

section
variable {h : Stratum.StratumHandler}

theorem isPartition_full : IsPartition 64 0xffffffffffffffff 0 := ⟨by decide, by decide, by decide, Nat.dvd_zero _⟩

theorem isPartition_shift {k : Nat} (hk : 8 ≤ k) (hlt : k < 64) (val : UInt64) :
    IsPartition k ((1 <<< UInt64.ofNat k) - 1) (val <<< UInt64.ofNat k) := by
  refine ⟨by omega, Nat.le_of_lt hlt, Words.toNat_lowMask hlt, ?_⟩
  rw [UInt64.toNat_shiftLeft, Words.toNat_shiftAmount hlt, Nat.shiftLeft_eq]
  exact (Nat.dvd_mod_iff (Nat.pow_dvd_pow 2 (Nat.le_of_lt hlt))).mpr (Nat.dvd_mul_left _ _)

theorem installed_setPartition (hh : Installed h) (size : UInt32) (val : Except Hex.ParseIntError UInt64) :
    Installed (h.setPartition size val).2 := by
  unfold Stratum.StratumHandler.setPartition
  by_cases hsize : size = 0
  · rw [if_pos hsize]
    exact ⟨64, by decide, isPartition_full⟩
  · rw [if_neg hsize]
    cases val with
    | error e => exact hh
    | ok val =>
      by_cases hshift : 64 ≤ Stratum.StratumHandler.saturatingMul8 size
      · simp only [if_pos hshift]
        exact ⟨64, by decide, isPartition_full⟩
      · have hpos : 0 < size.toNat := Nat.pos_of_ne_zero fun h0 => hsize (UInt32.toNat_inj.mp h0)
        have hge : 8 ≤ Stratum.StratumHandler.saturatingMul8 size := by
          unfold Stratum.StratumHandler.saturatingMul8
          omega
        simp only [if_neg hshift]
        exact ⟨_, hge, isPartition_shift hge (Nat.lt_of_not_le hshift) val⟩

theorem installed_setExtranonce (hh : Installed h) (extranonce : String) (nonceSize : UInt32) :
    Installed (h.setExtranonce extranonce nonceSize).2 := by
  unfold Stratum.StratumHandler.setExtranonce
  refine installed_setPartition ?_ _ _
  exact hh

theorem installed_setExtranonceEth (hh : Installed h) (extranonce : String) :
    Installed (h.setExtranonceEth extranonce).2 := by
  unfold Stratum.StratumHandler.setExtranonceEth
  refine installed_setPartition ?_ _ _
  exact hh

end

/-- The walk of the CPU worker, from any nonce and for any run in which the loop keeps its partition: it covers the
    partition without repeats, and every poll condition is followed by a poll. What a pool installs is a partition
    of at least eight bits. -/
theorem cpu_walk {Block : Type} {k : Nat} {mask fixed : UInt64} {w w' : CpuWorker Block} {as : List (CpuAction Block)}
    (hpart : IsPartition k mask fixed) (hmask : w.mask = mask) (hfixed : w.fixed = fixed)
    (hrun : run CpuWorker.step w as = some w') (hwaits : Along CpuWorker.step (WaitsFor Block mask fixed) w as) :
    (∃ nonces, w'.hashed.map Prod.snd = nonces ++ w.hashed.map Prod.snd ∧ WalkCovers k mask fixed nonces ∧
      as.countP CpuAction.isPoll + w'.due = nonces.countP (fun x => PollsAfter x) + w.due) ∧
    (∀ minerAddress, Installed (.connect minerAddress)) ∧
    ∀ h, Installed h → ∀ extranonce nonceSize,
      Installed (h.setExtranonce extranonce nonceSize).2 ∧ Installed (h.setExtranonceEth extranonce).2 := by
  obtain ⟨nonces, hwalked⟩ := (Walked.refl hmask hfixed).run hpart hrun hwaits
  refine ⟨⟨nonces, hwalked.hashed, hwalked.covers hpart, ?_⟩, fun _ => ⟨64, by decide, isPartition_full⟩,
    fun h hh extranonce nonceSize => ⟨installed_setExtranonce hh _ _, installed_setExtranonceEth hh _⟩⟩
  have hpolls := hwalked.polls_eq
  rwa [Nat.zero_add] at hpolls

/-- A worker with a job of this partition. -/
def walking (nonce : UInt64) : CpuWorker Unit :=
  { CpuWorker.start nonce with state := some (poolJob 0xff 0x100), mask := 0xff, fixed := 0x100 }

/-- Rounds up to a poll. -/
def upToPoll (rounds : Nat) : List (CpuAction Unit) := List.replicate rounds (.hash false) ++ [.getChanged (.ok none)]

theorem waitsFor_upToPoll {rounds : Nat} {mask fixed : UInt64} {w : CpuWorker Unit} :
    ∀ a ∈ upToPoll rounds, WaitsFor Unit mask fixed w a := by
  intro a ha
  rcases List.mem_append.mp ha with ha | ha
  · obtain ⟨-, rfl⟩ := List.mem_replicate.mp ha
    trivial
  · rw [List.mem_singleton.mp ha]
    trivial

/-- The carry of the increment runs into the fixed bits. -/
theorem cpu_walk_carry : ∃ w', run CpuWorker.step (walking 0x2fe) (upToPoll 2 ++ (upToPoll 128 ++ upToPoll 128)) = some w' ∧
    (w'.hashed.map Prod.snd).length = 258 ∧
    (∀ x, ((w'.hashed.map Prod.snd).take 256).count x = if x &&& ~~~0xff = 0x100 then 1 else 0) ∧
    ((w'.hashed.map Prod.snd).take 128).countP (fun x => PollsAfter x) = 1 := by
  have hpart : IsPartition 8 0xff 0x100 := ⟨by decide, by decide, by decide, by decide⟩
  have hlength : ((run CpuWorker.step (walking 0x2fe) (upToPoll 2 ++ (upToPoll 128 ++ upToPoll 128))).map fun w' =>
      (w'.hashed.map Prod.snd).length) = some 258 := by decide +kernel
  obtain ⟨w', hrun, hlength⟩ := Option.map_eq_some_iff.mp hlength
  have hwaits : ∀ a ∈ upToPoll 2 ++ (upToPoll 128 ++ upToPoll 128), ∀ w, WaitsFor Unit 0xff 0x100 w a := by
    intro a ha w
    rcases List.mem_append.mp ha with ha | ha
    · exact waitsFor_upToPoll a ha
    · rcases List.mem_append.mp ha with ha | ha <;> exact waitsFor_upToPoll a ha
  obtain ⟨⟨nonces, hhashed, hcovers, -⟩, -⟩ := cpu_walk hpart rfl rfl hrun
    ((along_of_forall hwaits).imp fun w _ h => h w)
  have hnonces : w'.hashed.map Prod.snd = nonces := hhashed.trans (List.append_nil nonces)
  rw [hnonces] at hlength
  have htake {n : Nat} (hn : n ≤ 258) : (nonces.take n).length = n := by
    rw [List.length_take, hlength, Nat.min_eq_left hn]
  refine ⟨w', hrun, ?_⟩
  rw [hnonces]
  refine ⟨hlength, ?_, ?_⟩
  · exact hcovers.covers [] _ (nonces.drop 256) (List.take_append_drop 256 nonces).symm (htake (by decide))
  · exact hcovers.polls (by decide) [] _ (nonces.drop 128) (List.take_append_drop 128 nonces).symm (htake (by decide))

end CryptixMiner.Miner
