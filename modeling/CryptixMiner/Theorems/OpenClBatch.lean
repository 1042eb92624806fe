import CryptixMiner.Launch.OpenClBatch
import CryptixMiner.Theorems.OpenClLaunch

/-! A whole launch of the batch kernel. Where the nonces fill whole groups, each item has the matrix behind the barrier,
    and the counter hands every item that meets the target a slot of its own: the list is of the nonces that pass,
    each once, up to the room there is. -/

namespace CryptixMiner.OpenCl
open StepSystem Launch Grid

/-! ### The hash of a nonce -/

theorem powHashFinalize_eq (P : Primitives) (h : PowHasher) (nonce : UInt64) :
    powHashFinalize P h.state nonce = (h.finalizeWithNonce P nonce).toLeBytes := by
  simp only [powHashFinalize, Uint256.store64Le_four]
  rfl

theorem calculatePowPreMatrix_eq (P : Primitives) (build : Build) (h : PowHasher) (nonce : UInt64) :
    calculatePowPreMatrix P build h.state nonce = PreMatrix.rounds P (h.finalizeWithNonce P nonce).toLeBytes := by
  simp only [calculatePowPreMatrix, powHashFinalize_eq, PreMatrix.rounds]
  generalize (h.finalizeWithNonce P nonce).toLeBytes = currentHash
  have hcount : (currentHash[0]! % 2 + 1).toNat = currentHash[0]!.toNat % 2 + 1 :=
    toNat_mod_add_one currentHash[0]! (by decide) (by decide)
  have hK := kernel_agrees build
  rw [hK.loop _ currentHash (by rw [Nat.and_one_is_mod]; omega), Nat.and_one_is_mod, hcount]
  exact Loop.forRange_congr (Nat.zero_le _) fun i h _ _ => Kernel.mutate_eq hK i (P.sha3_256 h)

section Outline
variable {sw : Switches} {a : HashBatchArgs} {items lsize : Nat} {outNonces : Nat → UInt64}

/-- The verdict with the whole matrix. -/
def passes (sw : Switches) (a : HashBatchArgs) (gid : Nat) : Bool :=
  Kernel.hashMeetsTargetWords (calculatePowWithSha3AndMatrix sw a.matrix a.powStateBase (a.nonce gid)) a.targetWords

/-- The item has a nonce to try, and has not taken a slot. -/
structure Trying (a : HashBatchArgs) (m : BatchMemory) (gid : Nat) : Prop where
  active : gid < a.nonceCount.toNat
  slotless : gid ∉ m.winners

/-- The item is through: where its nonce passes, it is in the list if there was room. -/
def Listed (sw : Switches) (a : HashBatchArgs) (m : BatchMemory) (gid : Nat) : Prop :=
  passes sw a gid = true → ∃ k, m.winners[k]? = some gid ∧ (k < a.maxResults.toNat → m.outNonces k = a.nonce gid)

def BatchClaim (sw : Switches) (a : HashBatchArgs) (lsize : Nat) (m : BatchMemory) (gid : Nat) : HashBatchPc → Prop
  | .entry => gid ∉ m.winners
  | .copy vecIdx => Trying a m gid ∧ vecIdx % lsize = gid % lsize ∧ CopiedBy a.matrix lsize m.matrixLocal gid vecIdx
  | .barrier => Trying a m gid ∧ CopiedBy a.matrix lsize m.matrixLocal gid (4096 / 16)
  | .hash => Trying a m gid ∧ m.matrixLocal (gid / lsize) = a.matrix
  | .inc => Trying a m gid ∧ m.matrixLocal (gid / lsize) = a.matrix ∧ passes sw a gid = true
  | .store slot => m.matrixLocal (gid / lsize) = a.matrix ∧ m.winners[slot.toNat]? = some gid ∧ slot < a.maxResults
  | .done => a.nonceCount.toNat ≤ gid ∨ (m.matrixLocal (gid / lsize) = a.matrix ∧ Listed sw a m gid)

/-- What holds of the memory at all times, where the launch found `outNonces`. -/
structure BatchOk (sw : Switches) (a : HashBatchArgs) (outNonces : Nat → UInt64) (m : BatchMemory) : Prop where
  count : m.outCount.toNat = m.winners.length
  nodup : m.winners.Nodup
  good : ∀ g ∈ m.winners, g < a.nonceCount.toNat ∧ passes sw a g = true
  listed : ∀ k, m.outNonces k = outNonces k ∨
    ∃ g, m.winners[k]? = some g ∧ k < a.maxResults.toNat ∧ m.outNonces k = a.nonce g

/-- What the step of item `gid` leaves to the others. -/
structure BatchLater (a : HashBatchArgs) (gid : Nat) (m m' : BatchMemory) : Prop where
  copied : ∀ b j (hj : j < 4096), (m.matrixLocal b)[j] = a.matrix[j] → (m'.matrixLocal b)[j] = a.matrix[j]
  winners : m'.winners = m.winners ∨ m'.winners = m.winners ++ [gid]
  nonces : ∀ k, m.winners[k]? ≠ some gid → m'.outNonces k = m.outNonces k

section Later
variable {m m' : BatchMemory} {gid g k : Nat} {pc : HashBatchPc}

theorem BatchLater.refl : BatchLater a gid m m := ⟨fun _ _ _ h => h, Or.inl rfl, fun _ _ => rfl⟩

theorem BatchLater.whole (h : BatchLater a gid m m') {b : Nat} (hm : m.matrixLocal b = a.matrix) :
    m'.matrixLocal b = a.matrix :=
  Vector.ext fun j hj => h.copied b j hj (by rw [hm])

theorem BatchLater.ofClass (h : BatchLater a gid m m') {vecIdx : Nat}
    (hc : CopiedBy a.matrix lsize m.matrixLocal g vecIdx) : CopiedBy a.matrix lsize m'.matrixLocal g vecIdx :=
  fun j hj hclass hlt => h.copied _ j hj (hc j hj hclass hlt)

theorem BatchLater.slotless (h : BatchLater a gid m m') (hg : g ≠ gid) (hw : g ∉ m.winners) : g ∉ m'.winners := by
  rcases h.winners with heq | heq
  · rw [heq]
    exact hw
  · rw [heq, List.mem_append, List.mem_singleton]
    exact fun hmem => hmem.elim hw hg

theorem BatchLater.trying (h : BatchLater a gid m m') (hg : g ≠ gid) (ht : Trying a m g) : Trying a m' g :=
  ⟨ht.active, h.slotless hg ht.slotless⟩

/-- A slot that is taken stays so. -/
theorem BatchLater.slot (h : BatchLater a gid m m') (hk : m.winners[k]? = some g) : m'.winners[k]? = some g := by
  rcases h.winners with heq | heq
  · rw [heq]
    exact hk
  · rw [heq, List.getElem?_append_left (List.getElem?_eq_some_iff.mp hk).1]
    exact hk

theorem BatchLater.listed (h : BatchLater a gid m m') (hg : g ≠ gid) (hl : Listed sw a m g) : Listed sw a m' g := by
  intro hyes
  obtain ⟨k, hk, hnonce⟩ := hl hyes
  refine ⟨k, h.slot hk, fun hroom => ?_⟩
  rw [h.nonces k fun hgid => hg (Option.some.inj (hk.symm.trans hgid))]
  exact hnonce hroom

/-- The claim of a work-item survives the steps of the others. -/
theorem BatchLater.claim (h : BatchLater a gid m m') (hg : g ≠ gid) (hc : BatchClaim sw a lsize m g pc) :
    BatchClaim sw a lsize m' g pc := by
  cases pc with
  | entry => exact h.slotless hg hc
  | copy vecIdx => exact ⟨h.trying hg hc.1, hc.2.1, h.ofClass hc.2.2⟩
  | barrier => exact ⟨h.trying hg hc.1, h.ofClass hc.2⟩
  | hash => exact ⟨h.trying hg hc.1, h.whole hc.2⟩
  | inc => exact ⟨h.trying hg hc.1, h.whole hc.2.1, hc.2.2⟩
  | store slot => exact ⟨h.whole hc.1, h.slot hc.2.1, hc.2.2⟩
  | done => exact hc.imp_right fun hc => ⟨h.whole hc.1, h.listed hg hc.2⟩

end Later

/-! ### The steps -/

/-- The counter does not come round: every slot is of an item with a nonce of its own. -/
theorem outCount_lt {m : BatchMemory} {gid : Nat} (hok : BatchOk sw a outNonces m) (ht : Trying a m gid) :
    m.winners.length < a.nonceCount.toNat := by
  have hnodup : (gid :: m.winners).Nodup := List.nodup_cons.mpr ⟨ht.slotless, hok.nodup⟩
  have hsub : (gid :: m.winners) ⊆ List.range a.nonceCount.toNat := by
    intro g hg
    rw [List.mem_range]
    rcases List.mem_cons.mp hg with rfl | hg
    · exact ht.active
    · exact (hok.good g hg).1
  have hle := (List.subperm_of_subset hnodup hsub).length_le
  rw [List.length_cons, List.length_range] at hle
  exact hle

theorem ofNat_ge_iff {gid : Nat} (h32 : gid < 2 ^ 32) : UInt32.ofNat gid ≥ a.nonceCount ↔ a.nonceCount.toNat ≤ gid := by
  rw [ge_iff_le, UInt32.le_iff_toNat_le, UInt32.toNat_ofNat', Nat.mod_eq_of_lt h32]

/-- Each work-item keeps its own claim, and the memory is kept. -/
theorem batch_own_step (hsize : 0 < lsize) {m m' : BatchMemory} {gid : Nat} {pc pc' : HashBatchPc} (h32 : gid < 2 ^ 32)
    (hok : BatchOk sw a outNonces m) (hc : BatchClaim sw a lsize m gid pc)
    (hstep : (hashBatch sw a lsize).step m gid pc = some (m', pc')) :
    BatchOk sw a outNonces m' ∧ BatchClaim sw a lsize m' gid pc' ∧ BatchLater a gid m m' := by
  cases pc with
  | barrier => cases hstep
  | done => cases hstep
  | entry =>
    cases hstep
    refine ⟨hok, ?_, BatchLater.refl⟩
    split
    · next hpast => exact Or.inl ((ofNat_ge_iff h32).mp hpast)
    · next hactive =>
      rw [ofNat_ge_iff h32, Nat.not_le] at hactive
      exact ⟨⟨hactive, hc⟩, Nat.mod_mod _ _, copiedBy_first a.matrix lsize m.matrixLocal gid⟩
  | copy vecIdx =>
    obtain ⟨htrying, hmod, hcopied⟩ := hc
    simp only [hashBatch] at hstep
    split at hstep
    · cases hstep
      refine ⟨⟨hok.count, hok.nodup, hok.good, hok.listed⟩, ⟨⟨htrying.active, htrying.slotless⟩, ?_, hcopied.next hsize hmod⟩,
        fun b j hj hbyte => ?_, Or.inl rfl, fun _ _ => rfl⟩
      · rw [Nat.add_mod_right, hmod]
      · dsimp only
        rw [getElem_update_copyChunk m.matrixLocal _ vecIdx a.matrix b hj]
        split
        · rfl
        · exact hbyte
    · next hend =>
      cases hstep
      refine ⟨hok, ⟨htrying, fun j hj hclass hlt => hcopied j hj hclass ?_⟩, BatchLater.refl⟩
      omega
  | hash =>
    obtain ⟨htrying, hwhole⟩ := hc
    simp only [hashBatch, hwhole] at hstep
    cases hstep
    refine ⟨hok, ?_, BatchLater.refl⟩
    split
    · next hyes => exact ⟨htrying, hwhole, hyes⟩
    · next hno => exact Or.inr ⟨hwhole, fun hyes => absurd hyes hno⟩
  | inc =>
    obtain ⟨htrying, hwhole, hyes⟩ := hc
    have hlt := outCount_lt hok htrying
    have hcount32 := a.nonceCount.toNat_lt
    have hone : (1 : UInt32).toNat = 1 := rfl
    have hslot : (m.winners ++ [gid])[m.outCount.toNat]? = some gid := by
      rw [hok.count, List.getElem?_append_right (Nat.le_refl _), Nat.sub_self]
      rfl
    have hlater : BatchLater a gid m { m with outCount := m.outCount + 1, winners := m.winners ++ [gid] } :=
      ⟨fun _ _ _ h => h, Or.inr rfl, fun _ _ => rfl⟩
    cases hstep
    refine ⟨⟨?_, ?_, fun g hg => ?_, fun k => ?_⟩, ?_, hlater⟩
    · rw [List.length_append, List.length_singleton, UInt32.toNat_add, hok.count]
      exact Nat.mod_eq_of_lt (by omega)
    · exact List.nodup_append.mpr ⟨hok.nodup, List.nodup_singleton gid, fun g hg g' hg' heq => by
        rw [List.mem_singleton.mp hg'] at heq
        exact htrying.slotless (heq ▸ hg)⟩
    · rcases List.mem_append.mp hg with hg | hg
      · exact hok.good g hg
      · rw [List.mem_singleton.mp hg]
        exact ⟨htrying.active, hyes⟩
    · exact (hok.listed k).imp_right fun ⟨g, hk, hroom, hnonce⟩ => ⟨g, hlater.slot hk, hroom, hnonce⟩
    · split
      · next hfull =>
        refine Or.inr ⟨hwhole, fun _ => ⟨m.outCount.toNat, hslot, fun hroom => ?_⟩⟩
        have hle := UInt32.le_iff_toNat_le.mp hfull
        omega
      · next hroom => exact ⟨hwhole, hslot, UInt32.not_le.mp hroom⟩
  | store slot =>
    obtain ⟨hwhole, hslot, hroom⟩ := hc
    cases hstep
    refine ⟨⟨hok.count, hok.nodup, hok.good, fun k => ?_⟩, Or.inr ⟨hwhole, fun _ => ⟨slot.toNat, hslot, fun _ => ?_⟩⟩,
      fun _ _ _ h => h, Or.inl rfl, fun k hk => ?_⟩
    · by_cases heq : k = slot.toNat
      · subst heq
        exact Or.inr ⟨gid, hslot, UInt32.lt_iff_toNat_lt.mp hroom, Function.update_self ..⟩
      · dsimp only
        rw [Function.update_of_ne heq]
        exact hok.listed k
    · exact Function.update_self ..
    · exact Function.update_of_ne (fun heq => hk (by rw [heq]; exact hslot)) ..

/-- Behind the barrier the copy is whole. -/
theorem batch_pass_barrier {m : BatchMemory} {gid : Nat} (hsize : 0 < lsize) (hdvd : lsize ∣ a.nonceCount.toNat)
    (hle : a.nonceCount.toNat ≤ items) (hc : BatchClaim sw a lsize m gid .barrier)
    (hall : ∀ g, g < items → g / lsize = gid / lsize →
      ∃ pc, (hashBatch sw a lsize).arrived pc = true ∧ BatchClaim sw a lsize m g pc) :
    BatchClaim sw a lsize m gid .hash := by
  refine ⟨hc.1, ?_⟩
  by_cases hwhole : m.matrixLocal (gid / lsize) = a.matrix
  · exact hwhole
  · refine whole_of_copiedBy hsize hdvd hc.1.active fun g hg hgroup => ?_
    obtain ⟨pc, harrived, hclaim⟩ := hall g (lt_of_lt_of_le hg hle) hgroup
    rw [← hgroup] at hwhole
    cases pc with
    | entry => cases harrived
    | copy vecIdx => cases harrived
    | barrier => exact hclaim.2
    | hash => exact absurd hclaim.2 hwhole
    | inc => exact absurd hclaim.2.1 hwhole
    | store slot => exact absurd hclaim.1 hwhole
    | done => exact absurd (hclaim.resolve_left (Nat.not_le.mpr hg)).1 hwhole

theorem batch_outline (sw : Switches) (outNonces : Nat → UInt64) (hsize : 0 < lsize) (hdvd : lsize ∣ a.nonceCount.toNat)
    (hle : a.nonceCount.toNat ≤ items) (h32 : items ≤ 2 ^ 32) :
    Outline (hashBatch sw a lsize) items lsize (BatchOk sw a outNonces) (BatchClaim sw a lsize) where
  own hgid hok hc _ hstep :=
    have h := batch_own_step hsize (lt_of_lt_of_le hgid h32) hok hc hstep
    ⟨h.1, h.2.1⟩
  others hgid hok hc _ hstep hg hk := (batch_own_step hsize (lt_of_lt_of_le hgid h32) hok hc hstep).2.2.claim hg hk
  pass {m gid pc} _ _ hc hwaits hall := by
    have hpc : pc = .barrier := beq_iff_eq.mp hwaits
    subst hpc
    exact batch_pass_barrier hsize hdvd hle hc hall

/-! ### The launch ends -/

def batchToDoAt : HashBatchPc → Nat
  | .entry => 4096 / 16 + 6
  | .copy vecIdx => 4096 / 16 - vecIdx + 5
  | .barrier => 4
  | .hash => 3
  | .inc => 2
  | .store _ => 1
  | .done => 0

theorem batch_progress (hsize : 0 < lsize) : Progress (hashBatch sw a lsize) batchToDoAt (· == .done) where
  enabled {pc} m gid hends hwaits := by
    cases pc with
    | barrier => cases hwaits
    | done => cases hends
    | copy vecIdx =>
      simp only [hashBatch]
      split <;> exact ⟨_, rfl⟩
    | _ => exact ⟨_, rfl⟩
  own {m gid pc m' pc'} hstep := by
    cases pc with
    | barrier => cases hstep
    | done => cases hstep
    | entry =>
      cases hstep
      split <;> simp only [batchToDoAt] <;> omega
    | copy vecIdx =>
      simp only [hashBatch] at hstep
      split at hstep
      · cases hstep
        simp only [batchToDoAt]
        omega
      · cases hstep
        simp only [batchToDoAt]
        omega
    | hash =>
      cases hstep
      split <;> simp only [batchToDoAt] <;> omega
    | inc =>
      cases hstep
      split <;> simp only [batchToDoAt] <;> omega
    | store slot =>
      cases hstep
      exact Nat.zero_lt_one
  pass {pc} hwaits := by
    have hpc : pc = .barrier := beq_iff_eq.mp hwaits
    subst hpc
    exact Nat.lt_succ_self 3
  arrived {pc} h := by
    cases pc with
    | entry => rcases h with h | h <;> cases h
    | copy vecIdx => rcases h with h | h <;> cases h
    | _ => rfl

end Outline
end CryptixMiner.OpenCl

namespace CryptixMiner
open StepSystem Grid OpenCl

section
variable {Block : Type} {s : State Block} {P : Primitives}

/-- The arguments are those of the job: its matrix, the state of its hasher, and its target. -/
structure OpenCl.HashBatchArgs.For (a : HashBatchArgs) (s : State Block) : Prop where
  matrix : a.matrix = s.matrix.bytes
  powStateBase : a.powStateBase = s.hasher.state
  targetWords : a.targetWords = s.target.words

/-- With the arguments of a job the kernel judges as `check_pow` does. -/
theorem State.IsJob.batch_passes (hjob : s.IsJob) (hP : P.Standard) (useAvx2 : Bool) {a : HashBatchArgs} (ha : a.For s)
    (sw : Switches) (gid : Nat) : passes sw a gid = s.checkPow P useAvx2 (a.nonce gid) := by
  have hhash : calculatePowWithSha3AndMatrix sw a.matrix a.powStateBase (a.nonce gid) =
      (s.calculatePow P useAvx2 (a.nonce gid)).toLeBytes := by
    rw [calculatePowWithSha3AndMatrix, cryptixHashMatrix, ha.matrix, ha.powStateBase, primitives_eq, ← hP.eq_cuda,
      calculatePowPreMatrix_eq, Kernel.cryptixHashMatrix_eq (OpenCl.kernel_agrees sw.toBuild) hjob.nibbles P _ useAvx2]
    rfl
  rw [passes, hhash, ha.targetWords, Uint256.hashMeetsTargetWords_eq, State.checkPow]

/-- A launch of the batch kernel for a job, over at least as many work-items as there are nonces to try, these in whole
    groups. In every interleaving of the items: whatever is written into the list is a nonce of the batch that passes
    `check_pow`, within the room of the list; at the end the counter is the number of those nonces, and the list holds
    them, each once, as far as there is room, and nothing else has been written; and the launch can come to its end. -/
theorem hashBatch_lists (hjob : s.IsJob) (hP : P.Standard) (useAvx2 : Bool) {a : HashBatchArgs} (ha : a.For s)
    (sw : Switches) {items lsize : Nat} (hsize : 0 < lsize) (hdvd : lsize ∣ a.nonceCount.toNat)
    (hle : a.nonceCount.toNat ≤ items) (h32 : items ≤ 2 ^ 32) (outNonces : Nat → UInt64) (uninit : Nat → Bytes 4096) :
    (∀ t, Reachable ((hashBatch sw a lsize).gridStep items lsize) (BatchMemory.start outNonces uninit) t →
      (∀ k, t.store.outNonces k = outNonces k ∨ (k < a.maxResults.toNat ∧ ∃ gid, gid < a.nonceCount.toNat ∧
        t.store.outNonces k = a.nonce gid ∧ s.checkPow P useAvx2 (a.nonce gid) = true)) ∧
      ((∀ gid, gid < items → t.place gid = .done) → ∃ winners : List Nat, winners.Nodup ∧
        (∀ gid, gid ∈ winners ↔ gid < a.nonceCount.toNat ∧ s.checkPow P useAvx2 (a.nonce gid) = true) ∧
        t.store.outCount.toNat = winners.length ∧
        (∀ k gid, winners[k]? = some gid → k < a.maxResults.toNat → t.store.outNonces k = a.nonce gid) ∧
        ∀ k, min winners.length a.maxResults.toNat ≤ k → t.store.outNonces k = outNonces k)) ∧
    ∃ order t, run ((hashBatch sw a lsize).gridStep items lsize) (BatchMemory.start outNonces uninit) order = some t ∧
      ∀ gid, gid < items → t.place gid = .done := by
  have hverdict := hjob.batch_passes hP useAvx2 ha sw
  refine ⟨fun t ht => ?_, ?_⟩
  · obtain ⟨hok, hclaims⟩ := (batch_outline sw outNonces hsize hdvd hle h32).reachable ht
      ⟨rfl, List.nodup_nil, fun g hg => absurd hg List.not_mem_nil, fun _ => Or.inl rfl⟩ fun _ => List.not_mem_nil
    refine ⟨fun k => ?_, fun hdone => ?_⟩
    · rcases hok.listed k with hold | ⟨g, hk, hroom, hnonce⟩
      · exact Or.inl hold
      · obtain ⟨hactive, hyes⟩ := hok.good g (List.mem_of_getElem? hk)
        exact Or.inr ⟨hroom, g, hactive, hnonce, (hverdict g).symm.trans hyes⟩
    · -- Every item is through.
      have hthrough : ∀ gid, gid < a.nonceCount.toNat → Listed sw a t.store gid := fun gid hgid => by
        have hclaim := hclaims gid
        rw [hdone gid (lt_of_lt_of_le hgid hle)] at hclaim
        exact (hclaim.resolve_left (Nat.not_le.mpr hgid)).2
      refine ⟨t.store.winners, hok.nodup, fun gid => ⟨fun hmem => ?_, fun ⟨hgid, hyes⟩ => ?_⟩, hok.count,
        fun k gid hk hroom => ?_, fun k hpast => ?_⟩
      · obtain ⟨hgid, hyes⟩ := hok.good gid hmem
        exact ⟨hgid, (hverdict gid).symm.trans hyes⟩
      · obtain ⟨k, hk, -⟩ := hthrough gid hgid ((hverdict gid).trans hyes)
        exact List.mem_of_getElem? hk
      · obtain ⟨hgid, hyes⟩ := hok.good gid (List.mem_of_getElem? hk)
        obtain ⟨k', hk', hnonce⟩ := hthrough gid hgid hyes
        obtain ⟨hlt, -⟩ := List.getElem?_eq_some_iff.mp hk
        obtain rfl : k = k' := (List.getElem?_inj hlt hok.nodup).mp (hk.trans hk'.symm)
        exact hnonce hroom
      · rcases hok.listed k with hold | ⟨g, hk, hroom, -⟩
        · exact hold
        · obtain ⟨hlt, -⟩ := List.getElem?_eq_some_iff.mp hk
          omega
  · have hprogress : Progress (hashBatch sw a lsize) batchToDoAt (· == .done) := batch_progress hsize
    obtain ⟨order, t, hrun, hends⟩ := hprogress.exists_end items lsize (BatchMemory.start outNonces uninit)
    exact ⟨order, t, hrun, fun gid hgid => beq_iff_eq.mp (hends gid hgid)⟩

/-- Four nonces in two groups of two items, and a third group that has none; the list has room for two. -/
def OpenCl.fourNonces (s : State Unit) : HashBatchArgs where
  matrix := s.matrix.bytes
  powStateBase := s.hasher.state
  targetWords := s.target.words
  startNonce := 0x100
  nonceCount := 4
  maxResults := 2

/-- All four nonces pass: they are counted, and two of them listed. -/
theorem hashBatch_lists_easy : ∃ order t, run ((hashBatch ⟨⟨false, false⟩, false⟩
      (OpenCl.fourNonces (Miner.easyJob 0xff 0x100)) 2).gridStep 6 2)
      (BatchMemory.start (fun _ => 0) fun _ => Vector.replicate 4096 1) order = some t ∧
    t.store.outCount.toNat = 4 ∧ t.store.outNonces 2 = 0 ∧
    ∃ g g', g < 4 ∧ g' < 4 ∧ g ≠ g' ∧ t.store.outNonces 0 = 0x100 + (UInt32.ofNat g).toUInt64 ∧
      t.store.outNonces 1 = 0x100 + (UInt32.ofNat g').toUInt64 := by
  obtain ⟨hreach, order, t, hrun, hdone⟩ := hashBatch_lists (Miner.isJob_easyJob 0xff 0x100) Cuda.primitives_standard true
    (a := OpenCl.fourNonces (Miner.easyJob 0xff 0x100)) ⟨rfl, rfl, rfl⟩ ⟨⟨false, false⟩, false⟩
    (by decide : 0 < 2) (by decide) (by decide : 4 ≤ 6) (by decide) (fun _ => 0) fun _ => Vector.replicate 4096 1
  obtain ⟨winners, hnodup, hmem, hcount, hlisted, hrest⟩ := (hreach t (Reachable.of_run order hrun)).2 hdone
  have hfour : ∀ gid, gid ∈ winners ↔ gid ∈ List.range 4 := fun gid => by
    rw [hmem, List.mem_range]
    exact and_iff_left (Miner.checkPow_easyJob _ _ _ _ _)
  have hlength : winners.length = 4 :=
    ((List.perm_ext_iff_of_nodup hnodup List.nodup_range).mpr hfour).length_eq.trans List.length_range
  have hget (k : Nat) (hk : k < 4) : ∃ g, winners[k]? = some g ∧ g < 4 := by
    have hlt : k < winners.length := hlength ▸ hk
    exact ⟨winners[k], List.getElem?_eq_getElem hlt, List.mem_range.mp ((hfour _).mp (List.getElem_mem hlt))⟩
  obtain ⟨g, hg, hglt⟩ := hget 0 (by decide)
  obtain ⟨g', hg', hglt'⟩ := hget 1 (by decide)
  refine ⟨order, t, hrun, hcount.trans hlength, hrest 2 ?_, g, g', hglt, hglt', ?_,
    hlisted 0 g hg (by decide), hlisted 1 g' hg' (by decide)⟩
  · rw [hlength]
    decide
  · rintro rfl
    have hlt : 0 < winners.length := hlength ▸ Nat.zero_lt_succ 3
    exact absurd ((List.getElem?_inj hlt hnodup).mp (hg.trans hg'.symm)) (by decide)

end
end CryptixMiner
