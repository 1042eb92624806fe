import CryptixMiner.Pow.State
import CryptixMiner.Theorems.KernelAgrees
import CryptixMiner.Kernel.Primitives

/-! The rounds before the matrix hash: a kernel that is given the header bytes of a state hands the matrix
    hash the bytes that the processor hands it. -/

namespace CryptixMiner
open Words Device

/-! ### The header bytes -/

namespace State

/-- The words of the header: the hash, the timestamp, zeros. -/
theorem load64Le_powHashHeaderOf (prePowHash : Hash) (timestamp : UInt64) {i : Nat} (hi : i < 9) :
    load64Le (powHashHeaderOf prePowHash timestamp) (i * 8) =
      if h : i < 4 then prePowHash.words[i] else if i = 4 then timestamp else 0 := by
  have hget {j : Nat} (hj : j < 72) : (powHashHeaderOf prePowHash timestamp)[j]! =
      if h : j < 32 then prePowHash.toLeBytes[j] else if j < 40 then leByte timestamp.toBitVec (j - 32) else 0 := by
    rw [Loop.getElem!_eq _ hj, powHashHeaderOf, Vector.getElem_append]
    by_cases h32 : j < 32
    · have h40 : j < 32 + 8 := by omega
      rw [dif_pos h40, Vector.getElem_append, dif_pos h32, dif_pos h32]
    · rw [dif_neg h32]
      by_cases h40 : j < 40
      · rw [dif_pos h40, Vector.getElem_append, dif_neg h32, if_pos h40, Vector.getElem_ofFn]
      · rw [dif_neg h40, if_neg h40, Vector.getElem_replicate]
  rcases Nat.lt_or_ge i 4 with h4 | h4
  · rw [dif_pos h4, ← Uint256.load64Le_toLeBytes prePowHash h4, Nat.mul_comm]
    refine load64Le_congr fun k hk => ?_
    have hlt : 8 * i + k < 32 := by omega
    rw [hget (by omega), dif_pos hlt, Loop.getElem!_eq _ hlt]
  · have hn4 : ¬i < 4 := by omega
    rw [dif_neg hn4]
    rcases Nat.eq_or_lt_of_le h4 with rfl | h5
    · have hbyte : ∀ k < 8, (powHashHeaderOf prePowHash timestamp)[4 * 8 + k]! = leByte timestamp.toBitVec k := by
        intro k hk
        have hn32 : ¬4 * 8 + k < 32 := by omega
        have h40 : 4 * 8 + k < 40 := by omega
        rw [hget (by omega), dif_neg hn32, if_pos h40, Nat.add_sub_cancel_left]
      rw [if_pos rfl, load64Le, ofLeBytes_congr hbyte, ofLeBytes_leByte (by decide)]
    · have hbyte : ∀ k < 8, (powHashHeaderOf prePowHash timestamp)[i * 8 + k]! = 0 := fun k hk => by
        have hn32 : ¬i * 8 + k < 32 := by omega
        have hn40 : ¬i * 8 + k < 40 := by omega
        rw [hget (by omega), dif_neg hn32, if_neg hn40]
      have hne : i ≠ 4 := by omega
      rw [if_neg hne, load64Le, ofLeBytes_congr hbyte]
      rfl
end State

namespace Kernel
variable {K : Kernel}

/-- Absorbing the header bytes word by word is what `PowHasher::new` does with hash and timestamp. -/
theorem powHashFinalizeFromHeader_eq (hK : KernelAgrees K) (P : Primitives) (prePowHash : Hash)
    (timestamp nonce : UInt64) :
    K.powHashFinalizeFromHeader P (State.powHashHeaderOf prePowHash timestamp) nonce =
      ((PowHasher.new prePowHash timestamp).finalizeWithNonce P nonce).toLeBytes := by
  have habsorb : Loop.forRange 0 9 (fun i (st : KeccakState) =>
      st.set! i (st[i]! ^^^ load64Le (State.powHashHeaderOf prePowHash timestamp) (i * 8))) K.POW_HASH_INITIAL_STATE =
      (PowHasher.new prePowHash timestamp).state := by
    rw [hK.powHashInitialState]
    refine Vector.ext fun j hj => ?_
    rw [Loop.getElem_forRange_set! (fun i x => x ^^^ load64Le (State.powHashHeaderOf prePowHash timestamp) (i * 8)) _
      9 hj, PowHasher.new, Loop.getElem_set! hj, getElem_xorHash _ _ hj]
    rcases Nat.lt_trichotomy j 4 with h4 | rfl | h4
    · have h9 : j < 9 := by omega
      have hne : 4 ≠ j := by omega
      rw [if_pos h9, State.load64Le_powHashHeaderOf _ _ h9, dif_pos h4, if_neg hne, dif_pos h4]
    · rw [if_pos (by decide), State.load64Le_powHashHeaderOf _ _ (by decide), dif_neg (by decide), if_pos rfl, if_pos rfl,
        Loop.getElem!_eq _ hj, getElem_xorHash _ _ hj, dif_neg (by decide)]
    · have hn4 : ¬j < 4 := by omega
      have hne : 4 ≠ j := by omega
      rw [if_neg hne, dif_neg hn4]
      by_cases h9 : j < 9
      · rw [if_pos h9, State.load64Le_powHashHeaderOf _ _ h9, dif_neg hn4, if_neg hne.symm, UInt64.xor_zero]
      · rw [if_neg h9]
  simp only [powHashFinalizeFromHeader, Uint256.store64Le_four]
  rw [habsorb]
  rfl

/-! ### The loops that rewrite a byte -/

theorem mutationBody_eq (m : Mutation) (i : Nat) (h : Bytes 32) : mutationBody m i h = m.body i h := by
  simp only [mutationBody, Mutation.body, and_31, and_fifteen, uint8_and_one, rotl8_eq, rotr8_eq]

theorem mutationA5_eq : mutationA5 = PreMatrix.mutationA5 := by
  simp only [mutationA5, PreMatrix.mutationA5, and_three]

theorem mutation66_eq : mutation66 = PreMatrix.mutation66 := by
  simp only [mutation66, PreMatrix.mutation66, and_three]

theorem repeated_eq (hK : KernelAgrees K) (m : Mutation) (x : UInt8) {d : UInt8} {bound : Nat} (hd : d.toNat = bound)
    (hpos : 0 < bound) (hlt : bound < 128) (i : Nat) (h : Bytes 32) :
    K.repeated m bound ((x % d).toNat + 1) i h = PreMatrix.repeated m (x % d + 1) i h := by
  have hle : (x % d).toNat + 1 ≤ bound := by
    have hmod : x.toNat % d.toNat < d.toNat := Nat.mod_lt _ (by omega)
    rw [UInt8.toNat_mod]
    omega
  rw [repeated, hK.loop _ h hle, PreMatrix.repeated, toNat_mod_add_one x (by omega) (by omega)]
  exact Loop.forRange_congr (Nat.zero_le _) fun _ h _ _ => mutationBody_eq m i h

theorem mutate_eq (hK : KernelAgrees K) (i : Nat) (h : Bytes 32) : K.mutate i h = PreMatrix.mutate i h := by
  have h4 (m : Mutation) (x : UInt8) :
      K.repeated m 4 ((x % 4).toNat + 1) i h = PreMatrix.repeated m (x % 4 + 1) i h :=
    repeated_eq hK m x (d := 4) rfl (by decide) (by decide) i h
  have h5 (m : Mutation) (x : UInt8) :
      K.repeated m 5 ((x % 5).toNat + 1) i h = PreMatrix.repeated m (x % 5 + 1) i h :=
    repeated_eq hK m x (d := 5) rfl (by decide) (by decide) i h
  simp only [mutate, PreMatrix.mutate, uint8_and_three, h4, h5, mutationA5_eq, mutation66_eq]
  rfl

/-- The rounds of a kernel on the header bytes that a state carries are the processor's rounds. -/
theorem calculatePowPreMatrixFromHeader_eq (hK : KernelAgrees K) (P : Primitives) (header : Bytes 72) (nonce : UInt64) :
    K.calculatePowPreMatrixFromHeader P header nonce =
      PreMatrix.rounds P (K.powHashFinalizeFromHeader P header nonce) := by
  simp only [calculatePowPreMatrixFromHeader, PreMatrix.rounds]
  generalize K.powHashFinalizeFromHeader P header nonce = h
  have hcount : (h[0]! % 2 + 1).toNat = h[0]!.toNat % 2 + 1 := toNat_mod_add_one h[0]! (by decide) (by decide)
  rw [hK.loop _ h (by rw [Nat.and_one_is_mod]; omega), Nat.and_one_is_mod, hcount]
  exact Loop.forRange_congr (Nat.zero_le _) fun i h _ _ => mutate_eq hK i (P.sha3_256 h)

end Kernel

/-! ### Both kernels -/

/-- The parts of a state that depend on the hash and timestamp are made of the same hash and timestamp. -/
theorem State.new_eq {Block : Type} {B : Builder Block} {id : Nat} {blockSeed : BlockSeed Block} {s : State Block}
    (h : State.new B id blockSeed = .ok s) : ∃ prePowHash timestamp,
      s.powHashHeader = powHashHeaderOf prePowHash timestamp ∧ s.hasher = PowHasher.new prePowHash timestamp := by
  cases blockSeed with
  | fullBlock block =>
    simp only [State.new] at h
    cases hheader : B.header block with
    | none => simp [hheader] at h
    | some header =>
      simp only [hheader, Except.ok.injEq] at h
      subst h
      exact ⟨header.prePowHash, header.timestamp, rfl, rfl⟩
  | partialBlock jobId headerHash timestamp nonce target nonceMask nonceFixed hash =>
    simp only [State.new, Except.ok.injEq] at h
    subst h
    exact ⟨headerHash, timestamp, rfl, rfl⟩

theorem Kernel.preMatrix_eq {K : Kernel} (hK : KernelAgrees K) {Block : Type} {B : Builder Block} {id : Nat}
    {blockSeed : BlockSeed Block} {s : State Block} (h : State.new B id blockSeed = .ok s) (P : Primitives)
    (nonce : UInt64) : K.calculatePowPreMatrixFromHeader P s.powHashHeader nonce = s.preMatrix P nonce := by
  obtain ⟨prePowHash, timestamp, hheader, hhasher⟩ := State.new_eq h
  rw [calculatePowPreMatrixFromHeader_eq hK, hheader, powHashFinalizeFromHeader_eq hK, State.preMatrix, hhasher]

/-- The bytes that `calculate_pow` gives to the matrix hash are those that each kernel computes from the
    header bytes of the state. -/
theorem preMatrix_agrees {Block : Type} (B : Builder Block) (P : Primitives) (id : Nat) (blockSeed : BlockSeed Block)
    (s : State Block) (h : State.new B id blockSeed = .ok s) (nonce : UInt64) :
    (∀ arch, Cuda.calculatePowPreMatrixFromHeader P arch s.powHashHeader nonce = s.preMatrix P nonce) ∧
    (∀ build, OpenCl.calculatePowPreMatrixFromHeader P build s.powHashHeader nonce = s.preMatrix P nonce) :=
  ⟨fun arch => Kernel.preMatrix_eq (Cuda.kernel_agrees arch) h P nonce,
    fun build => Kernel.preMatrix_eq (OpenCl.kernel_agrees build) h P nonce⟩

/-- A pool's job, seeded with the header hash `1` and the timestamp `2`. -/
theorem preMatrix_agrees_job :
    let B : Builder Unit := ⟨fun _ => none, fun _ => ⟨Vector.replicate 64 (Vector.replicate 64 0)⟩⟩
    let one : Uint256 := ⟨#v[1, 0, 0, 0]⟩
    ∃ s, State.new B 7 (.partialBlock "job" one 2 0 one 0xff 0x100 none) = .ok s ∧
      Cuda.calculatePowPreMatrixFromHeader Cuda.primitives 700 s.powHashHeader 3 = s.preMatrix Cuda.primitives 3 ∧
      OpenCl.calculatePowPreMatrixFromHeader Cuda.primitives ⟨true, false⟩ s.powHashHeader 3 =
        s.preMatrix Cuda.primitives 3 := by
  intro B one
  have hnew : State.new B 7 (.partialBlock "job" one 2 0 one 0xff 0x100 none) = .ok (State.ofParts B 7 _ one 2 one _ _) :=
    rfl
  have hagrees := preMatrix_agrees B Cuda.primitives 7 _ _ hnew 3
  exact ⟨_, hnew, hagrees.1 700, hagrees.2 ⟨true, false⟩⟩

end CryptixMiner
