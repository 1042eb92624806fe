import CryptixMiner.Lib.Hex
import CryptixMiner.Lib.Sha3
import CryptixMiner.Theorems.Keccak

/-! The hashers with a precomputed state are the documented sponges: their 25 words are the state after the
    padded customization, with both ends of the message's padding already xored in. -/

namespace CryptixMiner
open Words Keccak Sha3

/-- The block that cSHAKE256 absorbs before the message. -/
def customBlock (custom : String) : List UInt8 := bytepad (encodeString [] ++ encodeString (Hex.bytes custom)) 136

/-- The state behind that block, evaluated with the tables of the kernel. -/
theorem f1600_customBlock (custom : String) :
    f1600 (xorBlock (Vector.replicate 25 0) (customBlock custom)) =
      Cuda.keccakF1600 (xorBlock (Vector.replicate 25 0) (customBlock custom)) := (Cuda.keccakF1600_eq _).symm

/-! ### Hashes as bytes -/

theorem toList_toLeBytes (x : Hash) : x.toLeBytes.toList = wordBytes x.words.toList := by
  refine List.ext_getElem? fun k => ?_
  have hbyte := getElem?_wordBytes x.words.toList (k / 8) (Nat.mod_lt k (by decide))
  rw [Nat.div_add_mod] at hbyte
  rw [hbyte]
  rcases Nat.lt_or_ge k 32 with hk | hk
  · have hlt : k / 8 < 4 := by omega
    simp [Uint256.toLeBytes, hk, hlt]
  · have hge : 4 ≤ k / 8 := by omega
    simp [Uint256.toLeBytes, hk, hge]

theorem toList_ofState (A : KeccakState) : (Hash.ofState A).toLeBytes.toList = (stateBytes A).take 32 := by
  rw [toList_toLeBytes, take_stateBytes]
  rfl

/-- The first 32 bytes of cSHAKE256 of words that fit in a block, with a customization of one block. -/
theorem take_cShake256 {custom : String} (hne : Hex.bytes custom ≠ []) (hlen : (customBlock custom).length = 136)
    (ws : List UInt64) (h : ws.length < 16) {outLen : Nat} (hout : 32 ≤ outLen) :
    (cShake256 (wordBytes ws) outLen [] (Hex.bytes custom)).take 32 =
      (Hash.ofState (f1600 (Vector.ofFn fun i =>
        (f1600 (xorBlock (Vector.replicate 25 0) (customBlock custom)))[i.val]! ^^^
          (ws ++ padWords ws.length 0x04).getD i.val 0))).toLeBytes.toList := by
  rw [cShake256, if_neg (fun hboth => hne hboth.2), take_sponge _ _ (by decide) (by decide) hout, ← customBlock, pad_append _ hlen,
    absorb_append (by decide) _ hlen, absorb_last _ ws h, toList_ofState]

/-- Words and what is behind them do not meet. -/
theorem getD_xor (ws rest : List UInt64) (j : Nat) :
    (List.replicate ws.length 0 ++ rest).getD j 0 ^^^ ws.getD j 0 = (ws ++ rest).getD j 0 := by
  rcases Nat.lt_or_ge j ws.length with hj | hj
  · rw [List.getD_append _ _ _ _ (by simpa using hj), List.getD_append _ _ _ _ hj, List.getD_replicate _ hj,
      UInt64.zero_xor]
  · have hlen : (List.replicate ws.length (0 : UInt64)).length ≤ j := by simpa using hj
    rw [List.getD_append_right _ _ _ _ hlen, List.getD_append_right _ _ _ _ hj, List.length_replicate,
      List.getD_eq_default _ _ hj, UInt64.xor_zero]

theorem getElem_xorHash_getD (state : KeccakState) (hash : Hash) {j : Nat} (hj : j < 25) :
    (xorHash state hash)[j] = state[j] ^^^ hash.words.toList.getD j 0 := by
  rw [getElem_xorHash state hash hj]
  by_cases h : j < 4
  · simp [h]
  · simp [h]

/-- A precomputed state with words xored in, where the precomputed state is the one behind the customization
    with the padding of those words xored in. -/
theorem state_of_table {A initial st : KeccakState} {ws : List UInt64}
    (htable : ∀ j < 25, initial[j]! = A[j]! ^^^ (List.replicate ws.length 0 ++ padWords ws.length 0x04).getD j 0)
    (hst : ∀ j (_ : j < 25), st[j] = initial[j]! ^^^ ws.getD j 0) :
    st = Vector.ofFn fun i => A[i.val]! ^^^ (ws ++ padWords ws.length 0x04).getD i.val 0 := by
  refine Vector.ext fun j hj => ?_
  rw [hst j hj, htable j hj, UInt64.xor_assoc, getD_xor, Vector.getElem_ofFn]

namespace PowHasher

theorem customBlock_length : (customBlock "ProofOfWorkHash").length = 136 := by decide +kernel

theorem initialState_eq : ∀ j < 25, INITIAL_STATE[j]! =
    (f1600 (xorBlock (Vector.replicate 25 0) (customBlock "ProofOfWorkHash")))[j]! ^^^
      (List.replicate 10 0 ++ padWords 10 0x04).getD j 0 := by
  rw [f1600_customBlock]
  decide +kernel

/-- The words of the message: the hash, the timestamp, four zeros, the nonce. -/
def message (prePowHash : Hash) (timestamp nonce : UInt64) : List UInt64 :=
  prePowHash.words.toList ++ ([timestamp] ++ (List.replicate 4 0 ++ [nonce]))

theorem wordBytes_message (prePowHash : Hash) (timestamp nonce : UInt64) :
    wordBytes (message prePowHash timestamp nonce) = prePowHash.toLeBytes.toList ++ (leBytes 8 timestamp.toBitVec ++
      (List.replicate 32 0 ++ leBytes 8 nonce.toBitVec)) := by
  rw [message, wordBytes_append, wordBytes_append, wordBytes_append, wordBytes_singleton, wordBytes_singleton,
    wordBytes_replicate, toList_toLeBytes]

theorem getElem_state (prePowHash : Hash) (timestamp nonce : UInt64) {j : Nat} (hj : j < 25) :
    ((new prePowHash timestamp).state.set! 9 ((new prePowHash timestamp).state[9]! ^^^ nonce))[j] =
      INITIAL_STATE[j]! ^^^ (message prePowHash timestamp nonce).getD j 0 := by
  have h4 : 4 < 25 := by decide
  have h9 : 9 < 25 := by decide
  simp only [new, Loop.getElem_set! hj, Loop.getElem!_eq _ h4, Loop.getElem!_eq _ h9, Loop.getElem_set! h9,
    getElem_xorHash_getD _ _ hj, getElem_xorHash_getD _ _ h9, getElem_xorHash_getD _ _ h4, message]
  interval_cases j <;> simp [List.getD_eq_getElem?_getD]

end PowHasher

namespace HeavyHasher

theorem customBlock_length : (customBlock "HeavyHash").length = 136 := by decide +kernel

theorem initialState_eq : ∀ j < 25, INITIAL_STATE[j]! =
    (f1600 (xorBlock (Vector.replicate 25 0) (customBlock "HeavyHash")))[j]! ^^^
      (List.replicate 4 0 ++ padWords 4 0x04).getD j 0 := by
  rw [f1600_customBlock]
  decide +kernel

end HeavyHasher

/-- Both hashers, where the permutation is Keccak-f[1600]. -/
theorem hashers_eq_cShake256 (P : Primitives) (hkeccak : P.keccakF1600 = f1600) :
    (∀ (prePowHash : Hash) (timestamp nonce : UInt64) (outLen : Nat), 32 ≤ outLen →
      ((PowHasher.new prePowHash timestamp).finalizeWithNonce P nonce).toLeBytes.toList =
        (cShake256 (prePowHash.toLeBytes.toList ++ (leBytes 8 timestamp.toBitVec ++ (List.replicate 32 0 ++
          leBytes 8 nonce.toBitVec))) outLen [] (Hex.bytes "ProofOfWorkHash")).take 32) ∧
      ∀ (inHash : Hash) (outLen : Nat), 32 ≤ outLen →
        (HeavyHasher.hash P inHash).toLeBytes.toList =
          (cShake256 inHash.toLeBytes.toList outLen [] (Hex.bytes "HeavyHash")).take 32 := by
  constructor
  · intro prePowHash timestamp nonce outLen hout
    have hlen : (PowHasher.message prePowHash timestamp nonce).length = 10 := by simp [PowHasher.message]
    have htable := PowHasher.initialState_eq
    rw [← hlen] at htable
    rw [← PowHasher.wordBytes_message, take_cShake256 (by decide +kernel) PowHasher.customBlock_length _ (by omega) hout,
      PowHasher.finalizeWithNonce, hkeccak,
      state_of_table htable fun j hj => PowHasher.getElem_state prePowHash timestamp nonce hj]
  · intro inHash outLen hout
    have hlen : inHash.words.toList.length = 4 := inHash.words.length_toList
    have htable := HeavyHasher.initialState_eq
    rw [← hlen] at htable
    have hstate : xorHash HeavyHasher.INITIAL_STATE inHash = _ := state_of_table htable fun j hj => by
      rw [getElem_xorHash_getD _ _ hj, Loop.getElem!_eq _ hj]
    rw [toList_toLeBytes inHash, take_cShake256 (by decide +kernel) HeavyHasher.customBlock_length _ (by omega) hout,
      HeavyHasher.hash, hkeccak, hstate]

theorem hashers_eq_cShake256_f1600 :
    (∀ (prePowHash : Hash) (timestamp nonce : UInt64) (outLen : Nat), 32 ≤ outLen →
      ((PowHasher.new prePowHash timestamp).finalizeWithNonce { Cuda.primitives with keccakF1600 := f1600 }
        nonce).toLeBytes.toList =
          (cShake256 (prePowHash.toLeBytes.toList ++ (leBytes 8 timestamp.toBitVec ++ (List.replicate 32 0 ++
            leBytes 8 nonce.toBitVec))) outLen [] (Hex.bytes "ProofOfWorkHash")).take 32) ∧
      ∀ (inHash : Hash) (outLen : Nat), 32 ≤ outLen →
        (HeavyHasher.hash { Cuda.primitives with keccakF1600 := f1600 } inHash).toLeBytes.toList =
          (cShake256 inHash.toLeBytes.toList outLen [] (Hex.bytes "HeavyHash")).take 32 :=
  hashers_eq_cShake256 { Cuda.primitives with keccakF1600 := f1600 } rfl

end CryptixMiner
