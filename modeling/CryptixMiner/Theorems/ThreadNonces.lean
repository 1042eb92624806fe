import CryptixMiner.Launch.Nonce
import CryptixMiner.Theorems.CpuWalk

/-! The nonces of the threads of a launch that draws them from one random word: in a launch that is no larger than the
    partition each thread has its own, and all are of the partition. -/

namespace CryptixMiner.Launch
open Miner (IsPartition)

/-! ### Both kernels -/

theorem rotl64_eq_rotl (x : UInt64) {k : Nat} (h : k = 7 ∨ k = 45) : Device.rotl64 x k = CryptixMiner.Cuda.rotl x k := by
  apply UInt64.toBitVec_inj.mp
  rcases h with rfl | rfl <;> rfl

theorem xoshiro256NextCompat_eq (s : CryptixMiner.Cuda.Ulonglong4) :
    OpenCl.xoshiro256NextCompat s = CryptixMiner.Cuda.xoshiro256Next s := by
  simp only [OpenCl.xoshiro256NextCompat, CryptixMiner.Cuda.xoshiro256Next, rotl64_eq_rotl _ (Or.inl rfl),
    rotl64_eq_rotl _ (Or.inr rfl)]

/-- A thread has the same nonce in both kernels, and leaves the same buffer. -/
theorem drawNonce_agrees (nonceMask nonceFixed : UInt64) (randomType : UInt8) (states : Nat → UInt64) (gid : UInt32) :
    OpenCl.drawNonce nonceMask nonceFixed randomType states gid =
      Cuda.drawNonce nonceMask nonceFixed randomType states gid.toUInt64 := by
  simp only [OpenCl.drawNonce, Cuda.drawNonce, xoshiro256NextCompat_eq]

/-! ### Lean nonces -/

/-- The threads below `w` have nonces of their own, all in the partition of this mask. -/
structure OwnNonces (w : Nat) (mask fixed : UInt64) (nonce : Nat → UInt64) : Prop where
  injOn : Set.InjOn nonce {gid | gid < w}
  partition : ∀ gid < w, nonce gid &&& ~~~mask = fixed

section
variable {k w gid : Nat} {mask fixed s : UInt64}

/-- The nonce that is made of a word and the number of a thread. -/
theorem toNat_xor_next (h : IsPartition k mask fixed) {g : UInt64} (hg : g.toNat = gid) (hlt : gid < 2 ^ k) :
    (((s ^^^ g) &&& mask) ||| fixed).toNat = fixed.toNat + (s.toNat % 2 ^ k ^^^ gid) := by
  rw [h.toNat_next, UInt64.toNat_xor, Nat.xor_mod_two_pow, hg, Nat.mod_eq_of_lt hlt]

theorem ownNonces_xor (h : IsPartition k mask fixed) (hw : w ≤ 2 ^ k) {id : Nat → UInt64}
    (hid : ∀ gid < w, (id gid).toNat = gid) :
    OwnNonces w mask fixed fun gid => ((s ^^^ id gid) &&& mask) ||| fixed where
  injOn g hg g' hg' heq := by
    have hnat := congrArg UInt64.toNat heq
    simp only [toNat_xor_next h (hid g hg) (lt_of_lt_of_le hg hw),
      toNat_xor_next h (hid g' hg') (lt_of_lt_of_le hg' hw)] at hnat
    have hxor := congrArg (s.toNat % 2 ^ k ^^^ ·) (Nat.add_left_cancel hnat)
    simpa only [← Nat.xor_assoc, Nat.xor_self, Nat.zero_xor] using hxor
  partition gid hg := by
    have hgid := lt_of_lt_of_le hg hw
    have hlow : s.toNat % 2 ^ k ^^^ gid < 2 ^ k := Nat.xor_lt_two_pow (Nat.mod_lt _ (Nat.two_pow_pos k)) hgid
    obtain ⟨q, hq⟩ := h.fixed_dvd
    rw [h.mem_iff, toNat_xor_next h (hid gid hg) hgid, hq, Nat.mul_add_mod, Nat.mod_eq_of_lt hlow]

end

/-- Lean nonce generation, for every word, every partition of `2 ^ k` nonces and every workload up to its size. -/
theorem lean_ownNonces {k : Nat} {mask fixed : UInt64} (hpart : IsPartition k mask fixed) (states : Nat → UInt64)
    {w : Nat} (hw : w ≤ 2 ^ k) :
    OwnNonces w mask fixed (fun gid => (Cuda.drawNonce mask fixed RANDOM_LEAN states (UInt64.ofNat gid)).1) ∧
      (w ≤ 2 ^ 32 →
        OwnNonces w mask fixed fun gid => (OpenCl.drawNonce mask fixed RANDOM_LEAN states (UInt32.ofNat gid)).1) := by
  have hk : 2 ^ k ≤ 2 ^ 64 := Nat.pow_le_pow_right (by decide) hpart.le
  constructor
  · have hid : ∀ gid < w, (UInt64.ofNat gid).toNat = gid := by
      intro gid hgid
      rw [UInt64.toNat_ofNat', Nat.mod_eq_of_lt (by omega)]
    have hown := ownNonces_xor (s := states 0) hpart hw hid
    exact hown
  · intro hw32
    have hid : ∀ gid < w, (UInt32.ofNat gid).toUInt64.toNat = gid := by
      intro gid hgid
      rw [UInt32.toNat_toUInt64, UInt32.toNat_ofNat', Nat.mod_eq_of_lt (by omega)]
    simp only [drawNonce_agrees]
    have hown := ownNonces_xor (s := states 0) hpart hw hid
    exact hown

theorem lean_ownNonces_full :
    OwnNonces 256 0xff 0x100 (fun gid =>
        (Cuda.drawNonce 0xff 0x100 RANDOM_LEAN (fun _ => 0xabcdef) (UInt64.ofNat gid)).1) ∧
      OwnNonces 256 0xff 0x100 fun gid =>
        (OpenCl.drawNonce 0xff 0x100 RANDOM_LEAN (fun _ => 0xabcdef) (UInt32.ofNat gid)).1 := by
  have hpart : IsPartition 8 0xff 0x100 := ⟨by decide, by decide, by decide, by decide⟩
  obtain ⟨hcuda, hopencl⟩ := lean_ownNonces hpart (fun _ => 0xabcdef) (Nat.le_refl (2 ^ 8))
  exact ⟨hcuda, hopencl (by decide)⟩

end CryptixMiner.Launch
