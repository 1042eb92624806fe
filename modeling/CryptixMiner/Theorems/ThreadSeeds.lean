import CryptixMiner.Theorems.LongJump

/-! The seeds that the host gives to the threads of a device. Its long jump is not the reference's, but it is a number
    of steps all the same, one that has no factor in common with the length of the cycle: the jumps run through all
    states but zero before one comes back. -/

namespace CryptixMiner.Xoshiro256StarStar
open BinaryPoly Polynomial
open Xoshiro256 (Quad next T select charPoly charPoly_modulus quotient)

/-! ### The jump as a polynomial in the step -/

section Words
variable {j0 j1 j2 j3 : Nat}

/-- The sum that a word selects. -/
noncomputable def wordPoly (j : Nat) : (ZMod 2)[X] := poly (pack 64 j)

/-- Each sum but the first is added to the state that it was taken from. -/
noncomputable def jumpPoly (p q r t : (ZMod 2)[X]) : (ZMod 2)[X] := p * (1 + q) * ((1 + r) * (1 + t))

theorem aeval_wordPoly (j : Nat) (s : Quad) : aeval T (wordPoly j) s = select j.testBit 64 s :=
  Xoshiro256.aeval_pack 64 j s

theorem stage_eq_aeval (jmp : UInt64) (s : Quad) : stage jmp s = aeval T (1 + wordPoly jmp.toNat) s := by
  rw [map_add, map_one, LinearMap.add_apply, Module.End.one_apply, aeval_wordPoly, stage]

theorem aeval_jumpPoly (p q r t : (ZMod 2)[X]) (s : Quad) :
    aeval T (jumpPoly p q r t) s = aeval T (1 + t) (aeval T (1 + r) (aeval T (1 + q) (aeval T p s))) := by
  have hcomm : jumpPoly p q r t = (1 + t) * ((1 + r) * ((1 + q) * p)) := by
    rw [jumpPoly]
    ring
  rw [hcomm, map_mul, map_mul, map_mul, Module.End.mul_apply, Module.End.mul_apply, Module.End.mul_apply]

theorem stages_eq_aeval (w0 w1 w2 w3 : UInt64) (s : Quad) :
    stage w3 (stage w2 (stage w1 (select w0.toNat.testBit 64 s))) =
      aeval T (jumpPoly (wordPoly w0.toNat) (wordPoly w1.toNat) (wordPoly w2.toNat) (wordPoly w3.toNat)) s := by
  rw [stage_eq_aeval, stage_eq_aeval, stage_eq_aeval, ← aeval_wordPoly, aeval_jumpPoly]

/-- The remainder of the polynomial, for words that are odd. -/
def jumpRemainder (j0 j1 j2 j3 : Nat) : Option Nat := do
  let low ← mulMod 256 charPoly quotient (pack 64 j0) (pack 64 (j1 - 1))
  let high ← mulMod 256 charPoly quotient (pack 64 (j2 - 1)) (pack 64 (j3 - 1))
  mulMod 256 charPoly quotient low high

theorem stands_word (n : Nat) : Stands 256 charPoly (pack 64 n) (wordPoly n) := stands_pack (by decide) n

theorem stands_odd {n : Nat} (hn : n % 2 = 1) : Stands 256 charPoly (pack 64 (n - 1)) (1 + wordPoly n) := by
  have hpred : wordPoly (n - 1) = 1 + wordPoly n := by
    rw [wordPoly, wordPoly, poly_pack_pred (by decide) hn]
  rw [← hpred]
  exact stands_word (n - 1)

theorem stands_jumpRemainder (h1 : j1 % 2 = 1) (h2 : j2 % 2 = 1) (h3 : j3 % 2 = 1) {r : Nat}
    (h : jumpRemainder j0 j1 j2 j3 = some r) :
    Stands 256 charPoly r (jumpPoly (wordPoly j0) (wordPoly j1) (wordPoly j2) (wordPoly j3)) := by
  obtain ⟨low, hlow, h⟩ := Option.bind_eq_some_iff.mp h
  obtain ⟨high, hhigh, h⟩ := Option.bind_eq_some_iff.mp h
  have hleft := (stands_word j0).mulMod charPoly_modulus (stands_odd h1) hlow
  have hright := (stands_odd h2).mulMod charPoly_modulus (stands_odd h3) hhigh
  rw [jumpPoly]
  exact hleft.mulMod charPoly_modulus hright h

/-- Where `n` jumps from the unit lead. -/
def jumps (j0 j1 j2 j3 n : Nat) : Option (Nat × Nat × Nat × Nat) := do
  let r ← jumpRemainder j0 j1 j2 j3
  let power ← powOf 256 charPoly quotient r 257 n
  return Xoshiro256.combine 256 power 1 0 0 0 0 0 0 0

theorem jumps_eq (h1 : j1 % 2 = 1) (h2 : j2 % 2 = 1) (h3 : j3 % 2 = 1) {f : Quad → Quad}
    (hf : ∀ s, f s = aeval T (jumpPoly (wordPoly j0) (wordPoly j1) (wordPoly j2) (wordPoly j3)) s) {n : Nat} {w : Nat × Nat × Nat × Nat}
    (h : jumps j0 j1 j2 j3 n = some w) : (f^[n] Xoshiro256.unit).toNats = w := by
  obtain ⟨r, hr, h⟩ := Option.bind_eq_some_iff.mp h
  obtain ⟨power, hpower, h⟩ := Option.bind_eq_some_iff.mp h
  obtain rfl := Option.some.inj h
  have hstands := stands_powOf charPoly_modulus (stands_jumpRemainder h1 h2 h3 hr) hpower
  have haeval := hstands.aeval_eq Xoshiro256.aeval_charPoly
  have hfun : f = aeval T (jumpPoly (wordPoly j0) (wordPoly j1) (wordPoly j2) (wordPoly j3)) := funext hf
  rw [map_pow, Module.End.pow_apply, ← hfun] at haeval
  rw [haeval, ← Xoshiro256.combine_unit hstands.small hstands.lt]

end Words

/-! ### How far a jump goes -/

/-- Where `n` jumps of the host lead. -/
def hostJumps (n : Nat) : Option (Nat × Nat × Nat × Nat) :=
  jumps 0x76e15d3efefdcbbf 0xc5004e441c522fb3 0x77710069854ee241 0x39109bb02acbe635 n

theorem hostJumps_eq {n : Nat} {w : Nat × Nat × Nat × Nat} (h : hostJumps n = some w) :
    (hostLeap^[n] Xoshiro256.unit).toNats = w :=
  jumps_eq (by decide) (by decide) (by decide) (stages_eq_aeval _ _ _ _) h

theorem jumps_factors : ∀ p ∈ FermatFactors.factors, (hostJumps ((2 ^ 256 - 1) / p)).any (· != (1, 0, 0, 0)) = true := by
  decide +kernel

theorem jumps_one : (hostJumps 1).any (· != (0, 0, 0, 0)) = true := by decide +kernel

theorem hostLeap_unit_ne_zero : hostLeap Xoshiro256.unit ≠ 0 := by
  intro h0
  obtain ⟨w, hw, hne⟩ := (Option.any_eq_true _ _).mp jumps_one
  have hzero : w = (0, 0, 0, 0) := by
    rw [← hostJumps_eq hw, Function.iterate_one, h0]
    rfl
  rw [hzero] at hne
  exact absurd hne (by decide)

/-- The jump is a number of steps, prime to the length of the cycle. -/
theorem exists_hostLeap : ∃ m, Nat.Coprime m (2 ^ 256 - 1) ∧ ∀ s, hostLeap s = next^[m] s := by
  obtain ⟨m, hm⟩ := Xoshiro256.exists_leap hostLeap_next hostLeap_zero hostLeap_unit_ne_zero
  refine ⟨m, Xoshiro256.coprime_of_leaps fun p hp hback => ?_, hm⟩
  obtain ⟨w, hw, hne⟩ := (Option.any_eq_true _ _).mp (jumps_factors p hp)
  have hleap : hostLeap = next^[m] := funext hm
  rw [Function.iterate_mul, ← hleap] at hback
  have hunit : w = (1, 0, 0, 0) := by
    rw [← hostJumps_eq hw, hback]
    rfl
  rw [hunit] at hne
  exact absurd hne (by decide)

theorem exists_longJump : ∃ m, Nat.Coprime m (2 ^ 256 - 1) ∧ longJump = step^[m] := by
  obtain ⟨m, hcoprime, hm⟩ := exists_hostLeap
  refine ⟨m, hcoprime, ?_⟩
  funext g
  exact quad_inj (by rw [quad_longJump, quad_step_iterate, hm])

/-! ### The seeds -/

section Seeds
variable {seed : Vector UInt64 4} {g : Xoshiro256StarStar}

theorem step_iterate_eq_iff (hg : g.state ≠ Vector.replicate 4 0) {i j : Nat} :
    step^[i] g = step^[j] g ↔ i ≡ j [MOD 2 ^ 256 - 1] := by
  have hquad : g.quad ≠ 0 := mt (quad_eq_zero_iff g).mp hg
  rw [← Xoshiro256.iterate_eq_iff hquad, ← quad_step_iterate, ← quad_step_iterate]
  exact ⟨congrArg quad, fun h => quad_inj h⟩

theorem step_iterate_ne_zero (hg : g.state ≠ Vector.replicate 4 0) (n : Nat) :
    (step^[n] g).state ≠ Vector.replicate 4 0 := by
  rw [ne_eq, ← quad_eq_zero_iff, quad_step_iterate]
  exact Xoshiro256.iterate_ne_zero (mt (quad_eq_zero_iff g).mp hg) n

/-- Jumps lead to the same state just when they differ by rounds of the whole cycle. -/
theorem longJump_iterate_eq_iff (hg : g.state ≠ Vector.replicate 4 0) {i j : Nat} :
    longJump^[i] g = longJump^[j] g ↔ i ≡ j [MOD 2 ^ 256 - 1] := by
  obtain ⟨m, hcoprime, hjump⟩ := exists_longJump
  rw [hjump, ← Function.iterate_mul, ← Function.iterate_mul, step_iterate_eq_iff hg]
  refine ⟨fun h => Nat.ModEq.cancel_left_of_coprime ?_ h, fun h => h.mul_left m⟩
  rwa [Nat.gcd_comm]

/-- `c` draws after so many jumps. -/
theorem draws_injOn (hg : g.state ≠ Vector.replicate 4 0) (c : Nat) {i j : Nat} (hi : i < 2 ^ 256 - 1)
    (hj : j < 2 ^ 256 - 1) (h : step^[c] (longJump^[i + 1] g) = step^[c] (longJump^[j + 1] g)) : i = j := by
  have hinjective : Function.Injective step := fun a b hab => quad_inj (Xoshiro256.next_injective (by
    rw [← quad_nextU64, ← quad_nextU64]
    exact congrArg quad hab))
  have hmod := (longJump_iterate_eq_iff hg).mp (hinjective.iterate c h)
  exact (Nat.ModEq.add_right_cancel' 1 hmod).eq_of_lt_of_lt hi hj

theorem longJump_iterate_ne_zero (hg : g.state ≠ Vector.replicate 4 0) (n : Nat) :
    (longJump^[n] g).state ≠ Vector.replicate 4 0 := by
  obtain ⟨m, -, hjump⟩ := exists_longJump
  rw [hjump, ← Function.iterate_mul]
  exact step_iterate_ne_zero hg (m * n)

/-- The jumps lead to every state but zero. -/
theorem exists_longJump_iterate (hg : g.state ≠ Vector.replicate 4 0) {g' : Xoshiro256StarStar}
    (hg' : g'.state ≠ Vector.replicate 4 0) : ∃ n, longJump^[n + 1] g = g' := by
  obtain ⟨m, hcoprime, hjump⟩ := exists_longJump
  have hfirst := longJump_iterate_ne_zero hg 1
  obtain ⟨k, hk⟩ := Xoshiro256.exists_iterate_mul hcoprime (mt (quad_eq_zero_iff _).mp hfirst)
    (mt (quad_eq_zero_iff g').mp hg')
  refine ⟨k, quad_inj ?_⟩
  rw [Function.iterate_succ_apply]
  rw [Function.iterate_one] at hk
  rw [← hk, ← quad_step_iterate, Function.iterate_mul, ← hjump]

end Seeds

/-- For every seed but zero, the states that are dealt out to the threads are pairwise different and not zero, and stay
    so however often all of them draw; among enough of them every state but zero is found; and the jump from one to the
    next is a number of draws that is prime to the length of the cycle. -/
theorem iterJumpState_distinct (seed : Vector UInt64 4) (hseed : seed ≠ Vector.replicate 4 0) :
    (∀ n, n ≤ 2 ^ 256 - 1 → ∀ c, (((new seed).iterJumpState.take n).map fun s => (step^[c] ⟨s⟩).state).Nodup) ∧
    (∀ n, ∀ s ∈ (new seed).iterJumpState.take n, ∀ c, (step^[c] ⟨s⟩).state ≠ Vector.replicate 4 0) ∧
    (∀ s, s ≠ Vector.replicate 4 0 → ∃ n, s ∈ (new seed).iterJumpState.take n) ∧
    ∃ m, Nat.Coprime m (2 ^ 256 - 1) ∧ longJump = step^[m] := by
  have hg : (new seed).state ≠ Vector.replicate 4 0 := hseed
  have htake (n : Nat) : (new seed).iterJumpState.take n =
      (List.range n).map fun i => (longJump^[i + 1] (new seed)).state := take_iterJumpState n _
  refine ⟨fun n hn c => ?_, fun n s hs c => ?_, fun s hs => ?_, exists_longJump⟩
  · rw [htake, List.map_map]
    refine List.Nodup.map_on (fun i hi j hj heq => ?_) List.nodup_range
    have hstate : step^[c] (longJump^[i + 1] (new seed)) = step^[c] (longJump^[j + 1] (new seed)) := congrArg mk heq
    exact draws_injOn hg c (lt_of_lt_of_le (List.mem_range.mp hi) hn) (lt_of_lt_of_le (List.mem_range.mp hj) hn) hstate
  · rw [htake] at hs
    obtain ⟨i, -, rfl⟩ := List.mem_map.mp hs
    exact step_iterate_ne_zero (longJump_iterate_ne_zero hg (i + 1)) c
  · have hs' : (⟨s⟩ : Xoshiro256StarStar).state ≠ Vector.replicate 4 0 := hs
    obtain ⟨n, hn⟩ := exists_longJump_iterate hg hs'
    refine ⟨n + 1, ?_⟩
    rw [htake]
    exact List.mem_map.mpr ⟨n, List.mem_range.mpr (Nat.lt_succ_self n), by rw [hn]⟩

theorem iterJumpState_distinct_ones :
    ((((new (Vector.replicate 4 1)).iterJumpState.take 5).map fun s => (step^[3] ⟨s⟩).state)).Nodup ∧
    ∃ n, (Vector.replicate 4 2) ∈ (new (Vector.replicate 4 1)).iterJumpState.take n := by
  obtain ⟨hdistinct, -, hfound, -⟩ := iterJumpState_distinct (Vector.replicate 4 1) (by decide)
  exact ⟨hdistinct 5 (by decide) 3, hfound (Vector.replicate 4 2) (by decide)⟩

end CryptixMiner.Xoshiro256StarStar
