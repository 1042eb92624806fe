import CryptixMiner.Client.Stratum

/-! Which nonces two extranonces leave to their miners. A number that fits above its own mask gives its miner
    a part of the nonces that no other number gives; a size of eight bytes or more gives all of them. -/

namespace CryptixMiner.Stratum
open Words

/-- The nonces that `launch_cpu_miner` hashes with this mask and these fixed bits. -/
def StratumHandler.Searches (h : StratumHandler) (n : UInt64) : Prop :=
  ∃ x : UInt64, n = (x &&& h.nonceMask) ||| h.nonceFixed

/-- The digits of an extranonce, without a prefix. -/
def digits (extranonce : String) : List UInt8 := StratumHandler.stripHexPrefix (Hex.bytes extranonce)

/-- The number that the digits denote, which is 0 when there are none. -/
def number (extranonce : String) : Except Hex.ParseIntError UInt64 :=
  if digits extranonce = [] then .ok 0 else Hex.parseU64 (digits extranonce)

/-- What two runs with different numbers and one size of `k` bytes come to. -/
structure Partitioned (k : UInt32) (v₁ v₂ : UInt64) (r₁ r₂ : Outcome × StratumHandler) : Prop where
  ok : r₁.1 = .ok ∧ r₂.1 = .ok
  full : k = 0 ∨ 8 ≤ k → ∀ n, r₁.2.Searches n ∧ r₂.2.Searches n
  disjoint : 0 < k → k < 8 → v₁.toNat < 2 ^ (64 - 8 * k.toNat) → v₂.toNat < 2 ^ (64 - 8 * k.toNat) →
    ∀ n, ¬(r₁.2.Searches n ∧ r₂.2.Searches n)

section
variable {h h₁ h₂ : StratumHandler} {k : UInt32} {v v₁ v₂ : UInt64} {val val₁ val₂ : Except Hex.ParseIntError UInt64}

theorem le_saturatingMul8 (hk : 8 ≤ k) : 64 ≤ StratumHandler.saturatingMul8 k := by
  have hle := UInt32.le_iff_toNat_le.mp hk
  simp only [UInt32.reduceToNat] at hle
  simp only [StratumHandler.saturatingMul8]
  omega

theorem saturatingMul8_eq (hk : k < 8) : StratumHandler.saturatingMul8 k = 8 * k.toNat := by
  have hlt := UInt32.lt_iff_toNat_lt.mp hk
  simp only [UInt32.reduceToNat] at hlt
  simp only [StratumHandler.saturatingMul8]
  omega

theorem setPartition_outcome (hval : k ≠ 0 → val = .ok v) : (h.setPartition k val).1 = .ok := by
  unfold StratumHandler.setPartition
  by_cases hk : k = 0
  · rw [if_pos hk]
  · rw [if_neg hk, hval hk]

/-- No size, or one that leaves no bit to fix: every nonce is searched. -/
theorem searches_full (hval : k ≠ 0 → val = .ok v) (hfull : k = 0 ∨ 8 ≤ k) (n : UInt64) :
    (h.setPartition k val).2.Searches n := by
  have hall : n = (n &&& 0xffffffffffffffff) ||| 0 := by
    rw [UInt64.or_zero]
    exact UInt64.and_neg_one.symm
  unfold StratumHandler.setPartition
  by_cases hk : k = 0
  · rw [if_pos hk]
    exact ⟨n, hall⟩
  · have hshift := le_saturatingMul8 (hfull.resolve_left hk)
    rw [if_neg hk, hval hk]
    refine ⟨n, ?_⟩
    simp only [if_pos hshift]
    exact hall

theorem toNat_div_of_searches (hk0 : 0 < k) (hk : k < 8) (hv : v.toNat < 2 ^ (64 - 8 * k.toNat)) {n : UInt64}
    (hn : (h.setPartition k (.ok v)).2.Searches n) : n.toNat / 2 ^ (8 * k.toNat) = v.toNat := by
  have hlt : 8 * k.toNat < 64 := by
    have := UInt32.lt_iff_toNat_lt.mp hk
    simp only [UInt32.reduceToNat] at this
    omega
  have hne : k ≠ 0 := fun heq => by simp [heq] at hk0
  obtain ⟨x, rfl⟩ := hn
  simp only [StratumHandler.setPartition, if_neg hne, saturatingMul8_eq hk, if_neg (Nat.not_le.mpr hlt)]
  rw [toNat_and_or_shiftLeft hlt hv, Nat.mul_add_div (Nat.two_pow_pos _),
    Nat.div_eq_of_lt (Nat.mod_lt _ (Nat.two_pow_pos _)), Nat.add_zero]

theorem partitioned_setPartition (hval₁ : k ≠ 0 → val₁ = .ok v₁) (hval₂ : k ≠ 0 → val₂ = .ok v₂) (hne : v₁ ≠ v₂) :
    Partitioned k v₁ v₂ (h₁.setPartition k val₁) (h₂.setPartition k val₂) where
  ok := ⟨setPartition_outcome hval₁, setPartition_outcome hval₂⟩
  full hfull n := ⟨searches_full hval₁ hfull n, searches_full hval₂ hfull n⟩
  disjoint hk0 hk hv₁ hv₂ n := by
    have hk' : k ≠ 0 := fun heq => by simp [heq] at hk0
    rw [hval₁ hk', hval₂ hk']
    rintro ⟨hn₁, hn₂⟩
    exact hne (UInt64.toNat_inj.mp
      ((toNat_div_of_searches hk0 hk hv₁ hn₁).symm.trans (toNat_div_of_searches hk0 hk hv₂ hn₂)))

theorem inferredSize_congr {d₁ d₂ : List UInt8} (hlen : d₁.length = d₂.length) :
    StratumHandler.inferredSize d₂ = StratumHandler.inferredSize d₁ := by
  unfold StratumHandler.inferredSize
  rw [hlen]

theorem sizeBytes_congr {nonceSize : UInt32} {d₁ d₂ : List UInt8}
    (hsize : nonceSize ≠ 0 ∨ d₁.length = d₂.length) :
    StratumHandler.sizeBytes d₂ nonceSize = StratumHandler.sizeBytes d₁ nonceSize := by
  unfold StratumHandler.sizeBytes
  rcases hsize with hne | hlen
  · rw [if_neg fun h => hne h.1, if_neg fun h => hne h.1]
  · have hnil : d₂ = [] ↔ d₁ = [] := by rw [← List.length_eq_zero_iff, ← List.length_eq_zero_iff, hlen]
    simp only [inferredSize_congr hlen, ne_eq, hnil]

/-- Where the size comes from the digits, there are some. -/
theorem parseU64_of_number {e : String} {v : UInt64} (hv : number e = .ok v)
    (hk : StratumHandler.inferredSize (digits e) ≠ 0) : Hex.parseU64 (digits e) = .ok v := by
  unfold number at hv
  split at hv
  · rename_i hnil
    rw [hnil] at hk
    exact absurd rfl hk
  · exact hv

end

/-- Two extranonces of one size that denote different numbers: from eight bytes on both miners search every
    nonce, and below that, where both numbers fit above the mask, they never search the same one. -/
theorem extranonce_partitions (h₁ h₂ : StratumHandler) (e₁ e₂ : String) (v₁ v₂ : UInt64)
    (hv₁ : number e₁ = .ok v₁) (hv₂ : number e₂ = .ok v₂) (hne : v₁ ≠ v₂) :
    (∀ nonceSize, nonceSize ≠ 0 ∨ (digits e₁).length = (digits e₂).length →
      Partitioned (StratumHandler.sizeBytes (digits e₁) nonceSize) v₁ v₂
        (h₁.setExtranonce e₁ nonceSize) (h₂.setExtranonce e₂ nonceSize)) ∧
    ((digits e₁).length = (digits e₂).length →
      Partitioned (StratumHandler.inferredSize (digits e₁)) v₁ v₂ (h₁.setExtranonceEth e₁) (h₂.setExtranonceEth e₂)) := by
  refine ⟨fun nonceSize hsize => ?_, fun hlen => ?_⟩
  · have hset : h₂.setExtranonce e₂ nonceSize = { h₂ with extranonce := some (digits e₂) }.setPartition
        (StratumHandler.sizeBytes (digits e₁) nonceSize) (number e₂) := by
      rw [← sizeBytes_congr hsize]
      rfl
    rw [hset]
    exact partitioned_setPartition (fun _ => hv₁) (fun _ => hv₂) hne
  · have hset : h₂.setExtranonceEth e₂ = { h₂ with extranonce := some (digits e₂) }.setPartition
        (StratumHandler.inferredSize (digits e₁)) (Hex.parseU64 (digits e₂)) := by
      rw [← inferredSize_congr hlen]
      rfl
    rw [hset]
    refine partitioned_setPartition (parseU64_of_number hv₁) (fun hk => parseU64_of_number hv₂ ?_) hne
    rwa [inferredSize_congr hlen]

/-- Two miners of a pool with two bytes of extranonce. -/
theorem extranonce_partitions_two_bytes :
    Partitioned 2 1 2 ((StratumHandler.connect "miner").setExtranonce "0001" 2)
      ((StratumHandler.connect "miner").setExtranonce "0002" 2) :=
  (extranonce_partitions (.connect "miner") (.connect "miner") "0001" "0002" 1 2 (by decide) (by decide)
    (by decide)).1 2 (.inl (by decide))

/-- An announced size of eight bytes: both extranonces are taken and both miners search the nonce 0. -/
theorem extranonce_eight_bytes_overlap :
    number "01" = .ok 1 ∧ number "02" = .ok 2 ∧
    ((StratumHandler.connect "miner").setExtranonce "01" 8).1 = .ok ∧
    ((StratumHandler.connect "miner").setExtranonce "02" 8).1 = .ok ∧
    ((StratumHandler.connect "miner").setExtranonce "01" 8).2.Searches 0 ∧
    ((StratumHandler.connect "miner").setExtranonce "02" 8).2.Searches 0 :=
  ⟨by decide, by decide, by decide, by decide, ⟨0, by decide⟩, ⟨0, by decide⟩⟩

end CryptixMiner.Stratum
