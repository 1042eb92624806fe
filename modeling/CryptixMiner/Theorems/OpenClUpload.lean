import CryptixMiner.Launch.OpenClUpload
import CryptixMiner.Theorems.HashMatrix

/-! Which matrix the OpenCL kernel hashes with. It reads one entry a byte; the worker uploads two entries a
    byte when `experimental_amd` is set, and the kernel then reads another matrix. -/

namespace CryptixMiner.OpenCl
open StepSystem

/-! ### The data that is uploaded -/

section
variable {m : Matrix} {w : OpenCLGPUWorker} {k : Nat}

theorem getElem?_clUcharMatrix_false (hk : k < 4096) : (clUcharMatrix false m)[k]? = some m.bytes[k]! := by
  have hi : k / 64 < 64 := by omega
  have hj : k % 64 < 64 := by omega
  have hbyte := m.getElem_bytes hi hj
  have hdata := Loop.getElem?_flatMap_of_length (f := Vector.toList) (c := 64) (fun row : Bytes 64 => row.length_toList) hj
    m.rows.toList (k / 64)
  rw [Nat.div_add_mod] at hbyte hdata
  rw [clUcharMatrix, if_neg Bool.false_ne_true, hdata, hbyte]
  simp [hi, hj]

theorem getElem?_clUcharMatrix_true (hk : k < 2048) :
    (clUcharMatrix true m)[k]? = some ((m.bytes[2 * k]! <<< 4) ||| m.bytes[2 * k + 1]!) := by
  have hi : k / 32 < 64 := by omega
  have hj : k % 32 < 32 := by omega
  have hlength : ∀ row : Bytes 64, (packRow row).length = 32 := fun row => by simp [packRow]
  have hdata := Loop.getElem?_flatMap_of_length hlength hj m.rows.toList (k / 32)
  have hsplit : 32 * (k / 32) + k % 32 = k := Nat.div_add_mod k 32
  have heven : 2 * k = 64 * (k / 32) + 2 * (k % 32) := by omega
  rw [hsplit] at hdata
  rw [clUcharMatrix, if_pos rfl, hdata, heven, Nat.add_assoc, m.getElem_bytes hi (by omega),
    m.getElem_bytes hi (by omega)]
  simp [packRow, hi, hj]

theorem getElem?_clUcharMatrix_true_of_ge (hk : 2048 ≤ k) : (clUcharMatrix true m)[k]? = none := by
  have hlength : (clUcharMatrix true m).length = 2048 := by
    simp [clUcharMatrix, packRow, List.length_flatMap]
  exact List.getElem?_eq_none (hlength ▸ hk)

theorem getElem_writeBuffer {n : Nat} (buffer : Bytes n) (data : List UInt8) (hk : k < n) :
    (writeBuffer buffer data)[k] = (data[k]?).getD buffer[k] := by
  rw [writeBuffer, Vector.getElem_ofFn]
  rfl

/-! ### What the work-items read -/

theorem readsMatrix_iff_bytes : ReadsMatrix w m ↔ w.matrix = m.bytes := by
  constructor
  · intro h
    obtain ⟨as, s, hrun, hdone⟩ := (workGroup 1 w.matrix).exists_barrier Nat.one_pos w.matrix
    have hreach := Reachable.of_run as hrun
    have hdst : s.dst = w.matrix :=
      StridedCopy.Group.dst_eq_src (g := workGroup 1 w.matrix) Nat.one_pos (fun _ => rfl) hreach hdone
    refine Vector.ext fun k hk => ?_
    have hi : k / 64 < 64 := by omega
    have hj : k % 64 < 64 := Nat.mod_lt _ (by decide)
    have hread := h 1 Nat.one_pos w.matrix s hreach hdone (k / 64) (k % 64) hi hj
    rw [hdst, ← m.getElem_bytes hi hj, Nat.div_add_mod] at hread
    rwa [Loop.getElem!_eq _ hk, Loop.getElem!_eq _ hk] at hread
  · intro h localSize hpos uninit s hreach hdone i j hi hj
    have hdst : s.dst = w.matrix :=
      StridedCopy.Group.dst_eq_src (g := workGroup localSize w.matrix) hpos (fun _ => rfl) hreach hdone
    rw [hdst, h, m.getElem_bytes hi hj]

/-- A packed pair is a nibble only when its first entry is 0, and then it is the second one. -/
theorem pack_eq_iff {x y z : UInt8} (hx : x < 16) (hy : y < 16) (hz : z < 16) :
    (x <<< 4) ||| y = z ↔ x = 0 ∧ y = z := by
  have hx' := UInt8.lt_iff_toNat_lt.mp hx
  have hy' := UInt8.lt_iff_toNat_lt.mp hy
  have hz' := UInt8.lt_iff_toNat_lt.mp hz
  simp only [UInt8.reduceToNat] at hx' hy' hz'
  rw [← UInt8.toNat_inj, Words.toNat_nibbles hx' hy', ← UInt8.toNat_inj, ← UInt8.toNat_inj]
  simp only [UInt8.reduceToNat]
  omega

theorem bytes_lt (hm : m.Nibbles) (hk : k < 4096) : m.bytes[k]! < 16 := by
  have hi : k / 64 < 64 := by omega
  have hj : k % 64 < 64 := Nat.mod_lt _ (by decide)
  have hbyte := m.getElem_bytes hi hj
  rw [Nat.div_add_mod] at hbyte
  rw [hbyte, Loop.getElem!_eq m.rows hi, Loop.getElem!_eq _ hj]
  exact hm _ hi _ hj

/-- Bytes that are equal to the packed pairs of themselves are all 0: halving an index leads to an even one. -/
theorem bytes_eq_zero (hm : m.Nibbles)
    (hpack : ∀ k, k < 2048 → (m.bytes[2 * k]! <<< 4) ||| m.bytes[2 * k + 1]! = m.bytes[k]!) (hk : k < 4096) :
    m.bytes[k]! = 0 := by
  induction k using Nat.strongRecOn with
  | _ k ih =>
    have hhalf : k / 2 < 2048 := by omega
    obtain ⟨heven, hodd⟩ := (pack_eq_iff (bytes_lt hm (by omega)) (bytes_lt hm (by omega))
      (bytes_lt hm (by omega))).mp (hpack (k / 2) hhalf)
    rcases Nat.mod_two_eq_zero_or_one k with h0 | h1
    · rwa [show 2 * (k / 2) = k by omega] at heven
    · rw [show 2 * (k / 2) + 1 = k by omega] at hodd
      rw [hodd]
      exact ih (k / 2) (by omega) (by omega)

/-- The packed upload is the matrix only when both are 0 throughout. -/
theorem writeBuffer_pack_iff (hm : m.Nibbles) (buffer : Bytes 4096) :
    writeBuffer buffer (clUcharMatrix true m) = m.bytes ↔
      (∀ k, k < 4096 → m.bytes[k]! = 0) ∧ ∀ k, 2048 ≤ k → k < 4096 → buffer[k]! = 0 := by
  constructor
  · intro h
    have hbyte : ∀ k (hk : k < 4096), ((clUcharMatrix true m)[k]?).getD buffer[k] = m.bytes[k]! := fun k hk => by
      rw [← getElem_writeBuffer, h, Loop.getElem!_eq _ hk]
    have hzero : ∀ k, k < 4096 → m.bytes[k]! = 0 := fun k hk =>
      bytes_eq_zero hm (fun k hk => by
        have hpack := hbyte k (by omega)
        rwa [getElem?_clUcharMatrix_true hk] at hpack) hk
    refine ⟨hzero, fun k hge hk => ?_⟩
    have hrest := hbyte k hk
    rw [getElem?_clUcharMatrix_true_of_ge hge, hzero k hk] at hrest
    rw [Loop.getElem!_eq _ hk]
    exact hrest
  · rintro ⟨hzero, hrest⟩
    refine Vector.ext fun k hk => ?_
    rw [getElem_writeBuffer, ← Loop.getElem!_eq m.bytes hk, hzero k hk]
    rcases Nat.lt_or_ge k 2048 with hlt | hge
    · rw [getElem?_clUcharMatrix_true hlt, hzero (2 * k) (by omega), hzero (2 * k + 1) (by omega)]
      rfl
    · rw [getElem?_clUcharMatrix_true_of_ge hge, ← Loop.getElem!_eq buffer hk]
      exact hrest k hge hk

theorem writeBuffer_plain (buffer : Bytes 4096) : writeBuffer buffer (clUcharMatrix false m) = m.bytes := by
  refine Vector.ext fun k hk => ?_
  rw [getElem_writeBuffer, getElem?_clUcharMatrix_false hk, Loop.getElem!_eq _ hk]
  rfl

/-- The kernel reads the matrix of the state exactly when the upload is not packed, or when the matrix and the
    rest of the buffer are 0 throughout. -/
theorem readsMatrix_iff (w : OpenCLGPUWorker) (hashHeader : Bytes 72) (m : Matrix) (target : Uint256)
    (hm : m.Nibbles) :
    ReadsMatrix (w.loadBlockConstants hashHeader m target) m ↔
      w.experimentalAmd = false ∨
        (∀ i j, i < 64 → j < 64 → (m.rows[i]!)[j]! = 0) ∧ ∀ k, 2048 ≤ k → k < 4096 → w.matrix[k]! = 0 := by
  have hentries : (∀ i j, i < 64 → j < 64 → (m.rows[i]!)[j]! = 0) ↔ ∀ k, k < 4096 → m.bytes[k]! = 0 := by
    constructor
    · intro h k hk
      have hi : k / 64 < 64 := by omega
      have hj : k % 64 < 64 := Nat.mod_lt _ (by decide)
      rw [← Nat.div_add_mod k 64, m.getElem_bytes hi hj]
      exact h _ _ hi hj
    · intro h i j hi hj
      rw [← m.getElem_bytes hi hj]
      exact h _ (by omega)
  rw [readsMatrix_iff_bytes, hentries]
  simp only [OpenCLGPUWorker.loadBlockConstants]
  cases w.experimentalAmd with
  | false => exact iff_of_true (writeBuffer_plain w.matrix) (Or.inl rfl)
  | true => exact (writeBuffer_pack_iff hm w.matrix).trans (by simp)

/-- A worker whose matrix buffer was written before with zeros. -/
def workerWith (experimentalAmd : Bool) : OpenCLGPUWorker where
  finalNonce := 0
  hashHeader := Vector.replicate 72 0
  matrix := Vector.replicate 4096 0
  target := ⟨Vector.replicate 4 0⟩
  experimentalAmd := experimentalAmd

def identity : Matrix := ⟨Vector.ofFn fun i => Vector.ofFn fun j => if i.val = j.val then 1 else 0⟩

theorem identity_nibbles : identity.Nibbles := fun i hi j hj => by
  simp only [identity, Vector.getElem_ofFn]
  split <;> decide

theorem readsMatrix_iff_identity :
    ReadsMatrix ((workerWith false).loadBlockConstants (Vector.replicate 72 0) identity ⟨#v[0, 0, 0, 0]⟩) identity :=
  (readsMatrix_iff (workerWith false) (Vector.replicate 72 0) identity ⟨#v[0, 0, 0, 0]⟩ identity_nibbles).mpr (.inl rfl)

theorem not_readsMatrix_identity :
    ¬ReadsMatrix ((workerWith true).loadBlockConstants (Vector.replicate 72 0) identity ⟨#v[0, 0, 0, 0]⟩) identity := by
  rw [readsMatrix_iff_bytes]
  intro h
  have hzero : identity.bytes[64 * 0 + 0]! = 0 := ((writeBuffer_pack_iff identity_nibbles _).mp h).1 0 (by decide)
  rw [identity.getElem_bytes (by decide) (by decide)] at hzero
  exact absurd hzero (by decide)

end
end CryptixMiner.OpenCl
