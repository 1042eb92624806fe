import CryptixMiner.Launch.OpenClWorker
import CryptixMiner.Theorems.CudaLaunch
import CryptixMiner.Theorems.OpenClUpload

/-! A whole launch of the OpenCL kernel, after an upload that the kernel reads as the matrix. Nothing returns before
    the barrier, so every copy is whole and only nonces that pass are stored. That one is still there at the end is
    another matter: in a launch of one group the barrier keeps the reset of the cell before all stores. -/

namespace CryptixMiner.OpenCl
open StepSystem Launch Grid

/-! ### The copies of the groups -/

section Copies
variable {lsize threads gid vecIdx : Nat} {matrix : Bytes 4096} {copies : Nat → Bytes 4096}

/-- The chunks of the item's residue class below `vecIdx` are those of the matrix. -/
def CopiedBy (matrix : Bytes 4096) (lsize : Nat) (copies : Nat → Bytes 4096) (gid vecIdx : Nat) : Prop :=
  ∀ j (hj : j < 4096), j / 16 % lsize = gid % lsize → j / 16 < vecIdx → (copies (gid / lsize))[j] = matrix[j]

theorem getElem_update_copyChunk (copies : Nat → Bytes 4096) (b vecIdx : Nat) (matrix : Bytes 4096) (g : Nat) {j : Nat}
    (hj : j < 4096) : (Function.update copies b ((workGroup 1 matrix).copyChunk vecIdx (copies b)) g)[j] =
      if g = b ∧ j / 16 = vecIdx then matrix[j] else (copies g)[j] := by
  by_cases hg : g = b
  · subst hg
    rw [Function.update_self, StridedCopy.Group.getElem_copyChunk hj]
    simp only [true_and]
    rfl
  · rw [Function.update_of_ne hg, if_neg fun h => hg h.1]

/-- No index below the item's first one is of its class. -/
theorem copiedBy_first (matrix : Bytes 4096) (lsize : Nat) (copies : Nat → Bytes 4096) (gid : Nat) :
    CopiedBy matrix lsize copies gid (gid % lsize) := by
  intro j hj hclass hlt
  have hle := Nat.mod_le (j / 16) lsize
  omega

theorem CopiedBy.next (h : CopiedBy matrix lsize copies gid vecIdx) (hsize : 0 < lsize)
    (hmod : vecIdx % lsize = gid % lsize) : CopiedBy matrix lsize (Function.update copies (gid / lsize)
      ((workGroup 1 matrix).copyChunk vecIdx (copies (gid / lsize)))) gid (vecIdx + lsize) := by
  intro j hj hclass hlt
  have hcase := (StridedCopy.Group.lt_add_iff hsize (hclass.trans hmod.symm)).mp hlt
  rw [getElem_update_copyChunk copies _ vecIdx matrix _ hj]
  rcases hcase with hbefore | hnow
  · rw [if_neg fun hand => Nat.ne_of_lt hbefore hand.2]
    exact h j hj hclass hbefore
  · rw [if_pos ⟨rfl, hnow⟩]

/-- The items of a whole group have copied the matrix together. -/
theorem whole_of_copiedBy (hsize : 0 < lsize) (hdvd : lsize ∣ threads) (hgid : gid < threads)
    (hall : ∀ g, g < threads → g / lsize = gid / lsize → CopiedBy matrix lsize copies g (4096 / 16)) :
    copies (gid / lsize) = matrix := by
  refine Vector.ext fun j hj => ?_
  -- The item of the group whose class chunk `j / 16` is of.
  obtain ⟨hg, hgroup, hclass⟩ := Cuda.exists_in_block hsize hdvd hgid (j / 16)
  have hbyte := hall _ hg hgroup j hj hclass.symm (Nat.div_lt_of_lt_mul (by omega))
  simp only [hgroup] at hbyte
  exact hbyte

end Copies

section Outline
variable {sw : Switches} {lsize threads : Nat} {a : HeavyHashArgs} {states : Nat → UInt64}

/-- The nonce of a work-item, from the words that the host put into `states`. -/
def nonceOf (a : HeavyHashArgs) (states : Nat → UInt64) (gid : Nat) : UInt64 :=
  (Launch.OpenCl.drawNonce a.nonceMask a.nonceFixed a.randomType states (UInt32.ofNat gid)).1

/-- The verdict with the whole matrix. -/
def verdict (sw : Switches) (a : HeavyHashArgs) (nonce : UInt64) : Bool :=
  Kernel.hashMeetsTargetWords (result sw a a.matrix nonce) a.target

/-- The chunks of the item's residue class below `vecIdx` are those of the matrix. -/
def Copied (a : HeavyHashArgs) (lsize : Nat) (m : DeviceMemory) (gid vecIdx : Nat) : Prop :=
  CopiedBy a.matrix lsize m.matrixLocal gid vecIdx

/-- The words of the item's generator are still those of the host. -/
def Untouched (a : HeavyHashArgs) (states : Nat → UInt64) (m : DeviceMemory) (gid : Nat) : Prop :=
  a.randomType ≠ RANDOM_LEAN → loadState m.states gid = loadState states gid

/-- Behind the barrier: the copy is whole, and in a launch of one group the cell has been reset. -/
structure Passed (a : HeavyHashArgs) (lsize threads : Nat) (m : DeviceMemory) (gid : Nat) : Prop where
  whole : m.matrixLocal (gid / lsize) = a.matrix
  reset : threads ≤ lsize → m.reset = true

/-- The launch is of one group, and no nonce of it that passes is 0. -/
def Careful (sw : Switches) (a : HeavyHashArgs) (lsize threads : Nat) (states : Nat → UInt64) : Prop :=
  threads ≤ lsize ∧ ∀ g, g < threads → verdict sw a (nonceOf a states g) = true → nonceOf a states g ≠ 0

/-- What a work-item knows of the memory, place by place. -/
def Claim (sw : Switches) (a : HeavyHashArgs) (lsize threads : Nat) (states : Nat → UInt64) (m : DeviceMemory)
    (gid : Nat) : HeavyHashPc → Prop
  | .entry => (gid = 0 → m.reset = false) ∧ Untouched a states m gid
  | .copy vecIdx => vecIdx % lsize = gid % lsize ∧ (gid = 0 → m.reset = true) ∧ Copied a lsize m gid vecIdx ∧
      Untouched a states m gid
  | .barrier => (gid = 0 → m.reset = true) ∧ Copied a lsize m gid (4096 / 16) ∧ Untouched a states m gid
  | .draw => (gid = 0 → m.reset = true) ∧ Passed a lsize threads m gid ∧ Untouched a states m gid
  | .hash nonce => (gid = 0 → m.reset = true) ∧ Passed a lsize threads m gid ∧ nonce = nonceOf a states gid
  | .test nonce | .store nonce => (gid = 0 → m.reset = true) ∧ Passed a lsize threads m gid ∧
      nonce = nonceOf a states gid ∧ verdict sw a nonce = true
  | .storeHash nonce _ => (gid = 0 → m.reset = true) ∧ Passed a lsize threads m gid ∧
      nonce = nonceOf a states gid ∧ verdict sw a nonce = true ∧ (Careful sw a lsize threads states → m.finalNonce ≠ 0)
  | .done => (gid = 0 → m.reset = true) ∧ Passed a lsize threads m gid ∧
      (Careful sw a lsize threads states → verdict sw a (nonceOf a states gid) = true → m.finalNonce ≠ 0)

/-- What holds of the memory at all times, where the launch found `hash` in `final_hash`. -/
structure MemoryOk (sw : Switches) (a : HeavyHashArgs) (threads : Nat) (states : Nat → UInt64) (hash : Vector UInt64 4)
    (m : DeviceMemory) : Prop where
  stored : m.finalNonce ≠ 0 →
    ∃ g, g < threads ∧ nonceOf a states g = m.finalNonce ∧ verdict sw a m.finalNonce = true
  hashed : ∀ k (hk : k < 4), m.finalHash[k] = hash[k] ∨ ∃ g, g < threads ∧ verdict sw a (nonceOf a states g) = true ∧
    m.finalHash[k] = load64Le (result sw a a.matrix (nonceOf a states g)) (8 * k)
  lean : a.randomType = RANDOM_LEAN → m.states = states

/-- What the step of item `gid` leaves to the others. -/
structure Later (sw : Switches) (a : HeavyHashArgs) (lsize threads : Nat) (states : Nat → UInt64) (gid : Nat)
    (m m' : DeviceMemory) : Prop where
  reset : m.reset = true → m'.reset = true
  unreset : gid ≠ 0 → m'.reset = m.reset
  copied : ∀ b j (hj : j < 4096), (m.matrixLocal b)[j] = a.matrix[j] → (m'.matrixLocal b)[j] = a.matrix[j]
  slots : ∀ g, g ≠ gid → loadState m'.states g = loadState m.states g
  kept : Careful sw a lsize threads states → m.reset = true → m.finalNonce ≠ 0 → m'.finalNonce ≠ 0

section Later
variable {m m' : DeviceMemory} {gid g vecIdx : Nat} {pc : HeavyHashPc}

theorem Later.refl : Later sw a lsize threads states gid m m := ⟨id, fun _ => rfl, fun _ _ _ h => h, fun _ _ => rfl, fun _ _ => id⟩

theorem Later.ofClass (h : Later sw a lsize threads states gid m m') (hc : Copied a lsize m g vecIdx) :
    Copied a lsize m' g vecIdx :=
  fun j hj hmod hlt => h.copied _ j hj (hc j hj hmod hlt)

theorem Later.passed (h : Later sw a lsize threads states gid m m') (hp : Passed a lsize threads m g) :
    Passed a lsize threads m' g where
  whole := Vector.ext fun j hj => h.copied _ j hj (by rw [hp.whole])
  reset hone := h.reset (hp.reset hone)

theorem Later.untouched (h : Later sw a lsize threads states gid m m') (hg : g ≠ gid) (hu : Untouched a states m g) :
    Untouched a states m' g :=
  fun hne => (h.slots g hg).trans (hu hne)

theorem Later.cell (h : Later sw a lsize threads states gid m m') (hp : Passed a lsize threads m g)
    (hcareful : Careful sw a lsize threads states) (hcell : m.finalNonce ≠ 0) : m'.finalNonce ≠ 0 :=
  h.kept hcareful (hp.reset hcareful.1) hcell

/-- The claim of a work-item survives the steps of the others. -/
theorem Later.claim (h : Later sw a lsize threads states gid m m') (hg : g ≠ gid)
    (hc : Claim sw a lsize threads states m g pc) : Claim sw a lsize threads states m' g pc := by
  cases pc with
  | entry => exact ⟨fun h0 => (h.unreset (h0 ▸ hg.symm)).trans (hc.1 h0), h.untouched hg hc.2⟩
  | copy vecIdx =>
    exact ⟨hc.1, fun h0 => h.reset (hc.2.1 h0), h.ofClass hc.2.2.1, h.untouched hg hc.2.2.2⟩
  | barrier => exact ⟨fun h0 => h.reset (hc.1 h0), h.ofClass hc.2.1, h.untouched hg hc.2.2⟩
  | draw => exact ⟨fun h0 => h.reset (hc.1 h0), h.passed hc.2.1, h.untouched hg hc.2.2⟩
  | hash nonce => exact ⟨fun h0 => h.reset (hc.1 h0), h.passed hc.2.1, hc.2.2⟩
  | test nonce => exact ⟨fun h0 => h.reset (hc.1 h0), h.passed hc.2.1, hc.2.2⟩
  | store nonce => exact ⟨fun h0 => h.reset (hc.1 h0), h.passed hc.2.1, hc.2.2⟩
  | storeHash nonce k =>
    obtain ⟨hreset, hpassed, hnonce, hyes, hcell⟩ := hc
    exact ⟨fun h0 => h.reset (hreset h0), h.passed hpassed, hnonce, hyes, fun hcareful =>
      h.cell hpassed hcareful (hcell hcareful)⟩
  | done =>
    obtain ⟨hreset, hpassed, hcell⟩ := hc
    exact ⟨fun h0 => h.reset (hreset h0), h.passed hpassed, fun hcareful hyes =>
      h.cell hpassed hcareful (hcell hcareful hyes)⟩

end Later

/-! ### The steps -/

theorem getElem_copyChunk (m : DeviceMemory) (b vecIdx : Nat) (matrix : Bytes 4096) (g : Nat) {j : Nat} (hj : j < 4096) :
    ((m.copyChunk b vecIdx matrix).matrixLocal g)[j] =
      if g = b ∧ j / 16 = vecIdx then matrix[j] else (m.matrixLocal g)[j] :=
  getElem_update_copyChunk m.matrixLocal b vecIdx matrix g hj

theorem later_copyChunk (sw : Switches) (a : HeavyHashArgs) (lsize threads : Nat) (states : Nat → UInt64)
    (m : DeviceMemory) (gid b vecIdx : Nat) : Later sw a lsize threads states gid m (m.copyChunk b vecIdx a.matrix) := by
  refine ⟨id, fun _ => rfl, fun g j hj h => ?_, fun _ _ => rfl, fun _ _ => id⟩
  rw [getElem_copyChunk m b vecIdx a.matrix g hj]
  split
  · rfl
  · exact h

/-- The draw is that of the CUDA kernel. -/
theorem drawNonce_spec {m : DeviceMemory} {gid : Nat} (h32 : gid < 2 ^ 32)
    (hlean : a.randomType = RANDOM_LEAN → m.states = states) (hslot : Untouched a states m gid) :
    let drawn := Launch.OpenCl.drawNonce a.nonceMask a.nonceFixed a.randomType m.states (UInt32.ofNat gid)
    drawn.1 = nonceOf a states gid ∧ (a.randomType = RANDOM_LEAN → drawn.2 = states) ∧
      ∀ g, g ≠ gid → loadState drawn.2 g = loadState m.states g := by
  have hgid : (UInt32.ofNat gid).toUInt64 = UInt64.ofNat gid := by
    refine UInt64.toNat_inj.mp ?_
    rw [UInt32.toNat_toUInt64, UInt32.toNat_ofNat', UInt64.toNat_ofNat', Nat.mod_eq_of_lt h32,
      Nat.mod_eq_of_lt (Nat.lt_trans h32 (by decide))]
  obtain ⟨hnonce, hlean', -, hothers, -⟩ := Cuda.drawNonce_spec
    (a := ⟨a.nonceMask, a.nonceFixed, 0, a.randomType, a.hashHeader, a.matrix, a.target⟩)
    (m := ⟨0, m.states, m.matrixLocal⟩) (Nat.lt_trans h32 (by decide)) hlean hslot
  simp only [nonceOf, drawNonce_agrees, hgid]
  exact ⟨hnonce, hlean', hothers⟩

theorem ofNat_eq_zero_iff {gid : Nat} (h32 : gid < 2 ^ 32) : UInt32.ofNat gid = 0 ↔ gid = 0 := by
  rw [← UInt32.toNat_inj, UInt32.toNat_ofNat', Nat.mod_eq_of_lt h32]
  rfl

/-- Each work-item keeps its own claim, and the memory is kept. -/
theorem own_step {hash : Vector UInt64 4} (hsize : 0 < lsize) (h32 : threads ≤ 2 ^ 32) {m m' : DeviceMemory} {gid : Nat}
    {pc pc' : HeavyHashPc} (hgid : gid < threads) (hok : MemoryOk sw a threads states hash m)
    (hc : Claim sw a lsize threads states m gid pc) (hstep : (heavyHash sw a lsize).step m gid pc = some (m', pc')) :
    MemoryOk sw a threads states hash m' ∧ Claim sw a lsize threads states m' gid pc' ∧
      Later sw a lsize threads states gid m m' := by
  have hgid32 := lt_of_lt_of_le hgid h32
  cases pc with
  | barrier => cases hstep
  | done => cases hstep
  | entry =>
    obtain ⟨hunreset, hslot⟩ := hc
    have hempty : ∀ m, Copied a lsize m gid (gid % lsize) := fun m => copiedBy_first a.matrix lsize m.matrixLocal gid
    simp only [heavyHash, ofNat_eq_zero_iff hgid32] at hstep
    by_cases h0 : gid = 0
    · rw [if_pos h0] at hstep
      cases hstep
      refine ⟨⟨fun hne => absurd rfl hne, hok.hashed, hok.lean⟩, ⟨Nat.mod_mod _ _, fun _ => rfl, hempty _, hslot⟩,
        ⟨fun _ => rfl, fun hne => absurd h0 hne, fun _ _ _ h => h, fun _ _ => rfl, fun _ hreset => ?_⟩⟩
      rw [hunreset h0] at hreset
      cases hreset
    · rw [if_neg h0] at hstep
      cases hstep
      exact ⟨hok, ⟨Nat.mod_mod _ _, fun heq => absurd heq h0, hempty m, hslot⟩, Later.refl⟩
  | copy vecIdx =>
    obtain ⟨hmod, hreset, hcopied, hslot⟩ := hc
    simp only [heavyHash] at hstep
    split at hstep
    · cases hstep
      refine ⟨⟨hok.stored, hok.hashed, hok.lean⟩, ⟨?_, hreset, hcopied.next hsize hmod, hslot⟩,
        later_copyChunk sw a lsize threads states m gid _ vecIdx⟩
      rw [Nat.add_mod_right, hmod]
    · next hend =>
      cases hstep
      refine ⟨hok, ⟨hreset, fun j hj hclass hlt => hcopied j hj hclass ?_, hslot⟩, Later.refl⟩
      omega
  | draw =>
    obtain ⟨hreset, hpassed, hslot⟩ := hc
    obtain ⟨hnonce, hlean, hothers⟩ := drawNonce_spec hgid32 hok.lean hslot
    cases hstep
    exact ⟨⟨hok.stored, hok.hashed, hlean⟩, ⟨hreset, ⟨hpassed.whole, hpassed.reset⟩, hnonce⟩,
      ⟨id, fun _ => rfl, fun _ _ _ h => h, hothers, fun _ _ => id⟩⟩
  | hash nonce =>
    obtain ⟨hreset, hpassed, rfl⟩ := hc
    simp only [heavyHash, hpassed.whole] at hstep
    cases hstep
    refine ⟨hok, ?_, Later.refl⟩
    split
    · next hyes => exact ⟨hreset, hpassed, rfl, hyes⟩
    · next hno => exact ⟨hreset, hpassed, fun _ hyes => absurd hyes hno⟩
  | test nonce =>
    obtain ⟨hreset, hpassed, rfl, hyes⟩ := hc
    cases hstep
    refine ⟨hok, ?_, Later.refl⟩
    split
    · exact ⟨hreset, hpassed, rfl, hyes⟩
    · next hcell => exact ⟨hreset, hpassed, fun _ _ => hcell⟩
  | store nonce =>
    obtain ⟨hreset, hpassed, rfl, hyes⟩ := hc
    cases hstep
    have hcell : Careful sw a lsize threads states → nonceOf a states gid ≠ 0 := fun hcareful => hcareful.2 gid hgid hyes
    exact ⟨⟨fun _ => ⟨gid, hgid, rfl, hyes⟩, hok.hashed, hok.lean⟩,
      ⟨hreset, ⟨hpassed.whole, hpassed.reset⟩, rfl, hyes, hcell⟩,
      ⟨id, fun _ => rfl, fun _ _ _ h => h, fun _ _ => rfl, fun hcareful _ _ => hcell hcareful⟩⟩
  | storeHash nonce k =>
    obtain ⟨hreset, hpassed, rfl, hyes, hcell⟩ := hc
    simp only [heavyHash, hpassed.whole] at hstep
    split at hstep
    · cases hstep
      refine ⟨⟨hok.stored, fun j hj => ?_, hok.lean⟩,
        ⟨hreset, ⟨hpassed.whole, hpassed.reset⟩, rfl, hyes, hcell⟩,
        ⟨id, fun _ => rfl, fun _ _ _ h => h, fun _ _ => rfl, fun _ _ => id⟩⟩
      rw [Loop.getElem_set! hj]
      split
      · next heq => exact Or.inr ⟨gid, hgid, hyes, heq ▸ rfl⟩
      · exact hok.hashed j hj
    · cases hstep
      exact ⟨hok, ⟨hreset, hpassed, fun hcareful _ => hcell hcareful⟩, Later.refl⟩

/-- Behind the barrier the copy is whole, and item 0 of a lone group has been through its reset. -/
theorem pass_barrier {m : DeviceMemory} {gid : Nat} (hsize : 0 < lsize) (hdvd : lsize ∣ threads) (hgid : gid < threads)
    (hc : Claim sw a lsize threads states m gid .barrier) (hall : ∀ g, g < threads → g / lsize = gid / lsize →
      ∃ pc, (heavyHash sw a lsize).arrived pc = true ∧ Claim sw a lsize threads states m g pc) :
    Claim sw a lsize threads states m gid .draw := by
  have harrived : ∀ g, g < threads → g / lsize = gid / lsize →
      (g = 0 → m.reset = true) ∧ (Copied a lsize m g (4096 / 16) ∨ m.matrixLocal (gid / lsize) = a.matrix) := by
    intro g hg hgroup
    obtain ⟨pc, harr, hclaim⟩ := hall g hg hgroup
    rw [← hgroup]
    cases pc with
    | entry => cases harr
    | copy vecIdx => cases harr
    | barrier => exact ⟨hclaim.1, Or.inl hclaim.2.1⟩
    | _ => exact ⟨hclaim.1, Or.inr hclaim.2.1.whole⟩
  refine ⟨hc.1, ⟨?_, fun hone => ?_⟩, hc.2.2⟩
  · by_cases hwhole : m.matrixLocal (gid / lsize) = a.matrix
    · exact hwhole
    · exact whole_of_copiedBy hsize hdvd hgid fun g hg hgroup => (harrived g hg hgroup).2.resolve_right hwhole
  · have hzero : gid / lsize = 0 := Nat.div_eq_of_lt (lt_of_lt_of_le hgid hone)
    exact (harrived 0 (Nat.zero_lt_of_lt hgid) (by rw [hzero, Nat.zero_div])).1 rfl

theorem outline (sw : Switches) (states : Nat → UInt64) (hash : Vector UInt64 4) (hsize : 0 < lsize) (hdvd : lsize ∣ threads)
    (h32 : threads ≤ 2 ^ 32) :
    Outline (heavyHash sw a lsize) threads lsize (MemoryOk sw a threads states hash)
      (Claim sw a lsize threads states) where
  own hgid hok hc _ hstep :=
    have h := own_step hsize h32 hgid hok hc hstep
    ⟨h.1, h.2.1⟩
  others hgid hok hc _ hstep hg hk := (own_step hsize h32 hgid hok hc hstep).2.2.claim hg hk
  pass {m gid pc} hgid _ hc hwaits hall := by
    have hpc : pc = .barrier := beq_iff_eq.mp hwaits
    subst hpc
    exact pass_barrier hsize hdvd hgid hc hall

/-! ### The launch ends -/

def toDoAt : HeavyHashPc → Nat
  | .entry => 4096 / 16 + 12
  | .copy vecIdx => 4096 / 16 - vecIdx + 11
  | .barrier => 10
  | .draw => 9
  | .hash _ => 8
  | .test _ => 7
  | .store _ => 6
  | .storeHash _ k => 4 - k + 1
  | .done => 0

theorem progress (hsize : 0 < lsize) : Progress (heavyHash sw a lsize) toDoAt (· == .done) where
  enabled {pc} m gid hends hwaits := by
    cases pc with
    | barrier => cases hwaits
    | done => cases hends
    | copy vecIdx =>
      simp only [heavyHash]
      split <;> exact ⟨_, rfl⟩
    | storeHash nonce k =>
      simp only [heavyHash]
      split <;> exact ⟨_, rfl⟩
    | _ => exact ⟨_, rfl⟩
  own {m gid pc m' pc'} hstep := by
    cases pc with
    | barrier => cases hstep
    | done => cases hstep
    | entry =>
      cases hstep
      simp only [toDoAt]
      omega
    | copy vecIdx =>
      simp only [heavyHash] at hstep
      split at hstep
      · cases hstep
        simp only [toDoAt]
        omega
      · cases hstep
        simp only [toDoAt]
        omega
    | draw =>
      cases hstep
      exact Nat.lt_succ_self 8
    | hash nonce =>
      cases hstep
      split <;> simp only [toDoAt] <;> omega
    | test nonce =>
      cases hstep
      split <;> simp only [toDoAt] <;> omega
    | store nonce =>
      cases hstep
      exact Nat.lt_succ_self 5
    | storeHash nonce k =>
      simp only [heavyHash] at hstep
      split at hstep
      · cases hstep
        simp only [toDoAt]
        omega
      · cases hstep
        exact Nat.zero_lt_succ _
  pass {pc} hwaits := by
    have hpc : pc = .barrier := beq_iff_eq.mp hwaits
    subst hpc
    exact Nat.lt_succ_self 9
  arrived {pc} h := by
    cases pc with
    | entry => rcases h with h | h <;> cases h
    | copy vecIdx => rcases h with h | h <;> cases h
    | _ => rfl

end Outline

/-! ### Launches of the worker -/

namespace LaunchingWorker
variable {w w' : LaunchingWorker} {mask fixed nextU64 : UInt64} {uninit : Nat → Bytes 4096}
  {t : Grid.State DeviceMemory HeavyHashPc} {order : List Nat}

/-- The work-groups have one size, as in OpenCL 1.2, and the ids fit in 32 bits. -/
structure WholeGroups (w : LaunchingWorker) : Prop where
  pos : 0 < w.lsize
  dvd : w.lsize ∣ w.workload
  le : w.workload ≤ 2 ^ 32

/-- What every moment of a launch keeps, once the cell is 0. -/
theorem WholeGroups.kept (hw : w.WholeGroups) (hzero : w.finalNonce = 0)
    (h : Reachable (w.gridStep mask fixed) (w.start nextU64 uninit) t) :
    MemoryOk w.switches (w.args mask fixed) w.workload (w.writtenStates nextU64) w.finalHash t.store ∧
      ∀ gid, Claim w.switches (w.args mask fixed) w.lsize w.workload (w.writtenStates nextU64) t.store gid
        (t.place gid) :=
  (outline w.switches _ w.finalHash hw.pos hw.dvd hw.le).reachable h
    ⟨fun hne => absurd hzero hne, fun _ _ => Or.inl rfl, fun _ => rfl⟩ fun _ => ⟨fun _ => rfl, fun _ => rfl⟩

theorem calculateHash_eq_some (h : w.calculateHash mask fixed nextU64 uninit order = some w') :
    ∃ t, run (w.gridStep mask fixed) (w.start nextU64 uninit) order = some t ∧
      (∀ gid, gid < w.workload → t.place gid = .done) ∧ w' = { w with
        finalNonce := t.store.finalNonce, finalHash := t.store.finalHash, randomState := t.store.states } := by
  obtain ⟨t, ht, h⟩ := Option.bind_eq_some_iff.mp h
  split at h
  case isFalse => cases h
  next hdone =>
    cases h
    refine ⟨t, ht, fun gid hgid => ?_, rfl⟩
    exact beq_iff_eq.mp (List.all_eq_true.mp hdone gid (List.mem_range.mpr hgid))

theorem exists_order (hpos : 0 < w.lsize) (mask fixed nextU64 : UInt64) (uninit : Nat → Bytes 4096) :
    ∃ order w', w.calculateHash mask fixed nextU64 uninit order = some w' := by
  have hprogress : Progress (heavyHash w.switches (w.args mask fixed) w.lsize) toDoAt (· == .done) := progress hpos
  obtain ⟨order, t, hrun, hends⟩ := hprogress.exists_end w.workload w.lsize (w.start nextU64 uninit)
  refine ⟨order, _, Option.bind_eq_some_iff.mpr ⟨t, hrun, if_pos (List.all_eq_true.mpr fun gid hgid => ?_)⟩⟩
  exact hends gid (List.mem_range.mp hgid)

end LaunchingWorker
end CryptixMiner.OpenCl

namespace CryptixMiner
open StepSystem OpenCl

/-- The nonce of a work-item in the next launch for a job. -/
def State.openClNonce {Block : Type} (s : State Block) (w : LaunchingWorker) (nextU64 : UInt64) (gid : Nat) : UInt64 :=
  OpenCl.nonceOf (w.args s.nonceMask s.nonceFixed) (w.writtenStates nextU64) gid

section
variable {Block : Type} {s : State Block} {P : Primitives} {w : LaunchingWorker}

/-- With the matrix read as it is, the kernel's result is the proof of work. -/
theorem State.IsJob.openCl_result (hjob : s.IsJob) (hP : P.Standard) (useAvx2 : Bool)
    (hreads : ReadsMatrix (s.loadToOpenCl w).toOpenCLGPUWorker s.matrix) (mask fixed nonce : UInt64) :
    OpenCl.result w.switches ((s.loadToOpenCl w).args mask fixed) (s.loadToOpenCl w).matrix nonce =
      (s.calculatePow P useAvx2 nonce).toLeBytes := by
  obtain ⟨hm, B, id, blockSeed, hnew⟩ := hjob
  have hbytes : (s.loadToOpenCl w).matrix = s.matrix.bytes := readsMatrix_iff_bytes.mp hreads
  rw [OpenCl.result, OpenCl.calculatePowWithHeaderAndMatrix, primitives_eq, hbytes, hP.eq_cuda]
  exact Kernel.calculatePow_eq (OpenCl.kernel_agrees w.switches.toBuild) hnew hm Cuda.primitives useAvx2 nonce

theorem State.IsJob.openCl_verdict (hjob : s.IsJob) (hP : P.Standard) (useAvx2 : Bool)
    (hreads : ReadsMatrix (s.loadToOpenCl w).toOpenCLGPUWorker s.matrix) (mask fixed nonce : UInt64) :
    OpenCl.verdict w.switches ((s.loadToOpenCl w).args mask fixed) nonce = s.checkPow P useAvx2 nonce := by
  have hmeets := Uint256.hashMeetsTargetWords_eq (s.calculatePow P useAvx2 nonce) s.target
  rw [← hjob.openCl_result hP useAvx2 hreads mask fixed] at hmeets
  exact hmeets

/-- A launch for a job whose matrix the kernel reads. Whatever the order of the work-items, the cell never holds a
    nonce that does not pass `check_pow`, and a word of `final_hash` is that of the hash of one that does, or was there
    before. In a launch of one group, where the nonce 0 is not drawn or does not pass, a nonce that was found is not
    lost. -/
theorem powOpenCl_checks (hjob : s.IsJob) (hP : P.Standard) (useAvx2 : Bool) (hw : w.WholeGroups)
    (hreads : ReadsMatrix (s.loadToOpenCl w).toOpenCLGPUWorker s.matrix) (nextU64 : UInt64)
    (uninit : Nat → Bytes 4096) :
    (∀ t, Reachable ((s.loadToOpenCl w).gridStep s.nonceMask s.nonceFixed) ((s.loadToOpenCl w).start nextU64 uninit) t →
      (t.store.finalNonce ≠ 0 → s.checkPow P useAvx2 t.store.finalNonce = true ∧
        ∃ gid, gid < w.workload ∧ s.openClNonce w nextU64 gid = t.store.finalNonce) ∧
      ∀ k (hk : k < 4), t.store.finalHash[k] = w.finalHash[k] ∨ ∃ gid, gid < w.workload ∧
        s.checkPow P useAvx2 (s.openClNonce w nextU64 gid) = true ∧
          t.store.finalHash[k] = (s.calculatePow P useAvx2 (s.openClNonce w nextU64 gid)).words[k]) ∧
    (w.workload ≤ w.lsize →
      (∀ gid, gid < w.workload → s.openClNonce w nextU64 gid = 0 → s.checkPow P useAvx2 0 = false) →
      ∀ order w', s.powOpenCl (s.loadToOpenCl w) nextU64 uninit order = some w' →
        (w'.copyOutputTo ≠ 0 ↔ ∃ gid, gid < w.workload ∧
          s.checkPow P useAvx2 (s.openClNonce w nextU64 gid) = true)) ∧
    ∃ order w', s.powOpenCl (s.loadToOpenCl w) nextU64 uninit order = some w' := by
  have hloaded : (s.loadToOpenCl w).WholeGroups := ⟨hw.pos, hw.dvd, hw.le⟩
  have hresult := hjob.openCl_result hP useAvx2 hreads s.nonceMask s.nonceFixed
  have hverdict (nonce : UInt64) := hjob.openCl_verdict hP useAvx2 hreads s.nonceMask s.nonceFixed nonce
  refine ⟨fun t ht => ?_, fun hone hzero order w' h => ?_, LaunchingWorker.exists_order hloaded.pos _ _ _ _⟩
  · have hok := (hloaded.kept rfl ht).1
    refine ⟨fun hcell => ?_, fun k hk => (hok.hashed k hk).imp_right fun ⟨gid, hgid, hyes, hword⟩ => ?_⟩
    · obtain ⟨gid, hgid, hnonce, hyes⟩ := hok.stored hcell
      exact ⟨(hverdict _).symm.trans hyes, gid, hgid, hnonce⟩
    · refine ⟨gid, hgid, (hverdict _).symm.trans hyes, hword.trans ?_⟩
      rw [← Uint256.load64Le_toLeBytes _ hk, ← hresult]
      rfl
  · obtain ⟨t, hrun, hdone, rfl⟩ := LaunchingWorker.calculateHash_eq_some h
    obtain ⟨hok, hclaims⟩ := hloaded.kept rfl (Reachable.of_run order hrun)
    constructor
    · intro hcell
      obtain ⟨gid, hgid, hnonce, hyes⟩ := hok.stored hcell
      have hpasses := (hverdict _).symm.trans hyes
      rw [← hnonce] at hpasses
      exact ⟨gid, hgid, hpasses⟩
    · rintro ⟨gid, hgid, hyes⟩
      have hclaim := hclaims gid
      rw [hdone gid hgid] at hclaim
      refine hclaim.2.2 ⟨hone, fun g hg hpasses h0 => ?_⟩ ((hverdict _).trans hyes)
      have hfails := (hverdict 0).trans (hzero g hg h0)
      rw [h0] at hpasses
      exact absurd (hpasses.symm.trans hfails) (by decide)

/-- A worker with one group of two work-items. -/
def OpenCl.oneGroup : LaunchingWorker where
  toOpenCLGPUWorker := workerWith false
  switches := ⟨⟨false, false⟩, false⟩
  workload := 2
  lsize := 2
  random := .lean
  randomState := fun _ => 0
  finalHash := Vector.replicate 4 0

/-- Both work-items have a nonce that passes. -/
theorem powOpenCl_checks_easy : ∃ order w', (Miner.easyJob 0xff 0x100).powOpenCl
      ((Miner.easyJob 0xff 0x100).loadToOpenCl OpenCl.oneGroup) 5 (fun _ => Vector.replicate 4096 1) order = some w' ∧
    w'.copyOutputTo ≠ 0 ∧
    ∃ gid, gid < 2 ∧ (Miner.easyJob 0xff 0x100).openClNonce OpenCl.oneGroup 5 gid = w'.copyOutputTo := by
  have hreads : ReadsMatrix ((Miner.easyJob 0xff 0x100).loadToOpenCl OpenCl.oneGroup).toOpenCLGPUWorker
      (Miner.easyJob 0xff 0x100).matrix :=
    readsMatrix_iff_bytes.mpr (writeBuffer_plain _)
  obtain ⟨hreach, hfound, order, w', h⟩ := powOpenCl_checks (Miner.isJob_easyJob 0xff 0x100) Cuda.primitives_standard true
    (w := OpenCl.oneGroup) ⟨by decide, by decide, by decide⟩ hreads 5 fun _ => Vector.replicate 4096 1
  have hnonce : ∀ gid, gid < 2 → (Miner.easyJob 0xff 0x100).openClNonce OpenCl.oneGroup 5 gid ≠ 0 := by decide
  have hcell := (hfound (by decide) (fun gid hgid h0 => absurd h0 (hnonce gid hgid)) order w' h).mpr
    ⟨0, by decide, Miner.checkPow_easyJob _ _ _ _ _⟩
  obtain ⟨t, hrun, -, rfl⟩ := LaunchingWorker.calculateHash_eq_some h
  obtain ⟨-, hdrawn⟩ := (hreach t (Reachable.of_run order hrun)).1 hcell
  exact ⟨order, _, h, hcell, hdrawn⟩

end
end CryptixMiner
