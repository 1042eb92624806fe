import CryptixMiner.Launch.CudaWorker
import CryptixMiner.Miner.Worker
import CryptixMiner.Theorems.DeviceHash
import CryptixMiner.Theorems.SharedMatrix
import CryptixMiner.Theorems.ThreadNonces

/-! A whole launch of the CUDA kernel. Whatever the order of the threads' steps, what the host reads in the result
    cell is a nonce that passes `check_pow`. A thread that returns early because the cell is taken leaves its part
    of the matrix uncopied, and the others of its block then hash with another matrix: none of them gets to store
    its nonce, because the cell is taken. -/

namespace CryptixMiner.Cuda
open StepSystem Launch Grid

/-! ### Generators in one buffer -/

section States
variable {states : Nat → UInt64} {i j : Nat}

theorem loadState_storeState_self (x : Ulonglong4) : loadState (storeState states i x) i = x := by
  have h1 : ¬4 * i + 1 = 4 * i := by omega
  have h2 : ¬4 * i + 2 = 4 * i ∧ ¬4 * i + 2 = 4 * i + 1 := by omega
  have h3 : ¬4 * i + 3 = 4 * i ∧ ¬4 * i + 3 = 4 * i + 1 ∧ ¬4 * i + 3 = 4 * i + 2 := by omega
  simp [loadState, storeState]

theorem storeState_of_outside (x : Ulonglong4) {k : Nat} (h : k < 4 * i ∨ 4 * i + 4 ≤ k) :
    storeState states i x k = states k := by
  have hne : k ≠ 4 * i ∧ k ≠ 4 * i + 1 ∧ k ≠ 4 * i + 2 ∧ k ≠ 4 * i + 3 := by omega
  rw [storeState, if_neg hne.1, if_neg hne.2.1, if_neg hne.2.2.1, if_neg hne.2.2.2]

theorem loadState_storeState_of_ne (x : Ulonglong4) (h : j ≠ i) :
    loadState (storeState states i x) j = loadState states j := by
  simp only [loadState]
  rw [storeState_of_outside, storeState_of_outside, storeState_of_outside, storeState_of_outside] <;> omega

end States

/-! ### What each thread claims -/

section Outline
variable {arch dim threads : Nat} {a : HeavyHashArgs} {states : Nat → UInt64}

/-- The nonce of a thread, from the words that the host put into `states`. -/
def nonceOf (a : HeavyHashArgs) (states : Nat → UInt64) (gid : Nat) : UInt64 :=
  (Launch.Cuda.drawNonce a.nonceMask a.nonceFixed a.randomType states (UInt64.ofNat gid)).1

/-- The verdict with the whole matrix. -/
def verdict (arch : Nat) (a : HeavyHashArgs) (nonce : UInt64) : Bool :=
  Kernel.hashMeetsTargetWords ((kernel arch).calculatePowWithHeaderAndMatrix primitives a.matrix a.hashHeader nonce)
    a.target

/-- The bytes of the thread's residue class below `idx` are those of the matrix. -/
def Copied (a : HeavyHashArgs) (dim : Nat) (m : DeviceMemory) (gid idx : Nat) : Prop :=
  ∀ j (hj : j < matrixElems), j % dim = gid % dim → j < idx → (m.matrixLocal (gid / dim))[j] = a.matrix[j]

/-- The generator of the thread is where it was, or one draw further. -/
def Untouched (a : HeavyHashArgs) (states : Nat → UInt64) (m : DeviceMemory) (gid : Nat) : Prop :=
  a.randomType ≠ RANDOM_LEAN → loadState m.states gid = loadState states gid

def Advanced (a : HeavyHashArgs) (states : Nat → UInt64) (m : DeviceMemory) (gid : Nat) : Prop :=
  a.randomType ≠ RANDOM_LEAN → loadState m.states gid = (xoshiro256Next (loadState states gid)).2

def Taken (m : DeviceMemory) : Prop := m.finalNonce ≠ 0

/-- What a thread knows of the memory, place by place. -/
def Claim (arch : Nat) (a : HeavyHashArgs) (dim : Nat) (states : Nat → UInt64) (m : DeviceMemory) (gid : Nat) :
    HeavyHashPc → Prop
  | .entry => Untouched a states m gid
  | .copy idx => idx % dim = gid % dim ∧ Copied a dim m gid idx ∧ Untouched a states m gid
  | .barrier => Copied a dim m gid matrixElems ∧ Untouched a states m gid
  | .draw => Copied a dim m gid matrixElems ∧ Untouched a states m gid ∧
      (Taken m ∨ m.matrixLocal (gid / dim) = a.matrix)
  | .hash nonce => Copied a dim m gid matrixElems ∧ Advanced a states m gid ∧ nonce = nonceOf a states gid ∧
      (Taken m ∨ m.matrixLocal (gid / dim) = a.matrix)
  | .cas nonce => Copied a dim m gid matrixElems ∧ Advanced a states m gid ∧ nonce = nonceOf a states gid ∧
      (Taken m ∨ verdict arch a nonce = true)
  | .done => (Taken m ∨ Copied a dim m gid matrixElems ∧ Advanced a states m gid ∧
      (nonceOf a states gid = 0 ∨ verdict arch a (nonceOf a states gid) = false)) ∧
      (Untouched a states m gid ∨ Advanced a states m gid)

/-- What holds of the memory at all times. -/
structure MemoryOk (arch : Nat) (a : HeavyHashArgs) (threads : Nat) (states : Nat → UInt64) (m : DeviceMemory) :
    Prop where
  stored : Taken m → ∃ g, g < threads ∧ nonceOf a states g = m.finalNonce ∧ verdict arch a m.finalNonce = true
  lean : a.randomType = RANDOM_LEAN → m.states = states
  outside : ∀ k, 4 * threads ≤ k → m.states k = states k

/-- What the step of thread `gid` leaves to the others. -/
structure Later (a : HeavyHashArgs) (gid : Nat) (m m' : DeviceMemory) : Prop where
  taken : Taken m → Taken m'
  copied : ∀ b j (hj : j < matrixElems), (m.matrixLocal b)[j] = a.matrix[j] → (m'.matrixLocal b)[j] = a.matrix[j]
  slots : ∀ g, g ≠ gid → loadState m'.states g = loadState m.states g

section Later
variable {m m' : DeviceMemory} {gid g idx : Nat} {pc : HeavyHashPc}

theorem Later.refl : Later a gid m m := ⟨id, fun _ _ _ h => h, fun _ _ => rfl⟩

theorem Later.whole (h : Later a gid m m') {b : Nat} (hm : m.matrixLocal b = a.matrix) :
    m'.matrixLocal b = a.matrix :=
  Vector.ext fun j hj => h.copied b j hj (by rw [hm])

theorem Later.ofClass (h : Later a gid m m') (hc : Copied a dim m g idx) : Copied a dim m' g idx :=
  fun j hj hmod hlt => h.copied _ j hj (hc j hj hmod hlt)

theorem Later.untouched (h : Later a gid m m') (hg : g ≠ gid) (hu : Untouched a states m g) :
    Untouched a states m' g :=
  fun hne => (h.slots g hg).trans (hu hne)

theorem Later.advanced (h : Later a gid m m') (hg : g ≠ gid) (hu : Advanced a states m g) :
    Advanced a states m' g :=
  fun hne => (h.slots g hg).trans (hu hne)

/-- The claim of a thread survives the steps of the others. -/
theorem Later.claim (h : Later a gid m m') (hg : g ≠ gid) (hc : Claim arch a dim states m g pc) :
    Claim arch a dim states m' g pc := by
  cases pc with
  | entry => exact h.untouched hg hc
  | copy idx => exact ⟨hc.1, h.ofClass hc.2.1, h.untouched hg hc.2.2⟩
  | barrier => exact ⟨h.ofClass hc.1, h.untouched hg hc.2⟩
  | draw => exact ⟨h.ofClass hc.1, h.untouched hg hc.2.1, hc.2.2.imp h.taken h.whole⟩
  | hash nonce =>
    exact ⟨h.ofClass hc.1, h.advanced hg hc.2.1, hc.2.2.1, hc.2.2.2.imp h.taken h.whole⟩
  | cas nonce => exact ⟨h.ofClass hc.1, h.advanced hg hc.2.1, hc.2.2.1, hc.2.2.2.imp_left h.taken⟩
  | done =>
    refine ⟨hc.1.imp h.taken fun ⟨hcopied, hadv, hverdict⟩ => ⟨h.ofClass hcopied, h.advanced hg hadv, hverdict⟩, ?_⟩
    exact hc.2.imp (h.untouched hg) (h.advanced hg)

end Later

/-! ### The steps -/

section Steps
variable {m m' : DeviceMemory} {gid idx : Nat} {nonce : UInt64}

/-- A round of the copy writes a byte of the matrix where it belongs. -/
theorem later_copy (a : HeavyHashArgs) (m : DeviceMemory) (gid b idx : Nat) :
    Later a gid m (m.copyByte b idx a.matrix[idx]!) := by
  refine ⟨id, fun b' j hj h => ?_, fun _ _ => rfl⟩
  simp only [DeviceMemory.copyByte, Function.update_apply]
  split
  · next heq =>
    subst heq
    rw [Loop.getElem_set! hj]
    split
    · next hij =>
      subst hij
      rw [Loop.getElem!_eq _ hj]
    · exact h
  · exact h

theorem copied_next (hdim : 0 < dim) (hmod : idx % dim = gid % dim) (hidx : idx < matrixElems)
    (h : Copied a dim m gid idx) :
    Copied a dim (m.copyByte (gid / dim) idx a.matrix[idx]!) gid (idx + dim) := by
  intro j hj hclass hlt
  have hcase := (StridedCopy.Group.lt_add_iff hdim (hclass.trans hmod.symm)).mp hlt
  simp only [DeviceMemory.copyByte, Function.update_self]
  rw [Loop.getElem_set! hj]
  rcases hcase with hbefore | rfl
  · rw [if_neg (Nat.ne_of_gt hbefore)]
    exact h j hj hclass hbefore
  · rw [if_pos rfl, Loop.getElem!_eq _ hj]

/-- What a draw does: the nonce depends on the thread's own words alone, and so do the words after it. -/
theorem drawNonce_spec (h64 : gid < 2 ^ 64) (hlean : a.randomType = RANDOM_LEAN → m.states = states)
    (hslot : Untouched a states m gid) :
    let drawn := Launch.Cuda.drawNonce a.nonceMask a.nonceFixed a.randomType m.states (UInt64.ofNat gid)
    drawn.1 = nonceOf a states gid ∧ (a.randomType = RANDOM_LEAN → drawn.2 = states) ∧
      (a.randomType ≠ RANDOM_LEAN → loadState drawn.2 gid = (xoshiro256Next (loadState states gid)).2) ∧
      (∀ g, g ≠ gid → loadState drawn.2 g = loadState m.states g) ∧
      ∀ k, (k < 4 * gid ∨ 4 * gid + 4 ≤ k) → drawn.2 k = m.states k := by
  have hnat : (UInt64.ofNat gid).toNat = gid := by rw [UInt64.toNat_ofNat', Nat.mod_eq_of_lt h64]
  by_cases hrt : a.randomType = RANDOM_LEAN
  · have hstates := hlean hrt
    refine ⟨?_, fun _ => ?_, fun hne => absurd hrt hne, fun g _ => ?_, fun k _ => ?_⟩
    · simp only [nonceOf, hstates]
    all_goals simp only [Launch.Cuda.drawNonce, if_pos hrt, hstates]
  · have hown := hslot hrt
    refine ⟨?_, fun hyes => absurd hyes hrt, fun _ => ?_, fun g hg => ?_, fun k hk => ?_⟩
    · simp only [nonceOf, Launch.Cuda.drawNonce, if_neg hrt, hnat, hown]
    · simp only [Launch.Cuda.drawNonce, if_neg hrt, hnat, hown, loadState_storeState_self]
    · simp only [Launch.Cuda.drawNonce, if_neg hrt, hnat, loadState_storeState_of_ne _ hg]
    · simp only [Launch.Cuda.drawNonce, if_neg hrt, hnat, storeState_of_outside _ hk]

end Steps

/-- Each thread keeps its own claim, and the memory is kept. -/
theorem own_step (hdim : 0 < dim) (h64 : threads ≤ 2 ^ 64) (hlen : threads ≤ a.noncesLen) {m m' : DeviceMemory}
    {gid : Nat} {pc pc' : HeavyHashPc} (hgid : gid < threads) (hok : MemoryOk arch a threads states m)
    (hc : Claim arch a dim states m gid pc) (hstep : (heavyHash arch a dim).step m gid pc = some (m', pc')) :
    MemoryOk arch a threads states m' ∧ Claim arch a dim states m' gid pc' ∧ Later a gid m m' := by
  cases pc with
  | barrier => cases hstep
  | done => cases hstep
  | entry =>
    cases hstep
    refine ⟨hok, ?_, Later.refl⟩
    split
    · next hout =>
      have htaken : Taken m := hout.resolve_left (Nat.not_le.mpr (lt_of_lt_of_le hgid hlen))
      exact ⟨Or.inl htaken, Or.inl hc⟩
    · refine ⟨Nat.mod_mod _ _, fun j hj hclass hlt => ?_, hc⟩
      -- No index below the thread's first one is of its class.
      have hle := Nat.mod_le j dim
      omega
  | copy idx =>
    obtain ⟨hmod, hcopied, hslot⟩ := hc
    simp only [heavyHash] at hstep
    split at hstep
    · next hidx =>
      cases hstep
      refine ⟨⟨hok.stored, hok.lean, hok.outside⟩, ⟨?_, copied_next hdim hmod hidx hcopied, hslot⟩,
        later_copy a m gid _ idx⟩
      rw [Nat.add_mod_right, hmod]
    · next hend =>
      cases hstep
      refine ⟨hok, ⟨fun j hj hclass _ => hcopied j hj hclass ?_, hslot⟩, Later.refl⟩
      omega
  | draw =>
    obtain ⟨hcopied, hslot, hwhole⟩ := hc
    obtain ⟨hnonce, hlean, hadv, hothers, hrest⟩ :=
      drawNonce_spec (a := a) (m := m) (lt_of_lt_of_le hgid h64) hok.lean hslot
    cases hstep
    refine ⟨⟨hok.stored, hlean, fun k hk => ?_⟩, ⟨hcopied, hadv, hnonce, hwhole⟩, ⟨id, fun _ _ _ h => h, hothers⟩⟩
    exact (hrest k (Or.inr (by omega))).trans (hok.outside k hk)
  | hash nonce =>
    obtain ⟨hcopied, hadv, rfl, hwhole⟩ := hc
    cases hstep
    refine ⟨hok, ?_, Later.refl⟩
    rcases hwhole with htaken | hwhole
    · split
      · exact ⟨hcopied, hadv, rfl, Or.inl htaken⟩
      · exact ⟨Or.inl htaken, Or.inr hadv⟩
    · have hverdict : Kernel.hashMeetsTargetWords ((kernel arch).calculatePowWithHeaderAndMatrix primitives
          (m.matrixLocal (gid / dim)) a.hashHeader (nonceOf a states gid)) a.target =
            verdict arch a (nonceOf a states gid) := by rw [hwhole, verdict]
      simp only [hverdict]
      split
      · next hyes => exact ⟨hcopied, hadv, rfl, Or.inr hyes⟩
      · next hno => exact ⟨Or.inr ⟨hcopied, hadv, Or.inr (Bool.not_eq_true _ ▸ hno)⟩, Or.inr hadv⟩
  | cas nonce =>
    obtain ⟨hcopied, hadv, rfl, hverdict⟩ := hc
    cases hstep
    by_cases htaken : Taken m
    · have hcell : Launch.Cuda.atomicCas m.finalNonce (nonceOf a states gid) = m.finalNonce := if_neg htaken
      rw [hcell]
      exact ⟨hok, ⟨Or.inl htaken, Or.inr hadv⟩, Later.refl⟩
    · have hyes := hverdict.resolve_left htaken
      have hcell : Launch.Cuda.atomicCas m.finalNonce (nonceOf a states gid) = nonceOf a states gid :=
        if_pos (not_not.mp htaken)
      rw [hcell]
      refine ⟨⟨fun _ => ⟨gid, hgid, rfl, hyes⟩, hok.lean, hok.outside⟩, ⟨?_, Or.inr hadv⟩,
        ⟨fun h => absurd h htaken, fun _ _ _ h => h, fun _ _ => rfl⟩⟩
      by_cases hzero : nonceOf a states gid = 0
      · exact Or.inr ⟨hcopied, hadv, Or.inl hzero⟩
      · exact Or.inl hzero

/-- In a grid of whole blocks, each block has a thread of every residue class. -/
theorem exists_in_block {gid : Nat} (hdim : 0 < dim) (hdvd : dim ∣ threads) (hgid : gid < threads) (j : Nat) :
    gid / dim * dim + j % dim < threads ∧ (gid / dim * dim + j % dim) / dim = gid / dim ∧
      (gid / dim * dim + j % dim) % dim = j % dim := by
  have hr := Nat.mod_lt j hdim
  refine ⟨?_, ?_, ?_⟩
  · obtain ⟨n, rfl⟩ := hdvd
    have hn : gid / dim < n := Nat.div_lt_of_lt_mul hgid
    calc gid / dim * dim + j % dim < gid / dim * dim + dim := Nat.add_lt_add_left hr _
      _ = (gid / dim + 1) * dim := (Nat.succ_mul _ _).symm
      _ ≤ n * dim := Nat.mul_le_mul_right _ hn
      _ = dim * n := Nat.mul_comm _ _
  · rw [Nat.mul_comm, Nat.mul_add_div hdim, Nat.div_eq_of_lt hr, Nat.add_zero]
  · rw [Nat.mul_comm, Nat.mul_add_mod, Nat.mod_mod]

/-- Behind the barrier the copy is whole, or the cell is taken. -/
theorem pass_barrier {m : DeviceMemory} {gid : Nat} (hdim : 0 < dim) (hdvd : dim ∣ threads) (hgid : gid < threads)
    (hc : Claim arch a dim states m gid .barrier) (hall : ∀ g, g < threads → g / dim = gid / dim →
      ∃ pc, (heavyHash arch a dim).arrived pc = true ∧ Claim arch a dim states m g pc) :
    Claim arch a dim states m gid .draw := by
  refine ⟨hc.1, hc.2, ?_⟩
  by_cases htaken : Taken m
  · exact Or.inl htaken
  · refine Or.inr (Vector.ext fun j hj => ?_)
    -- The thread of the block whose class `j` is of.
    obtain ⟨hg, hblock, hclass⟩ := exists_in_block hdim hdvd hgid j
    obtain ⟨pc, harrived, hclaim⟩ := hall _ hg hblock
    have hcopied : Copied a dim m (gid / dim * dim + j % dim) matrixElems := by
      cases pc with
      | entry => cases harrived
      | copy idx => cases harrived
      | barrier => exact hclaim.1
      | draw => exact hclaim.1
      | hash nonce => exact hclaim.1
      | cas nonce => exact hclaim.1
      | done => exact (hclaim.1.resolve_left htaken).1
    have hbyte := hcopied j hj hclass.symm hj
    simp only [hblock] at hbyte
    exact hbyte

theorem outline (arch : Nat) (states : Nat → UInt64) (hdim : 0 < dim) (hdvd : dim ∣ threads) (h64 : threads ≤ 2 ^ 64)
    (hlen : threads ≤ a.noncesLen) :
    Outline (heavyHash arch a dim) threads dim (MemoryOk arch a threads states) (Claim arch a dim states) where
  own hgid hok hc _ hstep :=
    have h := own_step hdim h64 hlen hgid hok hc hstep
    ⟨h.1, h.2.1⟩
  others hgid hok hc _ hstep hg hk := (own_step hdim h64 hlen hgid hok hc hstep).2.2.claim hg hk
  pass {m gid pc} hgid _ hc hwaits hall := by
    have hpc : pc = .barrier := beq_iff_eq.mp hwaits
    subst hpc
    exact pass_barrier hdim hdvd hgid hc hall

/-! ### The launch ends -/

def toDoAt : HeavyHashPc → Nat
  | .entry => matrixElems + 6
  | .copy idx => matrixElems - idx + 5
  | .barrier => 4
  | .draw => 3
  | .hash _ => 2
  | .cas _ => 1
  | .done => 0

theorem progress (hdim : 0 < dim) : Progress (heavyHash arch a dim) toDoAt (· == .done) where
  enabled {pc} m gid hends hwaits := by
    cases pc with
    | barrier => cases hwaits
    | done => cases hends
    | copy idx =>
      simp only [heavyHash]
      split <;> exact ⟨_, rfl⟩
    | _ => exact ⟨_, rfl⟩
  own {m gid pc m' pc'} hstep := by
    cases pc with
    | barrier => cases hstep
    | done => cases hstep
    | copy idx =>
      simp only [heavyHash] at hstep
      split at hstep
      · next hidx =>
        cases hstep
        simp only [toDoAt]
        omega
      · cases hstep
        simp only [toDoAt]
        omega
    | entry =>
      cases hstep
      split <;> simp only [toDoAt] <;> omega
    | draw =>
      cases hstep
      exact Nat.lt_succ_self 2
    | hash nonce =>
      cases hstep
      split
      · exact Nat.lt_succ_self 1
      · exact Nat.zero_lt_two
    | cas nonce =>
      cases hstep
      exact Nat.zero_lt_one
  pass {pc} hwaits := by
    have hpc : pc = .barrier := beq_iff_eq.mp hwaits
    subst hpc
    exact Nat.lt_succ_self 3
  arrived {pc} h := by
    cases pc with
    | entry => rcases h with h | h <;> cases h
    | copy idx => rcases h with h | h <;> cases h
    | _ => rfl

end Outline

/-! ### Launches of the worker -/

namespace CudaGPUWorker
variable {w w' : CudaGPUWorker} {mask fixed nextU64 : UInt64} {uninit : Nat → Bytes matrixElems}
  {t : Grid.State DeviceMemory HeavyHashPc} {order : List Nat}

/-- The workload is a whole number of blocks, and the grid is of that many. -/
structure WholeBlocks (w : CudaGPUWorker) : Prop where
  pos : 0 < w.blockSize.toNat
  grid : w.threads = w.workload.toNat

theorem wholeBlocks_setWorkload {chosenWorkload : UInt32} (hpos : 1 ≤ w.blockSize.toNat)
    (hno : chosenWorkload.toNat + w.blockSize.toNat < 2 ^ 32) (hdvd : w.blockSize.toNat ∣ chosenWorkload.toNat) :
    (w.setWorkload chosenWorkload).WholeBlocks where
  pos := hpos
  grid := by
    obtain ⟨n, hn⟩ := hdvd
    have hgrid : (Launch.setWorkload chosenWorkload w.blockSize).toNat = n := by
      rw [setWorkload_toNat hno hpos, hn, Nat.mul_comm, Nat.add_sub_assoc hpos, Nat.mul_comm n,
        Nat.mul_add_div hpos, Nat.div_eq_of_lt (Nat.sub_lt hpos Nat.one_pos), Nat.add_zero]
    simp only [threads, setWorkload, hgrid, hn, Nat.mul_comm]

theorem blockSize_dvd (w : CudaGPUWorker) : w.blockSize.toNat ∣ w.threads := ⟨_, Nat.mul_comm _ _⟩

theorem WholeBlocks.threads_le (hw : w.WholeBlocks) : w.threads ≤ 2 ^ 64 := by
  rw [hw.grid]
  exact Nat.le_of_lt (Nat.lt_trans w.workload.toNat_lt (by decide))

/-- What every moment of a launch keeps. -/
theorem WholeBlocks.kept (hw : w.WholeBlocks)
    (h : Reachable (w.gridStep mask fixed) (w.start nextU64 uninit) t) :
    MemoryOk w.arch (w.args mask fixed) w.threads (w.writtenStates nextU64) t.store ∧
      ∀ gid, Claim w.arch (w.args mask fixed) w.blockSize.toNat (w.writtenStates nextU64) t.store gid (t.place gid) :=
  (outline w.arch _ hw.pos w.blockSize_dvd hw.threads_le (Nat.le_of_eq hw.grid)).reachable h
    ⟨fun htaken => absurd rfl htaken, fun _ => rfl, fun _ _ => rfl⟩ fun _ _ => rfl

theorem calculateHash_eq_some (h : w.calculateHash mask fixed nextU64 uninit order = some w') :
    ∃ t, run (w.gridStep mask fixed) (w.start nextU64 uninit) order = some t ∧
      (∀ gid, gid < w.threads → t.place gid = .done) ∧
      w' = { w with finalNonceBuff := t.store.finalNonce, randState := t.store.states } := by
  obtain ⟨t, ht, h⟩ := Option.bind_eq_some_iff.mp h
  split at h
  case isFalse => cases h
  next hdone =>
    cases h
    refine ⟨t, ht, fun gid hgid => ?_, rfl⟩
    exact beq_iff_eq.mp (List.all_eq_true.mp hdone gid (List.mem_range.mpr hgid))

/-- At the end the cell is taken exactly when a thread had a nonce to store. -/
theorem WholeBlocks.taken_iff (hw : w.WholeBlocks) (h : Reachable (w.gridStep mask fixed) (w.start nextU64 uninit) t)
    (hdone : ∀ gid, gid < w.threads → t.place gid = .done) :
    t.store.finalNonce ≠ 0 ↔ ∃ gid, gid < w.threads ∧
      nonceOf (w.args mask fixed) (w.writtenStates nextU64) gid ≠ 0 ∧
      verdict w.arch (w.args mask fixed) (nonceOf (w.args mask fixed) (w.writtenStates nextU64) gid) = true := by
  obtain ⟨hok, hclaims⟩ := hw.kept h
  constructor
  · intro htaken
    obtain ⟨gid, hgid, hnonce, hverdict⟩ := hok.stored htaken
    rw [← hnonce] at hverdict
    exact ⟨gid, hgid, by rwa [hnonce], hverdict⟩
  · rintro ⟨gid, hgid, hne, hyes⟩
    have hclaim := hclaims gid
    rw [hdone gid hgid] at hclaim
    rcases hclaim.1 with htaken | ⟨-, -, hzero | hno⟩
    · exact htaken
    · exact absurd hzero hne
    · rw [hyes] at hno
      cases hno

theorem exists_order (hpos : 0 < w.blockSize.toNat) (mask fixed nextU64 : UInt64)
    (uninit : Nat → Bytes matrixElems) : ∃ order w', w.calculateHash mask fixed nextU64 uninit order = some w' := by
  have hprogress : Progress (heavyHash w.arch (w.args mask fixed) w.blockSize.toNat) toDoAt (· == .done) := progress hpos
  obtain ⟨order, t, hrun, hends⟩ := hprogress.exists_end w.threads w.blockSize.toNat (w.start nextU64 uninit)
  refine ⟨order, _, Option.bind_eq_some_iff.mpr ⟨t, hrun, if_pos (List.all_eq_true.mpr fun gid hgid => ?_)⟩⟩
  exact hends gid (List.mem_range.mp hgid)

theorem order_length_le (hpos : 0 < w.blockSize.toNat)
    (hrun : run (w.gridStep mask fixed) (w.start nextU64 uninit) order = some t) :
    order.length ≤ w.threads * (matrixElems + 6) := by
  have hprogress : Progress (heavyHash w.arch (w.args mask fixed) w.blockSize.toNat) toDoAt (· == .done) := progress hpos
  have hle := hprogress.length_le hrun
  have hplace : ∀ g ∈ Finset.range w.threads, toDoAt ((w.start nextU64 uninit).place g) = matrixElems + 6 :=
    fun _ _ => rfl
  rw [toDo, toDo, Finset.sum_const_nat hplace, Finset.card_range] at hle
  exact Nat.le_of_add_right_le hle

end CudaGPUWorker
end CryptixMiner.Cuda

namespace CryptixMiner
open StepSystem Cuda

/-- The nonce of a thread in the next launch for a job. -/
def State.cudaNonce {Block : Type} (s : State Block) (w : CudaGPUWorker) (nextU64 : UInt64) (gid : Nat) : UInt64 :=
  nonceOf (w.args s.nonceMask s.nonceFixed) (w.writtenStates nextU64) gid

/-- A kernel that was loaded with the job judges as `check_pow` does. -/
theorem State.IsJob.cuda_verdict {Block : Type} {s : State Block} (hjob : s.IsJob) {P : Primitives} (hP : P.Standard)
    (useAvx2 : Bool) {w : CudaGPUWorker} (mask fixed nonce : UInt64) :
    verdict (s.loadToCuda w).arch ((s.loadToCuda w).args mask fixed) nonce = s.checkPow P useAvx2 nonce := by
  rw [← hjob.meets_eq (Cuda.kernel_agrees w.arch) hP useAvx2 nonce]
  rfl

/-- A launch for a job, from the upload to the host's read. Whatever the order of the threads, the cell never holds a
    nonce that does not pass `check_pow`; at the end it holds one exactly when a thread has one that is not 0; and
    every order comes to its end, after a bounded number of steps. -/
theorem powCuda_checks {Block : Type} {s : State Block} (hjob : s.IsJob) {P : Primitives} (hP : P.Standard)
    (useAvx2 : Bool) {w : CudaGPUWorker} (hw : w.WholeBlocks) (nextU64 : UInt64)
    (uninit : Nat → Bytes Launch.matrixElems) :
    (∀ t, Reachable ((s.loadToCuda w).gridStep s.nonceMask s.nonceFixed) ((s.loadToCuda w).start nextU64 uninit) t →
      t.store.finalNonce ≠ 0 → s.checkPow P useAvx2 t.store.finalNonce = true ∧
        ∃ gid, gid < w.workload.toNat ∧ s.cudaNonce w nextU64 gid = t.store.finalNonce) ∧
    (∀ order w', s.powCuda (s.loadToCuda w) nextU64 uninit order = some w' →
      (w'.copyOutputTo ≠ 0 ↔ ∃ gid, gid < w.workload.toNat ∧ s.cudaNonce w nextU64 gid ≠ 0 ∧
        s.checkPow P useAvx2 (s.cudaNonce w nextU64 gid) = true)) ∧
    (∃ order w', s.powCuda (s.loadToCuda w) nextU64 uninit order = some w') ∧
    ∀ order t, run ((s.loadToCuda w).gridStep s.nonceMask s.nonceFixed) ((s.loadToCuda w).start nextU64 uninit) order =
      some t → order.length ≤ w.workload.toNat * (Launch.matrixElems + 6) := by
  have hloaded : (s.loadToCuda w).WholeBlocks := ⟨hw.pos, hw.grid⟩
  have hverdict (nonce : UInt64) := hjob.cuda_verdict (w := w) hP useAvx2 s.nonceMask s.nonceFixed nonce
  refine ⟨fun t ht htaken => ?_, fun order w' h => ?_, CudaGPUWorker.exists_order hloaded.pos _ _ _ _, fun order t hrun => ?_⟩
  · obtain ⟨gid, hgid, hnonce, hyes⟩ := (hloaded.kept ht).1.stored htaken
    rw [hverdict] at hyes
    exact ⟨hyes, gid, hw.grid ▸ hgid, hnonce⟩
  · obtain ⟨t, hrun, hdone, rfl⟩ := CudaGPUWorker.calculateHash_eq_some h
    have hiff := hloaded.taken_iff (Reachable.of_run order hrun) hdone
    simp only [hverdict] at hiff
    rw [← hw.grid]
    exact hiff
  · have hle := CudaGPUWorker.order_length_le hloaded.pos hrun
    rw [← hw.grid]
    exact hle

namespace Miner

theorem isJob_easyJob (nonceMask nonceFixed : UInt64) : (easyJob nonceMask nonceFixed).IsJob where
  nibbles _ hr _ hc := by
    simp only [easyJob, State.ofParts, Vector.getElem_replicate]
    decide
  made := ⟨⟨fun _ => none, fun _ => ⟨Vector.replicate 64 (Vector.replicate 64 0)⟩⟩, 0,
    .partialBlock "job" ⟨Vector.replicate 4 0⟩ 0 0 ⟨Vector.replicate 4 0xffffffffffffffff⟩ nonceMask nonceFixed none, rfl⟩

theorem checkPow_easyJob (nonceMask nonceFixed : UInt64) (P : Primitives) (useAvx2 : Bool) (nonce : UInt64) :
    (easyJob nonceMask nonceFixed).checkPow P useAvx2 nonce = true := by
  have hlt := ((easyJob nonceMask nonceFixed).calculatePow P useAvx2 nonce).toNat_lt
  have htarget : (⟨Vector.replicate 4 0xffffffffffffffff⟩ : Uint256).toNat = 2 ^ 256 - 1 := by decide
  rw [State.checkPow, Uint256.le_eq]
  exact decide_eq_true (Nat.le_trans (Nat.le_sub_one_of_lt hlt) (Nat.le_of_eq htarget.symm))

end Miner

/-- Room for four threads in blocks of two. -/
def Cuda.blocksOfTwo : CudaGPUWorker where
  arch := 700
  blockSize := 2
  gridSize := 0
  workload := 0
  random := .lean
  randState := fun _ => 0
  finalNonceBuff := 0
  hashHeader := Vector.replicate 72 0
  matrix := Vector.replicate 4096 0
  target := Vector.replicate 4 0

/-- Four threads in two blocks. -/
def Cuda.twoBlocks : CudaGPUWorker := Cuda.blocksOfTwo.setWorkload 4

theorem Cuda.wholeBlocks_twoBlocks : Cuda.twoBlocks.WholeBlocks :=
  CudaGPUWorker.wholeBlocks_setWorkload (by decide) (by decide) (by decide)

/-- Every thread has a nonce that passes. -/
theorem powCuda_checks_easy : ∃ order w', (Miner.easyJob 0xff 0x100).powCuda
      ((Miner.easyJob 0xff 0x100).loadToCuda Cuda.twoBlocks) 5 (fun _ => Vector.replicate 4096 1) order = some w' ∧
    w'.copyOutputTo ≠ 0 ∧ order.length ≤ 4 * (4096 + 6) ∧
    ∃ gid, gid < 4 ∧ (Miner.easyJob 0xff 0x100).cudaNonce Cuda.twoBlocks 5 gid = w'.copyOutputTo := by
  obtain ⟨hreach, hfound, ⟨order, w', h⟩, hlength⟩ := powCuda_checks (Miner.isJob_easyJob 0xff 0x100)
    Cuda.primitives_standard true Cuda.wholeBlocks_twoBlocks 5 fun _ => Vector.replicate 4096 1
  have hcell := (hfound order w' h).mpr ⟨0, by decide, by decide, Miner.checkPow_easyJob _ _ _ _ _⟩
  obtain ⟨t, hrun, -, rfl⟩ := CudaGPUWorker.calculateHash_eq_some h
  obtain ⟨-, hdrawn⟩ := hreach t (Reachable.of_run order hrun) hcell
  exact ⟨order, _, h, hcell, hlength order t hrun, hdrawn⟩

end CryptixMiner
