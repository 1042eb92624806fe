import CryptixMiner.Theorems.GpuPlan

/-! The ids of the two plugins, and when the plan has one worker for a device that both of them see: only a name
    with the vendor in it makes a pair. -/

namespace CryptixMiner.Miner
open KeyedMap
open scoped List

/-- A trimmed name without parentheses. -/
structure Named (name : List Char) : Prop where
  ne_nil : name ≠ []
  trimmed : Text.trim name = name
  no_open : '(' ∉ name
  no_close : ')' ∉ name

/-- What the two plugins find: the specs of a plugin have numbers of their own. -/
structure Found (specs : List GpuSpec) : Prop where
  named : ∀ s ∈ specs, Named s.name
  distinct : specs.Pairwise fun s t => s.isCuda = t.isCuda → s.number ≠ t.number

/-! ### The parts of an id -/

namespace GpuSpec

/-- Every id starts so. -/
def slot (s : GpuSpec) : List Char := '#' :: Text.decimal s.number

theorem id_opencl (i : Nat) (name : List Char) : (opencl i name).id = (opencl i name).slot ++ ' ' :: name := rfl

theorem id_cuda (i : Nat) (name : List Char) : (cuda i name).id = ((cuda i name).slot ++ [' ']) ++ '(' :: (name ++ [')']) := by
  rw [List.append_assoc]
  rfl

theorem notMem_slot {s : GpuSpec} {c : Char} (hc : c.isDigit = false) (hhash : c ≠ '#') : c ∉ s.slot := by
  rw [slot, List.mem_cons, not_or]
  exact ⟨hhash, Text.notMem_decimal hc⟩

theorem trim_id {s : GpuSpec} (h : Named s.name) : Text.trim s.id = s.id := by
  refine Text.trim_of_ends ?_ ?_
  · cases s <;> exact fun c hc => by
      cases hc
      decide
  · cases s with
    | opencl i name =>
      have hname : Named name := h
      have hsplit : (opencl i name).id = ((opencl i name).slot ++ [' ']) ++ name := by
        rw [id_opencl, List.append_assoc]
        rfl
      rw [hsplit, List.getLast?_append_of_ne_nil _ hname.ne_nil]
      exact Text.last_of_trim hname.trimmed
    | cuda i name =>
      rw [id_cuda, List.getLast?_append_cons, ← List.cons_append, List.getLast?_append_cons]
      exact fun c hc => by
        cases hc
        decide

theorem notMem_id_opencl {i : Nat} {name : List Char} (h : Named name) : '(' ∉ (opencl i name).id := by
  rw [id_opencl, List.mem_append, List.mem_cons]
  exact fun hc => hc.elim (notMem_slot (by decide) (by decide)) fun hc => hc.elim (by decide) h.no_open

theorem isCudaId_id {s : GpuSpec} (h : Named s.name) : isCudaId s.id = s.isCuda := by
  cases s with
  | opencl i name =>
    have hname : Named name := h
    rw [isCudaId, decide_eq_false (notMem_id_opencl hname), Bool.false_and]
    rfl
  | cuda i name =>
    have hopen : '(' ∈ (cuda i name).id := by
      rw [id_cuda]
      exact List.mem_append_right _ List.mem_cons_self
    have hclose : ')' ∈ (cuda i name).id := by
      rw [id_cuda]
      exact List.mem_append_right _ (List.mem_cons_of_mem _ (List.mem_append_right _ List.mem_cons_self))
    rw [isCudaId, decide_eq_true hopen, decide_eq_true hclose]
    rfl

theorem normalizeGpuName_id {s : GpuSpec} (h : Named s.name) : normalizeGpuName s.id = Text.toAsciiLowercase s.name := by
  unfold normalizeGpuName
  rw [trim_id h]
  cases s with
  | opencl i name =>
    have hname : Named name := h
    have hnot := notMem_id_opencl (i := i) hname
    have hhead : (opencl i name).id.head? = some '#' := rfl
    have hafter : Text.afterFirst ' ' (opencl i name).id = some name := by
      rw [id_opencl, Text.afterFirst_eq (notMem_slot (by decide) (by decide))]
    simp only [Text.find_eq_none hnot, hhead, if_true, hafter, Option.getD_some]
    rw [hname.trimmed]
    rfl
  | cuda i name =>
    have hname : Named name := h
    have hfind : Text.find '(' (cuda i name).id = some ((cuda i name).slot ++ [' ']).length := by
      rw [id_cuda, Text.find_eq]
      rw [List.mem_append, List.mem_singleton]
      exact fun hc => hc.elim (notMem_slot (by decide) (by decide)) (by decide)
    have hrfind : Text.rfind ')' (cuda i name).id = some ((cuda i name).slot ++ [' '] ++ '(' :: name).length := by
      rw [id_cuda, ← List.cons_append, ← List.append_assoc, Text.rfind_eq List.not_mem_nil]
    have hlt : ((cuda i name).slot ++ [' ']).length + 1 < ((cuda i name).slot ++ [' '] ++ '(' :: name).length := by
      have hpos := List.length_pos_iff.mpr hname.ne_nil
      have hlen : ((cuda i name).slot ++ [' '] ++ '(' :: name).length =
          ((cuda i name).slot ++ [' ']).length + (name.length + 1) := List.length_append
      omega
    have hslice : Text.slice (cuda i name).id (((cuda i name).slot ++ [' ']).length + 1)
        ((cuda i name).slot ++ [' '] ++ '(' :: name).length = name := by
      rw [id_cuda, Text.slice_eq]
    simp only [hfind, hrfind, hlt, if_true, hslice]
    rw [hname.trimmed]
    rfl

theorem id_eq (s : GpuSpec) : ∃ rest, s.id = s.slot ++ ' ' :: rest := by
  cases s with
  | opencl i name => exact ⟨name, rfl⟩
  | cuda i name => exact ⟨'(' :: (name ++ [')']), rfl⟩

theorem gpuSlot_id {s : GpuSpec} (h : Named s.name) : gpuSlot s.id = s.slot := by
  obtain ⟨rest, hid⟩ := s.id_eq
  have hhead : s.id.head? = some '#' := by rw [hid]; rfl
  have hslot : ∀ c ∈ s.slot, Text.isWhitespace c = false := fun c hc => by
    rcases List.mem_cons.mp hc with rfl | hc
    · decide
    · exact Text.isWhitespace_of_isDigit (Text.isDigit_of_mem_decimal hc)
  have hlower : Text.toAsciiLowercase s.slot = s.slot := by
    refine (List.map_congr_left fun c hc => ?_).trans (List.map_id _)
    rcases List.mem_cons.mp hc with rfl | hc
    · decide
    · exact Text.toLower_of_isDigit (Text.isDigit_of_mem_decimal hc)
  unfold gpuSlot
  simp only [trim_id h, hhead, if_true]
  rw [hid, Text.firstWord_eq hslot (List.cons_ne_nil _ _) (by decide), hlower]

/-- Two ids have one key just when they have one number and, up to case, one name. -/
theorem nvidiaMatchKey_id_eq_iff {s t : GpuSpec} (hs : Named s.name) (ht : Named t.name) :
    nvidiaMatchKey s.id = nvidiaMatchKey t.id ↔
      s.number = t.number ∧ Text.toAsciiLowercase s.name = Text.toAsciiLowercase t.name := by
  rw [nvidiaMatchKey, nvidiaMatchKey, gpuSlot_id hs, gpuSlot_id ht, normalizeGpuName_id hs, normalizeGpuName_id ht]
  constructor
  · intro h
    obtain ⟨hslot, hname⟩ := Text.append_cons_inj (notMem_slot (by decide) (by decide))
      (notMem_slot (by decide) (by decide)) h
    exact ⟨Text.decimal_inj (List.tail_eq_of_cons_eq hslot), hname⟩
  · rintro ⟨hnumber, hname⟩
    rw [slot, slot, hnumber, hname]

theorem isNvidia_id {s : GpuSpec} (h : Named s.name) :
    isNvidia s.id = Text.contains (Text.toAsciiLowercase s.name) "nvidia".toList := by
  rw [isNvidia, normalizeGpuName_id h]

end GpuSpec
/-! ### One worker for a device -/

section
variable (opencl cuda : Order (Sigma fun _ : List Char => GpuSpec)) (specs : List GpuSpec)

/-- No two entries of the plan start with one key, and two specs of one key, one of each plugin, are an entry. -/
structure MinedOnce : Prop where
  primaries : ((planGpuSpecs GpuSpec.id opencl cuda specs).map fun p => nvidiaMatchKey p.1.id).Nodup
  together : ∀ s ∈ specs, ∀ t ∈ specs, s.isCuda = false → t.isCuda = true → nvidiaMatchKey s.id = nvidiaMatchKey t.id →
    (s, some t) ∈ planGpuSpecs GpuSpec.id opencl cuda specs ∨ (t, some s) ∈ planGpuSpecs GpuSpec.id opencl cuda specs

/-- The vendor stands in the name of every device that both plugins found under one number and, up to case, one
    name. -/
def VendorNamed : Prop :=
  ∀ s ∈ specs, ∀ t ∈ specs, s.isCuda = false → t.isCuda = true → s.number = t.number →
    Text.toAsciiLowercase s.name = Text.toAsciiLowercase t.name →
      Text.contains (Text.toAsciiLowercase s.name) "nvidia".toList = true

variable {opencl cuda specs}

theorem Found.eq_of_number (h : Found specs) {s t : GpuSpec} (hs : s ∈ specs) (ht : t ∈ specs)
    (hkind : s.isCuda = t.isCuda) (hnumber : s.number = t.number) : s = t := by
  by_contra hne
  have hsymm : Std.Symm fun s t : GpuSpec => s.isCuda = t.isCuda → s.number ≠ t.number :=
    ⟨fun s t hst hkind hnumber => hst hkind.symm hnumber.symm⟩
  exact h.distinct.forall hs ht hne hkind hnumber

/-- The keys that the entries of the plan start with. -/
theorem keys_pairing : (pairing GpuSpec.id specs).map (fun p => nvidiaMatchKey p.1.id) =
    ((specs.filter fun s => !isNvidia s.id).map fun s => nvidiaMatchKey s.id) ++
      keysOf GpuSpec.id specs (isOpenclPrimary GpuSpec.id) ++
      (keysOf GpuSpec.id specs (isCudaFallback GpuSpec.id)).filter fun key =>
        decide (key ∉ keysOf GpuSpec.id specs (isOpenclPrimary GpuSpec.id)) := by
  rw [pairing, List.map_append, List.map_append, map_key_filterMap (fun _ h => h) fun _ _ => rfl,
    map_key_filterMap (fun _ h => (List.mem_filter.mp h).1) fun _ _ => rfl, List.map_map]
  rfl

theorem Found.isNvidia_eq (h : Found specs) {s t : GpuSpec} (hs : s ∈ specs) (ht : t ∈ specs)
    (hkey : nvidiaMatchKey s.id = nvidiaMatchKey t.id) : isNvidia s.id = isNvidia t.id := by
  rw [GpuSpec.isNvidia_id (h.named s hs), GpuSpec.isNvidia_id (h.named t ht),
    ((GpuSpec.nvidiaMatchKey_id_eq_iff (h.named s hs) (h.named t ht)).mp hkey).2]

theorem VendorNamed.isNvidia (hvendor : VendorNamed specs) (h : Found specs) {s t : GpuSpec} (hs : s ∈ specs)
    (ht : t ∈ specs) (hskind : s.isCuda = false) (htkind : t.isCuda = true)
    (hkey : nvidiaMatchKey s.id = nvidiaMatchKey t.id) : isNvidia s.id = true := by
  obtain ⟨hnumber, hname⟩ := (GpuSpec.nvidiaMatchKey_id_eq_iff (h.named s hs) (h.named t ht)).mp hkey
  rw [GpuSpec.isNvidia_id (h.named s hs)]
  exact hvendor s hs t ht hskind htkind hnumber hname

/-- Outside of the vendor's devices, every spec has a key of its own. -/
theorem Found.eq_of_key (h : Found specs) (hvendor : VendorNamed specs) {s t : GpuSpec} (hs : s ∈ specs) (ht : t ∈ specs)
    (hnot : isNvidia s.id = false) (hkey : nvidiaMatchKey s.id = nvidiaMatchKey t.id) : s = t := by
  have hnumber := ((GpuSpec.nvidiaMatchKey_id_eq_iff (h.named s hs) (h.named t ht)).mp hkey).1
  have hnot' : isNvidia t.id = false := (h.isNvidia_eq hs ht hkey).symm.trans hnot
  cases hskind : s.isCuda <;> cases htkind : t.isCuda
  case false.false => exact h.eq_of_number hs ht (hskind.trans htkind.symm) hnumber
  case true.true => exact h.eq_of_number hs ht (hskind.trans htkind.symm) hnumber
  case false.true =>
    rw [hvendor.isNvidia h hs ht hskind htkind hkey] at hnot
    cases hnot
  case true.false =>
    rw [hvendor.isNvidia h ht hs htkind hskind hkey.symm] at hnot'
    cases hnot'

theorem Found.nodup_keys (h : Found specs) (hvendor : VendorNamed specs) :
    ((pairing GpuSpec.id specs).map fun p => nvidiaMatchKey p.1.id).Nodup := by
  have hspecs : specs.Nodup := h.distinct.imp fun hst heq => hst (congrArg _ heq) (congrArg _ heq)
  have hothers : ∀ key ∈ (specs.filter fun s => !isNvidia s.id).map (fun s => nvidiaMatchKey s.id), ∀ kind,
      (∀ t, kind t = true → isNvidia t.id = true) → key ∉ keysOf GpuSpec.id specs kind := by
    intro key hkey kind hkind hmem
    obtain ⟨s, hs, rfl⟩ := List.mem_map.mp hkey
    obtain ⟨hs, hnot⟩ := List.mem_filter.mp hs
    obtain ⟨t, ht, htkind, hkey⟩ := mem_keysOf.mp hmem
    rw [← h.isNvidia_eq ht hs hkey, hkind t htkind] at hnot
    cases hnot
  rw [keys_pairing, List.append_assoc, List.nodup_append']
  refine ⟨?_, List.nodup_append'.mpr ⟨nodup_keysOf _, (nodup_keysOf _).filter _, ?_⟩, ?_⟩
  · refine (hspecs.filter _).map_on fun s hs t ht hkey => ?_
    obtain ⟨hs, hnot⟩ := List.mem_filter.mp hs
    exact h.eq_of_key hvendor hs (List.mem_filter.mp ht).1 (by simpa using hnot) hkey
  · exact fun key hkey hkey' => absurd hkey (by simpa using (List.mem_filter.mp hkey').2)
  · intro key hkey hkey'
    rcases List.mem_append.mp hkey' with hmem | hmem
    · exact hothers key hkey _ (fun t ht => (Bool.and_eq_true_iff.mp ht).1) hmem
    · exact hothers key hkey _ (fun t ht => (Bool.and_eq_true_iff.mp ht).1) (List.mem_filter.mp hmem).1

/-- The spec of a kind with a key is the first one. -/
theorem Found.firstOf_eq (h : Found specs) {kind : GpuSpec → Bool} {s : GpuSpec} (hs : s ∈ specs) (hkind : kind s = true)
    (hsame : ∀ t ∈ specs, kind t = true → t.isCuda = s.isCuda) :
    firstOf GpuSpec.id specs kind (nvidiaMatchKey s.id) = some s := by
  obtain ⟨t, ht⟩ := Option.isSome_iff_exists.mp (firstOf_isSome_iff.mp (mem_keysOf.mpr ⟨s, hs, hkind, rfl⟩))
  obtain ⟨hmem, htkind, hkey⟩ := of_firstOf ht
  have hnumber := ((GpuSpec.nvidiaMatchKey_id_eq_iff (h.named t hmem) (h.named s hs)).mp hkey).1
  rw [ht, h.eq_of_number hmem hs (hsame t hmem htkind) hnumber]

theorem Found.minedOnce (h : Found specs) (hvendor : VendorNamed specs) : MinedOnce opencl cuda specs := by
  have hperm := planGpuSpecs_perm GpuSpec.id opencl cuda specs
  refine ⟨(hperm.map _).nodup_iff.mpr (h.nodup_keys hvendor), fun s hs t ht hskind htkind hkey => Or.inl ?_⟩
  have hnvidia := hvendor.isNvidia h hs ht hskind htkind hkey
  have hcudaId : ∀ u ∈ specs, isCudaId u.id = u.isCuda := fun u hu => GpuSpec.isCudaId_id (h.named u hu)
  have hopencl : isOpenclPrimary GpuSpec.id s = true := by
    rw [isOpenclPrimary, hnvidia, hcudaId s hs, hskind]
    rfl
  have hcuda : isCudaFallback GpuSpec.id t = true := by
    rw [isCudaFallback, ← h.isNvidia_eq hs ht hkey, hnvidia, hcudaId t ht, htkind]
    rfl
  have hfirst := h.firstOf_eq hs hopencl fun u hu hkind => by
    rw [isOpenclPrimary, hcudaId u hu, Bool.and_eq_true, Bool.not_eq_true'] at hkind
    rw [hkind.2, hskind]
  have hsecond := h.firstOf_eq ht hcuda fun u hu hkind => by
    rw [isCudaFallback, hcudaId u hu, Bool.and_eq_true] at hkind
    rw [hkind.2, htkind]
  rw [hperm.mem_iff, pairing, List.mem_append, List.mem_append]
  refine Or.inl (Or.inr (List.mem_filterMap.mpr ⟨nvidiaMatchKey s.id, mem_keysOf.mpr ⟨s, hs, hopencl, rfl⟩, ?_⟩))
  rw [hfirst, hkey, hsecond]
  rfl

theorem Found.vendorNamed (h : Found specs) (hmined : MinedOnce opencl cuda specs) : VendorNamed specs := by
  intro s hs t ht hskind htkind hnumber hname
  have hkey := (GpuSpec.nvidiaMatchKey_id_eq_iff (h.named s hs) (h.named t ht)).mpr ⟨hnumber, hname⟩
  rw [← GpuSpec.isNvidia_id (h.named s hs)]
  by_contra hnot
  have hnot : isNvidia s.id = false := Bool.eq_false_iff.mpr hnot
  have hnot' : isNvidia t.id = false := (h.isNvidia_eq hs ht hkey).symm.trans hnot
  have hnodup := (((planGpuSpecs_perm GpuSpec.id opencl cuda specs).map _).nodup_iff.mp hmined.primaries)
  rw [keys_pairing, List.append_assoc, List.nodup_append'] at hnodup
  have heq := List.inj_on_of_nodup_map hnodup.1 (List.mem_filter.mpr ⟨hs, by rw [hnot]; rfl⟩)
    (List.mem_filter.mpr ⟨ht, by rw [hnot']; rfl⟩) hkey
  rw [heq, htkind] at hskind
  cases hskind

/-- Of the specs that the plugins find, the plan makes one worker for each device just when the vendor stands in the
    name of every device that both found. -/
theorem minedOnce_iff (opencl cuda : Order (Sigma fun _ : List Char => GpuSpec)) (specs : List GpuSpec) (h : Found specs) :
    MinedOnce opencl cuda specs ↔ VendorNamed specs :=
  ⟨h.vendorNamed, h.minedOnce⟩

end

/-! ### Two devices -/

/-- The specs of one device, as both plugins find it. -/
def bothPlugins (name : String) : List GpuSpec := [.opencl 0 name.toList, .cuda 0 name.toList]

def insertionOrder (α : Type) : Order α := ⟨fun l => l, fun l => List.Perm.refl l⟩

theorem minedOnce_iff_rtx : MinedOnce (insertionOrder _) (insertionOrder _) (bothPlugins "NVIDIA GeForce RTX 3080") ↔
    VendorNamed (bothPlugins "NVIDIA GeForce RTX 3080") :=
  minedOnce_iff _ _ _
    { named := by
        intro s hs
        have hname : s.name = "NVIDIA GeForce RTX 3080".toList := by
          rcases List.mem_pair.mp hs with rfl | rfl <;> rfl
        rw [hname]
        exact ⟨by decide +kernel, by decide +kernel, by decide +kernel, by decide +kernel⟩
      distinct := by
        refine List.pairwise_pair.mpr fun hkind => ?_
        cases hkind }

/-- A driver that leaves the vendor out. -/
theorem not_minedOnce_gtx : ¬MinedOnce (insertionOrder _) (insertionOrder _) (bothPlugins "GeForce GTX 1080") :=
  fun h => absurd h.primaries (by decide +kernel)

end CryptixMiner.Miner
