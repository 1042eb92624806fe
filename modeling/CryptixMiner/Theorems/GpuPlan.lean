import Mathlib.Data.List.Dedup
import Mathlib.Data.List.Induction
import CryptixMiner.Miner.GpuPlan

/-! The plan of the GPU workers, for any specs and any order of the hash maps: what each of its entries is made of,
    and that no spec gets lost or doubled in it. -/

namespace CryptixMiner.Miner
open KeyedMap
open scoped List

section
variable {Spec : Type} (id : Spec → List Char) (specs : List Spec)

/-- The specs that go to the map of the OpenCL primaries, and to the one of the CUDA fallbacks. -/
def isOpenclPrimary (spec : Spec) : Bool := isNvidia (id spec) && !isCudaId (id spec)

def isCudaFallback (spec : Spec) : Bool := isNvidia (id spec) && isCudaId (id spec)

/-- The first spec of a kind that has this key. -/
def firstOf (kind : Spec → Bool) (key : List Char) : Option Spec :=
  specs.find? fun spec => kind spec && decide (nvidiaMatchKey (id spec) = key)

/-- The keys of a kind. -/
def keysOf (kind : Spec → Bool) : List (List Char) := ((specs.filter kind).map fun spec => nvidiaMatchKey (id spec)).dedup

/-- The plan up to its order. -/
def pairing : List (Spec × Option Spec) :=
  ((specs.filter fun spec => !isNvidia (id spec)).map fun spec => (spec, none)) ++
    ((keysOf id specs (isOpenclPrimary id)).filterMap fun key =>
      (firstOf id specs (isOpenclPrimary id) key).map fun spec => (spec, firstOf id specs (isCudaFallback id) key)) ++
    (((keysOf id specs (isCudaFallback id)).filter fun key => decide (key ∉ keysOf id specs (isOpenclPrimary id))).filterMap
      fun key => (firstOf id specs (isCudaFallback id) key).map fun spec => (spec, none))

/-- The specs of an entry. -/
def used (p : Spec × Option Spec) : List Spec := p.1 :: p.2.toList

variable {id specs}

theorem firstOf_isSome_iff {kind : Spec → Bool} {key : List Char} :
    key ∈ keysOf id specs kind ↔ (firstOf id specs kind key).isSome := by
  simp only [keysOf, firstOf, List.mem_dedup, List.mem_map, List.mem_filter, List.find?_isSome, Bool.and_eq_true,
    decide_eq_true_eq, and_assoc]

theorem mem_keysOf {kind : Spec → Bool} {key : List Char} :
    key ∈ keysOf id specs kind ↔ ∃ spec ∈ specs, kind spec = true ∧ nvidiaMatchKey (id spec) = key := by
  simp only [keysOf, List.mem_dedup, List.mem_map, List.mem_filter, and_assoc]

theorem of_firstOf {kind : Spec → Bool} {key : List Char} {spec : Spec} (h : firstOf id specs kind key = some spec) :
    spec ∈ specs ∧ kind spec = true ∧ nvidiaMatchKey (id spec) = key := by
  have hfound := List.find?_some h
  rw [Bool.and_eq_true, decide_eq_true_eq] at hfound
  exact ⟨List.mem_of_find?_eq_some h, hfound⟩

/-- The entries for keys of a kind start with these keys. -/
theorem map_key_filterMap {kind : Spec → Bool} {keys : List (List Char)} (hkeys : ∀ key ∈ keys, key ∈ keysOf id specs kind)
    {entry : List Char → Spec → Spec × Option Spec} (hentry : ∀ key spec, (entry key spec).1 = spec) :
    (keys.filterMap fun key => (firstOf id specs kind key).map (entry key)).map (fun p => nvidiaMatchKey (id p.1)) =
      keys := by
  rw [List.map_filterMap]
  refine (List.filterMap_congr fun key hkey => ?_).trans List.filterMap_some
  obtain ⟨spec, hspec⟩ := Option.isSome_iff_exists.mp (firstOf_isSome_iff.mp (hkeys key hkey))
  rw [hspec, Option.map_some, Option.map_some, hentry, (of_firstOf hspec).2.2]

/-! ### The first loop -/

/-- What the first loop holds after these specs. -/
structure RoutedAs (id : Spec → List Char) (specs : List Spec) (r : Routed Spec) : Prop where
  planned : r.planned = (specs.filter fun spec => !isNvidia (id spec)).map fun spec => (spec, none)
  opencl : ∀ key, r.nvidiaOpenclPrimary.lookup key = firstOf id specs (isOpenclPrimary id) key
  cuda : ∀ key, r.nvidiaCudaFallbacks.lookup key = firstOf id specs (isCudaFallback id) key
  used : r.planned.flatMap used ++ (values r.nvidiaOpenclPrimary ++ values r.nvidiaCudaFallbacks) <+~ specs

theorem firstOf_append (kind : Spec → Bool) (key : List Char) (spec : Spec) :
    firstOf id (specs ++ [spec]) kind key =
      (firstOf id specs kind key).or (if kind spec ∧ key = nvidiaMatchKey (id spec) then some spec else none) := by
  rw [firstOf, firstOf, List.find?_append, List.find?_singleton]
  simp only [Bool.and_eq_true, decide_eq_true_eq, eq_comm (a := key)]

/-- A spec of another kind is not the first of this one. -/
theorem firstOf_append_of_not {kind : Spec → Bool} {spec : Spec} (hkind : kind spec = false) (key : List Char) :
    firstOf id (specs ++ [spec]) kind key = firstOf id specs kind key := by
  rw [firstOf_append, if_neg (by rw [hkind]; exact fun h => nomatch h.1), Option.or_none]

theorem firstOf_append_of_kind {kind : Spec → Bool} {spec : Spec} (hkind : kind spec = true) {m : Map (List Char) Spec}
    (hm : ∀ key, m.lookup key = firstOf id specs kind key) (key : List Char) :
    (orInsert m (nvidiaMatchKey (id spec)) spec).lookup key = firstOf id (specs ++ [spec]) kind key := by
  rw [lookup_orInsert, hm, firstOf_append]
  simp only [hkind, true_and]

theorem subperm_append {l l' : List Spec} (h : l <+~ specs) (spec : Spec) (hl : l' = l ∨ l' ~ spec :: l) :
    l' <+~ specs ++ [spec] := by
  rcases hl with rfl | hl
  · exact h.trans (List.sublist_append_left _ _).subperm
  · exact (hl.subperm.trans ((List.subperm_cons spec).mpr h)).trans (List.perm_append_singleton spec specs).symm.subperm

theorem RoutedAs.route {r : Routed Spec} (h : RoutedAs id specs r) (spec : Spec) :
    RoutedAs id (specs ++ [spec]) (route id r spec) := by
  unfold Miner.route
  cases hnvidia : isNvidia (id spec) with
  | false =>
    have hopencl : isOpenclPrimary id spec = false := by rw [isOpenclPrimary, hnvidia, Bool.false_and]
    have hcuda : isCudaFallback id spec = false := by rw [isCudaFallback, hnvidia, Bool.false_and]
    refine ⟨?_, fun key => ?_, fun key => ?_, ?_⟩
    · simp [h.planned, hnvidia]
    · exact (h.opencl key).trans (firstOf_append_of_not hopencl key).symm
    · exact (h.cuda key).trans (firstOf_append_of_not hcuda key).symm
    · refine subperm_append h.used spec (Or.inr ?_)
      simp only [Bool.not_false, if_true, List.flatMap_append, List.flatMap_singleton]
      rw [List.append_assoc]
      exact List.perm_middle
  | true =>
    have hplanned : ((specs ++ [spec]).filter fun spec => !isNvidia (id spec)) = specs.filter fun spec => !isNvidia (id spec) := by
      simp [hnvidia]
    cases hkind : isCudaId (id spec) with
    | true =>
      have hopencl : isOpenclPrimary id spec = false := by rw [isOpenclPrimary, hnvidia, hkind]; rfl
      have hcuda : isCudaFallback id spec = true := by rw [isCudaFallback, hnvidia, hkind]; rfl
      refine ⟨hplanned ▸ h.planned, fun key => ?_, firstOf_append_of_kind hcuda h.cuda, ?_⟩
      · exact (h.opencl key).trans (firstOf_append_of_not hopencl key).symm
      · refine subperm_append h.used spec ?_
        simp only [Bool.not_true, Bool.false_eq_true, if_false, if_true]
        rcases values_orInsert r.nvidiaCudaFallbacks (nvidiaMatchKey (id spec)) spec with heq | heq
        · exact Or.inl (by rw [heq])
        · refine Or.inr ?_
          rw [heq, ← List.append_assoc, ← List.append_assoc]
          exact List.perm_middle
    | false =>
      have hopencl : isOpenclPrimary id spec = true := by rw [isOpenclPrimary, hnvidia, hkind]; rfl
      have hcuda : isCudaFallback id spec = false := by rw [isCudaFallback, hnvidia, hkind]; rfl
      refine ⟨hplanned ▸ h.planned, firstOf_append_of_kind hopencl h.opencl, fun key => ?_, ?_⟩
      · exact (h.cuda key).trans (firstOf_append_of_not hcuda key).symm
      · refine subperm_append h.used spec ?_
        simp only [Bool.not_true, Bool.false_eq_true, if_false]
        rcases values_orInsert r.nvidiaOpenclPrimary (nvidiaMatchKey (id spec)) spec with heq | heq
        · exact Or.inl (by rw [heq])
        · refine Or.inr ?_
          rw [heq, List.cons_append]
          exact List.perm_middle

theorem routedAs (id : Spec → List Char) (specs : List Spec) : RoutedAs id specs (routed id specs) := by
  induction specs using List.reverseRec with
  | nil => exact ⟨rfl, fun _ => rfl, fun _ => rfl, List.nil_subperm⟩
  | append_singleton specs spec ih =>
    rw [routed, List.foldl_append]
    exact ih.route spec

/-! ### The plan -/

theorem nodup_keysOf (kind : Spec → Bool) : (keysOf id specs kind).Nodup := List.nodup_dedup _

/-- What a map that holds the first specs of a kind has for its entries. -/
theorem entries_perm_firstOf {kind : Spec → Bool} {m : Map (List Char) Spec}
    (hm : ∀ key, m.lookup key = firstOf id specs kind key) :
    m.entries ~ (keysOf id specs kind).filterMap fun key => (firstOf id specs kind key).map (Sigma.mk key) :=
  entries_perm hm (nodup_keysOf kind) fun _ => firstOf_isSome_iff

theorem mem_keysOf_iff {kind : Spec → Bool} {m : Map (List Char) Spec}
    (hm : ∀ key, m.lookup key = firstOf id specs kind key) {es : List (Sigma fun _ : List Char => Spec)}
    (hes : es ~ m.entries) (key : List Char) : key ∈ es.map Sigma.fst ↔ key ∈ keysOf id specs kind := by
  have hkeys : key ∈ m.entries.map Sigma.fst ↔ key ∈ m := AList.mem_keys.symm
  rw [(hes.map Sigma.fst).mem_iff, hkeys, firstOf_isSome_iff, ← hm, AList.lookup_isSome]

/-- The CUDA specs that are left when every OpenCL primary has taken its fallback. -/
theorem entries_perm_left {m left : Map (List Char) Spec} (hm : ∀ key, m.lookup key = firstOf id specs (isCudaFallback id) key)
    (hleft : ∀ key, left.lookup key = if key ∈ keysOf id specs (isOpenclPrimary id) then none else m.lookup key) :
    left.entries ~ ((keysOf id specs (isCudaFallback id)).filter fun key =>
      decide (key ∉ keysOf id specs (isOpenclPrimary id))).filterMap fun key =>
        (firstOf id specs (isCudaFallback id) key).map (Sigma.mk key) := by
  have hsome : ∀ key, key ∈ ((keysOf id specs (isCudaFallback id)).filter fun key =>
      decide (key ∉ keysOf id specs (isOpenclPrimary id))) ↔ (left.lookup key).isSome := fun key => by
    rw [hleft, hm, List.mem_filter, firstOf_isSome_iff, decide_eq_true_eq]
    by_cases hkey : key ∈ keysOf id specs (isOpenclPrimary id)
    · rw [if_pos hkey]
      exact iff_of_false (fun h => h.2 hkey) nofun
    · rw [if_neg hkey]
      exact and_iff_left hkey
  refine (entries_perm (fun _ => rfl) ((nodup_keysOf _).filter _) hsome).trans (List.Perm.of_eq ?_)
  refine List.filterMap_congr fun key hkey => ?_
  rw [hleft, hm, if_neg (by simpa using (List.mem_filter.mp hkey).2)]

variable (id) (opencl cuda : Order (Sigma fun _ : List Char => Spec))

theorem planGpuSpecs_eq (specs : List Spec) :
    planGpuSpecs id opencl cuda specs =
      let result := pairUp (routed id specs).planned (routed id specs).nvidiaCudaFallbacks
        (opencl.order (routed id specs).nvidiaOpenclPrimary.entries)
      result.1 ++ (cuda.order result.2.entries).map fun e => (e.2, none) := rfl

theorem planGpuSpecs_perm (specs : List Spec) : planGpuSpecs id opencl cuda specs ~ pairing id specs := by
  have hr := routedAs id specs
  have hes := opencl.perm (routed id specs).nvidiaOpenclPrimary.entries
  have hnodup : ((opencl.order (routed id specs).nvidiaOpenclPrimary.entries).map Sigma.fst).Nodup :=
    (hes.map Sigma.fst).nodup_iff.mpr (routed id specs).nvidiaOpenclPrimary.nodupKeys
  have hfst := fst_pairUp (routed id specs).nvidiaCudaFallbacks (routed id specs).planned hnodup
  have hleft := lookup_pairUp (routed id specs).nvidiaCudaFallbacks
    (opencl.order (routed id specs).nvidiaOpenclPrimary.entries) (routed id specs).planned
  simp only [mem_keysOf_iff hr.opencl hes] at hleft
  rw [planGpuSpecs_eq id opencl cuda specs]
  refine List.Perm.append ?_ ?_
  · rw [hfst, hr.planned]
    refine List.Perm.append_left _ (((hes.trans (entries_perm_firstOf hr.opencl)).map _).trans (List.Perm.of_eq ?_))
    simp only [List.map_filterMap, Option.map_map, Function.comp_def, hr.cuda]
  · refine (((cuda.perm _).trans (entries_perm_left hr.cuda hleft)).map _).trans (List.Perm.of_eq ?_)
    simp only [List.map_filterMap, Option.map_map, Function.comp_def]

theorem used_planGpuSpecs (specs : List Spec) : (planGpuSpecs id opencl cuda specs).flatMap used <+~ specs := by
  have hvalues := values_pairUp (routed id specs).planned (routed id specs).nvidiaCudaFallbacks
    (opencl.order (routed id specs).nvidiaOpenclPrimary.entries)
  rw [planGpuSpecs_eq id opencl cuda specs, List.flatMap_append]
  generalize pairUp (routed id specs).planned (routed id specs).nvidiaCudaFallbacks
    (opencl.order (routed id specs).nvidiaOpenclPrimary.entries) = result at *
  have hlast : ((cuda.order result.2.entries).map fun e => (e.2, (none : Option Spec))).flatMap used ~
      values result.2 := by
    rw [List.flatMap_map]
    exact (List.Perm.of_eq List.map_eq_flatMap.symm).trans ((cuda.perm result.2.entries).map Sigma.snd)
  refine ((List.Perm.append_left _ hlast).trans ?_).subperm.trans (routedAs id specs).used
  exact hvalues.trans (List.Perm.append_left _ (List.Perm.append_right _ ((opencl.perm _).map Sigma.snd)))

/-- Every entry of the plan is one that it should have, none is missing, and no spec is in it more often than among
    the specs. -/
theorem planGpuSpecs_pairing (specs : List Spec) :
    planGpuSpecs id opencl cuda specs ~ pairing id specs ∧ (planGpuSpecs id opencl cuda specs).flatMap used <+~ specs :=
  ⟨planGpuSpecs_perm id opencl cuda specs, used_planGpuSpecs id opencl cuda specs⟩

end
end CryptixMiner.Miner
