import Mathlib.Data.List.AList

/-! Hash maps with one value a key, whose entries come in any order: the first value of a key that is inserted
    stays, and the entries of one map are paired with what a second one holds under their keys. -/

namespace KeyedMap
open scoped List

abbrev Map (κ σ : Type*) := AList fun _ : κ => σ

/-- An order to iterate over entries in. -/
structure Order (α : Type*) where
  order : List α → List α
  perm : ∀ l, order l ~ l

variable {κ σ τ : Type*} [DecidableEq κ]

/-- `m.entry(k).or_insert(s)`. -/
def orInsert (m : Map κ σ) (k : κ) (s : σ) : Map κ σ := if k ∈ m then m else m.insert k s

def values (m : Map κ σ) : List σ := m.entries.map Sigma.snd

/-- Each entry is paired with what the second map holds under its key, and the key is removed from that map. -/
def pairUp (out : List (σ × Option τ)) (m : Map κ τ) (es : List (Sigma fun _ : κ => σ)) :
    List (σ × Option τ) × Map κ τ :=
  es.foldl (fun r e => (r.1 ++ [(e.2, r.2.lookup e.1)], r.2.erase e.1)) (out, m)

section
variable {m : Map κ σ} {k j : κ} {s : σ} {es : List (Sigma fun _ : κ => σ)}

theorem lookup_orInsert : (orInsert m k s).lookup j = (m.lookup j).or (if j = k then some s else none) := by
  unfold orInsert
  by_cases hk : k ∈ m
  · rw [if_pos hk]
    by_cases hj : j = k
    · subst hj
      obtain ⟨t, ht⟩ := Option.isSome_iff_exists.mp (AList.lookup_isSome.mpr hk)
      rw [ht, Option.some_or]
    · rw [if_neg hj, Option.or_none]
  · rw [if_neg hk]
    by_cases hj : j = k
    · subst hj
      rw [AList.lookup_insert, if_pos rfl, AList.lookup_eq_none.mpr hk, Option.none_or]
    · rw [AList.lookup_insert_ne hj, if_neg hj, Option.or_none]

theorem values_orInsert (m : Map κ σ) (k : κ) (s : σ) :
    values (orInsert m k s) = values m ∨ values (orInsert m k s) = s :: values m := by
  unfold orInsert
  by_cases hk : k ∈ m
  · rw [if_pos hk]
    exact Or.inl rfl
  · rw [if_neg hk, values, AList.entries_insert_of_notMem hk]
    exact Or.inr rfl

/-- What is removed was there. -/
theorem values_erase (m : Map κ σ) (k : κ) : values m ~ (m.lookup k).toList ++ values (m.erase k) := by
  by_cases hk : k ∈ m
  · obtain ⟨s, l₁, l₂, hnot, hl, hl'⟩ := List.exists_of_kerase (AList.mem_keys.mp hk)
    have hlookup : m.lookup k = some s := AList.mem_lookup_iff.mpr (hl ▸ List.mem_append_right _ List.mem_cons_self)
    have herase : values (m.erase k) = (l₁ ++ l₂).map Sigma.snd := by
      rw [← hl']
      rfl
    rw [hlookup, herase, values, hl, List.map_append, List.map_cons, List.map_append]
    exact List.perm_middle
  · have herase : (m.erase k).entries = m.entries := List.kerase_of_notMem_keys (mt AList.mem_keys.mpr hk)
    rw [AList.lookup_eq_none.mpr hk, values, values, herase]
    rfl

theorem fst_pairUp (m' : Map κ τ) (out : List (σ × Option τ)) (hkeys : (es.map Sigma.fst).Nodup) :
    (pairUp out m' es).1 = out ++ es.map fun e => (e.2, m'.lookup e.1) := by
  induction es generalizing out m' with
  | nil => exact (List.append_nil out).symm
  | cons e es ih =>
    obtain ⟨hnot, hkeys⟩ := List.nodup_cons.mp hkeys
    have hrest : es.map (fun x => (x.2, (m'.erase e.1).lookup x.1)) = es.map fun x => (x.2, m'.lookup x.1) :=
      List.map_congr_left fun x hx => by
        rw [AList.lookup_erase_ne fun heq : x.1 = e.1 => hnot (heq ▸ List.mem_map_of_mem hx)]
    rw [pairUp, List.foldl_cons, ← pairUp, ih _ _ hkeys, hrest, List.append_assoc]
    rfl

theorem lookup_pairUp (m' : Map κ τ) (es : List (Sigma fun _ : κ => σ)) (out : List (σ × Option τ)) (k : κ) :
    (pairUp out m' es).2.lookup k = if k ∈ es.map Sigma.fst then none else m'.lookup k := by
  induction es generalizing out m' with
  | nil => rfl
  | cons e es ih =>
    rw [pairUp, List.foldl_cons, ← pairUp, ih, List.map_cons]
    by_cases hk : k = e.1
    · subst hk
      simp
    · simp only [List.mem_cons, hk, false_or, AList.lookup_erase_ne hk]

/-- Nothing is lost or doubled in the pairing. -/
theorem values_pairUp (out : List (σ × Option σ)) (m : Map κ σ) (es : List (Sigma fun _ : κ => σ)) :
    (pairUp out m es).1.flatMap (fun p => p.1 :: p.2.toList) ++ values (pairUp out m es).2 ~
      out.flatMap (fun p => p.1 :: p.2.toList) ++ (es.map Sigma.snd ++ values m) := by
  induction es generalizing out m with
  | nil => exact List.Perm.refl _
  | cons e es ih =>
    rw [pairUp, List.foldl_cons, ← pairUp]
    refine (ih _ _).trans ?_
    rw [List.flatMap_append, List.flatMap_singleton, List.append_assoc, List.map_cons]
    refine List.Perm.append_left _ (List.Perm.cons _ ?_)
    calc (m.lookup e.1).toList ++ (es.map Sigma.snd ++ values (m.erase e.1))
        ~ es.map Sigma.snd ++ ((m.lookup e.1).toList ++ values (m.erase e.1)) := by
          rw [← List.append_assoc, ← List.append_assoc]
          exact List.Perm.append_right _ List.perm_append_comm
      _ ~ es.map Sigma.snd ++ values m := List.Perm.append_left _ (values_erase m e.1).symm

/-- The entries of a map are determined, up to their order, by its keys and what it holds under them. -/
theorem entries_perm {g : κ → Option σ} {ks : List κ} (hlookup : ∀ k, m.lookup k = g k) (hks : ks.Nodup)
    (hsome : ∀ k, k ∈ ks ↔ (g k).isSome) : m.entries ~ ks.filterMap fun k => (g k).map (Sigma.mk k) := by
  have hnodup : (ks.filterMap fun k => (g k).map (Sigma.mk k)).Nodup :=
    hks.filterMap fun k k' e he he' => by
      obtain ⟨s, -, rfl⟩ := Option.map_eq_some_iff.mp he
      obtain ⟨s', -, heq⟩ := Option.map_eq_some_iff.mp he'
      exact (congrArg Sigma.fst heq).symm
  refine (List.perm_ext_iff_of_nodup m.nodupKeys.nodup hnodup).mpr fun e => ?_
  obtain ⟨k, s⟩ := e
  rw [← AList.mem_lookup_iff, hlookup, List.mem_filterMap]
  constructor
  · exact fun h => ⟨k, (hsome k).mpr (Option.isSome_of_mem h), by rw [h]; rfl⟩
  · rintro ⟨k', -, h⟩
    obtain ⟨s', hs', heq⟩ := Option.map_eq_some_iff.mp h
    cases heq
    exact hs'

end
end KeyedMap
