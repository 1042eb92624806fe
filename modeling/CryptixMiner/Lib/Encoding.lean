import Mathlib.Data.List.Forall2

/-! Encodings that tell where they end: whatever follows, equal outputs come from related values and leave
    equal rests. They compose: one after the other, and any number of them behind their count. -/

namespace Encoding

/-- For values with `P`, the encoding `f` determines its value up to `R`, and its own end. -/
def Delimits {α β : Type*} (P : α → Prop) (f : α → List β) (R : α → α → Prop) : Prop :=
  ∀ a b r s, P a → P b → f a ++ r = f b ++ s → R a b ∧ r = s

section
variable {α β γ : Type*} {P Q : α → Prop} {f g : α → List β} {R S : α → α → Prop}

/-- An encoding of fixed length ends there. -/
theorem Delimits.of_length {n : Nat} (hlen : ∀ a, P a → (f a).length = n)
    (hinj : ∀ a b, P a → P b → f a = f b → R a b) : Delimits P f R := fun a b r s ha hb h => by
  obtain ⟨hf, hr⟩ := List.append_inj h ((hlen a ha).trans (hlen b hb).symm)
  exact ⟨hinj a b ha hb hf, hr⟩

/-- One encoding after the other, of two parts of one value. -/
theorem Delimits.append (hf : Delimits P f R) (hg : Delimits Q g S) :
    Delimits (fun a => P a ∧ Q a) (fun a => f a ++ g a) fun a b => R a b ∧ S a b := fun a b r s ha hb h => by
  rw [List.append_assoc, List.append_assoc] at h
  obtain ⟨hR, hrest⟩ := hf a b _ _ ha.1 hb.1 h
  obtain ⟨hS, hend⟩ := hg a b r s ha.2 hb.2 hrest
  exact ⟨⟨hR, hS⟩, hend⟩

theorem Delimits.comp (hf : Delimits P f R) (h : γ → α) :
    Delimits (fun c => P (h c)) (fun c => f (h c)) fun c d => R (h c) (h d) := fun c d r s hc hd heq =>
  hf (h c) (h d) r s hc hd heq

theorem Delimits.imp {P' : α → Prop} {R' : α → α → Prop} (hf : Delimits P f R) (hP : ∀ a, P' a → P a)
    (hR : ∀ a b, P' a → P' b → R a b → R' a b) : Delimits P' f R' := fun a b r s ha hb h =>
  have hrest := hf a b r s (hP a ha) (hP b hb) h
  ⟨hR a b ha hb hrest.1, hrest.2⟩

/-- Equally many encodings, one after the other. -/
theorem Delimits.flatMap (hf : Delimits P f R) :
    ∀ {l m : List α} {r s : List β}, (∀ a ∈ l, P a) → (∀ b ∈ m, P b) → l.length = m.length →
      l.flatMap f ++ r = m.flatMap f ++ s → List.Forall₂ R l m ∧ r = s
  | [], [], _, _, _, _, _, h => ⟨.nil, h⟩
  | [], _ :: _, _, _, _, _, hlen, _ => nomatch hlen
  | _ :: _, [], _, _, _, _, hlen, _ => nomatch hlen
  | a :: l, b :: m, r, s, hl, hm, hlen, h => by
    rw [List.flatMap_cons, List.flatMap_cons, List.append_assoc, List.append_assoc] at h
    obtain ⟨hR, hrest⟩ := hf a b _ _ (hl a List.mem_cons_self) (hm b List.mem_cons_self) h
    obtain ⟨hall, hend⟩ := hf.flatMap (fun a ha => hl a (List.mem_cons_of_mem _ ha))
      (fun b hb => hm b (List.mem_cons_of_mem _ hb)) (Nat.succ.inj hlen) hrest
    exact ⟨.cons hR hall, hend⟩

theorem Delimits.counted {count : Nat → List β} {bound : Nat}
    (hcount : Delimits (· < bound) count (· = ·)) (hf : Delimits P f R) :
    Delimits (fun l : List α => l.length < bound ∧ ∀ a ∈ l, P a) (fun l => count l.length ++ l.flatMap f)
      (List.Forall₂ R) := fun l m r s hl hm h => by
  rw [List.append_assoc, List.append_assoc] at h
  obtain ⟨hlen, hrest⟩ := hcount l.length m.length _ _ hl.1 hm.1 h
  exact hf.flatMap hl.2 hm.2 hlen hrest

end
end Encoding
