import Mathlib.Data.List.Prime
import Mathlib.NumberTheory.LucasPrimality
import Mathlib.Tactic.NormNum.Prime
import Mathlib.Tactic.ReduceModChar

/-! Lucas' test of a prime with a list of the factors of its predecessor, and the prime factors of `2 ^ 256 - 1`. -/

namespace FermatFactors

theorem prime_of_lucas {p : Nat} (a : ZMod p) (k : Nat) (factors : List Nat) (hprime : ∀ q ∈ factors, q.Prime)
    (hprod : p - 1 ∣ factors.prod ^ k) (hone : a ^ (p - 1) = 1) (hne : ∀ q ∈ factors, a ^ ((p - 1) / q) ≠ 1) :
    p.Prime := by
  refine lucas_primality p a hone fun q hq hdvd => hne q ?_
  have hmem : q ∣ factors.prod := hq.dvd_of_dvd_pow (hdvd.trans hprod)
  exact mem_list_primes_of_dvd_prod hq.prime (fun r hr => (hprime r hr).prime) hmem

theorem prime_18533742247 : Nat.Prime 18533742247 := by
  refine prime_of_lucas 6 3 [2, 3, 181, 1896229] ?_ (by decide) (by reduce_mod_char) ?_
  · simp only [List.forall_mem_cons]
    exact ⟨by norm_num, by norm_num, by norm_num, by norm_num, List.forall_mem_nil _⟩
  · simp only [List.forall_mem_cons, Nat.reduceSub, Nat.reduceDiv]
    reduce_mod_char
    decide

theorem prime_116503103764643 : Nat.Prime 116503103764643 := by
  refine prime_of_lucas 2 1 [2, 7, 449, 18533742247] ?_ (by decide) (by reduce_mod_char) ?_
  · simp only [List.forall_mem_cons]
    exact ⟨by norm_num, by norm_num, by norm_num, prime_18533742247, List.forall_mem_nil _⟩
  · simp only [List.forall_mem_cons, Nat.reduceSub, Nat.reduceDiv]
    reduce_mod_char
    decide

theorem prime_733803839347 : Nat.Prime 733803839347 := by
  refine prime_of_lucas 2 1 [2, 3, 2203, 55515497] ?_ (by decide) (by reduce_mod_char) ?_
  · simp only [List.forall_mem_cons]
    exact ⟨by norm_num, by norm_num, by norm_num, by norm_num, List.forall_mem_nil _⟩
  · simp only [List.forall_mem_cons, Nat.reduceSub, Nat.reduceDiv]
    reduce_mod_char
    decide

theorem prime_67280421310721 : Nat.Prime 67280421310721 := by
  refine prime_of_lucas 3 8 [2, 5, 47, 373, 2998279] ?_ (by decide) (by reduce_mod_char) ?_
  · simp only [List.forall_mem_cons]
    exact ⟨by norm_num, by norm_num, by norm_num, by norm_num, by norm_num, List.forall_mem_nil _⟩
  · simp only [List.forall_mem_cons, Nat.reduceSub, Nat.reduceDiv]
    reduce_mod_char
    decide

theorem prime_59649589127497217 : Nat.Prime 59649589127497217 := by
  refine prime_of_lucas 3 9 [2, 116503103764643] ?_ (by decide) (by reduce_mod_char) ?_
  · simp only [List.forall_mem_cons]
    exact ⟨by norm_num, prime_116503103764643, List.forall_mem_nil _⟩
  · simp only [List.forall_mem_cons, Nat.reduceSub, Nat.reduceDiv]
    reduce_mod_char
    decide

theorem prime_5704689200685129054721 : Nat.Prime 5704689200685129054721 := by
  refine prime_of_lucas 21 9 [2, 3, 5, 12497, 733803839347] ?_ (by decide) (by reduce_mod_char) ?_
  · simp only [List.forall_mem_cons]
    exact ⟨by norm_num, by norm_num, by norm_num, by norm_num, prime_733803839347, List.forall_mem_nil _⟩
  · simp only [List.forall_mem_cons, Nat.reduceSub, Nat.reduceDiv]
    reduce_mod_char
    decide

/-- `2 ^ 256 - 1` is the product of the Fermat numbers from `2 ^ 1 + 1` to `2 ^ 128 + 1`; these are their factors. -/
def factors : List Nat :=
  [3, 5, 17, 257, 641, 65537, 274177, 6700417, 67280421310721, 59649589127497217, 5704689200685129054721]

theorem prime_factors : ∀ q ∈ factors, q.Prime := by
  simp only [factors, List.forall_mem_cons]
  exact ⟨by norm_num, by norm_num, by norm_num, by norm_num, by norm_num, by norm_num, by norm_num, by norm_num,
    prime_67280421310721, prime_59649589127497217, prime_5704689200685129054721, List.forall_mem_nil _⟩

theorem mem_factors {p : Nat} (hp : p.Prime) (hdvd : p ∣ 2 ^ 256 - 1) : p ∈ factors := by
  have hprod : factors.prod = 2 ^ 256 - 1 := by decide
  rw [← hprod] at hdvd
  exact mem_list_primes_of_dvd_prod hp.prime (fun q hq => (prime_factors q hq).prime) hdvd

end FermatFactors
