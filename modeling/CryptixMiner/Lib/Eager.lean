/-! Values that are computed before they are handed on, for functions that are evaluated step by step on large
    inputs. -/

namespace Eager

/-- `k x`, where the number `x` is computed first. -/
def force {α : Type} (x : Nat) (k : Nat → α) : α :=
  match x with
  | 0 => k 0
  | n + 1 => k (Nat.succ n)

@[simp] theorem force_eq {α : Type} (x : Nat) (k : Nat → α) : force x k = k x := by
  cases x <;> rfl

end Eager
