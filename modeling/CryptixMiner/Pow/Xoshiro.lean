import CryptixMiner.Target

/-! The generator of `src/pow/xoshiro.rs`, which the matrix is drawn from. -/

namespace CryptixMiner

structure XoShiRo256PlusPlus where
  s0 : UInt64
  s1 : UInt64
  s2 : UInt64
  s3 : UInt64
deriving DecidableEq

namespace XoShiRo256PlusPlus

def new (hash : Hash) : XoShiRo256PlusPlus where
  s0 := hash.words[0]
  s1 := hash.words[1]
  s2 := hash.words[2]
  s3 := hash.words[3]

/-- A draw, and the generator after it. -/
def u64 (g : XoShiRo256PlusPlus) : UInt64 × XoShiRo256PlusPlus :=
  let res := g.s0 + rotateLeft64 (g.s0 + g.s3) 23
  let t := g.s1 <<< 17
  let g := { g with s2 := g.s2 ^^^ g.s0 }
  let g := { g with s3 := g.s3 ^^^ g.s1 }
  let g := { g with s1 := g.s1 ^^^ g.s2 }
  let g := { g with s0 := g.s0 ^^^ g.s3 }
  let g := { g with s2 := g.s2 ^^^ t }
  let g := { g with s3 := rotateLeft64 g.s3 45 }
  (res, g)

/-- The generator after `n` draws. -/
def after (g : XoShiRo256PlusPlus) (n : Nat) : XoShiRo256PlusPlus := (fun g => g.u64.2)^[n] g

/-- Draw number `n`. -/
def draw (g : XoShiRo256PlusPlus) (n : Nat) : UInt64 := (g.after n).u64.1

@[simp] theorem after_zero (g : XoShiRo256PlusPlus) : g.after 0 = g := rfl

theorem after_succ (g : XoShiRo256PlusPlus) (n : Nat) : g.after (n + 1) = (g.after n).u64.2 :=
  Function.iterate_succ_apply' _ n g

theorem after_add (g : XoShiRo256PlusPlus) (m n : Nat) : g.after (m + n) = (g.after m).after n := by
  rw [Nat.add_comm]
  exact Function.iterate_add_apply _ n m g

theorem u64_after (g : XoShiRo256PlusPlus) (n : Nat) : (g.after n).u64 = (g.draw n, g.after (n + 1)) := by
  rw [after_succ]
  rfl

theorem draw_after (g : XoShiRo256PlusPlus) (m n : Nat) : (g.after m).draw n = g.draw (m + n) := by
  rw [draw, draw, after_add]

end XoShiRo256PlusPlus
end CryptixMiner
