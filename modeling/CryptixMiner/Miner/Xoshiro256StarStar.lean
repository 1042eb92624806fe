import CryptixMiner.Machine

/-! The generator of `src/xoshiro256starstar.rs`. The threads of a device are seeded with the states that its jumps
    lead to, one jump a thread. -/

namespace CryptixMiner

structure Xoshiro256StarStar where
  state : Vector UInt64 4
deriving DecidableEq

namespace Xoshiro256StarStar

def LONG_JUMP : List UInt64 := [0x76e15d3efefdcbbf, 0xc5004e441c522fb3, 0x77710069854ee241, 0x39109bb02acbe635]

def rotl (x : UInt64) (k : Nat) : UInt64 := (x <<< UInt64.ofNat k) ||| (x >>> UInt64.ofNat (64 - k))

def new (seed : Vector UInt64 4) : Xoshiro256StarStar := ⟨seed⟩

def nextU64 (g : Xoshiro256StarStar) : UInt64 × Xoshiro256StarStar :=
  let result := rotl (g.state[1]! * 5) 7 * 9
  let t := g.state[1]! <<< 17
  let s := g.state.set! 2 (g.state[2]! ^^^ g.state[0]!)
  let s := s.set! 3 (s[3]! ^^^ s[1]!)
  let s := s.set! 1 (s[1]! ^^^ s[2]!)
  let s := s.set! 0 (s[0]! ^^^ s[3]!)
  let s := s.set! 2 (s[2]! ^^^ t)
  let s := s.set! 3 (rotl s[3]! 45)
  (result, ⟨s⟩)

/-- The four words that `long_jump` collects. -/
structure Sums where
  s0 : UInt64
  s1 : UInt64
  s2 : UInt64
  s3 : UInt64

def Sums.add (sums : Sums) (g : Xoshiro256StarStar) : Sums where
  s0 := sums.s0 ^^^ g.state[0]!
  s1 := sums.s1 ^^^ g.state[1]!
  s2 := sums.s2 ^^^ g.state[2]!
  s3 := sums.s3 ^^^ g.state[3]!

/-- The loop over the bits of one word. -/
def jumpBits (jmp : UInt64) (q : Sums × Xoshiro256StarStar) : Sums × Xoshiro256StarStar :=
  Loop.forRange 0 64 (fun b q =>
    (if jmp &&& (1 <<< UInt64.ofNat b) ≠ 0 then q.1.add q.2 else q.1, q.2.nextU64.2)) q

/-- The words are written back after each word of `LONG_JUMP`, and kept. -/
def jumpWord (q : Sums × Xoshiro256StarStar) (jmp : UInt64) : Sums × Xoshiro256StarStar :=
  let q := jumpBits jmp q
  (q.1, ⟨(((q.2.state.set! 0 q.1.s0).set! 1 q.1.s1).set! 2 q.1.s2).set! 3 q.1.s3⟩)

def longJump (g : Xoshiro256StarStar) : Xoshiro256StarStar := (LONG_JUMP.foldl jumpWord (⟨0, 0, 0, 0⟩, g)).2

end Xoshiro256StarStar

structure Xoshiro256StarStarStateIter where
  current : Xoshiro256StarStar

namespace Xoshiro256StarStarStateIter

def next (it : Xoshiro256StarStarStateIter) : Option (Vector UInt64 4) × Xoshiro256StarStarStateIter :=
  let current := it.current.longJump
  (some current.state, ⟨current⟩)

/-- The first `n` items, `take(n)`. -/
def take : Nat → Xoshiro256StarStarStateIter → List (Vector UInt64 4)
  | 0, _ => []
  | n + 1, it =>
    match it.next with
    | (some item, it) => item :: take n it
    | (none, _) => []

end Xoshiro256StarStarStateIter

def Xoshiro256StarStar.iterJumpState (g : Xoshiro256StarStar) : Xoshiro256StarStarStateIter := ⟨new g.state⟩

end CryptixMiner
