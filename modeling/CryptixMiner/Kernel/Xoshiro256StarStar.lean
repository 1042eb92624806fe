import CryptixMiner.Kernel.Device

/-! The generator that the CUDA kernel brings (`xoshiro256starstar.c`), with the reference of the long jump. -/

namespace CryptixMiner.Cuda

/-- CUDA's vector of four 64-bit words. -/
structure Ulonglong4 where
  x : UInt64
  y : UInt64
  z : UInt64
  w : UInt64
deriving DecidableEq

def LONG_JUMP : Vector UInt64 4 := Array.toVector #[
  0x76e15d3efefdcbbf, 0xc5004e441c522fb3, 0x77710069854ee241, 0x39109bb02acbe635]

def rotl (x : UInt64) (k : Nat) : UInt64 := (x <<< UInt64.ofNat k) ||| (x >>> UInt64.ofNat (64 - k))

def xoshiro256Next (s : Ulonglong4) : UInt64 × Ulonglong4 :=
  let result := rotl (s.y * 5) 7 * 9
  let t := s.y <<< 17
  let s := { s with z := s.z ^^^ s.x }
  let s := { s with w := s.w ^^^ s.y }
  let s := { s with y := s.y ^^^ s.z }
  let s := { s with x := s.x ^^^ s.w }
  let s := { s with z := s.z ^^^ t }
  let s := { s with w := rotl s.w 45 }
  (result, s)

/-- One bit of the long jump: `q.1` are the words `s0`, `s1`, `s2`, `s3`. -/
def longJumpBit (i b : Nat) (q : Ulonglong4 × Ulonglong4) : Ulonglong4 × Ulonglong4 :=
  let sums := if LONG_JUMP[i]! &&& (1 <<< UInt64.ofNat b) ≠ 0 then
      ⟨q.1.x ^^^ q.2.x, q.1.y ^^^ q.2.y, q.1.z ^^^ q.2.z, q.1.w ^^^ q.2.w⟩
    else q.1
  (sums, (xoshiro256Next q.2).2)

def xoshiro256LongJump (s : Ulonglong4) : Ulonglong4 :=
  (Loop.forRange 0 4 (fun i q => Loop.forRange 0 64 (longJumpBit i) q) (⟨0, 0, 0, 0⟩, s)).1

end CryptixMiner.Cuda
