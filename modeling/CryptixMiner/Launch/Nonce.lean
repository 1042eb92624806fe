import CryptixMiner.Kernel.Xoshiro256StarStar
import CryptixMiner.Launch.Block

/-! The nonce of a thread of a launch. Both kernels take it from the words that the host has put into `states`: the
    first word with the number of the thread, or a draw of the thread's own generator. -/

namespace CryptixMiner.Launch

def RANDOM_LEAN : UInt8 := 0
def RANDOM_XOSHIRO : UInt8 := 1

/-- Vector `i` of the buffer read as vectors of four words. -/
def loadState (states : Nat → UInt64) (i : Nat) : CryptixMiner.Cuda.Ulonglong4 :=
  ⟨states (4 * i), states (4 * i + 1), states (4 * i + 2), states (4 * i + 3)⟩

def storeState (states : Nat → UInt64) (i : Nat) (s : CryptixMiner.Cuda.Ulonglong4) : Nat → UInt64 := fun j =>
  if j = 4 * i then s.x else if j = 4 * i + 1 then s.y else if j = 4 * i + 2 then s.z
  else if j = 4 * i + 3 then s.w else states j

namespace Cuda

/-- The nonce of thread `gid`, and the buffer after it. -/
def drawNonce (nonceMask nonceFixed : UInt64) (randomType : UInt8) (states : Nat → UInt64) (gid : UInt64) :
    UInt64 × (Nat → UInt64) :=
  let drawn :=
    if randomType = RANDOM_LEAN then (states 0 ^^^ gid, states)
    else
      let next := CryptixMiner.Cuda.xoshiro256Next (loadState states gid.toNat)
      (next.1, storeState states gid.toNat next.2)
  ((drawn.1 &&& nonceMask) ||| nonceFixed, drawn.2)

end Cuda

namespace OpenCl
open Device

def xoshiro256NextCompat (s : CryptixMiner.Cuda.Ulonglong4) : UInt64 × CryptixMiner.Cuda.Ulonglong4 :=
  let result := rotl64 (s.y * 5) 7 * 9
  let t := s.y <<< 17
  let s := { s with z := s.z ^^^ s.x }
  let s := { s with w := s.w ^^^ s.y }
  let s := { s with y := s.y ^^^ s.z }
  let s := { s with x := s.x ^^^ s.w }
  let s := { s with z := s.z ^^^ t }
  let s := { s with w := rotl64 s.w 45 }
  (result, s)

/-- The nonce of the work-item whose global id is `gid`, a 32-bit number here. -/
def drawNonce (nonceMask nonceFixed : UInt64) (randomType : UInt8) (states : Nat → UInt64) (gid : UInt32) :
    UInt64 × (Nat → UInt64) :=
  let nonceId := gid.toUInt64
  let drawn :=
    if randomType = RANDOM_LEAN then (states 0 ^^^ nonceId, states)
    else
      let next := xoshiro256NextCompat (loadState states nonceId.toNat)
      (next.1, storeState states nonceId.toNat next.2)
  ((drawn.1 &&& nonceMask) ||| nonceFixed, drawn.2)

end OpenCl
end CryptixMiner.Launch
