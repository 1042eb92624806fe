import CryptixMiner.Lib.StridedCopy
import CryptixMiner.Target
import CryptixMiner.Pow.HeavyHash

/-! What `load_block_constants` of the OpenCL worker uploads, and the copy of it that the work-items of
    `heavy_hash` make in local memory. -/

namespace CryptixMiner.OpenCl

/-- The buffers that `load_block_constants` writes. -/
structure OpenCLGPUWorker where
  finalNonce : UInt64
  hashHeader : Bytes 72
  matrix : Bytes 4096
  target : Uint256
  experimentalAmd : Bool

/-- Two entries a byte, the first one in the upper half: `((v[0] << 4) | v[1]) as cl_uchar`. -/
def packRow (row : Bytes 64) : List UInt8 := (List.range 32).map fun t => (row[2 * t]! <<< 4) ||| row[2 * t + 1]!

def clUcharMatrix (experimentalAmd : Bool) (m : Matrix) : List UInt8 :=
  if experimentalAmd then m.rows.toList.flatMap packRow else m.rows.toList.flatMap Vector.toList

/-- `enqueue_write_buffer` at offset 0: what lies past the data stays. -/
def writeBuffer {n : Nat} (buffer : Bytes n) (data : List UInt8) : Bytes n :=
  Vector.ofFn fun k => (data[k.val]?).getD (buffer.get k)

namespace OpenCLGPUWorker

def loadBlockConstants (w : OpenCLGPUWorker) (hashHeader : Bytes 72) (m : Matrix) (target : Uint256) :
    OpenCLGPUWorker :=
  { w with
    finalNonce := 0
    hashHeader := hashHeader
    matrix := writeBuffer w.matrix (clUcharMatrix w.experimentalAmd m)
    target := target }

end OpenCLGPUWorker

/-- A work-group of `heavy_hash` up to its barrier: every work-item copies chunks of 16 bytes, with `vload16`
    and `vstore16`. -/
def workGroup (localSize : Nat) (matrix : Bytes 4096) : StridedCopy.Group UInt8 4096 where
  dim := localSize
  goesOn _ := true
  chunk := 16
  chunk_pos := by decide
  src := matrix

/-- Whatever local memory held and in whatever order the work-items copy, each of them reads the entries of
    the matrix in the bytes of it. -/
def ReadsMatrix (w : OpenCLGPUWorker) (m : Matrix) : Prop :=
  ∀ localSize, 0 < localSize → ∀ uninit s,
    StepSystem.Reachable (workGroup localSize w.matrix).step (StridedCopy.Group.start uninit) s →
    (workGroup localSize w.matrix).AtBarrier s →
    ∀ i j, i < 64 → j < 64 → s.dst[64 * i + j]! = (m.rows[i]!)[j]!

end CryptixMiner.OpenCl
