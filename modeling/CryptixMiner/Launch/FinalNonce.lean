import CryptixMiner.Lib.StepSystem
import Mathlib.Logic.Function.Basic

/-! The result cell of a kernel launch. Every thread or work-item has its nonce and its verdict, and the
    steps of all of them on `final_nonce` interleave in any order. The host reads the cell once all are
    done, and takes 0 for nothing found. -/

namespace CryptixMiner.Launch
open StepSystem

/-- What the threads of a launch compute, whatever their order: the nonce of each, and whether its hash
    meets the target. -/
structure Assignment where
  threads : Nat
  nonce : Nat → UInt64
  meets : Nat → Bool

/-- The cell, and the next step of each thread. -/
structure State (Pc : Type) where
  finalNonce : UInt64
  pc : Nat → Pc

section
variable {Pc : Type} {s : State Pc} {gid g : Nat} {pc : Pc}

def State.goTo (s : State Pc) (gid : Nat) (pc : Pc) : State Pc := { s with pc := Function.update s.pc gid pc }

@[simp] theorem State.goTo_pc : (s.goTo gid pc).pc g = if g = gid then pc else s.pc g := Function.update_apply ..

theorem State.pc_of_lt_two (h0 : s.pc 0 = pc) (h1 : s.pc 1 = pc) : ∀ g, g < 2 → s.pc g = pc
  | 0, _ => h0
  | 1, _ => h1

end

/-! ### CUDA -/

namespace Cuda

/-- The next step of a thread of `heavy_hash`. -/
inductive Pc where
  | entry
  | hash
  | cas
  | done
  deriving DecidableEq

/-- `calculate_hash` sets the cell to 0. -/
def start : State Pc := { finalNonce := 0, pc := fun _ => .entry }

/-- `atomicCAS(final_nonce, 0, nonce)`. -/
def atomicCas (finalNonce nonce : UInt64) : UInt64 := if finalNonce = 0 then nonce else finalNonce

def step (l : Assignment) (noncesLen : Nat) (s : State Pc) (gid : Nat) : Option (State Pc) :=
  if gid < l.threads then
    match s.pc gid with
    | .entry => some (s.goTo gid (if gid ≥ noncesLen ∨ s.finalNonce ≠ 0 then .done else .hash))
    | .hash => some (s.goTo gid (if l.meets gid then .cas else .done))
    | .cas => some { s.goTo gid .done with finalNonce := atomicCas s.finalNonce (l.nonce gid) }
    | .done => none
  else none

end Cuda

/-! ### OpenCL -/

namespace OpenCl

/-- The next step of a work-item of `heavy_hash`. -/
inductive Pc where
  | entry
  | hash
  | test
  | store
  | done
  deriving DecidableEq

/-- `load_block_constants` writes 0 to the cell. -/
def start : State Pc := { finalNonce := 0, pc := fun _ => .entry }

def step (l : Assignment) (s : State Pc) (gid : Nat) : Option (State Pc) :=
  if gid < l.threads then
    match s.pc gid with
    | .entry => some { s.goTo gid .hash with finalNonce := if gid = 0 then 0 else s.finalNonce }
    | .hash => some (s.goTo gid (if l.meets gid then .test else .done))
    -- The test and the store are two accesses to global memory that nothing holds together.
    | .test => some (s.goTo gid (if s.finalNonce = 0 then .store else .done))
    | .store => some { s.goTo gid .done with finalNonce := l.nonce gid }
    | .done => none
  else none

end OpenCl
end CryptixMiner.Launch
