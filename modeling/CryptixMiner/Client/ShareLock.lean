import CryptixMiner.Lib.TryLock

/-! The three users of `shares_pending`. Each takes the lock with `try_lock().unwrap()` and runs in a task of
    its own: the submission task inserts, the message handler removes, the logger counts. -/

namespace CryptixMiner.Stratum

inductive Task where
  | submission
  | handler
  | logger
  deriving DecidableEq, Repr

/-- What is done while a guard is held. -/
inductive LockedWork where
  | insert
  | remove
  | countAccepted
  | unwrapJob
  | len
  | writeFmt
  deriving DecidableEq, Repr

/-- The replies that reach the lock. -/
inductive LockingReply where
  | accepted
  | error
  deriving DecidableEq, Repr

/-- The guard of an `if let` lives to the end of its `else`; that of the block `{ .. }.unwrap()`, to the end of
    the `let`. -/
def LockingReply.underGuard : LockingReply → List LockedWork
  | .accepted => [.remove, .countAccepted]
  | .error => [.remove, .unwrapJob]

/-- How often each task comes to the lock. -/
structure LockUses where
  shares : Nat
  replies : List LockingReply
  ticks : Nat

namespace LockUses

/-- The guard of `create_block_channel` lives for its statement, that of `Display` to the end of `write!`. -/
def sections (uses : LockUses) : Task → List (List LockedWork)
  | .submission => List.replicate uses.shares [.insert]
  | .handler => uses.replies.map LockingReply.underGuard
  | .logger => List.replicate uses.ticks [.len, .writeFmt]

/-- Whatever the interleaving, no `try_lock` finds the lock taken. -/
def LockAlwaysFree (uses : LockUses) : Prop := TryLock.NeverFails uses.sections

end LockUses
end CryptixMiner.Stratum
