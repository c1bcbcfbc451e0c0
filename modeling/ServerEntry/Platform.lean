import ServerEntry.Failure
import ServerEntry.SpinLock

/-!
Bringing the platform into a standard state before anything else runs.
-/

namespace ServerEntry

structure Platform where
  sockets : Bool
  crashDialogs : Bool
  barrierLock : Bool
  deriving DecidableEq, Repr

namespace Platform

def flag (value : Bool) : String := if value then "true" else "false"

def text (platform : Platform) : String :=
  "PlatformState \x7b sockets_initialized: " ++ flag platform.sockets ++
    ", crash_dialogs_suppressed: " ++ flag platform.crashDialogs ++
    ", barrier_spinlock_ready: " ++ flag platform.barrierLock ++ " \x7d"

def lockTest : String := "spinlock self-test"

/-- Tries the lock that memory barriers fall back on: it can be taken, once, and given back. -/
def testLock : Except Failure SpinLock :=
  let (first, lock) := SpinLock.unlocked.tryAcquire
  if first then
    let heldOnce := lock.held
    let (second, lock) := lock.tryAcquire
    let lock := lock.release
    if heldOnce ∧ ¬ second ∧ ¬ lock.held then
      match lock.barrier? with
      | some lock => .ok lock
      | none => .error (.platform lockTest 2)
    else .error (.platform lockTest 2)
  else .error (.platform lockTest 1)

/-- Only the lock needs work here: sockets and crash dialogs are as they should be. -/
def normalize : Except Failure (Platform × SpinLock) :=
  match testLock with
  | .ok lock => .ok (⟨false, false, true⟩, lock)
  | .error failure => .error failure

theorem normalize_eq : normalize = .ok (⟨false, false, true⟩, SpinLock.unlocked) := rfl

end Platform

end ServerEntry
