/-!
A test-and-set lock as a value.
-/

namespace ServerEntry

structure SpinLock where
  held : Bool
  deriving DecidableEq, Repr

namespace SpinLock

def unlocked : SpinLock := ⟨false⟩

/-- Takes the lock if it is free; says whether it was. -/
def tryAcquire (lock : SpinLock) : Bool × SpinLock := (!lock.held, ⟨true⟩)

/-- Takes the lock; `none` while it is held, since the caller would wait for ever. -/
def acquire? (lock : SpinLock) : Option SpinLock :=
  if lock.held then none else some ⟨true⟩

def release (_ : SpinLock) : SpinLock := unlocked

/-- A memory barrier is a round of taking and releasing the lock. -/
def barrier? (lock : SpinLock) : Option SpinLock := lock.acquire?.map release

end SpinLock

end ServerEntry
