import ServerEntry.CommandLine.Arguments

/-!
The command line kept for the status display of the process.
-/

namespace ServerEntry

structure StatusDisplay where
  kept : Option Arguments
  deriving DecidableEq, Repr

namespace StatusDisplay

def empty : StatusDisplay := ⟨none⟩

/-- Keeps a command line unless one is kept already; answers with the one that is kept. -/
def keep (display : StatusDisplay) (arguments : Arguments) : Arguments × StatusDisplay :=
  let kept := display.kept.getD arguments
  (kept, ⟨some kept⟩)

end StatusDisplay

end ServerEntry
