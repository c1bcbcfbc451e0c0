import ServerEntry.CommandLine.Operands
import ServerEntry.Identity

/-!
What a single-user session works on.
-/

namespace ServerEntry

structure SessionTarget where
  database : Bytes
  /-- The command line named the database; otherwise it goes by the user's name. -/
  explicit : Bool
  /-- The session belongs to the effective user. -/
  user : String
  deriving DecidableEq, Repr

namespace SessionTarget

/-- The variables through which the target reaches the single-user program. -/
def userVariable : String := "POSTGRES_SESSION_USER"

def databaseVariable : String := "POSTGRES_SESSION_DATABASE"

/-- The target for a user and a command line whose first argument selects the single-user mode. -/
def ofUser (arguments : Arguments) (user : String) : SessionTarget :=
  match Operands.database? arguments.afterSelector with
  | some database => ⟨database, true, user⟩
  | none => ⟨Text.Utf8.encode user, false, user⟩

def resolve (arguments : Arguments) (identity : Identity) : Except Failure SessionTarget :=
  match identity.userName with
  | .ok user => .ok (ofUser arguments user)
  | .error failure => .error failure

def assignments (target : SessionTarget) : List (String × Bytes) :=
  [(userVariable, Text.Utf8.encode target.user), (databaseVariable, target.database)]

end SessionTarget

end ServerEntry
