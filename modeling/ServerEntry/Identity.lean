import ServerEntry.Failure

/-!
Who a process is: the name of its program, its credentials, and the name of its effective user.
-/

namespace ServerEntry

inductive Credentials where
  | unix (real effective : UserId)
  | windows (administrator : Bool)
  deriving DecidableEq, Repr

def Credentials.effectiveUser? : Credentials → Option UserId
  | .unix _ effective => some effective
  | .windows _ => none

/-- Looking up the user's name either finds it or fails for a reason. -/
structure Identity where
  program : String
  credentials : Credentials
  user : Except String String

/-- The name of the effective user, for those who cannot do without it. -/
def Identity.userName (identity : Identity) : Except Failure String :=
  match identity.user with
  | .ok name => .ok name
  | .error reason => .error (.userLookup (identity.credentials.effectiveUser?.getD 0) reason)

end ServerEntry
