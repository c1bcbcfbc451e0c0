import ServerEntry.Identity

/-!
The refusal to run with privileges.
-/

namespace ServerEntry.Privilege

/-- Refuses the superuser, a borrowed identity and an administrator. -/
def check : Credentials → Except Failure Unit
  | .unix real effective =>
      if effective = 0 then .error .superuser
      else if real ≠ effective then .error .identityMismatch
      else .ok ()
  | .windows administrator => if administrator then .error .administrator else .ok ()

def guard (invocation : Invocation) (identity : Identity) : Except Failure Unit :=
  match invocation.check with
  | .exempt => .ok ()
  | .required => check identity.credentials

end ServerEntry.Privilege
