import ServerEntry.CommandLine.Mode
import ServerEntry.Log.Level

/-!
Why startup fails, how each failure reads, and how the process ends after it.
-/

namespace ServerEntry

abbrev UserId := UInt32

inductive Failure where
  /-- A step of bringing up the platform failed with a code. -/
  | platform (step : String) (code : Int32)
  /-- Neither the requested locale nor `C` could be adopted for the category with this variable. -/
  | localeAdoption (category requested : String)
  /-- Collation keys are written past the space given for them. -/
  | collationOverrun (locale : String)
  | superuser
  | administrator
  | identityMismatch
  | userLookup (user : UserId) (reason : String)
  /-- A role driver, which owns the process, gave control back. -/
  | driverReturned (mode : Mode)
  deriving DecidableEq, Repr

inductive Reporting where
  | bare
  | named
  | fatal
  | panic
  deriving DecidableEq, Repr

def Reporting.lead (program : String) : Reporting → String
  | bare => ""
  | named => program ++ ": "
  | fatal => "FATAL:  "
  | panic => "PANIC:  "

namespace Failure

def message : Failure → String
  | platform step code => step ++ " failed: " ++ toString code.toInt
  | localeAdoption category requested =>
      "could not adopt \"" ++ requested ++ "\" locale nor C locale for " ++ category
  | collationOverrun locale =>
      "strxfrm(), in locale \"" ++ locale ++ "\", writes past the specified array length"
  | superuser =>
      "\"root\" execution of the PostgreSQL server is not permitted.\n" ++
        "The server must be started under an unprivileged user ID to prevent\n" ++
        "possible system security compromise.  See the documentation for\n" ++
        "more information on how to properly start the server."
  | administrator =>
      "Execution of PostgreSQL by a user with administrative permissions is not\n" ++
        "permitted.\n" ++
        "The server must be started under an unprivileged user ID to prevent\n" ++
        "possible system security compromises.  See the documentation for\n" ++
        "more information on how to properly start the server."
  | identityMismatch => "real and effective user IDs must match"
  | userLookup user reason =>
      "could not look up effective user ID " ++ toString user.toNat ++ ": " ++ reason
  | driverReturned mode => "role driver for " ++ mode.name ++ " mode returned control"

/--
The status to exit with; `none` means the process aborts, because its state cannot be trusted.
-/
def exitCode : Failure → Option Nat
  | driverReturned _ => none
  | _ => some 1

def reporting : Failure → Reporting
  | superuser | administrator => .bare
  | platform .. | identityMismatch | userLookup .. => .named
  | localeAdoption .. | collationOverrun _ => .fatal
  | driverReturned _ => .panic

def report (program : String) (failure : Failure) : String :=
  match failure.reporting with
  | .bare => failure.message ++ "\n"
  | .named => program ++ ": " ++ failure.message ++ "\n"
  | .fatal => (Log.Entry.mk .fatal failure.message).line
  | .panic => (Log.Entry.mk .panic failure.message).line

/-- A report is the message, behind what its style puts in front, and the end of a line. -/
theorem report_eq (program : String) (failure : Failure) :
    failure.report program = failure.reporting.lead program ++ failure.message ++ "\n" := by
  rw [report]
  cases failure.reporting with
  | bare => rw [Reporting.lead, String.empty_append]
  | named => rfl
  | fatal | panic => rfl

end Failure

end ServerEntry
