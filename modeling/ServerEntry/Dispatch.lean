import ServerEntry.Install.Role
import ServerEntry.Session

/-!
Handing the process over to the driver of a role.

A driver owns the process: it is not expected to return, and if it does the startup has failed.
-/

namespace ServerEntry

inductive DriverCall where
  | supervisor (arguments : Arguments)
  | singleSession (arguments : Arguments) (target : SessionTarget)
  | bootstrap (arguments : Arguments)
  | describeConfig (arguments : Arguments)
  | forkedWorker (arguments : Arguments)
  deriving DecidableEq, Repr

namespace DriverCall

def role : DriverCall → Role
  | supervisor _ => .supervisor
  | singleSession .. => .singleSession
  | bootstrap _ => .bootstrap
  | describeConfig _ => .describeConfig
  | forkedWorker _ => .forkedWorker

def arguments : DriverCall → Arguments
  | supervisor arguments | singleSession arguments _ | bootstrap arguments
  | describeConfig arguments | forkedWorker arguments => arguments

def target? : DriverCall → Option SessionTarget
  | singleSession _ target => some target
  | _ => none

/-- The call that a mode stands for; help and version stand for none. -/
def ofMode (mode : Mode) (arguments : Arguments) (identity : Identity) :
    Except Failure (Option DriverCall) :=
  match mode with
  | .forkedWorker => .ok (some (.forkedWorker arguments))
  | .bootstrapLoad => .ok (some (.bootstrap arguments))
  | .describeConfig => .ok (some (.describeConfig arguments))
  | .supervisor => .ok (some (.supervisor arguments))
  | .singleSession =>
      match SessionTarget.resolve arguments identity with
      | .ok target => .ok (some (.singleSession arguments target))
      | .error failure => .error failure
  | .showHelp | .showVersion => .ok none

end DriverCall

inductive DriverReply (ε : Type) where
  | ended (ending : ε)
  | returned

abbrev Drivers (σ ε : Type) := DriverCall → σ → DriverReply ε × σ

inductive Stop (ε : Type) where
  | exit (status : Nat)
  | failed (failure : Failure)
  | ended (ending : ε)

def dispatch {σ ε : Type} (drivers : Drivers σ ε) (mode : Mode) (arguments : Arguments)
    (identity : Identity) (state : σ) : Stop ε × σ :=
  match DriverCall.ofMode mode arguments identity with
  | .error failure => (.failed failure, state)
  | .ok none => (.failed (.driverReturned mode), state)
  | .ok (some call) =>
      match drivers call state with
      | (.ended ending, state) => (.ended ending, state)
      | (.returned, state) => (.failed (.driverReturned mode), state)

end ServerEntry
