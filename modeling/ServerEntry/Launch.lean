import ServerEntry.CommandLine.ProgramName
import ServerEntry.HandOff
import ServerEntry.Install.ServiceDirectories
import ServerEntry.Locale.Library
import ServerEntry.Log.Logger
import ServerEntry.Platform
import ServerEntry.Startup
import ServerEntry.StatusDisplay

/-!
A whole process, from its command line and environment to its end.
-/

namespace ServerEntry

structure Host where
  /-- The directory the running program is in, if it can be found out. -/
  directory : Option Bytes
  credentials : Credentials
  /-- The name of a user, or the reason why there is none. -/
  userName : UserId → Except String String
  execute : Executor

def Host.identity (host : Host) (program : String) : Identity where
  program := program
  credentials := host.credentials
  user := host.userName (host.credentials.effectiveUser?.getD 0)

namespace Launch

inductive Ending where
  | exited (status : Nat)
  | aborted
  | crashed
  | replaced (image : Image)

/-- How a process ended, and what it has written to its output and its error output. -/
structure Outcome where
  ending : Ending
  out : Bytes
  written : String

/-- A process before its startup sequence: the logger, the variables, and the error output. -/
structure Preparation where
  logger : Log.Logger
  env : Variables
  written : String

namespace Preparation

def begin (env : Variables) : Preparation := ⟨.fresh, env, ""⟩

def raw (preparation : Preparation) (text : String) : Preparation :=
  { preparation with written := preparation.written ++ text }

def log (preparation : Preparation) (entries : List Log.Entry) : Preparation :=
  preparation.raw (preparation.logger.emitAll entries)

def startLogger (preparation : Preparation) : Preparation :=
  let (logger, complaint) :=
    Log.Logger.start (preparation.env.value? Log.Logger.levelVariable)
  { preparation.raw complaint with logger }

def missingDirectories (preparation : Preparation) (host : Host) (build : Build) :
    List (String × Bytes) :=
  ServiceDirectories.missing preparation.env host.directory build.localizes

def exportDirectories (preparation : Preparation) (assignments : List (String × Bytes)) :
    Preparation :=
  { preparation with
    env := ServiceDirectories.install preparation.env assignments }

end Preparation

def exportEntry (assignment : String × Bytes) : Log.Entry :=
  ⟨.debug, assignment.1 ++ " set to \"" ++ Text.Utf8.decodeLossy assignment.2 ++ "\""⟩

/-- Drivers that replace the process by the programs of the roles. -/
def drivers (host : Host) : Drivers Locale.Library HandOff.Departure :=
  fun call library =>
    (.ended (HandOff.depart host.execute host.directory call library.env), library)

def fail (preparation : Preparation) (program : String) (failure : Failure) (out : Bytes) :
    Outcome :=
  let written := (preparation.raw (failure.report program)).written
  match failure.exitCode with
  | some status => ⟨.exited status, out, written⟩
  | none => ⟨.aborted, out, written⟩

def depart (preparation : Preparation) (program : String) (departure : HandOff.Departure)
    (out : Bytes) : Outcome :=
  let preparation := preparation.log [departure.announcement]
  let giveUp := fun refusal =>
    Outcome.mk (.exited 1) out
      (preparation.raw (departure.complaint program refusal)).written
  match departure.replacement with
  | .done image => ⟨.replaced image, out, preparation.written⟩
  | .failed _ error => giveUp (.system error)
  | .refused refusal => giveUp refusal
  | .crashed _ => ⟨.crashed, out, preparation.written⟩

def conclude (preparation : Preparation) (program : String) (stop : Stop HandOff.Departure)
    (out : Bytes) : Outcome :=
  match stop with
  | .exit status => ⟨.exited status, out, preparation.written⟩
  | .failed failure => fail preparation program failure out
  | .ended departure => depart preparation program departure out

def start (preparation : Preparation) (host : Host) (build : Build) (arguments : Arguments)
    (identity : Identity) : Outcome :=
  let run := Startup.run Locale.Library.backend (drivers host) build arguments identity
    Sink.unlimited (Locale.Library.start preparation.env)
  conclude (preparation.log run.log) identity.program run.stop run.out.taken

/-- Hands the process to the driver of a mode without a startup sequence. -/
def startMode (preparation : Preparation) (host : Host) (mode : Mode) (arguments : Arguments)
    (identity : Identity) : Outcome :=
  let (stop, _) := dispatch (drivers host) mode arguments identity
    (Locale.Library.start preparation.env)
  conclude preparation identity.program stop []

def run (host : Host) (build : Build) (arguments : Arguments) (env : Variables) : Outcome :=
  let program := ProgramName.ofPath (arguments.head?.map Text.Utf8.decodeLossy) false
  let preparation := Preparation.begin env
  match Platform.normalize with
  | .error failure => fail preparation program failure []
  | .ok (platform, _) =>
      let (arguments, _) := StatusDisplay.empty.keep arguments
      let preparation := preparation.startLogger
      let preparation := preparation.log [⟨.debug, "platform: " ++ platform.text⟩]
      let directories := preparation.missingDirectories host build
      let preparation := preparation.exportDirectories directories
      let preparation := preparation.log (directories.map exportEntry)
      start preparation host build arguments (host.identity program)

end Launch

end ServerEntry
