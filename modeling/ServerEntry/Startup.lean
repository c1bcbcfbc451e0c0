import ServerEntry.CommandLine.Usage
import ServerEntry.Dispatch
import ServerEntry.Install.Build
import ServerEntry.Locale.Negotiation
import ServerEntry.Privilege
import ServerEntry.Sink

/-!
The startup sequence: locales, the command line, help and version, the privilege check, the role.

Help and version are answered before the privilege check, so anyone may ask for them.  The
messages of a run are listed whatever level a logger lets through.
-/

namespace ServerEntry

variable {σ τ ε : Type}

namespace Startup

structure Run (σ τ ε : Type) where
  stop : Stop ε
  log : List Log.Entry
  out : τ
  state : σ

def invocationEntries (arguments : Arguments) (invocation : Invocation) : List Log.Entry :=
  [⟨.debug, "invoked as: " ++ arguments.display⟩,
   ⟨.debug, "selected " ++ invocation.mode.name ++ " mode, privilege check " ++
      invocation.check.name⟩]

def writeEntries (subject : String) : Except WriteError Unit → List Log.Entry
  | .ok () => []
  | .error failure => [⟨.log, "could not write " ++ subject ++ ": " ++ failure.message⟩]

/-- Writes a text and exits; an output that refuses it changes the log but not the status. -/
def inform [Output τ] (subject : String) (text : List String) (log : List Log.Entry) (out : τ)
    (state : σ) : Run σ τ ε :=
  let (result, out) := Output.writeText text out
  ⟨.exit 0, log ++ writeEntries subject result, out, state⟩

def proceed [Output τ] (drivers : Drivers σ ε) (build : Build) (arguments : Arguments)
    (identity : Identity) (log : List Log.Entry) (out : τ) (state : σ) : Run σ τ ε :=
  let invocation := Invocation.classify build.reexecutes arguments
  let log := log ++ invocationEntries arguments invocation
  match invocation.mode with
  | .showHelp => inform "help text" (Usage.help identity.program build.encrypts) log out state
  | .showVersion => inform "version" Usage.version log out state
  | mode =>
      match Privilege.guard invocation identity with
      | .error failure => ⟨.failed failure, log, out, state⟩
      | .ok () =>
          let (stop, state) := dispatch drivers mode arguments identity state
          ⟨stop, log, out, state⟩

def run [Output τ] (backend : Locale.Backend σ) (drivers : Drivers σ ε) (build : Build)
    (arguments : Arguments) (identity : Identity) (out : τ) (state : σ) : Run σ τ ε :=
  let negotiation := Locale.negotiate backend false state
  match negotiation.failure with
  | some failure => ⟨.failed failure, negotiation.notices, out, negotiation.state⟩
  | none =>
      let log := negotiation.notices ++ negotiation.settings.map Locale.Setting.announcement
      proceed drivers build arguments identity log out negotiation.state

inductive Event where
  | locale (call : Locale.Call)
  | driver (call : DriverCall)
  deriving DecidableEq, Repr

def returningDrivers : Drivers (σ × List Event) ε :=
  fun call state => (.returned, state.1, state.2 ++ [.driver call])

/-- Runs the startup sequence with drivers that return, and lists what was asked, in order. -/
def rehearse [Output τ] (backend : Locale.Backend σ) (build : Build) (arguments : Arguments)
    (identity : Identity) (out : τ) (state : σ) : Run (σ × List Event) τ Empty :=
  run (backend.recorded .locale) returningDrivers build arguments identity out (state, [])

end Startup

end ServerEntry
