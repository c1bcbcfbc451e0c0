import ServerEntry.CommandLine.Arguments

/-!
What a command line asks the server program to become.

The first argument alone selects the mode.  Whether the privilege check may be skipped is a second,
independent reading of the whole vector.
-/

namespace ServerEntry

inductive Mode where
  | showHelp
  | showVersion
  | describeConfig
  | forkedWorker
  | bootstrapLoad
  | singleSession
  | supervisor
  deriving DecidableEq, Repr

inductive PrivilegeCheck where
  | required
  | exempt
  deriving DecidableEq, Repr

/-- What was read off a command line; `residual` is what follows the first argument. -/
structure Invocation where
  mode : Mode
  check : PrivilegeCheck
  residual : List Bytes
  deriving DecidableEq, Repr

namespace Mode

def all : List Mode :=
  [.showHelp, .showVersion, .describeConfig, .forkedWorker, .bootstrapLoad, .singleSession,
   .supervisor]

def name : Mode → String
  | .showHelp => "ShowHelp"
  | .showVersion => "ShowVersion"
  | .describeConfig => "DescribeConfig"
  | .forkedWorker => "ForkedWorker"
  | .bootstrapLoad => "BootstrapLoad"
  | .singleSession => "SingleSession"
  | .supervisor => "Supervisor"

/-- What the first argument of a re-executed child begins with. -/
def forkMark : String := "--fork"

/--
The mode that a first argument selects.  `none` stands for an argument that is missing or no text.
A fork mark counts only in a build that re-executes itself for its children.
-/
def select (reexecutes : Bool) : Option String → Mode
  | none => .supervisor
  | some first =>
      if first = "--help" ∨ first = "-?" then .showHelp
      else if first = "--version" ∨ first = "-V" then .showVersion
      else if reexecutes ∧ forkMark.toList.isPrefixOf first.toList then .forkedWorker
      else if first = "--boot" then .bootstrapLoad
      else if first = "--describe-config" then .describeConfig
      else if first = "--single" then .singleSession
      else .supervisor

end Mode

namespace PrivilegeCheck

def name : PrivilegeCheck → String
  | .required => "Required"
  | .exempt => "Exempt"

/--
Describing the configuration is exempt wherever it is asked for; showing one parameter is exempt
only as the first argument, with something after it.
-/
def ofArguments (arguments : Arguments) : PrivilegeCheck :=
  let describes := ∃ argument ∈ arguments.afterProgram,
    Text.Utf8.decode? argument = some "--describe-config"
  let shows := 2 < arguments.length ∧ arguments.text? 1 = some "-C"
  if describes ∨ shows then .exempt else .required

end PrivilegeCheck

def Invocation.classify (reexecutes : Bool) (arguments : Arguments) : Invocation where
  mode := Mode.select reexecutes (arguments.text? 1)
  check := PrivilegeCheck.ofArguments arguments
  residual := arguments.afterSelector

end ServerEntry
