import ServerEntry.Dispatch
import ServerEntry.Log.Level
import ServerEntry.Variables

/-!
Replacing the process by the program of a role.

The program gets the command line as it came in.  Everything that could stop the replacement is
checked before the environment is touched; the system may still refuse, and then the process goes
on as it was.
-/

namespace ServerEntry

/-- An error of the operating system: its symbol and what it means. -/
structure SystemError where
  symbol : String
  meaning : String
  deriving DecidableEq, Repr

namespace SystemError

def message (error : SystemError) : String := error.symbol ++ ": " ++ error.meaning

def noEntry : SystemError := ⟨"ENOENT", "No such file or directory"⟩

def accessDenied : SystemError := ⟨"EACCES", "Permission denied"⟩

def notDirectory : SystemError := ⟨"ENOTDIR", "Not a directory"⟩

def nameTooLong : SystemError := ⟨"ENAMETOOLONG", "File name too long"⟩

def unsupported : SystemError := ⟨"ENOSYS", "Function not implemented"⟩

end SystemError

structure Image where
  program : Bytes
  arguments : Arguments
  env : Variables
  deriving DecidableEq, Repr

/-- How a system answers to starting an image: with an error, unless the image takes over. -/
abbrev Executor := Image → Option SystemError

namespace HandOff

def nul? (bytes : Bytes) : Option Nat := bytes.findIdx? (· == 0)

inductive Refusal where
  | nulInProgram (position : Nat)
  | nulInArgument (position : Nat)
  | system (error : SystemError)
  deriving DecidableEq, Repr

def nulMessage (what : String) (position : Nat) : String :=
  what ++ " contains a NUL byte: nul byte found in provided data at position: " ++ toString position

def Refusal.message : Refusal → String
  | nulInProgram position => nulMessage "program path" position
  | nulInArgument position => nulMessage "argument" position
  | system error => error.message

inductive Replacement where
  | done (image : Image)
  | failed (image : Image) (error : SystemError)
  /-- Refused before anything was done. -/
  | refused (refusal : Refusal)
  /-- A variable could not be set, so the process crashed. -/
  | crashed (name : String)
  deriving DecidableEq, Repr

/-- The command line a program is started with: never empty. -/
def startArguments (program : Bytes) (arguments : Arguments) : Arguments :=
  if arguments = [] then [program] else arguments

/-- What is done to a process on the way to its replacement; setting a variable may crash it. -/
inductive Deed where
  | assign (name : String) (value : Bytes)
  | execute (image : Image)
  deriving DecidableEq, Repr

/-- Sets variables in turn, up to the first that no record can hold, and lists what was tried. -/
def assignAll : List (String × Bytes) → Variables → Except String Variables × List Deed
  | [], env => (.ok env, [])
  | (name, value) :: rest, env =>
      if Variables.canHold name value then
        let (result, deeds) := assignAll rest (env.assign name value)
        (result, .assign name value :: deeds)
      else (.error name, [.assign name value])

def attempt (execute : Executor) (program : Bytes) (arguments : Arguments)
    (assignments : List (String × Bytes)) (env : Variables) : Replacement × List Deed :=
  match nul? program with
  | some position => (.refused (.nulInProgram position), [])
  | none =>
      match arguments.findSome? nul? with
      | some position => (.refused (.nulInArgument position), [])
      | none =>
          match assignAll assignments env with
          | (.error name, deeds) => (.crashed name, deeds)
          | (.ok env, deeds) =>
              let image := ⟨program, startArguments program arguments, env⟩
              match execute image with
              | none => (.done image, deeds ++ [.execute image])
              | some error => (.failed image error, deeds ++ [.execute image])

def replace (execute : Executor) (program : Bytes) (arguments : Arguments)
    (assignments : List (String × Bytes)) (env : Variables) : Replacement :=
  (attempt execute program arguments assignments env).1

structure Departure where
  role : Role
  program : Bytes
  replacement : Replacement
  deriving DecidableEq, Repr

namespace Departure

def announcement (departure : Departure) : Log.Entry :=
  ⟨.debug, "handing off to " ++ departure.role.title ++ " program \"" ++
    Text.Utf8.decodeLossy departure.program ++ "\""⟩

def complaint (departure : Departure) (name : String) (refusal : Refusal) : String :=
  name ++ ": could not execute " ++ departure.role.title ++ " program \"" ++
    Text.Utf8.decodeLossy departure.program ++ "\": " ++ refusal.message ++ "\n"

end Departure

def assignments (call : DriverCall) : List (String × Bytes) :=
  (call.target?.map SessionTarget.assignments).getD []

/-- Hands the process over for a driver call, from a directory where the programs are installed. -/
def depart (execute : Executor) (directory : Option Bytes) (call : DriverCall)
    (env : Variables) : Departure :=
  let program := call.role.program (env.value? call.role.overrideVariable) directory
  ⟨call.role, program, replace execute program call.arguments (assignments call) env⟩

end HandOff

end ServerEntry
