import ServerEntry.Failure
import ServerEntry.Text.Utf8

/-!
The startup logger: a minimum level, and whether messages carry their level as a tag.

A logger starts out untagged and is switched over once the environment has been asked for a minimum
level.  Messages below the minimum are dropped, except that a fatal one is always written; raw text
is written whatever the logger's state.
-/

namespace ServerEntry.Log

structure Logger where
  minimum : Level
  tagged : Bool
  deriving DecidableEq, Repr

namespace Logger

def defaultMinimum : Level := .warning

def levelVariable : String := "POSTGRES_STARTUP_LOG_LEVEL"

def fresh : Logger := ⟨defaultMinimum, false⟩

/-- The minimum is kept as a byte, and read back for every message. -/
def setMinimum (logger : Logger) (level : Level) : Logger :=
  { logger with minimum := .ofCode level.code }

def passes (minimum : Level) (entry : Entry) : Bool :=
  ¬ (entry.level < minimum ∧ entry.level < .fatal)

theorem passes_iff {minimum : Level} {entry : Entry} :
    passes minimum entry ↔ ¬ (entry.level < minimum ∧ entry.level < .fatal) :=
  decide_eq_true_iff

theorem passes_iff_le {minimum : Level} {entry : Entry} :
    passes minimum entry ↔ minimum ≤ entry.level ∨ .fatal ≤ entry.level := by
  rw [passes_iff, Decidable.not_and_iff_not_or_not]
  exact or_congr Nat.not_lt Nat.not_lt

def emit (logger : Logger) (entry : Entry) : String :=
  if passes logger.minimum entry then
    if logger.tagged then entry.line else entry.message ++ "\n"
  else ""

def emitAll (logger : Logger) (entries : List Entry) : String :=
  String.join (entries.map logger.emit)

theorem emitAll_append (logger : Logger) (entries others : List Entry) :
    logger.emitAll (entries ++ others) = logger.emitAll entries ++ logger.emitAll others := by
  simp [emitAll]

/-- Messages are written whole and in their order, each of them or none of it. -/
theorem emitAll_eq_join (logger : Logger) (entries : List Entry) :
    logger.emitAll entries =
      String.join ((entries.filter (passes logger.minimum)).map fun entry =>
        if logger.tagged then entry.line else entry.message ++ "\n") := by
  induction entries with
  | nil => rfl
  | cons entry entries ih =>
      unfold emitAll at ih ⊢
      cases heard : passes logger.minimum entry <;> simp [emit, heard, ih]

def ignoring (value : String) : String :=
  "WARNING:  ignoring environment variable setting " ++ levelVariable ++ "=" ++ value ++
    ": not a valid log level\n"

/-- The minimum level that a value asks for, and what is written about it. -/
def minimumFrom (value : Option String) : Level × String :=
  match value with
  | none => (defaultMinimum, "")
  | some text =>
      match Level.parse? text with
      | some level => (level, "")
      | none => (defaultMinimum, ignoring text)

/-- Takes the minimum level from a variable's value and tags from now on. -/
def start (value : Option Bytes) : Logger × String :=
  let (minimum, written) := minimumFrom (value.bind Text.Utf8.decode?)
  ({ fresh.setMinimum minimum with tagged := true }, written)

inductive Step where
  | setMinimum (level : Level)
  | emit (entry : Entry)
  | raw (text : String)
  | start (value : Option Bytes)
  | report (program : String) (failure : Failure)
  deriving DecidableEq, Repr

def step (logger : Logger) : Step → Logger × String
  | .setMinimum level => (logger.setMinimum level, "")
  | .emit entry => (logger, logger.emit entry)
  | .raw text => (logger, text)
  | .start value => Logger.start value
  | .report program failure => (logger, failure.report program)

def run (logger : Logger) : List Step → Logger × List String
  | [] => (logger, [])
  | step :: steps =>
      let (next, written) := logger.step step
      let (last, rest) := next.run steps
      (last, written :: rest)

end Logger

end ServerEntry.Log
