import ServerEntry.Text.Blank

/-!
Severities of startup messages, lowest first, and the messages themselves.
-/

namespace ServerEntry.Log

inductive Level where
  | debug
  | log
  | info
  | notice
  | warning
  | error
  | fatal
  | panic
  deriving DecidableEq, Repr

namespace Level

def all : List Level :=
  [.debug, .log, .info, .notice, .warning, .error, .fatal, .panic]

def rank : Level → Nat
  | .debug => 0
  | .log => 1
  | .info => 2
  | .notice => 3
  | .warning => 4
  | .error => 5
  | .fatal => 6
  | .panic => 7

instance : LT Level := ⟨fun a b => a.rank < b.rank⟩

instance : LE Level := ⟨fun a b => a.rank ≤ b.rank⟩

instance (a b : Level) : Decidable (a < b) := inferInstanceAs (Decidable (a.rank < b.rank))

instance (a b : Level) : Decidable (a ≤ b) := inferInstanceAs (Decidable (a.rank ≤ b.rank))

instance : Ord Level := ⟨fun a b => compare a.rank b.rank⟩

theorem mem_all (level : Level) : level ∈ all := by
  cases level <;> decide

def code (level : Level) : UInt8 := UInt8.ofNat level.rank

/-- Reads a byte that a level was kept as; every byte past the levels is a panic. -/
def ofCode (code : UInt8) : Level :=
  match code.toNat with
  | 0 => .debug
  | 1 => .log
  | 2 => .info
  | 3 => .notice
  | 4 => .warning
  | 5 => .error
  | 6 => .fatal
  | _ => .panic

@[simp] theorem ofCode_code (level : Level) : ofCode level.code = level := by
  cases level <;> rfl

def name : Level → String
  | .debug => "DEBUG"
  | .log => "LOG"
  | .info => "INFO"
  | .notice => "NOTICE"
  | .warning => "WARNING"
  | .error => "ERROR"
  | .fatal => "FATAL"
  | .panic => "PANIC"

def folded (level : Level) : List Char := level.name.toList.map Char.toLower

/-- Reads a level's name; blanks around it and the case of ASCII letters do not matter. -/
def parse? (text : String) : Option Level :=
  let word := (Text.trim text.toList).map Char.toLower
  all.find? fun level => level.folded = word

end Level

structure Entry where
  level : Level
  message : String
  deriving DecidableEq, Repr

/-- One message on a line of its own, tagged with its level. -/
def Entry.line (entry : Entry) : String :=
  entry.level.name ++ ":  " ++ entry.message ++ "\n"

end ServerEntry.Log
