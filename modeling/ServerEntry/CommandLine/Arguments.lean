import ServerEntry.Text.Utf8

/-!
The argument vector a process was started with, program name first, and its views as text.

The vector itself is never altered: what is handed on is the bytes that came in.
-/

namespace ServerEntry

abbrev Arguments := List Bytes

namespace Arguments

/-- The argument at an index as text; `none` if there is none or its bytes are no text. -/
def text? (arguments : Arguments) (index : Nat) : Option String :=
  arguments[index]?.bind Text.Utf8.decode?

def afterProgram (arguments : Arguments) : List Bytes := arguments.drop 1

/-- What follows the first argument, which selects the mode. -/
def afterSelector (arguments : Arguments) : List Bytes := arguments.drop 2

/-- The command line as a status display shows it: lossy text, joined by single spaces. -/
def display (arguments : Arguments) : String :=
  String.ofList <| List.intercalate [' '] <|
    arguments.map fun argument => (Text.Utf8.decodeLossy argument).toList

end Arguments

end ServerEntry
