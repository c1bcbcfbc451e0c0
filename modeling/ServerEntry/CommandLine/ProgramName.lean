/-!
The name a program goes by in its messages, taken from the path it was started with.
-/

namespace ServerEntry.ProgramName

/-- Used when the path ends in a separator or there is none. -/
def fallback : String := "postgres"

/-- What follows the last occurrence of a separator; everything if there is none. -/
def afterLast (separator : Char) (path : List Char) : List Char :=
  (path.reverse.takeWhile (· != separator)).reverse

/-- The last component of a path; both slashes separate. -/
def lastName (path : String) : String :=
  String.ofList (afterLast '\\' (afterLast '/' path.toList))

def executableSuffix : List Char := ['.', 'e', 'x', 'e']

/-- Drops a final `.exe`, in any ASCII case, unless nothing would be left. -/
def stripSuffix (name : String) : String :=
  let letters := name.toList
  let kept := letters.length - executableSuffix.length
  if 0 < kept ∧ (letters.drop kept).map Char.toLower = executableSuffix then
    String.ofList (letters.take kept)
  else name

/-- The program name shown for a start path; only Windows programs drop the suffix. -/
def ofPath (path : Option String) (windows : Bool) : String :=
  let base := lastName (path.getD "")
  let base := if windows then stripSuffix base else base
  if base = "" then fallback else base

end ServerEntry.ProgramName
