import ServerEntry.Text.Fields

/-!
File names as byte strings, and their components.

Repeated and trailing slashes vanish from the components, and so does `.` except at the very start
of a relative name; `..` stays.
-/

namespace ServerEntry.Path

def slash : UInt8 := 0x2F

def dot : UInt8 := 0x2E

inductive Component where
  | root
  /-- A leading `.` of a relative name. -/
  | here
  | parent
  | name (bytes : Bytes)
  deriving DecidableEq, Repr

def Component.bytes : Component → Bytes
  | root => [slash]
  | here => [dot]
  | parent => [dot, dot]
  | name bytes => bytes

/-- The stretches between the slashes, empty ones included. -/
def split (path : Bytes) : List Bytes := Text.fields slash path

/-- What a stretch means behind the start of a name; `none` for one that means nothing. -/
def inner? (part : Bytes) : Option Component :=
  if part = [] ∨ part = [dot] then none
  else if part = [dot, dot] then some .parent
  else some (.name part)

def components (path : Bytes) : List Component :=
  match split path with
  | [] => []
  | first :: parts =>
      let start : List Component :=
        if first = [] then (if parts = [] then [] else [.root])
        else if first = [dot] then [.here]
        else (inner? first).toList
      start ++ parts.filterMap inner?

def isAbsolute (path : Bytes) : Bool := path.head? = some slash

/-- Goes on from a directory to a further name; an absolute name replaces the directory. -/
def push (directory further : Bytes) : Bytes :=
  if isAbsolute further then further
  else if directory = [] ∨ directory.getLast? = some slash then directory ++ further
  else directory ++ slash :: further

def ofComponents (parts : List Component) : Bytes :=
  parts.foldl (fun path part => push path part.bytes) []

end ServerEntry.Path
