import ServerEntry.Locale.Backend
import ServerEntry.Variables

/-!
The locales of a process: a current setting for every category, and the variables that the empty
name is looked up in.

Three names are locales: `C`, `POSIX`, which is another name for it, and `C.UTF-8`.
-/

namespace ServerEntry.Locale

structure Library where
  current : Category → String
  env : Variables

namespace Library

/-- Before any call every category has the portable locale. -/
def start (env : Variables) : Library := ⟨fun _ => portable, env⟩

/-- The variable that stands in for every category without a variable of its own. -/
def languageVariable : String := "LANG"

def resolve? (name : Bytes) : Option String :=
  if name = Text.Utf8.encode "C" ∨ name = Text.Utf8.encode "POSIX" then some portable
  else if name = Text.Utf8.encode "C.UTF-8" then some "C.UTF-8"
  else none

def nonempty? (env : Variables) (name : String) : Option Bytes :=
  (env.value? name).filter (· ≠ [])

def ambient (env : Variables) (category : Category) : Bytes :=
  ((nonempty? env overrideVariable).or
    ((nonempty? env category.variableName).or
      (nonempty? env languageVariable))).getD (Text.Utf8.encode portable)

def wanted (library : Library) (category : Category) (locale : String) : Bytes :=
  if locale = "" then ambient library.env category else Text.Utf8.encode locale

/-- Adopts a locale for a category and exports it; a name with a NUL in it is no locale's. -/
def adopt (category : Category) (locale : String) (library : Library) :
    Option String × Library :=
  match resolve? (library.wanted category locale) with
  | none => (none, library)
  | some resolved =>
      (some resolved,
        { current := fun other => if other = category then resolved else library.current other
          env := library.env.assign category.variableName (Text.Utf8.encode resolved) })

/-- The process's locales as a backend; collation keys keep to their space. -/
def backend : Backend Library where
  adopt := adopt
  read name library := (library.env.text? name, library)
  remove name library := { library with env := library.env.remove name }
  overrun? library := (none, library)

end Library

end ServerEntry.Locale
