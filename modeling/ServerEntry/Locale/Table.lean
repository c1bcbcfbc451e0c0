import ServerEntry.Environment
import ServerEntry.Locale.Backend

/-!
A locale backend that answers from a table and keeps its variables in memory.
-/

namespace ServerEntry.Locale

structure Table where
  /-- The locales there are; `none` if every name is one. -/
  known : Option (List String)
  /-- Locales rejected for the category with a variable of the given name, by the name asked for. -/
  rejected : List (String × String)
  /-- What the empty name stands for. -/
  ambient : String
  /-- Locales that resolve to another name. -/
  aliases : Environment String String
  /-- Collation keys keep to their space. -/
  sound : Bool

namespace Table

def wanted (table : Table) (locale : String) : String :=
  if locale = "" then table.ambient else locale

def knows (table : Table) (locale : String) : Bool :=
  match table.known with
  | none => true
  | some known => known.contains locale

/-- The name a locale resolves to for a category, if it is accepted. -/
def resolve? (table : Table) (category : Category) (locale : String) : Option String :=
  let wanted := table.wanted locale
  if (category.variableName, locale) ∈ table.rejected ∨ ¬ table.knows wanted then none
  else some ((table.aliases.get? wanted).getD wanted)

def backend (table : Table) : Backend (Environment String String) where
  adopt category locale env :=
    match table.resolve? category locale with
    | none => (none, env)
    | some resolved => (some resolved, env.set category.variableName resolved)
  read name env := (env.get? name, env)
  remove name env := env.unset name
  overrun? env :=
    (if table.sound then none else some ((env.get? Category.collate.variableName).getD ""), env)

end Table

end ServerEntry.Locale
