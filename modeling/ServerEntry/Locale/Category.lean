import ServerEntry.Log.Level

/-!
The locale categories that the server settles before any role runs.
-/

namespace ServerEntry.Locale

inductive Category where
  | collate
  | ctype
  | messages
  | monetary
  | numeric
  | time
  deriving DecidableEq, Repr

namespace Category

/-- The categories in the order in which they are settled. -/
def all : List Category := [.collate, .ctype, .messages, .monetary, .numeric, .time]

/-- The environment variable of the category, which is also its name in messages. -/
def variableName : Category → String
  | collate => "LC_COLLATE"
  | ctype => "LC_CTYPE"
  | messages => "LC_MESSAGES"
  | monetary => "LC_MONETARY"
  | numeric => "LC_NUMERIC"
  | time => "LC_TIME"

/-- Numbers and dates are formatted by the roles themselves, so these categories stay portable. -/
def pinned : Category → Bool
  | monetary | numeric | time => true
  | collate | ctype | messages => false

theorem mem_all (category : Category) : category ∈ all := by
  cases category <;> decide

theorem variableName_inj {category other : Category} :
    category.variableName = other.variableName ↔ category = other := by
  cases category <;> cases other <;> decide

end Category

def portable : String := "C"

/-- The variable that overrides those of all categories. -/
def overrideVariable : String := "LC_ALL"

theorem Category.variableName_ne_override (category : Category) :
    category.variableName ≠ overrideVariable := by
  cases category <;> decide

/-- What became of a category: the locale asked for, and the one that was adopted. -/
structure Setting where
  category : Category
  requested : String
  resolved : String
  /-- The request was rejected and the portable locale adopted in its place. -/
  fellBack : Bool
  deriving DecidableEq, Repr

namespace Setting

def notice? (setting : Setting) : Option Log.Entry :=
  if setting.fellBack then
    some ⟨.log, "could not adopt \"" ++ setting.requested ++ "\" locale for " ++
      setting.category.variableName ++ ", using C"⟩
  else none

def announcement (setting : Setting) : Log.Entry :=
  ⟨.debug, setting.category.variableName ++ " set to \"" ++ setting.resolved ++ "\""⟩

end Setting

def resolved? (settings : List Setting) (category : Category) : Option String :=
  (settings.find? fun setting => setting.category = category).map Setting.resolved

end ServerEntry.Locale
