/-!
Environments: variables with their values, in the order in which they were first set.

`get?` is the view.  The lemmas say what setting and removing do to it, and that setting a
variable to the value it has, or removing one that is absent, changes nothing at all.
-/

namespace ServerEntry

structure Environment (Name Value : Type) where
  entries : List (Name × Value)
  deriving DecidableEq, Repr

namespace Environment

variable {Name Value : Type} [DecidableEq Name]

def empty : Environment Name Value := ⟨[]⟩

def lookup (name : Name) : List (Name × Value) → Option Value
  | [] => none
  | entry :: rest => if entry.1 = name then some entry.2 else lookup name rest

def get? (env : Environment Name Value) (name : Name) : Option Value := lookup name env.entries

def write (name : Name) (value : Value) : List (Name × Value) → List (Name × Value)
  | [] => [(name, value)]
  | entry :: rest =>
      if entry.1 = name then (name, value) :: rest else entry :: write name value rest

/-- Gives a variable a value; a variable that was there keeps its place. -/
def set (env : Environment Name Value) (name : Name) (value : Value) : Environment Name Value :=
  ⟨write name value env.entries⟩

def unset (env : Environment Name Value) (name : Name) : Environment Name Value :=
  ⟨env.entries.filter fun entry => entry.1 ≠ name⟩

def setAll (env : Environment Name Value) (assignments : List (Name × Value)) :
    Environment Name Value :=
  assignments.foldl (fun env assignment => env.set assignment.1 assignment.2) env

theorem lookup_write (name other : Name) (value : Value) (entries : List (Name × Value)) :
    lookup other (write name value entries) =
      if name = other then some value else lookup other entries := by
  induction entries with
  | nil => rfl
  | cons entry rest ih =>
      by_cases written : entry.1 = name
      · by_cases same : name = other <;> simp [write, lookup, written, same]
      · rw [write, if_neg written, lookup, lookup, ih]
        by_cases found : entry.1 = other
        · have : name ≠ other := fun same => written (found.trans same.symm)
          simp [found, this]
        · simp [found]

@[simp] theorem get?_set (env : Environment Name Value) (name other : Name) (value : Value) :
    (env.set name value).get? other = if name = other then some value else env.get? other :=
  lookup_write name other value env.entries

theorem lookup_filter_ne (name other : Name) (entries : List (Name × Value)) :
    lookup other (entries.filter fun entry => entry.1 ≠ name) =
      if name = other then none else lookup other entries := by
  induction entries with
  | nil => simp [lookup]
  | cons entry rest ih =>
      obtain ⟨key, held⟩ := entry
      by_cases removed : key = name
      · by_cases same : name = other <;> simp_all [lookup]
      · rw [List.filter_cons_of_pos (by simpa using removed), lookup, lookup, ih]
        by_cases found : key = other
        · have : name ≠ other := fun same => removed (found.trans same.symm)
          simp [found, this]
        · simp [found]

@[simp] theorem get?_unset (env : Environment Name Value) (name other : Name) :
    (env.unset name).get? other = if name = other then none else env.get? other :=
  lookup_filter_ne name other env.entries

theorem write_of_lookup {name : Name} {value : Value} {entries : List (Name × Value)}
    (h : lookup name entries = some value) : write name value entries = entries := by
  induction entries with
  | nil => simp [lookup] at h
  | cons entry rest ih =>
      obtain ⟨key, held⟩ := entry
      by_cases found : key = name <;> simp_all [lookup, write]

theorem set_of_get? {env : Environment Name Value} {name : Name} {value : Value}
    (h : env.get? name = some value) : env.set name value = env :=
  congrArg Environment.mk (write_of_lookup h)

theorem filter_ne_of_lookup {name : Name} {entries : List (Name × Value)}
    (h : lookup name entries = none) :
    (entries.filter fun entry => entry.1 ≠ name) = entries := by
  induction entries with
  | nil => rfl
  | cons entry rest ih =>
      by_cases found : entry.1 = name
      · simp [lookup, found] at h
      · have absent : lookup name rest = none := by simpa [lookup, found] using h
        simpa [found] using ih absent

theorem unset_of_get? {env : Environment Name Value} {name : Name} (h : env.get? name = none) :
    env.unset name = env :=
  congrArg Environment.mk (filter_ne_of_lookup h)

end Environment

end ServerEntry
