import ServerEntry.Environment
import ServerEntry.Text.Utf8

/-!
The variables of a process, and the records in which it keeps them.

A record is a name, an equals sign and a value.  A look-up by record goes by what a record begins
with, so it differs from a look-up by name only where the name holds an equals sign itself.
-/

namespace ServerEntry

abbrev Variables := Environment Bytes Bytes

namespace Variables

def value? (env : Variables) (name : String) : Option Bytes :=
  env.get? (Text.Utf8.encode name)

def assign (env : Variables) (name : String) (value : Bytes) : Variables :=
  env.set (Text.Utf8.encode name) value

def remove (env : Variables) (name : String) : Variables :=
  env.unset (Text.Utf8.encode name)

/-! ## Records -/

def equalsSign : UInt8 := 0x3D

def record (name value : Bytes) : Bytes := name ++ equalsSign :: value

/-- What a record can hold: there is a name that has no equals sign, and no NUL ends the record. -/
def canHold (name : String) (value : Bytes) : Bool :=
  name ≠ "" ∧ equalsSign ∉ Text.Utf8.encode name ∧ 0 ∉ record (Text.Utf8.encode name) value

/-- The name and the value in a record: the first equals sign ends the name. -/
def ofRecord? : Bytes → Option (Bytes × Bytes)
  | [] => none
  | byte :: rest =>
      if byte = equalsSign then some ([], rest)
      else (ofRecord? rest).map fun (name, value) => (byte :: name, value)

/-- The variables in records; what has no name, or no equals sign after it, is left out. -/
def ofRecords (records : List Bytes) : Variables :=
  ⟨(records.filterMap ofRecord?).filter fun entry => entry.1 ≠ []⟩

/--
What stands behind a name and an equals sign in the variable's record.  A name that holds an equals
sign reaches into the value: under `A=B` there is `C` if `A` has the value `B=C`.
-/
def read? (env : Variables) (name : Bytes) : Option Bytes :=
  match ofRecord? name with
  | none => env.get? name
  | some (name, start) =>
      (env.get? name).bind fun value => (start ++ [equalsSign]).isPrefixOf? value

def text? (env : Variables) (name : String) : Option String :=
  (env.read? (Text.Utf8.encode name)).bind Text.Utf8.decode?

/-- A name that can go with nothing can go with whatever has no NUL. -/
theorem canHold_iff {name : String} (named : canHold name []) (value : Bytes) :
    canHold name value ↔ 0 ∉ value := by
  simp only [canHold, record, decide_eq_true_eq, List.mem_append, List.mem_cons, not_or] at *
  exact ⟨fun h => h.2.2.2.2, fun h => ⟨named.1, named.2.1, named.2.2.1, named.2.2.2.1, h⟩⟩

theorem notMem_of_canHold {name : String} {value : Bytes} (h : canHold name value) : 0 ∉ value := by
  simp only [canHold, record, decide_eq_true_eq, List.mem_append, List.mem_cons, not_or] at h
  exact h.2.2.2.2

theorem ofRecord?_of_notMem {name : Bytes} (h : equalsSign ∉ name) : ofRecord? name = none := by
  induction name with
  | nil => rfl
  | cons byte rest ih =>
      have other : byte ≠ equalsSign := fun same => h (by simp [same])
      simp [ofRecord?, other, ih fun found => h (List.mem_cons_of_mem _ found)]

theorem read?_of_notMem (env : Variables) {name : Bytes} (h : equalsSign ∉ name) :
    env.read? name = env.get? name := by
  simp [read?, ofRecord?_of_notMem h]

end Variables

end ServerEntry
