import ServerEntry.CommandLine.Arguments

/-!
Operands of the single-user engine.

Switches are letters behind a dash and may be grouped; some letters take a value, which is the
rest of their argument or, if nothing is left of it, the whole next argument.  Operands may stand
anywhere between the switches, and `--` ends them.  The database is the one operand there is.

The lemmas say how the first argument is taken: it ends the switches, it is an operand, or it is a
group of letters, which may take the argument behind it along.
-/

namespace ServerEntry.Operands

def dash : UInt8 := 0x2D

def terminator : Bytes := [dash, dash]

/-- The letters that take a value; a dash among them makes `--name=value` one switch. -/
def valueLetters : Bytes := Text.Utf8.encode "BcCDdfhkNoprStvW-"

def takesValue (letter : UInt8) : Bool := valueLetters.contains letter

/-- A lone dash and an empty argument are operands too. -/
def isOperand : Bytes → Bool
  | first :: _ :: _ => first != dash
  | _ => true

theorem isOperand_iff {argument : Bytes} :
    isOperand argument ↔ argument = [] ∨ argument = [dash] ∨ argument.head? ≠ some dash := by
  match argument with
  | [] => simp [isOperand]
  | [byte] => simp [isOperand, Decidable.em]
  | first :: second :: rest => simp [isOperand]

/-- Whether a group of letters ends in its first letter that takes a value. -/
def wantsNext : Bytes → Bool
  | [] => false
  | letter :: rest => if takesValue letter then rest.isEmpty else wantsNext rest

def operands : List Bytes → List Bytes
  | [] => []
  | argument :: rest =>
      if argument = terminator then rest
      else if isOperand argument then argument :: operands rest
      else if wantsNext argument.tail then
        match rest with
        | [] => []
        | _ :: rest => operands rest
      else operands rest

theorem operands_terminator (rest : List Bytes) : operands (terminator :: rest) = rest := by
  unfold operands
  exact if_pos rfl

theorem operands_of_isOperand {argument : Bytes} (h : isOperand argument) (rest : List Bytes) :
    operands (argument :: rest) = argument :: operands rest := by
  have other : argument ≠ terminator := by
    rintro rfl
    contradiction
  rw [operands.eq_def]
  simp [other, h]

/-- A group that wants the next argument takes it whatever it is, and there may be none. -/
theorem operands_of_group {letters : Bytes} (nonempty : letters ≠ []) (other : letters ≠ [dash])
    (rest : List Bytes) :
    operands ((dash :: letters) :: rest) =
      operands (if wantsNext letters then rest.tail else rest) := by
  obtain ⟨letter, letters, rfl⟩ := List.exists_cons_of_ne_nil nonempty
  have switch : isOperand (dash :: letter :: letters) = false := rfl
  have unended : dash :: letter :: letters ≠ terminator := fun same => other (List.cons.inj same).2
  cases wants : wantsNext (letter :: letters) <;> cases rest <;>
    simp [operands, unended, switch, wants]

/-- Operands are arguments as they stand, in their order. -/
theorem operands_sublist (arguments : List Bytes) : (operands arguments).Sublist arguments := by
  fun_induction operands arguments with
  | case1 => exact .slnil
  | case2 rest => exact .cons _ (.refl rest)
  | case3 argument rest _ _ ih => exact .cons_cons argument ih
  | case4 => exact List.nil_sublist _
  | case5 argument _ _ _ value rest ih => exact .cons _ (.cons _ ih)
  | case6 argument rest _ _ _ ih => exact .cons _ ih

/-- The database named by the arguments: their only operand. -/
def database? (arguments : List Bytes) : Option Bytes :=
  match operands arguments with
  | [name] => some name
  | _ => none

theorem database?_eq_some_iff {arguments : List Bytes} {name : Bytes} :
    database? arguments = some name ↔ operands arguments = [name] := by
  unfold database?
  split
  · rename_i only found
    rw [found, Option.some_inj, List.singleton_inj]
  · rename_i several
    exact iff_of_false nofun (several name)

end ServerEntry.Operands
