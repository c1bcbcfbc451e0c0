import ServerEntry.CommandLine.Operands

/-!
# Operands by a scanner

The scanner reads an argument list the way `getopt` does when it permutes: one argument at a time
where a switch may start, and one letter at a time within a group.  It never looks ahead in a group;
whether a letter takes the next argument shows only when the letter is the last one.

The operands that the scanner finds are those of the scan by arguments, and the database is the only
one of them.
-/

namespace ServerEntry

inductive Reading where
  | between
  | group (letters : Bytes)
  | value
  | operands
  deriving DecidableEq, Repr

structure Scanner where
  reading : Reading
  input : List Bytes
  found : List Bytes
  deriving DecidableEq, Repr

namespace Scanner

def start (arguments : List Bytes) : Scanner := ⟨.between, arguments, []⟩

def valued : List Char :=
  ['B', 'c', 'C', 'D', 'd', 'f', 'h', 'k', 'N', 'o', 'p', 'r', 'S', 't', 'v', 'W', '-']

/-- Takes an argument where a switch may start. -/
def enter (argument : Bytes) (input found : List Bytes) : Scanner :=
  match argument with
  | [0x2D, 0x2D] => ⟨.operands, input, found⟩
  | 0x2D :: letter :: letters => ⟨.group (letter :: letters), input, found⟩
  | _ => ⟨.between, input, found ++ [argument]⟩

/-- The next argument or letter; none is left when the scan is over. -/
def step : Scanner → Option Scanner
  | ⟨.group [], input, found⟩ => some ⟨.between, input, found⟩
  | ⟨.group (letter :: letters), input, found⟩ =>
      if letter ∈ valued.map fun c => c.toNat.toUInt8 then
        -- What is left of the group is the value, if anything is.
        some ⟨if letters = [] then .value else .between, input, found⟩
      else some ⟨.group letters, input, found⟩
  | ⟨_, [], _⟩ => none
  | ⟨.between, argument :: input, found⟩ => some (enter argument input found)
  | ⟨.value, _ :: input, found⟩ => some ⟨.between, input, found⟩
  | ⟨.operands, argument :: input, found⟩ => some ⟨.operands, input, found ++ [argument]⟩

/-! ## The run of a scanner -/

def Reading.pending : Reading → Nat
  | .group letters => letters.length + 1
  | .between | .value | .operands => 0

def pending (scanner : Scanner) : Nat :=
  Reading.pending scanner.reading + scanner.input.length + scanner.input.flatten.length

theorem pending_enter (argument : Bytes) (input found : List Bytes) :
    (enter argument input found).pending <
      (argument :: input).length + (argument :: input).flatten.length := by
  unfold enter
  split <;> simp [pending, Reading.pending] <;> omega

theorem pending_of_step {scanner next : Scanner} (h : scanner.step = some next) :
    next.pending < scanner.pending := by
  revert h
  fun_cases step scanner with
  | case1 input found =>
      rintro ⟨⟩
      simp [pending, Reading.pending]
  | case2 letter letters input found valued =>
      rintro ⟨⟩
      cases letters <;> simp [pending, Reading.pending]
  | case3 letter letters input found plain =>
      rintro ⟨⟩
      simp [pending, Reading.pending]
  | case4 => nofun
  | case5 argument input found =>
      rintro ⟨⟩
      simpa [pending, Reading.pending] using pending_enter argument input found
  | case6 argument input found | case7 argument input found =>
      rintro ⟨⟩
      simp only [pending, Reading.pending, List.length_cons, List.flatten_cons, List.length_append]
      omega

def run (scanner : Scanner) : Scanner :=
  match _stepped : scanner.step with
  | none => scanner
  | some next => next.run
termination_by scanner.pending
decreasing_by exact pending_of_step _stepped

/-! ## What a scanner finds -/

/-- What is still to be found, by the scan that takes groups whole. -/
def awaited (scanner : Scanner) : List Bytes :=
  match scanner.reading with
  | .between => Operands.operands scanner.input
  | .group letters =>
      Operands.operands (if Operands.wantsNext letters then scanner.input.tail else scanner.input)
  | .value => Operands.operands scanner.input.tail
  | .operands => scanner.input

theorem takesValue_iff {letter : UInt8} :
    Operands.takesValue letter ↔ letter ∈ valued.map fun c => c.toNat.toUInt8 := by
  have same : Operands.valueLetters = valued.map fun c => c.toNat.toUInt8 := by decide
  rw [Operands.takesValue, same, List.contains_iff_mem]

theorem enter_awaited (argument : Bytes) (input found : List Bytes) :
    (enter argument input found).found ++ (enter argument input found).awaited =
      found ++ Operands.operands (argument :: input) := by
  unfold enter
  split
  · exact congrArg _ (Operands.operands_terminator input).symm
  · rename_i letter letters unended
    have other : letter :: letters ≠ [Operands.dash] := by
      rintro same
      cases same
      exact unended rfl rfl
    exact congrArg _ (Operands.operands_of_group (List.cons_ne_nil _ _) other input).symm
  · rename_i unended ungrouped
    have operand : Operands.isOperand argument := by
      match argument, ungrouped with
      | [], _ | [_], _ => rfl
      | first :: letter :: letters, ungrouped =>
          have undashed : first ≠ Operands.dash := by
            rintro rfl
            exact ungrouped letter letters rfl
          simpa [Operands.isOperand] using undashed
    rw [Operands.operands_of_isOperand operand]
    simp [awaited]

/-- A step moves operands from those awaited to those found, and loses none. -/
theorem step_awaited {scanner next : Scanner} (h : scanner.step = some next) :
    next.found ++ next.awaited = scanner.found ++ scanner.awaited := by
  revert h
  fun_cases step scanner with
  | case1 input found =>
      rintro ⟨⟩
      rfl
  | case2 letter letters input found valued =>
      rintro ⟨⟩
      have takes := takesValue_iff.mpr valued
      cases letters <;> simp [awaited, Operands.wantsNext, takes]
  | case3 letter letters input found plain =>
      rintro ⟨⟩
      have takes := mt takesValue_iff.mp plain
      simp [awaited, Operands.wantsNext, takes]
  | case4 => nofun
  | case5 argument input found =>
      rintro ⟨⟩
      exact enter_awaited argument input found
  | case6 value input found =>
      rintro ⟨⟩
      rfl
  | case7 argument input found =>
      rintro ⟨⟩
      simp [awaited]

theorem awaited_of_halted {scanner : Scanner} (h : scanner.step = none) : scanner.awaited = [] := by
  revert h
  fun_cases step scanner with
  | case4 reading found unread inside =>
      rintro -
      cases reading with
      | between | value | operands => rfl
      | group letters =>
          cases letters with
          | nil => exact absurd rfl unread
          | cons letter letters => exact absurd rfl (inside letter letters)
  | case1 | case2 | case3 | case5 | case6 | case7 => nofun

theorem found_run (scanner : Scanner) : scanner.run.found = scanner.found ++ scanner.awaited := by
  fun_induction run scanner with
  | case1 scanner halted => rw [awaited_of_halted halted, List.append_nil]
  | case2 scanner next stepped ih => rw [ih, step_awaited stepped]

theorem found_run_start (arguments : List Bytes) :
    (start arguments).run.found = Operands.operands arguments :=
  found_run (start arguments)

end Scanner

namespace Operands

/--
The database is the only operand that the scanner finds, byte for byte as it was given.  Where it
finds none, or several, there is no database.
-/
theorem database?_scanned (arguments : List Bytes) :
    let found := (Scanner.start arguments).run.found
    found.Sublist arguments ∧
      (∀ name, database? arguments = some name ↔ found = [name]) ∧
      (database? arguments = none ↔ ∀ name, found ≠ [name]) := by
  intro found
  have same : found = operands arguments := Scanner.found_run_start arguments
  have named (name : Bytes) : database? arguments = some name ↔ found = [name] := by
    rw [same, database?_eq_some_iff]
  refine ⟨same ▸ operands_sublist arguments, named, ?_⟩
  simp only [Option.eq_none_iff_forall_ne_some, ne_eq, named]

end Operands

end ServerEntry
