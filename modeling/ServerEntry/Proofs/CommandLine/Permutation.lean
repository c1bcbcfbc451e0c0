import Mathlib.Logic.ExistsUnique
import ServerEntry.Session

/-!
# Switches around the operands

An argument list is a sequence of pieces, operands and complete switches, up to its end, a switch
without its value or the terminator.  It can be taken apart in one way only: the first argument of a
piece tells which piece it is, although a value may look like anything.  So a scan that is done with
a piece stands where the next one begins, and finds the operands whatever switches are put between
them.
-/

namespace ServerEntry.Operands

/-- Letters of which the last one, and no other, takes a value. -/
structure Group where
  flags : Bytes
  letter : UInt8
  plain : ∀ flag ∈ flags, ¬ takesValue flag
  valued : takesValue letter

def Group.letters (group : Group) : Bytes := group.flags ++ [group.letter]

/-- A switch that has all it needs. -/
inductive Switch where
  | flags (letters : Bytes) (nonempty : letters ≠ [])
      (plain : ∀ letter ∈ letters, ¬ takesValue letter)
  | attached (group : Group) (value : Bytes) (nonempty : value ≠ [])
  | separate (group : Group) (value : Bytes) (other : group.letters ≠ [dash])

inductive Piece where
  | operand (argument : Bytes)
      (plain : argument = [] ∨ argument = [dash] ∨ argument.head? ≠ some dash)
  | switch (complete : Switch)

inductive Ending where
  | exhausted
  | wanting (group : Group) (other : group.letters ≠ [dash])
  | terminated (arguments : List Bytes)

structure Decomposition where
  pieces : List Piece
  ending : Ending

/-! ## The arguments of a decomposition -/

def Switch.letters : Switch → Bytes
  | flags letters _ _ => letters
  | attached group value _ => group.letters ++ value
  | separate group _ _ => group.letters

def Switch.following : Switch → List Bytes
  | flags .. | attached .. => []
  | separate _ value _ => [value]

def Piece.spell : Piece → List Bytes
  | operand argument _ => [argument]
  | switch complete => (dash :: complete.letters) :: complete.following

def Piece.operands : Piece → List Bytes
  | operand argument _ => [argument]
  | switch _ => []

def Ending.spell : Ending → List Bytes
  | exhausted => []
  | wanting group _ => [dash :: group.letters]
  | terminated arguments => terminator :: arguments

def Ending.operands : Ending → List Bytes
  | exhausted | wanting .. => []
  | terminated arguments => arguments

namespace Decomposition

def spell (decomposition : Decomposition) : List Bytes :=
  decomposition.pieces.flatMap Piece.spell ++ decomposition.ending.spell

def operands (decomposition : Decomposition) : List Bytes :=
  decomposition.pieces.flatMap Piece.operands ++ decomposition.ending.operands

end Decomposition

/-! ## Groups of letters -/

theorem wantsNext_append {flags : Bytes} (plain : ∀ flag ∈ flags, ¬ takesValue flag)
    (letters : Bytes) : wantsNext (flags ++ letters) = wantsNext letters := by
  induction flags with
  | nil => rfl
  | cons flag flags ih =>
      obtain ⟨first, others⟩ := List.forall_mem_cons.mp plain
      simpa [wantsNext, first] using ih others

theorem wantsNext_of_plain {letters : Bytes} (plain : ∀ letter ∈ letters, ¬ takesValue letter) :
    wantsNext letters = false := by
  simpa [wantsNext] using wantsNext_append plain []

namespace Group

theorem letters_ne_nil (group : Group) : group.letters ≠ [] := by simp [letters]

theorem wantsNext_letters_append (group : Group) (value : Bytes) :
    wantsNext (group.letters ++ value) = value.isEmpty := by
  rw [letters, List.append_assoc, wantsNext_append group.plain]
  simp [wantsNext, group.valued]

theorem takeWhile_letters_append (group : Group) (value : Bytes) :
    (group.letters ++ value).takeWhile (¬ takesValue ·) = group.flags := by
  rw [letters, List.append_assoc, List.takeWhile_append_of_pos (by simpa using group.plain)]
  simp [group.valued]

/-- A group ends at its first letter that takes a value. -/
theorem letters_append_inj {group other : Group} {value rest : Bytes}
    (h : group.letters ++ value = other.letters ++ rest) : group = other ∧ value = rest := by
  have flags : group.flags = other.flags := by
    rw [← takeWhile_letters_append group value, h, takeWhile_letters_append]
  obtain ⟨flags, letter, plain, valued⟩ := group
  obtain ⟨_, letter', plain', valued'⟩ := other
  subst flags
  simpa [letters] using h

theorem letters_inj {group other : Group} (h : group.letters = other.letters) :
    group = other := by
  have same : group.letters ++ [] = other.letters ++ [] := by rw [h]
  exact (letters_append_inj same).1

theorem letters_append_not_plain (group : Group) (value : Bytes) :
    ¬ ∀ letter ∈ group.letters ++ value, ¬ takesValue letter := by
  intro plain
  exact plain group.letter (by simp [letters]) group.valued

theorem letters_not_plain (group : Group) : ¬ ∀ letter ∈ group.letters, ¬ takesValue letter := by
  simpa using group.letters_append_not_plain []

theorem plain_or_append (letters : Bytes) :
    (∀ letter ∈ letters, ¬ takesValue letter) ∨
      ∃ (group : Group) (value : Bytes), letters = group.letters ++ value := by
  induction letters with
  | nil => exact .inl nofun
  | cons letter letters ih =>
      by_cases valued : takesValue letter
      · exact .inr ⟨⟨[], letter, nofun, valued⟩, letters, rfl⟩
      rcases ih with plain | ⟨group, value, rfl⟩
      · exact .inl (List.forall_mem_cons.mpr ⟨valued, plain⟩)
      · exact .inr ⟨⟨letter :: group.flags, group.letter,
          List.forall_mem_cons.mpr ⟨valued, group.plain⟩, group.valued⟩, value, rfl⟩

end Group

namespace Switch

theorem letters_ne_nil (complete : Switch) : complete.letters ≠ [] := by
  cases complete with
  | flags letters nonempty plain => exact nonempty
  | attached group value nonempty => simp [letters, nonempty]
  | separate group value other => exact group.letters_ne_nil

/-- No switch looks like the terminator. -/
theorem letters_ne_dash (complete : Switch) : complete.letters ≠ [dash] := by
  cases complete with
  | flags letters nonempty plain =>
      rintro rfl
      exact plain dash List.mem_cons_self (by decide)
  | attached group value nonempty =>
      intro same
      have length := congrArg List.length same
      have := List.length_pos_iff.mpr nonempty
      simp [letters, Group.letters] at length
      omega
  | separate group value other => exact other

theorem wantsNext_letters (complete : Switch) (rest : List Bytes) :
    (if wantsNext complete.letters then (complete.following ++ rest).tail
      else complete.following ++ rest) = rest := by
  cases complete with
  | flags letters nonempty plain => simp [Switch.letters, following, wantsNext_of_plain plain]
  | attached group value nonempty =>
      simp [Switch.letters, following, Group.wantsNext_letters_append, nonempty]
  | separate group value other =>
      have wants := group.wantsNext_letters_append []
      simp only [List.append_nil, List.isEmpty_nil] at wants
      simp [Switch.letters, following, wants]

end Switch

/-! ## The scan, piece by piece -/

/-- When the scan is done with a piece it goes on as if it began behind it. -/
theorem operands_piece (piece : Piece) (rest : List Bytes) :
    operands (piece.spell ++ rest) = piece.operands ++ operands rest := by
  cases piece with
  | operand argument plain => exact operands_of_isOperand (isOperand_iff.mpr plain) rest
  | switch complete =>
      have taken := operands_of_group complete.letters_ne_nil complete.letters_ne_dash
        (complete.following ++ rest)
      rwa [complete.wantsNext_letters] at taken

theorem operands_ending (ending : Ending) : operands ending.spell = ending.operands := by
  cases ending with
  | exhausted => rfl
  | wanting group other =>
      have taken := operands_of_group group.letters_ne_nil other []
      simpa [Ending.spell, Ending.operands, operands] using taken
  | terminated arguments => exact operands_terminator arguments

theorem operands_spell (decomposition : Decomposition) :
    operands decomposition.spell = decomposition.operands := by
  obtain ⟨pieces, ending⟩ := decomposition
  induction pieces with
  | nil => exact operands_ending ending
  | cons piece pieces ih =>
      simp only [Decomposition.spell, Decomposition.operands, List.flatMap_cons,
        List.append_assoc] at ih ⊢
      rw [operands_piece, ih]

/-! ## Taking arguments apart -/

theorem exists_letters {argument : Bytes} (plain : ¬ isOperand argument) :
    ∃ letters, argument = dash :: letters ∧ letters ≠ [] := by
  match argument, plain with
  | [], plain | [_], plain => exact absurd rfl plain
  | first :: letter :: letters, plain =>
      obtain rfl : first = dash := by simpa [isOperand] using plain
      exact ⟨letter :: letters, rfl, List.cons_ne_nil _ _⟩

theorem wantsNext_iff {letters : Bytes} :
    wantsNext letters ↔ ∃ group : Group, letters = group.letters := by
  constructor
  · intro wants
    rcases Group.plain_or_append letters with plain | ⟨group, value, rfl⟩
    · simp [wantsNext_of_plain plain] at wants
    · rw [group.wantsNext_letters_append, List.isEmpty_iff] at wants
      exact ⟨group, by rw [wants, List.append_nil]⟩
  · rintro ⟨group, rfl⟩
    simpa using group.wantsNext_letters_append []

theorem exists_spell (arguments : List Bytes) :
    ∃ decomposition : Decomposition, decomposition.spell = arguments := by
  fun_induction operands arguments with
  | case1 => exact ⟨⟨[], .exhausted⟩, rfl⟩
  | case2 rest => exact ⟨⟨[], .terminated rest⟩, rfl⟩
  | case3 argument rest unended operand ih =>
      obtain ⟨⟨pieces, ending⟩, rfl⟩ := ih
      exact ⟨⟨.operand argument (isOperand_iff.mp operand) :: pieces, ending⟩, rfl⟩
  | case4 argument unended switch wants =>
      obtain ⟨letters, rfl, nonempty⟩ := exists_letters switch
      obtain ⟨group, rfl⟩ := wantsNext_iff.mp wants
      exact ⟨⟨[], .wanting group (fun same => unended (congrArg _ same))⟩, rfl⟩
  | case5 argument unended switch wants value rest ih =>
      obtain ⟨letters, rfl, nonempty⟩ := exists_letters switch
      obtain ⟨group, rfl⟩ := wantsNext_iff.mp wants
      obtain ⟨⟨pieces, ending⟩, rfl⟩ := ih
      exact ⟨⟨.switch (.separate group value (fun same => unended (congrArg _ same))) :: pieces,
        ending⟩, rfl⟩
  | case6 argument rest unended switch complete ih =>
      obtain ⟨letters, rfl, nonempty⟩ := exists_letters switch
      obtain ⟨⟨pieces, ending⟩, rfl⟩ := ih
      rcases Group.plain_or_append letters with plain | ⟨group, value, rfl⟩
      · exact ⟨⟨.switch (.flags letters nonempty plain) :: pieces, ending⟩, rfl⟩
      · have left : value ≠ [] := by
          simpa [group.wantsNext_letters_append] using complete
        exact ⟨⟨.switch (.attached group value left) :: pieces, ending⟩, rfl⟩

/-! ## One way only -/

theorem Group.letters_append_ne {group other : Group} {value : Bytes} (nonempty : value ≠ []) :
    group.letters ++ value ≠ other.letters := by
  intro same
  rw [← List.append_nil other.letters] at same
  exact nonempty (letters_append_inj same).2

theorem Switch.spell_append_inj {complete other : Switch} {rest others : List Bytes}
    (letters : complete.letters = other.letters)
    (following : complete.following ++ rest = other.following ++ others) :
    complete = other ∧ rest = others := by
  cases complete with
  | flags _ _ plain =>
      cases other with
      | flags =>
          obtain rfl := letters
          exact ⟨rfl, following⟩
      | attached group value =>
          obtain rfl := letters
          exact absurd plain (group.letters_append_not_plain value)
      | separate group =>
          obtain rfl := letters
          exact absurd plain group.letters_not_plain
  | attached group value nonempty =>
      cases other with
      | flags _ _ plain =>
          obtain rfl := letters
          exact absurd plain (group.letters_append_not_plain value)
      | attached =>
          obtain ⟨rfl, rfl⟩ := Group.letters_append_inj letters
          exact ⟨rfl, following⟩
      | separate => exact absurd letters (Group.letters_append_ne nonempty)
  | separate group value =>
      cases other with
      | flags _ _ plain =>
          obtain rfl := letters
          exact absurd plain group.letters_not_plain
      | attached _ _ nonempty => exact absurd letters.symm (Group.letters_append_ne nonempty)
      | separate =>
          obtain rfl := Group.letters_inj letters
          obtain ⟨rfl, rfl⟩ := List.cons.inj following
          exact ⟨rfl, rfl⟩

theorem Switch.not_isOperand (complete : Switch) : ¬ isOperand (dash :: complete.letters) := by
  obtain ⟨letter, letters, same⟩ := List.exists_cons_of_ne_nil complete.letters_ne_nil
  simp [same, isOperand]

theorem Piece.spell_append_inj {piece other : Piece} {rest others : List Bytes}
    (h : piece.spell ++ rest = other.spell ++ others) : piece = other ∧ rest = others := by
  cases piece with
  | operand argument plain =>
      cases other with
      | operand =>
          obtain ⟨rfl, rfl⟩ := List.cons.inj h
          exact ⟨rfl, rfl⟩
      | switch complete =>
          obtain ⟨rfl, -⟩ := List.cons.inj h
          exact absurd (isOperand_iff.mpr plain) complete.not_isOperand
  | switch complete =>
      cases other with
      | operand argument plain =>
          obtain ⟨rfl, -⟩ := List.cons.inj h
          exact absurd (isOperand_iff.mpr plain) complete.not_isOperand
      | switch other =>
          obtain ⟨first, behind⟩ := List.cons.inj h
          obtain ⟨rfl, rfl⟩ := Switch.spell_append_inj (List.cons.inj first).2 behind
          exact ⟨rfl, rfl⟩

theorem Piece.spell_append_ne (piece : Piece) (rest : List Bytes) (ending : Ending) :
    piece.spell ++ rest ≠ ending.spell := by
  intro h
  cases ending with
  | exhausted => cases piece <;> contradiction
  | wanting group other =>
      -- With a value behind it the switch would be a piece, and nothing would be left of the rest.
      have supplied : piece.spell ++ (rest ++ [[]]) =
          (Piece.switch (.separate group [] other)).spell ++ [] := by
        rw [← List.append_assoc, h]
        rfl
      have left := (spell_append_inj supplied).2
      simp at left
  | terminated arguments =>
      cases piece with
      | operand argument plain =>
          obtain ⟨rfl, -⟩ := List.cons.inj h
          exact absurd (isOperand_iff.mpr plain) (by decide)
      | switch complete =>
          obtain ⟨first, -⟩ := List.cons.inj h
          exact complete.letters_ne_dash (List.cons.inj first).2

theorem Ending.spell_injective : Function.Injective Ending.spell := by
  intro ending other h
  cases ending with
  | exhausted =>
      cases other with
      | exhausted => rfl
      | wanting | terminated => contradiction
  | wanting group unended =>
      cases other with
      | exhausted => contradiction
      | wanting =>
          obtain ⟨first, -⟩ := List.cons.inj h
          obtain rfl := Group.letters_inj (List.cons.inj first).2
          rfl
      | terminated =>
          obtain ⟨first, -⟩ := List.cons.inj h
          exact absurd (List.cons.inj first).2 unended
  | terminated arguments =>
      cases other with
      | exhausted => contradiction
      | wanting group unended =>
          obtain ⟨first, -⟩ := List.cons.inj h
          exact absurd (List.cons.inj first).2.symm unended
      | terminated =>
          obtain ⟨-, rfl⟩ := List.cons.inj h
          rfl

theorem Decomposition.spell_injective : Function.Injective Decomposition.spell := by
  rintro ⟨pieces, ending⟩ ⟨others, ending'⟩ h
  induction pieces generalizing others with
  | nil =>
      cases others with
      | nil =>
          obtain rfl : ending = ending' := Ending.spell_injective h
          rfl
      | cons other others =>
          simp only [spell, List.flatMap_nil, List.nil_append, List.flatMap_cons,
            List.append_assoc] at h
          exact absurd h.symm (other.spell_append_ne _ ending)
  | cons piece pieces ih =>
      simp only [spell, List.flatMap_cons, List.append_assoc] at h
      cases others with
      | nil => exact absurd h (piece.spell_append_ne _ ending')
      | cons other others =>
          simp only [List.flatMap_cons, List.append_assoc] at h
          obtain ⟨rfl, behind⟩ := Piece.spell_append_inj h
          obtain ⟨rfl, rfl⟩ := Decomposition.mk.inj (ih others behind)
          rfl

theorem existsUnique_spell (arguments : List Bytes) :
    ∃! decomposition : Decomposition, decomposition.spell = arguments := by
  obtain ⟨decomposition, rfl⟩ := exists_spell arguments
  exact ⟨decomposition, rfl, fun other same => Decomposition.spell_injective same⟩

/-! ## Command lines with the same operands -/

section Congruence

variable {first second : Decomposition} (same : first.operands = second.operands)

include same

theorem database?_congr : database? first.spell = database? second.spell := by
  rw [database?, database?, operands_spell, operands_spell, same]

theorem resolve_congr (program selector : Bytes) (identity : Identity) :
    SessionTarget.resolve (program :: selector :: first.spell) identity =
      SessionTarget.resolve (program :: selector :: second.spell) identity := by
  have chosen := database?_congr same
  simp only [SessionTarget.resolve, SessionTarget.ofUser, Arguments.afterSelector,
    List.drop_succ_cons, List.drop_zero, chosen]

end Congruence

/--
An argument list is a decomposition in one way, and only the operands in it say which database is
chosen and what a session works on.  So switches may come, go and move between the operands.
-/
theorem database?_permuted :
    (∀ arguments, ∃! decomposition : Decomposition, decomposition.spell = arguments) ∧
    (∀ (decomposition : Decomposition) (name : Bytes),
      database? decomposition.spell = some name ↔ decomposition.operands = [name]) ∧
    (∀ first second : Decomposition, first.operands = second.operands →
      database? first.spell = database? second.spell ∧
      ∀ program selector identity,
        SessionTarget.resolve (program :: selector :: first.spell) identity =
          SessionTarget.resolve (program :: selector :: second.spell) identity) ∧
    ∀ (before between after : List Piece) (complete : Switch) (ending : Ending),
      let chosen (pieces : List Piece) := database? (Decomposition.spell ⟨pieces, ending⟩)
      chosen (before ++ .switch complete :: after) = chosen (before ++ after) ∧
      chosen (before ++ .switch complete :: between ++ after) =
        chosen (before ++ between ++ .switch complete :: after) := by
  refine ⟨existsUnique_spell, fun decomposition name => ?_, fun first second same => ?_, ?_⟩
  · rw [database?_eq_some_iff, operands_spell]
  · exact ⟨database?_congr same, resolve_congr same⟩
  · intro before between after complete ending
    constructor
    · exact database?_congr (by simp [Decomposition.operands, Piece.operands])
    · exact database?_congr (by simp [Decomposition.operands, Piece.operands])

end ServerEntry.Operands
