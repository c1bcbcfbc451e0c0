import ServerEntry.CommandLine.Mode
import ServerEntry.Proofs.Text.Utf8

/-!
# Modes and exemptions by their bytes

A command line is bytes, and its first argument is compared as text.  Since no two byte strings are
read as the same text, each mode is selected by byte strings of its own; bytes that are no text
select nothing, whatever they begin with.  Tokens exempt a command line by where they stand.
-/

namespace ServerEntry

open Text

namespace Arguments

def AsksHelp (arguments : Arguments) : Prop :=
  arguments[1]? = some (Utf8.encode "--help") ∨ arguments[1]? = some (Utf8.encode "-?")

def AsksVersion (arguments : Arguments) : Prop :=
  arguments[1]? = some (Utf8.encode "--version") ∨ arguments[1]? = some (Utf8.encode "-V")

theorem text?_eq_some_iff {arguments : Arguments} {index : Nat} {text : String} :
    arguments.text? index = some text ↔ arguments[index]? = some (Utf8.encode text) := by
  simp [text?, Option.bind_eq_some_iff, Utf8.decode?_eq_some_iff]

end Arguments

/-- The bytes of a first argument that selects a mode other than the supervisor. -/
inductive Mode.Selector (reexecutes : Bool) : Bytes → Mode → Prop
  | help : Selector reexecutes (Utf8.encode "--help") .showHelp
  | questionMark : Selector reexecutes (Utf8.encode "-?") .showHelp
  | version : Selector reexecutes (Utf8.encode "--version") .showVersion
  | capitalV : Selector reexecutes (Utf8.encode "-V") .showVersion
  | fork {bytes : Bytes} : reexecutes → Utf8.WellFormed bytes → Utf8.encode "--fork" <+: bytes →
      Selector reexecutes bytes .forkedWorker
  | boot : Selector reexecutes (Utf8.encode "--boot") .bootstrapLoad
  | describeConfig : Selector reexecutes (Utf8.encode "--describe-config") .describeConfig
  | single : Selector reexecutes (Utf8.encode "--single") .singleSession

variable {reexecutes : Bool} {arguments : Arguments} {bytes : Bytes} {mode : Mode}

/-! ## Selectors -/

namespace Mode.Selector

theorem wellFormed (h : Selector reexecutes bytes mode) : Utf8.WellFormed bytes := by
  cases h with
  | fork _ formed _ => exact formed
  | _ => exact Utf8.wellFormed_encode _

theorem ne_supervisor (h : Selector reexecutes bytes mode) : mode ≠ .supervisor := by
  cases h <;> decide

/-- The order in which a first argument is compared does not matter. -/
theorem select_eq {text : String} (h : Selector reexecutes (Utf8.encode text) mode) :
    select reexecutes (some text) = mode := by
  generalize spelled : Utf8.encode text = bytes at h
  cases h with
  | fork enabled _ marked =>
      rw [← spelled, Utf8.encode_prefix_iff, ← List.isPrefixOf_iff_prefix] at marked
      -- None of the tokens that come first begins with the mark.
      have unhelped : ¬ (text = "--help" ∨ text = "-?") := by
        rintro (rfl | rfl) <;> exact absurd marked (by decide)
      have unversioned : ¬ (text = "--version" ∨ text = "-V") := by
        rintro (rfl | rfl) <;> exact absurd marked (by decide)
      rw [select, if_neg unhelped, if_neg unversioned, if_pos ⟨enabled, marked⟩]
  | _ =>
      obtain rfl := Utf8.encode_inj.mp spelled
      cases reexecutes <;> decide

end Mode.Selector

theorem Mode.selector_of_select {first : Option String} (h : select reexecutes first = mode)
    (other : mode ≠ .supervisor) :
    ∃ text, first = some text ∧ Selector reexecutes (Utf8.encode text) mode := by
  revert h other
  fun_cases select reexecutes first with
  | case1 => exact fun same other => absurd same.symm other
  | case2 text help =>
      rintro rfl -
      rcases help with rfl | rfl
      · exact ⟨_, rfl, .help⟩
      · exact ⟨_, rfl, .questionMark⟩
  | case3 text _ version =>
      rintro rfl -
      rcases version with rfl | rfl
      · exact ⟨_, rfl, .version⟩
      · exact ⟨_, rfl, .capitalV⟩
  | case4 text _ _ fork =>
      rintro rfl -
      have marked := Utf8.encode_prefix_iff.mpr (List.isPrefixOf_iff_prefix.mp fork.2)
      exact ⟨text, rfl, .fork fork.1 (Utf8.wellFormed_encode text) marked⟩
  | case5 =>
      rintro rfl -
      exact ⟨_, rfl, .boot⟩
  | case6 =>
      rintro rfl -
      exact ⟨_, rfl, .describeConfig⟩
  | case7 =>
      rintro rfl -
      exact ⟨_, rfl, .single⟩
  | case8 => exact fun same other => absurd same.symm other

theorem classify_of_selector {selector : String}
    (h : arguments[1]? = some (Utf8.encode selector)) :
    (Invocation.classify reexecutes arguments).mode = .select reexecutes (some selector) := by
  rw [Invocation.classify, Arguments.text?_eq_some_iff.mpr h]

theorem classify_eq_iff_selector (other : mode ≠ .supervisor) :
    (Invocation.classify reexecutes arguments).mode = mode ↔
      ∃ first, arguments[1]? = some first ∧ Mode.Selector reexecutes first mode := by
  constructor
  · intro selected
    obtain ⟨text, read, selector⟩ := Mode.selector_of_select selected other
    exact ⟨_, Arguments.text?_eq_some_iff.mp read, selector⟩
  · rintro ⟨first, found, selector⟩
    obtain ⟨text, rfl⟩ := selector.wellFormed
    rw [classify_of_selector found, selector.select_eq]

theorem classify_eq_supervisor_iff :
    (Invocation.classify reexecutes arguments).mode = .supervisor ↔
      ∀ first, arguments[1]? = some first → ∀ mode, ¬ Mode.Selector reexecutes first mode := by
  constructor
  · intro remaining first found mode selector
    have selected := (classify_eq_iff_selector selector.ne_supervisor).mpr ⟨first, found, selector⟩
    exact selector.ne_supervisor (selected.symm.trans remaining)
  · intro unselected
    refine Decidable.byContradiction fun other => ?_
    obtain ⟨first, found, selector⟩ := (classify_eq_iff_selector other).mp rfl
    exact unselected first found _ selector

theorem classify_eq_showHelp_iff :
    (Invocation.classify reexecutes arguments).mode = .showHelp ↔ arguments.AsksHelp := by
  rw [classify_eq_iff_selector (by decide)]
  constructor
  · rintro ⟨first, found, selector⟩
    cases selector with
    | help => exact .inl found
    | questionMark => exact .inr found
  · rintro (found | found)
    · exact ⟨_, found, .help⟩
    · exact ⟨_, found, .questionMark⟩

theorem classify_eq_showVersion_iff :
    (Invocation.classify reexecutes arguments).mode = .showVersion ↔ arguments.AsksVersion := by
  rw [classify_eq_iff_selector (by decide)]
  constructor
  · rintro ⟨first, found, selector⟩
    cases selector with
    | version => exact .inl found
    | capitalV => exact .inr found
  · rintro (found | found)
    · exact ⟨_, found, .version⟩
    · exact ⟨_, found, .capitalV⟩

theorem Arguments.AsksHelp.not_asksVersion (help : arguments.AsksHelp) :
    ¬ arguments.AsksVersion := by
  intro version
  have mode := (@classify_eq_showHelp_iff false arguments).mpr help
  rw [classify_eq_showVersion_iff.mpr version] at mode
  contradiction

/-! ## Exemptions -/

/-- The tokens are compared as text, and so they are found by their bytes. -/
theorem ofArguments_eq_exempt_iff :
    PrivilegeCheck.ofArguments arguments = .exempt ↔
      Utf8.encode "--describe-config" ∈ arguments.drop 1 ∨
        2 < arguments.length ∧ arguments[1]? = some (Utf8.encode "-C") := by
  have described : (∃ argument ∈ arguments.afterProgram,
      Utf8.decode? argument = some "--describe-config") ↔
      Utf8.encode "--describe-config" ∈ arguments.drop 1 := by
    simp only [Utf8.decode?_eq_some_iff, exists_eq_right, Arguments.afterProgram]
  rw [← described, ← Arguments.text?_eq_some_iff, PrivilegeCheck.ofArguments]
  split
  · exact iff_of_true rfl ‹_›
  · exact iff_of_false nofun ‹_›

/-! ## What does not count -/

theorem classify_mode_eq {other : Arguments} (same : other[1]? = arguments[1]?) :
    (Invocation.classify reexecutes other).mode =
      (Invocation.classify reexecutes arguments).mode := by
  simp only [Invocation.classify, Arguments.text?, same]

theorem classify_eq_of_afterProgram {other : Arguments}
    (same : other.drop 1 = arguments.drop 1) :
    Invocation.classify reexecutes other = Invocation.classify reexecutes arguments := by
  match other, arguments, same with
  | [], [], _ | [], [_], _ | [_], [], _ => rfl
  | [], _ :: _ :: _, same | _ :: _ :: _, [], same => simp at same
  | _ :: rest, _ :: rest', same =>
      obtain rfl : rest = rest' := same
      rfl

/-- The fork mark is all that a build that re-executes itself reads differently. -/
theorem Mode.select_of_unmarked {first : Option String}
    (unmarked : ∀ text, first = some text → ¬ Utf8.encode "--fork" <+: Utf8.encode text) :
    select true first = select false first := by
  cases first with
  | none => rfl
  | some text =>
      have plain : ¬ forkMark.toList.isPrefixOf text.toList := by
        rw [List.isPrefixOf_iff_prefix]
        exact mt Utf8.encode_prefix_iff.mpr (unmarked text rfl)
      simp [select, plain]

theorem classify_ne_iff_marked :
    Invocation.classify true arguments ≠ Invocation.classify false arguments ↔
      ∃ first, arguments[1]? = some first ∧ Utf8.WellFormed first ∧
        Utf8.encode "--fork" <+: first := by
  constructor
  · intro different
    refine Classical.byContradiction fun unmarked => different ?_
    have same : Mode.select true (arguments.text? 1) = Mode.select false (arguments.text? 1) := by
      refine Mode.select_of_unmarked fun text read marked => unmarked ?_
      exact ⟨_, Arguments.text?_eq_some_iff.mp read, Utf8.wellFormed_encode text, marked⟩
    simp only [Invocation.classify, same]
  · rintro ⟨first, found, formed, marked⟩ same
    have forked : (Invocation.classify true arguments).mode = .forkedWorker :=
      (classify_eq_iff_selector (by decide)).mpr ⟨first, found, .fork rfl formed marked⟩
    rw [same, classify_eq_iff_selector (by decide)] at forked
    obtain ⟨_, -, selector⟩ := forked
    cases selector
    contradiction

/--
A command line is classified by the bytes behind the program name.  Every mode but the supervisor
has selectors of its own, and the supervisor takes what selects nothing.  The rest of the command
line counts for the exemption alone, and a fork mark only in a build that re-executes itself.
-/
theorem classify_by_bytes (reexecutes : Bool) (arguments : Arguments) :
    let invocation := Invocation.classify reexecutes arguments
    (∀ mode, mode ≠ .supervisor →
      (invocation.mode = mode ↔
        ∃ first, arguments[1]? = some first ∧ Mode.Selector reexecutes first mode)) ∧
    (invocation.mode = .supervisor ↔
      ∀ first, arguments[1]? = some first → ∀ mode, ¬ Mode.Selector reexecutes first mode) ∧
    (invocation.check = .exempt ↔
      Utf8.encode "--describe-config" ∈ arguments.drop 1 ∨
        arguments[1]? = some (Utf8.encode "-C") ∧ ∃ second, arguments[2]? = some second) ∧
    invocation.residual = arguments.drop 2 ∧
    (∀ other : Arguments, other.drop 1 = arguments.drop 1 →
      Invocation.classify reexecutes other = invocation) ∧
    (∀ other : Arguments, other[1]? = arguments[1]? →
      (Invocation.classify reexecutes other).mode = invocation.mode) ∧
    (Invocation.classify true arguments ≠ Invocation.classify false arguments ↔
      ∃ first, arguments[1]? = some first ∧ Utf8.WellFormed first ∧
        Utf8.encode "--fork" <+: first) := by
  refine ⟨fun mode => classify_eq_iff_selector, classify_eq_supervisor_iff, ?_, rfl,
    fun other => classify_eq_of_afterProgram, fun other => classify_mode_eq,
    classify_ne_iff_marked⟩
  have second : (∃ second, arguments[2]? = some second) ↔ 2 < arguments.length := by
    rw [← Option.isSome_iff_exists, isSome_getElem?]
  exact ofArguments_eq_exempt_iff.trans (or_congr_right (by rw [second, and_comm]))

/-- A fork mark before a byte that no text holds. -/
example : (Invocation.classify true [[], Utf8.encode "--fork" ++ [0xFF]]).mode = .supervisor := by
  decide

end ServerEntry
