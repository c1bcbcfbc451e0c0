import Mathlib.Data.List.Forall2
import ServerEntry.Proofs.CommandLine.Mode
import ServerEntry.Proofs.Startup.Stages
import ServerEntry.Proofs.Text.Utf8
import ServerEntry.StatusDisplay

/-!
# Views of a command line as text

A status display shows a command line as its joined bytes are read.  Spaces between arguments are
characters by themselves, so no argument is read differently for being joined to others: nothing is
lost if all of them are text, and nothing passes for text if one of them is not.  What is handed on
is the command line itself and none of its views.
-/

namespace ServerEntry.Arguments

open Text

theorem intercalate_cons_space (argument other : Bytes) (arguments : Arguments) :
    [0x20].intercalate (argument :: other :: arguments) =
      argument ++ 0x20 :: [0x20].intercalate (other :: arguments) := by
  simp

theorem decodeLossy_intercalate (arguments : Arguments) :
    Utf8.decodeLossy ([0x20].intercalate arguments) = arguments.display := by
  rw [← String.toList_inj, display, String.toList_ofList]
  induction arguments with
  | nil => rfl
  | cons argument arguments ih =>
      cases arguments with
      | nil => simp
      | cons other arguments =>
          rw [intercalate_cons_space, Utf8.decodeLossy_append_single (by decide), ih]
          simp

theorem wellFormed_intercalate_iff (arguments : Arguments) :
    Utf8.WellFormed ([0x20].intercalate arguments) ↔
      ∀ argument ∈ arguments, Utf8.WellFormed argument := by
  induction arguments with
  | nil => exact iff_of_true (Utf8.wellFormed_encode "") (List.forall_mem_nil _)
  | cons argument arguments ih =>
      cases arguments with
      | nil => simp
      | cons other arguments =>
          rw [intercalate_cons_space, Utf8.wellFormed_append_single_iff (by decide), ih]
          exact List.forall_mem_cons.symm

theorem exists_text?_iff {arguments : Arguments} {index : Nat} :
    (∃ text, arguments.text? index = some text) ↔
      ∃ argument, arguments[index]? = some argument ∧ Utf8.WellFormed argument := by
  simp only [text?_eq_some_iff]
  constructor
  · rintro ⟨text, found⟩
    exact ⟨_, found, Utf8.wellFormed_encode text⟩
  · rintro ⟨_, found, text, rfl⟩
    exact ⟨text, found⟩

theorem encode_display_eq_iff {arguments : Arguments} :
    Utf8.encode arguments.display = [0x20].intercalate arguments ↔
      ∀ argument ∈ arguments, Utf8.WellFormed argument := by
  rw [← decodeLossy_intercalate, Utf8.encode_decodeLossy_eq_iff, wellFormed_intercalate_iff]

theorem display_eq_intercalate (arguments : Arguments) :
    arguments.display = " ".intercalate (arguments.map Utf8.decodeLossy) := by
  rw [← String.toList_inj, display, String.toList_ofList, String.toList_intercalate, List.map_map]
  rfl

/--
An argument is seen as text exactly if it is there and is text, and the bytes of that text are its
own.  The display is made of the joined arguments exactly if all of them are text, and otherwise
shows a replacement for each fault; the arguments that are kept and handed on are as they came.
-/
theorem views_faithful (arguments : Arguments) :
    let line := [0x20].intercalate arguments
    (∀ index text, arguments.text? index = some text ↔
      arguments[index]? = some (Utf8.encode text)) ∧
    (∀ index, (∃ text, arguments.text? index = some text) ↔
      ∃ argument, arguments[index]? = some argument ∧ Utf8.WellFormed argument) ∧
    (Utf8.encode arguments.display = line ↔ ∀ argument ∈ arguments, Utf8.WellFormed argument) ∧
    ((∃ argument ∈ arguments, ¬ Utf8.WellFormed argument) →
      '\uFFFD' ∈ arguments.display.toList ∧ Utf8.encode arguments.display ≠ line) ∧
    (∃ texts, List.Forall₂ Utf8.ShownAs arguments texts ∧
      arguments.display = " ".intercalate texts) ∧
    (∀ index, arguments.afterProgram[index]? = arguments[index + 1]?) ∧
    (∀ others, ((StatusDisplay.empty.keep arguments).2.keep others).1 = arguments) ∧
    ∀ mode identity call, DriverCall.ofMode mode arguments identity = .ok (some call) →
      call.arguments = arguments := by
  intro line
  refine ⟨fun index text => text?_eq_some_iff, fun index => exists_text?_iff, encode_display_eq_iff,
    ?_, ⟨arguments.map Utf8.decodeLossy, ?_, display_eq_intercalate arguments⟩, ?_, fun _ => rfl,
    fun mode identity call made => (handsOver_of_ofMode made).whole⟩
  · rintro ⟨argument, mem, faulty⟩
    have unreadable : ¬ Utf8.WellFormed line := fun formed =>
      faulty ((wellFormed_intercalate_iff arguments).mp formed argument mem)
    rw [← decodeLossy_intercalate]
    exact ⟨Utf8.replacement_mem_decodeLossy unreadable,
      mt Utf8.encode_decodeLossy_eq_iff.mp unreadable⟩
  · rw [List.forall₂_map_right_iff, List.forall₂_same]
    exact fun argument _ => Utf8.decodeLossy_eq_iff.mp rfl
  · intro index
    rw [afterProgram, List.getElem?_drop, Nat.add_comm]

/-- An overlong form, a surrogate, a character broken off before a space, and a stray byte. -/
example : display [[0xC0, 0x80], [0xED, 0xA0, 0x80], [0xE2, 0x82], [0x80]] =
    "\uFFFD\uFFFD \uFFFD\uFFFD\uFFFD \uFFFD \uFFFD" := by
  decide

end ServerEntry.Arguments
