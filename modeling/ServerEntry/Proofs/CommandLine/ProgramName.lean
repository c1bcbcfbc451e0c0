import ServerEntry.CommandLine.ProgramName
import ServerEntry.Proofs.Text.Offset

/-!
# The name of a program

A program goes by the longest ending of its path that holds no separator.  The ending is found by
two searches and the suffix by its place, both in bytes, and every place at which they cut lies
between characters.
-/

namespace ServerEntry.ProgramName

open Text

/-- The longest ending of a path that holds no separator of either kind. -/
structure Basename (path base : String) : Prop where
  ending : base.toList <:+ path.toList
  unslashed : '/' ∉ base.toList
  unbackslashed : '\\' ∉ base.toList
  longest : ∀ other, other <:+ path.toList → '/' ∉ other → '\\' ∉ other →
    other.length ≤ base.toList.length

/-- The `.exe` at the end of a name, in any case of ASCII letters. -/
def Executable (ending : String) : Prop := ending.toList.map Char.toLower = ['.', 'e', 'x', 'e']

/-! ## The last name -/

section AfterLast

variable {separator : Char} {path other : List Char}

theorem afterLast_suffix (separator : Char) (path : List Char) :
    afterLast separator path <:+ path := by
  rw [← List.reverse_prefix, afterLast, List.reverse_reverse]
  exact List.takeWhile_prefix _

theorem notMem_afterLast (separator : Char) (path : List Char) :
    separator ∉ afterLast separator path := by
  intro mem
  have kept := List.all_eq_true.mp List.all_takeWhile separator (List.mem_reverse.mp mem)
  exact bne_iff_ne.mp kept rfl

theorem suffix_afterLast (ends : other <:+ path) (absent : separator ∉ other) :
    other <:+ afterLast separator path := by
  obtain ⟨before, rfl⟩ := ends
  rw [afterLast, List.reverse_append,
    List.takeWhile_append_of_pos (Utf8.bne_of_mem_reverse absent), List.reverse_append,
    List.reverse_reverse]
  exact List.suffix_append _ other

theorem afterLast_of_notMem (h : separator ∉ path) : afterLast separator path = path :=
  (afterLast_suffix separator path).eq_of_length_le (suffix_afterLast (List.suffix_refl path) h).length_le

theorem exists_afterLast (h : separator ∈ path) :
    ∃ before, path = before ++ separator :: afterLast separator path := by
  obtain ⟨before, whole⟩ := afterLast_suffix separator path
  cases last : before.getLast? with
  | none =>
      rw [List.getLast?_eq_none_iff.mp last, List.nil_append] at whole
      exact absurd h (whole ▸ notMem_afterLast separator path)
  | some c =>
      obtain ⟨start, rfl⟩ := List.getLast?_eq_some_iff.mp last
      -- A character before the longest ending can only be a separator.
      by_cases same : c = separator
      · exact ⟨start, by simpa [same] using whole.symm⟩
      · have longer : c :: afterLast separator path <:+ afterLast separator path := by
          refine suffix_afterLast ⟨start, by simpa using whole⟩ ?_
          simp [Ne.symm same, notMem_afterLast]
        exact absurd longer.length_le (by simp)

end AfterLast

theorem basename_lastName (path : String) : Basename path (lastName path) where
  ending := by
    rw [lastName, String.toList_ofList]
    exact (afterLast_suffix _ _).trans (afterLast_suffix _ _)
  unslashed := by
    rw [lastName, String.toList_ofList]
    exact fun mem => notMem_afterLast _ _ ((afterLast_suffix _ _).mem mem)
  unbackslashed := by
    rw [lastName, String.toList_ofList]
    exact notMem_afterLast _ _
  longest := by
    intro other ends unslashed unbackslashed
    rw [lastName, String.toList_ofList]
    exact (suffix_afterLast (suffix_afterLast ends unslashed) unbackslashed).length_le

theorem Basename.unique {path base other : String} (h : Basename path base)
    (h' : Basename path other) : other = base := by
  have longer := h.longest _ h'.ending h'.unslashed h'.unbackslashed
  have shorter := h'.longest _ h.ending h.unslashed h.unbackslashed
  have ends := List.suffix_of_suffix_length_le h'.ending h.ending longer
  exact String.toList_inj.mp (ends.eq_of_length (Nat.le_antisymm longer shorter))

/-! ## The suffix -/

theorem stripSuffix_append {kept ending : String} (nonempty : kept ≠ "") (h : Executable ending) :
    stripSuffix (kept ++ ending) = kept := by
  have four : ending.toList.length = 4 := by simpa using congrArg List.length h
  have place : (kept.toList ++ ending.toList).length - executableSuffix.length =
      kept.toList.length := by
    rw [List.length_append, four]
    exact Nat.add_sub_cancel _ 4
  have left : 0 < kept.toList.length := List.length_pos_iff.mpr (by simpa using nonempty)
  simp only [stripSuffix, String.toList_append, place, List.drop_left, List.take_left]
  rw [if_pos ⟨left, h⟩, String.ofList_toList]

theorem stripSuffix_of_plain {name : String}
    (plain : ∀ kept ending, name = kept ++ ending → kept ≠ "" → ¬ Executable ending) :
    stripSuffix name = name := by
  refine if_neg fun ⟨left, spelled⟩ => ?_
  let place := name.toList.length - executableSuffix.length
  refine plain (.ofList (name.toList.take place)) (.ofList (name.toList.drop place)) ?_ ?_ ?_
  · exact String.toList_inj.mp (by simp)
  · intro empty
    have length := congrArg (List.length ∘ String.toList) empty
    simp only [Function.comp_apply, String.toList_ofList, List.length_take] at length
    change min place name.toList.length = 0 at length
    omega
  · rw [Executable, String.toList_ofList]
    exact spelled

theorem stripSuffix_prefix (name : String) : (stripSuffix name).toList <+: name.toList := by
  simp only [stripSuffix]
  split
  · rw [String.toList_ofList]
    exact List.take_prefix _ _
  · exact List.prefix_refl _

/-! ## By offsets -/

/-- What follows the last occurrence of a separator, cut off behind its one byte. -/
def behindLast? (separator : Char) (text : String) : Option String :=
  match Utf8.lastOffset? separator text with
  | none => some text
  | some offset => (Utf8.cutAt? text (offset + 1)).map Prod.snd

/-- Drops a final `.exe` of four bytes, if there is a boundary before it and something left. -/
def stripSuffixAt? (name : String) : Option String :=
  let place := Utf8.size name - 4
  if 4 < Utf8.size name ∧ Utf8.isBoundary (Utf8.encode name) place then
    (Utf8.cutAt? name place).map fun (kept, ending) =>
      if ending.toList.map Char.toLower = executableSuffix then kept else name
  else some name

/-- The program name as it is cut out of the bytes of a path; `none` if a cut divides a character. -/
def ofPathAt? (path : Option String) (windows : Bool) : Option String :=
  ((behindLast? '/' (path.getD "")).bind (behindLast? '\\')).bind fun base =>
    (if windows then stripSuffixAt? base else some base).map fun base =>
      if base = "" then fallback else base

theorem behindLast?_eq {separator : Char} (single : Utf8.size (.ofList [separator]) = 1)
    (text : String) :
    behindLast? separator text = some (.ofList (afterLast separator text.toList)) := by
  by_cases mem : separator ∈ text.toList
  · obtain ⟨before, whole⟩ := exists_afterLast mem
    generalize behind : afterLast separator text.toList = after at whole
    have absent : separator ∉ after := behind ▸ notMem_afterLast separator text.toList
    obtain rfl : text = .ofList (before ++ separator :: after) := by
      rw [← whole, String.ofList_toList]
    have cut : Utf8.cutAt? (.ofList (before ++ separator :: after))
        (Utf8.size (.ofList before) + 1) =
          some (.ofList before ++ .ofList [separator], .ofList after) := by
      refine Utf8.cutAt?_eq_some_iff.mpr ⟨?_, ?_⟩
      · exact String.toList_inj.mp (by simp)
      · rw [Utf8.size_append, single]
    simp only [behindLast?, Utf8.lastOffset?_append absent, cut, Option.map_some]
  · rw [behindLast?, Utf8.lastOffset?_of_notMem mem, afterLast_of_notMem mem, String.ofList_toList]

theorem size_executable {ending : String} (h : Executable ending) : Utf8.size ending = 4 := by
  have ascii : ∀ c ∈ ending.toList, c.toNat < 0x80 := by
    intro c mem
    have letter : c.toLower ∈ ['.', 'e', 'x', 'e'] := h ▸ List.mem_map_of_mem mem
    have small : c.toLower.toNat < 0x80 := by
      revert letter
      generalize c.toLower = d
      simp only [List.mem_cons, List.not_mem_nil, or_false]
      rintro (rfl | rfl | rfl | rfl) <;> decide
    unfold Char.toLower at small
    split at small
    · rename_i upper
      exact Nat.lt_of_le_of_lt upper.2 (by decide)
    · exact small
  rw [Utf8.size, Utf8.encode, Utf8.length_encode_ascii ascii]
  simpa using congrArg List.length h

theorem stripSuffixAt?_eq (name : String) : stripSuffixAt? name = some (stripSuffix name) := by
  by_cases suffixed : ∃ kept ending, name = kept ++ ending ∧ kept ≠ "" ∧ Executable ending
  · obtain ⟨kept, ending, rfl, nonempty, executable⟩ := suffixed
    have four := size_executable executable
    have left : Utf8.size kept ≠ 0 := mt Utf8.size_eq_zero_iff.mp nonempty
    have cut : Utf8.cutAt? (kept ++ ending) (Utf8.size (kept ++ ending) - 4) =
        some (kept, ending) :=
      Utf8.cutAt?_eq_some_iff.mpr ⟨rfl, by rw [Utf8.size_append, four, Nat.add_sub_cancel]⟩
    have guarded : 4 < Utf8.size (kept ++ ending) ∧
        Utf8.isBoundary (Utf8.encode (kept ++ ending)) (Utf8.size (kept ++ ending) - 4) := by
      refine ⟨?_, Utf8.isBoundary_iff.mpr ⟨kept, ending, cut⟩⟩
      rw [Utf8.size_append, four]
      omega
    simp only [stripSuffixAt?]
    rw [if_pos guarded, cut, Option.map_some, stripSuffix_append nonempty executable]
    exact congrArg some (if_pos executable)
  · have plain (kept ending : String) (whole : name = kept ++ ending) (nonempty : kept ≠ "") :
        ¬ Executable ending :=
      fun executable => suffixed ⟨kept, ending, whole, nonempty, executable⟩
    rw [stripSuffix_of_plain plain]
    simp only [stripSuffixAt?]
    split
    · rename_i guarded
      obtain ⟨kept, ending, cut⟩ := Utf8.isBoundary_iff.mp guarded.2
      obtain ⟨whole, place⟩ := Utf8.cutAt?_eq_some_iff.mp cut
      have nonempty : kept ≠ "" := by
        rw [ne_eq, ← Utf8.size_eq_zero_iff]
        omega
      rw [cut, Option.map_some]
      exact congrArg some (if_neg (plain kept ending whole nonempty))
    · rfl

theorem ofPathAt?_eq (path : Option String) (windows : Bool) :
    ofPathAt? path windows = some (ofPath path windows) := by
  rw [ofPathAt?, behindLast?_eq (by decide), Option.bind_some, behindLast?_eq (by decide),
    Option.bind_some, String.toList_ofList, ← lastName]
  cases windows with
  | false => rfl
  | true => simp only [ofPath, stripSuffixAt?_eq, if_true, Option.map_some]

/-! ## The name -/

theorem exists_ofPath_eq (path : Option String) (windows : Bool) :
    ∃ start, start.toList <+: (lastName (path.getD "")).toList ∧
      ofPath path windows = if start = "" then fallback else start := by
  cases windows with
  | false => exact ⟨_, List.prefix_refl _, rfl⟩
  | true =>
      refine ⟨_, stripSuffix_prefix (lastName (path.getD "")), ?_⟩
      simp only [ofPath, if_true]

theorem ofPath_ne_empty (path : Option String) (windows : Bool) : ofPath path windows ≠ "" := by
  obtain ⟨start, -, named⟩ := exists_ofPath_eq path windows
  rw [named]
  split
  · decide
  · assumption

theorem notMem_ofPath {c : Char} {path : Option String} (windows : Bool)
    (absent : c ∉ (lastName (path.getD "")).toList) (other : c ∉ fallback.toList) :
    c ∉ (ofPath path windows).toList := by
  obtain ⟨start, kept, named⟩ := exists_ofPath_eq path windows
  rw [named]
  split
  · exact other
  · exact fun mem => absent (kept.mem mem)

/--
A program's name is not empty and holds no separator, and cutting it out of the bytes of a path
divides no character.  It is the longest ending of the path without a separator, on Windows without
its `.exe` if something is left then, and `postgres` if there is nothing.
-/
theorem ofPath_basename (path : Option String) (windows : Bool) :
    let name := ofPath path windows
    (name ≠ "" ∧ '/' ∉ name.toList ∧ '\\' ∉ name.toList) ∧
    ofPathAt? path windows = some name ∧
    ∃ base, (∀ other, Basename (path.getD "") other ↔ other = base) ∧
      (windows = false → name = if base = "" then "postgres" else base) ∧
      (windows = true →
        (∀ kept ending, base = kept ++ ending → kept ≠ "" → Executable ending → name = kept) ∧
        ((∀ kept ending, base = kept ++ ending → kept ≠ "" → ¬ Executable ending) →
          name = if base = "" then "postgres" else base)) := by
  intro name
  have isBase : Basename (path.getD "") (lastName (path.getD "")) := basename_lastName _
  refine ⟨⟨ofPath_ne_empty path windows, notMem_ofPath windows isBase.unslashed (by decide),
    notMem_ofPath windows isBase.unbackslashed (by decide)⟩, ofPathAt?_eq path windows,
    lastName (path.getD ""), fun other => ⟨isBase.unique, fun same => same ▸ isBase⟩, ?_, ?_⟩
  · rintro rfl
    rfl
  · rintro rfl
    constructor
    · intro kept ending whole nonempty executable
      have stripped : stripSuffix (lastName (path.getD "")) = kept :=
        whole ▸ stripSuffix_append nonempty executable
      simp only [name, ofPath, if_true, stripped, if_neg nonempty]
    · intro plain
      simp only [name, ofPath, if_true, stripSuffix_of_plain plain]
      rfl

/-- Four bytes before the end of the second name there is no boundary. -/
example : ofPath (some "C:\\bin/π.EXE") true = "π" ∧ ofPath (some "/€exe") true = "€exe" ∧
    ofPath (some "\\.exe") true = ".exe" := by
  decide

end ServerEntry.ProgramName
