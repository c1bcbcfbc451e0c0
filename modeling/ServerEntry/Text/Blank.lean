/-!
White space as the Unicode property White_Space has it, and trimming by it.

The lemmas say that what is trimmed away is blank, and that blanks around a solid word are all that
is trimmed away.
-/

namespace ServerEntry.Text

/-- The code points with the property White_Space, as closed ranges in ascending order. -/
def blankRanges : List (Nat × Nat) :=
  [(0x0009, 0x000D), (0x0020, 0x0020), (0x0085, 0x0085), (0x00A0, 0x00A0), (0x1680, 0x1680),
   (0x2000, 0x200A), (0x2028, 0x2029), (0x202F, 0x202F), (0x205F, 0x205F), (0x3000, 0x3000)]

def isBlank (c : Char) : Bool :=
  blankRanges.any fun range => range.1 ≤ c.toNat && c.toNat ≤ range.2

example : isBlank ' ' ∧ isBlank '\t' ∧ isBlank '\u3000' ∧ ¬ isBlank '\u200B' := by decide

/-- Twenty-five code points are blank. -/
example : (blankRanges.map fun range => range.2 + 1 - range.1).sum = 25 := by decide

def trim (text : List Char) : List Char :=
  ((text.dropWhile isBlank).reverse.dropWhile isBlank).reverse

theorem isBlank_of_isAlpha {c : Char} (h : c.isAlpha) : isBlank c = false := by
  have letters : 65 ≤ c.toNat ∧ c.toNat ≤ 122 := by
    rcases Bool.or_eq_true_iff.mp h with upper | lower
    · have range : 65 ≤ c.toNat ∧ c.toNat ≤ 90 := of_decide_eq_true upper
      omega
    · obtain ⟨low, high⟩ := Bool.and_eq_true_iff.mp lower
      have range : 97 ≤ c.toNat ∧ c.toNat ≤ 122 := ⟨of_decide_eq_true low, of_decide_eq_true high⟩
      omega
  simp [isBlank, blankRanges]
  omega

theorem dropWhile_isBlank_append {blanks rest : List Char} (blank : ∀ c ∈ blanks, isBlank c)
    (solid : ∀ c ∈ rest.head?, isBlank c = false) :
    (blanks ++ rest).dropWhile isBlank = rest := by
  rw [List.dropWhile_append_of_pos blank]
  cases rest with
  | nil => rfl
  | cons c rest => simp [solid c rfl]

theorem exists_eq_trim (text : List Char) :
    ∃ before after, text = before ++ trim text ++ after ∧ (∀ c ∈ before, isBlank c) ∧
      ∀ c ∈ after, isBlank c := by
  let rest := text.dropWhile isBlank
  let trailing := rest.reverse.takeWhile isBlank
  have cut : rest = trim text ++ trailing.reverse := by
    rw [trim, ← List.reverse_append, List.takeWhile_append_dropWhile, List.reverse_reverse]
  refine ⟨text.takeWhile isBlank, trailing.reverse, ?_, ?_, ?_⟩
  · rw [List.append_assoc, ← cut, List.takeWhile_append_dropWhile]
  · exact List.all_eq_true.mp List.all_takeWhile
  · intro c mem
    exact List.all_eq_true.mp List.all_takeWhile c (List.mem_reverse.mp mem)

theorem trim_append {before word after : List Char} (blank : ∀ c ∈ before, isBlank c)
    (blank' : ∀ c ∈ after, isBlank c) (nonempty : word ≠ [])
    (solid : ∀ c ∈ word, isBlank c = false) : trim (before ++ word ++ after) = word := by
  have started : (before ++ word ++ after).dropWhile isBlank = word ++ after := by
    rw [List.append_assoc]
    refine dropWhile_isBlank_append blank fun c first => solid c ?_
    obtain ⟨start, rest, rfl⟩ := List.exists_cons_of_ne_nil nonempty
    exact List.mem_of_head? first
  have ended : (word ++ after).reverse.dropWhile isBlank = word.reverse := by
    rw [List.reverse_append]
    refine dropWhile_isBlank_append (by simpa using blank') fun c last => solid c ?_
    exact List.mem_reverse.mp (List.mem_of_head? last)
  rw [trim, started, ended, List.reverse_reverse]

end ServerEntry.Text
