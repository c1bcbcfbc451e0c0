import ServerEntry.Install.Build
import ServerEntry.Path.Relocation
import ServerEntry.Proofs.Path.Components

/-!
# Where a moved installation keeps its files

The place of a file goes on from the beginning of the program's directory as it goes on from the
layout's.  For a layout that starts at the root this beginning can be read off the new place again,
so moves can be made one after the other, and taken back.
-/

namespace ServerEntry.Path

open Text

/-! ## Where two lists part -/

/-- The longest common beginning of two lists, and what follows it in each of them. -/
structure Parting {α : Type} (left right common leftRest rightRest : List α) : Prop where
  left_eq : left = common ++ leftRest
  right_eq : right = common ++ rightRest
  longest : ∀ other, other <+: left → other <+: right → other.length ≤ common.length

section Parting

variable {α : Type} {left right common leftRest rightRest : List α}

theorem Parting.of_apart (common : List α)
    (apart : ∀ first ∈ leftRest.head?, first ∉ rightRest.head?) :
    Parting (common ++ leftRest) (common ++ rightRest) common leftRest rightRest where
  left_eq := rfl
  right_eq := rfl
  longest := by
    refine fun other before before' => Nat.le_of_not_lt fun longer => ?_
    obtain ⟨more, rfl⟩ := List.prefix_of_prefix_length_le (List.prefix_append common leftRest)
      before (Nat.le_of_lt longer)
    cases more with
    | nil => simp at longer
    | cons first more =>
        obtain ⟨_, rfl⟩ := (List.prefix_append_right_inj common).mp before
        obtain ⟨_, rfl⟩ := (List.prefix_append_right_inj common).mp before'
        exact apart first rfl rfl

theorem Parting.apart (h : Parting left right common leftRest rightRest) :
    ∀ first ∈ leftRest.head?, first ∉ rightRest.head? := by
  intro first mem mem'
  obtain ⟨rest, rfl⟩ := List.head?_eq_some_iff.mp mem
  obtain ⟨rest', rfl⟩ := List.head?_eq_some_iff.mp mem'
  have longer := h.longest (common ++ [first])
    (by simp [h.left_eq, List.prefix_append_right_inj])
    (by simp [h.right_eq, List.prefix_append_right_inj])
  simp only [List.length_append, List.length_singleton] at longer
  omega

variable [DecidableEq α]

theorem afterCommon_append (common leftRest rightRest : List α) :
    afterCommon (common ++ leftRest) (common ++ rightRest) = afterCommon leftRest rightRest := by
  induction common with
  | nil => rfl
  | cons first common ih => simpa [afterCommon] using ih

theorem afterCommon_of_apart (h : ∀ first ∈ leftRest.head?, first ∉ rightRest.head?) :
    afterCommon leftRest rightRest = (leftRest, rightRest) := by
  cases leftRest with
  | nil => simp [afterCommon]
  | cons first rest =>
      cases rightRest with
      | nil => rfl
      | cons first' rest' =>
          have different : first ≠ first' := by simpa [eq_comm] using h
          simp [afterCommon, different]

theorem Parting.afterCommon_eq (h : Parting left right common leftRest rightRest) :
    afterCommon left right = (leftRest, rightRest) := by
  rw [h.left_eq, h.right_eq, afterCommon_append, afterCommon_of_apart h.apart]

theorem exists_parting (left right : List α) :
    ∃ common, Parting left right common (afterCommon left right).1 (afterCommon left right).2 := by
  fun_induction afterCommon left right with
  | case1 rest first rest' ih =>
      obtain ⟨common, parting⟩ := ih
      refine ⟨first :: common, ?_⟩
      have longer := Parting.of_apart (first :: common) parting.apart
      rwa [List.cons_append, List.cons_append, ← parting.left_eq, ← parting.right_eq] at longer
  | case2 first rest first' rest' different =>
      exact ⟨[], .of_apart [] (by simpa [eq_comm] using different)⟩
  | case3 left right short =>
      refine ⟨[], .of_apart [] ?_⟩
      intro first mem mem'
      obtain ⟨_, rfl⟩ := List.head?_eq_some_iff.mp mem
      obtain ⟨_, rfl⟩ := List.head?_eq_some_iff.mp mem'
      exact short _ _ _ _ rfl rfl

theorem beforeEnding?_eq_some_iff {ending parts beginning : List α} :
    beforeEnding? ending parts = some beginning ↔ parts = beginning ++ ending := by
  unfold beforeEnding?
  constructor
  · intro h
    split at h
    · rename_i ended
      obtain rfl := Option.some.inj h
      exact (List.take_append_drop _ parts).symm.trans (congrArg _ ended)
    · contradiction
  · rintro rfl
    simp

end Parting

/-! ## Relocation -/

theorem Proper.left {parts others : List Component} (h : Proper (parts ++ others)) :
    Proper parts := by
  cases parts with
  | nil => trivial
  | cons first rest => exact ⟨h.1, fun part mem => h.2 part (List.mem_append_left others mem)⟩

/-- What stands behind a start holds no start. -/
theorem Proper.inner {parts others : List Component} (h : Proper (parts ++ others))
    (nonempty : parts ≠ []) : ∀ part ∈ others, part.Inner := by
  cases parts with
  | nil => contradiction
  | cons first rest => exact fun part mem => h.2 part (List.mem_append_right rest mem)

theorem Proper.right {parts others : List Component} (h : Proper (parts ++ others)) :
    Proper others := by
  cases parts with
  | nil => exact h
  | cons first rest =>
      have inner := h.inner (List.cons_ne_nil first rest)
      cases others with
      | nil => trivial
      | cons part more =>
          exact ⟨.inr (.inr (inner part List.mem_cons_self)),
            fun part mem => inner part (List.mem_cons_of_mem _ mem)⟩

section Relocate

variable {target programs current : Bytes} {common targetRest programsRest : List Component}

theorem relocate_of_ending (h : Parting (components target) (components programs) common
      targetRest programsRest) {beginning : List Component}
    (moved : components current = beginning ++ programsRest) :
    relocate target programs current = ofComponents (beginning ++ targetRest) := by
  simp only [relocate, h.afterCommon_eq, beforeEnding?_eq_some_iff.mpr moved]

theorem relocate_of_elsewhere (h : Parting (components target) (components programs) common
      targetRest programsRest)
    (elsewhere : ¬ ∃ beginning, components current = beginning ++ programsRest) :
    relocate target programs current = target := by
  have stays : beforeEnding? programsRest (components current) = none :=
    Option.eq_none_iff_forall_not_mem.mpr fun beginning found =>
      elsewhere ⟨beginning, beforeEnding?_eq_some_iff.mp found⟩
  simp only [relocate, h.afterCommon_eq, stays]

theorem components_relocate_of_ending (h : Parting (components target) (components programs)
      common targetRest programsRest) {beginning : List Component}
    (moved : components current = beginning ++ programsRest) :
    components (relocate target programs current) = extend beginning targetRest := by
  rw [relocate_of_ending h moved]
  apply components_ofComponents_append
  · exact (moved ▸ components_proper current).left
  · exact (h.left_eq ▸ components_proper target).right

theorem components_relocate_self (h : Parting (components target) (components programs) common
      targetRest programsRest) :
    components (relocate target programs programs) = components target := by
  rw [relocate_of_ending h h.right_eq, ← h.left_eq,
    components_ofComponents (components_proper target)]

end Relocate

/--
What a relocation gives.  A program directory that ends as the layout's ends behind the common
beginning stands for a moved installation: the target's rest goes on from what precedes that ending.
Any other directory leaves the target as it is spelled.
-/
theorem components_relocate (target programs current : Bytes) :
    ∃ common targetRest programsRest,
      Parting (components target) (components programs) common targetRest programsRest ∧
      (∀ beginning, beforeEnding? programsRest (components current) = some beginning ↔
        components current = beginning ++ programsRest) ∧
      (∀ beginning, components current = beginning ++ programsRest →
        programsRest.length ≤ (components current).length ∧
        components (relocate target programs current) = extend beginning targetRest) ∧
      ((¬ ∃ beginning, components current = beginning ++ programsRest) →
        relocate target programs current = target) ∧
      components (relocate target programs programs) = components target := by
  obtain ⟨common, parting⟩ := exists_parting (components target) (components programs)
  refine ⟨common, _, _, parting, fun beginning => beforeEnding?_eq_some_iff, ?_,
    relocate_of_elsewhere parting, components_relocate_self parting⟩
  intro beginning moved
  exact ⟨by simp [moved], components_relocate_of_ending parting moved⟩

/-! ## Moves in a row -/

theorem components_of_isAbsolute {path : Bytes} (h : isAbsolute path) :
    (components path).head? = some .root := by
  obtain ⟨rest, rfl⟩ := List.head?_eq_some_iff.mp (of_decide_eq_true h)
  rw [components_slash]
  rfl

section Absolute

variable {target programs first second : Bytes} {common targetRest programsRest : List Component}

/-- Two names from the root have at least the root in common. -/
theorem common_ne_nil (h : Parting (components target) (components programs) common targetRest
      programsRest) (absolute : isAbsolute target) (absolute' : isAbsolute programs) :
    common ≠ [] := by
  rintro rfl
  have start := components_of_isAbsolute absolute
  have start' := components_of_isAbsolute absolute'
  rw [h.left_eq, List.nil_append] at start
  rw [h.right_eq, List.nil_append] at start'
  exact h.apart .root start start'

/-- The new place and the new program directory part where the old ones did. -/
theorem parting_relocate (h : Parting (components target) (components programs) common targetRest
      programsRest) (absolute : isAbsolute target) (absolute' : isAbsolute programs)
    {beginning : List Component} (moved : components first = beginning ++ programsRest) :
    Parting (components (relocate target programs first)) (components first) beginning targetRest
      programsRest := by
  have inner : ∀ part ∈ targetRest, part.Inner :=
    (h.left_eq ▸ components_proper target).inner (common_ne_nil h absolute absolute')
  rw [components_relocate_of_ending h moved, extend_of_forall_inner inner, moved]
  exact .of_apart beginning h.apart

theorem relocate_relocate_of_ending (h : Parting (components target) (components programs) common
      targetRest programsRest) (absolute : isAbsolute target) (absolute' : isAbsolute programs)
    (moved : programsRest <:+ components first) (movedOn : programsRest <:+ components second) :
    relocate (relocate target programs first) first second = relocate target programs second := by
  obtain ⟨beginning, moved⟩ := moved
  obtain ⟨beginning', movedOn⟩ := movedOn
  have parting := parting_relocate h absolute absolute' moved.symm
  rw [relocate_of_ending parting movedOn.symm, relocate_of_ending h movedOn.symm]

end Absolute

/--
A move from the layout and a further move come to the same as one move, byte for byte, and a move
back gives the target its components again.
-/
theorem relocate_relocate {target programs first : Bytes}
    {common targetRest programsRest : List Component}
    (absolute : isAbsolute target) (absolute' : isAbsolute programs)
    (parting : Parting (components target) (components programs) common targetRest programsRest)
    (moved : programsRest <:+ components first) :
    (∀ second, programsRest <:+ components second →
      relocate (relocate target programs first) first second = relocate target programs second) ∧
    components (relocate (relocate target programs first) first programs) =
      components target := by
  refine ⟨fun second movedOn => ?_, ?_⟩
  · exact relocate_relocate_of_ending parting absolute absolute' moved movedOn
  · rw [relocate_relocate_of_ending parting absolute absolute' moved ⟨common, parting.right_eq.symm⟩,
      components_relocate_self parting]

/-- From the layout to a directory of its own, and on to one that is named from the current one. -/
theorem relocate_relocate_catalogs :
    let catalogs := Utf8.encode Build.catalogDirectory
    let programs := Utf8.encode Build.programDirectory
    let first := Utf8.encode "//opt/./bin/bin/"
    let second := Utf8.encode "../bin"
    isAbsolute catalogs ∧ isAbsolute programs ∧
      [.name (Utf8.encode "bin")] <:+ components first ∧
      [.name (Utf8.encode "bin")] <:+ components second ∧
      relocate catalogs programs first = Utf8.encode "/opt/bin/share/locale" ∧
      relocate (Utf8.encode "/opt/bin/share/locale") first second =
        relocate catalogs programs second ∧
      components (relocate (Utf8.encode "/opt/bin/share/locale") first programs) =
        components catalogs := by
  intro catalogs programs first second
  obtain ⟨common, parting⟩ := exists_parting (components catalogs) (components programs)
  have rests : afterCommon (components catalogs) (components programs) =
      ([.name (Utf8.encode "share"), .name (Utf8.encode "locale")],
        [.name (Utf8.encode "bin")]) := by decide
  rw [rests] at parting
  have moved : [.name (Utf8.encode "bin")] <:+ components first := by decide
  have movedOn : [.name (Utf8.encode "bin")] <:+ components second := by decide
  have there : relocate catalogs programs first = Utf8.encode "/opt/bin/share/locale" := by
    decide
  obtain ⟨further, back⟩ := relocate_relocate (by decide) (by decide) parting moved
  rw [there] at further back
  exact ⟨by decide, by decide, moved, movedOn, there, further second movedOn, back⟩

end ServerEntry.Path
