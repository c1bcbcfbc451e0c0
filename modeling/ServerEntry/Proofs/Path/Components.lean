import ServerEntry.Path.Basic

/-!
# Names and their components

A name goes on from a directory as the components of the one go on from those of the other: a root
starts anew, and a leading `.` vanishes behind anything.  So a name that is put together from
components has exactly these components.
-/

namespace ServerEntry.Path

namespace Component

/-- A component that may stand behind the start of a name. -/
def Inner (part : Component) : Prop := slash ∉ part.bytes ∧ inner? part.bytes = some part

def Starts (part : Component) : Prop := part = root ∨ part = here ∨ part.Inner

theorem Inner.ne_root {part : Component} (h : part.Inner) : part ≠ root := by
  rintro rfl
  exact h.1 (List.mem_singleton_self slash)

theorem Inner.ne_here {part : Component} (h : part.Inner) : part ≠ here := by
  rintro rfl
  simpa [inner?, bytes] using h.2

end Component

/-- The shape of the components of a name: only the first may be the root or a `.`. -/
def Proper : List Component → Prop
  | [] => True
  | first :: rest => first.Starts ∧ ∀ part ∈ rest, part.Inner

/-- The components of a name that goes on from a directory to a further name. -/
def extend (directory further : List Component) : List Component :=
  match further with
  | .root :: _ => further
  | .here :: rest => if directory = [] then further else directory ++ rest
  | _ => directory ++ further

@[simp] theorem extend_nil_left (further : List Component) : extend [] further = further := by
  unfold extend
  split <;> simp

@[simp] theorem extend_nil_right (directory : List Component) : extend directory [] = directory :=
  List.append_nil directory

theorem extend_of_inner {part : Component} (h : part.Inner) (directory rest : List Component) :
    extend directory (part :: rest) = directory ++ part :: rest := by
  cases part with
  | root => exact absurd rfl h.ne_root
  | here => exact absurd rfl h.ne_here
  | parent | name _ => rfl

theorem extend_of_forall_inner {further : List Component} (h : ∀ part ∈ further, part.Inner)
    (directory : List Component) : extend directory further = directory ++ further := by
  cases further with
  | nil => simp
  | cons part rest => exact extend_of_inner (h part List.mem_cons_self) directory rest

/-! ## Reading a name -/

theorem inner?_eq_some_iff {part : Bytes} {component : Component} :
    inner? part = some component ↔
      part ≠ [] ∧ part ≠ [dot] ∧
        component = if part = [dot, dot] then .parent else .name part := by
  unfold inner?
  split
  · rename_i nothing
    rcases nothing with rfl | rfl <;> simp
  · rename_i something
    rw [not_or] at something
    split <;> simp [something, eq_comm]

theorem bytes_of_inner? {part : Bytes} {component : Component}
    (h : inner? part = some component) : component.bytes = part := by
  obtain ⟨-, -, rfl⟩ := inner?_eq_some_iff.mp h
  split
  · rename_i same
    exact same.symm
  · rfl

theorem inner_of_inner? {part : Bytes} {component : Component} (whole : slash ∉ part)
    (h : inner? part = some component) : component.Inner := by
  obtain rfl := bytes_of_inner? h
  exact ⟨whole, h⟩

theorem inner_of_mem_split {path : Bytes} {component : Component}
    (h : component ∈ (split path).filterMap inner?) : component.Inner := by
  obtain ⟨part, mem, read⟩ := List.mem_filterMap.mp h
  exact inner_of_inner? (Text.notMem_of_mem_fields mem) read

theorem components_slash (rest : Bytes) :
    components (slash :: rest) = .root :: (split rest).filterMap inner? := by
  have parted : Text.fields slash rest ≠ [] := Text.fields_ne_nil slash rest
  simp [components, split, Text.fields, parted]

/-- The first field of a name that does not start at the root is empty only if the name is. -/
theorem exists_split_cons {byte : UInt8} (other : byte ≠ slash) (rest : Bytes) :
    ∃ field more, split (byte :: rest) = (byte :: field) :: more := by
  obtain ⟨field, more, cut⟩ := List.exists_cons_of_ne_nil (Text.fields_ne_nil slash rest)
  exact ⟨field, more, by simp [split, Text.fields, other, cut]⟩

theorem components_cons {byte : UInt8} (other : byte ≠ slash) (rest : Bytes) :
    ∃ first more, components (byte :: rest) = first :: more ∧
      ((first = .here ∧ more = (split (byte :: rest)).filterMap inner?) ∨
        (first.Inner ∧ first :: more = (split (byte :: rest)).filterMap inner?)) := by
  obtain ⟨field, more, whole⟩ := exists_split_cons other rest
  by_cases dotted : byte :: field = [dot]
  · refine ⟨.here, more.filterMap inner?, ?_, .inl ⟨rfl, ?_⟩⟩
    · simp [components, whole, dotted]
    · simp [whole, dotted, inner?]
  · obtain ⟨first, read⟩ : ∃ first, inner? (byte :: field) = some first :=
      ⟨_, inner?_eq_some_iff.mpr ⟨List.cons_ne_nil _ _, dotted, rfl⟩⟩
    have kept : (split (byte :: rest)).filterMap inner? = first :: more.filterMap inner? := by
      rw [whole, List.filterMap_cons_some read]
    refine ⟨first, more.filterMap inner?, ?_, .inr ⟨?_, kept.symm⟩⟩
    · simp [components, whole, dotted, read]
    · exact inner_of_mem_split (kept ▸ List.mem_cons_self)

theorem components_eq_nil_iff {path : Bytes} : components path = [] ↔ path = [] := by
  cases path with
  | nil => exact iff_of_true rfl rfl
  | cons byte rest =>
      apply iff_of_false _ (List.cons_ne_nil byte rest)
      by_cases rooted : byte = slash
      · rw [rooted, components_slash]
        exact List.cons_ne_nil _ _
      · obtain ⟨first, more, read, -⟩ := components_cons rooted rest
        rw [read]
        exact List.cons_ne_nil first more

theorem components_proper (path : Bytes) : Proper (components path) := by
  cases path with
  | nil => trivial
  | cons byte rest =>
      by_cases rooted : byte = slash
      · rw [rooted, components_slash]
        exact ⟨.inl rfl, fun part => inner_of_mem_split⟩
      · obtain ⟨first, more, read, ⟨rfl, rfl⟩ | ⟨inner, kept⟩⟩ := components_cons rooted rest
        · rw [read]
          exact ⟨.inr (.inl rfl), fun part => inner_of_mem_split⟩
        · rw [read]
          exact ⟨.inr (.inr inner), fun part mem =>
            inner_of_mem_split (kept ▸ List.mem_cons_of_mem first mem)⟩

/-! ## Going on from a directory -/

/-- Behind a directory there is no start any more: a `.` there means nothing. -/
theorem components_append_slash {directory : Bytes} (nonempty : directory ≠ []) (further : Bytes) :
    components (directory ++ slash :: further) =
      components directory ++ (split further).filterMap inner? := by
  have parted : Text.fields slash further ≠ [] := Text.fields_ne_nil slash further
  cases cut : split directory with
  | nil => exact absurd cut (Text.fields_ne_nil slash directory)
  | cons first parts =>
      have whole : split (directory ++ slash :: further) = first :: (parts ++ split further) := by
        rw [split, Text.fields_append_cons, ← split, ← split, cut, List.cons_append]
      -- Only an empty directory has a single empty field.
      have rooted : first = [] → parts ≠ [] := by
        rintro rfl rfl
        have back := Text.intercalate_fields slash directory
        rw [← split, cut] at back
        exact nonempty (by simpa [List.intercalate] using back.symm)
      simp only [components, cut, whole, List.filterMap_append]
      by_cases empty : first = []
      · simp [empty, rooted empty]
      · simp [empty]

/-- A slash between a directory and a further name, unless the directory ends in one. -/
theorem components_push_relative {directory further : Bytes} (nonempty : directory ≠ [])
    (relative : ¬ isAbsolute further) :
    components (push directory further) =
      components directory ++ (split further).filterMap inner? := by
  rw [push, if_neg relative]
  by_cases ended : directory.getLast? = some slash
  · obtain ⟨before, rfl⟩ := List.getLast?_eq_some_iff.mp ended
    rw [if_pos (.inr ended), List.append_assoc, List.singleton_append]
    cases before with
    | nil => simp [components_slash, split, Text.fields, inner?]
    | cons byte rest =>
        simp only [components_append_slash (List.cons_ne_nil byte rest)]
        simp [split, Text.fields, inner?]
  · rw [if_neg (by simp [nonempty, ended]), components_append_slash nonempty]

theorem components_push (directory further : Bytes) :
    components (push directory further) = extend (components directory) (components further) := by
  by_cases rooted : isAbsolute further
  · obtain ⟨rest, rfl⟩ : ∃ rest, further = slash :: rest :=
      List.head?_eq_some_iff.mp (of_decide_eq_true rooted)
    rw [push, if_pos rooted, components_slash]
    rfl
  by_cases empty : directory = []
  · rw [push, if_neg rooted, if_pos (.inl empty), empty, List.nil_append]
    exact (extend_nil_left _).symm
  rw [components_push_relative empty rooted]
  cases further with
  | nil => simp [components, split, Text.fields, inner?]
  | cons byte rest =>
      have other : byte ≠ slash := by simpa [isAbsolute] using rooted
      obtain ⟨first, more, read, ⟨rfl, rfl⟩ | ⟨inner, kept⟩⟩ := components_cons other rest
      · rw [read, extend, if_neg (mt components_eq_nil_iff.mp empty)]
      · rw [read, extend_of_inner inner, kept]

/-! ## Putting a name together -/

theorem components_bytes {part : Component} (h : part.Starts) : components part.bytes = [part] := by
  rcases h with rfl | rfl | ⟨whole, read⟩
  · rfl
  · rfl
  · obtain ⟨nonempty, notHere, -⟩ := inner?_eq_some_iff.mp read
    have cut : split part.bytes = [part.bytes] := Text.fields_of_notMem whole
    simp [components, cut, nonempty, notHere, read]

theorem components_foldl_push_inner {parts : List Component} (h : ∀ part ∈ parts, part.Inner)
    (directory : Bytes) :
    components (parts.foldl (fun path part => push path part.bytes) directory) =
      components directory ++ parts := by
  induction parts generalizing directory with
  | nil => simp
  | cons part rest ih =>
      obtain ⟨inner, behind⟩ := List.forall_mem_cons.mp h
      rw [List.foldl_cons, ih behind, components_push, components_bytes (.inr (.inr inner)),
        extend_of_inner inner, List.append_assoc, List.singleton_append]

theorem components_foldl_push {parts : List Component} (h : Proper parts) (directory : Bytes) :
    components (parts.foldl (fun path part => push path part.bytes) directory) =
      extend (components directory) parts := by
  cases parts with
  | nil => simp
  | cons first rest =>
      obtain ⟨start, inner⟩ := h
      rw [List.foldl_cons, components_foldl_push_inner inner, components_push,
        components_bytes start]
      rcases start with rfl | rfl | first
      · rfl
      · simp only [extend]
        split <;> simp
      · simp [extend_of_inner first]

theorem components_ofComponents {parts : List Component} (h : Proper parts) :
    components (ofComponents parts) = parts := by
  rw [ofComponents, components_foldl_push h, components_eq_nil_iff.mpr rfl, extend_nil_left]

theorem components_ofComponents_append {parts others : List Component} (h : Proper parts)
    (h' : Proper others) : components (ofComponents (parts ++ others)) = extend parts others := by
  rw [ofComponents, List.foldl_append, components_foldl_push h', ← ofComponents,
    components_ofComponents h]

end ServerEntry.Path
