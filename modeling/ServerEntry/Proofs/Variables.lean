import ServerEntry.Install.ServiceDirectories
import ServerEntry.Proofs.Text.Utf8

/-!
# Variables set in turn

What a list of assignments does to an environment can be read off its names: the variables it names
get their values, and the others keep theirs.  Assigning what is there already, or removing what is
not, leaves even the order of an environment as it was.
-/

namespace ServerEntry

namespace Environment

variable {Name Value : Type} [DecidableEq Name] {env : Environment Name Value} {name : Name}
  {assignments : List (Name × Value)}

@[simp] theorem setAll_cons (assignment : Name × Value) :
    env.setAll (assignment :: assignments) =
      (env.set assignment.1 assignment.2).setAll assignments := rfl

theorem get?_setAll_of_notMem (h : name ∉ assignments.map Prod.fst) :
    (env.setAll assignments).get? name = env.get? name := by
  induction assignments generalizing env with
  | nil => rfl
  | cons assignment rest ih =>
      obtain ⟨different, absent⟩ : assignment.1 ≠ name ∧ name ∉ rest.map Prod.fst := by
        simpa [eq_comm] using h
      rw [setAll_cons, ih absent, get?_set, if_neg different]

theorem get?_setAll_of_mem {value : Value} (distinct : (assignments.map Prod.fst).Nodup)
    (h : (name, value) ∈ assignments) : (env.setAll assignments).get? name = some value := by
  induction assignments generalizing env with
  | nil => simp at h
  | cons assignment rest ih =>
      obtain ⟨absent, distinct⟩ := List.nodup_cons.mp distinct
      rcases List.mem_cons.mp h with rfl | later
      · rw [setAll_cons, get?_setAll_of_notMem absent, get?_set, if_pos rfl]
      · exact ih distinct later

theorem setAll_of_get? (h : ∀ assignment ∈ assignments, env.get? assignment.1 = some assignment.2) :
    env.setAll assignments = env := by
  induction assignments with
  | nil => rfl
  | cons assignment rest ih =>
      rw [setAll_cons, set_of_get? (h assignment List.mem_cons_self)]
      exact ih fun other mem => h other (List.mem_cons_of_mem _ mem)

end Environment

/-! ## Names that are text -/

namespace Variables

open Text

variable {env : Variables} {name : String} {value : Bytes} {assignments : List (String × Bytes)}

@[simp] theorem value?_assign (env : Variables) (name other : String) (value : Bytes) :
    (env.assign name value).value? other =
      if name = other then some value else env.value? other := by
  simp [value?, assign]

@[simp] theorem value?_remove (env : Variables) (name other : String) :
    (env.remove name).value? other = if name = other then none else env.value? other := by
  simp [value?, remove]

theorem remove_of_value? (h : env.value? name = none) : env.remove name = env :=
  Environment.unset_of_get? h

def assignEach (env : Variables) (assignments : List (String × Bytes)) : Variables :=
  env.setAll (assignments.map fun assignment => (Utf8.encode assignment.1, assignment.2))

@[simp] theorem assignEach_nil : env.assignEach [] = env := rfl

@[simp] theorem assignEach_cons (assignment : String × Bytes) :
    env.assignEach (assignment :: assignments) =
      (env.assign assignment.1 assignment.2).assignEach assignments := rfl

theorem assignEach_append (others : List (String × Bytes)) :
    env.assignEach (assignments ++ others) = (env.assignEach assignments).assignEach others := by
  simp [assignEach, Environment.setAll]

theorem get?_assignEach_of_forall_ne {name : Bytes}
    (h : ∀ assignment ∈ assignments, Utf8.encode assignment.1 ≠ name) :
    (env.assignEach assignments).get? name = env.get? name := by
  apply Environment.get?_setAll_of_notMem
  simpa using h

theorem value?_assignEach_of_notMem (h : name ∉ assignments.map Prod.fst) :
    (env.assignEach assignments).value? name = env.value? name := by
  apply get?_assignEach_of_forall_ne
  intro assignment mem same
  exact h (Utf8.encode_inj.mp same ▸ List.mem_map_of_mem mem)

theorem value?_assignEach_of_mem (distinct : (assignments.map Prod.fst).Nodup)
    (h : (name, value) ∈ assignments) : (env.assignEach assignments).value? name = some value := by
  apply Environment.get?_setAll_of_mem
  · rw [List.nodup_iff_pairwise_ne, List.pairwise_map] at distinct
    simpa [List.nodup_iff_pairwise_ne, List.pairwise_map] using distinct
  · exact List.mem_map.mpr ⟨_, h, rfl⟩

theorem assignEach_of_value?
    (h : ∀ assignment ∈ assignments, env.value? assignment.1 = some assignment.2) :
    env.assignEach assignments = env := by
  apply Environment.setAll_of_get?
  intro assignment mem
  obtain ⟨named, held, rfl⟩ := List.mem_map.mp mem
  exact h named held

end Variables

theorem ServiceDirectories.install_eq_assignEach (env : Variables)
    (assignments : List (String × Bytes)) :
    install env assignments = env.assignEach assignments := by
  induction assignments generalizing env with
  | nil => rfl
  | cons assignment rest ih => exact ih (env.assign assignment.1 assignment.2)

end ServerEntry
