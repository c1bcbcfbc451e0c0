import ServerEntry.Launch
import ServerEntry.Proofs.HandOff
import ServerEntry.Proofs.Install.ServiceDirectories
import ServerEntry.Proofs.Locale.Library

/-!
# What a program inherits

Three writers prepare the variables of a role's program: the export of the service directories, the
negotiation of locales, and, for a single-user session, its target.  No two of them write the same
variable, and none writes what another one reads, so what the program finds in each variable can be
told from the environment at the start.
-/

namespace ServerEntry.Launch

open Text ServiceDirectories ServerEntry.Locale

/-- The variables in which a role is handed its process. -/
def outfit (host : Host) (build : Build) (env : Variables) : Variables :=
  Library.settled (installed env host.directory build.localizes)

def given (host : Host) (build : Build) (env : Variables) (call : DriverCall) : Variables :=
  (outfit host build env).assignEach (HandOff.assignments call)

def prepared (build : Build) : List String :=
  overrideVariable :: Category.all.map Category.variableName ++
    configurationVariable :: (if build.localizes then [catalogVariable] else [])

def touched (build : Build) (call : DriverCall) : List String :=
  prepared build ++ (HandOff.assignments call).map Prod.fst

/-- What a program finds in its variables, told by the environment at the start. -/
structure Inherits (build : Build) (directory : Bytes) (env : Variables) (call : DriverCall)
    (given : Variables) : Prop where
  override : given.value? overrideVariable = none
  locales : ∀ category : Category,
    given.value? category.variableName = some (Utf8.encode (Library.chosen env category))
  configuration : given.value? configurationVariable =
    some ((env.value? configurationVariable).getD
      (located Build.configurationDirectory directory))
  catalogs : build.localizes → given.value? catalogVariable =
    some ((env.value? catalogVariable).getD (located Build.catalogDirectory directory))
  session : ∀ target, call.target? = some target →
    given.value? SessionTarget.userVariable = some (Utf8.encode target.user) ∧
      given.value? SessionTarget.databaseVariable = some target.database
  others : ∀ name, name ∉ (touched build call).map Utf8.encode → given.get? name = env.get? name

/-! ## No clashes -/

theorem Category.variableName_ne {name : String}
    (h : name ∉ Category.all.map Category.variableName) (category : Category) :
    category.variableName ≠ name := by
  rintro rfl
  exact h (List.mem_map_of_mem category.mem_all)

theorem notMem_assignments {name : String}
    (h : name ∉ [SessionTarget.userVariable, SessionTarget.databaseVariable]) (call : DriverCall) :
    name ∉ (HandOff.assignments call).map Prod.fst := by
  rw [HandOff.names_of_assignments]
  split
  · exact h
  · simp

section Outfit

variable {host : Host} {build : Build} {env : Variables} {call : DriverCall}

theorem chosen_installed (category : Category) :
    Library.chosen (installed env host.directory build.localizes) category =
      Library.chosen env category := by
  have same : ∀ name, configurationVariable ≠ name → catalogVariable ≠ name →
      (installed env host.directory build.localizes).value? name = env.value? name := by
    intro name configuration catalogs
    apply get?_installed_of_ne <;> simp [configuration, catalogs]
  have ambient : Library.ambient (installed env host.directory build.localizes) category =
      Library.ambient env category := by
    apply Library.ambient_congr
    · exact same _ (by decide) (by decide)
    · exact same _ (Category.variableName_ne (by decide) category).symm
        (Category.variableName_ne (by decide) category).symm
    · exact same _ (by decide) (by decide)
  rw [Library.chosen, Library.chosen, ambient]

theorem get?_outfit_of_forall_ne {name : Bytes}
    (h : ∀ text ∈ prepared build, Utf8.encode text ≠ name) :
    (outfit host build env).get? name = env.get? name := by
  rw [outfit, Library.get?_settled_of_ne, get?_installed_of_ne]
  · exact h _ (by simp [prepared])
  · intro localizes
    exact h _ (by simp [prepared, localizes])
  · exact h _ (by simp [prepared])
  · intro category
    have listed : category.variableName ∈ Category.all.map Category.variableName :=
      List.mem_map_of_mem category.mem_all
    exact h _ (List.mem_append_left _ (List.mem_cons_of_mem _ listed))

theorem value?_outfit_of_notMem {name : String} (h : name ∉ prepared .full) :
    (outfit host build env).value? name = env.value? name := by
  apply get?_outfit_of_forall_ne
  rintro text mem same
  obtain rfl := Utf8.encode_inj.mp same
  apply h
  revert mem
  rw [prepared, prepared, List.mem_append, List.mem_append]
  apply Or.imp_right
  cases build.localizes <;> simp +contextual [Build.full]

theorem value?_given_of_notMem {name : String}
    (h : name ∉ [SessionTarget.userVariable, SessionTarget.databaseVariable]) :
    (given host build env call).value? name = (outfit host build env).value? name :=
  Variables.value?_assignEach_of_notMem (notMem_assignments h call)

theorem value?_given_override : (given host build env call).value? overrideVariable = none := by
  rw [value?_given_of_notMem (by decide), outfit, Library.value?_settled_override]

theorem value?_given_category (category : Category) :
    (given host build env call).value? category.variableName =
      some (Utf8.encode (Library.chosen env category)) := by
  have apart : category.variableName ∉
      [SessionTarget.userVariable, SessionTarget.databaseVariable] := by
    cases category <;> decide
  rw [value?_given_of_notMem apart, outfit, Library.value?_settled_category, chosen_installed]

theorem value?_given_directory {name : String}
    (h : name = configurationVariable ∨ name = catalogVariable) :
    (given host build env call).value? name =
      (installed env host.directory build.localizes).value? name := by
  have apart : name ∉ [SessionTarget.userVariable, SessionTarget.databaseVariable] := by
    rcases h with rfl | rfl <;> decide
  have override : Utf8.encode overrideVariable ≠ Utf8.encode name := by
    rw [ne_eq, Utf8.encode_inj]
    rcases h with rfl | rfl <;> decide
  have categories : ∀ category : Category,
      Utf8.encode category.variableName ≠ Utf8.encode name := by
    intro category
    rw [ne_eq, Utf8.encode_inj]
    rcases h with rfl | rfl <;> exact Category.variableName_ne (by decide) category
  rw [value?_given_of_notMem apart]
  exact Library.get?_settled_of_ne _ override categories

/-- No writer undoes what another one did. -/
theorem given_inherits {directory : Bytes} (located : host.directory = some directory) :
    Inherits build directory env call (given host build env call) where
  override := value?_given_override
  locales := value?_given_category
  configuration := by
    rw [value?_given_directory (.inl rfl), located, value?_installed_configuration]
  catalogs localizes := by
    rw [value?_given_directory (.inr rfl), located, localizes, value?_installed_catalogs]
  session target found := by
    have assigned : HandOff.assignments call = target.assignments := by
      simp [HandOff.assignments, found]
    have distinct : (target.assignments.map Prod.fst).Nodup := by
      simp [SessionTarget.assignments, SessionTarget.userVariable, SessionTarget.databaseVariable]
    rw [given, assigned]
    constructor
    · exact Variables.value?_assignEach_of_mem distinct (by simp [SessionTarget.assignments])
    · exact Variables.value?_assignEach_of_mem distinct (by simp [SessionTarget.assignments])
  others name h := by
    have apart : ∀ text ∈ touched build call, Utf8.encode text ≠ name := by
      rintro text mem rfl
      exact h (List.mem_map_of_mem mem)
    rw [given, Variables.get?_assignEach_of_forall_ne, get?_outfit_of_forall_ne]
    · exact fun text mem => apart text (List.mem_append_left _ mem)
    · exact fun assignment mem =>
        apart _ (List.mem_append_right _ (List.mem_map_of_mem mem))

end Outfit

end ServerEntry.Launch
