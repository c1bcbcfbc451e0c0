import ServerEntry.Proofs.Launch.Ending

/-!
# Running again in an inherited environment

A worker starts as a copy of the server program, in the environment that its parent has left.  That
environment is at rest: its locales are settled, nothing overrides them, the service directories are
exported, and a session's target is set.  So the second run prepares nothing anew, and the process
is replaced by the very same image.
-/

namespace ServerEntry.Launch

open Text ServiceDirectories ServerEntry.Locale

variable {host : Host} {build : Build} {arguments : Arguments} {env : Variables}
  {call : DriverCall} {image : Image}

/-! ## Which image takes over -/

theorem depart_ending_iff {preparation : Preparation} {program : String}
    {departure : HandOff.Departure} {out : Bytes} :
    (depart preparation program departure out).ending = .replaced image ↔
      departure.replacement = .done image := by
  rw [depart]
  cases departure.replacement <;> simp

theorem replacement_eq_done_iff :
    (HandOff.depart host.execute host.directory call (outfit host build env)).replacement =
        .done image ↔
      0 ∉ (imageOf host build env call).program ∧ (∀ argument ∈ call.arguments, 0 ∉ argument) ∧
        (∀ assignment ∈ HandOff.assignments call,
          Variables.canHold assignment.1 assignment.2) ∧
        image = imageOf host build env call ∧ host.execute image = none := by
  rw [HandOff.depart, value?_outfit_of_notMem (overrideVariable_notMem_prepared call.role)]
  exact HandOff.replace_eq_done_iff

/-- A process is replaced exactly if its role may be played and the role's image can be started. -/
theorem run_eq_replaced_iff :
    (run host build arguments env).ending = .replaced image ↔
      ∃ call,
        Privilege.guard (invocation build arguments) (identity host arguments) = .ok () ∧
        DriverCall.ofMode (invocation build arguments).mode arguments (identity host arguments) =
          .ok (some call) ∧
        0 ∉ (imageOf host build env call).program ∧ (∀ argument ∈ call.arguments, 0 ∉ argument) ∧
        (∀ assignment ∈ HandOff.assignments call,
          Variables.canHold assignment.1 assignment.2) ∧
        image = imageOf host build env call ∧ host.execute image = none := by
  rw [run_conclude]
  constructor
  · intro h
    have stops := @startup_stops host build arguments env
    generalize (startup host build arguments env).stop = stop at stops h
    generalize (startup host build arguments env).out.taken = out at stops h
    cases stops with
    | informed => simp [conclude] at h
    | refused role guard =>
        have status := exitCode_of_check (Startup.guard_eq_error_iff.mp guard).2
        simp [conclude_failed _ _ _ status] at h
    | unnamed single guard unknown =>
        simp [conclude_failed _ _ _ (exitCode_of_userName unknown)] at h
    | @departs call guard made =>
        exact ⟨call, guard, made, replacement_eq_done_iff.mp (depart_ending_iff.mp h)⟩
  · rintro ⟨call, guard, made, started⟩
    have role : (invocation build arguments).mode.role?.isSome := by
      rw [(handsOver_of_ofMode made).role, Option.isSome_some]
    rw [startup_departs role guard made, conclude, depart_ending_iff]
    exact replacement_eq_done_iff.mpr started

/-! ## The inherited environment -/

theorem given_atRest : Library.AtRest (given host build env call) := by
  apply (Library.settled_atRest (installed env host.directory build.localizes)).congr
  · exact value?_given_of_notMem (by decide)
  · intro category
    apply value?_given_of_notMem
    cases category <;> decide

theorem missing_given :
    missing (given host build env call) host.directory build.localizes = [] := by
  rw [missing_congr (value?_given_directory (.inl rfl)) (value?_given_directory (.inr rfl)),
    missing_installed]

theorem given_given :
    given host build (given host build env call) call = given host build env call := by
  have prepared : outfit host build (given host build env call) = given host build env call := by
    rw [outfit, installed, missing_given, Variables.assignEach_nil, given_atRest.settled_eq]
  rw [given, prepared]
  apply Variables.assignEach_of_value?
  intro assignment mem
  apply Variables.value?_assignEach_of_mem _ mem
  rw [HandOff.names_of_assignments]
  split <;> decide

theorem imageOf_imageOf :
    imageOf host build (imageOf host build env call).env call = imageOf host build env call := by
  have override : (given host build env call).value? call.role.overrideVariable =
      env.value? call.role.overrideVariable := by
    rw [value?_given_of_notMem, value?_outfit_of_notMem]
    · exact overrideVariable_notMem_prepared call.role
    · cases call.role <;> decide
  change imageOf host build (given host build env call) call = _
  rw [imageOf, imageOf, override, given_given]

/--
A process that was replaced by an image is replaced by it once more when it is run in the image's
own environment.  On the way no service directory is exported, every category gets the locale that
it asks for, and no variable changes.
-/
theorem run_again (h : (run host build arguments env).ending = .replaced image) :
    let directories := missing image.env host.directory build.localizes
    let negotiation :=
      negotiate Library.backend false (Library.start (install image.env directories))
    (run host build arguments image.env).ending = .replaced image ∧
      directories = [] ∧
      negotiation.failure = none ∧
      negotiation.settings.map Setting.category = Category.all ∧
      (∀ setting ∈ negotiation.settings, setting.fellBack = false) ∧
      negotiation.state.env = image.env := by
  intro directories negotiation
  obtain ⟨call, guard, made, named, handed, assigned, rfl, accepted⟩ := run_eq_replaced_iff.mp h
  have nothing : directories = [] := missing_given
  have rest : Library.AtRest (imageOf host build env call).env := given_atRest
  refine ⟨?_, nothing, ?_⟩
  · -- The command line and the identity are the same, so the second run makes the same call.
    apply run_eq_replaced_iff.mpr
    refine ⟨call, guard, made, ?_, handed, assigned, imageOf_imageOf.symm, accepted⟩
    rwa [imageOf_imageOf]
  · simp only [negotiation, nothing, install_eq_assignEach, Variables.assignEach_nil,
      Library.negotiate_eq, Library.start]
    refine ⟨trivial, ?_, fun setting made => rest.fellBack made, rest.settled_eq⟩
    simp [Library.settings, Library.answer, Function.comp_def]

/-- An override that is empty, a category that falls back, and one that follows the language. -/
def untidy : Variables :=
  ⟨[(Utf8.encode "LC_ALL", []), (Utf8.encode "LC_CTYPE", Utf8.encode "nowhere"),
    (Utf8.encode "LANG", Utf8.encode "C.UTF-8")]⟩

/-- What a supervisor finds after a start with `untidy` variables. -/
def tidied : Variables :=
  ⟨[(Utf8.encode "LC_CTYPE", Utf8.encode "C"), (Utf8.encode "LANG", Utf8.encode "C.UTF-8"),
    (Utf8.encode "PGSYSCONFDIR", Utf8.encode "/usr/local/pgsql/etc"),
    (Utf8.encode "LC_COLLATE", Utf8.encode "C.UTF-8"),
    (Utf8.encode "LC_MESSAGES", Utf8.encode "C.UTF-8"),
    (Utf8.encode "LC_MONETARY", Utf8.encode "C"), (Utf8.encode "LC_NUMERIC", Utf8.encode "C"),
    (Utf8.encode "LC_TIME", Utf8.encode "C")]⟩

theorem run_again_supervisor :
    let image : Image :=
      { program := Utf8.encode "/usr/local/pgsql/bin/postgres-supervisor"
        arguments := [Utf8.encode "postgres"]
        env := tidied }
    (run ordinaryHost .plain [Utf8.encode "postgres"] untidy).ending = .replaced image ∧
      (run ordinaryHost .plain [Utf8.encode "postgres"] tidied).ending = .replaced image := by
  intro image
  have first : (run ordinaryHost .plain [Utf8.encode "postgres"] untidy).ending =
      .replaced image := by rfl
  exact ⟨first, (run_again first).1⟩

end ServerEntry.Launch
