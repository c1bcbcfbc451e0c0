import ServerEntry.HandOff
import ServerEntry.Proofs.Startup.Stages
import ServerEntry.Proofs.Variables

/-!
# Replacing a process

A replacement comes down to three questions: whether a NUL stands in the way, which image the system
is asked to start, and what it answers.  Until the first question is settled nothing is done.  What a
single-user session works on is taken from the command line or from the user, so a call brings no
NUL that these did not have.
-/

namespace ServerEntry

theorem Operands.mem_of_database? {arguments : List Bytes} {name : Bytes}
    (h : database? arguments = some name) : name ∈ arguments := by
  have only : operands arguments = [name] := database?_eq_some_iff.mp h
  exact (operands_sublist arguments).mem (only ▸ List.mem_singleton_self name)

namespace HandOff

/-! ## The first NUL -/

/-- The first NUL of a byte string stands at a position. -/
def FirstNul (bytes : Bytes) (position : Nat) : Prop :=
  bytes[position]? = some 0 ∧ 0 ∉ bytes.take position

/-- The first argument that has a NUL has its first one at a position. -/
def FirstSpoiled (arguments : Arguments) (position : Nat) : Prop :=
  ∃ clean spoiled rest, arguments = clean ++ spoiled :: rest ∧
    (∀ argument ∈ clean, 0 ∉ argument) ∧ FirstNul spoiled position

theorem nul?_eq_none_iff {bytes : Bytes} : nul? bytes = none ↔ 0 ∉ bytes := by
  simp only [nul?, List.findIdx?_eq_none_iff, beq_eq_false_iff_ne]
  exact ⟨fun h found => h 0 found rfl, fun h byte mem same => h (same ▸ mem)⟩

theorem firstNul_of_nul? {bytes : Bytes} {position : Nat} (h : nul? bytes = some position) :
    FirstNul bytes position := by
  obtain ⟨inside, nul, before⟩ := List.findIdx?_eq_some_iff_getElem.mp h
  constructor
  · rw [List.getElem?_eq_getElem inside, beq_iff_eq.mp nul]
  · intro mem
    obtain ⟨index, earlier, found⟩ := List.mem_take_iff_getElem.mp mem
    exact before index (Nat.lt_of_lt_of_le earlier (Nat.min_le_left ..)) (by simp [found])

theorem exists_firstNul {bytes : Bytes} (h : 0 ∈ bytes) :
    ∃ position, nul? bytes = some position ∧ FirstNul bytes position := by
  obtain ⟨position, found⟩ := Option.ne_none_iff_exists'.mp (mt nul?_eq_none_iff.mp (not_not_intro h))
  exact ⟨position, found, firstNul_of_nul? found⟩

theorem findSome?_nul?_eq_none_iff {arguments : Arguments} :
    arguments.findSome? nul? = none ↔ ∀ argument ∈ arguments, 0 ∉ argument := by
  simp [nul?_eq_none_iff]

theorem exists_firstSpoiled {arguments : Arguments} (h : ∃ argument ∈ arguments, 0 ∈ argument) :
    ∃ position, arguments.findSome? nul? = some position ∧ FirstSpoiled arguments position := by
  have spoiled : ¬ ∀ argument ∈ arguments, 0 ∉ argument := by simpa using h
  obtain ⟨position, found⟩ :=
    Option.ne_none_iff_exists'.mp (mt findSome?_nul?_eq_none_iff.mp spoiled)
  obtain ⟨clean, argument, rest, rfl, nul, before⟩ := List.findSome?_eq_some_iff.mp found
  exact ⟨position, found, clean, argument, rest, rfl,
    fun earlier mem => nul?_eq_none_iff.mp (before earlier mem), firstNul_of_nul? nul⟩

/-! ## What an attempt does -/

section Attempt

variable {assignments : List (String × Bytes)} {env : Variables} {execute : Executor}
  {program : Bytes} {arguments : Arguments} {image : Image} {position : Nat}

/-- Every variable is tried where all can be held, and then they are all set. -/
theorem assignAll_of_held
    (h : ∀ assignment ∈ assignments, Variables.canHold assignment.1 assignment.2) :
    assignAll assignments env =
      (.ok (env.assignEach assignments),
        assignments.map fun assignment => .assign assignment.1 assignment.2) := by
  induction assignments generalizing env with
  | nil => rfl
  | cons assignment rest ih =>
      obtain ⟨held, later⟩ := List.forall_mem_cons.mp h
      simp [assignAll, held, ih later]

theorem assignAll_of_unheld
    (h : ∃ assignment ∈ assignments, ¬ Variables.canHold assignment.1 assignment.2) :
    ∃ name deeds, assignAll assignments env = (.error name, deeds) ∧
      ∀ image, .execute image ∉ deeds := by
  induction assignments generalizing env with
  | nil => simp at h
  | cons assignment rest ih =>
      by_cases held : Variables.canHold assignment.1 assignment.2
      · have later : ∃ assignment ∈ rest, ¬ Variables.canHold assignment.1 assignment.2 := by
          simpa [held] using h
        obtain ⟨name, deeds, stopped, unstarted⟩ := @ih (env.assign assignment.1 assignment.2) later
        refine ⟨name, .assign assignment.1 assignment.2 :: deeds, ?_, by simpa using unstarted⟩
        simp [assignAll, held, stopped]
      · exact ⟨assignment.1, [.assign assignment.1 assignment.2], by simp [assignAll, held],
          by simp⟩

theorem attempt_of_nulInProgram (named : nul? program = some position) :
    attempt execute program arguments assignments env =
      (.refused (.nulInProgram position), []) := by
  simp only [attempt, named]

theorem attempt_of_nulInArgument (named : 0 ∉ program)
    (handed : arguments.findSome? nul? = some position) :
    attempt execute program arguments assignments env =
      (.refused (.nulInArgument position), []) := by
  simp only [attempt, nul?_eq_none_iff.mpr named, handed]

theorem refused_or_clean (execute : Executor) (program : Bytes) (arguments : Arguments)
    (assignments : List (String × Bytes)) (env : Variables) :
    (∃ refusal, attempt execute program arguments assignments env = (.refused refusal, [])) ∨
      0 ∉ program ∧ ∀ argument ∈ arguments, 0 ∉ argument := by
  by_cases named : 0 ∈ program
  · obtain ⟨position, nul, -⟩ := exists_firstNul named
    exact .inl ⟨_, attempt_of_nulInProgram nul⟩
  by_cases spoiled : ∃ argument ∈ arguments, 0 ∈ argument
  · obtain ⟨position, nul, -⟩ := exists_firstSpoiled spoiled
    exact .inl ⟨_, attempt_of_nulInArgument named nul⟩
  · exact .inr ⟨named, by simpa using spoiled⟩

theorem attempt_of_held (named : 0 ∉ program) (handed : ∀ argument ∈ arguments, 0 ∉ argument)
    (held : ∀ assignment ∈ assignments, Variables.canHold assignment.1 assignment.2) :
    attempt execute program arguments assignments env =
      let image := ⟨program, startArguments program arguments, env.assignEach assignments⟩
      (match execute image with
        | none => .done image
        | some error => .failed image error,
      (assignments.map fun assignment => .assign assignment.1 assignment.2) ++
        [.execute image]) := by
  simp only [attempt, nul?_eq_none_iff.mpr named, findSome?_nul?_eq_none_iff.mpr handed,
    assignAll_of_held held]
  cases execute ⟨program, startArguments program arguments, env.assignEach assignments⟩ <;> rfl

theorem attempt_of_unheld (named : 0 ∉ program) (handed : ∀ argument ∈ arguments, 0 ∉ argument)
    (unheld : ∃ assignment ∈ assignments, ¬ Variables.canHold assignment.1 assignment.2) :
    ∃ name deeds, attempt execute program arguments assignments env = (.crashed name, deeds) ∧
      ∀ image, .execute image ∉ deeds := by
  obtain ⟨name, deeds, stopped, unstarted⟩ := @assignAll_of_unheld _ env unheld
  refine ⟨name, deeds, ?_, unstarted⟩
  simp only [attempt, nul?_eq_none_iff.mpr named, findSome?_nul?_eq_none_iff.mpr handed, stopped]

/-- Where nothing that is handed on stands in the way, the program's name and the system decide. -/
theorem replace_of_clean (execute : Executor) (program : Bytes)
    (handed : ∀ argument ∈ arguments, 0 ∉ argument)
    (assigned : ∀ assignment ∈ assignments, Variables.canHold assignment.1 assignment.2) :
    replace execute program arguments assignments env =
      let image := ⟨program, startArguments program arguments, env.assignEach assignments⟩
      match nul? program with
      | some position => .refused (.nulInProgram position)
      | none =>
          match execute image with
          | none => .done image
          | some error => .failed image error := by
  cases named : nul? program with
  | some position => rw [replace, attempt_of_nulInProgram named]
  | none => rw [replace, attempt_of_held (nul?_eq_none_iff.mp named) handed assigned]

theorem replace_eq_done_iff :
    replace execute program arguments assignments env = .done image ↔
      0 ∉ program ∧ (∀ argument ∈ arguments, 0 ∉ argument) ∧
        (∀ assignment ∈ assignments, Variables.canHold assignment.1 assignment.2) ∧
        image = ⟨program, startArguments program arguments, env.assignEach assignments⟩ ∧
        execute image = none := by
  constructor
  · intro h
    rcases refused_or_clean execute program arguments assignments env with
      ⟨refusal, refused⟩ | ⟨named, handed⟩
    · rw [replace, refused] at h
      contradiction
    by_cases unheld : ∃ assignment ∈ assignments, ¬ Variables.canHold assignment.1 assignment.2
    · obtain ⟨name, deeds, crashed, -⟩ := attempt_of_unheld named handed unheld
      rw [replace, crashed] at h
      contradiction
    have held : ∀ assignment ∈ assignments, Variables.canHold assignment.1 assignment.2 := by
      simpa using unheld
    rw [replace, attempt_of_held named handed held] at h
    dsimp only at h
    split at h
    · rename_i accepted
      obtain rfl := Replacement.done.inj h
      exact ⟨named, handed, held, rfl, accepted⟩
    · contradiction
  · rintro ⟨named, handed, assigned, rfl, accepted⟩
    simp only [replace_of_clean execute program handed assigned, nul?_eq_none_iff.mpr named,
      accepted]

end Attempt

/-! ## What a call sets -/

theorem canHold_target (target : SessionTarget) :
    (∀ assignment ∈ target.assignments, Variables.canHold assignment.1 assignment.2) ↔
      0 ∉ Text.Utf8.encode target.user ∧ 0 ∉ target.database := by
  have user : Variables.canHold SessionTarget.userVariable [] := by decide
  have database : Variables.canHold SessionTarget.databaseVariable [] := by decide
  simp [SessionTarget.assignments, Variables.canHold_iff user, Variables.canHold_iff database]

variable {call : DriverCall} {mode : Mode} {arguments : Arguments} {identity : Identity}
  {target : SessionTarget}

theorem names_of_assignments (call : DriverCall) :
    (assignments call).map Prod.fst =
      if call.target?.isSome then [SessionTarget.userVariable, SessionTarget.databaseVariable]
      else [] := by
  rw [assignments]
  cases call.target? <;> rfl

/-- The database is an argument, or else it goes by the user's name. -/
theorem database_clean {user : String} (handed : ∀ argument ∈ arguments, 0 ∉ argument)
    (named : 0 ∉ Text.Utf8.encode user) :
    0 ∉ (Operands.database? (arguments.drop 2)).getD (Text.Utf8.encode user) := by
  cases operand : Operands.database? (arguments.drop 2) with
  | none => exact named
  | some name => exact handed name (List.mem_of_mem_drop (Operands.mem_of_database? operand))

theorem assignments_clean (h : HandsOver mode arguments identity call)
    (handed : ∀ argument ∈ arguments, 0 ∉ argument)
    (named : ∀ user, identity.user = .ok user → 0 ∉ Text.Utf8.encode user) :
    ∀ assignment ∈ assignments call, Variables.canHold assignment.1 assignment.2 := by
  by_cases single : mode = .singleSession
  · obtain ⟨user, found, target⟩ := h.session single
    rw [assignments, target]
    exact (canHold_target _).mpr ⟨named user found, database_clean handed (named user found)⟩
  · simp [assignments, h.other single]

theorem canHold_of_resolve (resolved : SessionTarget.resolve arguments identity = .ok target)
    (named : 0 ∉ Text.Utf8.encode target.user)
    (handed : ∀ argument ∈ arguments, 0 ∉ argument) :
    ∀ assignment ∈ target.assignments, Variables.canHold assignment.1 assignment.2 := by
  rw [SessionTarget.resolve] at resolved
  split at resolved
  · rename_i user found
    obtain rfl := Except.ok.inj resolved
    rw [ofUser_eq] at named ⊢
    exact (canHold_target _).mpr ⟨named, database_clean handed named⟩
  · contradiction

/-- By the time a session's variables are set, the command line has been found to be clean. -/
theorem attempt_of_resolve (execute : Executor) (program : Bytes) (env : Variables)
    (resolved : SessionTarget.resolve arguments identity = .ok target)
    (user : 0 ∉ Text.Utf8.encode target.user) :
    (∀ name, (attempt execute program arguments target.assignments env).1 ≠ .crashed name) ∧
      ∀ name value,
        .assign name value ∈ (attempt execute program arguments target.assignments env).2 →
        0 ∉ value := by
  rcases refused_or_clean execute program arguments target.assignments env with
    ⟨refusal, refused⟩ | ⟨named, handed⟩
  · simp [refused]
  have held := canHold_of_resolve resolved user handed
  rw [attempt_of_held named handed held]
  constructor
  · intro name
    dsimp only
    split <;> simp
  · intro name value tried
    obtain ⟨assignment, mem, same⟩ : ∃ assignment ∈ target.assignments,
        Deed.assign assignment.1 assignment.2 = .assign name value := by simpa using tried
    obtain ⟨rfl, rfl⟩ := Deed.assign.inj same
    exact Variables.notMem_of_canHold (held assignment mem)

/-! ## All or nothing -/

/--
A NUL in the program's name, or else in an argument, stops an attempt before anything is done, and
the refusal says where.  Without one the variables are set and the image is started, once.  Only a
variable that no record can hold comes in between, and a session's target brings none: its user has
no NUL, and what the command line brings has been looked at by then.
-/
theorem attempt_all_or_nothing (execute : Executor) (program : Bytes) (arguments : Arguments)
    (assignments : List (String × Bytes)) (env : Variables) :
    let outcome := attempt execute program arguments assignments env
    let image : Image :=
      ⟨program, if arguments = [] then [program] else arguments, env.assignEach assignments⟩
    (0 ∈ program → ∃ position, FirstNul program position ∧
      outcome = (.refused (.nulInProgram position), []) ∧
      (Refusal.nulInProgram position).message = "program path contains a NUL byte: " ++
        "nul byte found in provided data at position: " ++ toString position) ∧
    (0 ∉ program → (∃ argument ∈ arguments, 0 ∈ argument) → ∃ position,
      FirstSpoiled arguments position ∧
      outcome = (.refused (.nulInArgument position), []) ∧
      (Refusal.nulInArgument position).message = "argument contains a NUL byte: " ++
        "nul byte found in provided data at position: " ++ toString position) ∧
    (0 ∉ program → (∀ argument ∈ arguments, 0 ∉ argument) →
      ((∀ assignment ∈ assignments, Variables.canHold assignment.1 assignment.2) →
        outcome.1 = (match execute image with
          | none => .done image
          | some error => .failed image error) ∧
        outcome.2 = (assignments.map fun assignment => .assign assignment.1 assignment.2) ++
          [.execute image]) ∧
      ((∃ assignment ∈ assignments, ¬ Variables.canHold assignment.1 assignment.2) →
        ∃ name deeds, outcome = (.crashed name, deeds) ∧ ∀ image, .execute image ∉ deeds)) ∧
    ∀ identity target, SessionTarget.resolve arguments identity = .ok target →
      0 ∉ Text.Utf8.encode target.user →
      (∀ name value,
        .assign name value ∈ (attempt execute program arguments target.assignments env).2 →
        0 ∉ value) ∧
      ∀ directory name,
        (depart execute directory (.singleSession arguments target) env).replacement ≠
          .crashed name := by
  intro outcome image
  refine ⟨fun named => ?_, fun named spoiled => ?_, fun named handed => ⟨fun held => ?_, ?_⟩,
    fun identity target resolved user => ⟨?_, fun directory => ?_⟩⟩
  · obtain ⟨position, nul, first⟩ := exists_firstNul named
    exact ⟨position, first, attempt_of_nulInProgram nul, rfl⟩
  · obtain ⟨position, nul, first⟩ := exists_firstSpoiled spoiled
    exact ⟨position, first, attempt_of_nulInArgument named nul, rfl⟩
  · have done : outcome = _ := attempt_of_held named handed held
    rw [done]
    exact ⟨rfl, rfl⟩
  · exact attempt_of_unheld named handed
  · exact (attempt_of_resolve execute program env resolved user).2
  · exact (attempt_of_resolve execute _ env resolved user).1

end HandOff

end ServerEntry
