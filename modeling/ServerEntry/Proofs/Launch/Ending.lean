import ServerEntry.Proofs.CommandLine.Mode
import ServerEntry.Proofs.Install.Role
import ServerEntry.Proofs.Launch.Inheritance
import ServerEntry.Proofs.Sink

/-!
# How a process ends

A process either answers a request for help or for the version, or it is replaced by the program of
its role, or it says why not and exits with status 1.  Its output is empty except for an answer, and
next to a report its error output has only routine messages and a complaint about the log level.
-/

namespace ServerEntry

open Text

namespace Launch

def programName (arguments : Arguments) : String :=
  ProgramName.ofPath (arguments.head?.map Utf8.decodeLossy) false

abbrev identity (host : Host) (arguments : Arguments) : Identity :=
  host.identity (programName arguments)

abbrev invocation (build : Build) (arguments : Arguments) : Invocation :=
  .classify build.reexecutes arguments

def startedLogger (env : Variables) : Log.Logger × String :=
  Log.Logger.start (env.value? Log.Logger.levelVariable)

/--
A report stands at the end of the error output.  Before it there are only routine messages and the
complaint about the level, and no messages at all where the level is above theirs.
-/
structure Says (env : Variables) (written report : String) : Prop where
  told : ∃ messages, Startup.Routine messages ∧
    written = (startedLogger env).2 ++ (startedLogger env).1.emitAll messages ++ report
  quiet : .log < (startedLogger env).1.minimum → written = (startedLogger env).2 ++ report

/-- The system is asked to start an image for the role that the command line selects. -/
structure Tries (host : Host) (build : Build) (directory : Bytes) (arguments : Arguments)
    (env : Variables) (call : DriverCall) (image : Image) : Prop where
  permitted : Privilege.guard (invocation build arguments) (identity host arguments) = .ok ()
  handsOver : HandsOver (invocation build arguments).mode arguments (identity host arguments) call
  program : image.program =
    ((env.value? call.role.overrideVariable).filter (· ≠ [])).getD
      (Path.push directory (Utf8.encode call.role.fileName))
  arguments : image.arguments = arguments
  inherits : Inherits build directory env call image.env

/-- Why a process that has a role does not reach its program, and what it reports. -/
inductive Misses (host : Host) (build : Build) (directory : Bytes) (arguments : Arguments)
    (env : Variables) : String → Prop
  | refused {failure : Failure} :
      (invocation build arguments).mode.role?.isSome →
      Privilege.guard (invocation build arguments) (identity host arguments) = .error failure →
      Misses host build directory arguments env (failure.report (programName arguments))
  | unnamed {failure : Failure} :
      (invocation build arguments).mode = .singleSession →
      Privilege.guard (invocation build arguments) (identity host arguments) = .ok () →
      (identity host arguments).userName = .error failure →
      Misses host build directory arguments env (failure.report (programName arguments))
  | notStarted {call : DriverCall} {image : Image} {refusal : HandOff.Refusal} :
      Tries host build directory arguments env call image →
      (∃ position, HandOff.nul? image.program = some position ∧
          refusal = .nulInProgram position) ∨
        (0 ∉ image.program ∧ ∃ error, host.execute image = some error ∧ refusal = .system error) →
      Misses host build directory arguments env
        (programName arguments ++ ": could not execute " ++ call.role.title ++ " program \"" ++
          Utf8.decodeLossy image.program ++ "\": " ++ refusal.message ++ "\n")

inductive Ends (host : Host) (build : Build) (directory : Bytes) (arguments : Arguments)
    (env : Variables) : Outcome → Prop
  | informed {text : List String} {written : String} :
      (arguments.AsksHelp ∧ text = Usage.help (programName arguments) build.encrypts) ∨
        (arguments.AsksVersion ∧ text = Usage.version) →
      Says env written "" →
      Ends host build directory arguments env
        ⟨.exited 0, Utf8.encode (String.join text), written⟩
  | replaced {call : DriverCall} {image : Image} {written : String} :
      Tries host build directory arguments env call image →
      0 ∉ image.program → host.execute image = none →
      Says env written "" →
      Ends host build directory arguments env ⟨.replaced image, [], written⟩
  | failed {report written : String} :
      Misses host build directory arguments env report →
      Says env written report →
      Ends host build directory arguments env ⟨.exited 1, [], written⟩

/-! ## Messages -/

theorem emitAll_routine {logger : Log.Logger} {entries : List Log.Entry}
    (quiet : .log < logger.minimum) (h : Startup.Routine entries) :
    logger.emitAll entries = "" := by
  rw [logger.emitAll_eq_join, h.filter_passes quiet]
  rfl

theorem log_append (preparation : Preparation) (entries others : List Log.Entry) :
    preparation.log (entries ++ others) = (preparation.log entries).log others := by
  simp [Preparation.log, Preparation.raw, Log.Logger.emitAll_append, String.append_assoc]

theorem Says.of_routine {env : Variables} {messages : List Log.Entry} (report : String)
    (h : Startup.Routine messages) :
    Says env ((startedLogger env).2 ++ (startedLogger env).1.emitAll messages ++ report)
      report where
  told := ⟨messages, h, rfl⟩
  quiet above := by simp [emitAll_routine above h]

/-! ## Before the startup sequence -/

def ready (host : Host) (build : Build) (env : Variables) : Preparation :=
  let platform : Platform := ⟨false, false, true⟩
  let preparation := (Preparation.begin env).startLogger.log
    [⟨.debug, "platform: " ++ platform.text⟩]
  let directories := preparation.missingDirectories host build
  (preparation.exportDirectories directories).log (directories.map exportEntry)

theorem run_eq (host : Host) (build : Build) (arguments : Arguments) (env : Variables) :
    run host build arguments env =
      start (ready host build env) host build arguments (identity host arguments) := by
  simp only [run, Platform.normalize_eq]
  rfl

section Ready

variable (host : Host) (build : Build) (env : Variables)

theorem env_ready :
    (ready host build env).env =
      ServiceDirectories.installed env host.directory build.localizes :=
  ServiceDirectories.install_eq_assignEach ..

theorem says_ready {entries : List Log.Entry} (report : String) (h : Startup.Routine entries) :
    Says env (((ready host build env).log entries).raw report).written report := by
  let platform : Platform := ⟨false, false, true⟩
  let directories := ServiceDirectories.missing env host.directory build.localizes
  have exported : Startup.Routine (directories.map exportEntry) := by
    intro entry mem
    obtain ⟨assignment, -, rfl⟩ := List.mem_map.mp mem
    exact .inl rfl
  have begun : Startup.Routine [⟨.debug, "platform: " ++ platform.text⟩] := by
    simp [Startup.Routine]
  have written : (((ready host build env).log entries).raw report).written =
      "" ++ (startedLogger env).2 ++
        (startedLogger env).1.emitAll [⟨.debug, "platform: " ++ platform.text⟩] ++
        (startedLogger env).1.emitAll (directories.map exportEntry) ++
        (startedLogger env).1.emitAll entries ++ report := rfl
  have messages : Says env _ report := Says.of_routine report ((begun.append exported).append h)
  rw [written, String.empty_append]
  simpa only [Log.Logger.emitAll_append, String.append_assoc] using messages

theorem says_nothing {entries : List Log.Entry} (h : Startup.Routine entries) :
    Says env ((ready host build env).log entries).written "" := by
  simpa [Preparation.raw] using says_ready host build env "" h

theorem negotiate_ready :
    (Locale.negotiate Locale.Library.backend false
        (Locale.Library.start (ready host build env).env)).failure = none ∧
      (Locale.negotiate Locale.Library.backend false
        (Locale.Library.start (ready host build env).env)).state.env = outfit host build env := by
  rw [Locale.Library.negotiate_eq, Locale.Library.start, env_ready]
  exact ⟨rfl, rfl⟩

end Ready

/-! ## The startup sequence of a process -/

theorem exitCode_of_check {credentials : Credentials} {failure : Failure}
    (h : Privilege.check credentials = .error failure) : failure.exitCode = some 1 := by
  simp only [Privilege.check] at h
  repeat' split at h
  all_goals first | contradiction | (obtain rfl := Except.error.inj h; rfl)

theorem exitCode_of_userName {identity : Identity} {failure : Failure}
    (h : identity.userName = .error failure) : failure.exitCode = some 1 := by
  rw [Identity.userName] at h
  split at h
  · contradiction
  · obtain rfl := Except.error.inj h
    rfl

theorem conclude_failed (preparation : Preparation) (program : String) {failure : Failure}
    (out : Bytes) (status : failure.exitCode = some 1) :
    conclude preparation program (.failed failure) out =
      ⟨.exited 1, out, (preparation.raw (failure.report program)).written⟩ := by
  simp only [conclude, fail, status]

def startup (host : Host) (build : Build) (arguments : Arguments) (env : Variables) :
    Startup.Run Locale.Library Sink HandOff.Departure :=
  Startup.run Locale.Library.backend (drivers host) build arguments
    (identity host arguments) Sink.unlimited
    (Locale.Library.start (ready host build env).env)

section Startup

variable {host : Host} {build : Build} {arguments : Arguments} {env : Variables}

theorem identity_program (host : Host) (arguments : Arguments) :
    (identity host arguments).program = programName arguments := by
  simp only [identity, Host.identity]

theorem run_conclude :
    run host build arguments env =
      conclude ((ready host build env).log (startup host build arguments env).log)
        (programName arguments) (startup host build arguments env).stop
        (startup host build arguments env).out.taken := by
  rw [run_eq, start, startup, identity_program]

theorem startup_routine : Startup.Routine (startup host build arguments env).log :=
  Startup.run_routine _ _ _ _ _ _

theorem inform_unlimited {σ ε : Type} (subject : String) (text : List String)
    (log : List Log.Entry) (state : σ) :
    (Startup.inform subject text log Sink.unlimited state : Startup.Run σ Sink ε) =
      { stop := .exit 0
        log
        out := { Sink.unlimited with taken := Utf8.encode (String.join text) }
        state } := by
  simp [Startup.inform, Sink.writeText_unlimited, Startup.writeEntries]

theorem startup_help (asked : arguments.AsksHelp) :
    (startup host build arguments env).stop = .exit 0 ∧
      (startup host build arguments env).out.taken =
        Utf8.encode (String.join (Usage.help (programName arguments) build.encrypts)) := by
  rw [startup, Startup.run_of_settled _ _ _ _ _ _ (negotiate_ready host build env).1,
    Startup.proceed_help (classify_eq_showHelp_iff.mpr asked), inform_unlimited, identity_program]
  simp only [and_self]

theorem startup_version (asked : arguments.AsksVersion) :
    (startup host build arguments env).stop = .exit 0 ∧
      (startup host build arguments env).out.taken =
        Utf8.encode (String.join Usage.version) := by
  rw [startup, Startup.run_of_settled _ _ _ _ _ _ (negotiate_ready host build env).1,
    Startup.proceed_version (classify_eq_showVersion_iff.mpr asked), inform_unlimited]
  simp only [and_self]

section Role

variable (role : (invocation build arguments).mode.role?.isSome)

include role

theorem startup_out : (startup host build arguments env).out.taken = [] := by
  rw [startup, Startup.run_out _ _ _ _ _ _ (Mode.isSome_role?_iff.mp role)]
  rfl

theorem startup_refused {failure : Failure}
    (refused : Privilege.guard (invocation build arguments) (identity host arguments) =
      .error failure) :
    (startup host build arguments env).stop = .failed failure := by
  rw [startup, Startup.run_of_settled _ _ _ _ _ _ (negotiate_ready host build env).1,
    Startup.proceed_role (Mode.isSome_role?_iff.mp role), refused]

variable (permitted :
  Privilege.guard (invocation build arguments) (identity host arguments) = .ok ())

include permitted

theorem startup_unnamed {failure : Failure}
    (single : (invocation build arguments).mode = .singleSession)
    (unnamed : (identity host arguments).userName = .error failure) :
    (startup host build arguments env).stop = .failed failure := by
  rw [startup, Startup.run_of_settled _ _ _ _ _ _ (negotiate_ready host build env).1,
    Startup.proceed_role (Mode.isSome_role?_iff.mp role), permitted,
    dispatch_of_unnamed single unnamed]

theorem startup_departs {call : DriverCall}
    (made : DriverCall.ofMode (invocation build arguments).mode arguments
      (identity host arguments) = .ok (some call)) :
    (startup host build arguments env).stop =
      .ended (HandOff.depart host.execute host.directory call (outfit host build env)) := by
  rw [startup, Startup.run_of_settled _ _ _ _ _ _ (negotiate_ready host build env).1,
    Startup.proceed_role (Mode.isSome_role?_iff.mp role), permitted, dispatch_of_call made, drivers,
    (negotiate_ready host build env).2]
  rfl

end Role

/-- How the startup sequence of a process stops, and what it has put out. -/
inductive Stops (host : Host) (build : Build) (arguments : Arguments) (env : Variables) :
    Stop HandOff.Departure → Bytes → Prop
  | informed {text : List String} :
      (arguments.AsksHelp ∧ text = Usage.help (programName arguments) build.encrypts) ∨
        (arguments.AsksVersion ∧ text = Usage.version) →
      Stops host build arguments env (.exit 0) (Utf8.encode (String.join text))
  | refused {failure : Failure} :
      (invocation build arguments).mode.role?.isSome →
      Privilege.guard (invocation build arguments) (identity host arguments) = .error failure →
      Stops host build arguments env (.failed failure) []
  | unnamed {failure : Failure} :
      (invocation build arguments).mode = .singleSession →
      Privilege.guard (invocation build arguments) (identity host arguments) = .ok () →
      (identity host arguments).userName = .error failure →
      Stops host build arguments env (.failed failure) []
  | departs {call : DriverCall} :
      Privilege.guard (invocation build arguments) (identity host arguments) = .ok () →
      DriverCall.ofMode (invocation build arguments).mode arguments (identity host arguments) =
        .ok (some call) →
      Stops host build arguments env
        (.ended (HandOff.depart host.execute host.directory call (outfit host build env))) []

theorem startup_stops :
    Stops host build arguments env (startup host build arguments env).stop
      (startup host build arguments env).out.taken := by
  by_cases help : arguments.AsksHelp
  · obtain ⟨stop, out⟩ := startup_help help
    rw [stop, out]
    exact .informed (.inl ⟨help, rfl⟩)
  by_cases version : arguments.AsksVersion
  · obtain ⟨stop, out⟩ := startup_version version
    rw [stop, out]
    exact .informed (.inr ⟨version, rfl⟩)
  -- From here on the mode has a role, and nothing is put out any more.
  have role : (invocation build arguments).mode.role?.isSome :=
    Mode.isSome_role?_iff.mpr
      ⟨mt classify_eq_showHelp_iff.mp help, mt classify_eq_showVersion_iff.mp version⟩
  rw [startup_out role]
  cases guard : Privilege.guard (invocation build arguments) (identity host arguments) with
  | error failure =>
      rw [startup_refused role guard]
      exact .refused role guard
  | ok _ =>
      by_cases unnamed : ∃ failure,
          (invocation build arguments).mode = .singleSession ∧
            (identity host arguments).userName = .error failure
      · obtain ⟨failure, single, unknown⟩ := unnamed
        rw [startup_unnamed role guard single unknown]
        exact .unnamed single guard unknown
      have found : (invocation build arguments).mode = .singleSession →
          ∃ user, (identity host arguments).userName = .ok user := by
        intro single
        cases looked : (identity host arguments).userName with
        | ok user => exact ⟨user, rfl⟩
        | error failure => exact absurd ⟨failure, single, looked⟩ unnamed
      obtain ⟨call, made⟩ := exists_ofMode arguments role found
      rw [startup_departs role guard made]
      exact .departs guard made

/-! ## The end -/

theorem overrideVariable_notMem_prepared (role : Role) :
    role.overrideVariable ∉ prepared .full := by
  cases role <;> decide

section Departure

variable {directory : Bytes} {call : DriverCall}

def imageOf (host : Host) (build : Build) (env : Variables) (call : DriverCall) : Image :=
  let program := call.role.program (env.value? call.role.overrideVariable) host.directory
  ⟨program, HandOff.startArguments program call.arguments, given host build env call⟩

theorem depart_replacement (handed : ∀ argument ∈ call.arguments, 0 ∉ argument)
    (assigned : ∀ assignment ∈ HandOff.assignments call,
      Variables.canHold assignment.1 assignment.2) :
    HandOff.depart host.execute host.directory call (outfit host build env) =
      { role := call.role
        program := (imageOf host build env call).program
        replacement :=
          match HandOff.nul? (imageOf host build env call).program with
          | some position => .refused (.nulInProgram position)
          | none =>
              match host.execute (imageOf host build env call) with
              | none => .done (imageOf host build env call)
              | some error => .failed (imageOf host build env call) error } := by
  rw [HandOff.depart, value?_outfit_of_notMem (overrideVariable_notMem_prepared call.role),
    HandOff.replace_of_clean _ _ handed assigned]
  rfl

theorem tries_image (located : host.directory = some directory) (nonempty : arguments ≠ [])
    (permitted : Privilege.guard (invocation build arguments) (identity host arguments) = .ok ())
    (handsOver : HandsOver (invocation build arguments).mode arguments
      (identity host arguments) call) :
    Tries host build directory arguments env call (imageOf host build env call) where
  permitted := permitted
  handsOver := handsOver
  program := by rw [imageOf, located, Role.program_eq]
  arguments := by rw [imageOf, handsOver.whole, HandOff.startArguments, if_neg nonempty]
  inherits := given_inherits located

theorem depart_ends (tries : Tries host build directory arguments env call
      (imageOf host build env call))
    (handed : ∀ argument ∈ call.arguments, 0 ∉ argument)
    (assigned : ∀ assignment ∈ HandOff.assignments call,
      Variables.canHold assignment.1 assignment.2) :
    Ends host build directory arguments env
      (depart ((ready host build env).log (startup host build arguments env).log)
        (programName arguments)
        (HandOff.depart host.execute host.directory call (outfit host build env)) []) := by
  rw [depart_replacement handed assigned, depart, ← log_append]
  have routine : ∀ departure : HandOff.Departure,
      Startup.Routine ((startup host build arguments env).log ++ [departure.announcement]) :=
    fun departure => startup_routine.append
      (by simp [Startup.Routine, HandOff.Departure.announcement])
  cases named : HandOff.nul? (imageOf host build env call).program with
  | some position =>
      refine .failed (.notStarted tries (.inl ⟨position, named, rfl⟩)) ?_
      exact says_ready host build env _ (routine _)
  | none =>
      cases answer : host.execute (imageOf host build env call) with
      | none =>
          exact .replaced tries (HandOff.nul?_eq_none_iff.mp named) answer
            (says_nothing host build env (routine _))
      | some error =>
          refine .failed (.notStarted tries (.inr ⟨?_, error, answer, rfl⟩)) ?_
          · exact HandOff.nul?_eq_none_iff.mp named
          · exact says_ready host build env _ (routine _)

end Departure

/--
Every process ends in one of the three ways, whatever its environment and command line, provided
that its directory is known and that no NUL hides in an argument or in the user's name.
-/
theorem run_ends {directory : Bytes} (located : host.directory = some directory)
    (nonempty : arguments ≠ []) (handed : ∀ argument ∈ arguments, 0 ∉ argument)
    (named : ∀ user,
      host.userName (host.credentials.effectiveUser?.getD 0) = .ok user → 0 ∉ Utf8.encode user) :
    Ends host build directory arguments env (run host build arguments env) := by
  rw [run_conclude]
  -- The log of the startup stays: only its stop and its output are read off `Stops`.
  have stops := @startup_stops host build arguments env
  generalize (startup host build arguments env).stop = stop at stops
  generalize (startup host build arguments env).out.taken = out at stops
  cases stops with
  | informed answer => exact .informed answer (says_nothing host build env startup_routine)
  | refused role guard =>
      have status := exitCode_of_check (Startup.guard_eq_error_iff.mp guard).2
      rw [conclude_failed _ _ _ status]
      exact .failed (.refused role guard) (says_ready host build env _ startup_routine)
  | unnamed single guard unknown =>
      rw [conclude_failed _ _ _ (exitCode_of_userName unknown)]
      exact .failed (.unnamed single guard unknown) (says_ready host build env _ startup_routine)
  | departs guard made =>
      have handsOver := handsOver_of_ofMode made
      apply depart_ends (tries_image located nonempty guard handsOver)
      · rw [handsOver.whole]
        exact handed
      · exact HandOff.assignments_clean handsOver handed named

end Startup

/-- A host that runs an ordinary user's processes and starts every program. -/
def ordinaryHost : Host where
  directory := some (Utf8.encode Build.programDirectory)
  credentials := .unix 26 26
  userName _ := .ok "postgres"
  execute _ := none

theorem run_ends_single_user :
    Ends ordinaryHost .full (Utf8.encode Build.programDirectory)
      [Utf8.encode "postgres", Utf8.encode "--single", Utf8.encode "template1"] .empty
      (run ordinaryHost .full
        [Utf8.encode "postgres", Utf8.encode "--single", Utf8.encode "template1"] .empty) := by
  apply run_ends rfl
  · exact List.cons_ne_nil _ _
  · decide
  · intro user found
    obtain rfl : "postgres" = user := Except.ok.inj found
    decide

end Launch

end ServerEntry
