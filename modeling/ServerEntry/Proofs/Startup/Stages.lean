import ServerEntry.Log.Logger
import ServerEntry.Proofs.Locale.Interaction
import ServerEntry.Startup

/-!
# The stages of startup

Four stages can keep a process from its role: settling the locales, help and version, the privilege
check, and finding the user of a single-user session.  The first of them that objects decides how
the run stops, and then no driver is called.  When none objects, the driver of the mode is called
once, with the command line as it came in, after everything that was asked of the locale backend.
-/

namespace ServerEntry

variable {σ τ ε : Type}

def Mode.role? : Mode → Option Role
  | .showHelp | .showVersion => none
  | .describeConfig => some .describeConfig
  | .forkedWorker => some .forkedWorker
  | .bootstrapLoad => some .bootstrap
  | .singleSession => some .singleSession
  | .supervisor => some .supervisor

/--
The call that a mode makes of a command line.  What a single-user session works on is found behind
the first argument: the one operand there is, or else a database that goes by the user's name.
-/
structure HandsOver (mode : Mode) (arguments : Arguments) (identity : Identity)
    (call : DriverCall) : Prop where
  role : mode.role? = some call.role
  whole : call.arguments = arguments
  session : mode = .singleSession → ∃ user, identity.user = .ok user ∧
    call.target? = some
      { database := (Operands.database? (arguments.drop 2)).getD (Text.Utf8.encode user)
        explicit := (Operands.database? (arguments.drop 2)).isSome
        user }
  other : mode ≠ .singleSession → call.target? = none

theorem Mode.isSome_role?_iff {mode : Mode} :
    mode.role?.isSome ↔ mode ≠ .showHelp ∧ mode ≠ .showVersion := by
  cases mode <;> simp [Mode.role?]

theorem userName_eq_ok_iff {identity : Identity} {user : String} :
    identity.userName = .ok user ↔ identity.user = .ok user := by
  rw [Identity.userName]
  cases identity.user <;> simp

theorem ofUser_eq (arguments : Arguments) (user : String) :
    SessionTarget.ofUser arguments user =
      { database := (Operands.database? (arguments.drop 2)).getD (Text.Utf8.encode user)
        explicit := (Operands.database? (arguments.drop 2)).isSome
        user } := by
  rw [SessionTarget.ofUser, Arguments.afterSelector]
  cases Operands.database? (arguments.drop 2) <;> rfl

theorem handsOver_of_ofMode {mode : Mode} {arguments : Arguments} {identity : Identity}
    {call : DriverCall} (h : DriverCall.ofMode mode arguments identity = .ok (some call)) :
    HandsOver mode arguments identity call := by
  cases mode with
  | showHelp | showVersion => simp [DriverCall.ofMode] at h
  | singleSession =>
      cases found : identity.userName with
      | error failure => simp [DriverCall.ofMode, SessionTarget.resolve, found] at h
      | ok user =>
          obtain rfl : .singleSession arguments (SessionTarget.ofUser arguments user) = call := by
            simpa [DriverCall.ofMode, SessionTarget.resolve, found] using h
          refine ⟨rfl, rfl, fun _ => ⟨user, ?_, ?_⟩, by simp⟩
          · exact userName_eq_ok_iff.mp found
          · exact congrArg some (ofUser_eq arguments user)
  | describeConfig | forkedWorker | bootstrapLoad | supervisor =>
      obtain rfl := Option.some.inj (Except.ok.inj h)
      exact ⟨rfl, rfl, by simp, fun _ => rfl⟩

theorem exists_ofMode {mode : Mode} (arguments : Arguments) {identity : Identity}
    (role : mode.role?.isSome)
    (named : mode = .singleSession → ∃ user, identity.userName = .ok user) :
    ∃ call, DriverCall.ofMode mode arguments identity = .ok (some call) := by
  cases mode with
  | showHelp | showVersion => simp [Mode.role?] at role
  | singleSession =>
      obtain ⟨user, found⟩ := named rfl
      exact ⟨.singleSession arguments (SessionTarget.ofUser arguments user), by
        simp [DriverCall.ofMode, SessionTarget.resolve, found]⟩
  | describeConfig | forkedWorker | bootstrapLoad | supervisor => exact ⟨_, rfl⟩

/-! ## Handing over -/

section Dispatch

variable {drivers : Drivers σ ε} {mode : Mode} {arguments : Arguments} {identity : Identity}
  {state : σ}

def Stop.ofReply (mode : Mode) : DriverReply ε → Stop ε
  | .ended ending => .ended ending
  | .returned => .failed (.driverReturned mode)

theorem dispatch_of_call {call : DriverCall}
    (h : DriverCall.ofMode mode arguments identity = .ok (some call)) :
    dispatch drivers mode arguments identity state =
      (.ofReply mode (drivers call state).1, (drivers call state).2) := by
  simp only [dispatch, h]
  rcases drivers call state with ⟨⟨⟩ | ⟨⟩, next⟩ <;> rfl

theorem dispatch_of_unnamed {failure : Failure} (single : mode = .singleSession)
    (unnamed : identity.userName = .error failure) :
    dispatch drivers mode arguments identity state = (.failed failure, state) := by
  subst single
  simp [dispatch, DriverCall.ofMode, SessionTarget.resolve, unnamed]

end Dispatch

/-! ## Objections -/

namespace Startup

def refusal? {α : Type} : Except Failure α → Option Failure
  | .ok _ => none
  | .error failure => some failure

/-- What each stage has against going on, in the order of the stages. -/
def objections (negotiation : Locale.Negotiation σ) (invocation : Invocation)
    (identity : Identity) : List (Option (Stop ε)) :=
  [negotiation.failure.map .failed,
   if invocation.mode = .showHelp ∨ invocation.mode = .showVersion then some (.exit 0) else none,
   if invocation.check = .required then
     (refusal? (Privilege.check identity.credentials)).map .failed
   else none,
   if invocation.mode = .singleSession then (refusal? identity.userName).map .failed else none]

def firstObjection (negotiation : Locale.Negotiation σ) (invocation : Invocation)
    (identity : Identity) : Option (Stop ε) :=
  (objections negotiation invocation identity).findSome? id

structure Admitted (negotiation : Locale.Negotiation σ) (invocation : Invocation)
    (identity : Identity) : Prop where
  settled : negotiation.failure = none
  role : invocation.mode ≠ .showHelp ∧ invocation.mode ≠ .showVersion
  permitted : invocation.check = .exempt ∨ Privilege.check identity.credentials = .ok ()
  named : invocation.mode = .singleSession → ∃ user, identity.user = .ok user

variable {negotiation : Locale.Negotiation σ} {invocation : Invocation} {identity : Identity}

theorem refusal?_eq_none_iff {α : Type} {result : Except Failure α} :
    refusal? result = none ↔ ∃ value, result = .ok value := by
  cases result <;> simp [refusal?]

theorem firstObjection_eq_none_iff :
    (firstObjection negotiation invocation identity : Option (Stop ε)) = none ↔
      Admitted negotiation invocation identity := by
  have stages : (firstObjection negotiation invocation identity : Option (Stop ε)) = none ↔
      negotiation.failure = none ∧
        (invocation.mode ≠ .showHelp ∧ invocation.mode ≠ .showVersion) ∧
        (invocation.check = .required → ∃ value, Privilege.check identity.credentials = .ok value) ∧
        (invocation.mode = .singleSession → ∃ user, identity.userName = .ok user) := by
    simp [firstObjection, objections, refusal?_eq_none_iff]
  rw [stages]
  constructor
  · rintro ⟨settled, role, permitted, named⟩
    refine ⟨settled, role, ?_, fun single => ?_⟩
    · cases check : invocation.check with
      | exempt => exact .inl rfl
      | required =>
          obtain ⟨⟨⟩, accepted⟩ := permitted check
          exact .inr accepted
    · obtain ⟨user, found⟩ := named single
      exact ⟨user, userName_eq_ok_iff.mp found⟩
  · rintro ⟨settled, role, permitted, named⟩
    refine ⟨settled, role, fun required => ?_, fun single => ?_⟩
    · rcases permitted with exempt | accepted
      · rw [required] at exempt
        contradiction
      · exact ⟨(), accepted⟩
    · obtain ⟨user, found⟩ := named single
      exact ⟨user, userName_eq_ok_iff.mpr found⟩

/-! ## The sequence, stage by stage -/

section Proceed

variable [Output τ] {drivers : Drivers σ ε} {build : Build} {arguments : Arguments}
  {log : List Log.Entry} {out : τ} {state : σ}

theorem proceed_help (mode : (Invocation.classify build.reexecutes arguments).mode = .showHelp) :
    proceed drivers build arguments identity log out state =
      inform "help text" (Usage.help identity.program build.encrypts)
        (log ++ invocationEntries arguments (.classify build.reexecutes arguments)) out state := by
  simp only [proceed, mode]

theorem proceed_version
    (mode : (Invocation.classify build.reexecutes arguments).mode = .showVersion) :
    proceed drivers build arguments identity log out state =
      inform "version" Usage.version
        (log ++ invocationEntries arguments (.classify build.reexecutes arguments)) out state := by
  simp only [proceed, mode]

theorem proceed_role
    (role : (Invocation.classify build.reexecutes arguments).mode ≠ .showHelp ∧
      (Invocation.classify build.reexecutes arguments).mode ≠ .showVersion) :
    proceed drivers build arguments identity log out state =
      match Privilege.guard (.classify build.reexecutes arguments) identity with
      | .error failure =>
          ⟨.failed failure,
            log ++ invocationEntries arguments (.classify build.reexecutes arguments), out, state⟩
      | .ok () =>
          ⟨(dispatch drivers (Invocation.classify build.reexecutes arguments).mode arguments
              identity state).1,
            log ++ invocationEntries arguments (.classify build.reexecutes arguments), out,
            (dispatch drivers (Invocation.classify build.reexecutes arguments).mode arguments
              identity state).2⟩ := by
  simp only [proceed]
  split
  · exact absurd ‹_› role.1
  · exact absurd ‹_› role.2
  · rfl

end Proceed

theorem guard_eq_error_iff {failure : Failure} :
    Privilege.guard invocation identity = .error failure ↔
      invocation.check = .required ∧ Privilege.check identity.credentials = .error failure := by
  rw [Privilege.guard]
  cases invocation.check <;> simp

theorem guard_eq_ok_iff :
    Privilege.guard invocation identity = .ok () ↔
      invocation.check = .exempt ∨ Privilege.check identity.credentials = .ok () := by
  rw [Privilege.guard]
  cases invocation.check <;> simp

/-- What the stage that objects first has found, and how it stops the startup. -/
inductive Objection (negotiation : Locale.Negotiation σ) (invocation : Invocation)
    (identity : Identity) : Stop ε → Prop
  | unsettled {failure : Failure} : negotiation.failure = some failure →
      Objection negotiation invocation identity (.failed failure)
  | informed : negotiation.failure = none →
      invocation.mode = .showHelp ∨ invocation.mode = .showVersion →
      Objection negotiation invocation identity (.exit 0)
  | refused {failure : Failure} : negotiation.failure = none →
      invocation.mode ≠ .showHelp ∧ invocation.mode ≠ .showVersion →
      Privilege.guard invocation identity = .error failure →
      Objection negotiation invocation identity (.failed failure)
  | unnamed {failure : Failure} : negotiation.failure = none →
      invocation.mode ≠ .showHelp ∧ invocation.mode ≠ .showVersion →
      Privilege.guard invocation identity = .ok () → invocation.mode = .singleSession →
      identity.userName = .error failure →
      Objection negotiation invocation identity (.failed failure)

theorem objection_of_firstObjection {stop : Stop ε}
    (h : firstObjection negotiation invocation identity = some stop) :
    Objection negotiation invocation identity stop := by
  simp only [firstObjection, objections] at h
  cases failure : negotiation.failure with
  | some unsettled =>
      obtain rfl : .failed unsettled = stop := by simpa [failure] using h
      exact .unsettled failure
  | none =>
      by_cases asked : invocation.mode = .showHelp ∨ invocation.mode = .showVersion
      · obtain rfl : .exit 0 = stop := by simpa [failure, asked] using h
        exact .informed failure asked
      have role := not_or.mp asked
      cases guard : Privilege.guard invocation identity with
      | error refused =>
          obtain ⟨required, check⟩ := guard_eq_error_iff.mp guard
          obtain rfl : .failed refused = stop := by
            simpa [failure, asked, required, check, refusal?] using h
          exact .refused failure role guard
      | ok _ =>
          have last : (if invocation.mode = .singleSession then
              (refusal? identity.userName).map Stop.failed else none) = some stop := by
            rcases guard_eq_ok_iff.mp guard with exempt | accepted
            · simpa [failure, asked, exempt] using h
            · simpa [failure, asked, accepted, refusal?] using h
          split at last
          · rename_i single
            cases unknown : identity.userName with
            | ok user => simp [unknown, refusal?] at last
            | error reason =>
                obtain rfl : .failed reason = stop := by simpa [unknown, refusal?] using last
                exact .unnamed failure role guard single unknown
          · contradiction

variable [Output τ] (backend : Locale.Backend σ) (drivers : Drivers σ ε) (build : Build)
  (arguments : Arguments) (out : τ) (state : σ)

theorem run_of_settled (settled : (Locale.negotiate backend false state).failure = none) :
    run backend drivers build arguments identity out state =
      proceed drivers build arguments identity
        ((Locale.negotiate backend false state).notices ++
          (Locale.negotiate backend false state).settings.map Locale.Setting.announcement)
        out (Locale.negotiate backend false state).state := by
  simp only [run, settled]

/-- The stage that objects first has the last word, and the state is as the locales left it. -/
theorem run_of_objection {stop : Stop ε}
    (h : firstObjection (Locale.negotiate backend false state)
      (Invocation.classify build.reexecutes arguments) identity = some stop) :
    (run backend drivers build arguments identity out state).stop = stop ∧
      (run backend drivers build arguments identity out state).state =
        (Locale.negotiate backend false state).state := by
  cases objection_of_firstObjection h with
  | unsettled failure => simp [run, failure]
  | informed settled asked =>
      rw [run_of_settled backend drivers build arguments out state settled]
      rcases asked with help | version
      · rw [proceed_help help]
        exact ⟨rfl, rfl⟩
      · rw [proceed_version version]
        exact ⟨rfl, rfl⟩
  | refused settled role guard =>
      rw [run_of_settled backend drivers build arguments out state settled, proceed_role role,
        guard]
      exact ⟨rfl, rfl⟩
  | unnamed settled role guard single unknown =>
      rw [run_of_settled backend drivers build arguments out state settled, proceed_role role,
        guard, dispatch_of_unnamed single unknown]
      exact ⟨rfl, rfl⟩

/-- When no stage objects, the driver of the mode is called on the whole command line. -/
theorem run_of_admitted
    (h : Admitted (Locale.negotiate backend false state)
      (Invocation.classify build.reexecutes arguments) identity) :
    ∃ call,
      HandsOver (Invocation.classify build.reexecutes arguments).mode arguments identity call ∧
      run backend drivers build arguments identity out state =
        { stop := .ofReply (Invocation.classify build.reexecutes arguments).mode
            (drivers call (Locale.negotiate backend false state).state).1
          log := (Locale.negotiate backend false state).notices ++
            (Locale.negotiate backend false state).settings.map Locale.Setting.announcement ++
            invocationEntries arguments (.classify build.reexecutes arguments)
          out
          state := (drivers call (Locale.negotiate backend false state).state).2 } := by
  obtain ⟨call, made⟩ := exists_ofMode arguments (Mode.isSome_role?_iff.mpr h.role)
    fun single => (h.named single).imp fun _ => userName_eq_ok_iff.mpr
  refine ⟨call, handsOver_of_ofMode made, ?_⟩
  rw [run_of_settled backend drivers build arguments out state h.settled, proceed_role h.role,
    guard_eq_ok_iff.mpr h.permitted, dispatch_of_call made]

/-- Only help and the version are put out. -/
theorem run_out
    (role : (Invocation.classify build.reexecutes arguments).mode ≠ .showHelp ∧
      (Invocation.classify build.reexecutes arguments).mode ≠ .showVersion) :
    (run backend drivers build arguments identity out state).out = out := by
  cases failure : (Locale.negotiate backend false state).failure with
  | some unsettled => simp [run, failure]
  | none =>
      rw [run_of_settled backend drivers build arguments out state failure, proceed_role role]
      split <;> rfl

/-! ## Messages -/

/-- Messages for those who follow a startup closely. -/
def Routine (entries : List Log.Entry) : Prop :=
  ∀ entry ∈ entries, entry.level = .debug ∨ entry.level = .log

theorem Routine.append {entries others : List Log.Entry} (h : Routine entries)
    (h' : Routine others) : Routine (entries ++ others) := by
  intro entry mem
  rcases List.mem_append.mp mem with first | second
  · exact h entry first
  · exact h' entry second

/-- Above their levels routine messages are not heard. -/
theorem Routine.filter_passes {entries : List Log.Entry} (h : Routine entries)
    {minimum : Log.Level} (quiet : .log < minimum) :
    entries.filter (Log.Logger.passes minimum) = [] := by
  rw [List.filter_eq_nil_iff]
  intro entry mem
  rw [Log.Logger.passes_iff, Decidable.not_not]
  rcases h entry mem with level | level <;> rw [level]
  · exact ⟨Nat.lt_trans (by decide) quiet, by decide⟩
  · exact ⟨quiet, by decide⟩

theorem level_of_notices {negotiation : Locale.Negotiation σ} {entry : Log.Entry}
    (mem : entry ∈ negotiation.notices) : entry.level = .log := by
  rw [Locale.notices_eq] at mem
  obtain ⟨setting, -, rfl⟩ := List.mem_map.mp mem
  rfl

theorem notices_routine (negotiation : Locale.Negotiation σ) : Routine negotiation.notices :=
  fun _ mem => .inr (level_of_notices mem)

theorem inform_routine {subject : String} {text : List String} {log : List Log.Entry}
    {out : τ} {state : σ} (h : Routine log) :
    Routine (inform subject text log out state : Run σ τ ε).log := by
  have told : (inform subject text log out state : Run σ τ ε).log =
      log ++ writeEntries subject (Output.writeText text out).1 := rfl
  rw [told]
  apply h.append
  intro entry mem
  cases result : (Output.writeText text out).1 with
  | ok _ => simp [result, writeEntries] at mem
  | error failure =>
      simp only [result, writeEntries, List.mem_singleton] at mem
      exact .inr (congrArg Log.Entry.level mem)

theorem proceed_routine {log : List Log.Entry} (h : Routine log) :
    Routine (proceed drivers build arguments identity log out state).log := by
  have invoked : Routine
      (log ++ invocationEntries arguments (.classify build.reexecutes arguments)) :=
    h.append (by simp [Routine, invocationEntries])
  by_cases help : (Invocation.classify build.reexecutes arguments).mode = .showHelp
  · rw [proceed_help help]
    exact inform_routine invoked
  by_cases version : (Invocation.classify build.reexecutes arguments).mode = .showVersion
  · rw [proceed_version version]
    exact inform_routine invoked
  rw [proceed_role ⟨help, version⟩]
  split <;> exact invoked

/-- A startup has nothing to say but routine messages; what it fails with is said elsewhere. -/
theorem run_routine : Routine (run backend drivers build arguments identity out state).log := by
  have notices := notices_routine (Locale.negotiate backend false state)
  cases failure : (Locale.negotiate backend false state).failure with
  | some unsettled => simpa [run, failure] using notices
  | none =>
      rw [run_of_settled backend drivers build arguments out state failure]
      apply proceed_routine
      apply notices.append
      intro entry mem
      obtain ⟨setting, -, rfl⟩ := List.mem_map.mp mem
      exact .inl rfl

/-! ## Rehearsals -/

/-- How a rehearsal goes on after what it has asked of the locale backend. -/
inductive Rehearsed (negotiation : Locale.Negotiation σ) (invocation : Invocation)
    (arguments : Arguments) (identity : Identity) (asked : List Locale.Call)
    (rehearsal : Run (σ × List Event) τ Empty) : Prop
  | stopped : firstObjection negotiation invocation identity = some rehearsal.stop →
      rehearsal.state = (negotiation.state, asked.map .locale) →
      Rehearsed negotiation invocation arguments identity asked rehearsal
  | called {call : DriverCall} : Admitted negotiation invocation identity →
      HandsOver invocation.mode arguments identity call →
      rehearsal.stop = .failed (.driverReturned invocation.mode) →
      rehearsal.state = (negotiation.state, asked.map .locale ++ [.driver call]) →
      Rehearsed negotiation invocation arguments identity asked rehearsal

theorem rehearsed_rehearse (identity : Identity) :
    let negotiation := Locale.negotiate backend false state
    ∃ asked : List Locale.Call,
      Locale.negotiate (backend.recorded id) false (state, []) =
        { negotiation with state := (negotiation.state, asked) } ∧
      Rehearsed negotiation (.classify build.reexecutes arguments) arguments identity asked
        (rehearse backend build arguments identity out state) := by
  intro negotiation
  let drivers : Drivers (σ × List Event) Empty := returningDrivers
  let invocation := Invocation.classify build.reexecutes arguments
  obtain ⟨exchanges, -, -, recorded⟩ := Locale.negotiate_recorded backend false state
  have noted := recorded Event.locale []
  -- A note of the calls is no ground for an objection.
  have same : (firstObjection (Locale.negotiate (backend.recorded Event.locale) false (state, []))
      invocation identity : Option (Stop Empty)) =
      firstObjection negotiation invocation identity := by
    rw [noted]
    rfl
  refine ⟨exchanges.map Locale.Exchange.call, recorded id [], ?_⟩
  cases objection : (firstObjection negotiation invocation identity : Option (Stop Empty)) with
  | some stop =>
      obtain ⟨stopped, left⟩ := run_of_objection (backend.recorded Event.locale) drivers build
        arguments out (state, []) (same.trans objection)
      refine .stopped (objection.trans (congrArg some stopped.symm)) ?_
      rw [rehearse, left, noted]
      simp [negotiation]
  | none =>
      obtain ⟨call, handsOver, ran⟩ := run_of_admitted (backend.recorded Event.locale) drivers build
        arguments out (state, []) (firstObjection_eq_none_iff.mp (same.trans objection))
      refine .called (firstObjection_eq_none_iff.mp objection) handsOver ?_ ?_
      · rw [rehearse, ran]
        rfl
      · rw [rehearse, ran, noted]
        simp [drivers, returningDrivers, negotiation]

/--
A rehearsal calls a driver exactly if no stage objects, and then once and last: the driver of the
mode, with the whole command line.  Otherwise it stops as the first objection says.
-/
theorem rehearse_calls (identity : Identity) :
    let negotiation := Locale.negotiate backend false state
    let invocation := Invocation.classify build.reexecutes arguments
    let rehearsal := rehearse backend build arguments identity out state
    ∃ (asked : List Locale.Call) (calls : List DriverCall),
      Locale.negotiate (backend.recorded id) false (state, []) =
        { negotiation with state := (negotiation.state, asked) } ∧
      rehearsal.state = (negotiation.state, asked.map Event.locale ++ calls.map Event.driver) ∧
      (calls ≠ [] ↔ Admitted negotiation invocation identity) ∧
      (Admitted negotiation invocation identity →
        (∃ call, calls = [call] ∧ HandsOver invocation.mode arguments identity call) ∧
        rehearsal.stop = .failed (.driverReturned invocation.mode)) ∧
      (¬ Admitted negotiation invocation identity →
        calls = [] ∧ firstObjection negotiation invocation identity = some rehearsal.stop) := by
  intro negotiation invocation rehearsal
  obtain ⟨asked, recorded, rehearsed⟩ :=
    rehearsed_rehearse backend build arguments out state identity
  refine ⟨asked, ?_⟩
  cases rehearsed with
  | stopped objection left =>
      have refused : ¬ Admitted negotiation invocation identity := fun admitted => by
        rw [firstObjection_eq_none_iff.mpr admitted] at objection
        contradiction
      exact ⟨[], recorded, by simpa using left, iff_of_false (by simp) refused,
        fun admitted => absurd admitted refused, fun _ => ⟨rfl, objection⟩⟩
  | @called call admitted handsOver returned left =>
      exact ⟨[call], recorded, left, iff_of_true (List.cons_ne_nil _ _) admitted,
        fun _ => ⟨⟨call, rfl, handsOver⟩, returned⟩, fun refused => absurd admitted refused⟩

end Startup

end ServerEntry
