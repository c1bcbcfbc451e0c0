import ServerEntry.Log.Logger
import ServerEntry.Proofs.Startup.Privileges

/-!
# What a startup shows of an identity

Besides the program's name a startup makes two uses of an identity.  The privilege check asks for
the credentials, and a single-user session for the user's name.  Nothing that can be observed tells
apart two identities of one program that answer alike where they are asked.
-/

namespace ServerEntry

variable {σ τ ε : Type}

def Stop.report? (program : String) : Stop ε → Option String
  | .failed failure => some (failure.report program)
  | .exit _ | .ended _ => none

namespace Startup

/--
All there is to see of a run, with the calls that its backend and its drivers have noted in their
state.
-/
structure Observation (σ τ ε : Type) where
  stop : Stop ε
  report : Option String
  out : τ
  state : σ
  written : String

def observe (logger : Log.Logger) (program : String) (run : Run σ τ ε) : Observation σ τ ε where
  stop := run.stop
  report := run.stop.report? program
  out := run.out
  state := run.state
  written := logger.emitAll run.log

/-! ## Where an identity is asked -/

/-- Two identities that answer an invocation alike, each question where it is asked. -/
structure Alike (invocation : Invocation) (identity identity' : Identity) : Prop where
  program : identity.program = identity'.program
  guarded : invocation.mode ≠ .showHelp ∧ invocation.mode ≠ .showVersion →
    Privilege.guard invocation identity = Privilege.guard invocation identity'
  named : invocation.mode = .singleSession → identity.userName = identity'.userName

section Asked

variable {mode : Mode} {arguments : Arguments} {invocation : Invocation}
  {identity identity' : Identity}

theorem ofMode_congr (named : mode = .singleSession → identity.userName = identity'.userName) :
    DriverCall.ofMode mode arguments identity = DriverCall.ofMode mode arguments identity' := by
  cases mode with
  | singleSession => simp only [DriverCall.ofMode, SessionTarget.resolve, named rfl]
  | showHelp | showVersion | describeConfig | forkedWorker | bootstrapLoad | supervisor => rfl

theorem guard_congr
    (same : invocation.check = .exempt ∨
      Privilege.check identity.credentials = Privilege.check identity'.credentials) :
    Privilege.guard invocation identity = Privilege.guard invocation identity' := by
  rw [Privilege.guard, Privilege.guard]
  cases check : invocation.check with
  | exempt => rfl
  | required => exact same.resolve_left (by simp [check])

namespace Alike

variable [Output τ] {drivers : Drivers σ ε} {build : Build} {log : List Log.Entry} {out : τ}
  {state : σ}

theorem proceed_eq
    (h : Alike (.classify build.reexecutes arguments) identity identity') :
    proceed drivers build arguments identity log out state =
      proceed drivers build arguments identity' log out state := by
  by_cases help : (Invocation.classify build.reexecutes arguments).mode = .showHelp
  · rw [proceed_help help, proceed_help help, h.program]
  by_cases version : (Invocation.classify build.reexecutes arguments).mode = .showVersion
  · rw [proceed_version version, proceed_version version]
  have role := And.intro help version
  rw [proceed_role role, proceed_role role, h.guarded role, dispatch, dispatch,
    ofMode_congr h.named]

theorem run_eq {backend : Locale.Backend σ}
    (h : Alike (.classify build.reexecutes arguments) identity identity') :
    run backend drivers build arguments identity out state =
      run backend drivers build arguments identity' out state := by
  cases failure : (Locale.negotiate backend false state).failure with
  -- The locales are settled, or not, before anyone is asked who they are.
  | some unsettled => simp only [run, failure]
  | none =>
      rw [run_of_settled backend drivers build arguments out state failure,
        run_of_settled backend drivers build arguments out state failure, h.proceed_eq]

end Alike

end Asked

/-! ## Indistinguishable runs -/

variable [Output τ] (backend : Locale.Backend σ) (drivers : Drivers σ ε) (build : Build)
  (arguments : Arguments) (out : τ) (state : σ)

/--
Help and the version are the same for everyone.  Where a role is asked for, what a run shows depends
on the credentials by the verdict of the check alone, and not at all if the command line is exempt;
the user counts by name, and for a single-user session only.
-/
theorem observe_eq (logger : Log.Logger) (program : String) (credentials credentials' : Credentials)
    (user user' : Except String String) :
    let invocation := Invocation.classify build.reexecutes arguments
    let same := invocation.check = .exempt ∨
      Privilege.check credentials = Privilege.check credentials'
    let indistinguishable :=
      observe logger program
          (run backend drivers build arguments ⟨program, credentials, user⟩ out state) =
        observe logger program
          (run backend drivers build arguments ⟨program, credentials', user'⟩ out state)
    (invocation.mode = .showHelp ∨ invocation.mode = .showVersion → indistinguishable) ∧
      (invocation.mode ≠ .singleSession → same → indistinguishable) ∧
      (invocation.mode = .singleSession → ∀ name, user = .ok name → user' = .ok name →
        same → indistinguishable) := by
  intro invocation same indistinguishable
  have told (h : Alike invocation ⟨program, credentials, user⟩ ⟨program, credentials', user'⟩) :
      indistinguishable :=
    congrArg (observe logger program) h.run_eq
  refine ⟨fun informs => told ⟨rfl, fun role => absurd informs (not_or.mpr role), ?_⟩,
    fun other same => told ⟨rfl, fun _ => guard_congr same, fun single => absurd single other⟩, ?_⟩
  · intro single
    rw [single] at informs
    simp at informs
  · rintro - name rfl rfl same
    exact told ⟨rfl, fun _ => guard_congr same, fun _ => rfl⟩

theorem observe_eq_ordinary :
    let shown (arguments : List String) (credentials : Credentials) (user : Except String String) :=
      observe .fresh "postgres" (rehearse anyLocale.backend .plain (arguments.map Text.Utf8.encode)
        ⟨"postgres", credentials, user⟩ Sink.unlimited .empty)
    shown ["postgres", "--help"] (.unix 0 0) (.ok "root") =
        shown ["postgres", "--help"] (.unix 26 26) (.error "no such user") ∧
      shown ["postgres", "-D", "data"] (.unix 26 26) (.ok "postgres") =
        shown ["postgres", "-D", "data"] (.unix 27 27) (.error "no such user") ∧
      shown ["postgres", "-C", "port"] (.unix 0 0) (.ok "root") =
        shown ["postgres", "-C", "port"] (.windows true) (.error "no such user") ∧
      shown ["postgres", "--single"] (.unix 26 26) (.ok "postgres") =
        shown ["postgres", "--single"] (.unix 27 27) (.ok "postgres") := by
  have shown (arguments : Arguments) :=
    observe_eq (anyLocale.backend.recorded .locale) (returningDrivers (ε := Empty)) .plain
      arguments Sink.unlimited (.empty, []) .fresh "postgres"
  refine ⟨?_, ?_, ?_, ?_⟩
  · exact (shown _ _ _ _ _).1 (.inl (by decide))
  · exact (shown _ _ _ _ _).2.1 (by decide) (.inr rfl)
  · exact (shown _ _ _ _ _).2.1 (by decide) (.inl (by decide))
  · exact (shown _ _ _ _ _).2.2 (by decide) "postgres" rfl rfl (.inr rfl)

end Startup

end ServerEntry
