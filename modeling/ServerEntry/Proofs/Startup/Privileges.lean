import ServerEntry.Proofs.CommandLine.Mode
import ServerEntry.Proofs.Startup.Stages
import ServerEntry.Locale.Table

/-!
# Starting with privileges

Who has privileges is refused, unless the command line is exempt.  The exemption and the mode are
read off the same arguments, but apart from each other: `-C` in the first place is exempt and leads
to the supervisor, while `--describe-config` is exempt wherever it stands, and so also behind an
argument that selects another mode.
-/

namespace ServerEntry

open Text

/-- A superuser, whoever has borrowed an identity, and an administrator. -/
inductive Credentials.Privileged : Credentials → Prop
  | superuser (real : UserId) : Privileged (.unix real 0)
  | borrowed {real effective : UserId} : real ≠ effective → Privileged (.unix real effective)
  | administrator : Privileged (.windows true)

theorem check_eq_ok_iff {credentials : Credentials} :
    Privilege.check credentials = .ok () ↔ ¬ credentials.Privileged := by
  cases credentials with
  | unix real effective =>
      by_cases superuser : effective = 0
      · subst superuser
        simp [Privilege.check, Credentials.Privileged.superuser]
      by_cases borrowed : real = effective
      · subst borrowed
        refine iff_of_true (by simp [Privilege.check, superuser]) ?_
        rintro (_ | different)
        · exact superuser rfl
        · exact different rfl
      · exact iff_of_false (by simp [Privilege.check, superuser, borrowed])
          (fun unprivileged => unprivileged (.borrowed borrowed))
  | windows administrator =>
      cases administrator with
      | true => exact iff_of_false nofun (fun unprivileged => unprivileged .administrator)
      | false => exact iff_of_true rfl nofun

/-! ## Exemptions -/

variable {arguments : Arguments} {reexecutes : Bool}

/-- An exempt command line selects a query, unless a query is asked for behind the selector. -/
theorem exempt_selects
    (exempt : (Invocation.classify reexecutes arguments).check = .exempt)
    (absent : Utf8.encode "--describe-config" ∉ arguments.drop 2) :
    (Invocation.classify reexecutes arguments).mode = .supervisor ∨
      (Invocation.classify reexecutes arguments).mode = .describeConfig := by
  rcases ofArguments_eq_exempt_iff.mp exempt with described | ⟨-, shown⟩
  -- The token is the selector itself, since it does not stand behind it.
  · match arguments, described, absent with
    | program :: first :: rest, described, absent =>
        rcases List.mem_cons.mp described with rfl | later
        · refine .inr ((classify_of_selector rfl).trans ?_)
          cases reexecutes <;> decide
        · exact absurd later absent
  · refine .inl ((classify_of_selector shown).trans ?_)
    cases reexecutes <;> decide

/-! ## Drivers -/

namespace Startup

variable {σ τ : Type} [Output τ] (backend : Locale.Backend σ) (build : Build)
  (identity : Identity) (out : τ) (state : σ)

theorem rehearse_admitted {call : DriverCall}
    (called : .driver call ∈ (rehearse backend build arguments identity out state).state.2) :
    Admitted (Locale.negotiate backend false state)
        (Invocation.classify build.reexecutes arguments) identity ∧
      HandsOver (Invocation.classify build.reexecutes arguments).mode arguments identity call := by
  obtain ⟨asked, -, rehearsed⟩ := rehearsed_rehearse backend build arguments out state identity
  cases rehearsed with
  | stopped objection left => simp [left] at called
  | @called made admitted handsOver returned left =>
      obtain rfl : call = made := by simpa [left] using called
      exact ⟨admitted, handsOver⟩

/--
With privileges a driver is called only for an exempt command line, and one that does more than
answer a query only if `--describe-config` stands behind the argument that selects it.
-/
theorem privileged_calls (privileged : identity.credentials.Privileged) :
    ∀ call, .driver call ∈ (rehearse backend build arguments identity out state).state.2 →
      (Utf8.encode "--describe-config" ∈ arguments.drop 1 ∨
        2 < arguments.length ∧ arguments[1]? = some (Utf8.encode "-C")) ∧
      (Utf8.encode "--describe-config" ∉ arguments.drop 2 →
        call.role ≠ .singleSession ∧ call.role ≠ .bootstrap ∧ call.role ≠ .forkedWorker) := by
  intro call called
  obtain ⟨admitted, handsOver⟩ := rehearse_admitted backend build identity out state called
  have exempt : (Invocation.classify build.reexecutes arguments).check = .exempt :=
    admitted.permitted.resolve_right fun accepted => check_eq_ok_iff.mp accepted privileged
  refine ⟨ofArguments_eq_exempt_iff.mp exempt, fun absent => ?_⟩
  have role := handsOver.role
  rcases exempt_selects exempt absent with query | query
  · rw [query] at role
    rw [← show Role.supervisor = call.role from Option.some.inj role]
    decide
  · rw [query] at role
    rw [← show Role.describeConfig = call.role from Option.some.inj role]
    decide

def superuser : Identity := ⟨"postgres", .unix 0 0, .ok "root"⟩

/-- Locales of all names, and keys that fit. -/
def anyLocale : Locale.Table := ⟨none, [], "C", .empty, true⟩

/-- A superuser may show a parameter, which is the supervisor's business. -/
theorem privileged_calls_show :
    let arguments := [Utf8.encode "postgres", Utf8.encode "-C", Utf8.encode "port"]
    let events :=
      (rehearse anyLocale.backend .plain arguments superuser Sink.unlimited .empty).state.2
    .driver (.supervisor arguments) ∈ events ∧
      Utf8.encode "--describe-config" ∉ arguments.drop 2 ∧
      ∀ call, .driver call ∈ events →
        call.role ≠ .singleSession ∧ call.role ≠ .bootstrap ∧ call.role ≠ .forkedWorker := by
  intro arguments events
  have absent : Utf8.encode "--describe-config" ∉ arguments.drop 2 := by decide
  refine ⟨by decide, absent, fun call called => ?_⟩
  exact (privileged_calls anyLocale.backend .plain superuser Sink.unlimited .empty (.superuser 0)
    call called).2 absent

/-- Behind a selector `--describe-config` lets a superuser into every role. -/
theorem privileged_called :
    let arguments (selector : String) : Arguments :=
      [Utf8.encode "postgres", Utf8.encode selector, Utf8.encode "--describe-config"]
    let events (selector : String) : List Event :=
      (rehearse anyLocale.backend .full (arguments selector) superuser Sink.unlimited
        .empty).state.2
    superuser.credentials.Privileged ∧
      .driver (.singleSession (arguments "--single") ⟨Utf8.encode "root", false, "root"⟩) ∈
        events "--single" ∧
      .driver (.bootstrap (arguments "--boot")) ∈ events "--boot" ∧
      .driver (.forkedWorker (arguments "--forkbackend")) ∈ events "--forkbackend" := by
  refine ⟨.superuser 0, ?_, ?_, ?_⟩ <;> decide

end Startup

end ServerEntry
