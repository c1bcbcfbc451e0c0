import Mathlib.Data.List.Basic
import ServerEntry.Proofs.CommandLine.Mode
import ServerEntry.Proofs.Startup.Identities

/-!
# Startups that write as they go

`run` lists its messages and leaves the writing to its caller.  Here the logger is asked at every
message, at the moment it comes up, so what a logger makes of one message could tell on all that
follows.  It never does: a startup that writes as it goes is the listed one with its list written.
So the minimum level is seen in the error output alone, and there it drops whole lines.
-/

namespace ServerEntry

variable {σ τ ε : Type}

/-- What a startup works on, beside what it has written to its error output. -/
structure Desk (σ : Type) where
  state : σ
  written : String

namespace Desk

def say (logger : Log.Logger) (desk : Desk σ) (entry : Log.Entry) : Desk σ :=
  { desk with written := desk.written ++ logger.emit entry }

def sayAll (logger : Log.Logger) (desk : Desk σ) (entries : List Log.Entry) : Desk σ :=
  entries.foldl (say logger) desk

theorem sayAll_eq (logger : Log.Logger) (desk : Desk σ) (entries : List Log.Entry) :
    desk.sayAll logger entries = ⟨desk.state, desk.written ++ logger.emitAll entries⟩ := by
  induction entries generalizing desk with
  | nil => simp [sayAll, Log.Logger.emitAll]
  | cons entry entries ih =>
      change (desk.say logger entry).sayAll logger entries = _
      rw [ih]
      simp [say, Log.Logger.emitAll, String.append_assoc]

end Desk

/-! ## Locales -/

namespace Locale

variable (logger : Log.Logger) (backend : Backend σ)

def settleAloud (category : Category) (requested : String) (desk : Desk σ) :
    Option Setting × Desk σ :=
  match backend.adopt category requested desk.state with
  | (some resolved, state) => (some ⟨category, requested, resolved, false⟩, { desk with state })
  | (none, state) =>
      match backend.adopt category portable state with
      | (some resolved, state) =>
          (some ⟨category, requested, resolved, true⟩,
            { desk with state }.say logger
              ⟨.log, "could not adopt \"" ++ requested ++ "\" locale for " ++
                category.variableName ++ ", using C"⟩)
      | (none, state) => (none, { desk with state })

def settleAllAloud : List (Category × String) → Desk σ → Negotiation (Desk σ)
  | [], desk => ⟨[], none, desk⟩
  | (category, requested) :: rest, desk =>
      match settleAloud logger backend category requested desk with
      | (none, desk) => ⟨[], some (unsettled category requested), desk⟩
      | (some setting, desk) =>
          let others := settleAllAloud rest desk
          { others with settings := setting :: others.settings }

def negotiateAloud (windows : Bool) (desk : Desk σ) : Negotiation (Desk σ) :=
  let (plan, state) := plan backend windows desk.state
  let settled := settleAllAloud logger backend plan { desk with state }
  match settled.failure with
  | some _ => settled
  | none =>
      let (overrun, state) :=
        backend.overrun? (backend.remove overrideVariable settled.state.state)
      ⟨settled.settings, overrun.map Failure.collationOverrun, { settled.state with state }⟩

theorem settleAloud_eq (category : Category) (requested : String) (state : σ) (written : String) :
    settleAloud logger backend category requested ⟨state, written⟩ =
      ((settle backend category requested state).1,
        ⟨(settle backend category requested state).2, written ++ logger.emitAll
          ((settle backend category requested state).1.toList.filterMap Setting.notice?)⟩) := by
  rcases first : backend.adopt category requested state with ⟨_ | resolved, next⟩
  · rcases second : backend.adopt category portable next with ⟨_ | resolved, last⟩
    · simp [settleAloud, settle, first, second, Log.Logger.emitAll]
    · simp [settleAloud, settle, first, second, Desk.say, Setting.notice?, Log.Logger.emitAll]
  · simp [settleAloud, settle, first, Setting.notice?, Log.Logger.emitAll]

theorem settleAllAloud_eq (plan : List (Category × String)) (state : σ) (written : String) :
    settleAllAloud logger backend plan ⟨state, written⟩ =
      { settleAll backend plan state with
        state := ⟨(settleAll backend plan state).state,
          written ++ logger.emitAll (settleAll backend plan state).notices⟩ } := by
  induction plan generalizing state written with
  | nil => simp [settleAllAloud, settleAll, Negotiation.notices, Log.Logger.emitAll]
  | cons entry rest ih =>
      obtain ⟨category, requested⟩ := entry
      unfold settleAllAloud settleAll
      rw [settleAloud_eq]
      rcases settle backend category requested state with ⟨_ | setting, next⟩
      · simp [Negotiation.notices, Log.Logger.emitAll]
      · have said : (setting :: (settleAll backend rest next).settings).filterMap Setting.notice? =
            [setting].filterMap Setting.notice? ++ (settleAll backend rest next).notices := by
          simp [Negotiation.notices, ← List.filterMap_append]
        simp only [ih, Option.toList_some, String.append_assoc, ← Log.Logger.emitAll_append, ← said]
        rfl

theorem negotiateAloud_eq (windows : Bool) (state : σ) (written : String) :
    negotiateAloud logger backend windows ⟨state, written⟩ =
      { negotiate backend windows state with
        state := ⟨(negotiate backend windows state).state,
          written ++ logger.emitAll (negotiate backend windows state).notices⟩ } := by
  unfold negotiateAloud negotiate
  rcases plan backend windows state with ⟨requests, next⟩
  simp only [settleAllAloud_eq]
  cases failure : (settleAll backend requests next).failure with
  | some unsettled => simp [failure]
  | none => simp [Negotiation.notices]

end Locale

/-! ## The startup sequence -/

namespace Startup

section Aloud

variable [Output τ] (logger : Log.Logger) (drivers : Drivers σ ε) (build : Build)
  (arguments : Arguments) (identity : Identity)

def observeDesk (program : String) (stop : Stop ε) (out : τ) (desk : Desk σ) :
    Observation σ τ ε :=
  ⟨stop, stop.report? program, out, desk.state, desk.written⟩

def informAloud (subject : String) (text : List String) (out : τ) (desk : Desk σ) :
    Observation σ τ ε :=
  let (result, out) := Output.writeText text out
  observeDesk identity.program (.exit 0) out (desk.sayAll logger (writeEntries subject result))

def proceedAloud (out : τ) (desk : Desk σ) : Observation σ τ ε :=
  let invocation := Invocation.classify build.reexecutes arguments
  let desk := desk.sayAll logger (invocationEntries arguments invocation)
  match invocation.mode with
  | .showHelp =>
      informAloud logger identity "help text" (Usage.help identity.program build.encrypts) out desk
  | .showVersion => informAloud logger identity "version" Usage.version out desk
  | mode =>
      match Privilege.guard invocation identity with
      | .error failure => observeDesk identity.program (.failed failure) out desk
      | .ok () =>
          let (stop, state) := dispatch drivers mode arguments identity desk.state
          observeDesk identity.program stop out { desk with state }

def aloud (backend : Locale.Backend σ) (out : τ) (state : σ) : Observation σ τ ε :=
  let negotiation := Locale.negotiateAloud logger backend false ⟨state, ""⟩
  match negotiation.failure with
  | some failure => observeDesk identity.program (.failed failure) out negotiation.state
  | none =>
      let desk := negotiation.state.sayAll logger
        (negotiation.settings.map Locale.Setting.announcement)
      proceedAloud logger drivers build arguments identity out desk

theorem informAloud_eq (subject : String) (text : List String) (log : List Log.Entry) (out : τ)
    (state : σ) :
    (informAloud logger identity subject text out ⟨state, logger.emitAll log⟩ :
        Observation σ τ ε) =
      observe logger identity.program (inform subject text log out state) := by
  simp [informAloud, inform, observe, observeDesk, Desk.sayAll_eq, Log.Logger.emitAll_append]

theorem proceedAloud_eq (log : List Log.Entry) (out : τ) (state : σ) :
    proceedAloud logger drivers build arguments identity out ⟨state, logger.emitAll log⟩ =
      observe logger identity.program
        (proceed drivers build arguments identity log out state) := by
  unfold proceedAloud
  simp only [Desk.sayAll_eq, ← Log.Logger.emitAll_append]
  by_cases help : (Invocation.classify build.reexecutes arguments).mode = .showHelp
  · rw [proceed_help help]
    simp only [help, informAloud_eq]
  by_cases version : (Invocation.classify build.reexecutes arguments).mode = .showVersion
  · rw [proceed_version version]
    simp only [version, informAloud_eq]
  rw [proceed_role ⟨help, version⟩]
  split
  · contradiction
  · contradiction
  · cases Privilege.guard (.classify build.reexecutes arguments) identity <;> rfl

theorem aloud_eq (backend : Locale.Backend σ) (out : τ) (state : σ) :
    aloud logger drivers build arguments identity backend out state =
      observe logger identity.program
        (run backend drivers build arguments identity out state) := by
  unfold aloud run
  rw [Locale.negotiateAloud_eq]
  cases failure : (Locale.negotiate backend false state).failure with
  | some unsettled => simp [failure, observeDesk, observe]
  | none =>
      simp only [failure, Desk.sayAll_eq, String.empty_append, ← Log.Logger.emitAll_append]
      exact proceedAloud_eq ..

end Aloud

/-! ## Messages by level -/

/-- What is called for instead of a role: a text, by its name in messages. -/
inductive Requested (build : Build) (arguments : Arguments) (program : String) :
    String → List String → Prop
  | help : arguments.AsksHelp →
      Requested build arguments program "help text" (Usage.help program build.encrypts)
  | version : arguments.AsksVersion →
      Requested build arguments program "version" Usage.version

theorem mem_writeEntries {subject : String} {result : Except WriteError Unit} {entry : Log.Entry} :
    entry ∈ writeEntries subject result ↔ ∃ error, result = .error error ∧
      entry = ⟨.log, "could not write " ++ subject ++ ": " ++ error.message⟩ := by
  cases result <;> simp [writeEntries]

theorem length_writeEntries (subject : String) (result : Except WriteError Unit) :
    (writeEntries subject result).length ≤ 1 := by
  cases result <;> simp [writeEntries]

section Requested

variable [Output τ] {drivers : Drivers σ ε} {build : Build} {arguments : Arguments}
  {program : String} {identity : Identity} {log : List Log.Entry} {out : τ} {state : σ}

theorem Requested.unique {subject other : String} {text text' : List String}
    (h : Requested build arguments program subject text)
    (h' : Requested build arguments program other text') : subject = other ∧ text = text' := by
  cases h with
  | help help =>
      cases h' with
      | help => exact ⟨rfl, rfl⟩
      | version version => exact absurd version help.not_asksVersion
  | version version =>
      cases h' with
      | help help => exact absurd version help.not_asksVersion
      | version => exact ⟨rfl, rfl⟩

theorem proceed_requested {subject : String} {text : List String}
    (h : Requested build arguments identity.program subject text) :
    proceed drivers build arguments identity log out state =
      inform subject text
        (log ++ invocationEntries arguments (.classify build.reexecutes arguments)) out state := by
  cases h with
  | help asked => exact proceed_help (classify_eq_showHelp_iff.mpr asked)
  | version asked => exact proceed_version (classify_eq_showVersion_iff.mpr asked)

theorem role_of_not_requested
    (h : ∀ subject text, ¬ Requested build arguments program subject text) :
    (Invocation.classify build.reexecutes arguments).mode ≠ .showHelp ∧
      (Invocation.classify build.reexecutes arguments).mode ≠ .showVersion := by
  constructor
  · intro mode
    exact h _ _ (.help (classify_eq_showHelp_iff.mp mode))
  · intro mode
    exact h _ _ (.version (classify_eq_showVersion_iff.mp mode))

end Requested

section Messages

variable [Output τ] (backend : Locale.Backend σ) (drivers : Drivers σ ε) (build : Build)
  (arguments : Arguments) (identity : Identity) (out : τ) (state : σ)

theorem proceed_log (log : List Log.Entry) :
    ∃ complaints : List Log.Entry,
      (proceed drivers build arguments identity log out state).log =
        log ++ invocationEntries arguments (.classify build.reexecutes arguments) ++ complaints ∧
      complaints.length ≤ 1 ∧
      ∀ entry, entry ∈ complaints ↔ ∃ subject text error,
        Requested build arguments identity.program subject text ∧
        (Output.writeText text out).1 = .error error ∧
        entry = ⟨.log, "could not write " ++ subject ++ ": " ++ error.message⟩ := by
  by_cases h : ∃ subject text, Requested build arguments identity.program subject text
  · obtain ⟨subject, text, requested⟩ := h
    refine ⟨writeEntries subject (Output.writeText text out).1, ?_, length_writeEntries _ _,
      fun entry => ?_⟩
    · rw [proceed_requested requested]
      rfl
    · rw [mem_writeEntries]
      constructor
      · rintro ⟨error, refused, rfl⟩
        exact ⟨subject, text, error, requested, refused, rfl⟩
      · rintro ⟨_, _, error, other, refused, rfl⟩
        obtain ⟨rfl, rfl⟩ := requested.unique other
        exact ⟨error, refused, rfl⟩
  · simp only [not_exists] at h
    refine ⟨[], ?_, by simp, fun entry => by simp [h]⟩
    rw [proceed_role (role_of_not_requested h), List.append_nil]
    split <;> rfl

theorem level_of_announced {settings : List Locale.Setting} {arguments : Arguments}
    {invocation : Invocation} : ∀ entry ∈ settings.map Locale.Setting.announcement ++
      invocationEntries arguments invocation, entry.level = .debug := by
  simp [invocationEntries, Locale.Setting.announcement, or_imp, forall_and]

/-- The notices of the negotiation, messages for debugging, and a complaint at the end if any. -/
theorem run_log :
    let negotiation := Locale.negotiate backend false state
    ∃ chatter complaints : List Log.Entry,
      (run backend drivers build arguments identity out state).log =
        negotiation.notices ++ chatter ++ complaints ∧
      (∀ entry ∈ chatter, entry.level = .debug) ∧
      complaints.length ≤ 1 ∧
      ∀ entry, entry ∈ complaints ↔
        negotiation.failure = none ∧ ∃ subject text error,
          Requested build arguments identity.program subject text ∧
          (Output.writeText text out).1 = .error error ∧
          entry = ⟨.log, "could not write " ++ subject ++ ": " ++ error.message⟩ := by
  intro negotiation
  cases failure : negotiation.failure with
  | some unsettled => exact ⟨[], [], by simp [run, failure, negotiation], by simp⟩
  | none =>
      obtain ⟨complaints, log, short, refused⟩ := proceed_log drivers build arguments identity out
        negotiation.state
        (negotiation.notices ++ negotiation.settings.map Locale.Setting.announcement)
      refine ⟨negotiation.settings.map Locale.Setting.announcement ++
        invocationEntries arguments (.classify build.reexecutes arguments), complaints, ?_,
        level_of_announced, short, ?_⟩
      · rw [run_of_settled backend drivers build arguments out state failure, log]
        simp [negotiation]
      · simpa using refused

end Messages

/-! ## The minimum level -/

def heard (minimum : Log.Level) (messages : List Log.Entry) : List Log.Entry :=
  messages.filter fun entry => minimum ≤ entry.level ∨ .fatal ≤ entry.level

theorem heard_eq (minimum : Log.Level) (messages : List Log.Entry) :
    heard minimum messages = messages.filter (Log.Logger.passes minimum) := by
  apply List.filter_congr
  intro entry _
  rw [Bool.eq_iff_iff, decide_eq_true_iff, Log.Logger.passes_iff_le]

theorem heard_sublist {low high : Log.Level} (h : low ≤ high) (messages : List Log.Entry) :
    (heard high messages).Sublist (heard low messages) := by
  apply List.monotone_filter_right
  intro entry mem
  rw [decide_eq_true_iff] at mem ⊢
  exact mem.imp_left (Nat.le_trans h)

theorem emitAll_tagged (minimum : Log.Level) (messages : List Log.Entry) :
    (Log.Logger.mk minimum true).emitAll messages =
      String.join ((heard minimum messages).map Log.Entry.line) := by
  rw [heard_eq]
  exact Log.Logger.emitAll_eq_join ..

/--
A minimum level leaves its mark on the error output and nowhere else.  There are messages, the same
for every level, of which a level lets those through that reach it, each as a whole line and in
order.  None of them is worse than a remark: one for each category that fell back, and one if a text
that was asked for could not be written.
-/
theorem aloud_minimum [Output τ] (backend : Locale.Backend σ) (drivers : Drivers σ ε)
    (build : Build) (arguments : Arguments) (identity : Identity) (out : τ) (state : σ) :
    let negotiation := Locale.negotiate backend false state
    let shown (minimum : Log.Level) :=
      aloud ⟨minimum, true⟩ drivers build arguments identity backend out state
    ∃ messages complaints : List Log.Entry,
      (∀ low high, shown high = { shown low with written := (shown high).written }) ∧
      (∀ minimum, (shown minimum).written =
        String.join ((heard minimum messages).map Log.Entry.line)) ∧
      (∀ low high, low ≤ high → (heard high messages).Sublist (heard low messages)) ∧
      (∀ entry ∈ messages, entry.level = .debug ∨ entry.level = .log) ∧
      (∀ minimum, .log < minimum → (shown minimum).written = "") ∧
      messages.filter (fun entry => entry.level = .log) =
        (negotiation.settings.filter Locale.Setting.fellBack).map (fun setting =>
          ⟨.log, "could not adopt \"" ++ setting.requested ++ "\" locale for " ++
            setting.category.variableName ++ ", using C"⟩) ++ complaints ∧
      complaints.length ≤ 1 ∧
      ∀ entry, entry ∈ complaints ↔
        negotiation.failure = none ∧ ∃ subject text error,
          Requested build arguments identity.program subject text ∧
          (Output.writeText text out).1 = .error error ∧
          entry = ⟨.log, "could not write " ++ subject ++ ": " ++ error.message⟩ := by
  intro negotiation shown
  obtain ⟨chatter, complaints, log, debug, short, refused⟩ :=
    run_log backend drivers build arguments identity out state
  let messages := (run backend drivers build arguments identity out state).log
  have told (minimum : Log.Level) : shown minimum = observe ⟨minimum, true⟩ identity.program
      (run backend drivers build arguments identity out state) :=
    aloud_eq ..
  have written (minimum : Log.Level) : (shown minimum).written =
      String.join ((heard minimum messages).map Log.Entry.line) := by
    rw [told]
    exact emitAll_tagged minimum messages
  have routine : Routine messages := run_routine backend drivers build arguments out state
  have complained : ∀ entry ∈ complaints, entry.level = .log := by
    intro entry mem
    obtain ⟨-, subject, text, error, -, -, rfl⟩ := (refused entry).mp mem
    rfl
  have remarks : messages.filter (fun entry => entry.level = .log) =
      negotiation.notices ++ complaints := by
    rw [show messages = negotiation.notices ++ chatter ++ complaints from log, List.filter_append,
      List.filter_append, List.filter_eq_self.mpr (by simpa using fun _ => level_of_notices),
      List.filter_eq_nil_iff.mpr (by simp +contextual [debug]),
      List.filter_eq_self.mpr (by simpa using complained), List.append_nil]
  refine ⟨messages, complaints, fun low high => ?_, written, fun low high le => ?_, routine,
    fun minimum quiet => ?_, ?_, short, refused⟩
  · rw [told, told]
    rfl
  · exact heard_sublist le messages
  · rw [written, heard_eq, routine.filter_passes quiet]
    rfl
  · rw [remarks, Locale.notices_eq]

end Startup

end ServerEntry
