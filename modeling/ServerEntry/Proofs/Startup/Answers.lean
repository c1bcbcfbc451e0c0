import ServerEntry.Proofs.Sink
import ServerEntry.Proofs.Startup.Aloud

/-!
# Answering a request for help or for the version

An answer reaches the output as far as there is room for it, wherever it is cut into pieces, and the
process exits with status 0 whatever becomes of it.  A text that could not be written leaves a
message behind, and nothing else.
-/

namespace ServerEntry

/-! ## What is said -/

namespace Usage

/-- What follows the place of the encryption switch. -/
def remainder : String :=
  String.join (moreServerOptions ++ developerOptions ++ singleUserOptions ++ bootstrapOptions ++
    closing)

theorem join_help (program : String) (encrypts : Bool) :
    String.join (help program encrypts) =
      String.join (heading program) ++ (String.join serverOptions ++
        ((if encrypts then encryptionOption else "") ++ remainder)) := by
  cases encrypts <;> simp [help, remainder]

theorem join_serverOptions : ∃ options, String.join serverOptions = options ++ "\n" := by
  let last : String := "  -k DIRECTORY       Unix-domain socket location"
  have lines : serverOptions = serverOptions.dropLast ++ [last ++ "\n"] := by rfl
  refine ⟨String.join serverOptions.dropLast ++ last, ?_⟩
  rw [lines, String.join_append, String.join_cons, String.join_nil, String.append_empty,
    String.append_assoc]
  rfl

/-- The encryption switch is one more line; the text is the same before and after it. -/
theorem help_encrypts (program : String) : ∃ before line after,
    String.join (help program false) = before ++ "\n" ++ after ∧
      String.join (help program true) = before ++ "\n" ++ (line ++ "\n") ++ after ∧
      '\n' ∉ line.toList := by
  let line : String := "  -l                 enable SSL connections"
  have switch : encryptionOption = line ++ "\n" := by rfl
  obtain ⟨options, ended⟩ := join_serverOptions
  refine ⟨String.join (heading program) ++ options, line, remainder, ?_, ?_, by decide⟩
  · rw [join_help, ended, if_neg Bool.false_ne_true, String.empty_append]
    simp only [String.append_assoc]
  · rw [join_help, ended, if_pos rfl, switch]
    simp only [String.append_assoc]

/-- The program's name stands in two places, and nothing else depends on it. -/
theorem help_names (encrypts : Bool) : ∃ rest, ∀ program,
    String.join (help program encrypts) =
      program ++ (" is the PostgreSQL server.\n\n" ++ "Usage:\n  ") ++ program ++
        (" [OPTION]...\n\n" ++ rest) := by
  refine ⟨"Options:\n" ++ (String.join serverOptions ++
    ((if encrypts then encryptionOption else "") ++ remainder)), fun program => ?_⟩
  rw [join_help]
  simp only [heading, String.join_cons, String.join_nil, String.append_assoc, String.empty_append]

/-- The version is one line, the product before the number. -/
theorem join_version :
    String.join version = "postgres (PostgreSQL) " ++ Build.version ++ "\n" := by
  rw [version, String.join_cons, String.join_nil, String.append_empty]

end Usage

/-! ## What comes of it -/

namespace Startup

variable {σ τ ε : Type} [Output τ]

theorem inform_log (subject : String) (text : List String) (log : List Log.Entry) (out : τ)
    (state : σ) :
    (inform subject text log out state : Run σ τ ε).log =
      log ++ match (Output.writeText text out).1 with
        | .ok () => []
        | .error failure =>
            [⟨.log, "could not write " ++ subject ++ ": " ++ failure.message⟩] := by
  change log ++ writeEntries subject (Output.writeText text out).1 = _
  cases (Output.writeText text out).1 <;> rfl

/-- Once the locales are settled, nothing but the output can keep a request from its answer. -/
theorem run_requested (backend : Locale.Backend σ) (drivers : Drivers σ ε) (build : Build)
    (arguments : Arguments) (identity : Identity) (out : τ) (state : σ)
    (settled : (Locale.negotiate backend false state).failure = none)
    {subject : String} {text : List String}
    (requested : Requested build arguments identity.program subject text) :
    let answer := run backend drivers build arguments identity out state
    answer.stop = .exit 0 ∧ answer.out = (Output.writeText text out).2 ∧
      ∃ chatter, (∀ entry ∈ chatter, entry.level = .debug) ∧
        answer.log = (Locale.negotiate backend false state).notices ++ chatter ++
          match (Output.writeText text out).1 with
          | .ok () => []
          | .error failure =>
              [⟨.log, "could not write " ++ subject ++ ": " ++ failure.message⟩] := by
  intro answer
  let announcements :=
    (Locale.negotiate backend false state).settings.map Locale.Setting.announcement
  let invoked := invocationEntries arguments (.classify build.reexecutes arguments)
  have informed : answer = inform subject text
      ((Locale.negotiate backend false state).notices ++ announcements ++ invoked) out
      (Locale.negotiate backend false state).state :=
    (run_of_settled backend drivers build arguments out state settled).trans
      (proceed_requested requested)
  rw [informed]
  refine ⟨rfl, rfl, announcements ++ invoked, level_of_announced, ?_⟩
  rw [inform_log, List.append_assoc _ announcements invoked]

/--
Help and version reach a new sink as far as it has room for their text, which is the same for every
build but for one line, and for every program but for its name.  Whatever an output does, a startup
that is asked for them exits with status 0, and a failed write is one message in its log.
-/
theorem usage_delivered (program : String) (encrypts : Bool) (capacity : Option Nat)
    (refusal : WriteError) (flushFails : Bool) :
    let sink : Sink := ⟨capacity, refusal, flushFails, []⟩
    sink.Delivers (Usage.help program encrypts)
      (Text.Utf8.encode (String.join (Usage.help program encrypts))) ∧
    sink.Delivers Usage.version
      (Text.Utf8.encode ("postgres (PostgreSQL) " ++ Build.version ++ "\n")) ∧
    (∃ before line after,
      String.join (Usage.help program false) = before ++ "\n" ++ after ∧
      String.join (Usage.help program true) = before ++ "\n" ++ (line ++ "\n") ++ after ∧
      '\n' ∉ line.toList) ∧
    (∃ rest, ∀ name, String.join (Usage.help name encrypts) =
      name ++ (" is the PostgreSQL server.\n\n" ++ "Usage:\n  ") ++ name ++
        (" [OPTION]...\n\n" ++ rest)) ∧
    ∀ {σ τ ε : Type} [Output τ] (backend : Locale.Backend σ) (drivers : Drivers σ ε)
      (build : Build) (arguments : Arguments) (identity : Identity) (out : τ) (state : σ)
      (subject : String) (text : List String),
      (Locale.negotiate backend false state).failure = none →
      ((Invocation.classify build.reexecutes arguments).mode = .showHelp ∧
          subject = "help text" ∧ text = Usage.help identity.program build.encrypts) ∨
        ((Invocation.classify build.reexecutes arguments).mode = .showVersion ∧
          subject = "version" ∧ text = Usage.version) →
      let answer := run backend drivers build arguments identity out state
      answer.stop = .exit 0 ∧ answer.out = (Output.writeText text out).2 ∧
        ∃ chatter, (∀ entry ∈ chatter, entry.level = .debug) ∧
          answer.log = (Locale.negotiate backend false state).notices ++ chatter ++
            match (Output.writeText text out).1 with
            | .ok () => []
            | .error failure =>
                [⟨.log, "could not write " ++ subject ++ ": " ++ failure.message⟩] := by
  intro sink
  refine ⟨Sink.delivers rfl _, Usage.join_version ▸ Sink.delivers rfl _,
    Usage.help_encrypts program, Usage.help_names encrypts, ?_⟩
  intro σ τ ε _ backend drivers build arguments identity out state subject text settled asked
  apply run_requested backend drivers build arguments identity out state settled
  rcases asked with ⟨mode, rfl, rfl⟩ | ⟨mode, rfl, rfl⟩
  · exact .help (classify_eq_showHelp_iff.mp mode)
  · exact .version (classify_eq_showVersion_iff.mp mode)

end Startup

end ServerEntry
