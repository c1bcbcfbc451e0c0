import ServerEntry.Log.Logger
import ServerEntry.Proofs.Text.Utf8

/-!
# What a logger remembers of its steps

A logger keeps a level and a mark, but what it writes can be read off the steps it was taken
through: the last level that was called for, and whether it was ever started.  Nothing else in its
history counts, and raw texts and reports are written as they are whatever the history.
-/

namespace ServerEntry.Log.Logger

open Text

def Step.calls? : Step → Option Level
  | .setMinimum level => some level
  | .start value => some (((value.bind Utf8.decode?).bind Level.parse?).getD .warning)
  | .emit _ | .raw _ | .report .. => none

def lastMinimum (history : List Step) : Level :=
  (history.filterMap Step.calls?).getLast?.getD .warning

inductive Writes (history : List Step) : Step → String → Prop
  | set (level : Level) : Writes history (.setMinimum level) ""
  | dropped {entry : Entry} :
      entry.level < lastMinimum history ∧ entry.level < .fatal →
      Writes history (.emit entry) ""
  | bare {entry : Entry} :
      ¬ (entry.level < lastMinimum history ∧ entry.level < .fatal) →
      (∀ value, .start value ∉ history) →
      Writes history (.emit entry) (entry.message ++ "\n")
  | tagged {entry : Entry} {value : Option Bytes} :
      ¬ (entry.level < lastMinimum history ∧ entry.level < .fatal) →
      .start value ∈ history →
      Writes history (.emit entry) (entry.level.name ++ ":  " ++ entry.message ++ "\n")
  | raw (text : String) : Writes history (.raw text) text
  | complained {value : Option Bytes} {word : String} :
      value = some (Utf8.encode word) → Level.parse? word = none →
      Writes history (.start value)
        ("WARNING:  ignoring environment variable setting POSTGRES_STARTUP_LOG_LEVEL=" ++ word ++
          ": not a valid log level\n")
  | started {value : Option Bytes} :
      (∀ word, value = some (Utf8.encode word) → Level.parse? word ≠ none) →
      Writes history (.start value) ""
  | reported (program : String) (failure : Failure) :
      Writes history (.report program failure)
        (failure.reporting.lead program ++ failure.message ++ "\n")

/-- A logger as its history has left it. -/
structure Recalls (history : List Step) (logger : Logger) : Prop where
  minimum : logger.minimum = lastMinimum history
  tagged : logger.tagged ↔ ∃ value, .start value ∈ history

variable {history : List Step} {logger : Logger}

/-! ## One step -/

theorem lastMinimum_concat (history : List Step) (step : Step) :
    lastMinimum (history ++ [step]) = step.calls?.getD (lastMinimum history) := by
  unfold lastMinimum
  cases called : step.calls? <;> simp [List.filterMap_append, called]

theorem minimum_start (value : Option Bytes) :
    (start value).1.minimum = ((value.bind Utf8.decode?).bind Level.parse?).getD .warning := by
  unfold start minimumFrom
  cases value.bind Utf8.decode? with
  | none => rfl
  | some word => cases parsed : Level.parse? word <;> simp [parsed, setMinimum, defaultMinimum]

theorem Recalls.step (h : Recalls history logger) (step : Step) :
    Recalls (history ++ [step]) (logger.step step).1 where
  minimum := by
    rw [lastMinimum_concat]
    cases step with
    | setMinimum level => exact Level.ofCode_code level
    | start value => exact minimum_start value
    | emit | raw | report => exact h.minimum
  tagged := by
    cases step with
    | start value => exact iff_of_true rfl ⟨value, by simp⟩
    | setMinimum | emit | raw | report => simpa [Logger.step, setMinimum] using h.tagged

theorem writes_emit (h : Recalls history logger) (entry : Entry) :
    Writes history (.emit entry) (logger.emit entry) := by
  unfold emit
  rw [h.minimum]
  by_cases quiet : entry.level < lastMinimum history ∧ entry.level < .fatal
  · rw [if_neg (mt passes_iff.mp (not_not_intro quiet))]
    exact .dropped quiet
  rw [if_pos (passes_iff.mpr quiet)]
  cases tagged : logger.tagged with
  | false =>
      refine .bare quiet fun value started => ?_
      have := h.tagged.mpr ⟨value, started⟩
      simp [tagged] at this
  | true =>
      obtain ⟨value, started⟩ := h.tagged.mp tagged
      exact .tagged quiet started

theorem writes_start (value : Option Bytes) :
    Writes history (.start value) (start value).2 := by
  change Writes history (.start value) (minimumFrom (value.bind Utf8.decode?)).2
  cases decoded : value.bind Utf8.decode? with
  | none =>
      refine .started fun word given => ?_
      simp [given, Utf8.decode?_encode] at decoded
  | some word =>
      obtain ⟨bytes, rfl, read⟩ := Option.bind_eq_some_iff.mp decoded
      obtain rfl := Utf8.decode?_eq_some_iff.mp read
      cases parsed : Level.parse? word with
      | none =>
          simp only [minimumFrom, parsed]
          exact .complained rfl parsed
      | some level =>
          simp only [minimumFrom, parsed]
          refine .started fun other given => ?_
          obtain rfl := Utf8.encode_inj.mp (Option.some.inj given)
          simp [parsed]

theorem Recalls.writes (h : Recalls history logger) (step : Step) :
    Writes history step (logger.step step).2 := by
  cases step with
  | setMinimum level => exact .set level
  | emit entry => exact writes_emit h entry
  | raw text => exact .raw text
  | start value => exact writes_start value
  | report program failure =>
      rw [Logger.step, Failure.report_eq]
      exact .reported program failure

theorem Writes.unique {step : Step} {text other : String} (h : Writes history step text)
    (h' : Writes history step other) : text = other := by
  cases h with
  | set | raw | reported =>
      cases h'
      rfl
  | dropped quiet =>
      cases h' with
      | dropped => rfl
      | bare heard | tagged heard => exact absurd quiet heard
  | bare heard unstarted =>
      cases h' with
      | dropped quiet => exact absurd quiet heard
      | bare => rfl
      | tagged _ started => exact absurd started (unstarted _)
  | tagged heard started =>
      cases h' with
      | dropped quiet => exact absurd quiet heard
      | bare _ unstarted => exact absurd started (unstarted _)
      | tagged => rfl
  | complained given unknown =>
      cases h' with
      | complained given' =>
          obtain rfl := Utf8.encode_inj.mp (Option.some.inj (given.symm.trans given'))
          rfl
      | started known => exact absurd unknown (known _ given)
  | started known =>
      cases h' with
      | complained given unknown => exact absurd unknown (known _ given)
      | started => rfl

theorem Writes.emit_eq_empty_iff {entry : Entry} {text : String}
    (h : Writes history (.emit entry) text) :
    text = "" ↔ entry.level < lastMinimum history ∧ entry.level < .fatal := by
  cases h with
  | dropped quiet => exact iff_of_true rfl quiet
  | bare heard | tagged heard => exact iff_of_false (by simp) heard

theorem Writes.start_eq_empty_iff {value : Option Bytes} {text : String}
    (h : Writes history (.start value) text) :
    text = "" ↔ ∀ word, value = some (Utf8.encode word) → Level.parse? word ≠ none := by
  cases h with
  | complained given unknown => exact iff_of_false (by simp) fun known => known _ given unknown
  | started known => exact iff_of_true rfl known

/-! ## A run -/

theorem run_append (logger : Logger) (before after : List Step) :
    logger.run (before ++ after) =
      (((logger.run before).1.run after).1,
        (logger.run before).2 ++ ((logger.run before).1.run after).2) := by
  induction before generalizing logger with
  | nil => rfl
  | cons step before ih => simp [run, ih]

theorem length_run (logger : Logger) (steps : List Step) :
    (logger.run steps).2.length = steps.length := by
  induction steps generalizing logger with
  | nil => rfl
  | cons step steps ih => simp [run, ih]

theorem Recalls.run (h : Recalls history logger) (steps : List Step) :
    Recalls (history ++ steps) (logger.run steps).1 := by
  induction steps generalizing history logger with
  | nil => simpa [Logger.run] using h
  | cons step steps ih => simpa [Logger.run] using ih (h.step step)

theorem recalls_fresh : Recalls [] fresh where
  minimum := rfl
  tagged := by simp [fresh]

/--
At every point of a run the minimum is the level last called for, messages are tagged if there was a
start, and the next step writes what its history says and nothing else.
-/
theorem run_history (before : List Step) (step : Step) (after : List Step) :
    let logger := (fresh.run before).1
    logger.minimum = lastMinimum before ∧
    (logger.tagged ↔ ∃ value, .start value ∈ before) ∧
    ∃ text, (fresh.run (before ++ step :: after)).2[before.length]? = some text ∧
      (∀ other, Writes before step other ↔ other = text) ∧
      (∀ entry, step = .emit entry →
        (text = "" ↔ entry.level < lastMinimum before ∧ entry.level < .fatal)) ∧
      ∀ value, step = .start value →
        (text = "" ↔ ∀ word, value = some (Utf8.encode word) → Level.parse? word ≠ none) := by
  intro logger
  have recalls : Recalls before logger := recalls_fresh.run before
  have writes : Writes before step (logger.step step).2 := recalls.writes step
  refine ⟨recalls.minimum, recalls.tagged, (logger.step step).2, ?_, fun other => ⟨?_, ?_⟩, ?_, ?_⟩
  · rw [run_append, List.getElem?_append_right (Nat.le_of_eq (length_run fresh before)), length_run,
      Nat.sub_self]
    rfl
  · exact fun writes' => writes'.unique writes
  · rintro rfl
    exact writes
  · rintro entry rfl
    exact writes.emit_eq_empty_iff
  · rintro value rfl
    exact writes.start_eq_empty_iff

end ServerEntry.Log.Logger
