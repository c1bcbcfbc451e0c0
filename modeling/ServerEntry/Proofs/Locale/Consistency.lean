import ServerEntry.Proofs.Locale.Library
import ServerEntry.Proofs.Locale.Transcript

/-!
# The locales of a process after any steps

Whatever is asked of the locales of a process, and in whichever order, every category has the locale
that it adopted last, and its variable says so until it is removed.  Each call keeps this up, so
every step and every run of steps does.  After a negotiation nothing overrides the variables, and a
category whose variable is left alone gets its own locale again when it asks for the ambient one.
-/

namespace ServerEntry.Locale.Library

open Text

/-! ## One call -/

/-- One category has another locale and exports it; nothing else has changed. -/
structure Moved (library : Library) (category : Category) (name : String) (next : Library) :
    Prop where
  current : ∀ other,
    next.current other = if other = category then name else library.current other
  exported : next.env.value? category.variableName = some (Utf8.encode name)
  others : ∀ other, other ≠ Utf8.encode category.variableName →
    next.env.get? other = library.env.get? other

variable {library next : Library} {category : Category} {locale : String}

theorem adopt_of_unknown (unknown : resolve? (library.wanted category locale) = none) :
    adopt category locale library = (none, library) := by
  simp [adopt, unknown]

theorem adopt_of_resolved {name : String}
    (found : resolve? (library.wanted category locale) = some name) :
    adopt category locale library = (some name, library.hold ⟨category, locale, name, false⟩) := by
  simp [adopt, hold, found]

theorem adopt_rejected (h : adopt category locale library = (none, next)) : next = library := by
  cases found : resolve? (library.wanted category locale) with
  | none =>
      rw [adopt_of_unknown found] at h
      exact (congrArg Prod.snd h).symm
  | some name => simp [adopt_of_resolved found] at h

theorem hold_moved (library : Library) (setting : Setting) :
    Moved library setting.category setting.resolved (library.hold setting) where
  current _ := rfl
  exported := by simp [hold]
  others other different := by
    simp [hold, Variables.assign, different.symm]

theorem adopt_moved {name : String} (h : adopt category locale library = (some name, next)) :
    Moved library category name next ∧ (name = portable ∨ name = "C.UTF-8") := by
  cases found : resolve? (library.wanted category locale) with
  | none => simp [adopt_of_unknown found] at h
  | some resolved =>
      obtain ⟨rfl, rfl⟩ :
          resolved = name ∧ library.hold ⟨category, locale, resolved, false⟩ = next := by
        simpa [adopt_of_resolved found] using h
      exact ⟨hold_moved library ⟨category, locale, resolved, false⟩, resolve?_names found⟩

/-! ## The invariant -/

/-- What a transcript says of the locales, and of the variables that it has not lost sight of. -/
structure Follows (library : Library) (exchanges : List Exchange) : Prop where
  current : ∀ category,
    library.current category = (lastAdopted? category exchanges).getD portable
  known : ∀ category,
    library.current category = portable ∨ library.current category = "C.UTF-8"
  exported : ∀ category, Stands category exchanges →
    library.env.value? category.variableName = some (Utf8.encode (library.current category))
  cleared : (∃ exchange ∈ exchanges, exchange.removes overrideVariable) →
    library.env.value? overrideVariable = none

namespace Follows

variable {exchanges others : List Exchange} {exchange : Exchange}

theorem start (env : Variables) : Follows (start env) [] where
  current _ := rfl
  known _ := .inl rfl
  exported _ standing := absurd standing not_stands_nil
  cleared := by simp

theorem removed_concat {name : String}
    (h : ∃ earlier ∈ exchanges ++ [exchange], earlier.removes name) :
    (∃ earlier ∈ exchanges, earlier.removes name) ∨ exchange.removes name := by
  obtain ⟨earlier, mem, removes⟩ := h
  rcases List.mem_append.mp mem with before | last
  · exact .inl ⟨earlier, before, removes⟩
  · exact .inr (List.mem_singleton.mp last ▸ removes)

/-- An exchange that neither adopts nor removes leaves everything to what was said before. -/
theorem idle (h : Follows library exchanges)
    (adopts : ∀ category, exchange.adopted? category = none)
    (removes : ∀ name, ¬ exchange.removes name) : Follows library (exchanges ++ [exchange]) where
  current category := by
    rw [lastAdopted?_concat, adopts, Option.none_or]
    exact h.current category
  known := h.known
  exported category standing := by
    rcases standing.of_concat with adopted | ⟨earlier, -⟩
    · exact absurd (adopts category) adopted
    · exact h.exported category earlier
  cleared removed := by
    rcases removed_concat removed with earlier | last
    · exact h.cleared earlier
    · exact absurd last (removes overrideVariable)

theorem adopt {name : String} (h : Follows library exchanges)
    (moved : Moved library category name next) (known : name = portable ∨ name = "C.UTF-8") :
    Follows next (exchanges ++ [⟨.adopt category locale, some name⟩]) where
  current other := by
    rw [lastAdopted?_concat, moved.current]
    by_cases same : other = category
    · simp [Exchange.adopted?, same]
    · simp [Exchange.adopted?, same, Ne.symm same, h.current other]
  known other := by
    rw [moved.current]
    split
    · exact known
    · exact h.known other
  exported other standing := by
    rw [moved.current]
    by_cases same : other = category
    · rw [if_pos same, same, moved.exported]
    -- Another category's adoption must be an earlier one, and its variable is not touched.
    · rcases standing.of_concat with adopted | ⟨earlier, -⟩
      · simp [Exchange.adopted?, Ne.symm same] at adopted
      · have apart : Utf8.encode other.variableName ≠ Utf8.encode category.variableName := by
          simpa [Utf8.encode_inj, Category.variableName_inj] using same
        rw [if_neg same, Variables.value?, moved.others _ apart]
        exact h.exported other earlier
  cleared removed := by
    have apart : Utf8.encode overrideVariable ≠ Utf8.encode category.variableName := by
      simpa [Utf8.encode_inj] using category.variableName_ne_override.symm
    rcases removed_concat removed with earlier | last
    · rw [Variables.value?, moved.others _ apart]
      exact h.cleared earlier
    · simp [Exchange.removes] at last

theorem remove (h : Follows library exchanges) (name : String) :
    Follows { library with env := library.env.remove name }
      (exchanges ++ [⟨.remove name, none⟩]) where
  current category := by
    rw [lastAdopted?_concat]
    exact h.current category
  known := h.known
  exported category standing := by
    rcases standing.of_concat with adopted | ⟨earlier, kept⟩
    · exact absurd rfl adopted
    · have different : name ≠ category.variableName := by simpa [Exchange.removes] using kept
      rw [Variables.value?_remove, if_neg different]
      exact h.exported category earlier
  cleared removed := by
    rw [Variables.value?_remove]
    split
    · rfl
    · rename_i different
      rcases removed_concat removed with earlier | last
      · exact h.cleared earlier
      · exact absurd (by simpa [Exchange.removes] using last) different

theorem ask (h : Follows library exchanges) {call : Call} {answer : Option String}
    (asked : backend.ask call library = (answer, next)) :
    Follows next (exchanges ++ [⟨call, answer⟩]) := by
  cases call with
  | adopt category locale =>
      cases answer with
      | none =>
          obtain rfl := adopt_rejected asked
          exact h.idle (by simp [Exchange.adopted?]) (by simp [Exchange.removes])
      | some name =>
          obtain ⟨moved, known⟩ := adopt_moved asked
          exact h.adopt moved known
  | read name =>
      obtain rfl : library = next := congrArg Prod.snd asked
      exact h.idle (fun _ => rfl) (by simp [Exchange.removes])
  | check =>
      obtain rfl : library = next := congrArg Prod.snd asked
      exact h.idle (fun _ => rfl) (by simp [Exchange.removes])
  | remove name =>
      obtain ⟨rfl, rfl⟩ := Prod.mk.inj asked
      exact h.remove name

theorem conversation (h : Follows library exchanges)
    (talk : Conversation backend library others next) : Follows next (exchanges ++ others) := by
  induction talk generalizing exchanges with
  | nil => simpa using h
  | cons asked _ ih => simpa using ih (h.ask asked)

end Follows

/-! ## Runs -/

def reached (env : Variables) (steps : List Step) : Library := Step.run backend steps (start env)

def transcript (env : Variables) (steps : List Step) : List Exchange :=
  (Step.run backend.transcribed steps (start env, [])).2

section Runs

variable (env : Variables) (steps : List Step)

theorem run_transcribed :
    Step.run backend.transcribed steps (start env, []) =
      (reached env steps, transcript env steps) := by
  obtain ⟨exchanges, -, -, noting⟩ := Step.run_asks backend steps (start env)
  rw [transcript, noting, reached]

theorem reached_follows : Follows (reached env steps) (transcript env steps) := by
  obtain ⟨exchanges, -, talk, noting⟩ := Step.run_asks backend steps (start env)
  have noted : transcript env steps = exchanges := by simp [transcript, noting]
  simpa [noted, reached] using (Follows.start env).conversation talk

theorem transcript_negotiate (before after : List Step) (windows : Bool) :
    ∃ earlier exchanges later,
      transcript env (before ++ .negotiate windows :: after) = earlier ++ exchanges ++ later ∧
      Course windows exchanges (negotiate backend windows (reached env before)).settings none ∧
      Step.AskInTurn after later := by
  obtain ⟨earlier, -, -, noting⟩ := Step.run_asks backend before (start env)
  obtain ⟨exchanges, asked, talk, notingNegotiation⟩ :=
    (Step.negotiate windows).next_asks backend (reached env before)
  obtain ⟨later, inTurn, -, notingLater⟩ := Step.run_asks backend after
    ((Step.negotiate windows).next backend (reached env before))
  refine ⟨earlier, exchanges, later, ?_, ?_, inTurn⟩
  · rw [transcript, Step.run_append, noting, ← reached, Step.run, List.foldl_cons,
      notingNegotiation, ← Step.run, notingLater]
    simp
  · cases asked with
    | negotiate course =>
        -- The course is of some outcome; it is this negotiation's, and that never fails.
        have outcome := negotiate_eq_iff.mpr ⟨exchanges, talk, course⟩
        have sound := congrArg Negotiation.failure outcome
        rw [negotiate_answers] at sound
        obtain rfl : none = _ := sound
        rw [outcome]
        exact course

variable {env} {before after : List Step} {windows : Bool}

/-- A negotiation settles every category, and only a later removal can undo that. -/
theorem stands_after (kept : .remove category.variableName ∉ after) :
    Stands category (transcript env (before ++ .negotiate windows :: after)) := by
  obtain ⟨earlier, exchanges, later, parts, course, inTurn⟩ :=
    transcript_negotiate env before after windows
  have settled : ∃ setting ∈ (negotiate backend windows (reached env before)).settings,
      setting.category = category := by
    rw [negotiate_answers]
    exact ⟨_, List.mem_map_of_mem category.mem_all, rfl⟩
  obtain ⟨setting, made, rfl⟩ := settled
  rw [parts]
  exact ((course.stands made).append_left earlier).append (inTurn.removes kept)

theorem override_after :
    (reached env (before ++ .negotiate windows :: after)).env.value? overrideVariable = none := by
  obtain ⟨earlier, exchanges, later, parts, course, -⟩ :=
    transcript_negotiate env before after windows
  obtain ⟨exchange, mem, removes⟩ := course.clears
  apply (reached_follows env _).cleared
  rw [parts]
  exact ⟨exchange, by simp [mem], removes⟩

end Runs

/-! ## Left alone -/

/-- A category's variable says what its locale is, and is not overridden. -/
structure Rests (library : Library) (category : Category) : Prop where
  override : library.env.value? overrideVariable = none
  exported : library.env.value? category.variableName =
    some (Utf8.encode (library.current category))
  resolves : resolve? (Utf8.encode (library.current category)) = some (library.current category)

theorem rests_after {env : Variables} {before after : List Step} {windows : Bool}
    (kept : .remove category.variableName ∉ after) :
    Rests (reached env (before ++ .negotiate windows :: after)) category where
  override := override_after
  exported := (reached_follows env _).exported category (stands_after kept)
  resolves := by
    rcases (reached_follows env (before ++ .negotiate windows :: after)).known category with
      same | same
    · rw [same, resolve?_portable]
    · rw [same]
      decide

namespace Rests

theorem ambient_eq (h : Rests library category) :
    ambient library.env category = Utf8.encode (library.current category) :=
  ambient_of_value? h.override h.exported h.resolves

/-- To ask for the ambient locale is to ask for the one that is there. -/
theorem adopt_ambient (h : Rests library category) :
    adopt category "" library = (some (library.current category), library) := by
  have found : resolve? (library.wanted category "") = some (library.current category) := by
    rw [wanted, if_pos rfl, h.ambient_eq, h.resolves]
  have same : library.hold ⟨category, "", library.current category, false⟩ = library := by
    obtain ⟨current, env⟩ := library
    simp only [hold, Library.mk.injEq]
    refine ⟨?_, Environment.set_of_get? h.exported⟩
    funext other
    by_cases own : other = category <;> simp [own]
  rw [adopt_of_resolved found, same]

theorem text?_eq (h : Rests library category) :
    library.env.text? category.variableName = some (library.current category) := by
  have plain : Variables.equalsSign ∉ Utf8.encode category.variableName := by
    cases category <;> decide
  have held : library.env.get? (Utf8.encode category.variableName) =
      some (Utf8.encode (library.current category)) := h.exported
  rw [Variables.text?, Variables.read?_of_notMem _ plain, held, Option.bind_some,
    Utf8.decode?_encode]

/-- A negotiation has nothing to fall back from, also when it reads the variable first. -/
theorem answer_requested (h : Rests library category) (windows : Bool) :
    (answer library.env category (requested windows library.env category)).fellBack = false ∧
      (category.pinned = false →
        (answer library.env category (requested windows library.env category)).resolved =
          library.current category) := by
  cases pinned : category.pinned with
  | true =>
      have named : portable ≠ "" := by decide
      rw [requested_of_pinned pinned]
      simp [answer, named]
  | false =>
      have asked : requested windows library.env category = "" ∨
          requested windows library.env category = library.current category := by
        rw [requested]
        split
        · exact .inr (by rw [h.text?_eq, Option.getD_some])
        · exact .inl (by simp [asks, pinned])
      have found : resolve? (library.wanted category (requested windows library.env category)) =
          some (library.current category) := by
        rw [wanted]
        split
        · rw [h.ambient_eq, h.resolves]
        · rename_i named
          rw [asked.resolve_left named, h.resolves]
      simp [answer_wanted, found]

end Rests

/-! ## Pinned categories -/

theorem current_negotiate (windows : Bool) (library : Library) (category : Category) :
    (negotiate backend windows library).state.current category =
      (answer library.env category (requested windows library.env category)).resolved := by
  rw [negotiate_answers]
  cases category <;> rfl

theorem negotiate_pinned (windows : Bool) (library : Library) (pinned : category.pinned) :
    (negotiate backend windows library).state.current category = portable := by
  have named : portable ≠ "" := by decide
  rw [current_negotiate, requested_of_pinned pinned]
  simp [answer, named]

theorem next_pinned (pinned : category.pinned) {step : Step} (spared : ¬ step.Targets category)
    (h : library.current category = portable) :
    (step.next backend library).current category = portable := by
  cases step with
  | negotiate windows => exact negotiate_pinned windows library pinned
  | adopt other locale =>
      have different : category ≠ other := fun same => spared same.symm
      change (adopt other locale library).2.current category = portable
      cases found : resolve? (library.wanted other locale) with
      | none => rwa [adopt_of_unknown found]
      | some name => simp [adopt_of_resolved found, hold, different, h]
  | settle other locale =>
      have different : category ≠ other := fun same => spared same.symm
      change (settle backend other locale library).2.current category = portable
      simp [settle_eq, hold, answer, different, h]
  | plan windows =>
      cases windows <;> exact h
  | read | query | check | remove => exact h

theorem run_pinned (pinned : category.pinned) {steps : List Step}
    (spared : ∀ step ∈ steps, ¬ step.Targets category) (h : library.current category = portable) :
    (Step.run backend steps library).current category = portable := by
  induction steps generalizing library with
  | nil => exact h
  | cons step steps ih =>
      obtain ⟨first, others⟩ := List.forall_mem_cons.mp spared
      exact ih others (next_pinned pinned first h)

theorem pinned_after {env : Variables} {before after : List Step} {windows : Bool}
    (pinned : category.pinned) (spared : ∀ step ∈ after, ¬ step.Targets category) :
    (reached env (before ++ .negotiate windows :: after)).current category = portable := by
  rw [reached, Step.run_append, Step.run, List.foldl_cons]
  exact run_pinned pinned spared (negotiate_pinned windows _ pinned)

/-! ## All steps -/

/--
Every state that steps can reach agrees with their transcript.  There each category is settled, an
adoption moves its own category or nothing, and after a negotiation nothing overrides a category's
variable, which says what the category has until it is removed.
-/
theorem reached_consistent (env : Variables) (steps : List Step) :
    let library := reached env steps
    let exchanges := transcript env steps
    Step.run backend.transcribed steps (start env, []) = (library, exchanges) ∧
      (∀ category, library.current category = (lastAdopted? category exchanges).getD "C" ∧
        (library.current category = "C" ∨ library.current category = "C.UTF-8")) ∧
      (∀ category, Stands category exchanges →
        library.env.value? category.variableName =
          some (Utf8.encode (library.current category))) ∧
      (∀ category locale,
        match backend.adopt category locale library with
        | (none, next) => next = library
        | (some name, next) => Moved library category name next) ∧
      (∀ category locale, ∃ setting,
        (settle backend category locale library).1 = some setting) ∧
      (∀ windows, (negotiate backend windows library).failure = none) ∧
      ∀ before windows after, steps = before ++ .negotiate windows :: after →
        library.env.value? "LC_ALL" = none ∧
        (∀ category, .remove category.variableName ∉ after →
          library.env.value? category.variableName =
            some (Utf8.encode (library.current category)) ∧
          backend.adopt category "" library = (some (library.current category), library) ∧
          ∀ again, ∀ setting ∈ (negotiate backend again library).settings,
            setting.category = category → setting.fellBack = false ∧
              (category.pinned = false → setting.resolved = library.current category)) ∧
        ∀ category, category.pinned → (∀ step ∈ after, ¬ step.Targets category) →
          library.current category = "C" := by
  intro library exchanges
  have follows : Follows library exchanges := reached_follows env steps
  refine ⟨run_transcribed env steps, fun category => ⟨follows.current category,
    follows.known category⟩, follows.exported, fun category locale => ?_,
    fun category locale => ⟨_, congrArg Prod.fst (settle_eq library category locale)⟩,
    fun windows => by rw [negotiate_answers], ?_⟩
  · split
    · exact adopt_rejected ‹_›
    · exact (adopt_moved ‹_›).1
  · rintro before windows after rfl
    refine ⟨override_after, fun category kept => ?_, fun category pinned spared =>
      pinned_after pinned spared⟩
    have rests : Rests library category := rests_after kept
    refine ⟨rests.exported, rests.adopt_ambient, fun again setting made named => ?_⟩
    rw [negotiate_answers] at made
    obtain ⟨other, -, rfl⟩ := List.mem_map.mp made
    obtain rfl : other = category := named
    exact rests.answer_requested again

/-- The override names what is adopted, is gone, and later steps fail or undo something else. -/
theorem reached_consistent_overridden :
    let env : Variables := ⟨[(Utf8.encode "LC_ALL", Utf8.encode "C.UTF-8")]⟩
    let before := [Step.adopt .time "C.UTF-8"]
    let after := [Step.remove "LC_CTYPE", .adopt .messages "nowhere"]
    let library := reached env (before ++ .negotiate false :: after)
    library.env.value? "LC_ALL" = none ∧
      library.env.value? "LC_COLLATE" = some (Utf8.encode "C.UTF-8") ∧
      library.current .time = "C" := by
  intro env before after library
  have consistent := reached_consistent env (before ++ .negotiate false :: after)
  obtain ⟨-, -, -, -, -, -, negotiated⟩ := consistent
  obtain ⟨override, kept, pinned⟩ := negotiated before false after rfl
  exact ⟨override, (kept .collate (by decide)).1,
    pinned .time rfl (by simp [after, Step.Targets])⟩

end ServerEntry.Locale.Library
