import ServerEntry.Locale.Negotiation
import ServerEntry.Proofs.Locale.Conversation

/-!
# What a negotiation asks

A course describes a whole negotiation from outside: the exchanges in their order, the settings that
come of them, and the failure that ends them.  It mentions no state, so it is the same for every
backend.  A negotiation with any backend is the conversation that follows a course, and the course
is determined by the answers.
-/

namespace ServerEntry.Locale

inductive Attempts (category : Category) (requested : String) :
    List Exchange → Option Setting → Prop
  | accepted (resolved : String) :
      Attempts category requested [⟨.adopt category requested, some resolved⟩]
        (some ⟨category, requested, resolved, false⟩)
  | fellBack (resolved : String) :
      Attempts category requested
        [⟨.adopt category requested, none⟩, ⟨.adopt category portable, some resolved⟩]
        (some ⟨category, requested, resolved, true⟩)
  | refused :
      Attempts category requested
        [⟨.adopt category requested, none⟩, ⟨.adopt category portable, none⟩] none

/-- The attempts at several categories in turn, up to the first that is refused twice. -/
inductive Settling :
    List (Category × String) → List Exchange → List Setting → Option Failure → Prop
  | done : Settling [] [] [] none
  | settled {category requested setting rest attempts others settings failure} :
      Attempts category requested attempts (some setting) →
      Settling rest others settings failure →
      Settling ((category, requested) :: rest) (attempts ++ others) (setting :: settings) failure
  | refused {category requested rest attempts} :
      Attempts category requested attempts none →
      Settling ((category, requested) :: rest) attempts []
        (some (.localeAdoption category.variableName requested))

/-- What the categories ask for, in order, once it is known for collation and character types. -/
def asked (collation characters : String) : List (Category × String) :=
  [(.collate, collation), (.ctype, characters), (.messages, ""),
   (.monetary, "C"), (.numeric, "C"), (.time, "C")]

/-- Variables are read on Windows only, and one without a value asks for the empty name. -/
inductive Readings : Bool → List Exchange → List (Category × String) → Prop
  | none : Readings false [] (asked "" "")
  | both (collation characters : Option String) :
      Readings true [⟨.read "LC_COLLATE", collation⟩, ⟨.read "LC_CTYPE", characters⟩]
        (asked (collation.getD "") (characters.getD ""))

inductive Course (windows : Bool) : List Exchange → List Setting → Option Failure → Prop
  | refused {readings attempts plan settings failure} :
      Readings windows readings plan → Settling plan attempts settings (some failure) →
      Course windows (readings ++ attempts) settings (some failure)
  | checked {readings attempts plan settings} (overrun : Option String) :
      Readings windows readings plan → Settling plan attempts settings none →
      Course windows (readings ++ attempts ++ [⟨.remove "LC_ALL", none⟩, ⟨.check, overrun⟩])
        settings (overrun.map Failure.collationOverrun)

variable {σ : Type} {backend : Backend σ}

theorem settle_eq_iff {category : Category} {requested : String} {state last : σ}
    {outcome : Option Setting} :
    settle backend category requested state = (outcome, last) ↔
      ∃ exchanges, Conversation backend state exchanges last ∧
        Attempts category requested exchanges outcome := by
  constructor
  · intro h
    simp only [settle] at h
    rcases first : backend.adopt category requested state with ⟨_ | resolved, next⟩
    · rcases second : backend.adopt category portable next with ⟨_ | resolved, after⟩
      · obtain ⟨rfl, rfl⟩ : none = outcome ∧ after = last := by simpa [first, second] using h
        refine ⟨_, ?_, .refused⟩
        exact .cons first (.single second)
      · obtain ⟨rfl, rfl⟩ :
            some ⟨category, requested, resolved, true⟩ = outcome ∧ after = last := by
          simpa [first, second] using h
        refine ⟨_, ?_, .fellBack resolved⟩
        exact .cons first (.single second)
    · obtain ⟨rfl, rfl⟩ : some ⟨category, requested, resolved, false⟩ = outcome ∧ next = last := by
        simpa [first] using h
      refine ⟨_, ?_, .accepted resolved⟩
      exact .single first
  · rintro ⟨exchanges, talk, attempts⟩
    cases attempts with
    | accepted resolved =>
        have first : backend.adopt category requested state = (some resolved, last) := by
          simpa [Backend.ask] using talk
        simp [settle, first]
    | fellBack resolved =>
        obtain ⟨next, first, second⟩ : ∃ next,
            backend.adopt category requested state = (none, next) ∧
            backend.adopt category portable next = (some resolved, last) := by
          simpa [Backend.ask] using talk
        simp [settle, first, second]
    | refused =>
        obtain ⟨next, first, second⟩ : ∃ next,
            backend.adopt category requested state = (none, next) ∧
            backend.adopt category portable next = (none, last) := by
          simpa [Backend.ask] using talk
        simp [settle, first, second]

theorem settleAll_eq_iff {plan : List (Category × String)} {state last : σ}
    {settings : List Setting} {failure : Option Failure} :
    settleAll backend plan state = ⟨settings, failure, last⟩ ↔
      ∃ exchanges, Conversation backend state exchanges last ∧
        Settling plan exchanges settings failure := by
  induction plan generalizing state settings with
  | nil =>
      constructor
      · rintro ⟨⟩
        exact ⟨[], .nil _, .done⟩
      · rintro ⟨exchanges, talk, ⟨⟩⟩
        simpa [settleAll] using talk
  | cons entry rest ih =>
      obtain ⟨category, requested⟩ := entry
      constructor
      · intro h
        rcases outcome : settle backend category requested state with ⟨_ | setting, next⟩
        · obtain ⟨attempts, talk, twice⟩ := settle_eq_iff.mp outcome
          obtain ⟨rfl, rfl, rfl⟩ :
              [] = settings ∧ some (unsettled category requested) = failure ∧ next = last := by
            simpa [settleAll, outcome] using h
          exact ⟨attempts, talk, .refused twice⟩
        · obtain ⟨attempts, talk, settled⟩ := settle_eq_iff.mp outcome
          rcases others : settleAll backend rest next with ⟨remaining, failed, after⟩
          obtain ⟨rfl, rfl, rfl⟩ :
              setting :: remaining = settings ∧ failed = failure ∧ after = last := by
            simpa [settleAll, outcome, others] using h
          obtain ⟨further, continued, course⟩ := ih.mp others
          exact ⟨attempts ++ further, talk.append continued, .settled settled course⟩
      · rintro ⟨exchanges, talk, course⟩
        cases course with
        | settled attempts others =>
            obtain ⟨next, before, after⟩ := Conversation.append_iff.mp talk
            have outcome := settle_eq_iff.mpr ⟨_, before, attempts⟩
            have remaining := ih.mpr ⟨_, after, others⟩
            simp [settleAll, outcome, remaining]
        | refused attempts =>
            have outcome := settle_eq_iff.mpr ⟨_, talk, attempts⟩
            simp [settleAll, outcome, unsettled]

theorem plan_eq_iff {windows : Bool} {state last : σ} {requests : List (Category × String)} :
    plan backend windows state = (requests, last) ↔
      ∃ exchanges, Conversation backend state exchanges last ∧
        Readings windows exchanges requests := by
  cases windows with
  | false =>
      constructor
      · rintro ⟨⟩
        exact ⟨[], .nil state, .none⟩
      · rintro ⟨exchanges, talk, ⟨⟩⟩
        obtain rfl : state = last := by simpa using talk
        rfl
  | true =>
      constructor
      · intro h
        rcases first : backend.read "LC_COLLATE" state with ⟨collation, next⟩
        rcases second : backend.read "LC_CTYPE" next with ⟨characters, after⟩
        obtain ⟨rfl, rfl⟩ :
            asked (collation.getD "") (characters.getD "") = requests ∧ after = last := by
          simpa [plan, Category.all, Locale.requests, request, Category.pinned, readsVariable,
            Category.variableName, first, second, asked, portable] using h
        refine ⟨_, ?_, .both collation characters⟩
        exact .cons first (.single second)
      · rintro ⟨exchanges, talk, readings⟩
        cases readings with
        | both collation characters =>
            obtain ⟨next, first, second⟩ :
                ∃ next, backend.read "LC_COLLATE" state = (collation, next) ∧
                  backend.read "LC_CTYPE" next = (characters, last) := by
              simpa [Backend.ask] using talk
            simp [plan, Category.all, requests, request, Category.pinned, readsVariable,
              Category.variableName, first, second, asked, portable]

/-- A negotiation is a conversation that follows a course, and no other. -/
theorem negotiate_eq_iff {windows : Bool} {state last : σ} {settings : List Setting}
    {failure : Option Failure} :
    negotiate backend windows state = ⟨settings, failure, last⟩ ↔
      ∃ exchanges, Conversation backend state exchanges last ∧
        Course windows exchanges settings failure := by
  constructor
  · intro h
    rcases planned : plan backend windows state with ⟨requests, next⟩
    rcases settled : settleAll backend requests next with ⟨made, refusal, after⟩
    obtain ⟨questions, reading, readings⟩ := plan_eq_iff.mp planned
    obtain ⟨attempts, trying, settling⟩ := settleAll_eq_iff.mp settled
    cases refusal with
    | some refusal =>
        obtain ⟨rfl, rfl, rfl⟩ : made = settings ∧ some refusal = failure ∧ after = last := by
          simpa [negotiate, planned, settled] using h
        exact ⟨questions ++ attempts, reading.append trying, .refused readings settling⟩
    | none =>
        rcases checked : backend.overrun? (backend.remove overrideVariable after) with
          ⟨overrun, done⟩
        obtain ⟨rfl, rfl, rfl⟩ :
            made = settings ∧ overrun.map Failure.collationOverrun = failure ∧ done = last := by
          simpa [negotiate, planned, settled, checked] using h
        refine ⟨_, (reading.append trying).append ?_, .checked overrun readings settling⟩
        exact .cons rfl (.single checked)
  · rintro ⟨exchanges, talk, course⟩
    cases course with
    | refused readings settling =>
        obtain ⟨next, reading, trying⟩ := Conversation.append_iff.mp talk
        have planned := plan_eq_iff.mpr ⟨_, reading, readings⟩
        have settled := settleAll_eq_iff.mpr ⟨_, trying, settling⟩
        simp [negotiate, planned, settled]
    | checked overrun readings settling =>
        obtain ⟨after, before, ending⟩ := Conversation.append_iff.mp talk
        obtain ⟨next, reading, trying⟩ := Conversation.append_iff.mp before
        have planned := plan_eq_iff.mpr ⟨_, reading, readings⟩
        have settled := settleAll_eq_iff.mpr ⟨_, trying, settling⟩
        have checked :
            backend.overrun? (backend.remove overrideVariable after) = (overrun, last) := by
          simpa [Backend.ask, overrideVariable] using ending
        simp [negotiate, planned, settled, checked]

/-- Recording changes nothing but the notes, which are the questions of the course. -/
theorem negotiate_recorded (backend : Backend σ) (windows : Bool) (state : σ) :
    ∃ exchanges,
      Course windows exchanges (negotiate backend windows state).settings
        (negotiate backend windows state).failure ∧
      Conversation backend state exchanges (negotiate backend windows state).state ∧
      ∀ {ι : Type} (note : Call → ι) (notes : List ι),
        negotiate (backend.recorded note) windows (state, notes) =
          { negotiate backend windows state with
            state := ((negotiate backend windows state).state,
              notes ++ exchanges.map fun exchange => note exchange.call) } := by
  obtain ⟨exchanges, talk, course⟩ :=
    negotiate_eq_iff.mp (Eq.refl (negotiate backend windows state))
  refine ⟨exchanges, course, talk, fun note notes => ?_⟩
  exact negotiate_eq_iff.mpr ⟨exchanges, talk.recorded note notes, course⟩

/-! ## Settings and messages -/

theorem Attempts.names {category : Category} {requested : String} {exchanges : List Exchange}
    {setting : Setting} (h : Attempts category requested exchanges (some setting)) :
    setting.category = category ∧ setting.requested = requested := by
  cases h <;> exact ⟨rfl, rfl⟩

theorem Settling.complete {plan : List (Category × String)} {exchanges : List Exchange}
    {settings : List Setting} (h : Settling plan exchanges settings none) :
    settings.map (fun setting => (setting.category, setting.requested)) = plan := by
  generalize outcome : (none : Option Failure) = failure at h
  induction h with
  | done => rfl
  | settled attempts _ ih =>
      obtain ⟨rfl, rfl⟩ := attempts.names
      simp [ih outcome]
  | refused => contradiction

theorem Settling.refusal {plan : List (Category × String)} {exchanges : List Exchange}
    {settings : List Setting} {failure : Failure}
    (h : Settling plan exchanges settings (some failure)) :
    ∃ category requested rest,
      plan = settings.map (fun setting => (setting.category, setting.requested)) ++
        (category, requested) :: rest ∧
      failure = .localeAdoption category.variableName requested := by
  generalize outcome : some failure = stopped at h
  induction h with
  | done => contradiction
  | settled attempts _ ih =>
      obtain ⟨rfl, rfl⟩ := attempts.names
      obtain ⟨category, requested, rest, rfl, named⟩ := ih outcome
      exact ⟨category, requested, rest, by simp, named⟩
  | @refused category requested rest =>
      cases outcome
      exact ⟨category, requested, rest, by simp, rfl⟩

theorem Readings.categories {windows : Bool} {exchanges : List Exchange}
    {plan : List (Category × String)} (h : Readings windows exchanges plan) :
    plan.map Prod.fst = Category.all := by
  cases h <;> rfl

/-- Unless a category was refused twice, every category has its setting. -/
theorem Course.categories {windows : Bool} {exchanges : List Exchange} {settings : List Setting}
    {failure : Option Failure} (h : Course windows exchanges settings failure)
    (through : ∀ category requested, failure ≠ some (.localeAdoption category requested)) :
    settings.map Setting.category = Category.all := by
  cases h with
  | refused readings settling =>
      obtain ⟨category, requested, rest, -, rfl⟩ := settling.refusal
      exact absurd rfl (through _ _)
  | checked overrun readings settling =>
      rw [← readings.categories, ← settling.complete]
      simp

theorem notices_eq (negotiation : Negotiation σ) :
    negotiation.notices =
      (negotiation.settings.filter Setting.fellBack).map fun setting =>
        ⟨.log, "could not adopt \"" ++ setting.requested ++ "\" locale for " ++
          setting.category.variableName ++ ", using C"⟩ := by
  rw [Negotiation.notices]
  induction negotiation.settings with
  | nil => rfl
  | cons setting settings ih =>
      cases fellBack : setting.fellBack <;> simp [Setting.notice?, fellBack, ih]

/--
The whole interaction of a negotiation, for any backend: it follows a course, its answers are those
the backend gave, and the backend was asked nothing else.  When no category was refused twice there
is a setting for each, and every setting that fell back is announced once, in order.
-/
theorem negotiate_course (backend : Backend σ) (windows : Bool) (state : σ) :
    let negotiation := negotiate backend windows state
    ∃ exchanges,
      Course windows exchanges negotiation.settings negotiation.failure ∧
      Conversation backend state exchanges negotiation.state ∧
      negotiate (backend.recorded id) windows (state, []) =
        { negotiation with state := (negotiation.state, exchanges.map Exchange.call) } ∧
      ((∀ category requested, negotiation.failure ≠ some (.localeAdoption category requested)) →
        negotiation.settings.map Setting.category = Category.all) ∧
      negotiation.notices =
        (negotiation.settings.filter Setting.fellBack).map fun setting =>
          ⟨.log, "could not adopt \"" ++ setting.requested ++ "\" locale for " ++
            setting.category.variableName ++ ", using C"⟩ := by
  intro negotiation
  obtain ⟨exchanges, course, talk, recorded⟩ := negotiate_recorded backend windows state
  exact ⟨exchanges, course, talk, recorded id [], course.categories, notices_eq negotiation⟩

end ServerEntry.Locale
