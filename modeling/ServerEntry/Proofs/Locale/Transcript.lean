import ServerEntry.Proofs.Locale.Interaction

/-!
# Steps on a backend, and their transcript

A backend is used in steps: a single call, a category settled, a plan, or a whole negotiation.
Every step is a conversation, and which one is known up to the answers.  A transcript lists the
exchanges of the steps in order; it tells which locale a category adopted last, and whether its
variable has been removed since.
-/

namespace ServerEntry.Locale

variable {σ : Type}

/-! ## Transcripts -/

/-- The same backend, which also notes every question with its answer. -/
def Backend.transcribed (backend : Backend σ) : Backend (σ × List Exchange) where
  adopt category locale state :=
    let (answer, next) := backend.adopt category locale state.1
    (answer, next, state.2 ++ [⟨.adopt category locale, answer⟩])
  read name state :=
    let (answer, next) := backend.read name state.1
    (answer, next, state.2 ++ [⟨.read name, answer⟩])
  remove name state := (backend.remove name state.1, state.2 ++ [⟨.remove name, none⟩])
  overrun? state :=
    let (answer, next) := backend.overrun? state.1
    (answer, next, state.2 ++ [⟨.check, answer⟩])

/-- The name that was adopted for a category, if the exchange adopted one. -/
def Exchange.adopted? (category : Category) : Exchange → Option String
  | ⟨.adopt other _, answer⟩ => if other = category then answer else none
  | _ => none

def lastAdopted? (category : Category) (exchanges : List Exchange) : Option String :=
  (exchanges.filterMap (Exchange.adopted? category)).getLast?

def Exchange.removes (name : String) (exchange : Exchange) : Prop := exchange.call = .remove name

/-- The category adopted a locale, and its variable has not been removed since. -/
def Stands (category : Category) (exchanges : List Exchange) : Prop :=
  ∃ before exchange after, exchanges = before ++ exchange :: after ∧
    exchange.adopted? category ≠ none ∧
    ∀ later ∈ after, ¬ later.removes category.variableName

theorem Backend.ask_transcribed (backend : Backend σ) (call : Call) (state : σ × List Exchange) :
    backend.transcribed.ask call state =
      ((backend.ask call state.1).1, (backend.ask call state.1).2,
        state.2 ++ [⟨call, (backend.ask call state.1).1⟩]) := by
  cases call <;> rfl

theorem Conversation.transcribed {backend : Backend σ} {first last : σ}
    {exchanges : List Exchange} (h : Conversation backend first exchanges last)
    (noted : List Exchange) :
    Conversation backend.transcribed (first, noted) exchanges (last, noted ++ exchanges) := by
  induction h generalizing noted with
  | nil state => simp
  | @cons state next last call answer rest asked _ ih =>
      have answered : backend.transcribed.ask call (state, noted) =
          (answer, next, noted ++ [⟨call, answer⟩]) := by
        simp [Backend.ask_transcribed, asked]
      have continued := ih (noted ++ [⟨call, answer⟩])
      rw [List.append_assoc, List.singleton_append] at continued
      exact .cons answered continued

section

variable {category : Category} {exchanges others : List Exchange} {exchange : Exchange}

theorem lastAdopted?_concat :
    lastAdopted? category (exchanges ++ [exchange]) =
      (exchange.adopted? category).or (lastAdopted? category exchanges) := by
  cases adopted : exchange.adopted? category <;> simp [lastAdopted?, adopted]

theorem not_stands_nil : ¬ Stands category [] := by
  rintro ⟨before, exchange, after, parts, -, -⟩
  simp at parts

theorem Stands.of_concat (h : Stands category (exchanges ++ [exchange])) :
    exchange.adopted? category ≠ none ∨
      Stands category exchanges ∧ ¬ exchange.removes category.variableName := by
  obtain ⟨before, adoption, after, parts, adopted, kept⟩ := h
  rcases List.eq_nil_or_concat after with rfl | ⟨after, last, rfl⟩
  · obtain ⟨rfl, rfl⟩ := List.append_singleton_inj.mp parts
    exact .inl adopted
  · obtain ⟨rfl, rfl⟩ : exchanges = before ++ adoption :: after ∧ exchange = last := by
      rw [← List.append_singleton_inj, parts]
      simp
    refine .inr ⟨⟨before, adoption, after, rfl, adopted, fun later mem => ?_⟩, ?_⟩
    · exact kept later (by simp [mem])
    · exact kept exchange (by simp)

/-- What follows a standing adoption can only end it by removing the variable. -/
theorem Stands.append (h : Stands category exchanges)
    (kept : ∀ other ∈ others, ¬ other.removes category.variableName) :
    Stands category (exchanges ++ others) := by
  obtain ⟨before, adoption, after, rfl, adopted, standing⟩ := h
  refine ⟨before, adoption, after ++ others, by simp, adopted, fun later mem => ?_⟩
  rcases List.mem_append.mp mem with earlier | other
  · exact standing later earlier
  · exact kept later other

theorem Stands.append_left (before : List Exchange) (h : Stands category exchanges) :
    Stands category (before ++ exchanges) := by
  obtain ⟨earlier, adoption, after, rfl, adopted, standing⟩ := h
  exact ⟨before ++ earlier, adoption, after, by simp, adopted, standing⟩

theorem stands_of_mem (mem : exchange ∈ exchanges) (adopted : exchange.adopted? category ≠ none)
    (kept : ∀ other ∈ exchanges, ¬ other.removes category.variableName) :
    Stands category exchanges := by
  obtain ⟨before, after, rfl⟩ := List.append_of_mem mem
  refine ⟨before, exchange, after, rfl, adopted, fun later follows => ?_⟩
  exact kept later (List.mem_append_right _ (List.mem_cons_of_mem _ follows))

end

/-! ## Steps -/

inductive Step where
  | adopt (category : Category) (locale : String)
  | settle (category : Category) (locale : String)
  | negotiate (windows : Bool)
  | plan (windows : Bool)
  | read (name : String)
  | query (category : Category)
  | check
  | remove (name : String)
  deriving DecidableEq, Repr

/-- The state after a step.  A category's current locale can be asked for without a call. -/
def Step.next (backend : Backend σ) : Step → σ → σ
  | .adopt category locale, state => (backend.adopt category locale state).2
  | .settle category locale, state => (Locale.settle backend category locale state).2
  | .negotiate windows, state => (Locale.negotiate backend windows state).state
  | .plan windows, state => (Locale.plan backend windows state).2
  | .read name, state => (backend.read name state).2
  | .query _, state => state
  | .check, state => (backend.overrun? state).2
  | .remove name, state => backend.remove name state

/-- The step tries to give the category another locale. -/
def Step.Targets (category : Category) : Step → Prop
  | .adopt other _ | .settle other _ => other = category
  | _ => False

def Step.run (backend : Backend σ) (steps : List Step) (state : σ) : σ :=
  steps.foldl (fun state step => step.next backend state) state

inductive Step.Asks : Step → List Exchange → Prop
  | adopt (category locale answer) : Asks (.adopt category locale) [⟨.adopt category locale, answer⟩]
  | settle {category locale exchanges outcome} :
      Attempts category locale exchanges outcome → Asks (.settle category locale) exchanges
  | negotiate {windows exchanges settings failure} :
      Course windows exchanges settings failure → Asks (.negotiate windows) exchanges
  | plan {windows exchanges plan} :
      Readings windows exchanges plan → Asks (.plan windows) exchanges
  | read (name answer) : Asks (.read name) [⟨.read name, answer⟩]
  | query (category) : Asks (.query category) []
  | check (answer) : Asks .check [⟨.check, answer⟩]
  | remove (name) : Asks (.remove name) [⟨.remove name, none⟩]

/-- A step is a conversation, and with a transcribed backend it notes just that. -/
theorem Step.next_asks (backend : Backend σ) (step : Step) (state : σ) :
    ∃ exchanges, step.Asks exchanges ∧ Conversation backend state exchanges (step.next backend state) ∧
      ∀ noted, step.next backend.transcribed (state, noted) =
        (step.next backend state, noted ++ exchanges) := by
  cases step with
  | adopt category locale => exact ⟨_, .adopt _ _ _, .single rfl, fun _ => rfl⟩
  | read name => exact ⟨_, .read _ _, .single rfl, fun _ => rfl⟩
  | query category => exact ⟨_, .query _, .nil _, fun _ => by simp [next]⟩
  | check => exact ⟨_, .check _, .single rfl, fun _ => rfl⟩
  | remove name => exact ⟨_, .remove _, .single rfl, fun _ => rfl⟩
  -- What follows from the answers alone follows from them with the transcribed backend as well.
  | settle category locale =>
      obtain ⟨exchanges, talk, attempts⟩ :=
        settle_eq_iff.mp (Eq.refl (Locale.settle backend category locale state))
      refine ⟨exchanges, .settle attempts, talk, fun noted => ?_⟩
      exact congrArg Prod.snd (settle_eq_iff.mpr ⟨exchanges, talk.transcribed noted, attempts⟩)
  | negotiate windows =>
      obtain ⟨exchanges, talk, course⟩ :=
        negotiate_eq_iff.mp (Eq.refl (Locale.negotiate backend windows state))
      refine ⟨exchanges, .negotiate course, talk, fun noted => ?_⟩
      exact congrArg Negotiation.state
        (negotiate_eq_iff.mpr ⟨exchanges, talk.transcribed noted, course⟩)
  | plan windows =>
      obtain ⟨exchanges, talk, readings⟩ :=
        plan_eq_iff.mp (Eq.refl (Locale.plan backend windows state))
      refine ⟨exchanges, .plan readings, talk, fun noted => ?_⟩
      exact congrArg Prod.snd (plan_eq_iff.mpr ⟨exchanges, talk.transcribed noted, readings⟩)

/-! ## What a step removes -/

theorem Attempts.adopts {category : Category} {requested : String} {exchanges : List Exchange}
    {outcome : Option Setting} (h : Attempts category requested exchanges outcome) :
    ∀ exchange ∈ exchanges, ∃ category locale, exchange.call = .adopt category locale := by
  cases h <;> simp

theorem Settling.adopts {plan : List (Category × String)} {exchanges : List Exchange}
    {settings : List Setting} {failure : Option Failure}
    (h : Settling plan exchanges settings failure) :
    ∀ exchange ∈ exchanges, ∃ category locale, exchange.call = .adopt category locale := by
  induction h with
  | done => simp
  | settled attempts _ ih => exact List.forall_mem_append.mpr ⟨attempts.adopts, ih⟩
  | refused attempts => exact attempts.adopts

theorem Readings.reads {windows : Bool} {exchanges : List Exchange}
    {plan : List (Category × String)} (h : Readings windows exchanges plan) :
    ∀ exchange ∈ exchanges, ∃ name, exchange.call = .read name := by
  cases h <;> simp

theorem Course.removes {windows : Bool} {exchanges : List Exchange} {settings : List Setting}
    {failure : Option Failure} (h : Course windows exchanges settings failure) {name : String}
    (different : overrideVariable ≠ name) : ∀ exchange ∈ exchanges, ¬ exchange.removes name := by
  have begins : ∀ {readings attempts plan settings failure}, Readings windows readings plan →
      Settling plan attempts settings failure →
      ∀ exchange ∈ readings ++ attempts, ¬ exchange.removes name := by
    intro readings attempts plan settings failure read settling exchange mem removed
    rw [Exchange.removes] at removed
    rcases List.mem_append.mp mem with reading | attempt
    · obtain ⟨other, call⟩ := read.reads exchange reading
      rw [call] at removed
      contradiction
    · obtain ⟨category, locale, call⟩ := settling.adopts exchange attempt
      rw [call] at removed
      contradiction
  cases h with
  | refused readings settling => exact begins readings settling
  | checked overrun readings settling =>
      refine List.forall_mem_append.mpr ⟨begins readings settling, ?_⟩
      simpa [Exchange.removes, overrideVariable] using different

theorem Course.clears {windows : Bool} {exchanges : List Exchange} {settings : List Setting}
    (h : Course windows exchanges settings none) :
    ∃ exchange ∈ exchanges, exchange.removes overrideVariable := by
  generalize outcome : (none : Option Failure) = failure at h
  cases h with
  | refused => contradiction
  | checked overrun => exact ⟨⟨.remove "LC_ALL", none⟩, by simp, rfl⟩

theorem Settling.adopted {plan : List (Category × String)} {exchanges : List Exchange}
    {settings : List Setting} {failure : Option Failure}
    (h : Settling plan exchanges settings failure) :
    ∀ setting ∈ settings, ∃ exchange ∈ exchanges,
      exchange.adopted? setting.category = some setting.resolved := by
  induction h with
  | done | refused => simp
  | @settled category requested setting rest attempts others settings failure first _ ih =>
      refine List.forall_mem_cons.mpr ⟨?_, fun other mem => ?_⟩
      · cases first <;> simp [Exchange.adopted?]
      · obtain ⟨exchange, found, adopted⟩ := ih other mem
        exact ⟨exchange, List.mem_append_right _ found, adopted⟩

/-- A category with a setting keeps it to the end of the negotiation. -/
theorem Course.stands {windows : Bool} {exchanges : List Exchange} {settings : List Setting}
    {failure : Option Failure} (h : Course windows exchanges settings failure) {setting : Setting}
    (mem : setting ∈ settings) : Stands setting.category exchanges := by
  obtain ⟨exchange, found, adopted⟩ : ∃ exchange ∈ exchanges,
      exchange.adopted? setting.category = some setting.resolved := by
    cases h with
    | refused readings settling =>
        obtain ⟨exchange, found, adopted⟩ := settling.adopted setting mem
        exact ⟨exchange, by simp [found], adopted⟩
    | checked overrun readings settling =>
        obtain ⟨exchange, found, adopted⟩ := settling.adopted setting mem
        exact ⟨exchange, by simp [found], adopted⟩
  exact stands_of_mem found (by simp [adopted])
    (h.removes setting.category.variableName_ne_override.symm)

theorem Step.Asks.removes {step : Step} {exchanges : List Exchange} (h : step.Asks exchanges)
    {category : Category} (other : step ≠ .remove category.variableName) :
    ∀ exchange ∈ exchanges, ¬ exchange.removes category.variableName := by
  cases h with
  | adopt | read | query | check => simp [Exchange.removes]
  | settle attempts =>
      intro exchange mem removed
      obtain ⟨category, locale, call⟩ := attempts.adopts exchange mem
      rw [Exchange.removes, call] at removed
      contradiction
  | negotiate course => exact course.removes category.variableName_ne_override.symm
  | plan readings =>
      intro exchange mem removed
      obtain ⟨name, call⟩ := readings.reads exchange mem
      rw [Exchange.removes, call] at removed
      contradiction
  | remove name =>
      have : name ≠ category.variableName := fun same => other (congrArg Step.remove same)
      simpa [Exchange.removes] using this

/-! ## Runs -/

theorem Step.run_append (backend : Backend σ) (steps others : List Step) (state : σ) :
    run backend (steps ++ others) state = run backend others (run backend steps state) :=
  List.foldl_append

inductive Step.AskInTurn : List Step → List Exchange → Prop
  | nil : AskInTurn [] []
  | cons {step steps exchanges others} :
      Asks step exchanges → AskInTurn steps others → AskInTurn (step :: steps) (exchanges ++ others)

theorem Step.AskInTurn.removes {steps : List Step} {exchanges : List Exchange}
    (h : AskInTurn steps exchanges) {category : Category}
    (other : .remove category.variableName ∉ steps) :
    ∀ exchange ∈ exchanges, ¬ exchange.removes category.variableName := by
  induction h with
  | nil => simp
  | @cons step steps _ _ asks _ ih =>
      obtain ⟨different, absent⟩ : .remove category.variableName ≠ step ∧
          .remove category.variableName ∉ steps := by simpa using other
      exact List.forall_mem_append.mpr ⟨asks.removes (Ne.symm different), ih absent⟩

theorem Step.run_asks (backend : Backend σ) (steps : List Step) (state : σ) :
    ∃ exchanges, AskInTurn steps exchanges ∧
      Conversation backend state exchanges (run backend steps state) ∧
      ∀ noted, run backend.transcribed steps (state, noted) =
        (run backend steps state, noted ++ exchanges) := by
  induction steps generalizing state with
  | nil => exact ⟨[], .nil, .nil state, fun noted => by simp [run]⟩
  | cons step steps ih =>
      obtain ⟨exchanges, asks, talk, noting⟩ := step.next_asks backend state
      obtain ⟨others, inTurn, further, notingFurther⟩ := ih (step.next backend state)
      refine ⟨exchanges ++ others, .cons asks inTurn, talk.append further, fun noted => ?_⟩
      rw [run, List.foldl_cons, noting, ← run, notingFurther, List.append_assoc]
      rfl

end ServerEntry.Locale
