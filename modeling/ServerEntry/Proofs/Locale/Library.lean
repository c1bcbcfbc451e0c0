import ServerEntry.Locale.Library
import ServerEntry.Locale.Negotiation
import ServerEntry.Proofs.Variables

/-!
# Negotiating with the locales of a process

The portable locale is never rejected, so every category is settled.  What it settles on is decided
by the variables at the start: an export of another category does not reach its own look-up, which
goes by the overriding variable, its own one and the one for the language.

Variables that a negotiation has left are at rest: settled again, every category gets the locale
that it asks for, and no variable changes.
-/

namespace ServerEntry.Locale

open Text

theorem Category.variableName_ne_language (category : Category) :
    category.variableName ≠ Library.languageVariable := by
  cases category <;> decide

def Setting.export (setting : Setting) : String × Bytes :=
  (setting.category.variableName, Utf8.encode setting.resolved)

namespace Library

@[simp] theorem resolve?_portable : resolve? (Utf8.encode portable) = some portable := by
  simp [resolve?, portable]

theorem resolve?_names {name : Bytes} {resolved : String} (h : resolve? name = some resolved) :
    resolved = portable ∨ resolved = "C.UTF-8" := by
  simp only [resolve?] at h
  split at h
  · exact .inl (Option.some.inj h).symm
  split at h
  · exact .inr (Option.some.inj h).symm
  · contradiction

/-- A name that another one resolves to is the name of a locale and resolves to itself. -/
theorem resolve?_resolved {name : Bytes} {resolved : String} (h : resolve? name = some resolved) :
    resolve? (Utf8.encode resolved) = some resolved := by
  rcases resolve?_names h with rfl | rfl
  · exact resolve?_portable
  · simp [resolve?]

/-! ## One category -/

def answer (env : Variables) (category : Category) (requested : String) : Setting :=
  let found := resolve? (if requested = "" then ambient env category else Utf8.encode requested)
  { category, requested, resolved := found.getD portable, fellBack := found.isNone }

def hold (library : Library) (setting : Setting) : Library where
  current other := if other = setting.category then setting.resolved else library.current other
  env := library.env.assign setting.category.variableName (Utf8.encode setting.resolved)

theorem answer_wanted (library : Library) (category : Category) (requested : String) :
    answer library.env category requested =
      { category
        requested
        resolved := (resolve? (library.wanted category requested)).getD portable
        fellBack := (resolve? (library.wanted category requested)).isNone } := rfl

theorem settle_eq (library : Library) (category : Category) (requested : String) :
    settle backend category requested library =
      (some (answer library.env category requested),
        library.hold (answer library.env category requested)) := by
  have fallback : library.wanted category portable = Utf8.encode portable := by
    simp [wanted, portable]
  rw [answer_wanted]
  cases found : resolve? (library.wanted category requested) with
  | none => simp [settle, backend, adopt, found, fallback, hold]
  | some resolved => simp [settle, backend, adopt, found, hold]

/-- A category's look-up depends on three variables only. -/
theorem ambient_congr {env other : Variables} {category : Category}
    (override : env.value? overrideVariable = other.value? overrideVariable)
    (own : env.value? category.variableName = other.value? category.variableName)
    (language : env.value? languageVariable = other.value? languageVariable) :
    ambient env category = ambient other category := by
  simp only [ambient, nonempty?, override, own, language]

/-- A category's variable decides when it names a locale and nothing overrides it. -/
theorem ambient_of_value? {env : Variables} {category : Category} {locale : String}
    (override : env.value? overrideVariable = none)
    (held : env.value? category.variableName = some (Utf8.encode locale))
    (resolves : resolve? (Utf8.encode locale) = some locale) :
    ambient env category = Utf8.encode locale := by
  have filled : Utf8.encode locale ≠ [] := by
    intro empty
    have unknown : resolve? [] = none := by decide
    simp [empty, unknown] at resolves
  simp [ambient, nonempty?, override, held, Option.filter, filled]

theorem answer_congr {env other : Variables} {category : Category} {requested : String}
    (h : ambient env category = ambient other category) :
    answer env category requested = answer other category requested := by
  simp only [answer, h]

theorem answer_hold {library : Library} {setting : Setting} {category : Category}
    {requested : String} (different : setting.category ≠ category) :
    answer (library.hold setting).env category requested =
      answer library.env category requested := by
  apply answer_congr
  apply ambient_congr
  · simp [hold, Category.variableName_ne_override]
  · simp [hold, Category.variableName_inj, different]
  · simp [hold, Category.variableName_ne_language]

/-! ## All categories -/

/-- Every category is answered in the variables there were at the start. -/
theorem settleAll_eq (plan : List (Category × String)) (distinct : (plan.map Prod.fst).Nodup)
    (library : Library) :
    settleAll backend plan library =
      { settings := plan.map fun entry => answer library.env entry.1 entry.2
        failure := none
        state :=
          (plan.map fun entry => answer library.env entry.1 entry.2).foldl hold library } := by
  induction plan generalizing library with
  | nil => rfl
  | cons entry rest ih =>
      obtain ⟨category, requested⟩ := entry
      obtain ⟨absent, distinct⟩ := List.nodup_cons.mp distinct
      -- The others are answered after this category's export, which their look-ups do not see.
      have unmoved : ∀ entry ∈ rest,
          answer (library.hold (answer library.env category requested)).env entry.1 entry.2 =
            answer library.env entry.1 entry.2 := by
        intro entry mem
        apply answer_hold
        exact fun same => absent (List.mem_map.mpr ⟨entry, mem, same.symm⟩)
      simp [settleAll, settle_eq, ih distinct, List.map_congr_left unmoved]

def asks (category : Category) : String := if category.pinned then portable else ""

def settings (env : Variables) : List Setting :=
  Category.all.map fun category => answer env category (asks category)

def settled (env : Variables) : Variables :=
  (env.assignEach ((settings env).map Setting.export)).remove overrideVariable

theorem env_foldl_hold (library : Library) (settings : List Setting) :
    (settings.foldl hold library).env = library.env.assignEach (settings.map Setting.export) := by
  induction settings generalizing library with
  | nil => rfl
  | cons setting rest ih => exact ih (library.hold setting)

/-- What a category asks for: on Windows, two of them read their variables. -/
def requested (windows : Bool) (env : Variables) (category : Category) : String :=
  if readsVariable windows category then (env.text? category.variableName).getD ""
  else asks category

theorem requested_of_pinned {windows : Bool} {env : Variables} {category : Category}
    (h : category.pinned) : requested windows env category = portable := by
  cases category with
  | collate | ctype | messages => contradiction
  | monetary | numeric | time => rfl

/-- No negotiation fails, and each is decided by the variables at its start. -/
theorem negotiate_answers (windows : Bool) (library : Library) :
    let made := Category.all.map fun category =>
      answer library.env category (requested windows library.env category)
    negotiate backend windows library =
      { settings := made
        failure := none
        state := { current := (made.foldl hold library).current
                   env := (library.env.assignEach (made.map Setting.export)).remove
                     overrideVariable } } := by
  intro made
  have planned : plan backend windows library =
      (Category.all.map fun category => (category, requested windows library.env category),
        library) := by
    cases windows <;> rfl
  have settled := settleAll_eq
    (Category.all.map fun category => (category, requested windows library.env category))
    (by change Category.all.Nodup; decide) library
  rw [List.map_map] at settled
  simp only [negotiate, planned, settled]
  simp only [backend, made, ← env_foldl_hold, Option.map_none]
  rfl

theorem negotiate_eq (library : Library) :
    negotiate backend false library =
      { settings := settings library.env
        failure := none
        state := { current := ((settings library.env).foldl hold library).current
                   env := settled library.env } } :=
  negotiate_answers false library

def chosen (env : Variables) (category : Category) : String :=
  if category.pinned then portable else (resolve? (ambient env category)).getD portable

theorem answer_asks (env : Variables) (category : Category) :
    answer env category (asks category) =
      { category
        requested := asks category
        resolved := chosen env category
        fellBack := !category.pinned && (resolve? (ambient env category)).isNone } := by
  have named : portable ≠ "" := by decide
  cases pinned : category.pinned <;> simp [answer, asks, chosen, pinned, named]

/-! ## The variables afterwards -/

section Settled

variable (env : Variables) (category : Category)

theorem names_of_exports :
    ((settings env).map Setting.export).map Prod.fst = Category.all.map Category.variableName := by
  simp [settings, Setting.export, answer, Function.comp_def]

theorem value?_settled_override : (settled env).value? overrideVariable = none := by
  simp [settled]

theorem value?_settled_category :
    (settled env).value? category.variableName = some (Utf8.encode (chosen env category)) := by
  have exported : (category.variableName, Utf8.encode (chosen env category)) ∈
      (settings env).map Setting.export := by
    rw [settings, List.map_map]
    exact List.mem_map.mpr ⟨category, category.mem_all, by simp [Setting.export, answer_asks]⟩
  have distinct : (((settings env).map Setting.export).map Prod.fst).Nodup := by
    rw [names_of_exports]
    decide
  rw [settled, Variables.value?_remove, if_neg category.variableName_ne_override.symm,
    Variables.value?_assignEach_of_mem distinct exported]

theorem get?_settled_of_ne {name : Bytes} (override : Utf8.encode overrideVariable ≠ name)
    (categories : ∀ category : Category, Utf8.encode category.variableName ≠ name) :
    (settled env).get? name = env.get? name := by
  rw [settled, Variables.remove, Environment.get?_unset, if_neg override,
    Variables.get?_assignEach_of_forall_ne]
  intro assignment mem
  obtain ⟨setting, -, rfl⟩ := List.mem_map.mp mem
  exact categories setting.category

end Settled

/-! ## Variables at rest -/

/-- Every category's variable names a locale, and none overrides it. -/
structure AtRest (env : Variables) : Prop where
  override : env.value? overrideVariable = none
  category : ∀ category : Category, ∃ locale,
    env.value? category.variableName = some (Utf8.encode locale) ∧
      resolve? (Utf8.encode locale) = some locale ∧
      (category.pinned → locale = portable)

theorem chosen_resolves (env : Variables) (category : Category) :
    resolve? (Utf8.encode (chosen env category)) = some (chosen env category) := by
  rw [chosen]
  split
  · exact resolve?_portable
  · cases found : resolve? (ambient env category) with
    | none => exact resolve?_portable
    | some resolved => exact resolve?_resolved found

theorem settled_atRest (env : Variables) : AtRest (settled env) where
  override := value?_settled_override env
  category category :=
    ⟨chosen env category, value?_settled_category env category, chosen_resolves env category,
      fun pinned => if_pos pinned⟩

namespace AtRest

variable {env other : Variables}

theorem congr (h : AtRest env)
    (override : other.value? overrideVariable = env.value? overrideVariable)
    (category : ∀ category : Category,
      other.value? category.variableName = env.value? category.variableName) : AtRest other where
  override := override.trans h.override
  category c := by
    rw [category c]
    exact h.category c

theorem ambient_eq (h : AtRest env) {category : Category} {locale : String}
    (held : env.value? category.variableName = some (Utf8.encode locale))
    (resolves : resolve? (Utf8.encode locale) = some locale) :
    ambient env category = Utf8.encode locale :=
  ambient_of_value? h.override held resolves

/-- Each category is given what its variable names, so it does not fall back. -/
theorem answer_eq (h : AtRest env) (category : Category) :
    env.value? category.variableName = some (Utf8.encode (chosen env category)) ∧
      (answer env category (asks category)).fellBack = false := by
  obtain ⟨locale, held, resolves, pinned⟩ := h.category category
  have found : resolve? (ambient env category) = some locale := by
    rw [h.ambient_eq held resolves, resolves]
  rw [answer_asks, held, chosen, found]
  cases fixed : category.pinned with
  | true => simp [pinned fixed]
  | false => simp

theorem fellBack (h : AtRest env) {setting : Setting} (mem : setting ∈ settings env) :
    setting.fellBack = false := by
  obtain ⟨category, -, rfl⟩ := List.mem_map.mp mem
  exact (h.answer_eq category).2

theorem settled_eq (h : AtRest env) : settled env = env := by
  -- Every export repeats a value that is there, so not even the order changes.
  have exported : env.assignEach ((settings env).map Setting.export) = env := by
    apply Variables.assignEach_of_value?
    intro assignment mem
    obtain ⟨setting, made, rfl⟩ := List.mem_map.mp mem
    obtain ⟨category, -, rfl⟩ := List.mem_map.mp made
    simpa [Setting.export, answer_asks] using (h.answer_eq category).1
  rw [settled, exported, Variables.remove_of_value? h.override]

end AtRest

end Library

end ServerEntry.Locale
