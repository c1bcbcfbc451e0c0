import ServerEntry.Locale.Negotiation
import ServerEntry.Locale.Table

/-!
# What a negotiation leaves in a table's variables

A table answers by what it is asked alone, so whether a category is settled, and on which locale,
can be said before the negotiation starts.  The variables afterwards agree with the settings made,
also when the negotiation ends half-way: those of the settled categories hold what they settled on,
and all others are untouched.
-/

namespace ServerEntry.Locale

/-- The settings stand in the variables of their categories, and other variables are as before. -/
structure Exported (settings : List Setting) (env last : Environment String String) : Prop where
  held : ∀ setting ∈ settings,
    last.get? setting.category.variableName = some setting.resolved
  kept : ∀ name, (∀ setting ∈ settings, setting.category.variableName ≠ name) →
    last.get? name = env.get? name

namespace Exported

variable {settings : List Setting} {setting : Setting} {env last : Environment String String}

theorem nil (env : Environment String String) : Exported [] env env := ⟨by simp, by simp⟩

theorem cons (first : setting.category ∉ settings.map Setting.category)
    (h : Exported settings (env.set setting.category.variableName setting.resolved) last) :
    Exported (setting :: settings) env last where
  held := by
    -- Later exports go to other variables, so the first one is still there.
    have untouched : ∀ other ∈ settings,
        other.category.variableName ≠ setting.category.variableName := by
      intro other mem same
      exact first (Category.variableName_inj.mp same ▸ List.mem_map_of_mem mem)
    intro other mem
    rcases List.mem_cons.mp mem with rfl | later
    · rw [h.kept _ untouched, Environment.get?_set, if_pos rfl]
    · exact h.held other later
  kept name others := by
    obtain ⟨different, others⟩ := List.forall_mem_cons.mp others
    rw [h.kept name others, Environment.get?_set, if_neg different]

/-- The overriding variable belongs to no category, so it can as well be removed first. -/
theorem unset_override (h : Exported settings env last) :
    Exported settings (env.unset overrideVariable) (last.unset overrideVariable) where
  held setting mem := by
    rw [Environment.get?_unset, if_neg setting.category.variableName_ne_override.symm,
      h.held setting mem]
  kept name others := by
    rw [Environment.get?_unset, Environment.get?_unset, h.kept name others]

theorem get?_resolved (h : Exported settings env last)
    (all : settings.map Setting.category = Category.all) (category : Category) :
    ∃ locale, resolved? settings category = some locale ∧
      last.get? category.variableName = some locale := by
  have settled : category ∈ settings.map Setting.category := all ▸ category.mem_all
  obtain ⟨setting, mem, named⟩ := List.mem_map.mp settled
  cases found : settings.find? fun setting => setting.category = category with
  | none => simpa [named] using List.find?_eq_none.mp found setting mem
  | some first =>
      obtain rfl : first.category = category := by simpa using List.find?_some found
      refine ⟨first.resolved, by simp [resolved?, found], ?_⟩
      exact h.held first (List.mem_of_find?_eq_some found)

end Exported

namespace Table

variable (table : Table) (windows : Bool) (env : Environment String String)

/-- What a category asks for, in the variables before the negotiation. -/
def asks : Category → String
  | .collate => if windows then (env.get? "LC_COLLATE").getD "" else ""
  | .ctype => if windows then (env.get? "LC_CTYPE").getD "" else ""
  | .messages => ""
  | .monetary | .numeric | .time => "C"

def answer? (category : Category) (requested : String) : Option Setting :=
  match table.resolve? category requested with
  | some resolved => some ⟨category, requested, resolved, false⟩
  | none =>
      (table.resolve? category portable).map fun resolved => ⟨category, requested, resolved, true⟩

def Accepts (category : Category) (locale : String) : Prop :=
  ∃ resolved, table.resolve? category locale = some resolved

/-- How a negotiation ends, and what it leaves in the variables. -/
inductive Outcome : Negotiation (Environment String String) → Prop
  | settled {settings last} :
      settings.map Setting.category = Category.all → table.sound = true →
      Exported settings (env.unset "LC_ALL") last →
      Outcome ⟨settings, none, last⟩
  | overrun {settings last locale} :
      settings.map Setting.category = Category.all → table.sound = false →
      resolved? settings .collate = some locale →
      Exported settings (env.unset "LC_ALL") last →
      Outcome ⟨settings, some (.collationOverrun locale), last⟩
  | refused {settings last category rest} :
      Category.all = settings.map Setting.category ++ category :: rest →
      ¬ table.Accepts category (asks windows env category) → ¬ table.Accepts category portable →
      Exported settings env last →
      Outcome ⟨settings, some (.localeAdoption category.variableName (asks windows env category)),
        last⟩

/-! ## One category -/

section Answer

variable {table} {category : Category} {requested : String} {setting : Setting}

theorem names_of_answer? (h : table.answer? category requested = some setting) :
    setting.category = category ∧ setting.requested = requested := by
  simp only [answer?] at h
  split at h
  · obtain rfl := Option.some.inj h
    exact ⟨rfl, rfl⟩
  · obtain ⟨resolved, -, rfl⟩ := Option.map_eq_some_iff.mp h
    exact ⟨rfl, rfl⟩

theorem answer?_eq_none_iff :
    table.answer? category requested = none ↔
      ¬ table.Accepts category requested ∧ ¬ table.Accepts category portable := by
  simp only [answer?, Accepts]
  cases table.resolve? category requested <;> cases table.resolve? category portable <;> simp

theorem accepts_of_answer? (h : table.answer? category requested = some setting) :
    table.Accepts category requested ∨ table.Accepts category portable := by
  cases first : table.resolve? category requested with
  | some resolved => exact .inl ⟨resolved, first⟩
  | none =>
      obtain ⟨resolved, second, -⟩ : ∃ resolved, table.resolve? category portable = some resolved ∧
          ⟨category, requested, resolved, true⟩ = setting := by simpa [answer?, first] using h
      exact .inr ⟨resolved, second⟩

/-- A pinned category asks for the portable locale, and nothing is left to fall back on. -/
theorem answer?_portable (h : table.answer? category portable = some setting) :
    setting.fellBack = false ∧ table.resolve? category portable = some setting.resolved := by
  simp only [answer?] at h
  cases found : table.resolve? category portable with
  | none => simp [found] at h
  | some resolved =>
      obtain rfl : ⟨category, portable, resolved, false⟩ = setting := by simpa [found] using h
      exact ⟨rfl, rfl⟩

theorem settle_eq (category : Category) (requested : String) :
    settle table.backend category requested env =
      (table.answer? category requested,
        match table.answer? category requested with
        | none => env
        | some setting => env.set setting.category.variableName setting.resolved) := by
  cases first : table.resolve? category requested with
  | some resolved => simp [settle, backend, answer?, first]
  | none =>
      cases second : table.resolve? category portable <;>
        simp [settle, backend, answer?, first, second]

end Answer

/-! ## All categories -/

theorem asks_of_pinned {category : Category} (h : category.pinned) :
    asks windows env category = portable := by
  cases category with
  | collate | ctype | messages => contradiction
  | monetary | numeric | time => rfl

theorem requests_eq (categories : List Category) :
    requests table.backend windows categories env =
      (categories.map fun category => (category, asks windows env category), env) := by
  have single : ∀ category,
      request table.backend windows category env = (asks windows env category, env) := by
    intro category
    cases category <;> cases windows <;> rfl
  induction categories with
  | nil => rfl
  | cons category categories ih => simp [requests, single, ih]

/-- What is settled is exported, and the first category that is refused twice ends it. -/
theorem settleAll_exported (requested : Category → String) (categories : List Category)
    (distinct : categories.Nodup) :
    let settled := settleAll table.backend
      (categories.map fun category => (category, requested category)) env
    Exported settled.settings env settled.state ∧
      (∀ setting ∈ settled.settings, setting.category ∈ categories ∧
        table.answer? setting.category (requested setting.category) = some setting) ∧
      (settled.failure = none ∧ settled.settings.map Setting.category = categories ∨
        ∃ category rest, categories = settled.settings.map Setting.category ++ category :: rest ∧
          table.answer? category (requested category) = none ∧
          settled.failure = some (unsettled category (requested category))) := by
  induction categories generalizing env with
  | nil => exact ⟨.nil env, by simp [settleAll], .inl ⟨rfl, rfl⟩⟩
  | cons category categories ih =>
      obtain ⟨absent, remaining⟩ := List.nodup_cons.mp distinct
      cases answer : table.answer? category (requested category) with
      | none =>
          simp only [List.map_cons, settleAll, settle_eq, answer]
          exact ⟨.nil env, by simp, .inr ⟨category, categories, rfl, answer, rfl⟩⟩
      | some setting =>
          obtain ⟨rfl, -⟩ := names_of_answer? answer
          obtain ⟨exported, answered, ending⟩ :=
            ih (env.set setting.category.variableName setting.resolved) remaining
          simp only [List.map_cons, settleAll, settle_eq, answer]
          refine ⟨exported.cons fun again => ?_, List.forall_mem_cons.mpr ⟨?_, ?_⟩, ?_⟩
          · obtain ⟨other, mem, same⟩ := List.mem_map.mp again
            exact absent (same ▸ (answered other mem).1)
          · exact ⟨List.mem_cons_self, answer⟩
          · exact fun other mem => (answered other mem).imp_left (List.mem_cons_of_mem _)
          · rcases ending with ⟨through, complete⟩ | ⟨refused, rest, parts, twice, failed⟩
            · exact .inl ⟨through, congrArg (setting.category :: ·) complete⟩
            · exact .inr ⟨refused, rest, congrArg (setting.category :: ·) parts, twice, failed⟩

theorem negotiate_settled {settings : List Setting} {last : Environment String String}
    {locale : String}
    (settled : settleAll table.backend
      (Category.all.map fun category => (category, asks windows env category)) env =
        ⟨settings, none, last⟩)
    (held : (last.unset overrideVariable).get? Category.collate.variableName = some locale) :
    negotiate table.backend windows env =
      ⟨settings, if table.sound then none else some (.collationOverrun locale),
        last.unset overrideVariable⟩ := by
  simp only [negotiate, plan, requests_eq, settled]
  simp only [backend, held]
  cases table.sound <;> rfl

theorem negotiate_refused {settings : List Setting} {failure : Failure}
    {last : Environment String String}
    (refused : settleAll table.backend
      (Category.all.map fun category => (category, asks windows env category)) env =
        ⟨settings, some failure, last⟩) :
    negotiate table.backend windows env = ⟨settings, some failure, last⟩ := by
  simp only [negotiate, plan, requests_eq, refused]

theorem negotiate_outcome :
    table.Outcome windows env (negotiate table.backend windows env) ∧
      ∀ setting ∈ (negotiate table.backend windows env).settings,
        table.answer? setting.category (asks windows env setting.category) = some setting := by
  obtain ⟨exported, answered, ending⟩ :=
    settleAll_exported table env (asks windows env) Category.all (by decide)
  rcases settled : settleAll table.backend
    (Category.all.map fun category => (category, asks windows env category)) env with
    ⟨settings, refusal, last⟩
  simp only [settled] at exported answered ending
  rcases ending with ⟨rfl, complete⟩ | ⟨category, rest, parts, twice, rfl⟩
  · have removed := exported.unset_override
    obtain ⟨locale, resolved, held⟩ := removed.get?_resolved complete .collate
    rw [negotiate_settled table windows env settled held]
    refine ⟨?_, fun setting mem => (answered setting mem).2⟩
    cases sound : table.sound with
    | true => exact .settled complete sound removed
    | false => exact .overrun complete sound resolved removed
  · obtain ⟨refused, refusedPortable⟩ := answer?_eq_none_iff.mp twice
    rw [negotiate_refused table windows env settled]
    exact ⟨.refused parts refused refusedPortable exported,
      fun setting mem => (answered setting mem).2⟩

theorem Outcome.failure_eq_none_iff {negotiation : Negotiation (Environment String String)}
    (h : table.Outcome windows env negotiation)
    (answered : ∀ setting ∈ negotiation.settings,
      table.answer? setting.category (asks windows env setting.category) = some setting) :
    negotiation.failure = none ↔
      (∀ category, table.Accepts category (asks windows env category) ∨
        table.Accepts category portable) ∧ table.sound = true := by
  cases h with
  | @settled settings last complete sound exported =>
      refine iff_of_true rfl ⟨fun category => ?_, sound⟩
      have made : category ∈ settings.map Setting.category := complete ▸ category.mem_all
      obtain ⟨setting, mem, rfl⟩ := List.mem_map.mp made
      exact accepts_of_answer? (answered setting mem)
  | overrun complete unsound resolved exported =>
      exact iff_of_false nofun (fun accepted => by simp [unsound] at accepted)
  | @refused settings last category rest parts refused refusedPortable exported =>
      exact iff_of_false nofun
        (fun accepted => (accepted.1 category).elim refused refusedPortable)

/--
However a negotiation ends, its settings are what the table makes of the requests, and the variables
agree with them.  It succeeds exactly if every category can be settled and the collation keys keep
to their space.
-/
theorem negotiate_leaves (table : Table) (windows : Bool) (env : Environment String String) :
    let negotiation := negotiate table.backend windows env
    table.Outcome windows env negotiation ∧
      (∀ setting ∈ negotiation.settings,
        table.answer? setting.category (asks windows env setting.category) = some setting) ∧
      (∀ setting ∈ negotiation.settings, setting.category.pinned →
        setting.fellBack = false ∧
          table.resolve? setting.category "C" = some setting.resolved) ∧
      (negotiation.failure = none ↔
        (∀ category, table.Accepts category (asks windows env category) ∨
          table.Accepts category "C") ∧ table.sound = true) := by
  intro negotiation
  obtain ⟨outcome, answered⟩ := negotiate_outcome table windows env
  refine ⟨outcome, answered, fun setting mem fixed => ?_,
    outcome.failure_eq_none_iff table windows env answered⟩
  have answer := answered setting mem
  rw [asks_of_pinned windows env fixed] at answer
  exact answer?_portable answer

/-- The second category is refused, so only the first is exported, and nothing is removed. -/
example :
    let table : Table := ⟨none, [("LC_CTYPE", ""), ("LC_CTYPE", "C")], "C.UTF-8", .empty, true⟩
    (negotiate table.backend false ⟨[("LC_ALL", "C"), ("LC_TIME", "POSIX")]⟩).state =
      ⟨[("LC_ALL", "C"), ("LC_TIME", "POSIX"), ("LC_COLLATE", "C.UTF-8")]⟩ := by
  decide

end Table

end ServerEntry.Locale
