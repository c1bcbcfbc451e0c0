import ServerEntry.Failure
import ServerEntry.Locale.Backend

/-!
Settling the locale of every category.

What each category asks for is fixed before the first of them is settled.  A rejected request
falls back to the portable locale, and if that is rejected too the negotiation ends there.  When
every category is settled the overriding variable is removed, so that the exported ones keep their
force in child processes, and the collation keys are tried.
-/

namespace ServerEntry.Locale

variable {σ : Type}

/-- Windows does not take collation and character types from the environment, so they are read. -/
def readsVariable (windows : Bool) : Category → Bool
  | .collate | .ctype => windows
  | _ => false

def request (backend : Backend σ) (windows : Bool) (category : Category) (state : σ) : String × σ :=
  if category.pinned then (portable, state)
  else if readsVariable windows category then
    let (value, state) := backend.read category.variableName state
    (value.getD "", state)
  else ("", state)

def requests (backend : Backend σ) (windows : Bool) :
    List Category → σ → List (Category × String) × σ
  | [], state => ([], state)
  | category :: categories, state =>
      let (requested, state) := request backend windows category state
      let (rest, state) := requests backend windows categories state
      ((category, requested) :: rest, state)

def plan (backend : Backend σ) (windows : Bool) (state : σ) : List (Category × String) × σ :=
  requests backend windows Category.all state

/-- Settles one category; `none` if the portable locale was rejected as well. -/
def settle (backend : Backend σ) (category : Category) (requested : String) (state : σ) :
    Option Setting × σ :=
  match backend.adopt category requested state with
  | (some resolved, state) => (some ⟨category, requested, resolved, false⟩, state)
  | (none, state) =>
      match backend.adopt category portable state with
      | (some resolved, state) => (some ⟨category, requested, resolved, true⟩, state)
      | (none, state) => (none, state)

def unsettled (category : Category) (requested : String) : Failure :=
  .localeAdoption category.variableName requested

/-- The settings made, in order, and the failure that ended the negotiation, if one did. -/
structure Negotiation (σ : Type) where
  settings : List Setting
  failure : Option Failure
  state : σ

def Negotiation.notices (negotiation : Negotiation σ) : List Log.Entry :=
  negotiation.settings.filterMap Setting.notice?

def Negotiation.result (negotiation : Negotiation σ) : Except Failure (List Setting) :=
  match negotiation.failure with
  | none => .ok negotiation.settings
  | some failure => .error failure

/-- Settles categories in order, up to the first that cannot be settled. -/
def settleAll (backend : Backend σ) : List (Category × String) → σ → Negotiation σ
  | [], state => ⟨[], none, state⟩
  | (category, requested) :: rest, state =>
      match settle backend category requested state with
      | (none, state) => ⟨[], some (unsettled category requested), state⟩
      | (some setting, state) =>
          let others := settleAll backend rest state
          { others with settings := setting :: others.settings }

def negotiate (backend : Backend σ) (windows : Bool) (state : σ) : Negotiation σ :=
  let (plan, state) := plan backend windows state
  let settled := settleAll backend plan state
  match settled.failure with
  | some _ => settled
  | none =>
      let (overrun, state) := backend.overrun? (backend.remove overrideVariable settled.state)
      ⟨settled.settings, overrun.map Failure.collationOverrun, state⟩

end ServerEntry.Locale
