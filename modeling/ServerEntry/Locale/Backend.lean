import ServerEntry.Locale.Category

/-!
What locales are settled against.

A backend keeps a state of any kind, and each of its answers may depend on all that it was asked
before.  `recorded` notes every question in order beside the state.
-/

namespace ServerEntry.Locale

structure Backend (σ : Type) where
  /--
  Adopts a locale for a category and exports it to the category's variable; the empty name stands
  for what the environment says.  Answers with the adopted name, or `none` if the locale was
  rejected.
  -/
  adopt : Category → String → σ → Option String × σ
  read : String → σ → Option String × σ
  remove : String → σ → σ
  /--
  Tries whether collation keys keep to their space; answers with the locale in which they do
  not.
  -/
  overrun? : σ → Option String × σ

inductive Call where
  | adopt (category : Category) (locale : String)
  | read (name : String)
  | remove (name : String)
  | check
  deriving DecidableEq, Repr

/-- The same backend, which also notes every call at the end of a list. -/
def Backend.recorded {σ ι : Type} (backend : Backend σ) (note : Call → ι) :
    Backend (σ × List ι) where
  adopt category locale state :=
    let (answer, next) := backend.adopt category locale state.1
    (answer, next, state.2 ++ [note (.adopt category locale)])
  read name state :=
    let (answer, next) := backend.read name state.1
    (answer, next, state.2 ++ [note (.read name)])
  remove name state := (backend.remove name state.1, state.2 ++ [note (.remove name)])
  overrun? state :=
    let (answer, next) := backend.overrun? state.1
    (answer, next, state.2 ++ [note .check])

end ServerEntry.Locale
