import ServerEntry.Locale.Backend

/-!
# Conversations with a locale backend

A conversation lists questions to a backend with the answers it gave, each in the state that the one
before had left.  A backend may answer as it likes, so this is all that can be said of a run against
an unknown one; what a run asks, and in which order, is a property of the list.

A recorded backend is in conversation just as the one beneath it, and its notes are the questions.
-/

namespace ServerEntry.Locale

variable {σ ι : Type}

/-- The answer to a question and the state after it; a removal has no answer. -/
def Backend.ask (backend : Backend σ) : Call → σ → Option String × σ
  | .adopt category locale, state => backend.adopt category locale state
  | .read name, state => backend.read name state
  | .remove name, state => (none, backend.remove name state)
  | .check, state => backend.overrun? state

structure Exchange where
  call : Call
  answer : Option String
  deriving DecidableEq, Repr

inductive Conversation (backend : Backend σ) : σ → List Exchange → σ → Prop
  | nil (state) : Conversation backend state [] state
  | cons {state next last} {call : Call} {answer : Option String} {rest : List Exchange} :
      backend.ask call state = (answer, next) → Conversation backend next rest last →
      Conversation backend state (⟨call, answer⟩ :: rest) last

namespace Conversation

variable {backend : Backend σ} {first middle last : σ} {exchanges others : List Exchange}

theorem single {call : Call} {answer : Option String}
    (h : backend.ask call first = (answer, last)) :
    Conversation backend first [⟨call, answer⟩] last :=
  .cons h (.nil last)

theorem append (h : Conversation backend first exchanges middle)
    (h' : Conversation backend middle others last) :
    Conversation backend first (exchanges ++ others) last := by
  induction h with
  | nil state => exact h'
  | cons asked _ ih => exact .cons asked (ih h')

@[simp] theorem nil_iff : Conversation backend first [] last ↔ first = last := by
  constructor
  · rintro ⟨⟩
    rfl
  · rintro rfl
    exact .nil first

@[simp] theorem cons_iff {call : Call} {answer : Option String} :
    Conversation backend first (⟨call, answer⟩ :: others) last ↔
      ∃ next, backend.ask call first = (answer, next) ∧ Conversation backend next others last := by
  constructor
  · intro h
    cases h with
    | cons asked rest => exact ⟨_, asked, rest⟩
  · rintro ⟨next, asked, rest⟩
    exact .cons asked rest

theorem append_iff :
    Conversation backend first (exchanges ++ others) last ↔
      ∃ middle, Conversation backend first exchanges middle ∧
        Conversation backend middle others last := by
  constructor
  · intro h
    induction exchanges generalizing first with
    | nil => exact ⟨first, .nil first, h⟩
    | cons exchange exchanges ih =>
        obtain ⟨next, asked, rest⟩ := cons_iff.mp h
        obtain ⟨middle, before, after⟩ := ih rest
        exact ⟨middle, .cons asked before, after⟩
  · rintro ⟨middle, before, after⟩
    exact before.append after

end Conversation

/-! ## Recorded backends -/

@[simp] theorem Backend.ask_recorded (backend : Backend σ) (note : Call → ι) (call : Call)
    (state : σ × List ι) :
    (backend.recorded note).ask call state =
      ((backend.ask call state.1).1, (backend.ask call state.1).2, state.2 ++ [note call]) := by
  cases call <;> rfl

theorem Conversation.recorded {backend : Backend σ} {first last : σ} {exchanges : List Exchange}
    (h : Conversation backend first exchanges last) (note : Call → ι) (notes : List ι) :
    Conversation (backend.recorded note) (first, notes) exchanges
      (last, notes ++ exchanges.map fun exchange => note exchange.call) := by
  induction h generalizing notes with
  | nil state => simp
  | @cons state next last call answer rest asked _ ih =>
      have noted : (backend.recorded note).ask call (state, notes) =
          (answer, next, notes ++ [note call]) := by simp [asked]
      simpa using Conversation.cons noted (ih (notes ++ [note call]))

end ServerEntry.Locale
