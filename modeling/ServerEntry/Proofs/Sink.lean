import ServerEntry.Proofs.Text.Utf8
import ServerEntry.Sink

/-!
# What a sink takes

Writing in pieces comes to the same as writing the whole text at once, and a sink takes of it what
it has room for.  It is flushed exactly if that is everything.
-/

namespace ServerEntry

/-! ## What is asked of an output -/

namespace Output

inductive Call where
  | write (bytes : Bytes)
  | flush
  deriving DecidableEq, Repr

structure Recorded (τ : Type) where
  out : τ
  calls : List Call

variable {τ : Type} [Output τ]

instance : Output (Recorded τ) where
  write bytes recorded :=
    let (taken, next) := write bytes recorded.out
    (taken, ⟨next, recorded.calls ++ [.write bytes]⟩)
  flush recorded :=
    let (result, next) := flush recorded.out
    (result, ⟨next, recorded.calls ++ [.flush]⟩)

theorem write_recorded (bytes : Bytes) (out : τ) (calls : List Call) :
    write bytes (Recorded.mk out calls) =
      ((write bytes out).1, ⟨(write bytes out).2, calls ++ [.write bytes]⟩) := rfl

theorem writeAll_recorded (bytes : Bytes) (out : τ) (calls : List Call) :
    ∃ offers : List Bytes, writeAll bytes (Recorded.mk out calls) =
      ((writeAll bytes out).1, ⟨(writeAll bytes out).2, calls ++ offers.map .write⟩) := by
  fun_induction writeAll bytes out generalizing calls with
  | case1 out => exact ⟨[], by simp [writeAll]⟩
  | case2 out byte rest failure next answer =>
      refine ⟨[byte :: rest], ?_⟩
      rw [writeAll]
      simp [write_recorded, answer]
  | case3 out byte rest next answer =>
      refine ⟨[byte :: rest], ?_⟩
      rw [writeAll]
      simp [write_recorded, answer]
  | case4 out byte rest more next answer ih =>
      obtain ⟨offers, later⟩ := ih (calls ++ [.write (byte :: rest)])
      refine ⟨(byte :: rest) :: offers, ?_⟩
      rw [writeAll]
      simp only [write_recorded, answer]
      rw [later]
      simp

theorem writeEach_recorded (pieces : List String) (out : τ) (calls : List Call) :
    ∃ offers : List Bytes, writeEach pieces (Recorded.mk out calls) =
      ((writeEach pieces out).1, ⟨(writeEach pieces out).2, calls ++ offers.map .write⟩) := by
  induction pieces generalizing out calls with
  | nil => exact ⟨[], by simp [writeEach]⟩
  | cons piece pieces ih =>
      obtain ⟨offers, first⟩ := writeAll_recorded (Text.Utf8.encode piece) out calls
      rcases written : writeAll (Text.Utf8.encode piece) out with ⟨_ | _, next⟩
      · exact ⟨offers, by simp [writeEach, first, written]⟩
      · obtain ⟨others, later⟩ := ih next (calls ++ offers.map .write)
        exact ⟨offers ++ others, by simp [writeEach, first, written, later]⟩

/-- An output is flushed once all pieces are through, and not before. -/
theorem writeText_recorded (pieces : List String) (out : τ) :
    ∃ offers : List Bytes, writeText pieces (Recorded.mk out []) =
      ((writeText pieces out).1, ⟨(writeText pieces out).2,
        offers.map .write ++ match (writeEach pieces out).1 with
          | .ok () => [.flush]
          | .error _ => []⟩) := by
  obtain ⟨offers, each⟩ := writeEach_recorded pieces out []
  refine ⟨offers, ?_⟩
  rcases written : writeEach pieces out with ⟨_ | _, next⟩
  · simp [writeText, each, written]
  · simp only [writeText, each, written, List.nil_append]
    rfl

end Output

namespace Sink

/-! ## The whole text at once -/

/-- What goes into a room; there is room for everything where it is not limited. -/
def portion (room : Option Nat) (bytes : Bytes) : Bytes :=
  match room with
  | none => bytes
  | some room => bytes.take room

theorem portion_nil (room : Option Nat) : portion room [] = [] := by
  cases room with
  | none => rfl
  | some room => exact List.take_nil

/-- What comes second finds the room that the first has left. -/
theorem portion_append (room : Option Nat) (bytes others : Bytes) :
    portion room (bytes ++ others) =
      portion room bytes ++ portion (room.map (· - bytes.length)) others := by
  cases room with
  | none => rfl
  | some room => exact List.take_append

def fits (sink : Sink) (bytes : Bytes) : Bool := sink.room?.all fun room => bytes.length ≤ room

def filled (sink : Sink) (bytes : Bytes) : Sink :=
  { sink with taken := sink.taken ++ portion sink.room? bytes }

theorem filled_nil (sink : Sink) : sink.filled [] = sink := by
  simp [filled, portion_nil]

theorem room?_filled (sink : Sink) (bytes : Bytes) :
    (sink.filled bytes).room? = sink.room?.map (· - bytes.length) := by
  cases limit : sink.capacity with
  | none => simp [filled, room?, limit]
  | some limit =>
      simp [filled, portion, room?, limit]
      omega

theorem filled_filled (sink : Sink) (bytes others : Bytes) :
    (sink.filled bytes).filled others = sink.filled (bytes ++ others) := by
  rw [filled, room?_filled]
  simp [filled, portion_append]

theorem fits_append (sink : Sink) (bytes others : Bytes) :
    sink.fits (bytes ++ others) = (sink.fits bytes && (sink.filled bytes).fits others) := by
  rw [fits, fits, fits, room?_filled]
  cases sink.room? with
  | none => rfl
  | some room =>
      simp only [Option.all_some, Option.map_some, List.length_append, ← Bool.decide_and]
      apply decide_eq_decide.mpr
      omega

theorem portion_of_fits {sink : Sink} {bytes : Bytes} (h : sink.fits bytes) :
    portion sink.room? bytes = bytes := by
  cases room : sink.room? with
  | none => rfl
  | some room' => exact List.take_of_length_le (by simpa [fits, room] using h)

theorem exists_room {sink : Sink} {bytes : Bytes} (h : sink.fits bytes = false) :
    ∃ room, sink.room? = some room ∧ room < bytes.length := by
  simpa [fits, Option.all_eq_false] using h

/-- Where the bytes do not fit, nothing that comes later changes the sink. -/
theorem filled_append_of_not_fits {sink : Sink} {bytes : Bytes} (full : sink.fits bytes = false)
    (others : Bytes) : sink.filled (bytes ++ others) = sink.filled bytes := by
  obtain ⟨room, limit, short⟩ := exists_room full
  rw [filled, filled, limit, portion, List.take_append_of_le_length (Nat.le_of_lt short), portion]

/-! ## Writing -/

theorem accept_of_room {sink : Sink} (room : sink.room? ≠ some 0) (bytes : Bytes) :
    sink.accept bytes = (.ok (portion sink.room? bytes).length, sink.filled bytes) := by
  unfold accept filled
  split
  · rename_i limit
    simp [limit, portion]
  · contradiction
  · rename_i limit
    simp [limit, portion]

theorem writeAll_of_full {sink : Sink} (full : sink.room? = some 0) (byte : UInt8)
    (rest : Bytes) : Output.writeAll (byte :: rest) sink = (.error sink.refusal, sink) := by
  rw [Output.writeAll]
  simp only [Output.write, accept, full]
  cases sink.refusal <;> rfl

theorem writeAll_of_room {sink : Sink} (room : sink.room? ≠ some 0) (byte : UInt8)
    (rest : Bytes) :
    Output.writeAll (byte :: rest) sink =
      Output.writeAll ((byte :: rest).drop (portion sink.room? (byte :: rest)).length)
        (sink.filled (byte :: rest)) := by
  obtain ⟨more, count⟩ : ∃ more, (portion sink.room? (byte :: rest)).length = more + 1 := by
    cases limit : sink.room? with
    | none => exact ⟨rest.length, rfl⟩
    | some room' =>
        cases room' with
        | zero => exact absurd limit room
        | succ room' => exact ⟨(rest.take room').length, rfl⟩
  conv => lhs; rw [Output.writeAll]
  simp only [Output.write, accept_of_room room, count, List.drop_succ_cons]

/-- A sink takes all bytes at the first offer, or refuses at the second what it has no room for. -/
theorem writeAll_output (sink : Sink) (bytes : Bytes) :
    Output.writeAll bytes sink =
      (if sink.fits bytes then .ok () else .error sink.refusal, sink.filled bytes) := by
  cases bytes with
  | nil =>
      have fits : sink.fits [] := by cases room : sink.room? <;> simp [fits, room]
      rw [Output.writeAll, if_pos fits, filled_nil]
  | cons byte rest =>
      by_cases full : sink.room? = some 0
      · have unfit : sink.fits (byte :: rest) = false := by simp [fits, full]
        have same : sink.filled (byte :: rest) = sink := by simp [filled, portion, full]
        rw [writeAll_of_full full, unfit, same]
        rfl
      rw [writeAll_of_room full]
      cases fits : sink.fits (byte :: rest) with
      | true =>
          rw [portion_of_fits fits, List.drop_length, Output.writeAll]
          rfl
      | false =>
          obtain ⟨room, limit, short⟩ := exists_room fits
          obtain ⟨next, others, left⟩ : ∃ next others, (byte :: rest).drop room = next :: others :=
            List.exists_cons_of_ne_nil (mt List.drop_eq_nil_iff.mp (Nat.not_le_of_lt short))
          have nothing : (sink.filled (byte :: rest)).room? = some 0 := by
            rw [room?_filled, limit, Option.map_some, Nat.sub_eq_zero_of_le (Nat.le_of_lt short)]
          have taken : (portion sink.room? (byte :: rest)).length = room := by
            rw [limit, portion, List.length_take_of_le (Nat.le_of_lt short)]
          rw [taken, left, writeAll_of_full nothing]
          rfl

/-- However a text is cut into pieces, writing them is writing the text. -/
theorem writeEach_output (sink : Sink) (pieces : List String) :
    Output.writeEach pieces sink =
      Output.writeAll (Text.Utf8.encode (String.join pieces)) sink := by
  induction pieces generalizing sink with
  | nil =>
      rw [show Text.Utf8.encode (String.join []) = [] from rfl, Output.writeAll]
      rfl
  | cons piece pieces ih =>
      rw [Output.writeEach, String.join_cons, Text.Utf8.encode_append, writeAll_output,
        writeAll_output, fits_append]
      cases fits : sink.fits (Text.Utf8.encode piece) with
      | true =>
          simp only [if_true, Bool.true_and]
          rw [ih, writeAll_output, filled_filled]
          rfl
      | false => simp [filled_append_of_not_fits fits]

theorem writeText_eq (sink : Sink) (pieces : List String) :
    sink.writeText pieces =
      (if sink.fits (Text.Utf8.encode (String.join pieces)) then sink.flush
        else .error sink.refusal,
      sink.filled (Text.Utf8.encode (String.join pieces))) := by
  rw [writeText, Output.writeText, writeEach_output, writeAll_output]
  cases sink.fits (Text.Utf8.encode (String.join pieces)) <;> rfl

theorem writeText_unlimited (pieces : List String) :
    Output.writeText pieces unlimited =
      (.ok (), { unlimited with taken := Text.Utf8.encode (String.join pieces) }) :=
  writeText_eq unlimited pieces

/-! ## What is delivered -/

/--
What becomes of a text that is written in pieces to a sink with nothing in it yet.  The sink takes a
beginning of the text, the same however it is cut, and it is flushed if that is all of it.
-/
structure Delivers (sink : Sink) (pieces : List String) (text : Bytes) : Prop where
  taken : (sink.writeText pieces).2 =
    { sink with taken := text.take (min (sink.capacity.getD text.length) text.length) }
  uncut : ∀ others, String.join others = String.join pieces →
    sink.writeText others = sink.writeText pieces
  ok_iff : (sink.writeText pieces).1 = .ok () ↔
    (∀ limit ∈ sink.capacity, text.length ≤ limit) ∧ sink.flushFails = false
  refused : (∃ limit ∈ sink.capacity, limit < text.length) →
    (sink.writeText pieces).1 = .error sink.refusal ∧
      .flush ∉ (Output.writeText pieces (Output.Recorded.mk sink [])).2.calls
  unflushed : (∀ limit ∈ sink.capacity, text.length ≤ limit) → sink.flushFails →
    (sink.writeText pieces).1 = .error .brokenPipe ∧ (sink.writeText pieces).2.taken = text ∧
      .flush ∈ (Output.writeText pieces (Output.Recorded.mk sink [])).2.calls

theorem flush_mem_iff (sink : Sink) (pieces : List String) :
    .flush ∈ (Output.writeText pieces (Output.Recorded.mk sink [])).2.calls ↔
      sink.fits (Text.Utf8.encode (String.join pieces)) := by
  obtain ⟨offers, recorded⟩ := Output.writeText_recorded pieces sink
  rw [recorded, writeEach_output, writeAll_output]
  cases sink.fits (Text.Utf8.encode (String.join pieces)) <;> simp

section Fresh

variable {sink : Sink} (fresh : sink.taken = [])

include fresh

theorem fits_iff (bytes : Bytes) :
    sink.fits bytes ↔ ∀ limit ∈ sink.capacity, bytes.length ≤ limit := by
  cases limit : sink.capacity <;> simp [fits, room?, fresh, limit]

theorem filled_eq (bytes : Bytes) :
    sink.filled bytes =
      { sink with taken := bytes.take (min (sink.capacity.getD bytes.length) bytes.length) } := by
  cases limit : sink.capacity <;>
    simp [filled, room?, portion, fresh, limit, ← List.take_eq_take_min]

theorem delivers (pieces : List String) :
    Delivers sink pieces (Text.Utf8.encode (String.join pieces)) where
  taken := by rw [writeText_eq, filled_eq fresh]
  uncut others same := by rw [writeText_eq, writeText_eq, same]
  ok_iff := by
    rw [writeText_eq, ← fits_iff fresh]
    cases sink.fits (Text.Utf8.encode (String.join pieces)) <;> simp [flush]
  refused := by
    rintro ⟨limit, limited, short⟩
    have unfit : ¬ sink.fits (Text.Utf8.encode (String.join pieces)) := fun fits =>
      Nat.not_le_of_lt short ((fits_iff fresh _).mp fits limit limited)
    exact ⟨by rw [writeText_eq, if_neg unfit], mt (sink.flush_mem_iff pieces).mp unfit⟩
  unflushed := by
    intro unlimited fails
    have fits := (fits_iff fresh _).mpr unlimited
    refine ⟨?_, ?_, (sink.flush_mem_iff pieces).mpr fits⟩
    · rw [writeText_eq, if_pos fits, flush, if_pos fails]
    · rw [writeText_eq, filled, portion_of_fits fits, fresh, List.nil_append]

end Fresh

end Sink

end ServerEntry
