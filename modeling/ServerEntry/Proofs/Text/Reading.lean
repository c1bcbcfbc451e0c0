import ServerEntry.Text.Utf8

/-!
# Bytes come apart into characters and faults

Where no character can be read, the bytes with which a character begins go together as one fault,
as many of them as there are; a byte with which none begins is a fault of its own.  Bytes come apart
into characters and faults in one way only, and that is the way they are read.  A byte that is a
character by itself keeps what stands before it apart from what comes after it.
-/

namespace ServerEntry.Text.Utf8

/-! ## Characters and faults -/

/-- Bytes with which a character begins but does not end. -/
def Opens (bytes : Bytes) : Prop := ∃ c more, more ≠ [] ∧ String.utf8EncodeChar c = bytes ++ more

/-- The maximal subpart at the start of bytes that start with no character. -/
structure Fault (subpart rest : Bytes) : Prop where
  nonempty : subpart ≠ []
  unreadable : ∀ c, ¬ String.utf8EncodeChar c <+: subpart ++ rest
  opens : Opens subpart ∨ subpart.length = 1
  longest : ∀ other, other <+: subpart ++ rest → Opens other → other.length ≤ subpart.length

inductive Reading : Bytes → List (Option Char) → Prop
  | done : Reading [] []
  | character (c : Char) {rest : Bytes} {items : List (Option Char)} :
      Reading rest items → Reading (String.utf8EncodeChar c ++ rest) (some c :: items)
  | fault {subpart rest : Bytes} {items : List (Option Char)} :
      Fault subpart rest → Reading rest items → Reading (subpart ++ rest) (none :: items)

/-! ## Reading one byte -/

theorem lead?_eq_some_iff {byte : UInt8} {p : Pending} :
    lead? byte = some p ↔
      byte.toNat < 0x80 ∧ p = ⟨byte.toNat, 0, 0x80, 0xBF⟩ ∨
      (0xC2 ≤ byte.toNat ∧ byte.toNat < 0xE0) ∧ p = ⟨byte.toNat - 0xC0, 1, 0x80, 0xBF⟩ ∨
      (0xE0 ≤ byte.toNat ∧ byte.toNat < 0xF0) ∧
        p = ⟨byte.toNat - 0xE0, 2, if byte.toNat = 0xE0 then 0xA0 else 0x80,
          if byte.toNat = 0xED then 0x9F else 0xBF⟩ ∨
      (0xF0 ≤ byte.toNat ∧ byte.toNat < 0xF5) ∧
        p = ⟨byte.toNat - 0xF0, 3, if byte.toNat = 0xF0 then 0x90 else 0x80,
          if byte.toNat = 0xF4 then 0x8F else 0xBF⟩ := by
  simp only [lead?]
  generalize byte.toNat = n
  grind

section Step

variable {p : Pending} {byte : UInt8} {rest : Bytes}

theorem accepts_iff : p.accepts byte = true ↔ p.low ≤ byte.toNat ∧ byte.toNat ≤ p.high := by
  simp [Pending.accepts]

theorem settle_of_finished (h : p.missing = 0) :
    p.settle = ([some (Char.ofNat p.bits)], none) :=
  if_pos h

theorem settle_of_unfinished (h : p.missing ≠ 0) : p.settle = ([], some p) := if_neg h

theorem piecesFrom_of_unopened (h : lead? byte = none) :
    piecesFrom none (byte :: rest) = none :: piecesFrom none rest := by
  simp [piecesFrom, feed, openWith, h]

theorem piecesFrom_of_opened (h : lead? byte = some p) :
    piecesFrom none (byte :: rest) = p.settle.1 ++ piecesFrom p.settle.2 rest := by
  simp [piecesFrom, feed, openWith, h]

theorem piecesFrom_of_accepted (h : p.accepts byte = true) :
    piecesFrom (some p) (byte :: rest) =
      (p.push byte).settle.1 ++ piecesFrom (p.push byte).settle.2 rest := by
  simp [piecesFrom, feed, h]

theorem piecesFrom_of_refused (h : p.accepts byte = false) :
    piecesFrom (some p) (byte :: rest) = none :: piecesFrom none (byte :: rest) := by
  simp [piecesFrom, feed, h]

end Step

/-! ## Reading what was written -/

theorem piecesFrom_single {byte : UInt8} {rest : Bytes} (h : byte.toNat < 0x80) :
    piecesFrom none (byte :: rest) = some (Char.ofNat byte.toNat) :: piecesFrom none rest := by
  rw [piecesFrom_of_opened (lead?_eq_some_iff.mpr (.inl ⟨h, rfl⟩)), settle_of_finished rfl]
  rfl

theorem piecesFrom_lead {byte : UInt8} {rest : Bytes} {bits missing low high : Nat}
    (lead : lead? byte = some ⟨bits, missing + 1, low, high⟩) :
    piecesFrom none (byte :: rest) = piecesFrom (some ⟨bits, missing + 1, low, high⟩) rest := by
  rw [piecesFrom_of_opened lead, settle_of_unfinished (Nat.succ_ne_zero missing)]
  rfl

theorem piecesFrom_next {byte : UInt8} {rest : Bytes} {bits missing low high : Nat}
    (h : low ≤ byte.toNat ∧ byte.toNat ≤ high) :
    piecesFrom (some ⟨bits, missing + 2, low, high⟩) (byte :: rest) =
      piecesFrom (some ⟨bits * 64 + (byte.toNat - 0x80), missing + 1, 0x80, 0xBF⟩) rest := by
  rw [piecesFrom_of_accepted (accepts_iff.mpr h)]
  rfl

theorem piecesFrom_last {byte : UInt8} {rest : Bytes} {bits low high : Nat}
    (h : low ≤ byte.toNat ∧ byte.toNat ≤ high) :
    piecesFrom (some ⟨bits, 1, low, high⟩) (byte :: rest) =
      some (Char.ofNat (bits * 64 + (byte.toNat - 0x80))) :: piecesFrom none rest := by
  rw [piecesFrom_of_accepted (accepts_iff.mpr h)]
  rfl

theorem toNat_ofNat_of_lt (n : Nat) (h : n < 256) : (UInt8.ofNat n).toNat = n := by
  simp [Nat.mod_eq_of_lt h]

/-- The bytes that a character starts with and those that it goes on with are in ranges apart. -/
theorem exists_encodeChar_eq (c : Char) :
    ∃ lead following, String.utf8EncodeChar c = lead :: following ∧
      (lead.toNat < 0x80 ∨ 0xC0 ≤ lead.toNat) ∧
      ∀ byte ∈ following, 0x80 ≤ byte.toNat ∧ byte.toNat < 0xC0 := by
  rw [String.utf8EncodeChar]
  generalize c.val.toNat = v
  have leads {n : Nat} (small : n < 256) (range : n < 0x80 ∨ 0xC0 ≤ n) :
      (UInt8.ofNat n).toNat < 0x80 ∨ 0xC0 ≤ (UInt8.ofNat n).toNat := by
    rwa [toNat_ofNat_of_lt n small]
  have follows (n : Nat) : 0x80 ≤ (UInt8.ofNat (n % 64 + 128)).toNat ∧
      (UInt8.ofNat (n % 64 + 128)).toNat < 0xC0 := by
    rw [toNat_ofNat_of_lt (n % 64 + 128) (by omega)]
    omega
  split
  · refine ⟨UInt8.ofNat v, [], rfl, leads ?_ ?_, List.forall_mem_nil _⟩ <;> omega
  split
  · refine ⟨UInt8.ofNat (v / 64 % 32 + 192), _, rfl, leads ?_ ?_,
      List.forall_mem_singleton.mpr (follows v)⟩ <;> omega
  split
  · refine ⟨UInt8.ofNat (v / 4096 % 16 + 224), _, rfl, leads ?_ ?_,
      List.forall_mem_cons.mpr ⟨follows (v / 64), List.forall_mem_singleton.mpr (follows v)⟩⟩ <;>
      omega
  · refine ⟨UInt8.ofNat (v / 262144 % 8 + 240), _, rfl, leads ?_ ?_,
      List.forall_mem_cons.mpr ⟨follows (v / 4096), List.forall_mem_cons.mpr
        ⟨follows (v / 64), List.forall_mem_singleton.mpr (follows v)⟩⟩⟩ <;> omega

theorem piecesFrom_encodeChar (c : Char) (rest : Bytes) :
    piecesFrom none (String.utf8EncodeChar c ++ rest) = some c :: piecesFrom none rest := by
  have valid : c.val.toNat < 0xD800 ∨ 0xDFFF < c.val.toNat ∧ c.val.toNat < 0x110000 := c.valid
  have back : Char.ofNat c.val.toNat = c := c.ofNat_toNat
  rw [String.utf8EncodeChar]
  generalize c.val.toNat = v at *
  by_cases one : v ≤ 0x7F
  · have first := toNat_ofNat_of_lt v (by omega)
    simp only [one, if_true, List.cons_append, List.nil_append]
    rw [piecesFrom_single (by omega), first, back]
  by_cases two : v ≤ 0x7FF
  · have first := toNat_ofNat_of_lt (v / 64 % 32 + 192) (by omega)
    have second := toNat_ofNat_of_lt (v % 64 + 128) (by omega)
    have lead := lead?_eq_some_iff.mpr (.inr (.inl ⟨by rw [first]; omega, rfl⟩))
    simp only [one, two, if_true, if_false, List.cons_append, List.nil_append]
    have value : (v / 64 % 32 + 192 - 0xC0) * 64 + (v % 64 + 128 - 0x80) = v := by omega
    rw [piecesFrom_lead lead, piecesFrom_last (by omega), first, second, value, back]
  by_cases three : v ≤ 0xFFFF
  · have first := toNat_ofNat_of_lt (v / 4096 % 16 + 224) (by omega)
    have second := toNat_ofNat_of_lt (v / 64 % 64 + 128) (by omega)
    have third := toNat_ofNat_of_lt (v % 64 + 128) (by omega)
    have lead := lead?_eq_some_iff.mpr (.inr (.inr (.inl ⟨by rw [first]; omega, rfl⟩)))
    simp only [one, two, three, if_true, if_false, List.cons_append, List.nil_append]
    have value : ((v / 4096 % 16 + 224 - 0xE0) * 64 + (v / 64 % 64 + 128 - 0x80)) * 64 +
        (v % 64 + 128 - 0x80) = v := by omega
    rw [piecesFrom_lead lead, piecesFrom_next, piecesFrom_last (by omega), first, second, third,
      value, back]
    rw [first, second]
    constructor <;> split <;> omega
  · have first := toNat_ofNat_of_lt (v / 262144 % 8 + 240) (by omega)
    have second := toNat_ofNat_of_lt (v / 4096 % 64 + 128) (by omega)
    have third := toNat_ofNat_of_lt (v / 64 % 64 + 128) (by omega)
    have fourth := toNat_ofNat_of_lt (v % 64 + 128) (by omega)
    have lead := lead?_eq_some_iff.mpr (.inr (.inr (.inr ⟨by rw [first]; omega, rfl⟩)))
    simp only [one, two, three, if_false, List.cons_append, List.nil_append]
    have value : (((v / 262144 % 8 + 240 - 0xF0) * 64 + (v / 4096 % 64 + 128 - 0x80)) * 64 +
        (v / 64 % 64 + 128 - 0x80)) * 64 + (v % 64 + 128 - 0x80) = v := by omega
    rw [piecesFrom_lead lead, piecesFrom_next, piecesFrom_next (by omega),
      piecesFrom_last (by omega), first, second, third, fourth, value, back]
    rw [first, second]
    constructor <;> split <;> omega

theorem pieces_encodeChar (c : Char) : pieces (String.utf8EncodeChar c) = [some c] := by
  simpa [pieces, piecesFrom] using piecesFrom_encodeChar c []

/-! ## One reading at most -/

theorem Fault.length_le {subpart rest other behind : Bytes} (h : Fault subpart rest)
    (h' : Fault other behind) (same : subpart ++ rest = other ++ behind) :
    other.length ≤ subpart.length := by
  rcases h'.opens with opens | single
  · exact h.longest other ⟨behind, same.symm⟩ opens
  · rw [single]
    exact List.length_pos_iff.mpr h.nonempty

theorem Fault.unique {subpart rest other behind : Bytes} (h : Fault subpart rest)
    (h' : Fault other behind) (same : subpart ++ rest = other ++ behind) :
    subpart = other ∧ rest = behind :=
  List.append_inj same (Nat.le_antisymm (h'.length_le h same.symm) (h.length_le h' same))

theorem encodeChar_ne_nil (c : Char) : String.utf8EncodeChar c ≠ [] := by
  obtain ⟨lead, following, shape, -⟩ := exists_encodeChar_eq c
  simp [shape]

theorem encodeChar_append_inj {c other : Char} {rest behind : Bytes}
    (h : String.utf8EncodeChar c ++ rest = String.utf8EncodeChar other ++ behind) :
    c = other ∧ rest = behind := by
  have read := congrArg (piecesFrom none) h
  rw [piecesFrom_encodeChar, piecesFrom_encodeChar] at read
  obtain rfl : c = other := Option.some.inj (List.cons.inj read).1
  exact ⟨rfl, List.append_cancel_left h⟩

theorem Reading.unique {bytes : Bytes} {items others : List (Option Char)}
    (h : Reading bytes items) (h' : Reading bytes others) : items = others := by
  induction h generalizing others with
  | done =>
      generalize whole : ([] : Bytes) = bytes at h'
      cases h' with
      | done => rfl
      | character c _ => exact absurd (List.append_eq_nil_iff.mp whole.symm).1 (encodeChar_ne_nil c)
      | fault fault _ => exact absurd (List.append_eq_nil_iff.mp whole.symm).1 fault.nonempty
  | @character c rest items _ ih =>
      generalize whole : String.utf8EncodeChar c ++ rest = bytes at h'
      cases h' with
      | done => exact absurd (List.append_eq_nil_iff.mp whole).1 (encodeChar_ne_nil c)
      | character other more =>
          obtain ⟨rfl, rfl⟩ := encodeChar_append_inj whole
          rw [ih more]
      | fault fault _ => exact absurd ⟨rest, whole⟩ (fault.unreadable c)
  | @fault subpart rest items fault _ ih =>
      generalize whole : subpart ++ rest = bytes at h'
      cases h' with
      | done => exact absurd (List.append_eq_nil_iff.mp whole).1 fault.nonempty
      | @character c behind _ _ => exact absurd ⟨behind, whole.symm⟩ (fault.unreadable c)
      | fault fault' more =>
          obtain ⟨rfl, rfl⟩ := fault.unique fault' whole
          rw [ih more]

/-! ## Sequences under way -/

/--
However a sequence of which some bytes have been read is completed, those bytes and the completion
are what the resulting character is written as.
-/
def Spells : Nat → Nat → Nat → Nat → Bytes → Prop
  | 0, bits, _, _, read => String.utf8EncodeChar (Char.ofNat bits) = read
  | missing + 1, bits, low, high, read =>
      ∀ byte : UInt8, low ≤ byte.toNat → byte.toNat ≤ high →
        Spells missing (bits * 64 + (byte.toNat - 0x80)) 0x80 0xBF (read ++ [byte])

theorem toNat_val_ofNat (v : Nat) (valid : v < 0xD800 ∨ 0xDFFF < v ∧ v < 0x110000) :
    (Char.ofNat v).val.toNat = v := by
  have built : Char.ofNat v = Char.ofNatAux v valid := dif_pos valid
  rw [built]
  rfl

theorem spells_of_lead {byte : UInt8} {p : Pending} (h : lead? byte = some p) :
    Spells p.missing p.bits p.low p.high [byte] := by
  rcases lead?_eq_some_iff.mp h with ⟨range, rfl⟩ | ⟨range, rfl⟩ | ⟨range, rfl⟩ | ⟨range, rfl⟩
  · have value := toNat_val_ofNat byte.toNat (by omega)
    have small : byte.toNat ≤ 0x7F := by omega
    simp [Spells, String.utf8EncodeChar, value, small]
  · intro second low high
    generalize bits : (byte.toNat - 0xC0) * 64 + (second.toNat - 0x80) = v
    dsimp only at low high
    have value := toNat_val_ofNat v (by omega)
    have size : ¬ v ≤ 0x7F ∧ v ≤ 0x7FF := by omega
    have parts : v / 64 % 32 + 192 = byte.toNat ∧ v % 64 + 128 = second.toNat := by omega
    simp [Spells, String.utf8EncodeChar, value, size, parts]
  · intro second low high third low' high'
    generalize bits :
      ((byte.toNat - 0xE0) * 64 + (second.toNat - 0x80)) * 64 + (third.toNat - 0x80) = v
    dsimp only at low high
    have value := toNat_val_ofNat v (by split at high <;> omega)
    have size : ¬ v ≤ 0x7F ∧ ¬ v ≤ 0x7FF ∧ v ≤ 0xFFFF := by split at low <;> split at high <;> omega
    have parts : v / 4096 % 16 + 224 = byte.toNat ∧ v / 64 % 64 + 128 = second.toNat ∧
        v % 64 + 128 = third.toNat := by split at low <;> split at high <;> omega
    simp [Spells, String.utf8EncodeChar, value, size, parts]
  · intro second low high third low' high' fourth low'' high''
    generalize bits :
      (((byte.toNat - 0xF0) * 64 + (second.toNat - 0x80)) * 64 + (third.toNat - 0x80)) * 64 +
        (fourth.toNat - 0x80) = v
    dsimp only at low high
    have bounds : 0x10000 ≤ v ∧ v < 0x110000 := by split at low <;> split at high <;> omega
    have value := toNat_val_ofNat v (by omega)
    have size : ¬ v ≤ 0x7F ∧ ¬ v ≤ 0x7FF ∧ ¬ v ≤ 0xFFFF := by omega
    have parts : v / 262144 % 8 + 240 = byte.toNat ∧ v / 4096 % 64 + 128 = second.toNat ∧
        v / 64 % 64 + 128 = third.toNat ∧ v % 64 + 128 = fourth.toNat := by
      split at low <;> split at high <;> omega
    simp [Spells, String.utf8EncodeChar, value, size, parts]

theorem spells_push {p : Pending} {byte : UInt8} {read : Bytes} (unfinished : p.missing ≠ 0)
    (spelled : Spells p.missing p.bits p.low p.high read) (accepted : p.accepts byte = true) :
    Spells (p.push byte).missing (p.push byte).bits (p.push byte).low (p.push byte).high
      (read ++ [byte]) := by
  obtain ⟨bits, missing, low, high⟩ := p
  obtain ⟨missing, rfl⟩ := Nat.exists_eq_succ_of_ne_zero unfinished
  have range := accepts_iff.mp accepted
  exact spelled byte range.1 range.2

/-- There are bytes in the range that the next byte of a sequence has to lie in. -/
def Pending.Completable (p : Pending) : Prop := p.low ≤ p.high ∧ p.high ≤ 0xBF

theorem completable_of_lead {byte : UInt8} {p : Pending} (h : lead? byte = some p) :
    p.Completable := by
  rcases lead?_eq_some_iff.mp h with ⟨-, rfl⟩ | ⟨-, rfl⟩ | ⟨-, rfl⟩ | ⟨-, rfl⟩
  · simp [Pending.Completable]
  · simp [Pending.Completable]
  · dsimp only [Pending.Completable]
    split <;> split <;> omega
  · dsimp only [Pending.Completable]
    split <;> split <;> omega

theorem completable_push (p : Pending) (byte : UInt8) : (p.push byte).Completable :=
  ⟨(by decide : 0x80 ≤ 0xBF), Nat.le_refl 0xBF⟩

theorem Opens.left {bytes more : Bytes} (h : Opens (bytes ++ more)) : Opens bytes := by
  obtain ⟨c, behind, nonempty, spelled⟩ := h
  exact ⟨c, more ++ behind, by simp [nonempty], by rw [spelled, List.append_assoc]⟩

theorem opens_of_spells {missing bits low high : Nat} {read : Bytes}
    (h : Spells (missing + 1) bits low high read) (range : low ≤ high) (top : high ≤ 0xBF) :
    Opens read := by
  -- The least byte of each range completes the character.
  have least : (UInt8.ofNat low).toNat = low := toNat_ofNat_of_lt low (by omega)
  have spelled := h (UInt8.ofNat low) (by omega) (by omega)
  induction missing generalizing bits low high read with
  | zero => exact ⟨_, [UInt8.ofNat low], by simp, spelled⟩
  | succ missing ih =>
      have least : (UInt8.ofNat 0x80).toNat = 0x80 := rfl
      exact (ih spelled (by decide) (by decide) least (spelled _ (by decide) (by decide))).left

/-- What has been read of a sequence: however the bytes go on, it is taken up where it was left. -/
structure Underway (p : Pending) (read : Bytes) : Prop where
  completable : p.Completable
  unfinished : p.missing ≠ 0
  spelled : Spells p.missing p.bits p.low p.high read
  resumes : ∀ rest, pieces (read ++ rest) = piecesFrom (some p) rest

theorem underway_of_lead {byte : UInt8} {p : Pending} (lead : lead? byte = some p)
    (unfinished : p.missing ≠ 0) : Underway p [byte] where
  completable := completable_of_lead lead
  unfinished := unfinished
  spelled := spells_of_lead lead
  resumes rest := by
    rw [pieces, List.singleton_append, piecesFrom_of_opened lead, settle_of_unfinished unfinished]
    rfl

section Underway

variable {p : Pending} {byte : UInt8} {read rest : Bytes}

theorem Underway.push (h : Underway p read) (accepted : p.accepts byte = true)
    (unfinished : (p.push byte).missing ≠ 0) : Underway (p.push byte) (read ++ [byte]) where
  completable := completable_push p byte
  unfinished := unfinished
  spelled := spells_push h.unfinished h.spelled accepted
  resumes rest := by
    rw [List.append_assoc, h.resumes, List.singleton_append, piecesFrom_of_accepted accepted,
      settle_of_unfinished unfinished]
    rfl

theorem Underway.opens (h : Underway p read) : Opens read := by
  obtain ⟨missing, more⟩ := Nat.exists_eq_succ_of_ne_zero h.unfinished
  have spelled := h.spelled
  rw [more] at spelled
  exact opens_of_spells spelled h.completable.1 h.completable.2

theorem Underway.ne_nil (h : Underway p read) : read ≠ [] := by
  rintro rfl
  have read := h.resumes []
  contradiction

/--
Bytes are a fault if they can only be read as one, whatever comes behind the byte that follows them.
-/
theorem fault_of_stuck {subpart rest : Bytes} (nonempty : subpart ≠ [])
    (opens : Opens subpart ∨ subpart.length = 1)
    (stuck : ∀ more : Bytes, more.head? = rest.head? →
      ∃ items, pieces (subpart ++ more) = none :: items) : Fault subpart rest where
  nonempty := nonempty
  opens := opens
  unreadable c := by
    rintro ⟨behind, whole⟩
    obtain ⟨items, read⟩ := stuck rest rfl
    rw [← whole, pieces, piecesFrom_encodeChar] at read
    simp at read
  longest other := by
    rintro starts ⟨c, behind, -, spelled⟩
    refine Nat.not_lt.mp fun longer => ?_
    obtain ⟨more, rfl⟩ := List.prefix_of_prefix_length_le (List.prefix_append subpart rest) starts
      (Nat.le_of_lt longer)
    obtain ⟨last, rfl⟩ := (List.prefix_append_right_inj subpart).mp starts
    cases more with
    | nil => simp at longer
    | cons byte more =>
        obtain ⟨items, read⟩ := stuck (byte :: more ++ behind) rfl
        rw [← List.append_assoc, ← spelled, pieces_encodeChar] at read
        simp at read

theorem fault_of_unopened (h : lead? byte = none) (rest : Bytes) : Fault [byte] rest :=
  fault_of_stuck (List.cons_ne_nil byte []) (.inr rfl) fun more _ =>
    ⟨piecesFrom none more, piecesFrom_of_unopened h⟩

theorem Underway.fault (h : Underway p read)
    (refused : ∀ byte ∈ rest.head?, p.accepts byte = false) : Fault read rest := by
  refine fault_of_stuck h.ne_nil (.inl h.opens) fun more same => ?_
  rw [h.resumes]
  cases more with
  | nil => exact ⟨[], rfl⟩
  | cons byte more => exact ⟨_, piecesFrom_of_refused (refused byte same.symm)⟩

theorem reading_settle (spelled : Spells p.missing p.bits p.low p.high read)
    (finished : Reading rest (pieces rest))
    (unfinished : p.missing ≠ 0 → Reading (read ++ rest) (piecesFrom (some p) rest)) :
    Reading (read ++ rest) (p.settle.1 ++ piecesFrom p.settle.2 rest) := by
  by_cases last : p.missing = 0
  · rw [last] at spelled
    rw [settle_of_finished last, ← spelled]
    exact .character _ finished
  · rw [settle_of_unfinished last]
    exact unfinished last

end Underway

theorem reading_piecesFrom (bytes : Bytes) :
    Reading bytes (pieces bytes) ∧ ∀ p read, Underway p read →
      Reading (read ++ bytes) (piecesFrom (some p) bytes) := by
  -- On the bytes still to be read, between characters and within one at once.
  induction bytes with
  | nil => exact ⟨.done, fun p read underway => .fault (underway.fault (by simp)) .done⟩
  | cons byte rest ih =>
      obtain ⟨between, within⟩ := ih
      have opened : Reading (byte :: rest) (pieces (byte :: rest)) := by
        cases lead : lead? byte with
        | none =>
            rw [pieces, piecesFrom_of_unopened lead]
            exact .fault (fault_of_unopened lead rest) between
        | some p =>
            rw [pieces, piecesFrom_of_opened lead]
            exact reading_settle (spells_of_lead lead) between fun unfinished =>
              within p [byte] (underway_of_lead lead unfinished)
      refine ⟨opened, fun p read underway => ?_⟩
      cases accepted : p.accepts byte with
      | false =>
          rw [piecesFrom_of_refused accepted]
          exact .fault (underway.fault (by simp [accepted])) opened
      | true =>
          rw [piecesFrom_of_accepted accepted, List.append_cons]
          exact reading_settle (spells_push underway.unfinished underway.spelled accepted) between
            fun unfinished => within _ _ (underway.push accepted unfinished)

theorem reading_pieces (bytes : Bytes) : Reading bytes (pieces bytes) :=
  (reading_piecesFrom bytes).1

theorem reading_iff {bytes : Bytes} {items : List (Option Char)} :
    Reading bytes items ↔ pieces bytes = items :=
  ⟨(reading_pieces bytes).unique, fun same => same ▸ reading_pieces bytes⟩

/-! ## Bytes that are characters by themselves -/

section Single

variable {separator : UInt8}

/-- What a character begins with never goes on over a byte that is a character by itself. -/
theorem prefix_of_append_single (single : separator.toNat < 0x80) {c : Char}
    {other bytes rest : Bytes} (begins : other <+: String.utf8EncodeChar c) (nonempty : bytes ≠ [])
    (h : other <+: bytes ++ separator :: rest) : other <+: bytes := by
  refine List.prefix_of_prefix_length_le h (List.prefix_append bytes _) ?_
  refine Nat.not_lt.mp fun longer => ?_
  have starts : bytes ++ [separator] <+: bytes ++ separator :: rest :=
    ⟨rest, (List.append_cons bytes separator rest).symm⟩
  have reached : bytes ++ [separator] <+: other :=
    List.prefix_of_prefix_length_le starts h (by simpa using Nat.succ_le_of_lt longer)
  obtain ⟨behind, whole⟩ := reached.trans begins
  obtain ⟨first, following, shape, -, inside⟩ := exists_encodeChar_eq c
  obtain ⟨start, bytes, rfl⟩ := List.exists_cons_of_ne_nil nonempty
  rw [shape] at whole
  have mem : separator ∈ following := by
    rw [← (List.cons.inj whole).2]
    simp
  exact absurd single (Nat.not_lt.mpr (inside separator mem).1)

theorem Fault.append_single (single : separator.toNat < 0x80) {subpart rest : Bytes}
    (h : Fault subpart rest) (more : Bytes) : Fault subpart (rest ++ separator :: more) where
  nonempty := h.nonempty
  opens := h.opens
  unreadable c starts := by
    rw [← List.append_assoc] at starts
    exact h.unreadable c (prefix_of_append_single single (List.prefix_refl _)
      (List.append_ne_nil_of_left_ne_nil h.nonempty rest) starts)
  longest other starts opens := by
    rw [← List.append_assoc] at starts
    have ⟨c, behind, _, spelled⟩ := opens
    exact h.longest other (prefix_of_append_single single ⟨behind, spelled.symm⟩
      (List.append_ne_nil_of_left_ne_nil h.nonempty rest) starts) opens

theorem Reading.append_single (single : separator.toNat < 0x80) {bytes more : Bytes}
    {items others : List (Option Char)} (h : Reading bytes items)
    (h' : Reading (separator :: more) others) :
    Reading (bytes ++ separator :: more) (items ++ others) := by
  induction h with
  | done => exact h'
  | character c _ ih =>
      rw [List.append_assoc]
      exact .character c ih
  | fault fault _ ih =>
      rw [List.append_assoc]
      exact .fault (fault.append_single single more) ih

end Single

end ServerEntry.Text.Utf8
