import ServerEntry.Proofs.Text.Reading

/-!
# Strict and lossy reading

The bytes of a text are read as that text, and bytes that are read as a text are the bytes of it.
So distinct texts have distinct bytes, and a comparison of texts is a comparison of bytes.  Lossy
reading agrees where there is a text, and anything else it shows with a replacement in it.
-/

namespace ServerEntry.Text.Utf8

/-! ## Strict reading -/

theorem pieces_encode_append (text : String) (rest : Bytes) :
    pieces (encode text ++ rest) = text.toList.map some ++ pieces rest := by
  rw [pieces, encode]
  induction text.toList with
  | nil => rfl
  | cons c chars ih =>
      rw [List.flatMap_cons, List.append_assoc, piecesFrom_encodeChar, ih, List.map_cons,
        List.cons_append]

theorem pieces_encode (text : String) : pieces (encode text) = text.toList.map some := by
  simpa [pieces, piecesFrom] using pieces_encode_append text []

theorem Reading.eq_flatMap {bytes : Bytes} {chars : List Char}
    (h : Reading bytes (chars.map some)) : bytes = chars.flatMap String.utf8EncodeChar := by
  generalize spelled : chars.map some = items at h
  induction h generalizing chars with
  | done => rw [List.map_eq_nil_iff.mp spelled, List.flatMap_nil]
  | character c _ ih =>
      obtain ⟨_, others, rfl, same, more⟩ := List.map_eq_cons_iff.mp spelled
      rw [Option.some.inj same, List.flatMap_cons, ih more]
  | fault _ _ _ =>
      obtain ⟨_, _, _, lost, -⟩ := List.map_eq_cons_iff.mp spelled
      contradiction

theorem mapM_id_eq_some_iff {α : Type} {items : List (Option α)} {values : List α} :
    items.mapM id = some values ↔ items = values.map some := by
  induction items generalizing values with
  | nil => cases values <;> simp
  | cons item items ih =>
      cases values with
      | nil => simp [Option.bind_eq_some_iff]
      | cons value values => simp [Option.bind_eq_some_iff, ih]

/-- Strict reading: a byte string is read as a text exactly if it is what the text is written as. -/
theorem decode?_eq_some_iff {bytes : Bytes} {text : String} :
    decode? bytes = some text ↔ bytes = encode text := by
  constructor
  · intro h
    obtain ⟨chars, read, rfl⟩ := Option.map_eq_some_iff.mp h
    rw [mapM_id_eq_some_iff, ← reading_iff] at read
    rw [read.eq_flatMap, encode, String.toList_ofList]
  · rintro rfl
    rw [decode?, mapM_id_eq_some_iff.mpr (pieces_encode text)]
    simp

@[simp] theorem decode?_encode (text : String) : decode? (encode text) = some text :=
  decode?_eq_some_iff.mpr rfl

@[simp] theorem encode_inj {text other : String} : encode text = encode other ↔ text = other := by
  constructor
  · intro h
    have read : some text = some other := by rw [← decode?_encode text, h, decode?_encode]
    exact Option.some.inj read
  · rintro rfl
    rfl

/-! ## Well-formed bytes -/

def WellFormed (bytes : Bytes) : Prop := ∃ text, bytes = encode text

theorem wellFormed_encode (text : String) : WellFormed (encode text) := ⟨text, rfl⟩

theorem encode_append (text other : String) :
    encode (text ++ other) = encode text ++ encode other := by
  simp [encode]

/-- Between the bytes of texts, a beginning never ends inside a character. -/
theorem encode_prefix_iff {text other : String} :
    encode text <+: encode other ↔ text.toList <+: other.toList := by
  constructor
  · rintro ⟨rest, whole⟩
    have read : text.toList.map some ++ pieces rest = other.toList.map some := by
      rw [← pieces_encode_append, whole, pieces_encode]
    obtain ⟨before, after, cut, same, -⟩ := List.map_eq_append_iff.mp read.symm
    obtain rfl : before = text.toList := (List.map_inj_right fun _ _ => Option.some.inj).mp same
    exact ⟨after, cut.symm⟩
  · rintro ⟨rest, whole⟩
    refine ⟨encode (String.ofList rest), ?_⟩
    rw [← encode_append]
    exact congrArg encode (String.toList_inj.mp (by simpa using whole))

/-! ## Lossy reading -/

def ShownAs (bytes : Bytes) (text : String) : Prop :=
  ∃ items, Reading bytes items ∧ text.toList = items.map (·.getD '\uFFFD')

theorem decodeLossy_eq_iff {bytes : Bytes} {text : String} :
    decodeLossy bytes = text ↔ ShownAs bytes text := by
  rw [← String.toList_inj, decodeLossy, String.toList_ofList]
  constructor
  · intro shown
    exact ⟨pieces bytes, reading_iff.mpr rfl, shown.symm⟩
  · rintro ⟨items, reading, shown⟩
    rw [reading_iff.mp reading, shown]
    rfl

theorem decode?_of_faultless {bytes : Bytes} (h : none ∉ pieces bytes) :
    decode? bytes = some (decodeLossy bytes) := by
  have kept : ∀ item ∈ pieces bytes, item = some (item.getD replacement) := by
    intro item mem
    cases item with
    | none => exact absurd mem h
    | some c => rfl
  have characters : pieces bytes = ((pieces bytes).map (·.getD replacement)).map some :=
    calc pieces bytes
      _ = (pieces bytes).map id := (List.map_id _).symm
      _ = (pieces bytes).map (some ∘ (·.getD replacement)) := List.map_congr_left kept
      _ = ((pieces bytes).map (·.getD replacement)).map some := List.map_map.symm
  rw [decode?, mapM_id_eq_some_iff.mpr characters]
  rfl

theorem wellFormed_iff {bytes : Bytes} : WellFormed bytes ↔ none ∉ pieces bytes := by
  constructor
  · rintro ⟨text, rfl⟩
    simp [pieces_encode]
  · intro faultless
    exact ⟨_, decode?_eq_some_iff.mp (decode?_of_faultless faultless)⟩

@[simp] theorem decodeLossy_encode (text : String) : decodeLossy (encode text) = text := by
  simp [decodeLossy, pieces_encode, Function.comp_def]

theorem encode_decodeLossy_eq_iff {bytes : Bytes} :
    encode (decodeLossy bytes) = bytes ↔ WellFormed bytes := by
  constructor
  · intro same
    exact ⟨_, same.symm⟩
  · rintro ⟨text, rfl⟩
    rw [decodeLossy_encode]

theorem replacement_mem_decodeLossy {bytes : Bytes} (h : ¬ WellFormed bytes) :
    replacement ∈ (decodeLossy bytes).toList := by
  rw [wellFormed_iff, Decidable.not_not] at h
  rw [decodeLossy, String.toList_ofList]
  exact List.mem_map.mpr ⟨none, h, rfl⟩

/-! ## Separators -/

section Separator

variable {separator : UInt8}

theorem pieces_append_single (single : separator.toNat < 0x80) (bytes rest : Bytes) :
    pieces (bytes ++ separator :: rest) =
      pieces bytes ++ some (Char.ofNat separator.toNat) :: pieces rest := by
  have apart := (reading_pieces bytes).append_single single (reading_pieces (separator :: rest))
  rw [reading_iff.mp apart]
  exact congrArg (pieces bytes ++ ·) (piecesFrom_single single)

theorem decodeLossy_append_single (single : separator.toNat < 0x80) (bytes rest : Bytes) :
    (decodeLossy (bytes ++ separator :: rest)).toList =
      (decodeLossy bytes).toList ++ Char.ofNat separator.toNat :: (decodeLossy rest).toList := by
  simp [decodeLossy, pieces_append_single single]

theorem wellFormed_append_single_iff (single : separator.toNat < 0x80) (bytes rest : Bytes) :
    WellFormed (bytes ++ separator :: rest) ↔ WellFormed bytes ∧ WellFormed rest := by
  simp [wellFormed_iff, pieces_append_single single]

end Separator

end ServerEntry.Text.Utf8
