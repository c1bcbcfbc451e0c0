import ServerEntry.Proofs.Text.Utf8

/-!
# Places in a text, counted in bytes

A text can be cut at an offset only between two of its characters.  Whether an offset lies there
can be told from the byte at it, since the bytes that continue a character are in a range of their
own.
-/

namespace ServerEntry.Text.Utf8

def size (text : String) : Nat := (encode text).length

/-- The parts of a text before and behind an offset; `none` if it does not lie between characters. -/
def cutAt? (text : String) (offset : Nat) : Option (String × String) :=
  if offset ≤ size text then
    (decode? ((encode text).take offset)).bind fun before =>
      (decode? ((encode text).drop offset)).map fun after => (before, after)
  else none

def continues (byte : UInt8) : Bool := 0x80 ≤ byte.toNat && byte.toNat < 0xC0

/-- Whether no character goes on at an offset: one starts there, or the text ends. -/
def isBoundary (bytes : Bytes) (offset : Nat) : Bool :=
  match bytes[offset]? with
  | some byte => !continues byte
  | none => offset = bytes.length

/-- Where a character starts for the last time. -/
def lastOffset? (c : Char) (text : String) : Option Nat :=
  match text.toList.reverse.dropWhile (· != c) with
  | [] => none
  | _ :: before => some (size (.ofList before.reverse))

@[simp] theorem size_append (text other : String) : size (text ++ other) = size text + size other := by
  simp [size, encode_append]

theorem size_eq_zero_iff {text : String} : size text = 0 ↔ text = "" := by
  have empty : encode text = encode "" ↔ text = "" := encode_inj
  rw [size, List.length_eq_zero_iff, ← empty]
  rfl

theorem length_encode_ascii {chars : List Char} (h : ∀ c ∈ chars, c.toNat < 0x80) :
    (chars.flatMap String.utf8EncodeChar).length = chars.length := by
  induction chars with
  | nil => rfl
  | cons c rest ih =>
      obtain ⟨small, others⟩ := List.forall_mem_cons.mp h
      have single : c.val.toNat ≤ 0x7F := Nat.le_of_lt_succ small
      rw [List.flatMap_cons, List.length_append, ih others, List.length_cons, String.utf8EncodeChar,
        if_pos single, List.length_singleton, Nat.add_comm]

/-! ## Cutting -/

theorem cutAt?_eq_some_iff {text before after : String} {offset : Nat} :
    cutAt? text offset = some (before, after) ↔ text = before ++ after ∧ size before = offset := by
  unfold cutAt?
  constructor
  · intro h
    split at h
    · rename_i within
      obtain ⟨_, read, h⟩ := Option.bind_eq_some_iff.mp h
      obtain ⟨_, read', same⟩ := Option.map_eq_some_iff.mp h
      cases same
      rw [decode?_eq_some_iff] at read read'
      constructor
      · rw [← encode_inj, encode_append, ← read, ← read', List.take_append_drop]
      · rw [size, ← read, List.length_take]
        exact Nat.min_eq_left within
    · contradiction
  · rintro ⟨rfl, rfl⟩
    simp [size, encode_append]

/-! ## Boundaries -/

theorem encodeChar_eq (c : Char) :
    ∃ lead following, String.utf8EncodeChar c = lead :: following ∧ continues lead = false ∧
      ∀ byte ∈ following, continues byte := by
  obtain ⟨lead, following, shape, starts, inside⟩ := exists_encodeChar_eq c
  refine ⟨lead, following, shape, ?_, fun byte mem => ?_⟩
  · simp only [continues, Bool.and_eq_false_iff, decide_eq_false_iff_not]
    omega
  · simp [continues, inside byte mem]

theorem isBoundary_append (bytes rest : Bytes) (offset : Nat) :
    isBoundary (bytes ++ rest) (bytes.length + offset) = isBoundary rest offset := by
  simp [isBoundary, List.getElem?_append_right]

theorem isBoundary_encode_zero (text : String) : isBoundary (encode text) 0 := by
  unfold encode
  cases text.toList with
  | nil => rfl
  | cons c rest =>
      obtain ⟨lead, following, shape, starts, -⟩ := encodeChar_eq c
      simp [isBoundary, List.flatMap_cons, shape, starts]

theorem exists_of_isBoundary {chars : List Char} {offset : Nat}
    (h : isBoundary (chars.flatMap String.utf8EncodeChar) offset) :
    ∃ before after, chars = before ++ after ∧
      (before.flatMap String.utf8EncodeChar).length = offset := by
  induction chars generalizing offset with
  | nil => exact ⟨[], [], rfl, by simpa [isBoundary, eq_comm] using h⟩
  | cons c rest ih =>
      obtain ⟨lead, following, shape, -, inside⟩ := encodeChar_eq c
      cases offset with
      | zero => exact ⟨[], c :: rest, rfl, rfl⟩
      | succ offset =>
          rw [List.flatMap_cons] at h
          by_cases within : offset < following.length
          -- The byte at the offset continues the first character.
          · have there (bytes : Bytes) :
                (String.utf8EncodeChar c ++ bytes)[offset + 1]? = some following[offset] := by
              rw [shape, List.cons_append, List.getElem?_cons_succ, List.getElem?_append_left within,
                List.getElem?_eq_getElem within]
            have continued := inside _ (List.getElem_mem within)
            simp [isBoundary, there, continued] at h
          · have behind : (String.utf8EncodeChar c).length + (offset - following.length) =
                offset + 1 := by
              rw [shape, List.length_cons]
              omega
            rw [← behind, isBoundary_append] at h
            obtain ⟨before, after, rfl, length⟩ := ih h
            refine ⟨c :: before, after, rfl, ?_⟩
            rw [List.flatMap_cons, List.length_append, length, behind]

/-- The byte at an offset tells whether a text can be cut there. -/
theorem isBoundary_iff {text : String} {offset : Nat} :
    isBoundary (encode text) offset ↔ ∃ before after, cutAt? text offset = some (before, after) := by
  simp only [cutAt?_eq_some_iff]
  constructor
  · intro h
    obtain ⟨before, after, whole, length⟩ := exists_of_isBoundary h
    refine ⟨.ofList before, .ofList after, String.toList_inj.mp (by simpa using whole), ?_⟩
    simpa [size, encode] using length
  · rintro ⟨before, after, rfl, rfl⟩
    rw [encode_append, ← Nat.add_zero (size before), size, isBoundary_append]
    exact isBoundary_encode_zero after

/-! ## Searching from the end -/

theorem bne_of_mem_reverse {c : Char} {chars : List Char} (h : c ∉ chars) :
    ∀ d ∈ chars.reverse, (d != c) = true := by
  intro d mem
  exact bne_iff_ne.mpr fun same => h (same ▸ List.mem_reverse.mp mem)

theorem lastOffset?_of_notMem {c : Char} {text : String} (h : c ∉ text.toList) :
    lastOffset? c text = none := by
  have absent : text.toList.reverse.dropWhile (· != c) = [] := by
    rw [← List.append_nil text.toList.reverse]
    exact List.dropWhile_append_of_pos (bne_of_mem_reverse h)
  rw [lastOffset?, absent]

theorem lastOffset?_append {c : Char} {before after : List Char} (h : c ∉ after) :
    lastOffset? c (.ofList (before ++ c :: after)) = some (size (.ofList before)) := by
  have found : (before ++ c :: after).reverse.dropWhile (· != c) = c :: before.reverse := by
    rw [List.reverse_append, List.reverse_cons, List.append_assoc,
      List.dropWhile_append_of_pos (bne_of_mem_reverse h)]
    simp
  simp only [lastOffset?, String.toList_ofList, found, List.reverse_reverse]

end ServerEntry.Text.Utf8
