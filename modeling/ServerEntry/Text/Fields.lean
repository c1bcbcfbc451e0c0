import ServerEntry.Text.Utf8

/-!
Byte strings cut at a separator.
-/

namespace ServerEntry.Text

/-- The stretches between the separators, empty ones included. -/
def fields (separator : UInt8) : Bytes → List Bytes
  | [] => [[]]
  | byte :: rest =>
      if byte = separator then [] :: fields separator rest
      else
        match fields separator rest with
        | [] => [[byte]]
        | field :: more => (byte :: field) :: more

theorem fields_ne_nil (separator : UInt8) (bytes : Bytes) : fields separator bytes ≠ [] := by
  cases bytes with
  | nil => simp [fields]
  | cons byte rest =>
      by_cases same : byte = separator
      · simp [fields, same]
      · cases h : fields separator rest <;> simp [fields, same, h]

/-- The separators put back between the fields give the bytes back. -/
theorem intercalate_fields (separator : UInt8) (bytes : Bytes) :
    [separator].intercalate (fields separator bytes) = bytes := by
  induction bytes with
  | nil => rfl
  | cons byte rest ih =>
      cases h : fields separator rest with
      | nil => exact absurd h (fields_ne_nil separator rest)
      | cons field more =>
          rw [h] at ih
          by_cases same : byte = separator
          · rw [← ih]
            simp_all [fields, List.intercalate]
          · cases more <;> simp_all [fields, List.intercalate]

/-- A separator between two byte strings keeps their fields apart. -/
theorem fields_append_cons (separator : UInt8) (bytes others : Bytes) :
    fields separator (bytes ++ separator :: others) =
      fields separator bytes ++ fields separator others := by
  induction bytes with
  | nil => simp [fields]
  | cons byte rest ih =>
      by_cases same : byte = separator
      · simp [fields, same, ih]
      · cases h : fields separator rest with
        | nil => exact absurd h (fields_ne_nil separator rest)
        | cons field more => simp [fields, same, ih, h]

theorem fields_of_notMem {separator : UInt8} {bytes : Bytes} (h : separator ∉ bytes) :
    fields separator bytes = [bytes] := by
  induction bytes with
  | nil => rfl
  | cons byte rest ih =>
      obtain ⟨other, absent⟩ : separator ≠ byte ∧ separator ∉ rest := by simpa using h
      simp [fields, other.symm, ih absent]

theorem notMem_of_mem_fields {separator : UInt8} {bytes field : Bytes}
    (h : field ∈ fields separator bytes) : separator ∉ field := by
  induction bytes generalizing field with
  | nil =>
      obtain rfl : field = [] := by simpa [fields] using h
      exact List.not_mem_nil
  | cons byte rest ih =>
      by_cases same : byte = separator
      · rcases List.mem_cons.mp (by simpa [fields, same] using h) with rfl | later
        · exact List.not_mem_nil
        · exact ih later
      · cases cut : fields separator rest with
        | nil => exact absurd cut (fields_ne_nil separator rest)
        | cons first more =>
            rw [fields, if_neg same, cut] at h
            rcases List.mem_cons.mp h with rfl | later
            · simp [Ne.symm same, ih (cut ▸ List.mem_cons_self)]
            · exact ih (cut ▸ List.mem_cons_of_mem _ later)

end ServerEntry.Text
