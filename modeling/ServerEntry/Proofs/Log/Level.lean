import ServerEntry.Log.Logger

/-!
# The texts that name a level

A level is read from its name in any case of ASCII letters, with white space around it, and from
nothing else.  A value that is read as no level is complained about.
-/

namespace ServerEntry.Log

open Text

namespace Level

/-- A level's name in some case of ASCII letters, with white space around it. -/
def Names (text : String) (level : Level) : Prop :=
  ∃ before word after : String, text = before ++ word ++ after ∧
    (∀ c ∈ before.toList, isBlank c) ∧ (∀ c ∈ after.toList, isBlank c) ∧
    word.toList.map Char.toLower = level.name.toList.map Char.toLower

theorem folded_injective {level other : Level} (h : level.folded = other.folded) :
    level = other := by
  revert h
  cases level <;> cases other <;> decide

theorem isAlpha_of_isAlpha_toLower {c : Char} (h : c.toLower.isAlpha) : c.isAlpha := by
  unfold Char.toLower at h
  split at h
  · rename_i upper
    have capital : c.isUpper := decide_eq_true upper
    exact Bool.or_eq_true_iff.mpr (.inl capital)
  · exact h

/-- Folding makes an ASCII letter of nothing but an ASCII letter. -/
theorem isAlpha_of_spelled {word : List Char} {level : Level}
    (spelled : word.map Char.toLower = level.folded) : ∀ c ∈ word, c.isAlpha := by
  have letters : level.folded.all Char.isAlpha := by cases level <;> decide
  intro c mem
  apply isAlpha_of_isAlpha_toLower
  exact List.all_eq_true.mp letters _ (spelled ▸ List.mem_map_of_mem mem)

theorem folded_of_parse? {text : String} {level : Level} (h : parse? text = some level) :
    (trim text.toList).map Char.toLower = level.folded := by
  dsimp only [parse?] at h
  have spelled := List.find?_some h
  exact (of_decide_eq_true spelled).symm

theorem parse?_of_folded {text : String} {level : Level}
    (h : (trim text.toList).map Char.toLower = level.folded) : parse? text = some level := by
  cases found : parse? text with
  | none =>
      dsimp only [parse?] at found
      simpa [h] using List.find?_eq_none.mp found level (mem_all level)
  | some other => rw [folded_injective ((folded_of_parse? found).symm.trans h)]

theorem parse?_eq_some_iff_names {text : String} {level : Level} :
    parse? text = some level ↔ Names text level := by
  constructor
  · intro found
    obtain ⟨before, after, cut, blank, blank'⟩ := exists_eq_trim text.toList
    refine ⟨.ofList before, .ofList (trim text.toList), .ofList after, ?_, by simpa, by simpa, ?_⟩
    · exact String.toList_inj.mp (by simpa using cut)
    · rw [String.toList_ofList]
      exact folded_of_parse? found
  · rintro ⟨before, word, after, rfl, blank, blank', spelled⟩
    have nonempty : word.toList ≠ [] := by
      intro empty
      rw [empty] at spelled
      cases level <;> contradiction
    have solid : ∀ c ∈ word.toList, isBlank c = false := fun c mem =>
      isBlank_of_isAlpha (isAlpha_of_spelled spelled c mem)
    apply parse?_of_folded
    rw [String.toList_append, String.toList_append, trim_append blank blank' nonempty solid]
    exact spelled

theorem Names.unique {text : String} {level other : Level} (h : Names text level)
    (h' : Names text other) : level = other := by
  rw [← parse?_eq_some_iff_names] at h h'
  exact Option.some.inj (h.symm.trans h')

theorem Names.isBlank_or_isAlpha {text : String} {level : Level} (h : Names text level) :
    ∀ c ∈ text.toList, isBlank c ∨ c.isAlpha := by
  obtain ⟨before, word, after, rfl, blank, blank', spelled⟩ := h
  intro c mem
  rw [String.toList_append, String.toList_append, List.mem_append, List.mem_append] at mem
  rcases mem with (first | within) | last
  · exact .inl (blank c first)
  · exact .inr (isAlpha_of_spelled spelled c within)
  · exact .inl (blank' c last)

end Level

theorem ignoring_ne_empty (text : String) : Logger.ignoring text ≠ "" := by
  unfold Logger.ignoring
  simp

theorem minimumFrom_of_unread {text : String} (h : Level.parse? text = none) :
    (Logger.minimumFrom (some text)).2 = Logger.ignoring text := by
  rw [Logger.minimumFrom, h]

theorem minimumFrom_of_read {text : String} {level : Level} (h : Level.parse? text = some level) :
    (Logger.minimumFrom (some text)).2 = "" := by
  rw [Logger.minimumFrom, h]

/--
A level is read from the texts that name it and from no others.  A text names one level at most,
and is made of white space and ASCII letters.  Asking for a minimum by any other text is complained
about, and by these texts it is not.
-/
theorem names_read (text : String) :
    (∀ level, Level.parse? text = some level ↔ Level.Names text level) ∧
    (∀ level other, Level.Names text level → Level.Names text other → level = other) ∧
    (∀ level, Level.Names text level → ∀ c ∈ text.toList, isBlank c ∨ c.isAlpha) ∧
    ((Logger.minimumFrom (some text)).2 =
        "WARNING:  ignoring environment variable setting POSTGRES_STARTUP_LOG_LEVEL=" ++ text ++
          ": not a valid log level\n" ↔
      ∀ level, ¬ Level.Names text level) ∧
    ((Logger.minimumFrom (some text)).2 = "" ↔ ∃ level, Level.Names text level) := by
  refine ⟨fun level => Level.parse?_eq_some_iff_names, fun level other => Level.Names.unique,
    fun level => Level.Names.isBlank_or_isAlpha, ?_⟩
  simp only [← Level.parse?_eq_some_iff_names]
  cases read : Level.parse? text with
  | none =>
      rw [minimumFrom_of_unread read]
      exact ⟨iff_of_true rfl nofun, iff_of_false (ignoring_ne_empty text) nofun⟩
  | some level =>
      rw [minimumFrom_of_read read]
      refine ⟨iff_of_false (ignoring_ne_empty text).symm fun unread => ?_, iff_of_true rfl ⟨_, rfl⟩⟩
      exact unread level rfl

/-- Letters that look or fold like those of a name are not among them. -/
example : Level.parse? "\u2003wArNiNg\u0085" = some .warning ∧ Level.parse? "d\u0435bug" = none ∧
    Level.parse? "\u0130nfo" = none := by
  decide

end ServerEntry.Log
