import ServerEntry.Proofs.Path.Relocation
import ServerEntry.Proofs.Variables

/-!
# Exporting the service directories

A directory variable that is set stays as it is, and one that is missing is given its place in the
installation, so after an export there is nothing left to export.  The two directories are looked
for apart, but both layouts part from the program directory at the same place, so they are found in
one installation.
-/

namespace ServerEntry.ServiceDirectories

open Text

variable (env : Variables) (current : Option Bytes) (localizes : Bool)

def installed : Variables := env.assignEach (missing env current localizes)

theorem catalogVariable_ne : catalogVariable ≠ configurationVariable := by decide

theorem missing_congr {env other : Variables} {current : Option Bytes} {localizes : Bool}
    (configuration : env.value? configurationVariable = other.value? configurationVariable)
    (catalogs : env.value? catalogVariable = other.value? catalogVariable) :
    missing env current localizes = missing other current localizes := by
  simp only [missing, configuration, catalogs]

theorem value?_installed_configuration (directory : Bytes) :
    (installed env (some directory) localizes).value? configurationVariable =
      some ((env.value? configurationVariable).getD
        (located Build.configurationDirectory directory)) := by
  simp only [installed, missing, exports, Variables.assignEach_append]
  cases held : env.value? configurationVariable <;> split <;> simp [held, catalogVariable_ne]

theorem value?_installed_catalogs (directory : Bytes) :
    (installed env (some directory) true).value? catalogVariable =
      some ((env.value? catalogVariable).getD (located Build.catalogDirectory directory)) := by
  cases held : env.value? catalogVariable <;>
    cases configured : env.value? configurationVariable <;>
    simp [installed, missing, exports, held, configured, catalogVariable_ne.symm]

theorem mem_missing_iff {assignment : String × Bytes} :
    assignment ∈ missing env current localizes ↔
      ∃ directory, current = some directory ∧
        ((localizes ∧ env.value? catalogVariable = none) ∧
            assignment = (catalogVariable, located Build.catalogDirectory directory) ∨
          env.value? configurationVariable = none ∧
            assignment = (configurationVariable, located Build.configurationDirectory directory)) := by
  cases current <;> simp [missing, exports, apply_ite (assignment ∈ ·)]

theorem get?_installed_of_ne {name : Bytes}
    (configuration : Utf8.encode configurationVariable ≠ name)
    (catalogs : localizes → Utf8.encode catalogVariable ≠ name) :
    (installed env current localizes).get? name = env.get? name := by
  apply Variables.get?_assignEach_of_forall_ne
  intro assignment mem
  obtain ⟨directory, -, ⟨wanted, rfl⟩ | ⟨-, rfl⟩⟩ := (mem_missing_iff ..).mp mem
  · exact catalogs wanted.1
  · exact configuration

theorem missing_installed : missing (installed env current localizes) current localizes = [] := by
  cases current with
  | none => rfl
  | some directory =>
      have configured := value?_installed_configuration env localizes directory
      cases localizes with
      | false => simp [missing, exports, configured]
      | true =>
          have catalogs := value?_installed_catalogs env directory
          simp [missing, exports, configured, catalogs]

/-! ## One installation -/

open ServerEntry.Path

/-- Where the installation begins that a program directory belongs to. -/
def beginning (directory : Bytes) : List Component :=
  if (components directory).getLast? = some (.name (Utf8.encode "bin")) then
    (components directory).dropLast
  else components (Utf8.encode "/usr/local/pgsql")

theorem components_located {target : String} {rest : List Component}
    (layout : components (Utf8.encode target) =
      components (Utf8.encode "/usr/local/pgsql") ++ rest)
    (apart : .name (Utf8.encode "bin") ∉ rest.head?) (directory : Bytes) :
    components (located target directory) = beginning directory ++ rest := by
  have programs : components (Utf8.encode Build.programDirectory) =
      components (Utf8.encode "/usr/local/pgsql") ++ [.name (Utf8.encode "bin")] := by decide
  have parting : Parting (components (Utf8.encode target))
      (components (Utf8.encode Build.programDirectory))
      (components (Utf8.encode "/usr/local/pgsql")) rest [.name (Utf8.encode "bin")] := by
    rw [layout, programs]
    refine .of_apart _ fun first mem same => apart ?_
    rwa [← Option.some.inj same] at mem
  have inner : ∀ part ∈ rest, part.Inner :=
    (layout ▸ components_proper (Utf8.encode target)).inner (by decide)
  unfold located beginning
  split
  · rename_i moved
    obtain ⟨parts, whole⟩ := List.getLast?_eq_some_iff.mp moved
    rw [components_relocate_of_ending parting whole, extend_of_forall_inner inner, whole,
      List.dropLast_concat]
  · rename_i unmoved
    have elsewhere : ¬ ∃ parts, components directory = parts ++ [.name (Utf8.encode "bin")] :=
      mt List.getLast?_eq_some_iff.mpr unmoved
    rw [relocate_of_elsewhere parting elsewhere, layout]

theorem value?_of_mem_missing {assignment : String × Bytes}
    (h : assignment ∈ missing env current localizes) : env.value? assignment.1 = none := by
  obtain ⟨directory, -, ⟨wanted, rfl⟩ | ⟨absent, rfl⟩⟩ := (mem_missing_iff ..).mp h
  · exact wanted.2
  · exact absent

/-- What the environment holds already is not overridden. -/
theorem get?_install_of_get? {name value : Bytes} (held : env.get? name = some value) :
    (install env (missing env current localizes)).get? name = some value := by
  rw [install_eq_assignEach, Variables.get?_assignEach_of_forall_ne, held]
  rintro assignment mem rfl
  have absent : env.get? (Utf8.encode assignment.1) = none :=
    value?_of_mem_missing env current localizes mem
  exact Option.some_ne_none value (held.symm.trans absent)

/--
Each directory variable is exported exactly if it is absent, the one for catalogs in localized
builds only, and both directories lie behind one beginning: that of the moved installation, if the
program directory ends in `bin`, and else that of the layout.  No variable is overridden, and a
second export finds nothing to do.
-/
theorem exports_consistent (configuration catalogs current : Option Bytes) (localizes : Bool) :
    exports configuration catalogs none localizes = [] ∧
    (∀ directory, ∃ catalogPath configurationPath,
      components catalogPath =
        beginning directory ++ [.name (Utf8.encode "share"), .name (Utf8.encode "locale")] ∧
      components configurationPath = beginning directory ++ [.name (Utf8.encode "etc")] ∧
      exports configuration catalogs (some directory) localizes =
        (if localizes ∧ catalogs = none then [("PGLOCALEDIR", catalogPath)] else []) ++
          (if configuration = none then [("PGSYSCONFDIR", configurationPath)] else [])) ∧
    ∀ env : Variables,
      (∀ name value, env.get? name = some value →
        (install env (missing env current localizes)).get? name = some value) ∧
      missing (install env (missing env current localizes)) current localizes = [] := by
  refine ⟨rfl, fun directory => ?_, fun env => ⟨fun name value => ?_, ?_⟩⟩
  · exact ⟨_, _, components_located (by decide) (by decide) directory,
      components_located (by decide) (by decide) directory, rfl⟩
  · exact get?_install_of_get? env current localizes
  · rw [install_eq_assignEach]
    exact missing_installed env current localizes

/-- Slashes and dots behind `bin` do not count, but a way back does. -/
example :
    let located (directory : String) := located Build.configurationDirectory (Utf8.encode directory)
    located "/opt/./bin//" = Utf8.encode "/opt/etc" ∧ located "bin" = Utf8.encode "etc" ∧
      located "/opt/bin/.." = Utf8.encode "/usr/local/pgsql/etc" := by
  decide

end ServerEntry.ServiceDirectories
