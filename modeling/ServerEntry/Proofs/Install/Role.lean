import ServerEntry.Install.Role
import ServerEntry.Proofs.Path.Components
import ServerEntry.Proofs.Text.Utf8

/-!
# The programs of the roles

The program of a role lies in the program directory itself, under a name that no other role has.
The variable that overrides it goes by the same name.
-/

namespace ServerEntry.Role

open Text ServerEntry.Path

variable {role other : Role}

theorem program_eq (role : Role) (override : Option Bytes) (directory : Bytes) :
    role.program override (some directory) =
      (override.filter (· ≠ [])).getD (push directory (Utf8.encode role.fileName)) := by
  rcases override with _ | (_ | ⟨byte, bytes⟩) <;> rfl

/-! ## Names -/

/-- How the name of a variable spells a character of a file name. -/
def capital (c : Char) : Char := if c = '-' then '_' else c.toUpper

theorem overrideVariable_eq (role : Role) :
    role.overrideVariable = String.ofList (role.fileName.toList.map capital) ++ "_PROGRAM" := by
  cases role <;> decide

theorem fileName_inj : role.fileName = other.fileName ↔ role = other := by
  cases role <;> cases other <;> decide

/-! ## Places -/

theorem components_fileName (role : Role) :
    components (Utf8.encode role.fileName) = [.name (Utf8.encode role.fileName)] := by
  cases role <;> decide

theorem components_installed (role : Role) (directory : Bytes) :
    components (role.installed (some directory)) =
      components directory ++ [.name (Utf8.encode role.fileName)] := by
  rw [installed, components_push, components_fileName]
  rfl

/-- Wherever the programs are, each role has one of its own. -/
theorem installed_inj {directory : Option Bytes} :
    role.installed directory = other.installed directory ↔ role = other := by
  refine ⟨fun same => ?_, congrArg (installed · directory)⟩
  cases directory with
  | none => exact fileName_inj.mp (Utf8.encode_inj.mp same)
  | some directory =>
      have ended := congrArg components same
      rw [components_installed, components_installed, List.append_cancel_left_eq] at ended
      simpa [fileName_inj] using ended

end ServerEntry.Role
