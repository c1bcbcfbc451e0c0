import ServerEntry.Install.Build
import ServerEntry.Path.Relocation
import ServerEntry.Variables

/-!
The directories that roles and client libraries find through the environment.
-/

namespace ServerEntry.ServiceDirectories

def configurationVariable : String := "PGSYSCONFDIR"

def catalogVariable : String := "PGLOCALEDIR"

/-- A directory of the layout, for a program that runs from `current`. -/
def located (directory : String) (current : Bytes) : Bytes :=
  Path.relocate (Text.Utf8.encode directory) (Text.Utf8.encode Build.programDirectory) current

/--
What is to be exported, given the values the two variables have already.  A variable that is set, if
only to nothing, is left alone, and nothing is exported from an unknown directory.
-/
def exports (configuration catalogs current : Option Bytes) (localizes : Bool) :
    List (String × Bytes) :=
  match current with
  | none => []
  | some current =>
      (if localizes ∧ catalogs = none then
        [(catalogVariable, located Build.catalogDirectory current)] else []) ++
      (if configuration = none then
        [(configurationVariable, located Build.configurationDirectory current)] else [])

def missing (env : Variables) (current : Option Bytes) (localizes : Bool) :
    List (String × Bytes) :=
  exports (env.value? configurationVariable) (env.value? catalogVariable) current
    localizes

def install (env : Variables) (assignments : List (String × Bytes)) : Variables :=
  assignments.foldl (fun env assignment => env.assign assignment.1 assignment.2)
    env

end ServerEntry.ServiceDirectories
