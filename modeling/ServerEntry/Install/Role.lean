import ServerEntry.Path.Basic

/-!
The roles a server process can take on, and the programs that play them.
-/

namespace ServerEntry

inductive Role where
  | supervisor
  | singleSession
  | bootstrap
  | describeConfig
  | forkedWorker
  deriving DecidableEq, Repr

namespace Role

def all : List Role :=
  [.supervisor, .singleSession, .bootstrap, .describeConfig, .forkedWorker]

def title : Role → String
  | .supervisor => "supervisor"
  | .singleSession => "single-user"
  | .bootstrap => "bootstrap"
  | .describeConfig => "describe-config"
  | .forkedWorker => "forked worker"

def fileName : Role → String
  | .supervisor => "postgres-supervisor"
  | .singleSession => "postgres-single"
  | .bootstrap => "postgres-boot"
  | .describeConfig => "postgres-describe-config"
  | .forkedWorker => "postgres-forkchild"

/-- The environment variable that names another program for the role. -/
def overrideVariable : Role → String
  | .supervisor => "POSTGRES_SUPERVISOR_PROGRAM"
  | .singleSession => "POSTGRES_SINGLE_PROGRAM"
  | .bootstrap => "POSTGRES_BOOT_PROGRAM"
  | .describeConfig => "POSTGRES_DESCRIBE_CONFIG_PROGRAM"
  | .forkedWorker => "POSTGRES_FORKCHILD_PROGRAM"

/-- The role's program in a directory, or just its file name when no directory is known. -/
def installed (role : Role) (directory : Option Bytes) : Bytes :=
  match directory with
  | some directory => Path.push directory (Text.Utf8.encode role.fileName)
  | none => Text.Utf8.encode role.fileName

/-- The program that plays the role: the override unless it is empty or missing. -/
def program (role : Role) (override directory : Option Bytes) : Bytes :=
  match override with
  | some (byte :: bytes) => byte :: bytes
  | _ => role.installed directory

end Role

end ServerEntry
