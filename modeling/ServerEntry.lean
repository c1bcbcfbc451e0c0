import ServerEntry.Host.FileTree
import ServerEntry.Locale.Table
import ServerEntry.Main
import ServerEntry.Proofs.Launch.Reexecution
import ServerEntry.Proofs.Locale.Table
import ServerEntry.Proofs.Locale.Transcript
import ServerEntry.Proofs.Locale.Consistency
import ServerEntry.Proofs.Startup.Privileges
import ServerEntry.Proofs.Startup.Identities
import ServerEntry.Proofs.CommandLine.Scanner
import ServerEntry.Proofs.CommandLine.Permutation
import ServerEntry.Proofs.Log.History
import ServerEntry.Proofs.Startup.Aloud
import ServerEntry.Proofs.Path.Components
import ServerEntry.Proofs.Path.Relocation
import ServerEntry.Proofs.Startup.Answers
import ServerEntry.Proofs.Log.Level
import ServerEntry.Proofs.CommandLine.ProgramName
import ServerEntry.Proofs.CommandLine.Views
