import ServerEntry.Host.Records
import ServerEntry.Launch

/-!
The command line program.

The command line, the variables and the credentials are read from the records of the running
process.  A program of this kind cannot be replaced by another, so starting a role is refused as
unsupported.
-/

namespace ServerEntry.Host

def readRecord (file : String) : IO Bytes := do
  try
    return (← IO.FS.readBinFile file).toList
  catch _ =>
    return []

/--
The host as the running process finds it; a process with unknown credentials counts as
privileged.
-/
def current : IO Host := do
  let status ← readRecord "/proc/self/status"
  let users ← readRecord "/etc/passwd"
  return {
    directory := (← IO.appPath).parent.map fun directory => Text.Utf8.encode directory.toString
    credentials := (Records.credentials? status).getD (.unix 0 0)
    userName := Records.userName users
    execute := fun _ => some .unsupported }

end ServerEntry.Host

open ServerEntry in
def main : IO UInt32 := do
  let arguments := Host.Records.terminated (← Host.readRecord "/proc/self/cmdline")
  let env := Host.Records.environment (← Host.readRecord "/proc/self/environ")
  let outcome := Launch.run (← Host.current) Build.plain arguments env
  (← IO.getStderr).putStr outcome.written
  let out ← IO.getStdout
  out.write ⟨outcome.out.toArray⟩
  out.flush
  match outcome.ending with
  | .exited status => return UInt32.ofNat status
  | .replaced _ => return 0
  | .aborted | .crashed => return 134
