import ServerEntry.Identity
import ServerEntry.Text.Fields
import ServerEntry.Variables

/-!
The records in which a host keeps what a process was started with: its command line, its variables,
its credentials, and the names of the users.
-/

namespace ServerEntry.Host.Records

/-- The records of a file in which each is ended by a NUL. -/
def terminated (content : Bytes) : List Bytes := (Text.fields 0 content).dropLast

def environment (content : Bytes) : Variables := Variables.ofRecords (terminated content)

def lines (content : Bytes) : List Bytes := Text.fields 0x0A content

def number? (field : Bytes) : Option Nat := (Text.Utf8.decode? field).bind String.toNat?

/-- The credentials in a process's status: the user ids stand on a line of their own, real first. -/
def credentials? (status : Bytes) : Option Credentials :=
  (lines status).findSome? fun line =>
    match Text.fields 0x09 line with
    | label :: real :: effective :: _ =>
        if label = Text.Utf8.encode "Uid:" then do
          some (.unix (UInt32.ofNat (← number? real)) (UInt32.ofNat (← number? effective)))
        else none
    | _ => none

/-- The name of a user: the first field of the line whose third field is the id. -/
def userName (users : Bytes) (user : UserId) : Except String String :=
  let found := (lines users).findSome? fun line =>
    match Text.fields 0x3A line with
    | name :: _ :: id :: _ => if number? id = some user.toNat then some name else none
    | _ => none
  match found with
  | some name => .ok (Text.Utf8.decodeLossy name)
  | none => .error "user does not exist"

end ServerEntry.Host.Records
