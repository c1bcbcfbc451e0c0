import ServerEntry.HandOff
import ServerEntry.Path.Basic

/-!
What the file names of a host stand for, and which of them can be started as programs.
-/

namespace ServerEntry.Host

inductive FileTree where
  | program
  | file
  | directory (entries : List (Bytes × FileTree))

namespace FileTree

def nameLimit : Nat := 255

def pathLimit : Nat := 4095

def isDirectory : FileTree → Bool
  | directory _ => true
  | _ => false

def entry (name : Bytes) : FileTree → Except SystemError FileTree
  | directory entries =>
      if nameLimit < name.length then .error .nameTooLong
      else
        match entries.find? fun entry => entry.1 = name with
        | some (_, tree) => .ok tree
        | none => .error .noEntry
  | _ => .error .notDirectory

/--
Follows the parts of a file name from a place in the tree.  `above` lists the directories above that
place, nearest first; the root is its own parent.
-/
def follow (above : List FileTree) (here : FileTree) : List Bytes → Except SystemError FileTree
  | [] => .ok here
  | part :: parts =>
      if part = [] ∨ part = [Path.dot] then
        if here.isDirectory then follow above here parts else .error .notDirectory
      else if part = [Path.dot, Path.dot] then
        if here.isDirectory then
          match above with
          | [] => follow [] here parts
          | parent :: above => follow above parent parts
        else .error .notDirectory
      else
        match here.entry part with
        | .ok next => follow (here :: above) next parts
        | .error error => .error error

/--
What a file name stands for.  Every way starts at the root; that of a relative name goes through the
working directory, so that `..` can lead out of it.
-/
def find (root : FileTree) (working path : Bytes) : Except SystemError FileTree :=
  if path = [] then .error .noEntry
  else if pathLimit < path.length then .error .nameTooLong
  else
    follow [] root
      (if Path.isAbsolute path then Path.split path else Path.split working ++ Path.split path)

def execute (root : FileTree) (working : Bytes) : Executor := fun image =>
  match find root working image.program with
  | .ok .program => none
  | .ok _ => some .accessDenied
  | .error error => some error

end FileTree

end ServerEntry.Host
