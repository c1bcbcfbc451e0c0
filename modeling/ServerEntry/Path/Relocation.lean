import ServerEntry.Path.Basic

/-!
Where a file of an installation is once the installation has been moved.

The file and the program directory of the layout share a beginning.  A program that runs from a
directory which ends as the layout's program directory ends behind that beginning has been moved
together with the file, so the new beginning is read off it.
-/

namespace ServerEntry.Path

/-- What is left of two lists behind their longest common beginning. -/
def afterCommon {α : Type} [DecidableEq α] : List α → List α → List α × List α
  | a :: as, b :: bs => if a = b then afterCommon as bs else (a :: as, b :: bs)
  | as, bs => (as, bs)

def beforeEnding? {α : Type} [DecidableEq α] (ending parts : List α) : Option (List α) :=
  if parts.drop (parts.length - ending.length) = ending then
    some (parts.take (parts.length - ending.length))
  else none

/--
Where `target` is for a program that runs from `current` and that the layout puts into `programs`.
From a directory of another shape the layout's own place is returned as it is spelled.
-/
def relocate (target programs current : Bytes) : Bytes :=
  let (targetRest, programsRest) := afterCommon (components target) (components programs)
  match beforeEnding? programsRest (components current) with
  | some beginning => ofComponents (beginning ++ targetRest)
  | none => target

end ServerEntry.Path
