/-!
What a build was made with, and the layout it was made for.
-/

namespace ServerEntry

structure Build where
  /-- Children are made by running the program again, with a fork mark as the first argument. -/
  reexecutes : Bool
  /-- Encrypted connections are offered. -/
  encrypts : Bool
  /-- Messages are shown in the language of the locale, so their catalogs have to be found. -/
  localizes : Bool
  deriving DecidableEq, Repr

namespace Build

def plain : Build := ⟨false, false, false⟩

def full : Build := ⟨true, true, true⟩

def version : String := "12.0"

def bugAddress : String := "pgsql-bugs@lists.postgresql.org"

/-- Where programs, configuration and message catalogs go unless the installation is moved. -/
def programDirectory : String := "/usr/local/pgsql/bin"

def configurationDirectory : String := "/usr/local/pgsql/etc"

def catalogDirectory : String := "/usr/local/pgsql/share/locale"

end Build

end ServerEntry
