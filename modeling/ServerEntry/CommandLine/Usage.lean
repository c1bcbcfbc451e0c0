import ServerEntry.Install.Build

/-!
The texts of help and version, as the pieces in which they are written: a line goes out whole, or
cut where a name is put into it.
-/

namespace ServerEntry.Usage

def heading (program : String) : List String :=
  [program, " is the PostgreSQL server.\n\n",
   "Usage:\n  ", program, " [OPTION]...\n\n",
   "Options:\n"]

def serverOptions : List String :=
  ["  -B NBUFFERS        number of shared buffers\n",
   "  -c NAME=VALUE      set run-time parameter\n",
   "  -C NAME            print value of run-time parameter, then exit\n",
   "  -d 1-5             debugging level\n",
   "  -D DATADIR         database directory\n",
   "  -e                 use European date input format (DMY)\n",
   "  -F                 turn fsync off\n",
   "  -h HOSTNAME        host name or IP address to listen on\n",
   "  -i                 enable TCP/IP connections\n",
   "  -k DIRECTORY       Unix-domain socket location\n"]

def encryptionOption : String := "  -l                 enable SSL connections\n"

def moreServerOptions : List String :=
  ["  -N MAX-CONNECT     maximum number of allowed connections\n",
   "  -o OPTIONS         pass \"OPTIONS\" to each server process (obsolete)\n",
   "  -p PORT            port number to listen on\n",
   "  -s                 show statistics after each query\n",
   "  -S WORK-MEM        set amount of memory for sorts (in kB)\n",
   "  -V, --version      output version information, then exit\n",
   "  --NAME=VALUE       set run-time parameter\n",
   "  --describe-config  describe configuration parameters, then exit\n",
   "  -?, --help         show this help, then exit\n"]

def developerOptions : List String :=
  ["\nDeveloper options:\n",
   "  -f s|i|n|m|h       forbid use of some plan types\n",
   "  -n                 do not reinitialize shared memory after abnormal exit\n",
   "  -O                 allow system table structure changes\n",
   "  -P                 disable system indexes\n",
   "  -t pa|pl|ex        show timings after each query\n",
   "  -T                 send SIGSTOP to all backend processes if one dies\n",
   "  -W NUM             wait NUM seconds to allow attach from a debugger\n"]

def singleUserOptions : List String :=
  ["\nOptions for single-user mode:\n",
   "  --single           selects single-user mode (must be first argument)\n",
   "  DBNAME             database name (defaults to user name)\n",
   "  -d 0-5             override debugging level\n",
   "  -E                 echo statement before execution\n",
   "  -j                 do not use newline as interactive query delimiter\n",
   "  -r FILENAME        send stdout and stderr to given file\n"]

def bootstrapOptions : List String :=
  ["\nOptions for bootstrapping mode:\n",
   "  --boot             selects bootstrapping mode (must be first argument)\n",
   "  DBNAME             database name (mandatory argument in bootstrapping mode)\n",
   "  -r FILENAME        send stdout and stderr to given file\n",
   "  -x NUM             internal use\n"]

def closing : List String :=
  ["\nPlease read the documentation for the complete list of run-time\n" ++
    "configuration settings and how to set them on the command line or in\n" ++
    "the configuration file.\n\n" ++
    "Report bugs to <", Build.bugAddress, ">.\n"]

/-- The help text; the encryption switch is listed only where it can be used. -/
def help (program : String) (encrypts : Bool) : List String :=
  heading program ++ serverOptions ++ (if encrypts then [encryptionOption] else []) ++
    moreServerOptions ++ developerOptions ++ singleUserOptions ++ bootstrapOptions ++ closing

def version : List String := ["postgres (PostgreSQL) " ++ Build.version ++ "\n"]

end ServerEntry.Usage
