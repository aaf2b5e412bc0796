/-!
# Parameters of the service

The service has five parameters. Each has an option, with a letter and a word, and an environment
variable; all but the log switch take a value.
-/

namespace OffsetService

/-- What is set from outside. -/
inductive Parameter where
  /-- The address to listen on. -/
  | address
  | port
  /-- The folder of the cache. -/
  | folder
  /-- The URL of the archive. -/
  | archive
  /-- Whether to keep a log file. -/
  | log
  deriving DecidableEq, Repr

namespace Parameter

/-- All parameters, in the order in which their variables are asked. -/
def all : List Parameter := [.address, .port, .folder, .archive, .log]

theorem mem_all (p : Parameter) : p ∈ all := by
  cases p <;> decide

/-- The letter of the option. -/
def letter : Parameter → Char
  | .address => 'i'
  | .port => 'p'
  | .folder => 'd'
  | .archive => 's'
  | .log => 'l'

/-- The word of the option. -/
def word : Parameter → String
  | .address => "ip"
  | .port => "port"
  | .folder => "path"
  | .archive => "server"
  | .log => "log"

/-- The environment variable. -/
def variableName : Parameter → String
  | .address => "QPDB_IP"
  | .port => "QPDB_PORT"
  | .folder => "QPDB_PATH"
  | .archive => "QPDB_SERVER"
  | .log => "QPDB_LOG"

/-- Whether the option has a value. The one that has none switches its parameter on. -/
def takesValue : Parameter → Bool
  | .log => false
  | _ => true

/-- What the parameter is for. -/
def purpose : Parameter → String
  | .address => "Address to listen on"
  | .port => "Port to listen on"
  | .folder => "PDB cache directory"
  | .archive => "Symbol server base URL"
  | .log => "Also write logs to server.log"

end Parameter

/-- An option of the command line. -/
inductive Switch where
  | parameter (parameter : Parameter)
  | help
  | version
  deriving DecidableEq, Repr

namespace Switch

/-- All options. -/
def all : List Switch := Parameter.all.map .parameter ++ [.help, .version]

/-- The letter of an option. -/
def letter : Switch → Char
  | .parameter p => p.letter
  | .help => 'h'
  | .version => 'V'

/-- The word of an option. -/
def word : Switch → String
  | .parameter p => p.word
  | .help => "help"
  | .version => "version"

/-- The option of a letter. -/
def ofLetter? (letter : Char) : Option Switch :=
  all.find? (·.letter = letter)

/-- The option of a word. -/
def ofWord? (word : List Char) : Option Switch :=
  all.find? (·.word.toList = word)

/-- No two options share a letter. -/
theorem ofLetter?_letter (s : Switch) : ofLetter? s.letter = some s := by
  rcases s with (_ | _ | _ | _ | _) | _ | _ <;> decide

/-- No two options share a word. -/
theorem ofWord?_word (s : Switch) : ofWord? s.word.toList = some s := by
  rcases s with (_ | _ | _ | _ | _) | _ | _ <;> decide

end Switch

end OffsetService
