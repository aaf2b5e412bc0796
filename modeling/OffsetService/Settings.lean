import OffsetService.Settings.CommandLine
import OffsetService.Text.Blank
import OffsetService.Text.Quoted
import OffsetService.Web.Uri

/-!
# Settings of the service

The settings are the choices of the command line and the variables, and the usual value of each
parameter that nobody chose. Of all values only the URL of the archive is looked at once more: it
must begin with one of two schemes in lower case, and have a host, which is what stands before the
next slash. That is a coarser cut than the parts of a URI (`Uri.ofText?`), where a question mark and
a number sign end a host too.
-/

namespace OffsetService

/-- What is wrong with the URL of an archive. -/
inductive ArchiveDefect where
  | unknownScheme
  | missingHost
  deriving DecidableEq, Repr

/-- The wording of an archive defect. -/
def ArchiveDefect.message : ArchiveDefect → String
  | .unknownScheme => "scheme must be http or https"
  | .missingHost => "missing host"

/-- The URL of an archive, and what is wrong with it. -/
structure SettingsFault where
  url : String
  defect : ArchiveDefect
  deriving DecidableEq, Repr

namespace SettingsFault

/-- What was looked at. -/
def context (fault : SettingsFault) : String :=
  s!"invalid symbol server URL {Quoted.quote fault.url}"

/-- The wording of a settings fault. -/
def message (fault : SettingsFault) : String :=
  fault.context ++ ": " ++ fault.defect.message

end SettingsFault

/-- How the service is set up. -/
structure Settings where
  bind : SocketAddress
  cacheFolder : String
  archive : String
  logFile : Option String
  deriving DecidableEq, Repr

namespace Settings

/-- The schemes of archives. -/
def schemes : List (List Char) := ["http".toList, "https".toList]

/-- What stands behind the scheme of a URL, if it is one of an archive. -/
def afterScheme? (url : String) : Option (List Char) :=
  schemes.findSome? (Uri.afterScheme? · url.toList)

/-- The host at the start of what stands behind a scheme. -/
def hostOf (rest : List Char) : List Char :=
  rest.takeWhile (· ≠ '/')

/-- What is wrong with the URL of an archive, if anything is. -/
def archiveDefect? (url : String) : Option ArchiveDefect :=
  match afterScheme? url with
  | none => some .unknownScheme
  | some rest =>
    let host := hostOf rest
    if host = [] ∨ host.any Blank.isBlank then some .missingHost else none

/-- The name of the log file. -/
def logFileName : String := "server.log"

/-- The settings without any choice. -/
def usual : Settings where
  bind := ⟨.any, 8080⟩
  cacheFolder := "save"
  archive := "http://msdl.microsoft.com/download/symbols/"
  logFile := none

/-- The settings that follow from choices. -/
def ofChoices (c : Choices) : Except SettingsFault Settings :=
  let archive := c.archive.getD usual.archive
  match archiveDefect? archive with
  | some defect => .error ⟨archive, defect⟩
  | none =>
    .ok {
      bind := ⟨c.address.getD usual.bind.host, c.port.getD usual.bind.port⟩
      cacheFolder := c.folder.getD usual.cacheFolder
      archive
      logFile := if c.log = some true then some logFileName else none
    }

/-- The archive of settings has a scheme and a host. -/
theorem archiveDefect?_of_ofChoices {c : Choices} {s : Settings} (h : ofChoices c = .ok s) :
    archiveDefect? s.archive = none := by
  simp only [ofChoices] at h
  split at h
  next => cases h
  next hnone => cases h; exact hnone

/-! ## Help -/

/-- The usual value of a parameter. -/
def usualText : Parameter → Option String
  | .address => some usual.bind.host.text
  | .port => some (toString usual.bind.port.toNat)
  | .folder => some usual.cacheFolder
  | .archive => some usual.archive
  | .log => none

/-- An option, as help shows it. -/
def optionText (option : Switch) : String :=
  let value := match option with
    | .parameter p => if p.takesValue then s!" <{p.word.toUpper}>" else ""
    | .help | .version => ""
  s!"-{option.letter}, --{option.word}{value}"

/-- What help says about an option. -/
def helpText : Switch → String
  | .parameter p =>
    p.purpose ++ s!" [env: {p.variableName}]"
      ++ ((usualText p).elim "" fun text => s!" [default: {text}]")
  | .help => "Print help"
  | .version => "Print version"

/-- The help. -/
def help : String :=
  let width := (Switch.all.map fun option => (optionText option).length).foldl max 0
  let line (option : Switch) : String :=
    let shown := optionText option
    "  " ++ shown ++ String.ofList (List.replicate (width - shown.length + 2) ' ')
      ++ helpText option ++ "\n"
  "Resolve symbol addresses, struct field offsets and enum values from PDBs over HTTP\n\n"
    ++ "Usage: qpdb-server [OPTIONS]\n\nOptions:\n" ++ String.join (Switch.all.map line)

/-- The version. -/
def version : String := "qpdb-server 0.1.0"

end Settings

end OffsetService
