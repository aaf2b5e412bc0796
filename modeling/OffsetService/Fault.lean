import OffsetService.Text.Hex
import OffsetService.Text.Quoted

/-!
# Faults

Every way in which an operation of this library can fail is a cause with its data; the wording is in
one `message` function per type. Each group of causes ends in `reported`, which carries the words of
another party, such as the operating system.
-/

namespace OffsetService

/-! ## Images -/

/-- The fields of an executable image that are read on the way to its debug record. -/
inductive ImageField where
  | dosHeader
  | newHeaderOffset
  | peSignature
  | machine
  | sectionCount
  | optionalHeaderSize
  | directoryCount
  | debugDirectoryAddress
  | debugDirectorySize
  | sectionVirtualSize
  | sectionVirtualAddress
  | sectionRawSize
  | sectionRawPointer
  | debugEntryType
  | debugDataSize
  | debugDataPointer
  deriving DecidableEq, Repr

/-- The name of a field in the documents of the format. -/
def ImageField.label : ImageField → String
  | .dosHeader => "DOS header"
  | .newHeaderOffset => "e_lfanew"
  | .peSignature => "PE signature"
  | .machine => "Machine"
  | .sectionCount => "NumberOfSections"
  | .optionalHeaderSize => "SizeOfOptionalHeader"
  | .directoryCount => "NumberOfRvaAndSizes"
  | .debugDirectoryAddress => "debug directory RVA"
  | .debugDirectorySize => "debug directory size"
  | .sectionVirtualSize => "section VirtualSize"
  | .sectionVirtualAddress => "section VirtualAddress"
  | .sectionRawSize => "section SizeOfRawData"
  | .sectionRawPointer => "section PointerToRawData"
  | .debugEntryType => "debug entry Type"
  | .debugDataSize => "debug SizeOfData"
  | .debugDataPointer => "debug PointerToRawData"

/-- The formats of a debug record that name a database. -/
inductive RecordFormat where
  /-- A record with a 16-byte unique id. -/
  | rsds
  /-- A record with a 32-bit signature. -/
  | nb10
  deriving DecidableEq, Repr

/-- The four letters that open a record of the format. -/
def RecordFormat.label : RecordFormat → String
  | .rsds => "RSDS"
  | .nb10 => "NB10"

/-- What is wrong with an executable image. -/
inductive ImageDefect where
  /-- A field lies, in part or whole, past the end of the image. -/
  | outside (field : ImageField) (offset length imageSize : Nat)
  | noDosSignature
  | noPeSignature (offset : Nat)
  /-- No section holds the address of the debug directory. -/
  | unmappedDirectory (address : Nat)
  | recordOutside (pointer : Nat)
  | truncatedRecord (format : RecordFormat) (size : Nat)
  | reported (text : String)
  deriving DecidableEq, Repr

/-- The wording of an image defect. -/
def ImageDefect.message : ImageDefect → String
  | .outside field offset length imageSize =>
    s!"{field.label} at {Hex.marked offset} (+{length}) is outside the image ({imageSize} bytes)"
  | .noDosSignature => "missing MZ signature"
  | .noPeSignature offset => s!"missing PE signature at {Hex.marked offset}"
  | .unmappedDirectory address =>
    s!"debug directory RVA {Hex.marked address} is not mapped by any section"
  | .recordOutside pointer => s!"CodeView record at {Hex.marked pointer} is outside the image"
  | .truncatedRecord format size => s!"truncated {format.label} record ({size} bytes)"
  | .reported text => text

/-! ## Databases -/

/-- What is wrong with a database. -/
inductive DatabaseDefect where
  /-- There is no file to open. -/
  | missingFile
  | unexpectedEnd
  | unrecognizedFormat
  /-- A page lies past the end of the file. -/
  | shortFile
  | pageOutOfRange (page : Nat)
  | invalidPageSize (size : Nat)
  | streamNotFound (stream : Nat)
  /-- A stream is no whole number of records. -/
  | misalignedStream (name : String)
  | unimplemented (feature : String)
  | invalidTypeHeader (reason : String)
  | typeTooShort
  | typeNotIndexed (index covered : Nat)
  | globalSymbolsNotFound
  | addressMapNotFound
  | symbolTooShort
  | reported (text : String)
  deriving DecidableEq, Repr

/-- The wording of a database defect. -/
def DatabaseDefect.message : DatabaseDefect → String
  | .missingFile => "no such file"
  | .unexpectedEnd => "UnexpectedEof"
  | .unrecognizedFormat => "UnrecognizedFileFormat"
  | .shortFile => "IO error while reading PDB: failed to fill whole buffer"
  | .pageOutOfRange page => s!"MSF referred to page number ({page}) out of range"
  | .invalidPageSize size => s!"The MSF header specifies an invalid page size ({size} bytes)"
  | .streamNotFound stream => s!"The requested stream ({stream}) is not stored in this file"
  | .misalignedStream name =>
    s!"{name} stream has an invalid length or alignment for its records"
  | .unimplemented feature => s!"Unimplemented PDB feature: {feature}"
  | .invalidTypeHeader reason => s!"The type information header was invalid: {reason}"
  | .typeTooShort => "TypeTooShort"
  | .typeNotIndexed index covered => s!"Type {index} not indexed (index covers {covered})"
  | .globalSymbolsNotFound => "GlobalSymbolsNotFound"
  | .addressMapNotFound => "AddressMapNotFound"
  | .symbolTooShort => "SymbolTooShort"
  | .reported text => text

/-- Why one type record cannot be decoded. Such a record counts as absent. -/
inductive RecordDefect where
  | unexpectedEnd
  | unsupportedKind (leaf : UInt16)
  | unknownNumeric (mark : UInt16)
  /-- An array has more elements than 32 bits count. -/
  | oversizedArray
  /-- The index is below those of the stream and names no built-in type. -/
  | noSuchType (index : UInt32)
  deriving DecidableEq, Repr

/-- The wording of a record defect. -/
def RecordDefect.message : RecordDefect → String
  | .unexpectedEnd => "UnexpectedEof"
  | .unsupportedKind leaf => s!"Support for types of kind {Hex.markedWord leaf} is not implemented"
  | .unknownNumeric mark =>
    s!"Variable-length numeric parsing encountered an unexpected prefix ({Hex.markedWord mark}"
  | .oversizedArray => "Unimplemented PDB feature: u64 array sizes"
  | .noSuchType index => s!"Type {index.toNat} not found"

/-! ## Downloads, requests, files -/

/-- Why an archive gave no database. -/
inductive DownloadCause where
  | notOnServer
  | status (code : Nat)
  /-- The archive could not be asked. -/
  | requestFailed (detail : String)
  /-- The archive sent a compressed cabinet. -/
  | cabinet
  /-- The body broke off. -/
  | brokenBody (detail : String)
  | reported (text : String)
  deriving DecidableEq, Repr

/-- The wording of a download cause. -/
def DownloadCause.message : DownloadCause → String
  | .notOnServer => "PDB not found on symbol server (404)"
  | .status code => s!"symbol server returned HTTP {code}"
  | .requestFailed detail => s!"request failed: {detail}"
  | .cabinet => "symbol server returned a CAB-compressed PDB, which is not supported"
  | .brokenBody detail => s!"streaming body: {detail}"
  | .reported text => text

/-- Why a query service gave no answer. -/
inductive RequestCause where
  | status (url : String) (code : Nat) (body : String)
  /-- The service could not be asked. -/
  | transport (url detail : String)
  | unreadableBody (url detail : String)
  /-- The answer is no text of the expected kind. -/
  | undecodableBody (url detail : String)
  | reported (text : String)
  deriving DecidableEq, Repr

/-- The wording of a request cause. -/
def RequestCause.message : RequestCause → String
  | .status url code body => s!"{url} returned HTTP {code}: {body}"
  | .transport url detail => s!"{url}: {detail}"
  | .unreadableBody url detail => s!"reading response from {url}: {detail}"
  | .undecodableBody url detail => s!"decoding response from {url}: {detail}"
  | .reported text => text

/-- A name that an answer leaves out. -/
inductive Missing where
  | symbol (name : String)
  | struct (name : String)
  | field (name member : String)
  | enum (name : String)
  | enumerator (name key : String)
  | reported (text : String)
  deriving DecidableEq, Repr

/-- The wording of a missing name. -/
def Missing.message : Missing → String
  | .symbol name => s!"symbol {name}"
  | .struct name => s!"struct {name}"
  | .field name member => s!"field {name}.{member}"
  | .enum name => s!"enum {name}"
  | .enumerator name key => s!"enumerator {name}::{key}"
  | .reported text => text

/-- Why a step on files failed. -/
inductive FileCause where
  | noSuchFile
  | alreadyThere
  | nameTooLong
  /-- A file stands where a folder is needed. -/
  | notFolder
  /-- A folder stands where a file is needed. -/
  | isFolder
  | reported (text : String)
  deriving DecidableEq, Repr

/-- The wording of a file cause. -/
def FileCause.message : FileCause → String
  | .noSuchFile => "no such file or folder"
  | .alreadyThere => "there is one already"
  | .nameTooLong => "file name too long"
  | .notFolder => "not a folder"
  | .isFolder => "is a folder"
  | .reported text => text

/-! ## All faults -/

/-- Why an operation failed. -/
inductive Fault where
  | unsupportedImage (machine : UInt16)
  | malformedImage (defect : ImageDefect)
  | invalidIdentity
  /-- A part of an identity cannot be one component of a path. -/
  | unsafePath (component : String)
  | download (url : String) (cause : DownloadCause)
  | malformedDatabase (path : Option String) (defect : DatabaseDefect)
  | file (cause : FileCause)
  | request (cause : RequestCause)
  | notFound (missing : Missing)
  deriving DecidableEq, Repr

/-- The wording of a fault. -/
def Fault.message : Fault → String
  | .unsupportedImage machine => s!"Unsupported machine type: {Hex.markedWord machine}"
  | .malformedImage defect => s!"Malformed image: {defect.message}"
  | .invalidIdentity => "Invalid debug identity (missing PDB name or GUID)"
  | .unsafePath component => s!"Unsafe archive path component: {Quoted.quote component}"
  | .download url cause => s!"Download failed for {url}: {cause.message}"
  | .malformedDatabase none defect => s!"Malformed PDB: {defect.message}"
  | .malformedDatabase (some path) .missingFile =>
    s!"Malformed PDB: opening {path}: {DatabaseDefect.missingFile.message}"
  | .malformedDatabase (some path) defect => s!"Malformed PDB: {path}: {defect.message}"
  | .file cause => s!"I/O error: {cause.message}"
  | .request cause => s!"Request failed: {cause.message}"
  | .notFound missing => s!"Not found: {missing.message}"

end OffsetService
