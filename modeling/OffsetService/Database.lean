import OffsetService.SymbolStream
import OffsetService.TypeStream

/-!
# Databases

A database is a container that answers three kinds of query. Opening it checks the container's
header only; each query reads the streams that it needs, so a database that is damaged in one place
still answers queries that do not go there.
-/

namespace OffsetService

/-- An open database. -/
structure Database where
  container : Container

namespace Database

/-- Open the file at `path`, which holds these bytes or is missing. -/
def ofFile (path : String) (file : Option Bytes) : Except Fault Database :=
  match file with
  | none => .error (.malformedDatabase (some path) .missingFile)
  | some bytes =>
    match Container.ofFile bytes with
    | .ok container => .ok ⟨container⟩
    | .error defect => .error (.malformedDatabase (some path) defect)

/-- A step inside a database. -/
def step {α : Type} (outcome : Except DatabaseDefect α) : Traced α :=
  .ofExcept (outcome.mapError (.malformedDatabase none))

/-! ## Symbols -/

/-- The stream of symbol records. -/
def symbolRecords (db : Database) : Except DatabaseDefect Bytes := do
  let header ← DebugHeader.ofBytes (← db.container.stream DebugHeader.streamNumber)
  if header.symbolStream = noStream then
    throw .globalSymbolsNotFound
  db.container.stream header.symbolStream

/-- The map from sections to addresses. -/
def addressMap (db : Database) : Except DatabaseDefect AddressMap := do
  let stream ← db.container.stream DebugHeader.streamNumber
  let header ← DebugHeader.ofBytes stream
  AddressMap.ofSlots db.container (← header.streamList stream)

/-- The addresses of public symbols and global data. -/
def symbols (db : Database) (wanted : NameSet) : Traced SymbolMap := do
  let records ← step db.symbolRecords
  let addresses ← step db.addressMap
  let found ← step (SymbolStream.collect addresses wanted records)
  Traced.report (.resolvedSymbols found.size wanted.size)
  return found

/-! ## Types -/

/-- The type stream. -/
def typeStream (db : Database) : Except DatabaseDefect TypeStream := do
  TypeStream.ofBytes (← db.container.stream TypeStream.streamNumber)

/-- The places of members of structures. -/
def structs (db : Database) (query : NestedQuery) : Traced StructMap := do
  let types ← step db.typeStream
  let known := Definitions.ofRecords query types.decoded
  Traced.report (.foundDefinitions .struct known.structs.size query.size)
  Resolve.structs types.lookup known query

/-- The values of constants of enumerations. -/
def enums (db : Database) (query : NestedQuery) : Traced EnumMap := do
  let types ← step db.typeStream
  let known := Definitions.ofRecords query types.decoded
  Traced.report (.foundDefinitions .enum known.enums.size query.size)
  Resolve.enums types.lookup known query

end Database

end OffsetService
