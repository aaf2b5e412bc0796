import OffsetService.Container.Read

/-!
# Writing a container

The written container has pages of 4096 bytes: the header, one list page, the directory, and then
the streams in order, each on pages of its own. Every part is filled up with zeros to whole pages.
An absent stream takes an entry in the directory and no page.
-/

namespace OffsetService.Container

/-- The size of a written page. -/
def writtenPageSize : Nat := 4096

/-- Bytes filled up with zeros to whole pages. -/
def padded (data : Bytes) : Bytes :=
  data ++ List.replicate (pagesFor writtenPageSize data.length * writtenPageSize - data.length) 0

/-- The number of pages of a stream. -/
def streamPages (stream : Option Bytes) : Nat :=
  match stream with
  | none => 0
  | some data => pagesFor writtenPageSize data.length

/-- The number of pages of all streams. -/
def allStreamPages (streams : List (Option Bytes)) : Nat :=
  streams.foldl (fun pages stream => pages + streamPages stream) 0

/-- The first part of the directory: the number of streams and the size of each. -/
def streamSizes (streams : List (Option Bytes)) : Bytes :=
  Bytes.word 4 streams.length ++ streams.flatMap fun stream =>
    Bytes.word 4 (match stream with
      | none => absent
      | some data => data.length)

/-- The number of pages of the directory. -/
def directoryPages (streams : List (Option Bytes)) : Nat :=
  pagesFor writtenPageSize ((streamSizes streams).length + 4 * allStreamPages streams)

/-- Consecutive page numbers, four bytes each. -/
def pageNumbers (first count : Nat) : Bytes :=
  (List.range count).flatMap fun i => Bytes.word 4 (first + i)

/-- The directory: sizes, then the pages of each stream. The streams lie one after the other behind
the directory, so their pages are consecutive. -/
def directoryOf (streams : List (Option Bytes)) : Bytes :=
  streamSizes streams ++ pageNumbers (2 + directoryPages streams) (allStreamPages streams)

/-- The header. -/
def headerOf (streams : List (Option Bytes)) : Bytes :=
  magic ++ Bytes.word 4 writtenPageSize ++ Bytes.word 4 1
    ++ Bytes.word 4 (2 + directoryPages streams + allStreamPages streams)
    ++ Bytes.word 4 (directoryOf streams).length ++ Bytes.word 4 0 ++ Bytes.word 4 1

/-- The file that holds the streams. The list page has room for the numbers of 1024 directory
pages. -/
def write (streams : List (Option Bytes)) : Bytes :=
  padded (headerOf streams)
    ++ (padded (pageNumbers 2 (directoryPages streams))).take writtenPageSize
    ++ padded (directoryOf streams)
    ++ streams.flatMap fun stream => padded (stream.getD [])

end OffsetService.Container
