import Mathlib.Data.List.Nodup
import OffsetService.Proofs.Database.Container

/-!
# The parts of a written container

Which pages a container uses, and for what, is found by reading: from the header to the list pages,
from these to the pages of the directory, and from the directory to the pages of each stream
(`parts`). The writer computes the size of the directory, the place of the first stream and the
pages of each stream one after the other, with absent streams left out and the last page of each
part filled up. The parts of what it writes are consecutive runs of pages nevertheless
(`parts_written`), so they are disjoint and leave no page out, and every stream is read back from
its own (`write_divides_and_keeps`).
-/

namespace OffsetService.Container

/-! ## The parts of a container -/

/-- The pages of the directory, by the list pages. -/
def directoryPageNumbers (c : Container) : Except DatabaseDefect (List Nat) := do
  let count := pagesFor c.pageSize c.directorySize
  takePages c.pageCount count (← c.readPages c.listPages (4 * count))

/-- The pages of a stream, by the directory. An absent stream has none. -/
def streamPageNumbers (c : Container) (directory : Bytes) (stream : Nat) : List Nat :=
  match c.find directory stream with
  | .ok (_, pages) => pages
  | .error _ => []

/-- The pages of a container, part by part: the header, the list pages, the directory, and then each
stream. -/
def parts (c : Container) : Except DatabaseDefect (List (List Nat)) := do
  let directoryPages ← c.directoryPageNumbers
  let directory ← c.directory
  let (count, _) ← takeNumber 4 directory
  return [0] :: c.listPages :: directoryPages
    :: (List.range count).map (c.streamPageNumbers directory)

/-- The parts, by what is read on the way to them. -/
theorem parts_of_reads {c : Container} {pages : List Nat} {directory rest : Bytes} {count : Nat}
    (hpages : c.directoryPageNumbers = .ok pages) (hdirectory : c.directory = .ok directory)
    (hcount : takeNumber 4 directory = .ok (count, rest)) :
    c.parts = .ok ([0] :: c.listPages :: pages
      :: (List.range count).map (c.streamPageNumbers directory)) := by
  simp only [parts, hpages, hdirectory, hcount, bind, Except.bind, pure, Except.pure]

theorem stream_of_find_error {c : Container} {directory : Bytes} {number : Nat}
    {defect : DatabaseDefect} (hdirectory : c.directory = .ok directory)
    (hfind : c.find directory number = .error defect) : c.stream number = .error defect := by
  simp only [stream, hdirectory, hfind, bind, Except.bind]

/-- Runs of pages for streams, one run behind the other. -/
def pageRuns : (first : Nat) → List (Option Bytes) → List (List Nat)
  | _, [] => []
  | first, stream :: rest =>
    List.range' first (streamPages stream) :: pageRuns (first + streamPages stream) rest

theorem map_length_pageRuns (first : Nat) (streams : List (Option Bytes)) :
    (pageRuns first streams).map List.length = streams.map streamPages := by
  induction streams generalizing first with
  | nil => rfl
  | cons stream rest ih => rw [pageRuns, List.map_cons, List.map_cons, List.length_range', ih]

/-- Runs one behind the other leave no page out. -/
theorem flatten_pageRuns (first : Nat) (streams : List (Option Bytes)) :
    (pageRuns first streams).flatten = List.range' first (allStreamPages streams) := by
  induction streams generalizing first with
  | nil => rfl
  | cons stream rest ih =>
    rw [pageRuns, List.flatten_cons, ih, allStreamPages_cons, List.range'_append_1]

variable {streams left right : List (Option Bytes)}

/-! ## Absent streams -/

/-- The directory up to the size of one stream. -/
theorem exists_directoryOf (left : List (Option Bytes)) (stream : Option Bytes)
    (right : List (Option Bytes)) : ∃ rest, directoryOf (left ++ stream :: right)
      = Bytes.word 4 (left ++ stream :: right).length
        ++ (left.flatMap sizeWord ++ (sizeWord stream ++ rest)) := by
  refine ⟨right.flatMap sizeWord ++ pageNumbers (2 + directoryPages (left ++ stream :: right))
    (allStreamPages (left ++ stream :: right)), ?_⟩
  rw [directoryOf, streamSizes_eq, List.flatMap_append, List.flatMap_cons]
  simp only [List.append_assoc]

theorem Fits.length_lt_capacity (h : Fits streams) : streams.length < 0x100000000 := by
  have := h.directorySize
  rw [length_directoryOf] at this
  omega

/-- An absent stream has no entry to be found. -/
theorem find_absent (h : Fits (left ++ none :: right)) :
    (written (left ++ none :: right)).find (directoryOf (left ++ none :: right)) left.length
      = .error (.streamNotFound left.length) := by
  obtain ⟨rest, hdirectory⟩ := exists_directoryOf left none right
  have hcount := h.length_lt_capacity
  have hinside : ¬(left ++ none :: right).length ≤ left.length := by
    rw [List.length_append, List.length_cons]
    omega
  have hbefore : pagesBefore (written (left ++ none :: right)).pageSize left.length
      (left.flatMap sizeWord ++ (sizeWord none ++ rest))
        = .ok (allStreamPages left, sizeWord none ++ rest) :=
    pagesBefore_sizeWords (fun data hmem => h.length_lt (List.mem_append_left _ hmem)) _
  have habsent : takeNumber 4 (sizeWord none ++ rest) = .ok (absent, rest) :=
    takeNumber_four (by decide) rest
  rw [hdirectory, find]
  simp only [takeNumber_four hcount, bind, Except.bind, if_neg hinside, hbefore, habsent, if_true]
  rfl

/-- Behind the last stream there is none. -/
theorem find_behind (h : Fits streams) {stream : Nat} (hbehind : streams.length ≤ stream) :
    (written streams).find (directoryOf streams) stream = .error (.streamNotFound stream) := by
  rw [find, directoryOf, streamSizes_eq, List.append_assoc]
  simp only [takeNumber_four h.length_lt_capacity, bind, Except.bind, if_pos hbehind]
  rfl

/-! ## Every part in its place -/

/-- The pages of one stream. -/
theorem streamPageNumbers_written {stream : Option Bytes} (h : Fits (left ++ stream :: right)) :
    (written (left ++ stream :: right)).streamPageNumbers (directoryOf (left ++ stream :: right))
        left.length
      = List.range' (2 + directoryPages (left ++ stream :: right) + allStreamPages left)
        (streamPages stream) := by
  cases stream with
  | none =>
    rw [streamPageNumbers, find_absent h]
    rfl
  | some data =>
    rw [streamPageNumbers, find_written h]
    rfl

/-- The pages of the streams from one on. -/
theorem map_streamPageNumbers (left : List (Option Bytes)) (h : Fits (left ++ right)) :
    (List.range' left.length right.length).map
        ((written (left ++ right)).streamPageNumbers (directoryOf (left ++ right)))
      = pageRuns (2 + directoryPages (left ++ right) + allStreamPages left) right := by
  induction right generalizing left with
  | nil => rfl
  | cons stream right ih =>
    have hnext : left ++ stream :: right = left ++ [stream] ++ right := List.append_cons ..
    have hpages : allStreamPages (left ++ [stream]) = allStreamPages left + streamPages stream := by
      rw [allStreamPages_append, allStreamPages_cons]
      rfl
    have hrest := ih (left ++ [stream]) (hnext ▸ h)
    rw [← hnext, hpages, List.length_append, List.length_singleton, ← Nat.add_assoc] at hrest
    rw [List.length_cons, List.range'_succ, List.map_cons, streamPageNumbers_written h, hrest,
      pageRuns]

theorem directoryPageNumbers_written (h : Fits streams) :
    (written streams).directoryPageNumbers = .ok (List.range' 2 (directoryPages streams)) := by
  have hcount := h.pages
  have hpages := takePages_pageNumbers (by decide : 0 < 2)
    (by omega : 2 + directoryPages streams
      ≤ 2 + directoryPages streams + allStreamPages streams + 1) (by omega) []
  rw [List.append_nil] at hpages
  have hsize : (written streams).directorySize = (directoryOf streams).length := rfl
  have hpageSize : (written streams).pageSize = writtenPageSize := rfl
  have hlist : (written streams).listPages = [1] := rfl
  rw [directoryPageNumbers, hsize, hpageSize, pagesFor_directoryOf, hlist,
    readPages_listPage h]
  exact hpages

/-- The parts of a written container are runs of pages, one behind the other. -/
theorem parts_written (h : Fits streams) :
    (written streams).parts = .ok ([0] :: [1] :: List.range' 2 (directoryPages streams)
      :: pageRuns (2 + directoryPages streams) streams) := by
  have hstreams : (List.range streams.length).map
        ((written streams).streamPageNumbers (directoryOf streams))
      = pageRuns (2 + directoryPages streams) streams := by
    have hall := map_streamPageNumbers [] h
    have hnone : allStreamPages [] = 0 := rfl
    rwa [hnone, List.length_nil, ← List.range_eq_range', List.nil_append, Nat.add_zero] at hall
  have hcount : takeNumber 4 (directoryOf streams) = .ok (streams.length,
      streams.flatMap sizeWord ++ pageNumbers (2 + directoryPages streams)
        (allStreamPages streams)) := by
    rw [directoryOf, streamSizes_eq, List.append_assoc]
    exact takeNumber_four h.length_lt_capacity _
  rw [parts_of_reads (directoryPageNumbers_written h) (directory_written h) hcount, hstreams]
  rfl

/-- What is read at the place of each stream, and behind the last one. -/
theorem stream_written_at (h : Fits streams) (number : Nat) :
    (written streams).stream number = match streams[number]? with
      | some (some data) => .ok data
      | _ => .error (.streamNotFound number) := by
  cases hstream : streams[number]? with
  | none =>
    exact stream_of_find_error (directory_written h)
      (find_behind h (List.getElem?_eq_none_iff.1 hstream))
  | some stream =>
    obtain ⟨hlt, hget⟩ := List.getElem?_eq_some_iff.1 hstream
    have hsplit : streams = streams.take number ++ stream :: streams.drop (number + 1) := by
      rw [← hget, ← List.drop_eq_getElem_cons hlt, List.take_append_drop]
    have hnumber : (streams.take number).length = number := by
      rw [List.length_take]
      omega
    generalize streams.take number = left at hsplit hnumber
    generalize streams.drop (number + 1) = right at hsplit
    subst hsplit hnumber
    cases stream with
    | none => exact stream_of_find_error (directory_written h) (find_absent h)
    | some data => exact stream_written left h

/-- **A written container.** Where the file stays below four gigabytes and one list page holds the
numbers of the directory's pages, the file is opened as a container of whole pages, as many as its
header says. The header, the list page, the directory and the streams, as they are found from the
header on, lie on pages of their own and leave no page out, each stream on as many as its bytes
fill. At each place the bytes of the stream are read back, whatever their number, and an absent
stream is found to be absent. -/
theorem write_divides_and_keeps (streams : List (Option Bytes)) (h : Fits streams) :
    ∃ c parts, ofFile (write streams) = .ok c ∧ c.parts = .ok parts ∧
      c.pageSize = 4096 ∧ (write streams).length = c.pageCount * 4096 ∧
      parts.Pairwise List.Disjoint ∧ parts.flatten = List.range c.pageCount ∧
      (parts.drop 3).map List.length = streams.map streamPages ∧
      ∀ number, c.stream number = match streams[number]? with
        | some (some data) => .ok data
        | _ => .error (.streamNotFound number) := by
  have hflatten : ([0] :: [1] :: List.range' 2 (directoryPages streams)
      :: pageRuns (2 + directoryPages streams) streams).flatten
        = List.range (2 + directoryPages streams + allStreamPages streams) := by
    have hfront : [0] ++ ([1] ++ List.range' 2 (directoryPages streams))
        = List.range' 0 (2 + directoryPages streams) := by
      rw [Nat.add_comm, List.range'_succ, List.range'_succ]
      rfl
    have hends := List.range'_append_1 (s := 0) (m := 2 + directoryPages streams)
      (n := allStreamPages streams)
    rw [Nat.zero_add] at hends
    rw [List.flatten_cons, List.flatten_cons, List.flatten_cons, flatten_pageRuns,
      ← List.append_assoc [1], ← List.append_assoc [0], hfront, hends, List.range_eq_range']
  refine ⟨written streams, _, ofFile_write h, parts_written h, rfl, length_write streams, ?_,
    hflatten, map_length_pageRuns _ streams, stream_written_at h⟩
  refine (List.nodup_flatten.1 ?_).2
  rw [hflatten]
  exact List.nodup_range

/-- An empty stream, an absent one, one that fills a page, and one that does not. -/
def variousStreams : List (Option Bytes) :=
  [some [], none, some (List.replicate 4096 7), some [1, 2, 3]]

theorem map_streamPages_various : variousStreams.map streamPages = [0, 0, 1, 1] := by
  simp only [variousStreams, List.map_cons, List.map_nil, streamPages, List.length_replicate]
  decide

theorem length_write_various : (write variousStreams).length = 5 * 4096 := by
  have hall : allStreamPages variousStreams = 2 := by
    simp only [variousStreams, allStreamPages_cons, streamPages, List.length_replicate]
    decide
  have hdirectory : directoryPages variousStreams = 1 := by
    rw [directoryPages, length_streamSizes, hall]
    rfl
  rw [length_write, hdirectory, hall]
  rfl

/-- The container has five pages: an empty stream takes none, and a page that is full is not
followed by another. -/
theorem write_divides_and_keeps_various : Fits variousStreams ∧
    ∃ c parts, ofFile (write variousStreams) = .ok c ∧ c.parts = .ok parts ∧
      c.pageCount = 5 ∧ parts.flatten = [0, 1, 2, 3, 4] ∧
      (parts.drop 3).map List.length = [0, 0, 1, 1] ∧
      c.stream 0 = .ok [] ∧ c.stream 1 = .error (.streamNotFound 1) ∧
      c.stream 2 = .ok (List.replicate 4096 7) ∧ c.stream 3 = .ok [1, 2, 3] ∧
      c.stream 4 = .error (.streamNotFound 4) := by
  have hfits : Fits variousStreams :=
    Fits.of_length_le (by rw [length_write_various]; decide) (by decide)
  obtain ⟨c, parts, hopen, hparts, -, hpages, -, hcover, hlengths, hstream⟩ :=
    write_divides_and_keeps variousStreams hfits
  have hcount : c.pageCount = 5 := by
    rw [length_write_various] at hpages
    omega
  rw [hcount] at hcover
  rw [map_streamPages_various] at hlengths
  exact ⟨hfits, c, parts, hopen, hparts, hcount, hcover, hlengths, hstream 0, hstream 1,
    hstream 2, hstream 3, hstream 4⟩

end OffsetService.Container
