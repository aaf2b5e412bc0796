import OffsetService.Container.Write

/-!
# Pages of a written container

The written container consists of whole pages (`length_write`), and its parts lie on consecutive
ones. Reading consecutive pages gives the bytes of the file from the first of them on
(`readPages_consecutive`), and the page numbers that the writer lists are read back as consecutive
(`takePages_pageNumbers`).
-/

namespace OffsetService.Container

/-! ## Fields -/

theorem takeNumber_word {width n : Nat} (h : n < Bytes.capacity width) (rest : Bytes) :
    takeNumber width (Bytes.word width n ++ rest) = .ok (n, rest) := by
  have hchop := Bytes.chop?_append (Bytes.word width n) rest
  rw [Bytes.length_word] at hchop
  rw [takeNumber, hchop]
  show Except.ok (Bytes.littleEndian (Bytes.word width n), rest) = _
  rw [Bytes.littleEndian_word, Nat.mod_eq_of_lt h]

theorem takeNumber_four {n : Nat} (h : n < 0x100000000) (rest : Bytes) :
    takeNumber 4 (Bytes.word 4 n ++ rest) = .ok (n, rest) :=
  takeNumber_word h rest

theorem skip_append {head : Bytes} {n : Nat} (h : head.length = n) (rest : Bytes) :
    skip n (head ++ rest) = .ok rest := by
  subst h
  rw [skip, Bytes.chop?_append]

theorem pageNumbers_succ (first count : Nat) :
    pageNumbers first (count + 1) = Bytes.word 4 first ++ pageNumbers (first + 1) count := by
  simp only [pageNumbers, List.range_succ_eq_map, List.flatMap_cons, List.flatMap_map, Nat.add_zero,
    Nat.succ_eq_add_one, Nat.add_assoc, Nat.add_comm 1]

theorem length_pageNumbers (first count : Nat) : (pageNumbers first count).length = 4 * count := by
  induction count generalizing first with
  | zero => rfl
  | succ count ih =>
    rw [pageNumbers_succ, List.length_append, Bytes.length_word, ih]
    omega

theorem pageNumbers_add (first left right : Nat) :
    pageNumbers first (left + right)
      = pageNumbers first left ++ pageNumbers (first + left) right := by
  induction left generalizing first with
  | zero => simp [pageNumbers]
  | succ left ih =>
    rw [Nat.succ_add, pageNumbers_succ, ih, pageNumbers_succ, List.append_assoc,
      Nat.add_right_comm first 1 left, Nat.add_assoc first left 1]

theorem takePages_pageNumbers {pageCount first count : Nat} (hfirst : 0 < first)
    (hlast : first + count ≤ pageCount + 1) (hcount : pageCount < 0x100000000) (rest : Bytes) :
    takePages pageCount count (pageNumbers first count ++ rest)
      = .ok (List.range' first count) := by
  induction count generalizing first with
  | zero => rfl
  | succ count ih =>
    have hin : ¬(first = 0 ∨ pageCount < first) := by omega
    rw [pageNumbers_succ, List.append_assoc, takePages,
      takeNumber_four (by omega)]
    show (if first = 0 ∨ pageCount < first then _ else _ : Except DatabaseDefect (List Nat)) = _
    rw [if_neg hin, ih (by omega) (by omega)]
    rfl

/-! ## Pages -/

/-- Consecutive pages that lie inside the file hold the bytes from the first of them on. -/
theorem readPages_consecutive (c : Container) {first count size : Nat}
    (hsize : size ≤ count * c.pageSize) (hfile : (first + count) * c.pageSize ≤ c.file.length) :
    c.readPages (List.range' first count) size
      = .ok ((c.file.drop (first * c.pageSize)).take size) := by
  induction count generalizing first size with
  | zero =>
    obtain rfl : size = 0 := by omega
    rfl
  | succ count ih =>
    have hpage : (first + 1) * c.pageSize ≤ c.file.length :=
      Nat.le_trans (Nat.mul_le_mul_right _ (by omega)) hfile
    have hsplit : (first + 1) * c.pageSize = first * c.pageSize + c.pageSize :=
      Nat.succ_mul first c.pageSize
    have hsize' : (count + 1) * c.pageSize = count * c.pageSize + c.pageSize :=
      Nat.succ_mul count c.pageSize
    have hwhole : ¬((c.file.drop (first * c.pageSize)).take (min size c.pageSize)).length
        < min size c.pageSize := by
      rw [List.length_take, List.length_drop]
      omega
    have hrest : c.readPages (List.range' (first + 1) count) (size - min size c.pageSize)
        = .ok ((c.file.drop ((first + 1) * c.pageSize)).take (size - min size c.pageSize)) :=
      ih (by omega) (by rwa [Nat.succ_add_eq_add_succ])
    rw [List.range'_succ, readPages]
    dsimp only
    rw [if_neg hwhole, hrest]
    show Except.ok _ = _
    rw [hsplit, ← List.drop_drop]
    rcases Nat.le_total size c.pageSize with hle | hle
    · rw [Nat.min_eq_left hle, Nat.sub_self, List.take_zero, List.append_nil]
    · rw [Nat.min_eq_right hle, ← List.take_add, Nat.add_sub_cancel' hle]

/-- The same for a part of the file whose place is known. -/
theorem readPages_part {c : Container} {before part after : Bytes} {first : Nat}
    (hfile : c.file = before ++ part ++ after) (hbefore : before.length = first * c.pageSize)
    {size count : Nat} (hsize : size ≤ part.length) (hpart : part.length = count * c.pageSize) :
    c.readPages (List.range' first count) size = .ok (part.take size) := by
  have hinside : (first + count) * c.pageSize ≤ c.file.length := by
    rw [hfile, List.length_append, List.length_append, Nat.add_mul]
    omega
  rw [readPages_consecutive c (by omega) hinside, hfile, ← hbefore, List.append_assoc,
    List.drop_left', List.take_append_of_le_length hsize]
  rfl

/-! ## Parts of the written container -/

theorem length_le_pages (size : Nat) : size ≤ pagesFor writtenPageSize size * writtenPageSize := by
  unfold pagesFor writtenPageSize
  omega

theorem length_padded (data : Bytes) :
    (padded data).length = pagesFor writtenPageSize data.length * writtenPageSize := by
  have := length_le_pages data.length
  rw [padded, List.length_append, List.length_replicate]
  omega

theorem take_padded (data : Bytes) : (padded data).take data.length = data := by
  rw [padded, List.take_left']
  rfl

theorem foldl_streamPages (pages : Nat) (streams : List (Option Bytes)) :
    streams.foldl (fun pages stream => pages + streamPages stream) pages
      = pages + allStreamPages streams := by
  induction streams generalizing pages with
  | nil => rfl
  | cons stream rest ih =>
    rw [allStreamPages, List.foldl_cons, List.foldl_cons, ih, ih, Nat.zero_add, Nat.add_assoc]

theorem allStreamPages_cons (stream : Option Bytes) (rest : List (Option Bytes)) :
    allStreamPages (stream :: rest) = streamPages stream + allStreamPages rest := by
  rw [allStreamPages, List.foldl_cons, foldl_streamPages, Nat.zero_add]

theorem allStreamPages_append (left right : List (Option Bytes)) :
    allStreamPages (left ++ right) = allStreamPages left + allStreamPages right := by
  rw [allStreamPages, List.foldl_append, foldl_streamPages, foldl_streamPages, Nat.zero_add]

/-- The streams as they lie in the file. -/
def body (streams : List (Option Bytes)) : Bytes :=
  streams.flatMap fun stream => padded (stream.getD [])

theorem length_body (streams : List (Option Bytes)) :
    (body streams).length = allStreamPages streams * writtenPageSize := by
  induction streams with
  | nil => rfl
  | cons stream rest ih =>
    have hstream : (padded (stream.getD [])).length = streamPages stream * writtenPageSize := by
      rw [length_padded]
      cases stream <;> rfl
    rw [body, List.flatMap_cons, List.length_append, hstream, ← body, ih, allStreamPages_cons,
      Nat.add_mul]

theorem length_headerOf (streams : List (Option Bytes)) : (headerOf streams).length = 56 := by
  simp only [headerOf, List.length_append, Bytes.length_word]
  rfl

/-- The word of a stream in the directory. -/
def sizeWord (stream : Option Bytes) : Bytes :=
  Bytes.word 4 (match stream with
    | none => absent
    | some data => data.length)

theorem length_sizeWords (streams : List (Option Bytes)) :
    (streams.flatMap sizeWord).length = 4 * streams.length := by
  induction streams with
  | nil => rfl
  | cons stream rest ih =>
    have hword : (sizeWord stream).length = 4 := Bytes.length_word 4 _
    rw [List.flatMap_cons, List.length_append, ih, hword, List.length_cons]
    omega

theorem streamSizes_eq (streams : List (Option Bytes)) :
    streamSizes streams = Bytes.word 4 streams.length ++ streams.flatMap sizeWord :=
  rfl

theorem length_streamSizes (streams : List (Option Bytes)) :
    (streamSizes streams).length = 4 + 4 * streams.length := by
  rw [streamSizes_eq, List.length_append, Bytes.length_word, length_sizeWords]

theorem length_directoryOf (streams : List (Option Bytes)) :
    (directoryOf streams).length = 4 + 4 * streams.length + 4 * allStreamPages streams := by
  rw [directoryOf, List.length_append, length_streamSizes, length_pageNumbers]

theorem pagesFor_directoryOf (streams : List (Option Bytes)) :
    pagesFor writtenPageSize (directoryOf streams).length = directoryPages streams := by
  rw [directoryOf, List.length_append, length_pageNumbers, directoryPages]

theorem directoryPages_pos (streams : List (Option Bytes)) : 0 < directoryPages streams := by
  rw [directoryPages, length_streamSizes, pagesFor, writtenPageSize]
  omega

/-- The list page. -/
def listPage (streams : List (Option Bytes)) : Bytes :=
  (padded (pageNumbers 2 (directoryPages streams))).take writtenPageSize

theorem length_listPage (streams : List (Option Bytes)) :
    (listPage streams).length = writtenPageSize := by
  have := directoryPages_pos streams
  rw [listPage, List.length_take, length_padded, length_pageNumbers, pagesFor, writtenPageSize]
  omega

theorem write_eq (streams : List (Option Bytes)) :
    write streams = padded (headerOf streams) ++ listPage streams ++ padded (directoryOf streams)
      ++ body streams :=
  rfl

theorem length_padded_headerOf (streams : List (Option Bytes)) :
    (padded (headerOf streams)).length = writtenPageSize := by
  rw [length_padded, length_headerOf]
  rfl

/-- The file consists of the pages that its header counts. -/
theorem length_write (streams : List (Option Bytes)) : (write streams).length
    = (2 + directoryPages streams + allStreamPages streams) * writtenPageSize := by
  rw [write_eq, List.length_append, List.length_append, List.length_append,
    length_padded_headerOf, length_listPage, length_padded, pagesFor_directoryOf, length_body,
    Nat.add_mul, Nat.add_mul, Nat.two_mul]

end OffsetService.Container
