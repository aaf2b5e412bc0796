import OffsetService.Proofs.Database.Pages

/-!
# Reading back a written container

A written container whose file stays below four gigabytes is opened (`ofFile_write`), and each of
its streams is read back as it was given to the writer (`stream_written`), provided that one list
page can hold the numbers of the directory's pages.
-/

namespace OffsetService.Container

/-- The container that is found in the written file. -/
def written (streams : List (Option Bytes)) : Container where
  file := write streams
  pageSize := writtenPageSize
  pageCount := 2 + directoryPages streams + allStreamPages streams
  directorySize := (directoryOf streams).length
  listPages := [1]

/-- The file stays below four gigabytes, and one page holds the list of the directory's pages. -/
structure Fits (streams : List (Option Bytes)) : Prop where
  file : (write streams).length < 0x100000000
  directory : directoryPages streams ≤ 1024

variable {streams : List (Option Bytes)}

/-- The directory of a few streams is never too long for one list page. -/
theorem Fits.of_length_le (hfile : (write streams).length < 0x100000000)
    (hfew : streams.length ≤ 1000) : Fits streams := by
  refine ⟨hfile, ?_⟩
  have hdirectory : directoryPages streams
      = (4 + 4 * streams.length + 4 * allStreamPages streams + 4095) / 4096 := by
    rw [directoryPages, length_streamSizes]
    rfl
  rw [length_write, writtenPageSize] at hfile
  omega

theorem Fits.pages (h : Fits streams) :
    2 + directoryPages streams + allStreamPages streams < 0x100000 := by
  have := h.file
  rw [length_write, writtenPageSize] at this
  omega

theorem Fits.directorySize (h : Fits streams) : (directoryOf streams).length < 0x100000000 := by
  have hpages := h.directory
  have hsize := length_le_pages (directoryOf streams).length
  rw [pagesFor_directoryOf, writtenPageSize] at hsize
  omega

/-! ## The header -/

theorem take_write (streams : List (Option Bytes)) :
    (write streams).take headerArea = padded (headerOf streams) := by
  have hlength : (padded (headerOf streams)).length = headerArea := length_padded_headerOf streams
  rw [write_eq, List.append_assoc, List.append_assoc, List.take_left' hlength]

/-- The words of the header behind the magic text, and what the page is filled up with. -/
theorem exists_padded_headerOf (streams : List (Option Bytes)) : ∃ rest, padded (headerOf streams)
    = magic ++ (Bytes.word 4 writtenPageSize ++ (Bytes.word 4 1
      ++ (Bytes.word 4 (2 + directoryPages streams + allStreamPages streams)
      ++ (Bytes.word 4 (directoryOf streams).length ++ (Bytes.word 4 0
      ++ (Bytes.word 4 1 ++ rest)))))) := by
  refine ⟨List.replicate (pagesFor writtenPageSize (headerOf streams).length * writtenPageSize
    - (headerOf streams).length) 0, ?_⟩
  rw [padded]
  generalize List.replicate _ (0 : UInt8) = rest
  rw [headerOf]
  simp only [List.append_assoc]

theorem pagesFor_listPage (h : Fits streams) :
    pagesFor writtenPageSize (4 * pagesFor writtenPageSize (directoryOf streams).length) = 1 := by
  have hpos := directoryPages_pos streams
  have hpages := h.directory
  rw [pagesFor_directoryOf, pagesFor, writtenPageSize]
  omega

theorem smallMagic_isPrefixOf (rest : Bytes) : smallMagic.isPrefixOf (magic ++ rest) = false :=
  rfl

/-- A file that begins with the fields of a header is the container that they describe. -/
theorem ofFile_of_header {file rest : Bytes} {pageSize free pageCount size unused : Nat}
    {listPages : List Nat} (hfull : (file.take headerArea).length = headerArea)
    (hheader : file.take headerArea = magic ++ (Bytes.word 4 pageSize ++ (Bytes.word 4 free
      ++ (Bytes.word 4 pageCount ++ (Bytes.word 4 size ++ (Bytes.word 4 unused ++ rest))))))
    (hpageSize : pageSize < 0x100000000) (hfree : free < 0x100000000)
    (hpageCount : pageCount < 0x100000000) (hsize : size < 0x100000000)
    (hunused : unused < 0x100000000) (hvalid : isPageSize pageSize = true)
    (hlist : takePages pageCount (pagesFor pageSize (4 * pagesFor pageSize size)) rest
      = .ok listPages) :
    ofFile file = .ok ⟨file, pageSize, pageCount, size, listPages⟩ := by
  have hmagic : magic.isPrefixOf (file.take headerArea) = true := by
    rw [hheader]
    exact List.isPrefixOf_iff_prefix.2 ⟨_, rfl⟩
  have hsmall : smallMagic.isPrefixOf (file.take headerArea) = false := by
    rw [hheader]
    exact smallMagic_isPrefixOf _
  have hlength : ¬(file.take headerArea).length < headerArea := by
    rw [hfull]
    exact Nat.lt_irrefl _
  unfold ofFile
  dsimp only
  rw [if_neg hlength, hsmall, hmagic, hheader, List.drop_left]
  simp only [Bool.not_true, Bool.false_eq_true, if_false, bind, Except.bind,
    takeNumber_four hpageSize, takeNumber_four hfree, takeNumber_four hpageCount,
    takeNumber_four hsize, takeNumber_four hunused, hvalid, hlist]
  rfl

theorem ofFile_write (h : Fits streams) : ofFile (write streams) = .ok (written streams) := by
  obtain ⟨rest, hrest⟩ := exists_padded_headerOf streams
  have hcount := h.pages
  have hone : takePages (2 + directoryPages streams + allStreamPages streams) 1
      (Bytes.word 4 1 ++ rest) = .ok [1] :=
    takePages_pageNumbers (by decide : 0 < 1) (by omega) (by omega) rest
  have hfull : ((write streams).take headerArea).length = headerArea := by
    rw [take_write]
    exact length_padded_headerOf streams
  refine ofFile_of_header hfull ((take_write streams).trans hrest) (by decide) (by decide)
    (by omega) h.directorySize (by decide) (by decide) ?_
  rw [pagesFor_listPage h, hone]

/-! ## The directory -/

theorem take_listPage (h : Fits streams) : (listPage streams).take (4 * directoryPages streams)
    = pageNumbers 2 (directoryPages streams) := by
  have hpages : 4 * directoryPages streams ≤ writtenPageSize := by
    have := h.directory
    rw [writtenPageSize]
    omega
  have htake := take_padded (pageNumbers 2 (directoryPages streams))
  rw [length_pageNumbers] at htake
  rw [listPage, List.take_take, Nat.min_eq_left hpages, htake]

theorem readPages_listPage (h : Fits streams) :
    (written streams).readPages [1] (4 * directoryPages streams)
      = .ok (pageNumbers 2 (directoryPages streams)) := by
  have hle : 4 * directoryPages streams ≤ (listPage streams).length := by
    have := h.directory
    rw [length_listPage, writtenPageSize]
    omega
  have hfile : (written streams).file = padded (headerOf streams) ++ listPage streams
      ++ (padded (directoryOf streams) ++ body streams) := by
    rw [written, write_eq, List.append_assoc]
  have hfirst : (padded (headerOf streams)).length = 1 * writtenPageSize := by
    rw [length_padded_headerOf, Nat.one_mul]
  have hlength : (listPage streams).length = 1 * writtenPageSize := by
    rw [length_listPage, Nat.one_mul]
  rw [← take_listPage h]
  exact readPages_part hfile hfirst hle hlength

theorem readPages_directoryOf (streams : List (Option Bytes)) :
    (written streams).readPages (List.range' 2 (directoryPages streams))
        (directoryOf streams).length
      = .ok (directoryOf streams) := by
  have hfile : (written streams).file = padded (headerOf streams) ++ listPage streams
      ++ padded (directoryOf streams) ++ body streams :=
    write_eq streams
  have hfirst : (padded (headerOf streams) ++ listPage streams).length = 2 * writtenPageSize := by
    rw [List.length_append, length_padded_headerOf, length_listPage, Nat.two_mul]
  have hlength : (padded (directoryOf streams)).length
      = directoryPages streams * writtenPageSize := by
    rw [length_padded, pagesFor_directoryOf]
  have hle : (directoryOf streams).length ≤ (padded (directoryOf streams)).length := by
    rw [length_padded]
    exact length_le_pages _
  rw [readPages_part hfile hfirst hle hlength, take_padded]

theorem directory_written (h : Fits streams) :
    (written streams).directory = .ok (directoryOf streams) := by
  have hcount := h.pages
  have hpages : takePages (2 + directoryPages streams + allStreamPages streams)
        (directoryPages streams) (pageNumbers 2 (directoryPages streams))
      = .ok (List.range' 2 (directoryPages streams)) := by
    have htake := takePages_pageNumbers (by decide : 0 < 2)
      (by omega : 2 + directoryPages streams
        ≤ 2 + directoryPages streams + allStreamPages streams + 1) (by omega) []
    rwa [List.append_nil] at htake
  show ((written streams).readPages [1] (4 * pagesFor writtenPageSize (directoryOf streams).length)
    >>= fun list => takePages (2 + directoryPages streams + allStreamPages streams)
      (pagesFor writtenPageSize (directoryOf streams).length) list
    >>= fun pages => (written streams).readPages pages (directoryOf streams).length) = _
  rw [pagesFor_directoryOf, readPages_listPage h]
  show (takePages (2 + directoryPages streams + allStreamPages streams)
      (directoryPages streams) (pageNumbers 2 (directoryPages streams))
    >>= fun pages => (written streams).readPages pages (directoryOf streams).length) = _
  rw [hpages]
  exact readPages_directoryOf streams

/-! ## Streams -/

theorem Fits.length_lt (h : Fits streams) {data : Bytes} (hmem : some data ∈ streams) :
    data.length < absent := by
  obtain ⟨left, right, rfl⟩ := List.append_of_mem hmem
  have hcount := h.pages
  have hsize := length_le_pages data.length
  have hstream : streamPages (some data) = pagesFor writtenPageSize data.length := rfl
  rw [allStreamPages_append, allStreamPages_cons, hstream] at hcount
  rw [writtenPageSize] at hsize hcount
  rw [absent]
  omega

theorem pagesBefore_sizeWords (hsize : ∀ data, some data ∈ streams → data.length < absent)
    (rest : Bytes) :
    pagesBefore writtenPageSize streams.length (streams.flatMap sizeWord ++ rest)
      = .ok (allStreamPages streams, rest) := by
  induction streams with
  | nil => rfl
  | cons stream streams ih =>
    have ih := ih fun data hmem => hsize data (List.mem_cons_of_mem _ hmem)
    rw [List.flatMap_cons, List.append_assoc, List.length_cons, pagesBefore, allStreamPages_cons]
    cases stream with
    | none =>
      rw [sizeWord, takeNumber_four (by decide : absent < 0x100000000)]
      simp only [bind, Except.bind, ih]
      rfl
    | some data =>
      have hlt : data.length < absent := hsize data (List.mem_cons_self ..)
      rw [sizeWord, takeNumber_four (Nat.lt_trans hlt (by decide))]
      simp only [bind, Except.bind, ih]
      rw [if_neg (Nat.ne_of_lt hlt)]
      rfl

/-- A directory in which the entry of a stream and its page numbers can be made out. -/
theorem find_of_fields {c : Container} {stream count size before : Nat}
    {sizes after skipped numbers : Bytes} {pages : List Nat} (hcount : count < 0x100000000)
    (hstream : stream < count) (hsize : size < absent)
    (hbefore : ∀ rest, pagesBefore c.pageSize stream (sizes ++ rest) = .ok (before, rest))
    (hafter : after.length = 4 * (count - stream - 1)) (hskipped : skipped.length = 4 * before)
    (hpages : takePages c.pageCount (pagesFor c.pageSize size) numbers = .ok pages) :
    c.find (Bytes.word 4 count ++ (sizes ++ (Bytes.word 4 size ++ (after ++ (skipped ++ numbers)))))
        stream
      = .ok (size, pages) := by
  have hpresent : ¬size = absent := Nat.ne_of_lt hsize
  unfold find
  simp only [takeNumber_four hcount, bind, Except.bind, if_neg (Nat.not_le.2 hstream), hbefore,
    takeNumber_four (Nat.lt_trans hsize (by decide)), if_neg hpresent, skip_append hafter,
    skip_append hskipped, hpages]
  rfl

section Stream

variable {left right : List (Option Bytes)} {data : Bytes}

/-- The directory around the entry of one stream. -/
theorem directoryOf_stream (left right : List (Option Bytes)) (data : Bytes) :
    directoryOf (left ++ some data :: right)
      = Bytes.word 4 (left.length + right.length + 1) ++ (left.flatMap sizeWord
        ++ (Bytes.word 4 data.length ++ (right.flatMap sizeWord
        ++ (pageNumbers (2 + directoryPages (left ++ some data :: right)) (allStreamPages left)
        ++ (pageNumbers (2 + directoryPages (left ++ some data :: right) + allStreamPages left)
            (pagesFor writtenPageSize data.length)
        ++ pageNumbers (2 + directoryPages (left ++ some data :: right) + allStreamPages left
            + pagesFor writtenPageSize data.length) (allStreamPages right)))))) := by
  rw [directoryOf, streamSizes_eq, allStreamPages_append, allStreamPages_cons, pageNumbers_add,
    streamPages, pageNumbers_add, List.flatMap_append, List.flatMap_cons, List.length_append,
    List.length_cons, ← Nat.add_assoc, sizeWord]
  simp only [List.append_assoc]

theorem find_written (h : Fits (left ++ some data :: right)) :
    (written (left ++ some data :: right)).find (directoryOf (left ++ some data :: right))
        left.length
      = .ok (data.length,
          List.range' (2 + directoryPages (left ++ some data :: right) + allStreamPages left)
            (pagesFor writtenPageSize data.length)) := by
  have hcount := h.pages
  have hpages : (written (left ++ some data :: right)).pageCount
      = 2 + directoryPages (left ++ some data :: right) + (allStreamPages left
        + (pagesFor writtenPageSize data.length + allStreamPages right)) := by
    rw [written, allStreamPages_append, allStreamPages_cons, streamPages]
  have hlength : left.length + right.length + 1 < 0x100000000 := by
    have := h.directorySize
    rw [length_directoryOf, List.length_append, List.length_cons] at this
    omega
  rw [allStreamPages_append, allStreamPages_cons, streamPages] at hcount
  rw [directoryOf_stream]
  refine find_of_fields hlength (by omega) (h.length_lt (by simp)) ?_ ?_
    (length_pageNumbers _ _) ?_
  · exact pagesBefore_sizeWords fun data hmem => h.length_lt (List.mem_append_left _ hmem)
  · rw [length_sizeWords]
    omega
  · have hsize : (written (left ++ some data :: right)).pageSize = writtenPageSize := rfl
    rw [hsize]
    exact takePages_pageNumbers (by omega) (by omega) (by omega) _

/-- Every stream is read back as it was given to the writer. -/
theorem stream_written (left : List (Option Bytes)) {right : List (Option Bytes)} {data : Bytes}
    (h : Fits (left ++ some data :: right)) :
    (written (left ++ some data :: right)).stream left.length = .ok data := by
  have hfile : (written (left ++ some data :: right)).file
      = (padded (headerOf (left ++ some data :: right)) ++ listPage (left ++ some data :: right)
        ++ padded (directoryOf (left ++ some data :: right)) ++ body left) ++ padded data
        ++ body right := by
    rw [written, write_eq, body, List.flatMap_append, List.flatMap_cons]
    simp only [List.append_assoc]
    rfl
  have hfirst : (padded (headerOf (left ++ some data :: right))
        ++ listPage (left ++ some data :: right)
        ++ padded (directoryOf (left ++ some data :: right)) ++ body left).length
      = (2 + directoryPages (left ++ some data :: right) + allStreamPages left)
        * writtenPageSize := by
    rw [List.length_append, List.length_append, List.length_append, length_padded_headerOf,
      length_listPage, length_padded, pagesFor_directoryOf, length_body, Nat.add_mul, Nat.add_mul,
      Nat.two_mul]
  have hle : data.length ≤ (padded data).length := by
    rw [length_padded]
    exact length_le_pages _
  have hread := readPages_part hfile hfirst hle (length_padded data)
  rw [take_padded] at hread
  show ((written (left ++ some data :: right)).directory >>= fun directory =>
    (written (left ++ some data :: right)).find directory left.length >>= fun entry =>
      (written (left ++ some data :: right)).readPages entry.2 entry.1) = _
  rw [directory_written h]
  show ((written (left ++ some data :: right)).find _ left.length >>= fun entry =>
      (written (left ++ some data :: right)).readPages entry.2 entry.1) = _
  rw [find_written h]
  exact hread

end Stream

end OffsetService.Container
