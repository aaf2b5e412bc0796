import OffsetService.Proofs.Image.Reading

/-!
# Which images have a debug identity

An image has a usable debug identity exactly when it has the layout that `Describes` states, and the
identity is the one that the layout describes (`identity_eq_iff`). Of each section header it takes
the bytes up to the last field that counts: an image whose last header is cut behind that field is
read like any other (`identity_of_cut_section_header`).
-/

namespace OffsetService.Image

/-! ## Texts of a record -/

/-- Bytes from the last to the first are the digits of the number that they spell. -/
theorem flatMap_fixed_reverse (bytes : Bytes) :
    (bytes.reverse.flatMap fun b => Hex.fixed .upper 2 b.toNat)
      = Hex.fixed .upper (2 * bytes.length) (Bytes.littleEndian bytes) := by
  induction bytes with
  | nil => rfl
  | cons x rest ih =>
    have hx : x.toNat < 256 := x.toNat_lt
    have hhigh : (x.toNat + 256 * Bytes.littleEndian rest) / 16 / 16
        = Bytes.littleEndian rest := by omega
    have hmiddle : (x.toNat + 256 * Bytes.littleEndian rest) / 16 % 16 = x.toNat / 16 % 16 := by
      omega
    have hlow : (x.toNat + 256 * Bytes.littleEndian rest) % 16 = x.toNat % 16 := by omega
    rw [List.reverse_cons, List.flatMap_append, ih, List.length_cons, Nat.mul_succ]
    simp only [Bytes.littleEndian, Hex.fixed, hhigh, hmiddle, hlow]
    simp

theorem uniqueId_append {first second third rest : Bytes} (hfirst : first.length = 4)
    (hsecond : second.length = 2) (hthird : third.length = 2) :
    uniqueId (first ++ (second ++ (third ++ rest)))
      = guidText (Bytes.littleEndian first) (Bytes.littleEndian second)
          (Bytes.littleEndian third) rest := by
  have h1 := flatMap_fixed_reverse first
  have h2 := flatMap_fixed_reverse second
  have h3 := flatMap_fixed_reverse third
  rw [hfirst] at h1
  rw [hsecond] at h2
  rw [hthird] at h3
  have hfirst' : first.drop 6 = [] ∧ first.drop 8 = [] :=
    ⟨List.drop_eq_nil_of_le (by omega), List.drop_eq_nil_of_le (by omega)⟩
  have hsecond' : second.drop 4 = [] := List.drop_eq_nil_of_le (by omega)
  simp only [uniqueId, upperHex, guidText, ← h1, ← h2, ← h3]
  simp [List.drop_append, hfirst, hsecond, hthird, hfirst', hsecond']

/-- The words of a unique id and the bytes behind them are the whole. -/
theorem take_drop_uniqueId (id : Bytes) :
    id.take 4 ++ ((id.drop 4).take 2 ++ ((id.drop 6).take 2 ++ id.drop 8)) = id := by
  have hthird : (id.drop 6).take 2 ++ id.drop 8 = id.drop 6 := by
    have hparts := List.take_append_drop 2 (id.drop 6)
    rwa [List.drop_drop] at hparts
  have hsecond : (id.drop 4).take 2 ++ id.drop 6 = id.drop 4 := by
    have hparts := List.take_append_drop 2 (id.drop 4)
    rwa [List.drop_drop] at hparts
  rw [hthird, hsecond, List.take_append_drop]

theorem guidText_ne_empty (first second third : Nat) (rest : Bytes) :
    guidText first second third rest ≠ "" := by
  intro h
  have hlength := congrArg (fun s : String => s.toList.length) h
  simp [guidText] at hlength

theorem isSeparator_iff {c : Char} : isSeparator c = true ↔ c = '\\' ∨ c = '/' := by
  simp [isSeparator]

/-- The last component of a path is what stands behind its last separator. -/
theorem lastComponent_eq_iff {path name : List Char} :
    lastComponent path = name ↔ ∃ folder, path = folder ++ name ∧
      (∀ c ∈ name, c ≠ '\\' ∧ c ≠ '/') ∧
      (folder = [] ∨ ∃ above, folder = above ++ ['\\'] ∨ folder = above ++ ['/']) := by
  unfold lastComponent
  constructor
  · rintro rfl
    refine ⟨(path.reverse.dropWhile (!isSeparator ·)).reverse, ?_, fun c hc => ?_, ?_⟩
    · rw [← List.reverse_append, List.takeWhile_append_dropWhile, List.reverse_reverse]
    · have hplain : (path.reverse.takeWhile (!isSeparator ·)).all (!isSeparator ·) = true :=
        List.all_takeWhile
      have := List.all_eq_true.1 hplain c (List.mem_reverse.1 hc)
      rw [Bool.not_eq_true', Bool.eq_false_iff, ne_eq, isSeparator_iff, not_or] at this
      exact this
    · cases hrest : path.reverse.dropWhile (!isSeparator ·) with
      | nil => exact .inl rfl
      | cons c above =>
        right
        have hhead := List.head?_dropWhile_not (!isSeparator ·) path.reverse
        rw [hrest] at hhead
        refine ⟨above.reverse, ?_⟩
        have hc : isSeparator c = true := by simpa using hhead
        rw [List.reverse_cons]
        rcases isSeparator_iff.1 hc with rfl | rfl
        · exact .inl rfl
        · exact .inr rfl
  · rintro ⟨folder, rfl, hname, hfolder⟩
    have hplain : ∀ c ∈ name.reverse, (!isSeparator c) = true := by
      intro c hc
      rw [Bool.not_eq_true', Bool.eq_false_iff, ne_eq, isSeparator_iff, not_or]
      exact hname c (List.mem_reverse.1 hc)
    rw [List.reverse_append, List.takeWhile_append_of_pos hplain]
    have hstop : folder.reverse.takeWhile (!isSeparator ·) = [] := by
      rcases hfolder with rfl | ⟨above, rfl | rfl⟩
      · rfl
      · simp [isSeparator]
      · simp [isSeparator]
    rw [hstop, List.append_nil, List.reverse_reverse]

/-- A file name is read exactly where the path names it. -/
theorem fileName_eq_iff {path : Bytes} {name : String} :
    fileName path = name ↔ NamedBy path name := by
  unfold fileName NamedBy
  have hlist : ∀ cs : List Char, String.ofList cs = name ↔ cs = name.toList := by
    intro cs
    constructor
    · rintro rfl
      simp
    · rintro rfl
      simp
  rw [hlist]
  constructor
  · intro h
    obtain ⟨folder, htext, hplain, hfolder⟩ := lastComponent_eq_iff.1 h
    refine ⟨path.takeWhile (· ≠ 0), folder, fun hzero => ?_, ?_, htext, hplain, hfolder⟩
    · have hall : (path.takeWhile (· ≠ 0)).all (· ≠ 0) = true := List.all_takeWhile
      simpa using List.all_eq_true.1 hall 0 hzero
    · have hsplit : path.takeWhile (· ≠ 0) ++ path.dropWhile (· ≠ 0) = path :=
        List.takeWhile_append_dropWhile
      cases hrest : path.dropWhile (· ≠ 0) with
      | nil => left; rw [hrest, List.append_nil] at hsplit; exact hsplit.symm
      | cons b rest =>
        right
        have hhead := List.head?_dropWhile_not (· ≠ (0 : UInt8)) path
        rw [hrest] at hhead
        have hb : b = 0 := by simpa using hhead
        subst hb
        exact ⟨rest, by rw [← hrest]; exact hsplit.symm⟩
  · rintro ⟨text, folder, hzero, hpath, htext, hplain, hfolder⟩
    have htake : path.takeWhile (· ≠ 0) = text := by
      have hall : ∀ b ∈ text, decide (b ≠ (0 : UInt8)) = true := by
        intro b hb
        refine decide_eq_true ?_
        rintro rfl
        exact hzero hb
      rcases hpath with rfl | ⟨rest, rfl⟩
      · have hself : (path ++ []).takeWhile (· ≠ 0) = path ++ [] :=
          List.takeWhile_append_of_pos hall
        rwa [List.append_nil] at hself
      · rw [List.takeWhile_append_of_pos hall]
        simp
    rw [htake]
    exact lastComponent_eq_iff.2 ⟨folder, htext, hplain, hfolder⟩

/-! ## Debug records -/

/-- A record in the newer format: its fields are where their lengths put them. -/
theorem ofRecord_rsds {first second third rest age : Bytes} (path : Bytes)
    (hfirst : first.length = 4) (hsecond : second.length = 2) (hthird : third.length = 2)
    (hrest : rest.length = 8) (hage : age.length = 4) :
    (ofRecord ([0x52, 0x53, 0x44, 0x53] ++ first ++ second ++ third ++ rest ++ age ++ path)).outcome
      = .ok ⟨fileName path, guidText (Bytes.littleEndian first) (Bytes.littleEndian second)
          (Bytes.littleEndian third) rest, (Bytes.littleEndian age).toUInt32⟩ := by
  generalize hrecord : [0x52, 0x53, 0x44, 0x53] ++ first ++ second ++ third ++ rest ++ age ++ path
    = record
  have hguid : (first ++ (second ++ (third ++ rest))).length = 16 := by
    simp [hfirst, hsecond, hthird, hrest]
  have hsplit : record = [0x52, 0x53, 0x44, 0x53]
      ++ ((first ++ (second ++ (third ++ rest))) ++ (age ++ path)) := by
    simp [← hrecord, List.append_assoc]
  have hsignature : record.take 4 = [0x52, 0x53, 0x44, 0x53] := by rw [hsplit]; rfl
  have hbody : record.drop 4 = (first ++ (second ++ (third ++ rest))) ++ (age ++ path) := by
    rw [hsplit]; rfl
  have htail : record.drop 20 = age ++ path := by
    rw [show 20 = 4 + 16 from rfl, ← List.drop_drop, hbody, List.drop_left' hguid]
  have hpath : record.drop 24 = path := by
    rw [show 24 = 20 + 4 from rfl, ← List.drop_drop, htail, List.drop_left' hage]
  have hlength : 24 ≤ record.length := by
    simp only [hsplit, List.length_append, hguid, hage, List.length_cons]
    omega
  have hfour : ¬record.length < 4 := by omega
  have hlong : ¬record.length < 24 := by omega
  unfold ofRecord
  simp only [hsignature, if_neg hfour, if_neg hlong, if_true, hbody, htail, hpath,
    List.take_left' hguid, List.take_left' hage, uniqueId_append hfirst hsecond hthird]
  rfl

/-- A record in the older format. -/
theorem ofRecord_nb10 {skipped signature age : Bytes} (path : Bytes) (hskipped : skipped.length = 4)
    (hsignature : signature.length = 4) (hage : age.length = 4) :
    (ofRecord ([0x4E, 0x42, 0x31, 0x30] ++ skipped ++ signature ++ age ++ path)).outcome
      = .ok ⟨fileName path, String.ofList (Hex.fixed .upper 8 (Bytes.littleEndian signature)),
          (Bytes.littleEndian age).toUInt32⟩ := by
  generalize hrecord : [0x4E, 0x42, 0x31, 0x30] ++ skipped ++ signature ++ age ++ path = record
  have hsplit : record = [0x4E, 0x42, 0x31, 0x30] ++ (skipped ++ (signature ++ (age ++ path))) := by
    simp [← hrecord, List.append_assoc]
  have hfound : record.take 4 = [0x4E, 0x42, 0x31, 0x30] := by rw [hsplit]; rfl
  have hbody : record.drop 4 = skipped ++ (signature ++ (age ++ path)) := by rw [hsplit]; rfl
  have hnumber : record.drop 8 = signature ++ (age ++ path) := by
    rw [show 8 = 4 + 4 from rfl, ← List.drop_drop, hbody, List.drop_left' hskipped]
  have htail : record.drop 12 = age ++ path := by
    rw [show 12 = 8 + 4 from rfl, ← List.drop_drop, hnumber, List.drop_left' hsignature]
  have hpath : record.drop 16 = path := by
    rw [show 16 = 12 + 4 from rfl, ← List.drop_drop, htail, List.drop_left' hage]
  have hlength : 16 ≤ record.length := by
    simp only [hsplit, List.length_append, hskipped, hsignature, hage, List.length_cons]
    omega
  have hfour : ¬record.length < 4 := by omega
  have hlong : ¬record.length < 16 := by omega
  have hdigits := flatMap_fixed_reverse signature
  rw [hsignature] at hdigits
  have hother : ¬([0x4E, 0x42, 0x31, 0x30] : Bytes) = [0x52, 0x53, 0x44, 0x53] := by decide
  unfold ofRecord
  simp only [hfound, if_neg hfour, if_neg hlong, if_neg hother, if_true, hnumber, htail, hpath,
    List.take_left' hsignature, List.take_left' hage, upperHex, hdigits]
  rfl

/-- The four bytes of an age spell it. -/
theorem littleEndian_word_toUInt32 (age : UInt32) :
    (Bytes.littleEndian (Bytes.word 4 age.toNat)).toUInt32 = age := by
  have hlt : age.toNat < Bytes.capacity 4 := age.toNat_lt
  rw [Bytes.littleEndian_word, Nat.mod_eq_of_lt hlt]
  exact UInt32.ofNat_toNat

theorem word_toUInt32_littleEndian {age : Bytes} (hage : age.length = 4) :
    Bytes.word 4 (Bytes.littleEndian age).toUInt32.toNat = age := by
  have hlt : Bytes.littleEndian age < Bytes.capacity 4 := hage ▸ Bytes.littleEndian_lt age
  have hsame : (Bytes.littleEndian age).toUInt32.toNat = Bytes.littleEndian age :=
    Nat.mod_eq_of_lt hlt
  rw [hsame]
  exact hage ▸ Bytes.word_littleEndian age

/-- A record that names a database is decoded to what it names. -/
theorem ofRecord_of_names {record : Bytes} {id : Identity} (h : Names record id) :
    (ofRecord record).outcome = .ok id ∧ id.uniqueId ≠ "" := by
  cases h with
  | @rsds first second third rest path name age hfirst hsecond hthird hrest named =>
    have hfirst' : first < Bytes.capacity 4 := hfirst
    have hsecond' : second < Bytes.capacity 2 := hsecond
    have hthird' : third < Bytes.capacity 2 := hthird
    have hread := ofRecord_rsds path (Bytes.length_word 4 first) (Bytes.length_word 2 second)
      (Bytes.length_word 2 third) hrest (Bytes.length_word 4 age.toNat)
    rw [hread, littleEndian_word_toUInt32, fileName_eq_iff.2 named, Bytes.littleEndian_word,
      Bytes.littleEndian_word, Bytes.littleEndian_word, Nat.mod_eq_of_lt hfirst',
      Nat.mod_eq_of_lt hsecond', Nat.mod_eq_of_lt hthird']
    exact ⟨rfl, guidText_ne_empty _ _ _ _⟩
  | @nb10 skipped path signature name age hskipped hsignature named =>
    have hsignature' : signature < Bytes.capacity 4 := hsignature
    have hread := ofRecord_nb10 path hskipped (Bytes.length_word 4 signature)
      (Bytes.length_word 4 age.toNat)
    rw [hread, littleEndian_word_toUInt32, fileName_eq_iff.2 named, Bytes.littleEndian_word,
      Nat.mod_eq_of_lt hsignature']
    refine ⟨rfl, fun hempty => ?_⟩
    have hlength := congrArg (fun s : String => s.toList.length) hempty
    simp at hlength

/-- Bytes of which there are enough begin with a field. -/
theorem exists_field (bytes : Bytes) {length : Nat} (h : length ≤ bytes.length) :
    ∃ field rest, bytes = field ++ rest ∧ field.length = length :=
  ⟨bytes.take length, bytes.drop length, (List.take_append_drop _ _).symm,
    List.length_take_of_le h⟩

theorem littleEndian_lt_capacity {field : Bytes} {width : Nat} (h : field.length = width) :
    Bytes.littleEndian field < Bytes.capacity width :=
  h ▸ Bytes.littleEndian_lt field

theorem word_littleEndian_of_length {field : Bytes} {width : Nat} (h : field.length = width) :
    Bytes.word width (Bytes.littleEndian field) = field :=
  h ▸ Bytes.word_littleEndian field

/-- A long enough record in the newer format names what it is decoded to. -/
theorem names_of_rsds {body : Bytes} {id : Identity} (hlong : 20 ≤ body.length)
    (h : (ofRecord ([0x52, 0x53, 0x44, 0x53] ++ body)).outcome = .ok id) :
    Names ([0x52, 0x53, 0x44, 0x53] ++ body) id := by
  obtain ⟨first, body, rfl, hfirst⟩ := exists_field body (show 4 ≤ body.length by omega)
  rw [List.length_append, hfirst] at hlong
  obtain ⟨second, body, rfl, hsecond⟩ := exists_field body (show 2 ≤ body.length by omega)
  rw [List.length_append, hsecond] at hlong
  obtain ⟨third, body, rfl, hthird⟩ := exists_field body (show 2 ≤ body.length by omega)
  rw [List.length_append, hthird] at hlong
  obtain ⟨rest, body, rfl, hrest⟩ := exists_field body (show 8 ≤ body.length by omega)
  rw [List.length_append, hrest] at hlong
  obtain ⟨age, path, rfl, hage⟩ := exists_field body (show 4 ≤ body.length by omega)
  simp only [← List.append_assoc] at h ⊢
  rw [ofRecord_rsds path hfirst hsecond hthird hrest hage] at h
  cases h
  have hnames : Names ([0x52, 0x53, 0x44, 0x53] ++ Bytes.word 4 (Bytes.littleEndian first)
      ++ Bytes.word 2 (Bytes.littleEndian second) ++ Bytes.word 2 (Bytes.littleEndian third) ++ rest
      ++ Bytes.word 4 (Bytes.littleEndian age).toUInt32.toNat ++ path) _ :=
    .rsds (littleEndian_lt_capacity hfirst) (littleEndian_lt_capacity hsecond)
      (littleEndian_lt_capacity hthird) hrest (fileName_eq_iff.1 rfl)
  rwa [word_littleEndian_of_length hfirst, word_littleEndian_of_length hsecond,
    word_littleEndian_of_length hthird, word_toUInt32_littleEndian hage] at hnames

/-- A long enough record in the older format names what it is decoded to. -/
theorem names_of_nb10 {body : Bytes} {id : Identity} (hlong : 12 ≤ body.length)
    (h : (ofRecord ([0x4E, 0x42, 0x31, 0x30] ++ body)).outcome = .ok id) :
    Names ([0x4E, 0x42, 0x31, 0x30] ++ body) id := by
  obtain ⟨skipped, body, rfl, hskipped⟩ := exists_field body (show 4 ≤ body.length by omega)
  rw [List.length_append, hskipped] at hlong
  obtain ⟨signature, body, rfl, hsignature⟩ := exists_field body (show 4 ≤ body.length by omega)
  rw [List.length_append, hsignature] at hlong
  obtain ⟨age, path, rfl, hage⟩ := exists_field body (show 4 ≤ body.length by omega)
  simp only [← List.append_assoc] at h ⊢
  rw [ofRecord_nb10 path hskipped hsignature hage] at h
  cases h
  have hnames : Names ([0x4E, 0x42, 0x31, 0x30] ++ skipped
      ++ Bytes.word 4 (Bytes.littleEndian signature)
      ++ Bytes.word 4 (Bytes.littleEndian age).toUInt32.toNat ++ path) _ :=
    .nb10 hskipped (littleEndian_lt_capacity hsignature) (fileName_eq_iff.1 rfl)
  rwa [word_littleEndian_of_length hsignature, word_toUInt32_littleEndian hage] at hnames

/-- A record that is decoded to a usable identity names it. -/
theorem names_of_ofRecord {record : Bytes} {id : Identity}
    (h : (ofRecord record).outcome = .ok id) (usable : id.uniqueId ≠ "") : Names record id := by
  have hread := h
  unfold ofRecord at h
  dsimp only at h
  -- any record without a known format gives the identity without a unique id
  have hnone : (do Traced.report (.unknownRecordFormat
      (if record.length < 4 then [] else record.take 4)); pure Identity.none :
      Traced Identity).outcome = .ok id → Names record id := by
    intro heq
    cases heq
    exact absurd rfl usable
  by_cases hshort : record.length < 4
  · rw [if_pos hshort] at h hnone
    exact hnone h
  · rw [if_neg hshort] at h hnone
    -- a record of a known format is its signature and the rest
    have hsplit := List.take_append_drop 4 record
    have hlength : (record.drop 4).length = record.length - 4 := List.length_drop
    split at h
    next hsignature =>
      split at h
      next => cases h
      next hlong =>
        rw [hsignature] at hsplit
        rw [← hsplit] at hread ⊢
        exact names_of_rsds (by omega) hread
    next =>
      split at h
      next hsignature =>
        split at h
        next => cases h
        next hlong =>
          rw [hsignature] at hsplit
          rw [← hsplit] at hread ⊢
          exact names_of_nb10 (by omega) hread
      next => exact hnone h

/-! ## The whole image -/

/-- The identity of an image is what its record is decoded to, and no identity where there is no
record. -/
theorem outcome_identity (image : Bytes) :
    (identity image).outcome = (locate .exact image).outcome >>= fun
      | none => .ok Identity.none
      | some (pointer, size) =>
        recordAt image pointer size >>= fun record => (ofRecord record).outcome := by
  unfold identity identityBy
  rw [Traced.outcome_bind]
  congr 1
  funext found
  cases found with
  | none => rfl
  | some place =>
    dsimp only
    rw [Traced.outcome_bind, Traced.outcome_ofExcept]

/-- **The debug identity of an image.** The reader gives an identity with a unique id exactly for
the images with the layout, and then the identity that the layout describes. Each section header
has to be inside the image up to its last field that counts. -/
theorem identity_eq_iff (image : Bytes) (id : Identity) :
    (identity image).outcome = .ok id ∧ id.uniqueId ≠ "" ↔
      ∃ l, Describes sectionFieldsEnd image l id := by
  unfold identity identityBy
  rw [Traced.outcome_bind]
  constructor
  · rintro ⟨h, usable⟩
    obtain ⟨found, hlocate, h⟩ := bind_eq_ok_iff.1 h
    cases found with
    | none =>
      cases h
      exact absurd rfl usable
    | some place =>
      obtain ⟨pointer, size⟩ := place
      dsimp only at h
      rw [Traced.outcome_bind, Traced.outcome_ofExcept] at h
      obtain ⟨record, hrecord, hread⟩ := bind_eq_ok_iff.1 h
      obtain ⟨l, hlaidOut, rfl, rfl⟩ := laidOut_of_locate hlocate
      obtain ⟨hinside, rfl⟩ := recordAt_eq_ok_iff.1 hrecord
      exact ⟨l, hlaidOut, hinside, names_of_ofRecord hread usable⟩
  · rintro ⟨l, hlaidOut, hinside, hnames⟩
    obtain ⟨hread, usable⟩ := ofRecord_of_names hnames
    refine ⟨bind_eq_ok_iff.2 ⟨_, locate_of_laidOut hlaidOut, ?_⟩, usable⟩
    dsimp only
    rw [Traced.outcome_bind, Traced.outcome_ofExcept]
    exact bind_eq_ok_iff.2 ⟨_, recordAt_eq_ok_iff.2 ⟨hinside, rfl⟩, hread⟩

/-- An image that ends behind the last field that counts of its one section header. The debug entry
and the record stand in the gap before the file header. -/
def cutImage : Bytes :=
  [0x4D, 0x5A, 0, 0]
    ++ (List.replicate 12 0 ++ Bytes.word 4 2 ++ Bytes.word 4 28 ++ Bytes.word 4 0
      ++ Bytes.word 4 32)
    ++ ([0x52, 0x53, 0x44, 0x53] ++ (List.range 16).map (UInt8.ofNat <| 0x10 + ·) ++ Bytes.word 4 3
      ++ [0x70, 0, 0, 0])
    ++ Bytes.word 4 64
    ++ ([0x50, 0x45, 0, 0] ++ Bytes.word 2 0x14C ++ Bytes.word 2 1 ++ List.replicate 12 0
      ++ Bytes.word 2 152 ++ Bytes.word 2 0)
    ++ (List.replicate 92 0 ++ Bytes.word 4 7 ++ List.replicate 48 0 ++ Bytes.word 4 0x1000
      ++ Bytes.word 4 28)
    ++ (List.replicate 8 0 ++ Bytes.word 4 0x1000 ++ Bytes.word 4 0x1000 ++ Bytes.word 4 0x1000
      ++ Bytes.word 4 4)

/-- What the record of `cutImage` names. -/
def cutIdentity : Identity := ⟨"p", "131211101514171618191A1B1C1D1E1F", 3⟩

/-- Whole section headers are more than the reader asks for: it gives the identity of an image whose
section header is cut. -/
theorem identity_of_cut_section_header :
    ((identity cutImage).outcome = .ok cutIdentity ∧ cutIdentity.uniqueId ≠ "") ∧
      ¬∃ l, Describes sectionHeaderSize cutImage l cutIdentity := by
  refine ⟨⟨rfl, by decide⟩, ?_⟩
  rintro ⟨l, h, -, -⟩
  have hnewHeader := h.newHeader.eq (show Spells cutImage 0x3C 4 64 by decide +kernel)
  have hcount := h.sectionCount
  have hsize := h.optionalSize
  rw [hnewHeader] at hcount hsize
  have hone := hcount.eq (show Spells cutImage 70 2 1 by decide +kernel)
  have htable := hsize.eq (show Spells cutImage 84 2 152 by decide +kernel)
  obtain ⟨hlength, hall⟩ := h.sections
  have hfirst : 0 < l.sections.length := by omega
  have hinside := (hall 0 _ (List.getElem?_eq_getElem hfirst)).inside
  -- the header would end at byte 280 of 264
  have himage : cutImage.length = 264 := by decide +kernel
  simp only [Layout.sectionTable, Layout.optionalHeader, sectionHeaderSize, hnewHeader, htable]
    at hinside
  omega

end OffsetService.Image
