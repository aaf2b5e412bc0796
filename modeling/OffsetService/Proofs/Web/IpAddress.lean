import OffsetService.Proofs.Digits
import OffsetService.Web.IpAddress

/-!
# The text of an address is read back

Of the many texts of an address the one that is written names that address (`ofText?_text`). Four
decimal bytes are read back between their dots (`octets?_dotted`) and groups between their colons
(`endGroups?_colonized`). Groups between single colons never make a double colon, so the first one
stands where the run of zeros was left out (`splitGap_colonized_append`), and as many zeros are put
there as were left out (`take_replicate_drop_longestGap`).
-/

namespace OffsetService.IpAddress

/-! ## Decimal bytes -/

theorem octet?_toDigits (byte : UInt8) : octet? (Nat.toDigits 10 byte.toNat) = some byte := by
  have hall : ∀ n < 256, octet? (Nat.toDigits 10 n) = some n.toUInt8 := by decide +kernel
  rw [hall byte.toNat byte.toNat_lt, Nat.toUInt8_eq, UInt8.ofNat_toNat]

theorem toList_dotted (a b c d : UInt8) : (dotted a b c d).toList
    = ['.'].intercalate ([a, b, c, d].map fun byte => Nat.toDigits 10 byte.toNat) := by
  rw [dotted, String.toList_intercalate, List.map_map]
  exact congrArg _ (List.map_congr_left fun byte _ => Nat.toList_repr)

theorem octets?_dotted (a b c d : UInt8) : octets? (dotted a b c d).toList = some (a, b, c, d) := by
  have hdots : ∀ field ∈ [a, b, c, d].map (fun byte => Nat.toDigits 10 byte.toNat),
      '.' ∉ field := by
    intro field hfield
    obtain ⟨byte, -, rfl⟩ := List.mem_map.1 hfield
    exact Digits.notMem_toDigits (.inl rfl) (by decide) _
  rw [octets?, toList_dotted, Fields.split_intercalate (by simp) hdots]
  simp only [List.map_cons, List.map_nil, octet?_toDigits]

/-- A text with a colon is not four decimal bytes. -/
theorem octets?_of_colon {text : List Char} (h : ':' ∈ text) : octets? text = none := by
  obtain ⟨field, hfield, hmem⟩ : ∃ field ∈ Fields.split (· = '.') text, ':' ∈ field :=
    Fields.exists_field_of_mem h (by decide)
  have hoctet : octet? field = none := by
    rw [octet?, Digits.read?_eq_none_of_mem hmem (by decide)]
  have hnone : none ∈ (Fields.split (· = '.') text).map octet? :=
    List.mem_map.2 ⟨field, hfield, hoctet⟩
  rw [octets?]
  split
  next a b c d heq =>
    rw [heq] at hnone
    simp at hnone
  next => rfl

/-! ## Groups -/

theorem group?_toDigits (group : UInt16) : group? (Nat.toDigits 16 group.toNat) = some group := by
  have hlength := Nat.toDigits_length 16 group.toNat 4 (by decide) group.toNat_lt
  rw [group?, if_pos hlength, Digits.read?_hex, Option.map_some, Nat.toUInt16_eq,
    UInt16.ofNat_toNat]

theorem groupOf_halves (group : UInt16) :
    groupOf (group >>> 8).toUInt8 group.toUInt8 = group := by
  have hlt : group.toNat < 2 ^ 16 := group.toNat_lt
  have hshift : UInt16.toNat 8 % 16 = 8 := rfl
  rw [← UInt16.toNat_inj, groupOf, UInt16.toNat_or, UInt16.toNat_shiftLeft]
  simp only [UInt8.toNat_toUInt16, UInt16.toNat_toUInt8, UInt16.toNat_shiftRight,
    Nat.shiftRight_eq_div_pow, Nat.shiftLeft_eq, hshift]
  have hhigh : group.toNat / 2 ^ 8 % 2 ^ 8 * 2 ^ 8 % 2 ^ 16 = 2 ^ 8 * (group.toNat / 2 ^ 8) := by
    omega
  rw [hhigh, ← Nat.two_pow_add_eq_or_of_lt (Nat.mod_lt _ (by decide)), Nat.div_add_mod]

/-- The characters of a group. -/
def digitsOf (group : UInt16) : List Char := Nat.toDigits 16 group.toNat

theorem toList_colonized (groups : List UInt16) :
    (colonized groups).toList = [':'].intercalate (groups.map digitsOf) := by
  rw [colonized, String.toList_intercalate, List.map_map]
  congr 1
  refine List.map_congr_left fun group _ => ?_
  rw [Function.comp_apply, Hex.lower, String.toList_ofList, digitsOf]

theorem toList_colonized_singleton (group : UInt16) :
    (colonized [group]).toList = digitsOf group := by
  rw [toList_colonized, List.map_singleton, List.intercalate_singleton]

theorem toList_colonized_cons_cons (group next : UInt16) (others : List UInt16) :
    (colonized (group :: next :: others)).toList
      = digitsOf group ++ ':' :: (colonized (next :: others)).toList := by
  rw [toList_colonized, toList_colonized, List.map_cons, List.map_cons,
    List.intercalate_cons_cons, List.append_assoc]
  rfl

theorem colon_notMem_digitsOf (group : UInt16) : ':' ∉ digitsOf group :=
  Digits.notMem_toDigits (.inr rfl) (by decide) _

theorem split_colonized {groups : List UInt16} (hne : groups ≠ []) :
    Fields.split (· = ':') (colonized groups).toList = groups.map digitsOf := by
  rw [toList_colonized]
  refine Fields.split_intercalate (by simpa using hne) fun field hfield => ?_
  obtain ⟨group, -, rfl⟩ := List.mem_map.1 hfield
  exact colon_notMem_digitsOf group

theorem mapM_group?_digitsOf (groups : List UInt16) :
    (groups.map digitsOf).mapM group? = some groups := by
  induction groups with
  | nil => rfl
  | cons group rest ih =>
    rw [List.map_cons, List.mapM_cons, ih, digitsOf, group?_toDigits]
    rfl

theorem digitsOf_ne_nil (group : UInt16) : digitsOf group ≠ [] :=
  Nat.toDigits_ne_nil

theorem colonized_ne_nil {groups : List UInt16} (hne : groups ≠ []) :
    (colonized groups).toList ≠ [] := by
  intro hnil
  have hfields := split_colonized hne
  rw [hnil] at hfields
  obtain ⟨group, rest, rfl⟩ := List.exists_cons_of_ne_nil hne
  exact digitsOf_ne_nil group (List.cons.inj hfields).1.symm

theorem groups?_colonized (groups : List UInt16) :
    groups? (colonized groups).toList = some groups := by
  by_cases hne : groups = []
  · rw [hne]
    rfl
  · rw [groups?, if_neg (colonized_ne_nil hne), split_colonized hne, mapM_group?_digitsOf]

theorem lastGroups?_digitsOf (group : UInt16) : lastGroups? (digitsOf group) = some [group] := by
  have hdot : '.' ∉ digitsOf group := Digits.notMem_toDigits (.inr rfl) (by decide) _
  have hbytes : octets? (digitsOf group) = none := by
    rw [octets?, Fields.split_of_notMem hdot, List.map_singleton]
    cases octet? (digitsOf group) <;> rfl
  rw [lastGroups?, hbytes, digitsOf, group?_toDigits]
  rfl

theorem lastGroups?_dotted (a b c d : UInt8) :
    lastGroups? (dotted a b c d).toList = some [groupOf a b, groupOf c d] := by
  rw [lastGroups?, octets?_dotted]

theorem endGroups?_colonized (groups : List UInt16) :
    endGroups? (colonized groups).toList = some groups := by
  rcases List.eq_nil_or_concat groups with rfl | ⟨front, last, rfl⟩
  · rfl
  · have hne : front.concat last ≠ [] := by simp
    have hfields : Fields.split (· = ':') (colonized (front.concat last)).toList
        = front.map digitsOf ++ [digitsOf last] := by
      rw [split_colonized hne, List.concat_eq_append, List.map_append]
      rfl
    rw [endGroups?, if_neg (colonized_ne_nil hne), hfields]
    simp only [List.dropLast_concat, mapM_group?_digitsOf, List.getLast?_concat, Option.getD_some,
      lastGroups?_digitsOf, List.concat_eq_append]

/-! ## The double colon -/

theorem splitGap_append {front : List Char} (h : ':' ∉ front) (rest : List Char) :
    splitGap (front ++ rest) = (splitGap rest).map fun gap => (front ++ gap.1, gap.2) := by
  induction front with
  | nil => simp
  | cons c more ih =>
    rw [List.mem_cons, not_or] at h
    have hc : c ≠ ':' := fun heq => h.1 heq.symm
    rw [List.cons_append, splitGap]
    · rw [ih h.2, Option.map_map]
      rfl
    · simp [hc]

theorem splitGap_colon {c : Char} (hc : c ≠ ':') (rest : List Char) :
    splitGap (':' :: c :: rest) = (splitGap (c :: rest)).map fun gap => (':' :: gap.1, gap.2) := by
  rw [splitGap]
  simp [hc]

/-- Groups do not begin with a colon. -/
theorem exists_head_colonized (group : UInt16) (more : List UInt16) :
    ∃ c rest, (colonized (group :: more)).toList = c :: rest ∧ c ≠ ':' := by
  obtain ⟨c, tail, hfirst⟩ := List.exists_cons_of_ne_nil (digitsOf_ne_nil group)
  have hc : c ≠ ':' := by
    rintro rfl
    exact colon_notMem_digitsOf group (by rw [hfirst]; exact List.mem_cons_self)
  cases more with
  | nil => exact ⟨c, tail, by rw [toList_colonized_singleton, hfirst], hc⟩
  | cons next others =>
    exact ⟨c, _, by rw [toList_colonized_cons_cons, hfirst, List.cons_append], hc⟩

/-- Groups between single colons do not make a double one, nor part of one that follows. -/
theorem splitGap_colonized_append (groups : List UInt16) (rest : List Char) :
    splitGap ((colonized groups).toList ++ rest)
      = (splitGap rest).map fun gap => ((colonized groups).toList ++ gap.1, gap.2) := by
  induction groups with
  | nil => simp [toList_colonized]
  | cons group more ih =>
    have hcolon := colon_notMem_digitsOf group
    cases more with
    | nil =>
      rw [toList_colonized_singleton]
      exact splitGap_append hcolon rest
    | cons next others =>
      obtain ⟨c, tail, hnext, hc⟩ := exists_head_colonized next others
      rw [toList_colonized_cons_cons, List.append_assoc, splitGap_append hcolon]
      rw [hnext] at ih ⊢
      rw [List.cons_append, List.cons_append, splitGap_colon hc, ← List.cons_append, ih,
        Option.map_map, Option.map_map]
      refine congrArg (Option.map · (splitGap rest)) (funext fun gap => ?_)
      simp

/-! ## The run that is left out -/

theorem foldl_longer_mem (runs : List (Nat × Nat)) (first : Nat × Nat) :
    runs.foldl (fun best run => if run.2 > best.2 then run else best) first ∈ first :: runs := by
  induction runs generalizing first with
  | nil => exact List.mem_singleton_self _
  | cons run rest ih =>
    rw [List.foldl_cons]
    split
    · exact List.mem_cons_of_mem _ (ih run)
    · rcases List.mem_cons.1 (ih first) with heq | hrest
      · rw [heq]
        exact List.mem_cons_self
      · exact List.mem_cons_of_mem _ (List.mem_cons_of_mem _ hrest)

/-- The run that is left out is a run of zeros, if any is. -/
theorem longestGap_cases (groups : List UInt16) : longestGap groups = (0, 0) ∨
    ∃ start, longestGap groups = (start, ((groups.drop start).takeWhile (· = 0)).length) := by
  rcases List.mem_cons.1 (foldl_longer_mem _ _) with hnone | hrun
  · exact .inl hnone
  · obtain ⟨start, -, hstart⟩ := List.mem_map.1 hrun
    exact .inr ⟨start, hstart.symm⟩

/-- Zeros in place of the run make the groups again. -/
theorem take_replicate_drop_longestGap (groups : List UInt16) :
    groups.take (longestGap groups).1 ++ List.replicate (longestGap groups).2 0
      ++ groups.drop ((longestGap groups).1 + (longestGap groups).2) = groups := by
  rcases longestGap_cases groups with hnone | ⟨start, hrun⟩
  · rw [hnone]
    rfl
  · have hzeros : List.replicate ((groups.drop start).takeWhile (· = 0)).length 0
        = (groups.drop start).takeWhile (· = 0) := by
      refine (List.eq_replicate_iff.2 ⟨rfl, fun group hgroup => ?_⟩).symm
      simpa using List.all_eq_true.1 List.all_takeWhile group hgroup
    have hsplit := List.takeWhile_append_dropWhile (p := (· = 0)) (l := groups.drop start)
    have hrest : (groups.drop start).drop ((groups.drop start).takeWhile (· = 0)).length
        = (groups.drop start).dropWhile (· = 0) := by
      conv_lhs =>
        arg 2
        rw [← hsplit]
      exact List.drop_left ..
    rw [hrun, List.append_assoc, ← List.drop_drop, hrest, hzeros, hsplit, List.take_append_drop]

/-! ## Addresses -/

theorem ofGroups?_toList (groups : Vector UInt16 8) :
    ofGroups? groups.toList = some (.v6 groups) := by
  rw [ofGroups?, dif_pos (by simp)]
  rfl

/-- Groups with as many zeros between them as are missing from eight. -/
theorem v6?_gap (front back : List UInt16) (h : front.length + back.length < 8) :
    v6? ((colonized front).toList ++ ':' :: ':' :: (colonized back).toList)
      = ofGroups? (front ++ List.replicate (8 - (front.length + back.length)) 0 ++ back) := by
  rw [v6?, splitGap_colonized_append, splitGap]
  simp only [Option.map_some, List.append_nil, groups?_colonized, endGroups?_colonized, if_pos h]

theorem v6?_colonized (groups : List UInt16) :
    v6? (colonized groups).toList = ofGroups? groups := by
  have hnone : splitGap (colonized groups).toList = none := by
    have happend := splitGap_colonized_append groups []
    rwa [List.append_nil] at happend
  rw [v6?, hnone]
  dsimp only
  rw [endGroups?_colonized]
  rfl

theorem colon_mem_colonized {groups : List UInt16} (h : 1 < groups.length) :
    ':' ∈ (colonized groups).toList := by
  match groups, h with
  | group :: next :: others, _ =>
    rw [toList_colonized_cons_cons]
    simp

theorem colon_notMem_dotted (a b c d : UInt8) : ':' ∉ (dotted a b c d).toList := by
  intro h
  have hnone := octets?_of_colon h
  rw [octets?_dotted] at hnone
  cases hnone

/-- Decimal bytes at the end are two groups. -/
theorem endGroups?_dotted (a b c d : UInt8) :
    endGroups? ("ffff:".toList ++ (dotted a b c d).toList)
      = some [0xFFFF, groupOf a b, groupOf c d] := by
  have hmark : "ffff:".toList = "ffff".toList ++ [':'] := rfl
  have hfields : Fields.split (· = ':') ("ffff:".toList ++ (dotted a b c d).toList)
      = ["ffff".toList, (dotted a b c d).toList] := by
    rw [hmark, List.append_assoc, List.singleton_append, Fields.split_append,
      Fields.split_of_notMem (by decide), Fields.split_of_notMem (colon_notMem_dotted a b c d)]
    rfl
  have hgroup : ["ffff".toList].mapM group? = some [0xFFFF] := by decide
  rw [endGroups?, if_neg (by rw [hmark]; simp), hfields]
  simp only [List.dropLast_cons_cons, List.dropLast_singleton, List.getLast?_cons_cons,
    List.getLast?_singleton, Option.getD_some, hgroup, lastGroups?_dotted]
  rfl

theorem v6?_embedded {groups : List UInt16} {a b c d : UInt8}
    (h : embedded? groups = some (a, b, c, d)) :
    v6? ("::ffff:" ++ dotted a b c d).toList = ofGroups? groups := by
  unfold embedded? at h
  split at h
  next front back =>
    cases h
    have htext : ("::ffff:" ++ dotted (front >>> 8).toUInt8 front.toUInt8 (back >>> 8).toUInt8
          back.toUInt8).toList
        = ':' :: ':' :: ("ffff:".toList ++ (dotted (front >>> 8).toUInt8 front.toUInt8
          (back >>> 8).toUInt8 back.toUInt8).toList) := by
      rw [String.toList_append]
      rfl
    rw [htext, v6?, splitGap]
    dsimp only
    rw [endGroups?_dotted, groupOf_halves, groupOf_halves]
    rfl
  next => cases h

/-- A run of two or more zeros is left out, and found again. -/
theorem v6?_leftOut {groups : List UInt16} (hlength : groups.length = 8)
    (hlong : 1 < (longestGap groups).2) :
    v6? ((colonized (groups.take (longestGap groups).1)).toList ++ ':' :: ':' ::
        (colonized (groups.drop ((longestGap groups).1 + (longestGap groups).2))).toList)
      = ofGroups? groups := by
  have hgroups := take_replicate_drop_longestGap groups
  generalize longestGap groups = gap at hlong hgroups ⊢
  obtain ⟨start, length⟩ := gap
  dsimp only at hlong hgroups ⊢
  have hcount := congrArg List.length hgroups
  simp only [List.length_append, List.length_replicate, hlength] at hcount
  have hmissing : 8 - ((groups.take start).length + (groups.drop (start + length)).length)
      = length := by omega
  rw [v6?_gap _ _ (by omega), hmissing, hgroups]

/-- The text of an address of version 6 has a colon, and names the address. -/
theorem v6?_text (groups : Vector UInt16 8) :
    ':' ∈ (text (.v6 groups)).toList ∧ v6? (text (.v6 groups)).toList = some (.v6 groups) := by
  have hlength : groups.toList.length = 8 := by simp
  rw [← ofGroups?_toList groups, text]
  dsimp only
  split
  next a b c d hembedded =>
    refine ⟨?_, v6?_embedded hembedded⟩
    rw [String.toList_append]
    exact List.mem_append_left _ (by decide)
  next =>
    split
    next hlong =>
      have hcolons : "::".toList = [':', ':'] := rfl
      rw [String.toList_append, String.toList_append, hcolons, List.append_assoc, List.cons_append,
        List.cons_append, List.nil_append]
      exact ⟨by simp, v6?_leftOut hlength hlong⟩
    next => exact ⟨colon_mem_colonized (by omega), v6?_colonized _⟩

/-- The text of an address names it. -/
theorem ofText?_text (address : IpAddress) : ofText? address.text = some address := by
  cases address with
  | v4 a b c d => rw [ofText?, text, octets?_dotted]
  | v6 groups =>
    obtain ⟨hcolon, hread⟩ := v6?_text groups
    rw [ofText?, octets?_of_colon hcolon]
    exact hread

/-- The first of two runs of zeros is left out. -/
example : ofText? "2001:db8::1:0:0:1" = some (.v6 #v[0x2001, 0xDB8, 0, 0, 1, 0, 0, 1]) := by
  decide +kernel

end OffsetService.IpAddress
