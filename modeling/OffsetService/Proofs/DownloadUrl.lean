import Mathlib.Data.List.DropRight
import OffsetService.Proofs.Components
import OffsetService.Settings

/-!
# What a download URL asks for

The URL of a database is glued from two texts that are looked at apart: the base of the archive,
when the service starts, and the key of the identity. Read by its punctuation, the URL always has
the scheme and the authority of the base, but its path ends at the first question mark or number
sign, and neither of the two checks looks for these.

`AsksForKey` is what a URL should say: the host of the base, and a path that is the path of the
base and behind it the key, nothing else. It holds exactly for bases and names without the two
characters (`asksForKey_iff`). A name with a number sign is accepted, but what the archive is asked
for is cut off there (`not_asksForKey_numberSign`), and so it is behind a base without a host whose
missing host is not noticed (`not_asksForKey_noHost`).
-/

namespace OffsetService

namespace Uri

/-- The host that an authority names: neither the user before it nor the port behind it, and the
address alone where it stands in brackets. -/
def host (u : Uri) : List Char :=
  let place := (u.authority.reverse.takeWhile (· ≠ '@')).reverse
  if place.head? = some '[' then place.takeWhile (· ≠ ']') else place.takeWhile (· ≠ ':')

theorem host_eq_of_authority_eq {u v : Uri} (h : u.authority = v.authority) : u.host = v.host := by
  rw [host, host, h]

/-- The parts of what stands behind a scheme. -/
def ofRest (scheme rest : List Char) : Uri :=
  let authority := rest.takeWhile fun c => !endsAuthority c
  let behind := rest.drop authority.length
  let path := behind.takeWhile fun c => !endsPath c
  let extra := queryAndFragment (behind.drop path.length)
  { scheme, authority, path, query := extra.1, fragment := extra.2 }

theorem ofText?_eq (scheme text : List Char) :
    ofText? scheme text = (afterScheme? scheme text).map (ofRest scheme) := by
  unfold ofText?
  cases afterScheme? scheme text with
  | none => rfl
  | some rest => rfl

theorem afterScheme?_append (scheme rest : List Char) :
    afterScheme? scheme (scheme ++ [':', '/', '/'] ++ rest) = some rest := by
  simp [afterScheme?]

theorem eq_append_of_afterScheme? {scheme text rest : List Char}
    (h : afterScheme? scheme text = some rest) : text = scheme ++ [':', '/', '/'] ++ rest := by
  simp only [afterScheme?] at h
  split at h
  next hpre =>
    cases h
    exact (List.prefix_iff_eq_append.1 (List.isPrefixOf_iff_prefix.1 hpre)).symm
  next => cases h

/-- A slash ends what is taken up to it. -/
theorem takeWhile_append_slash {p : Char → Bool} (h : p '/' = false) (before rest : List Char) :
    (before ++ '/' :: rest).takeWhile p = before.takeWhile p := by
  induction before with
  | nil => simp [h]
  | cons c before ih => rw [List.cons_append, List.takeWhile_cons, List.takeWhile_cons, ih]

variable {scheme host rest : List Char}

/-- A host ends where its URL does, or at a slash. -/
theorem takeWhile_append_of_slash {p : Char → Bool} (hp : p '/' = false)
    (hrest : rest = [] ∨ ∃ more, rest = '/' :: more) :
    (host ++ rest).takeWhile p = host.takeWhile p := by
  obtain rfl | ⟨more, rfl⟩ := hrest
  · rw [List.append_nil]
  · exact takeWhile_append_slash hp host more

/-- Where nothing ends a path, the parts of a URL are what stands before the first slash and what
begins there. -/
theorem ofRest_of_plain (hhost : '/' ∉ host) (hrest : rest = [] ∨ ∃ more, rest = '/' :: more)
    (h : ∀ c ∈ host ++ rest, endsPath c = false) :
    ofRest scheme (host ++ rest) = ⟨scheme, host, rest, none, none⟩ := by
  have hauthority : ((host ++ rest).takeWhile fun c => !endsAuthority c) = host := by
    rw [takeWhile_append_of_slash (by decide) hrest, List.takeWhile_eq_self_iff]
    intro c hc
    have hslash : c ≠ '/' := fun heq => hhost (heq ▸ hc)
    simp [endsAuthority, hslash, h c (List.mem_append_left _ hc)]
  have hpath : (rest.takeWhile fun c => !endsPath c) = rest := by
    rw [List.takeWhile_eq_self_iff]
    intro c hc
    simp [h c (List.mem_append_right _ hc)]
  simp [ofRest, hauthority, hpath, queryAndFragment]

/-- A URL without a query and a fragment has no character that ends a path. -/
theorem endsPath_eq_false_of_mem_rest (hquery : (ofRest scheme rest).query = none)
    (hfragment : (ofRest scheme rest).fragment = none) {c : Char} (hc : c ∈ rest) :
    endsPath c = false := by
  have htext : ofText? scheme (scheme ++ [':', '/', '/'] ++ rest) = some (ofRest scheme rest) := by
    rw [ofText?_eq, afterScheme?_append]
    rfl
  have hparts := text_ofText? htext
  rw [text, hquery, hfragment, Option.elim_none, Option.elim_none, List.append_nil, List.append_nil,
    List.append_assoc] at hparts
  have hrest := List.append_cancel_left hparts
  rw [← hrest] at hc
  rcases List.mem_append.1 hc with hauthority | hpath
  · have hnot := List.mem_takeWhile_imp hauthority
    simp only [endsAuthority, Bool.not_or, Bool.and_eq_true, Bool.not_eq_true'] at hnot
    exact hnot.2
  · have hnot := List.mem_takeWhile_imp hpath
    simpa using hnot

end Uri

namespace Archive

theorem toList_trimSlashes (text : String) :
    (trimSlashes text).toList = text.toList.rdropWhile (· = '/') := by
  rw [trimSlashes, String.toList_ofList]
  rfl

/-- The slashes are trimmed off the end of what stands behind anything else. -/
theorem toList_trimSlashes_append {before : List Char} (h : before.getLast? ≠ some '/')
    (rest : List Char) :
    (trimSlashes (String.ofList (before ++ rest))).toList
      = before ++ (trimSlashes (String.ofList rest)).toList := by
  have hbefore : before.reverse.dropWhile (· = '/') = before.reverse := by
    cases hlast : before.reverse with
    | nil => rfl
    | cons c more =>
      have hc : c ≠ '/' := by
        rintro rfl
        apply h
        rw [← List.head?_reverse, hlast]
        rfl
      simp [hc]
  simp only [trimSlashes, String.toList_ofList, List.reverse_append, List.dropWhile_append]
  split
  next hempty =>
    rw [List.isEmpty_iff.1 hempty, hbefore]
    simp
  next => simp

/-- What is left of a text behind a slash begins with the slash, if anything is left. -/
theorem trimSlashes_of_slash {rest : List Char} (hrest : rest = [] ∨ ∃ more, rest = '/' :: more) :
    (trimSlashes (String.ofList rest)).toList = [] ∨
      ∃ more, (trimSlashes (String.ofList rest)).toList = '/' :: more := by
  have hkept : (trimSlashes (String.ofList rest)).toList <+: rest := by
    rw [toList_trimSlashes, String.toList_ofList]
    exact List.rdropWhile_prefix (· = '/') rest
  obtain rfl | ⟨more, rfl⟩ := hrest
  · exact .inl (List.prefix_nil.1 hkept)
  · exact (List.prefix_cons_iff.1 hkept).imp id fun ⟨kept, heq, _⟩ => ⟨kept, heq⟩

/-- A character that is not a slash stays when slashes are trimmed. -/
theorem mem_trimSlashes {c : Char} (hc : c ≠ '/') {text : String} :
    c ∈ (trimSlashes text).toList ↔ c ∈ text.toList := by
  have hparts : text.toList.rdropWhile (· = '/') ++ text.toList.rtakeWhile (· = '/') = text.toList :=
    List.rdropWhile_append_rtakeWhile
  rw [toList_trimSlashes]
  constructor
  · intro hmem
    rw [← hparts]
    exact List.mem_append_left _ hmem
  · intro hmem
    rw [← hparts] at hmem
    apply (List.mem_append.1 hmem).resolve_right
    intro hslash
    have hc' : decide (c = '/') = true := List.mem_rtakeWhile_imp (p := (· = '/')) hslash
    exact hc (of_decide_eq_true hc')

/-- What can end a path in the key of an accepted identity is in its name: unique ids and ages have
digits and letters only. -/
theorem mem_relativePath_iff_of_endsPath {id : Identity} (h : check id = .ok ()) {c : Char}
    (hc : Uri.endsPath c = true) : c ∈ (relativePath id).toList ↔ c ∈ id.name.toList := by
  have hslash : c ≠ '/' := by
    rintro rfl
    cases hc
  have hfolder : c ∉ (folder id).toList := by
    intro hmem
    have hhex := isUpperHex_of_mem_folder h hmem
    simp only [Uri.endsPath, Bool.or_eq_true, decide_eq_true_eq] at hc
    rcases hc with rfl | rfl
    · exact absurd hhex (by decide)
    · exact absurd hhex (by decide)
  rw [toList_relativePath]
  simp [hslash, hfolder]

end Archive

namespace Settings

/-- The parts of the URL of an archive. -/
def uri? (url : String) : Option Uri :=
  schemes.findSome? (Uri.ofText? · url.toList)

theorem uri?_eq {scheme rest : List Char} (hscheme : scheme ∈ schemes) {url : String}
    (h : url.toList = scheme ++ [':', '/', '/'] ++ rest) :
    uri? url = some (Uri.ofRest scheme rest) := by
  have hparts : Uri.ofText? scheme url.toList = some (Uri.ofRest scheme rest) := by
    rw [Uri.ofText?_eq, h, Uri.afterScheme?_append]
    rfl
  simp only [schemes, List.mem_cons, List.not_mem_nil, or_false] at hscheme
  rcases hscheme with rfl | rfl
  · rw [uri?, schemes, List.findSome?_cons, hparts]
  · have hother : Uri.ofText? "http".toList url.toList = none := by
      rw [Uri.ofText?_eq, h]
      rfl
    rw [uri?, schemes, List.findSome?_cons, hother]
    dsimp only
    rw [List.findSome?_cons, hparts]

/-- The URL of an archive without a defect: a scheme, something up to the first slash, and what
begins there. -/
theorem exists_host_of_archiveDefect? {url : String} (h : archiveDefect? url = none) :
    ∃ scheme ∈ schemes, ∃ host rest, host ≠ [] ∧ '/' ∉ host ∧
      (rest = [] ∨ ∃ more, rest = '/' :: more) ∧
      url.toList = scheme ++ [':', '/', '/'] ++ (host ++ rest) := by
  unfold archiveDefect? at h
  split at h
  next => cases h
  next rest hrest =>
    obtain ⟨scheme, hscheme, hafter⟩ := List.exists_of_findSome?_eq_some hrest
    dsimp only at h
    split at h
    next => cases h
    next hhost =>
      refine ⟨scheme, hscheme, hostOf rest, rest.drop (hostOf rest).length,
        fun hnil => hhost (.inl hnil), ?_, ?_, ?_⟩
      · intro hmem
        have := List.mem_takeWhile_imp hmem
        simp at this
      · have hhead := Uri.head?_drop_takeWhile (· ≠ '/') rest
        cases hrest : rest.drop (hostOf rest).length with
        | nil => exact .inl rfl
        | cons c more =>
          have hc : c = '/' := by
            rw [hostOf] at hrest
            rw [hrest] at hhead
            simpa using hhead
          exact .inr ⟨more, by rw [hc]⟩
      · rw [hostOf, Uri.takeWhile_append_drop]
        exact Uri.eq_append_of_afterScheme? hafter

end Settings

namespace Archive

/-- Whether the URL of a database asks for its key, read by its punctuation: the host is the one of
the archive and there is one, and the path is the path of the archive without the slashes at its
end, one slash, and the key, with nothing behind it. -/
def AsksForKey (archive : String) (id : Identity) : Prop :=
  ∃ base url, Settings.uri? archive = some base ∧ Settings.uri? (downloadUrl archive id) = some url ∧
    url.scheme = base.scheme ∧ url.host = base.host ∧ url.host ≠ [] ∧
    url.query = none ∧ url.fragment = none ∧
    String.ofList url.path = trimSlashes (String.ofList base.path) ++ "/" ++ relativePath id

/-- Whether a base has a host by the rules of URIs. -/
def HasHost (archive : String) : Prop :=
  ∃ base, Settings.uri? archive = some base ∧ base.host ≠ []

/-- Whether a text has no character that ends a path. -/
def IsPlain (text : String) : Prop :=
  '?' ∉ text.toList ∧ '#' ∉ text.toList

/-- The URL of a database goes to the authority of the archive, and behind it comes the rest of the
base without the slashes at its end, one slash and the key. -/
theorem exists_parts {archive : String} (h : Settings.archiveDefect? archive = none)
    (id : Identity) :
    ∃ scheme ∈ Settings.schemes, ∃ host rest, '/' ∉ host ∧ (rest = [] ∨ ∃ more, rest = '/' :: more) ∧
      archive.toList = scheme ++ [':', '/', '/'] ++ (host ++ rest) ∧
      (downloadUrl archive id).toList = scheme ++ [':', '/', '/'] ++
        (host ++ (trimSlashes (String.ofList rest) ++ "/" ++ relativePath id).toList) := by
  obtain ⟨scheme, hscheme, host, rest, hne, hslash, hrest, htext⟩ :=
    Settings.exists_host_of_archiveDefect? h
  refine ⟨scheme, hscheme, host, rest, hslash, hrest, htext, ?_⟩
  have hlast : (scheme ++ [':', '/', '/'] ++ host).getLast? ≠ some '/' := by
    rw [List.getLast?_append_of_ne_nil _ hne]
    intro hlast
    exact hslash (List.mem_of_getLast? hlast)
  have hbase : archive = String.ofList (scheme ++ [':', '/', '/'] ++ host ++ rest) := by
    rw [List.append_assoc, ← htext, String.ofList_toList]
  rw [downloadUrl, hbase]
  simp only [String.toList_append, toList_trimSlashes_append hlast]
  simp

theorem slash_of_trimmed {rest : List Char} (hrest : rest = [] ∨ ∃ more, rest = '/' :: more)
    (relative : String) :
    ∃ more, (trimSlashes (String.ofList rest) ++ "/" ++ relative).toList = '/' :: more := by
  simp only [String.toList_append]
  rcases trimSlashes_of_slash hrest with hnil | ⟨more, hmore⟩
  · rw [hnil]
    exact ⟨relative.toList, rfl⟩
  · rw [hmore]
    exact ⟨more ++ "/".toList ++ relative.toList, by simp⟩

/-- The URL of an archive is plain when nothing behind its scheme ends a path. -/
theorem isPlain_iff_of_scheme {scheme rest : List Char} (hscheme : scheme ∈ Settings.schemes)
    {url : String} (h : url.toList = scheme ++ [':', '/', '/'] ++ rest) :
    IsPlain url ↔ ∀ c ∈ rest, Uri.endsPath c = false := by
  have hopening : '?' ∉ scheme ++ [':', '/', '/'] ∧ '#' ∉ scheme ++ [':', '/', '/'] := by
    have hall : ∀ s ∈ Settings.schemes,
        '?' ∉ s ++ [':', '/', '/'] ∧ '#' ∉ s ++ [':', '/', '/'] := by
      decide
    exact hall scheme hscheme
  have hsplit : ∀ c, c ∉ scheme ++ [':', '/', '/'] ++ rest ↔
      c ∉ scheme ++ [':', '/', '/'] ∧ c ∉ rest := by
    intro c
    rw [← not_or, ← List.mem_append]
  rw [IsPlain, h, hsplit, hsplit]
  constructor
  · rintro ⟨⟨-, hquery⟩, -, hfragment⟩ c hc
    simp only [Uri.endsPath, Bool.or_eq_false_iff, decide_eq_false_iff_not]
    constructor
    · rintro rfl
      exact hquery hc
    · rintro rfl
      exact hfragment hc
  · intro hplain
    refine ⟨⟨hopening.1, fun hc => ?_⟩, hopening.2, fun hc => ?_⟩
    · exact absurd (hplain _ hc) (by decide)
    · exact absurd (hplain _ hc) (by decide)

/-- What can end the path of a URL comes from the base or from the name. -/
theorem isPlain_downloadUrl_iff {id : Identity} (hid : check id = .ok ()) (archive : String) :
    IsPlain (downloadUrl archive id) ↔ IsPlain archive ∧ IsPlain id.name := by
  have hmem : ∀ c, Uri.endsPath c = true →
      (c ∈ (downloadUrl archive id).toList ↔ c ∈ archive.toList ∨ c ∈ id.name.toList) := by
    intro c hc
    have hslash : c ≠ '/' := by
      rintro rfl
      cases hc
    rw [downloadUrl, String.toList_append, String.toList_append, List.mem_append, List.mem_append,
      mem_trimSlashes hslash, mem_relativePath_iff_of_endsPath hid hc]
    simp [hslash]
  rw [IsPlain, IsPlain, IsPlain, hmem '?' rfl, hmem '#' rfl, not_or, not_or]
  exact and_and_and_comm

/-- A URL that asks for the key is plain. -/
theorem AsksForKey.isPlain {archive : String} (h : Settings.archiveDefect? archive = none)
    {id : Identity} (hasks : AsksForKey archive id) : IsPlain (downloadUrl archive id) := by
  obtain ⟨scheme, hscheme, host, rest, -, -, -, hurl⟩ := exists_parts h id
  obtain ⟨-, url, -, hparts, -, -, -, hquery, hfragment, -⟩ := hasks
  have heq : Uri.ofRest scheme _ = url :=
    Option.some.inj ((Settings.uri?_eq hscheme hurl).symm.trans hparts)
  subst heq
  rw [isPlain_iff_of_scheme hscheme hurl]
  intro c hc
  exact Uri.endsPath_eq_false_of_mem_rest hquery hfragment hc

/-- A URL asks for the key exactly when neither the base nor the name has a character that ends a
path, and the base has a host. -/
theorem asksForKey_iff {c : Choices} {s : Settings} (hs : Settings.ofChoices c = .ok s)
    {id : Identity} (hid : check id = .ok ()) :
    AsksForKey s.archive id ↔ HasHost s.archive ∧ IsPlain s.archive ∧ IsPlain id.name := by
  have hdefect := Settings.archiveDefect?_of_ofChoices hs
  rw [← isPlain_downloadUrl_iff hid]
  constructor
  · intro hasks
    refine ⟨?_, hasks.isPlain hdefect⟩
    obtain ⟨base, url, hbase, -, -, hhost, hne, -⟩ := hasks
    exact ⟨base, hbase, hhost ▸ hne⟩
  · rintro ⟨⟨base, hparts, hne⟩, hplain⟩
    obtain ⟨scheme, hscheme, host, rest, hslash, hrest, hbase, hurl⟩ := exists_parts hdefect id
    have hbasePlain := (isPlain_iff_of_scheme hscheme hbase).1
      ((isPlain_downloadUrl_iff hid _).1 hplain).1
    have hurlPlain := (isPlain_iff_of_scheme hscheme hurl).1 hplain
    have hbaseParts := Settings.uri?_eq hscheme hbase
    have hurlParts := Settings.uri?_eq hscheme hurl
    rw [Uri.ofRest_of_plain hslash hrest hbasePlain] at hbaseParts
    rw [Uri.ofRest_of_plain hslash (.inr (slash_of_trimmed hrest _)) hurlPlain] at hurlParts
    rw [hbaseParts] at hparts
    cases hparts
    have hhost : ∀ path, Uri.host ⟨scheme, host, path, none, none⟩
        = Uri.host ⟨scheme, host, rest, none, none⟩ := fun path => Uri.host_eq_of_authority_eq rfl
    refine ⟨_, _, hbaseParts, hurlParts, rfl, hhost _, ?_, rfl, rfl, ?_⟩
    · rw [hhost]
      exact hne
    · dsimp only
      rw [String.ofList_toList]

/-- The usual archive is asked for the key of a usual name. -/
theorem asksForKey_iff_usual :
    Settings.ofChoices Choices.none = .ok Settings.usual ∧
      check ⟨"ntdll.pdb", "AB", 1⟩ = .ok () ∧
      AsksForKey Settings.usual.archive ⟨"ntdll.pdb", "AB", 1⟩ := by
  have hs : Settings.ofChoices Choices.none = .ok Settings.usual := rfl
  have hid : check ⟨"ntdll.pdb", "AB", 1⟩ = .ok () := by decide
  refine ⟨hs, hid, (asksForKey_iff hs hid).2 ⟨⟨_, rfl, by decide⟩, ?_, ?_⟩⟩
  · exact ⟨by decide, by decide⟩
  · exact ⟨by decide, by decide⟩

/-- A number sign in a name is accepted, and what the archive is asked for is cut off there. -/
theorem not_asksForKey_numberSign :
    Settings.ofChoices Choices.none = .ok Settings.usual ∧
      check ⟨"a#b.pdb", "AB", 1⟩ = .ok () ∧
      ¬AsksForKey Settings.usual.archive ⟨"a#b.pdb", "AB", 1⟩ := by
  refine ⟨rfl, by decide, ?_⟩
  intro hasks
  obtain ⟨-, hfragment⟩ := hasks.isPlain (by decide)
  exact hfragment (by decide)

/-- A base is accepted whose host is empty: what stands before its first slash is a query. -/
theorem not_asksForKey_noHost (id : Identity) :
    Settings.ofChoices { Choices.none with archive := some "http://?x" }
        = .ok { Settings.usual with archive := "http://?x" } ∧
      ¬AsksForKey "http://?x" id := by
  refine ⟨rfl, ?_⟩
  rintro ⟨base, url, hbase, -, -, hhost, hne, -⟩
  have hparts : Settings.uri? "http://?x" = some ⟨"http".toList, [], [], some ['x'], none⟩ := rfl
  rw [hparts] at hbase
  cases hbase
  rw [hhost] at hne
  exact hne rfl

end Archive

end OffsetService
