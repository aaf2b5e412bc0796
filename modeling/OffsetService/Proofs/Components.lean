import OffsetService.Proofs.Hex
import OffsetService.Proofs.Places

/-!
# Paths of databases in components

The system reads the path of a database as a sequence of components (`components`): what the path
begins with, and then its parts between slashes, without those that say nothing. Repeated slashes,
slashes at the end and dots on the way are all left out, so a part that is glued to a folder may
vanish, climb, or take the place of the folder.

Joining keeps the components of the folder and adds those of the parts that follow
(`components_join`). The three parts of the key of an accepted identity are all of them names
(`toComponent?_name`, `toComponent?_folder`), whatever the folder of the cache, so every database is
exactly three names below it, and one is never on the way to another
(`components_localPath_and_apart`).
-/

namespace OffsetService

namespace Archive

/-- A component of a path: the root of the system, the current folder, the folder above, or an entry
of a folder by its name. -/
inductive Component where
  | root
  | here
  | up
  | normal (name : String)
  deriving DecidableEq, Repr

/-- The component that a part between slashes stands for: an empty part stands for none, and so does
a dot. -/
def toComponent? : List Char → Option Component
  | [] => none
  | ['.'] => none
  | ['.', '.'] => some .up
  | part => some (.normal (String.ofList part))

/-- What a path begins with, besides its parts: the root of the system if it begins with a slash, the
current folder if it begins with a dot for a part. -/
def start? : List Char → Option Component
  | '/' :: _ => some .root
  | ['.'] => some .here
  | '.' :: '/' :: _ => some .here
  | _ => none

/-- The components of a path. -/
def components (path : String) : List Component :=
  (start? path.toList).toList ++ (Fields.split (· = '/') path.toList).filterMap toComponent?

/-- Whether a path leads to a folder on the way to another path. -/
def ProperAncestor (above below : String) : Prop :=
  ∃ more, more ≠ [] ∧ components below = components above ++ more

/-! ## Joining -/

/-- What a path begins with shows before its first slash, or is it. -/
theorem start?_append {folder : List Char} (h : folder ≠ []) (rest : List Char) :
    start? (folder ++ '/' :: rest) = start? folder := by
  match folder with
  | [c] =>
    by_cases hslash : c = '/'
    · simp [start?, hslash]
    · by_cases hdot : c = '.'
      · simp [start?, hdot]
      · simp [start?, hslash, hdot]
  | c :: d :: more =>
    by_cases hslash : c = '/'
    · simp [start?, hslash]
    · by_cases hdot : c = '.'
      · by_cases hd : d = '/'
        · simp [start?, hdot, hd]
        · simp [start?, hdot, hd]
      · simp [start?, hslash, hdot]

/-- The components of a path below a folder that has a spelling. -/
theorem components_append {folder : String} (h : folder ≠ "") (rest : String) :
    components (folder ++ "/" ++ rest)
      = components folder ++ (Fields.split (· = '/') rest.toList).filterMap toComponent? := by
  have hlist : folder.toList ≠ [] := fun heq => h (String.toList_eq_nil_iff.1 heq)
  have htext : (folder ++ "/" ++ rest).toList = folder.toList ++ '/' :: rest.toList := by simp
  rw [components, components, htext, start?_append hlist, Fields.split_append, List.filterMap_append,
    List.append_assoc]

/-- A slash at the end of a path is no component. -/
theorem components_slash {folder : String} (h : folder ≠ "") :
    components (folder ++ "/") = components folder := by
  have hadded := components_append h ""
  have hnone : (Fields.split (· = '/') "".toList).filterMap toComponent? = [] := by decide
  rwa [hnone, List.append_nil, String.append_empty] at hadded

/-- A path that begins with a name has, below a folder, the components of the folder and after them
those of its parts, whatever the folder and however it ends. -/
theorem components_join (root : String) {relative : String} (h : start? relative.toList = none) :
    components (join root relative)
      = components root ++ (Fields.split (· = '/') relative.toList).filterMap toComponent? := by
  have hslash : relative.toList.head? ≠ some '/' := by
    intro hhead
    obtain ⟨rest, hrest⟩ := List.head?_eq_some_iff.1 hhead
    rw [hrest] at h
    cases h
  unfold join
  by_cases hroot : root = ""
  · rw [if_pos (.inl hroot), hroot, components, h]
    rfl
  · rw [if_neg (not_or.2 ⟨hroot, hslash⟩)]
    by_cases hend : root.toList.getLast? = some '/'
    · -- the folder is spelled with a slash, which is no component of it
      obtain ⟨before, hbefore⟩ := List.getLast?_eq_some_iff.1 hend
      have hspelled : root = String.ofList before ++ "/" := by
        rw [← String.toList_inj, hbefore]
        simp
      rw [if_pos hend, hspelled]
      by_cases hempty : String.ofList before = ""
      · rw [hempty]
        simp only [components, String.empty_append, String.toList_append]
        rfl
      · rw [components_append hempty, components_slash hempty]
    · rw [if_neg hend, components_append hroot]

/-! ## The parts of a key -/

/-- A part that is neither empty nor made of dots is a name. -/
theorem toComponent?_eq_normal {part : String} (hempty : part ≠ "") (hdot : part ≠ ".")
    (hdots : part ≠ "..") : toComponent? part.toList = some (.normal part) := by
  unfold toComponent?
  split
  next h => exact absurd (String.toList_inj.1 h) hempty
  next h => exact absurd (String.toList_inj.1 h) hdot
  next h => exact absurd (String.toList_inj.1 h) hdots
  next => rw [String.ofList_toList]

/-- The name of an accepted identity is one component. -/
theorem toComponent?_name {id : Identity} (h : check id = .ok ()) :
    toComponent? id.name.toList = some (.normal id.name) := by
  obtain ⟨hcomplete, hsafe, -⟩ := check_eq_ok_iff.1 h
  simp only [isSafeName, Bool.and_eq_true, bne_iff_ne] at hsafe
  refine toComponent?_eq_normal ?_ hsafe.1.1 hsafe.1.2
  intro hempty
  simp [Identity.isComplete, hempty] at hcomplete

/-- The folder of an accepted identity has digits and letters only. -/
theorem isUpperHex_of_mem_folder {id : Identity} (h : check id = .ok ()) {c : Char}
    (hc : c ∈ (folder id).toList) : isUpperHex c = true := by
  obtain ⟨-, -, hid⟩ := check_eq_ok_iff.1 h
  rw [folder, String.toList_append] at hc
  rcases List.mem_append.1 hc with huniqueId | hage
  · exact List.all_eq_true.1 hid c huniqueId
  · have hdigits : Hex.upperDigits.all isUpperHex = true := by decide
    exact List.all_eq_true.1 hdigits c (Hex.mem_upperDigits_of_mem_upper hage)

theorem slash_not_mem_folder {id : Identity} (h : check id = .ok ()) : '/' ∉ (folder id).toList :=
  fun hmem => absurd (isUpperHex_of_mem_folder h hmem) (by decide)

/-- The unique id and the age are one component: the age ends it in a digit. -/
theorem toComponent?_folder (id : Identity) :
    toComponent? (folder id).toList = some (.normal (folder id)) := by
  obtain ⟨c, hmem, -, hdot⟩ := exists_digit_mem_folder id
  have hne : ∀ {text : String}, (∀ d ∈ text.toList, d = '.') → folder id ≠ text := by
    intro text htext heq
    exact hdot (htext c (heq ▸ hmem))
  apply toComponent?_eq_normal
  · exact hne (by simp)
  · exact hne (by simp)
  · exact hne (by simp)

/-- The parts of the key of an accepted identity. -/
theorem split_relativePath {id : Identity} (h : check id = .ok ()) :
    Fields.split (· = '/') (relativePath id).toList
      = [id.name.toList, (folder id).toList, id.name.toList] := by
  rw [toList_relativePath, Fields.split_append, Fields.split_append,
    Fields.split_of_notMem (slash_not_mem_name h), Fields.split_of_notMem (slash_not_mem_folder h)]
  rfl

/-- The key of an accepted identity begins with its name, neither with a slash nor with a dot for a
part. -/
theorem start?_relativePath {id : Identity} (h : check id = .ok ()) :
    start? (relativePath id).toList = none := by
  have hname := toComponent?_name h
  have hslash := slash_not_mem_name h
  have hne : id.name.toList ≠ [] := by
    intro hempty
    simp [hempty, toComponent?] at hname
  rw [toList_relativePath, start?_append hne]
  unfold start?
  split
  next heq => exact absurd (heq ▸ List.mem_cons_self) hslash
  next heq => simp [heq, toComponent?] at hname
  next heq => exact absurd (heq ▸ List.mem_cons_of_mem _ List.mem_cons_self) hslash
  next => rfl

theorem count_slash_relativePath {id : Identity} (h : check id = .ok ()) :
    (relativePath id).toList.count '/' = 2 := by
  rw [toList_relativePath]
  simp [List.count_eq_zero_of_not_mem (slash_not_mem_name h),
    List.count_eq_zero_of_not_mem (slash_not_mem_folder h)]

end Archive

namespace Cache

open Archive (Component components ProperAncestor relativePath folder check)

/-- The path of the database of an accepted identity has the components of the folder of the cache,
and after them its place. -/
theorem components_localPath (cache : Cache) {id : Identity} (h : check id = .ok ()) :
    components (cache.localPath id) = components cache.root ++ (place id).map .normal := by
  rw [localPath, Archive.components_join _ (Archive.start?_relativePath h),
    Archive.split_relativePath h]
  simp [place, Archive.toComponent?_name h, Archive.toComponent?_folder]

/-- A path of one length below the folder of the cache is never on the way to another. -/
theorem not_properAncestor_localPath (cache : Cache) {id other : Identity} (hid : check id = .ok ())
    (hother : check other = .ok ()) :
    ¬ProperAncestor (cache.localPath id) (cache.localPath other) := by
  rintro ⟨more, hmore, heq⟩
  rw [components_localPath cache hid, components_localPath cache hother, List.append_assoc] at heq
  have hlength := congrArg List.length (List.append_cancel_left heq)
  have hpos : 0 < more.length := List.length_pos_iff.2 hmore
  simp only [List.length_append, List.length_map, place, List.length_cons, List.length_nil] at hlength
  omega

/-- Whatever the folder of the cache, the key of an accepted identity has two slashes, and its path
is the folder and below it three names: the name, the unique id with the age, the name. The path is
never the folder itself, and it is never on the way to the path of another accepted identity, so no
folder is ever needed where a database stands. -/
theorem components_localPath_and_apart (cache : Cache) {id other : Identity}
    (hid : check id = .ok ()) (hother : check other = .ok ()) :
    (relativePath id).toList.count '/' = 2 ∧
      components (cache.localPath id) = components cache.root ++
        [.normal id.name, .normal (id.uniqueId ++ Hex.upper id.age.toNat), .normal id.name] ∧
      components (cache.localPath id) ≠ components cache.root ∧
      ¬ProperAncestor (cache.localPath id) (cache.localPath other) ∧
      ¬place id <+: (place other).dropLast := by
  have hplaces := components_localPath cache hid
  refine ⟨Archive.count_slash_relativePath hid, hplaces, ?_,
    not_properAncestor_localPath cache hid hother, ?_⟩
  · intro heq
    rw [hplaces] at heq
    have hnone : (place id).map Component.normal = [] := List.append_right_eq_self.1 heq
    simp [place] at hnone
  · intro hprefix
    have hlength := hprefix.length_le
    simp [place] at hlength

/-- Names of dots and of digits, below the current folder spelled with slashes. -/
theorem components_localPath_and_apart_dots :
    check ⟨"...", "AB", 1⟩ = .ok () ∧ check ⟨"AB1", "CD", 2⟩ = .ok () ∧
      components ((empty ".//").localPath ⟨"...", "AB", 1⟩)
        = [.here, .normal "...", .normal "AB1", .normal "..."] ∧
      ¬ProperAncestor ((empty ".//").localPath ⟨"...", "AB", 1⟩)
        ((empty ".//").localPath ⟨"AB1", "CD", 2⟩) := by
  have hid : check ⟨"...", "AB", 1⟩ = .ok () := by decide
  have hother : check ⟨"AB1", "CD", 2⟩ = .ok () := by decide
  obtain ⟨-, hpath, -, hapart, -⟩ := components_localPath_and_apart (empty ".//") hid hother
  exact ⟨hid, hother, hpath.trans (by decide), hapart⟩

end Cache

end OffsetService
