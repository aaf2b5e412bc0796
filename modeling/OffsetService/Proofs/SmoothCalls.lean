import Mathlib.Data.List.Nodup
import Mathlib.Data.List.Perm.Subperm
import OffsetService.Proofs.AllOrNothing

/-!
# Calls where no step on files fails

Where every step on files succeeds (`SmoothFiles`), a call for an identity with a place has three
ends, and what decides is whether the database is there and whether the archive delivers it whole:
it is found (`ensureUnder_of_present`), it is fetched (`ensureUnder_of_whole`), or the archive's
fault comes back (`ensureUnder_of_broken`). In a cache that began empty nothing else can be in the
way, because files stand three levels deep and folders above them only (`Shelved`).

Such files exist: the name for a temporary file that a tree picks is never taken
(`unusedName_free`).
-/

namespace OffsetService

namespace Directory

/-! ## Unused names -/

theorem mem_paths_of_node? {d : Directory} {path : Path} (hpath : path ≠ [])
    (h : d.node? path ≠ none) : path ∈ d.nodes.map Prod.fst := by
  rw [node?, if_neg hpath, Ne, List.lookup_eq_none_iff] at h
  push Not at h
  obtain ⟨entry, hmem, heq⟩ := h
  have hentry : path = entry.1 := by simpa using heq
  exact List.mem_map.2 ⟨entry, hmem, hentry.symm⟩

/-- There is always an unused name: more names are tried than there are nodes. -/
theorem unusedName_free (d : Directory) (folder : Path) (taken : String) :
    d.unusedName folder taken ≠ taken ∧ d.node? (folder ++ [d.unusedName folder taken]) = none := by
  let names := (List.range (d.nodes.length + 2)).map fun k => s!".download-{k}.tmp"
  let unused (name : String) : Bool := name != taken && (d.node? (folder ++ [name])).isNone
  have hname : d.unusedName folder taken = (names.find? unused).getD ".download.tmp" := rfl
  rw [hname]
  cases hfound : names.find? unused with
  | some name => simpa [unused] using List.find?_some hfound
  | none =>
    -- Otherwise all these paths would be among those of the nodes and of the taken name.
    have hused := List.find?_eq_none.1 hfound
    have hnodup : (names.map fun name => folder ++ [name]).Nodup := by
      rw [List.map_map]
      apply List.Nodup.map _ List.nodup_range
      intro j k h
      have hrepr : j.repr = k.repr := by simpa using h
      rw [← Nat.ofDigitChars_ten_toDigits (n := j), ← Nat.toList_repr, hrepr, Nat.toList_repr,
        Nat.ofDigitChars_ten_toDigits]
    have hsubset : (names.map fun name => folder ++ [name])
        ⊆ (folder ++ [taken]) :: d.nodes.map Prod.fst := by
      intro path hpath
      obtain ⟨name, hmem, rfl⟩ := List.mem_map.1 hpath
      have hnot := hused name hmem
      by_cases htaken : name = taken
      · rw [htaken]
        exact List.mem_cons_self
      · refine List.mem_cons_of_mem _ (mem_paths_of_node? (by simp) ?_)
        simpa [unused, htaken] using hnot
    have hlength := (List.subperm_of_subset hnodup hsubset).length_le
    simp [names] at hlength

/-! ## Shelves -/

/-- Files stand three levels deep, and folders above them, as calls leave a tree that was empty. -/
structure Shelved (d : Directory) : Prop where
  files : ∀ {p : Path} {bytes : Bytes}, d.file? p = some bytes → p.length = 3
  folders : ∀ {p : Path}, d.node? p = some .folder → p.length ≤ 2

theorem shelved_empty : Shelved .empty := by
  constructor
  · intro p bytes h
    rw [file?_eq_some_iff, node?] at h
    split at h
    next => cases h
    next => cases h
  · intro p h
    rw [node?] at h
    split at h
    next hp => simp [hp]
    next => cases h

theorem Shelved.addsFolders {d after : Directory} {path : Path} (h : d.Shelved)
    (adds : AddsFolders d after path) (hpath : path.length ≤ 2) : after.Shelved := by
  constructor
  · intro p bytes hfile
    rw [adds.file?_eq] at hfile
    exact h.files hfile
  · intro p hfolder
    rcases adds p with same | ⟨-, -, onWay⟩
    · exact h.folders (same ▸ hfolder)
    · exact Nat.le_trans onWay.length_le hpath

theorem Shelved.addsFile {d after : Directory} {target : Path} {bytes : Bytes} (h : d.Shelved)
    (adds : AddsFile d after target bytes) (htarget : target.length = 3) : after.Shelved := by
  constructor
  · intro p content hfile
    by_cases hp : p = target
    · rw [hp, htarget]
    · rw [adds.file?_eq hp] at hfile
      exact h.files hfile
  · intro p hfolder
    by_cases hp : p = target
    · rw [hp, file?_eq_some_iff.1 adds.present] at hfolder
      cases hfolder
    · rcases adds.others p hp with same | ⟨-, -, onWay⟩
      · exact h.folders (same ▸ hfolder)
      · have hle := onWay.length_le
        rw [List.length_dropLast, htarget] at hle
        exact hle

end Directory

/-! ## Files that never fail -/

/-- What calls meet of files when every step on them succeeds: no folder is refused and no step
fails, and the temporary file of a download gets a name that is free. -/
structure SmoothFiles where
  conditions : Cache → Identity → Conditions
  smooth : ∀ cache id, (conditions cache id).Smooth (Cache.place id)
  free : ∀ (cache : Cache) (id : Identity),
    cache.directory.node? ((conditions cache id).temporary (Cache.place id)) = none

/-- Files that never fail, with the names that a tree picks. -/
def SmoothFiles.usual : SmoothFiles where
  conditions cache id :=
    ⟨cache.directory.unusedName (Cache.place id).dropLast id.name, fun _ => none, none, none, none,
      none⟩
  smooth _ _ := ⟨fun _ _ => rfl, rfl, rfl, rfl, rfl⟩
  free cache id := (Directory.unusedName_free cache.directory _ id.name).2

namespace Cache

open Directory (Shelved AddsFile AddsFolders)

variable {conditions : Conditions} {delivery : Delivery} {cache : Cache} {id : Identity}

/-! ## The three ends of a call -/

/-- A database that is there is found, whatever it holds. -/
theorem ensureUnder_of_present {bytes : Bytes} (hcheck : Archive.check id = .ok ())
    (present : cache.directory.file? (place id) = some bytes) :
    ensureUnder conditions delivery cache id
      = (cache, ⟨[.cacheHit (Archive.relativePath id)], .ok (cache.localPath id)⟩) := by
  have hfile : cache.directory.isFile (place id) = true := by rw [Directory.isFile, present]; rfl
  rw [ensureUnder, hcheck]
  dsimp only
  rw [if_pos hfile]

/-- Downloads do not move the cache. -/
theorem root_download : (download conditions delivery cache id).1.root = cache.root := by
  unfold download
  dsimp only
  split
  next =>
    split
    next => rfl
    next => split <;> rfl
  next => rfl

/-- A download fails with its reception. -/
theorem download_of_receive_error (cache : Cache) {fault : Fault}
    (h : (Download.receive conditions delivery id.name cache.directory (place id)).outcome
      = .error fault) :
    (download conditions delivery cache id).2.outcome = .error fault ∧
      (download conditions delivery cache id).1.fetches
        = (if (Download.receive conditions delivery id.name cache.directory (place id)).asked
          then cache.fetches + 1 else cache.fetches) ∧
      (download conditions delivery cache id).1.directory
        = (Download.receive conditions delivery id.name cache.directory (place id)).directory := by
  unfold download
  dsimp only
  rw [if_pos (hasFolder_localPath cache id), h]
  exact ⟨rfl, rfl, rfl⟩

/-- A database that is not there is downloaded, while the lock of its key is held. -/
theorem ensureUnder_of_absent (conditions : Conditions) (delivery : Delivery)
    (hcheck : Archive.check id = .ok ()) (absent : cache.directory.file? (place id) = none) :
    ∃ locks left, (ensureUnder conditions delivery cache id).1
        = { (download conditions delivery { cache with locks := locks } id).1 with locks := left } ∧
      (ensureUnder conditions delivery cache id).2.outcome
        = (download conditions delivery { cache with locks := locks } id).2.outcome.map
          fun _ => cache.localPath id := by
  have hmiss : ¬cache.directory.isFile (place id) = true := by simp [Directory.isFile, absent]
  rw [ensureUnder, hcheck]
  dsimp only
  rw [if_neg hmiss]
  exact ⟨_, _, rfl, rfl⟩

section Absent

variable (hcheck : Archive.check id = .ok ()) (shelved : cache.directory.Shelved)
  (smooth : conditions.Smooth (place id))
  (free : cache.directory.node? (conditions.temporary (place id)) = none)
  (absent : cache.directory.file? (place id) = none)

/-- No file of a shelved tree is in the way of a folder. -/
theorem file?_of_onWay (shelved : cache.directory.Shelved) (p : Path)
    (onWay : p <+: (place id).dropLast) : cache.directory.file? p = none := by
  cases hfile : cache.directory.file? p with
  | none => rfl
  | some bytes =>
    have hlength := shelved.files hfile
    have hle := onWay.length_le
    rw [dropLast_place, List.length_cons, List.length_cons, List.length_nil] at hle
    omega

include hcheck shelved smooth free absent

/-- A database that the archive delivers whole is fetched. -/
theorem ensureUnder_of_whole (whole : delivery.fault = none) :
    (ensureUnder conditions delivery cache id).2.outcome = .ok (cache.localPath id) ∧
      (ensureUnder conditions delivery cache id).1.root = cache.root ∧
      (ensureUnder conditions delivery cache id).1.fetches = cache.fetches + 1 ∧
      AddsFile cache.directory (ensureUnder conditions delivery cache id).1.directory (place id)
        delivery.written := by
  have hnode : cache.directory.node? (place id) = none := by
    cases hnode : cache.directory.node? (place id) with
    | none => rfl
    | some node =>
      cases node with
      | folder => exact absurd (shelved.folders hnode) (by simp [place])
      | file bytes => rw [Directory.file?_eq_some_iff.2 hnode] at absent; cases absent
  have hfree : Unhindered conditions delivery cache.directory (place id) :=
    ⟨smooth, whole, file?_of_onWay shelved, free, hnode⟩
  obtain ⟨locks, left, hafter, houtcome⟩ :=
    ensureUnder_of_absent conditions delivery hcheck absent
  rcases download_whole_or_nothing conditions delivery { cache with locks := locks } id with
    ⟨hok, hfetches, -, hadds⟩ | ⟨-, hhindered, -⟩
  · rw [hafter, houtcome, hok]
    exact ⟨rfl, root_download, hfetches, hadds⟩
  · exact absurd hfree hhindered

/-- A fault of the archive comes back, and every file is as it was. -/
theorem ensureUnder_of_broken {fault : Fault} (broken : delivery.fault = some fault) :
    (ensureUnder conditions delivery cache id).2.outcome = .error fault ∧
      (ensureUnder conditions delivery cache id).1.root = cache.root ∧
      (ensureUnder conditions delivery cache id).1.fetches = cache.fetches + 1 ∧
      AddsFolders cache.directory (ensureUnder conditions delivery cache id).1.directory
        (place id).dropLast := by
  obtain ⟨hreceived, hasked⟩ : (Download.receive conditions delivery id.name cache.directory
      (place id)).outcome = .error fault ∧ (Download.receive conditions delivery id.name
        cache.directory (place id)).asked = true :=
    Download.receive_broken smooth broken (file?_of_onWay shelved) free
  obtain ⟨locks, left, hafter, houtcome⟩ :=
    ensureUnder_of_absent conditions delivery hcheck absent
  obtain ⟨hfault, hfetches, hdirectory⟩ :=
    download_of_receive_error { cache with locks := locks } hreceived
  rw [hafter, houtcome, hfault]
  refine ⟨rfl, root_download, ?_, ?_⟩
  · rw [hfetches, hasked]
    rfl
  · rw [hdirectory]
    exact Download.receive_error hreceived

end Absent

end Cache

end OffsetService
