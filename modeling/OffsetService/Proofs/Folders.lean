import OffsetService.Directory

/-!
# What the operations on a folder tree leave alone

Making the folders on a path changes nothing but the folders that were not there (`AddsFolders`),
however far it comes. Files are never made or lost by it, so what a download does to files is what
its two changes to single paths do.
-/

namespace OffsetService.Directory

/-- `after` is `d` with new folders, all of them on the way to `path` or at its end. -/
def AddsFolders (d after : Directory) (path : Path) : Prop :=
  ∀ p, after.node? p = d.node? p ∨ (d.node? p = none ∧ after.node? p = some .folder ∧ p <+: path)

@[simp] theorem node?_root (d : Directory) : d.node? [] = some .folder := by
  simp [node?]

theorem AddsFolders.refl (d : Directory) (path : Path) : AddsFolders d d path :=
  fun _ => .inl rfl

theorem AddsFolders.trans {d mid after : Directory} {path : Path}
    (first : AddsFolders d mid path) (second : AddsFolders mid after path) :
    AddsFolders d after path := by
  intro p
  rcases second p with same | ⟨absent, folder, onPath⟩
  · rcases first p with same' | ⟨absent, folder, onPath⟩
    · exact .inl (same.trans same')
    · exact .inr ⟨absent, same.trans folder, onPath⟩
  · rcases first p with same' | ⟨_, folder', _⟩
    · exact .inr ⟨same'.symm.trans absent, folder, onPath⟩
    · rw [folder'] at absent
      cases absent

/-- New folders are no files. -/
theorem AddsFolders.file?_eq {d after : Directory} {path : Path}
    (h : AddsFolders d after path) (p : Path) : after.file? p = d.file? p := by
  rcases h p with same | ⟨absent, folder, _⟩
  · simp only [file?, same]
  · simp only [file?, absent, folder]

/-- A path off the way keeps what stands there. -/
theorem AddsFolders.node?_eq {d after : Directory} {path p : Path}
    (h : AddsFolders d after path) (off : ¬p <+: path) : after.node? p = d.node? p := by
  rcases h p with same | ⟨_, _, onPath⟩
  · exact same
  · exact absurd onPath off

/-- `after` is `d` with a file of these bytes at `target`, and new folders on the way to it. -/
structure AddsFile (d after : Directory) (target : Path) (bytes : Bytes) : Prop where
  present : after.file? target = some bytes
  others : ∀ p, p ≠ target → after.node? p = d.node? p ∨
    (d.node? p = none ∧ after.node? p = some .folder ∧ p <+: target.dropLast)

/-- Other files are as before. -/
theorem AddsFile.file?_eq {d after : Directory} {target : Path} {bytes : Bytes}
    (h : AddsFile d after target bytes) {p : Path} (apart : p ≠ target) :
    after.file? p = d.file? p := by
  rcases h.others p apart with same | ⟨absent, folder, _⟩
  · simp only [file?, same]
  · simp only [file?, absent, folder]

theorem file?_put (d : Directory) (path other : Path) (bytes : Bytes) (h : path ≠ []) :
    (d.put path (.file bytes)).file? other
      = if other = path then some bytes else d.file? other := by
  simp only [file?, node?_put d path other _ h]
  by_cases ho : other = path <;> simp [ho]

theorem file?_erase (d : Directory) (path other : Path) (h : path ≠ []) :
    (d.erase path).file? other = if other = path then none else d.file? other := by
  simp only [file?, node?_erase d path other h]
  by_cases ho : other = path <;> simp [ho]

theorem file?_eq_some_iff {d : Directory} {path : Path} {bytes : Bytes} :
    d.file? path = some bytes ↔ d.node? path = some (.file bytes) := by
  simp only [file?]
  split
  next found heq => simp [heq]
  next hne =>
    constructor
    · intro h
      cases h
    · intro h
      exact absurd h (hne bytes)

/-- A node that is put at a free path and taken away again leaves no trace. -/
theorem node?_erase_put {d : Directory} {path : Path} (free : d.node? path = none) (node : Node)
    (h : path ≠ []) (other : Path) :
    ((d.put path node).erase path).node? other = d.node? other := by
  rw [node?_erase _ _ _ h, node?_put _ _ _ _ h]
  by_cases ho : other = path
  · rw [if_pos ho, ho, free]
  · rw [if_neg ho, if_neg ho]

/-- However far it comes, making a chain of folders only adds folders of the chain. -/
theorem createFolders_adds (refuses : Path → Option FileCause) (d : Directory)
    (above rest : Path) :
    AddsFolders d (createFolders refuses d above rest).1 (above ++ rest) := by
  induction rest generalizing d above with
  | nil => exact AddsFolders.refl d _
  | cons name rest ih =>
    have hpath : above ++ name :: rest = (above ++ [name]) ++ rest := by simp
    simp only [createFolders]
    split
    next => rw [hpath]; exact ih d _
    next => exact AddsFolders.refl d _
    next habsent =>
      split
      next => exact AddsFolders.refl d _
      next =>
        have hnew : AddsFolders d (d.put (above ++ [name]) .folder)
            ((above ++ [name]) ++ rest) := by
          intro p
          rw [node?_put d _ p _ (by simp)]
          by_cases hp : p = above ++ [name]
          · subst hp
            exact .inr ⟨habsent, by simp, List.prefix_append _ _⟩
          · exact .inl (by simp [hp])
        rw [hpath]
        exact hnew.trans (ih _ _)

/-- Nothing stops the making of folders where none is refused and no file stands in the way. -/
theorem createFolders_ok {refuses : Path → Option FileCause} {d : Directory} {above rest : Path}
    (willing : ∀ p, p <+: above ++ rest → refuses p = none)
    (clear : ∀ p, p <+: above ++ rest → d.file? p = none) :
    (createFolders refuses d above rest).2 = .ok () := by
  induction rest generalizing d above with
  | nil => rfl
  | cons name rest ih =>
    have hpath : above ++ name :: rest = (above ++ [name]) ++ rest := by simp
    have hwilling : ∀ p, p <+: (above ++ [name]) ++ rest → refuses p = none := hpath ▸ willing
    have hclear : ∀ p, p <+: (above ++ [name]) ++ rest → d.file? p = none := hpath ▸ clear
    simp only [createFolders]
    split
    next => exact ih hwilling hclear
    next bytes hfile =>
      have := hclear (above ++ [name]) (List.prefix_append _ _)
      rw [file?_eq_some_iff.2 hfile] at this
      cases this
    next =>
      rw [hwilling _ (List.prefix_append _ _)]
      refine ih hwilling fun p hp => ?_
      simp only [file?, node?_put d _ p _ (show above ++ [name] ≠ [] by simp)]
      by_cases he : p = above ++ [name]
      · simp [he]
      · simpa [he, file?] using hclear p hp

/-- A move that succeeds takes the bytes of its source to its target. -/
theorem rename_ok {d after : Directory} {source target : Path}
    (h : d.rename source target = (after, .ok ())) :
    ∃ bytes, d.file? source = some bytes ∧ after = (d.erase source).put target (.file bytes) := by
  unfold rename at h
  split at h
  next => cases h
  next => cases h
  next _ bytes hfile _ =>
    cases h
    exact ⟨bytes, hfile, rfl⟩

/-- A file moves to any path where no folder stands. -/
theorem rename_of_file {d : Directory} {source target : Path} {bytes : Bytes}
    (file : d.file? source = some bytes) (clear : d.node? target ≠ some .folder) :
    d.rename source target = ((d.erase source).put target (.file bytes), .ok ()) := by
  unfold rename
  rw [file]
  cases hn : d.node? target with
  | none => rfl
  | some node =>
    cases node with
    | folder => exact absurd hn clear
    | file _ => rfl

end OffsetService.Directory
