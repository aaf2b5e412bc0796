import OffsetService.Cache.Download
import OffsetService.Proofs.Folders

/-!
# What one download leaves

A download changes the folder tree in three places only: folders on the way to its place, the
temporary file, and the place itself. `receive` either leaves nothing but new folders
(`receive_error`) or the complete temporary file beside them (`receive_ok`); `settle` takes the
temporary file away in any case (`settle_error`, `settle_ok`).
-/

namespace OffsetService

theorem Conditions.temporary_ne_nil (c : Conditions) (target : Path) : c.temporary target ≠ [] := by
  simp [Conditions.temporary]

/-- The temporary file is not on the way to its own folder. -/
theorem Conditions.temporary_off (c : Conditions) (target : Path) :
    ¬c.temporary target <+: target.dropLast := by
  intro h
  have := h.length_le
  simp only [Conditions.temporary, List.length_append, List.length_cons, List.length_nil] at this
  omega

/-- No step on files fails of its own accord in a download to `target`. -/
structure Conditions.Smooth (c : Conditions) (target : Path) : Prop where
  folder : ∀ p, p <+: target.dropLast → c.folder p = none
  temp : c.temp = none
  flush : c.flush = none
  sync : c.sync = none
  rename : c.rename = none

namespace Download

open Directory (AddsFolders AddsFile)

variable {c : Conditions} {delivery : Delivery} {name : String} {d : Directory} {target : Path}

/-- Nothing but folders is new after a reception that failed. -/
theorem receive_error {fault : Fault}
    (h : (receive c delivery name d target).outcome = .error fault) :
    AddsFolders d (receive c delivery name d target).directory target.dropLast := by
  have hadds : AddsFolders d (d.createFolders c.folder [] target.dropLast).1 target.dropLast :=
    Directory.createFolders_adds c.folder d [] target.dropLast
  unfold receive at h ⊢
  split
  next made cause hmade => rw [hmade] at hadds; exact hadds
  next made hmade =>
    rw [hmade] at hadds h
    dsimp only at h ⊢
    split
    next => exact hadds
    next hobstacle =>
      rw [hobstacle] at h
      obtain ⟨-, hfree⟩ : c.temp = none ∧ made.node? (c.temporary target) = none := by
        simpa using hobstacle
      -- what was put at the temporary name is taken away again
      have hgone : AddsFolders d ((made.put (c.temporary target) (.file delivery.written)).erase
          (c.temporary target)) target.dropLast :=
        hadds.trans fun p =>
          .inl (Directory.node?_erase_put hfree _ (c.temporary_ne_nil target) p)
      split
      next => exact hgone
      next => exact hgone
      next hfault htrouble =>
        rw [hfault, htrouble] at h
        cases h

/-- After a reception that succeeded, the temporary file holds what the archive wrote, and all else
that is new is folders. -/
theorem receive_ok {size : Nat} (h : (receive c delivery name d target).outcome = .ok size) :
    ∃ made, AddsFolders d made target.dropLast ∧ made.node? (c.temporary target) = none ∧
      (receive c delivery name d target).directory
        = made.put (c.temporary target) (.file delivery.written) ∧
      (receive c delivery name d target).asked = true ∧ delivery.fault = none ∧
      size = delivery.written.length := by
  have hadds : AddsFolders d (d.createFolders c.folder [] target.dropLast).1 target.dropLast :=
    Directory.createFolders_adds c.folder d [] target.dropLast
  unfold receive at h ⊢
  split
  next made cause hmade => rw [hmade] at h; cases h
  next made hmade =>
    rw [hmade] at hadds h
    dsimp only at h ⊢
    split
    next cause hobstacle => rw [hobstacle] at h; cases h
    next hobstacle =>
      rw [hobstacle] at h
      obtain ⟨-, hfree⟩ : c.temp = none ∧ made.node? (c.temporary target) = none := by
        simpa using hobstacle
      split
      next hfault => rw [hfault] at h; cases h
      next hfault htrouble => rw [hfault, htrouble] at h; cases h
      next hfault htrouble =>
        rw [hfault, htrouble] at h
        cases h
        exact ⟨made, hadds, hfree, rfl, rfl, hfault, rfl⟩

/-- A temporary file that could not be moved is taken away. -/
theorem settle_error {trouble : Option FileCause} {temporary : Path} {after : Directory}
    {fault : Fault} (h : settle trouble d temporary target = (after, .error fault)) :
    after = d.erase temporary := by
  unfold settle at h
  split at h
  next => cases h; rfl
  next =>
    split at h
    next => cases h
    next => cases h; rfl

/-- A temporary file that was moved is gone, and its bytes are at the place of the download. -/
theorem settle_ok {trouble : Option FileCause} {temporary : Path} {after : Directory}
    (h : settle trouble d temporary target = (after, .ok ())) :
    ∃ bytes, d.file? temporary = some bytes ∧
      after = (d.erase temporary).put target (.file bytes) := by
  unfold settle at h
  split at h
  next => cases h
  next =>
    split at h
    next hmoved => cases h; exact Directory.rename_ok hmoved
    next => cases h

/-- A reception and a move that both succeeded have put the delivery at its place. -/
theorem adds_of_settle_ok {size : Nat} {after : Directory}
    (received : (receive c delivery name d target).outcome = .ok size)
    (settled : settle c.rename (receive c delivery name d target).directory (c.temporary target)
      target = (after, .ok ())) (htarget : target ≠ []) :
    AddsFile d after target delivery.written := by
  obtain ⟨made, hadds, hfree, hdir, -, -, -⟩ := receive_ok received
  rw [hdir] at settled
  obtain ⟨bytes, hbytes, rfl⟩ := settle_ok settled
  have htemp := c.temporary_ne_nil target
  obtain rfl : delivery.written = bytes := by
    rw [Directory.file?_put _ _ _ _ htemp, if_pos rfl] at hbytes
    exact Option.some.inj hbytes
  constructor
  · rw [Directory.file?_put _ _ _ _ htarget, if_pos rfl]
  · intro p hp
    rw [Directory.node?_put _ _ _ _ htarget, if_neg hp, Directory.node?_erase _ _ _ htemp,
      Directory.node?_put _ _ _ _ htemp]
    by_cases ht : p = c.temporary target
    · -- the temporary file was free before the download and is free again
      subst ht
      rw [if_pos rfl]
      rw [hadds.node?_eq (c.temporary_off target)] at hfree
      exact .inl hfree.symm
    · rw [if_neg ht, if_neg ht]
      exact hadds p

/-! ## The files afterwards -/

/-- A reception that failed leaves every file as it was. -/
theorem file?_receive_of_error {fault : Fault}
    (h : (receive c delivery name d target).outcome = .error fault) (p : Path) :
    (receive c delivery name d target).directory.file? p = d.file? p :=
  (receive_error h).file?_eq p

/-- A reception that succeeded leaves one more file. -/
theorem file?_receive_of_ok {size : Nat}
    (h : (receive c delivery name d target).outcome = .ok size) (p : Path) :
    (receive c delivery name d target).directory.file? p
      = if p = c.temporary target then some delivery.written else d.file? p := by
  obtain ⟨made, hadds, -, hdir, -⟩ := receive_ok h
  rw [hdir, Directory.file?_put _ _ _ _ (c.temporary_ne_nil target), hadds.file?_eq]

/-- A move that failed takes the temporary file away. -/
theorem file?_settle_of_error {trouble : Option FileCause} {temporary : Path}
    {after : Directory} {fault : Fault}
    (h : settle trouble d temporary target = (after, .error fault)) (htemp : temporary ≠ [])
    (p : Path) : after.file? p = if p = temporary then none else d.file? p := by
  rw [settle_error h, Directory.file?_erase _ _ _ htemp]

/-- A move that succeeded takes the temporary file to the place. -/
theorem file?_settle_of_ok {trouble : Option FileCause} {temporary : Path} {after : Directory}
    (h : settle trouble d temporary target = (after, .ok ())) (htemp : temporary ≠ [])
    (htarget : target ≠ []) (p : Path) :
    after.file? p = if p = target then d.file? temporary
      else if p = temporary then none else d.file? p := by
  obtain ⟨bytes, hbytes, rfl⟩ := settle_ok h
  rw [Directory.file?_put _ _ _ _ htarget, Directory.file?_erase _ _ _ htemp, hbytes]

/-- The folders that a reception makes are on the way to its place. -/
theorem folder_receive_of_ok {size : Nat}
    (h : (receive c delivery name d target).outcome = .ok size) {p : Path}
    (folder : (receive c delivery name d target).directory.node? p = some .folder) :
    d.node? p = some .folder ∨ p <+: target.dropLast := by
  obtain ⟨made, hadds, -, hdir, -⟩ := receive_ok h
  rw [hdir, Directory.node?_put _ _ _ _ (c.temporary_ne_nil target)] at folder
  split at folder
  next => cases folder
  next =>
    rcases hadds p with same | ⟨-, -, onWay⟩
    · exact .inl (same ▸ folder)
    · exact .inr onWay

/-- A move makes no folders. -/
theorem folder_settle_of_ok {trouble : Option FileCause} {temporary : Path} {after : Directory}
    (h : settle trouble d temporary target = (after, .ok ())) (htemp : temporary ≠ [])
    (htarget : target ≠ []) {p : Path} (folder : after.node? p = some .folder) :
    d.node? p = some .folder := by
  obtain ⟨bytes, -, rfl⟩ := settle_ok h
  rw [Directory.node?_put _ _ _ _ htarget] at folder
  split at folder
  next => cases folder
  next =>
    rw [Directory.node?_erase _ _ _ htemp] at folder
    split at folder
    next => cases folder
    next => exact folder

/-! ## Where nothing fails -/

/-- Where no step fails and no file stands in the way, the folders are made, and a temporary name
that was free still is. -/
theorem exists_made (smooth : c.Smooth target)
    (clear : ∀ p, p <+: target.dropLast → d.file? p = none)
    (free : d.node? (c.temporary target) = none) :
    ∃ made, d.createFolders c.folder [] target.dropLast = (made, .ok ()) ∧
      made.node? (c.temporary target) = none := by
  have hok : (d.createFolders c.folder [] target.dropLast).2 = .ok () :=
    Directory.createFolders_ok smooth.folder clear
  have hadds : AddsFolders d (d.createFolders c.folder [] target.dropLast).1 target.dropLast :=
    Directory.createFolders_adds c.folder d [] target.dropLast
  refine ⟨_, Prod.ext rfl hok, ?_⟩
  rw [hadds.node?_eq (c.temporary_off target), free]

/-- A reception succeeds where no step fails, no file stands in the way and the temporary name is
free. -/
theorem receive_smooth (smooth : c.Smooth target) (whole : delivery.fault = none)
    (clear : ∀ p, p <+: target.dropLast → d.file? p = none)
    (free : d.node? (c.temporary target) = none) :
    (receive c delivery name d target).outcome = .ok delivery.written.length := by
  obtain ⟨made, hmade, hfree⟩ := exists_made smooth clear free
  simp [receive, hmade, smooth.temp, hfree, whole, smooth.flush, smooth.sync]

/-- Where no step fails, only a delivery that broke off fails a reception, and the archive was asked
for it. -/
theorem receive_broken {fault : Fault} (smooth : c.Smooth target)
    (broken : delivery.fault = some fault) (clear : ∀ p, p <+: target.dropLast → d.file? p = none)
    (free : d.node? (c.temporary target) = none) :
    (receive c delivery name d target).outcome = .error fault ∧
      (receive c delivery name d target).asked = true := by
  obtain ⟨made, hmade, hfree⟩ := exists_made smooth clear free
  simp [receive, hmade, smooth.temp, hfree, broken]

/-- A complete temporary file moves to any place where no folder stands. -/
theorem settle_smooth {temporary : Path} {bytes : Bytes} (file : d.file? temporary = some bytes)
    (clear : d.node? target ≠ some .folder) :
    settle none d temporary target = ((d.erase temporary).put target (.file bytes), .ok ()) := by
  simp [settle, Directory.rename_of_file file clear]

end Download

end OffsetService
