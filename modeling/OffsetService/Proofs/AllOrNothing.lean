import OffsetService.Proofs.Download
import OffsetService.Proofs.Places

/-!
# A call brings the whole database or nothing

A call for a database has three ends. It finds the file, and then nothing at all has changed. It
brings the file, and then exactly the bytes that the archive wrote are at its place. Or it fails,
and then every file is as it was. In each of them the only other change is folders on the way to
the place, whatever the archive delivers and whichever step on files fails.

The third end has its reasons: the identity has no place, or the download was hindered
(`Unhindered` lists what can hinder it). So a call cannot fail at will.
-/

namespace OffsetService.Cache

open Directory (AddsFolders AddsFile)

/-- Nothing hinders a download: no step on files fails, the archive delivers to the end, no file is
in the way of a folder, and the names of the temporary file and of the database are free. -/
structure Unhindered (conditions : Conditions) (delivery : Delivery) (d : Directory)
    (target : Path) : Prop where
  smooth : conditions.Smooth target
  whole : delivery.fault = none
  clear : ∀ p, p <+: target.dropLast → d.file? p = none
  temporary : d.node? (conditions.temporary target) = none
  free : d.node? target = none

/-- An unhindered download comes to its end. -/
theorem receive_and_settle_of_unhindered {conditions : Conditions} {delivery : Delivery}
    {d : Directory} {target : Path} (name : String) (htarget : target ≠ [])
    (h : Unhindered conditions delivery d target) :
    (Download.receive conditions delivery name d target).outcome
        = .ok delivery.written.length ∧
      ∃ after, Download.settle conditions.rename
        (Download.receive conditions delivery name d target).directory
        (conditions.temporary target) target = (after, .ok ()) := by
  have received : (Download.receive conditions delivery name d target).outcome
      = .ok delivery.written.length :=
    Download.receive_smooth h.smooth h.whole h.clear h.temporary
  refine ⟨received, ?_⟩
  obtain ⟨made, hadds, -, hdir, -, -, -⟩ := Download.receive_ok received
  have htemp := conditions.temporary_ne_nil target
  have hfile : (made.put (conditions.temporary target) (.file delivery.written)).file?
      (conditions.temporary target) = some delivery.written := by
    rw [Directory.file?_put _ _ _ _ htemp, if_pos rfl]
  have hclear : (made.put (conditions.temporary target) (.file delivery.written)).node? target
      ≠ some .folder := by
    rw [Directory.node?_put _ _ _ _ htemp]
    split
    next => exact fun heq => by cases heq
    next =>
      have hoff : ¬target <+: target.dropLast := by
        intro hp
        have hlen := hp.length_le
        rw [List.length_dropLast] at hlen
        have := List.length_pos_iff.2 htarget
        omega
      rw [hadds.node?_eq hoff, h.free]
      exact fun heq => by cases heq
  rw [hdir, h.smooth.rename]
  exact ⟨_, Download.settle_smooth hfile hclear⟩

/-- A download ends with the whole file or with every file as before. -/
theorem download_whole_or_nothing (conditions : Conditions) (delivery : Delivery) (cache : Cache)
    (id : Identity) :
    ((download conditions delivery cache id).2.outcome = .ok () ∧
      (download conditions delivery cache id).1.fetches = cache.fetches + 1 ∧
      delivery.fault = none ∧
      AddsFile cache.directory (download conditions delivery cache id).1.directory (place id)
        delivery.written) ∨
    ((∃ fault, (download conditions delivery cache id).2.outcome = .error fault) ∧
      ¬Unhindered conditions delivery cache.directory (place id) ∧
      AddsFolders cache.directory (download conditions delivery cache id).1.directory
        (place id).dropLast) := by
  have hfree : Unhindered conditions delivery cache.directory (place id) → _ :=
    receive_and_settle_of_unhindered id.name (place_ne_nil id)
  unfold download
  dsimp only
  rw [if_pos (hasFolder_localPath cache id)]
  generalize hgot : Download.receive conditions delivery id.name cache.directory (place id) = got
  rw [hgot] at hfree
  cases houtcome : got.outcome with
  | error fault =>
    refine .inr ⟨⟨fault, rfl⟩, fun h => ?_, ?_⟩
    · rw [(hfree h).1] at houtcome
      cases houtcome
    · subst hgot
      exact Download.receive_error houtcome
  | ok size =>
    have hreceived : (Download.receive conditions delivery id.name cache.directory
        (place id)).outcome = .ok size := hgot ▸ houtcome
    obtain ⟨made, hadds, hnone, hdir, hasked, hwhole, -⟩ := Download.receive_ok hreceived
    rw [hgot] at hdir hasked
    dsimp only
    split
    next after fault hsettle =>
      refine .inr ⟨⟨fault, rfl⟩, fun h => ?_, ?_⟩
      · obtain ⟨_, _, hdone⟩ := hfree h
        rw [hdone] at hsettle
        cases hsettle
      · -- the temporary file is taken away, and only the folders stay
        obtain rfl := Download.settle_error hsettle
        dsimp only
        rw [hdir]
        exact hadds.trans fun p =>
          .inl (Directory.node?_erase_put hnone _ (conditions.temporary_ne_nil _) p)
    next after hsettle =>
      refine .inl ⟨rfl, by simp [hasked], hwhole, ?_⟩
      exact Download.adds_of_settle_ok hreceived (hgot ▸ hsettle) (place_ne_nil id)

/-- **One call.** It finds the file and changes nothing; or it brings the file, with exactly the
bytes that the archive wrote; or it fails, and every file is as it was. In the last two cases
folders on the way to the place may be new, and nothing else is. -/
theorem ensureUnder_all_or_nothing (conditions : Conditions) (delivery : Delivery) (cache : Cache)
    (id : Identity) :
    let after := (ensureUnder conditions delivery cache id).1
    let outcome := (ensureUnder conditions delivery cache id).2.outcome
    let path := Archive.join cache.root (Archive.relativePath id)
    (∃ bytes, cache.directory.file? (place id) = some bytes ∧ outcome = .ok path ∧
      after.directory = cache.directory ∧ after.fetches = cache.fetches) ∨
    (cache.directory.file? (place id) = none ∧ outcome = .ok path ∧ delivery.fault = none ∧
      AddsFile cache.directory after.directory (place id) delivery.written ∧
      after.fetches = cache.fetches + 1) ∨
    ((∃ fault, outcome = .error fault) ∧
      AddsFolders cache.directory after.directory (place id).dropLast ∧
      ((∃ fault, Archive.check id = .error fault) ∨
        cache.directory.file? (place id) = none ∧
          ¬Unhindered conditions delivery cache.directory (place id))) := by
  dsimp only
  unfold ensureUnder
  cases hcheck : Archive.check id with
  | error fault =>
    exact .inr (.inr ⟨⟨fault, rfl⟩, AddsFolders.refl _ _, .inl ⟨fault, rfl⟩⟩)
  | ok _ =>
    dsimp only
    cases hfile : cache.directory.file? (place id) with
    | some bytes =>
      have hhit : cache.directory.isFile (place id) = true := by
        simp [Directory.isFile, hfile]
      rw [if_pos hhit]
      exact .inl ⟨bytes, rfl, rfl, rfl, rfl⟩
    | none =>
      have hmiss : ¬cache.directory.isFile (place id) = true := by
        simp [Directory.isFile, hfile]
      rw [if_neg hmiss]
      generalize cache.locks.join (Archive.relativePath id) = joined
      obtain ⟨locks, number⟩ := joined
      rcases download_whole_or_nothing conditions delivery { cache with locks := locks } id with
        ⟨hok, hfetches, hwhole, hadds⟩ | ⟨⟨fault, hfault⟩, hhindered, hadds⟩
      · refine .inr (.inl ⟨rfl, ?_, hwhole, hadds, hfetches⟩)
        simp only [Traced.map, hok]
        rfl
      · refine .inr (.inr ⟨⟨fault, ?_⟩, hadds, .inr ⟨rfl, hhindered⟩⟩)
        simp only [Traced.map, hfault]
        rfl

end OffsetService.Cache
