import OffsetService.Cache

/-!
# Keys and places

The key of an identity is its relative path, a text; its place is the same path in components. For
identities that `Archive.check` accepts the two say the same (`place_eq_iff`): a name without a
slash is what stands before the first slash of the key.

A key has a folder in it, so the path of a database is never refused for want of one
(`hasFolder_localPath`).

The temporary file of a download is in the folder of its place but is nobody's place
(`temporary_ne_place`), so what one download does to its temporary file no other key can see.
-/

namespace OffsetService

namespace Archive

/-- What an accepted identity satisfies. -/
theorem check_eq_ok_iff {id : Identity} :
    check id = .ok () ↔ id.isComplete = true ∧ isSafeName id.name = true ∧
      isSafeUniqueId id.uniqueId = true := by
  unfold check
  cases id.isComplete <;> cases isSafeName id.name <;> cases isSafeUniqueId id.uniqueId <;> simp

/-- The name of an accepted identity has no slash. -/
theorem slash_not_mem_name {id : Identity} (h : check id = .ok ()) : '/' ∉ id.name.toList := by
  obtain ⟨-, hsafe, -⟩ := check_eq_ok_iff.1 h
  intro hmem
  have hany : id.name.toList.any isUnsafe = true :=
    List.any_eq_true.2 ⟨'/', hmem, by simp [isUnsafe]⟩
  simp [isSafeName, hany] at hsafe

theorem toList_relativePath (id : Identity) :
    (relativePath id).toList
      = id.name.toList ++ '/' :: ((folder id).toList ++ '/' :: id.name.toList) := by
  simp [relativePath]

/-- One key of names without a slash has one name and one folder: the name is what stands before the
first slash. -/
theorem parts_of_relativePath_eq {id other : Identity} (hid : '/' ∉ id.name.toList)
    (hother : '/' ∉ other.name.toList) (h : relativePath id = relativePath other) :
    id.name = other.name ∧ folder id = folder other := by
  have hlist := congrArg String.toList h
  rw [toList_relativePath, toList_relativePath] at hlist
  have hplain : ∀ {name : List Char}, '/' ∉ name → ∀ c ∈ name, (c != '/') = true := by
    intro name hname c hc
    rw [bne_iff_ne]
    rintro rfl
    exact hname hc
  have hname : id.name.toList = other.name.toList := by
    have hbefore := congrArg (List.takeWhile (· != '/')) hlist
    rwa [List.takeWhile_append_of_pos (hplain hid), List.takeWhile_append_of_pos (hplain hother),
      List.takeWhile_cons_of_neg (by simp), List.takeWhile_cons_of_neg (by simp),
      List.append_nil, List.append_nil] at hbefore
  rw [hname] at hlist
  have hrest := (List.cons.inj (List.append_cancel_left hlist)).2
  have hfolder := List.append_cancel_right hrest
  exact ⟨String.toList_inj.1 hname, String.toList_inj.1 hfolder⟩

/-- A path with a character that can neither be left out nor end a part is in a folder. -/
theorem hasFolder_of_mem {path : String} {c : Char} (h : c ∈ path.toList) (hslash : c ≠ '/')
    (hdot : c ≠ '.') : hasFolder path = true := by
  unfold hasFolder
  split
  next hempty => rw [hempty] at h; cases h
  next rest hroot =>
    rw [hroot] at h
    have hrest : c ∈ rest := (List.mem_cons.1 h).resolve_left hslash
    obtain ⟨part, hpart, hmem⟩ : ∃ part ∈ Fields.split (· = '/') rest, c ∈ part :=
      Fields.exists_field_of_mem hrest (decide_eq_false hslash)
    refine List.any_eq_true.2 ⟨part, hpart, ?_⟩
    have hne : part ≠ [] := List.ne_nil_of_mem hmem
    have hname : part ≠ ['.'] := by
      rintro rfl
      exact hdot (List.mem_singleton.1 hmem)
    simp [hne, hname]
  next => rfl

/-- The age of an identity ends the name of its folder in a digit. -/
theorem exists_digit_mem_folder (id : Identity) :
    ∃ c ∈ (folder id).toList, c ≠ '/' ∧ c ≠ '.' := by
  have hdigit : ∀ n < 16, n.digitChar.toUpper ≠ '/' ∧ n.digitChar.toUpper ≠ '.' := by decide
  have hmem : (id.age.toNat % 16).digitChar ∈ Nat.toDigits 16 id.age.toNat := by
    rw [Nat.toDigits_eq_if (by decide)]
    split
    next hlt => simp [Nat.mod_eq_of_lt hlt]
    next => simp
  refine ⟨(id.age.toNat % 16).digitChar.toUpper, ?_, hdigit _ (Nat.mod_lt _ (by decide))⟩
  rw [folder, Hex.upper, String.toList_append, String.toList_ofList]
  exact List.mem_append_right _ (List.mem_map_of_mem hmem)

/-- The path of a database is in a folder, whatever the identity and wherever the archive is. -/
theorem hasFolder_join (root : String) (id : Identity) :
    hasFolder (join root (relativePath id)) = true := by
  obtain ⟨c, hmem, hslash, hdot⟩ := exists_digit_mem_folder id
  have hrelative : c ∈ (relativePath id).toList := by
    rw [toList_relativePath]
    simp [hmem]
  refine hasFolder_of_mem ?_ hslash hdot
  unfold join
  split
  · exact hrelative
  · split <;> simp [hrelative]

end Archive

namespace Cache

open Archive (relativePath folder check)

theorem hasFolder_localPath (cache : Cache) (id : Identity) :
    Archive.hasFolder (cache.localPath id) = true :=
  Archive.hasFolder_join cache.root id

theorem place_ne_nil (id : Identity) : place id ≠ [] := by
  simp [place]

theorem dropLast_place (id : Identity) : (place id).dropLast = [id.name, folder id] := rfl

/-- The folder of a place determines it. -/
theorem place_eq_of_dropLast_eq {id other : Identity}
    (h : (place id).dropLast = (place other).dropLast) : place id = place other := by
  simp only [dropLast_place, List.cons.injEq, and_true] at h
  simp only [place, h.1, h.2]

theorem key_eq_of_place_eq {id other : Identity} (h : place id = place other) :
    relativePath id = relativePath other := by
  simp only [place, List.cons.injEq, and_true] at h
  simp only [relativePath, h.1, h.2.1]

/-- Accepted identities have one place exactly when they have one key. -/
theorem place_eq_iff {id other : Identity} (hid : check id = .ok ())
    (hother : check other = .ok ()) :
    place id = place other ↔ relativePath id = relativePath other := by
  refine ⟨key_eq_of_place_eq, fun h => ?_⟩
  obtain ⟨hname, hfolder⟩ := Archive.parts_of_relativePath_eq (Archive.slash_not_mem_name hid)
    (Archive.slash_not_mem_name hother) h
  simp only [place, hname, hfolder]

theorem dropLast_temporary (c : Conditions) (id : Identity) :
    (c.temporary (place id)).dropLast = (place id).dropLast := by
  simp [Conditions.temporary]

/-- The files in the folder of a place are three levels deep. -/
theorem length_of_dropLast_eq {p : Path} {id : Identity} (near : p.dropLast = (place id).dropLast) :
    p.length = 3 := by
  have hlen := congrArg List.length near
  rw [List.length_dropLast, dropLast_place] at hlen
  simp only [List.length_cons, List.length_nil] at hlen
  omega

theorem ne_nil_of_dropLast_eq {p : Path} {id : Identity} (near : p.dropLast = (place id).dropLast) :
    p ≠ [] := by
  rintro rfl
  cases near

/-- A temporary file that is not at the place of its download is at no place. -/
theorem temporary_ne_place {temporary : Path} {id : Identity}
    (near : temporary.dropLast = (place id).dropLast) (apart : temporary ≠ place id)
    (other : Identity) : temporary ≠ place other := by
  intro h
  subst h
  exact apart (place_eq_of_dropLast_eq near)

end Cache

end OffsetService
