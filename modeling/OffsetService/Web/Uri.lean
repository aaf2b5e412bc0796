/-!
# Parts of a URI

A URI is split by its punctuation alone: the scheme ends at `://`, the authority before the first
slash, question mark or number sign after it, the path before the first question mark or number
sign, and the query before the first number sign. `text_ofText?` puts the parts together again.
-/

namespace OffsetService

/-- The parts of a URI with an authority. -/
structure Uri where
  scheme : List Char
  authority : List Char
  path : List Char
  query : Option (List Char)
  fragment : Option (List Char)
  deriving DecidableEq, Repr

namespace Uri

/-- Whether a character ends a path. -/
def endsPath (c : Char) : Bool := c = '?' || c = '#'

/-- Whether a character ends an authority. -/
def endsAuthority (c : Char) : Bool := c = '/' || endsPath c

/-- The text behind a scheme and its mark. -/
def afterScheme? (scheme : List Char) (text : List Char) : Option (List Char) :=
  let opening := scheme ++ [':', '/', '/']
  if opening.isPrefixOf text then some (text.drop opening.length) else none

/-- A query, if the text begins with one, and the fragment behind it. -/
def queryAndFragment : List Char → Option (List Char) × Option (List Char)
  | '?' :: rest =>
    let query := rest.takeWhile (· ≠ '#')
    match rest.drop query.length with
    | _ :: fragment => (some query, some fragment)
    | [] => (some query, none)
  | '#' :: fragment => (none, some fragment)
  | _ => (none, none)

/-- The parts of a URI of this scheme, or nothing when the text has another beginning. -/
def ofText? (scheme : List Char) (text : List Char) : Option Uri :=
  match afterScheme? scheme text with
  | none => none
  | some rest =>
    let authority := rest.takeWhile fun c => !endsAuthority c
    let rest := rest.drop authority.length
    let path := rest.takeWhile fun c => !endsPath c
    let (query, fragment) := queryAndFragment (rest.drop path.length)
    some { scheme, authority, path, query, fragment }

/-- The text of a URI. -/
def text (u : Uri) : List Char :=
  u.scheme ++ [':', '/', '/'] ++ u.authority ++ u.path
    ++ (u.query.elim [] fun query => '?' :: query)
    ++ (u.fragment.elim [] fun fragment => '#' :: fragment)

theorem takeWhile_append_drop (p : Char → Bool) (l : List Char) :
    l.takeWhile p ++ l.drop (l.takeWhile p).length = l :=
  List.prefix_iff_eq_append.1 (List.takeWhile_prefix p)

/-- What stands behind the characters that were taken begins with one that was not. -/
theorem head?_drop_takeWhile (p : Char → Bool) (l : List Char) :
    ∀ c ∈ (l.drop (l.takeWhile p).length).head?, p c = false := by
  induction l with
  | nil => simp
  | cons x rest ih =>
    by_cases hx : p x
    · simpa [List.takeWhile_cons, hx] using ih
    · simp [hx]

theorem queryAndFragment_text {rest : List Char} (h : ∀ c ∈ rest.head?, endsPath c = true) :
    (queryAndFragment rest).1.elim [] (fun query => '?' :: query)
      ++ (queryAndFragment rest).2.elim [] (fun fragment => '#' :: fragment) = rest := by
  cases rest with
  | nil => rfl
  | cons c rest =>
    have hc : endsPath c = true := h c (by simp)
    simp only [endsPath, Bool.or_eq_true, decide_eq_true_eq] at hc
    rcases hc with rfl | rfl
    · have hsplit := takeWhile_append_drop (· ≠ '#') rest
      have hhead := head?_drop_takeWhile (· ≠ '#') rest
      simp only [queryAndFragment]
      split
      next c fragment heq =>
        rw [heq] at hsplit hhead
        have hc : c = '#' := by simpa using hhead c (by simp)
        subst hc
        simp only [Option.elim_some, List.cons_append]
        exact congrArg _ hsplit
      next heq =>
        rw [heq, List.append_nil] at hsplit
        simp only [Option.elim_some, Option.elim_none, List.append_nil]
        exact congrArg _ hsplit
    · rfl

/-- The parts of a text are all of it. -/
theorem text_ofText? {scheme text : List Char} {u : Uri} (h : ofText? scheme text = some u) :
    u.text = text := by
  simp only [ofText?, afterScheme?] at h
  split at h
  next => simp at h
  next rest hrest =>
    split at hrest
    next hpre =>
      have hpre := List.prefix_iff_eq_append.1 (List.isPrefixOf_iff_prefix.1 hpre)
      simp only [Option.some.injEq] at hrest h
      subst hrest h
      simp only [Uri.text]
      generalize text.drop (scheme ++ [':', '/', '/']).length = body at hpre ⊢
      rw [List.append_assoc, queryAndFragment_text, List.append_assoc, List.append_assoc,
        takeWhile_append_drop, takeWhile_append_drop]
      · exact hpre
      · intro c hc
        simpa using head?_drop_takeWhile _ _ c hc
    next => simp at hrest

end Uri

end OffsetService
