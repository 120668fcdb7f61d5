import SonicGnmi.Path.Clean

/-!
# `validatePath` and `translatePathForContainer`

`validatePath` cleans the path, then rejects it unless the result is absolute, holds
no `..` anywhere, and begins with `/tmp/` or `/var/tmp/`. `translatePathForContainer`
cleans the path again and, inside a container, puts `/mnt/host` in front.

* `validatePath_eq_none` — the three checks, as one statement;
* `validatePath_confines` — an accepted path is rooted, its clean form renders its
  lexical resolution, and that resolution lies strictly below `/tmp` or `/var/tmp`;
* `validatePath_rejects_dotted_name` — the traversal check is a substring test, so a
  clean path under `/tmp/` whose file name holds `..` is refused, although no element
  of it is `..` (after `clean` a rooted path never has one, `clean_no_dotdot_element`).
-/

namespace SonicGnmi.Path

/-- `filepath.IsAbs(path)` on Unix. -/
def isAbs (path : List Char) : Bool := hasPrefix path ['/']

/-- The allow-list of `validatePath`. -/
def allowedPrefixes : List (List Char) := ["/tmp/".toList, "/var/tmp/".toList]

/-- `validatePath(path)`: `none` is a nil error, `some msg` an error with text `msg`. -/
def validatePath (path : List Char) : Option String :=
  let cleanPath := clean path
  if !isAbs cleanPath then some ("path must be absolute, got: " ++ String.mk path)
  else if contains cleanPath "..".toList then
    some ("path traversal not allowed: " ++ String.mk path)
  else if allowedPrefixes.any (hasPrefix cleanPath) then none
  else some ("path must be under /tmp/ or /var/tmp/, got: " ++ String.mk cleanPath)

/-- `translatePathForContainer(path)`. `inContainer` is whether `os.Stat("/mnt/host")`
finds the host mount. -/
def translatePathForContainer (inContainer : Bool) (path : List Char) : List Char :=
  let cleanPath := clean path
  if inContainer then "/mnt/host".toList ++ cleanPath else cleanPath

/-- A resolution strictly below one of the allow-listed directories. -/
def BelowTmp (segs : List (List Char)) : Prop :=
  (∃ rest, segs = "tmp".toList :: rest ∧ rest ≠ []) ∨
    ∃ rest, segs = "var".toList :: "tmp".toList :: rest ∧ rest ≠ []

theorem isAbs_iff {p : List Char} : isAbs p = true ↔ p.head? = some '/' := by
  cases p <;> simp [isAbs, hasPrefix, @eq_comm _ '/']

/-- The three checks of `validatePath`. -/
theorem validatePath_eq_none {path : List Char} :
    validatePath path = none ↔ (clean path).head? = some '/' ∧ ¬"..".toList <:+: clean path ∧
      ("/tmp/".toList <+: clean path ∨ "/var/tmp/".toList <+: clean path) := by
  dsimp only [validatePath]
  split_ifs with h1 h2 h3 <;>
    simp_all [← isAbs_iff, allowedPrefixes]

/-! ## `clean` keeps the root -/

/-- Elements kept by the `Clean` loop are never empty and hold no separator. -/
def Piece (x : List Char) : Prop := x ≠ [] ∧ '/' ∉ x

theorem cleanStep_piece {rooted : Bool} {stack : List (List Char)} {e : List Char}
    (hs : ∀ x ∈ stack, Piece x) (he : '/' ∉ e) : ∀ x ∈ cleanStep rooted stack e, Piece x := by
  unfold cleanStep
  split_ifs with h0 h1 h2 h3
  · exact hs
  · exact fun x hx => hs x (List.mem_of_mem_tail hx)
  · exact hs
  · simpa [h1, Piece] using hs
  · push_neg at h0
    simpa using ⟨⟨h0.1, he⟩, hs⟩

theorem foldl_cleanStep_piece {rooted : Bool} {es stack : List (List Char)}
    (hes : ∀ e ∈ es, '/' ∉ e) (hs : ∀ x ∈ stack, Piece x) :
    ∀ x ∈ es.foldl (cleanStep rooted) stack, Piece x := by
  induction es generalizing stack with
  | nil => exact hs
  | cons e es ih =>
    exact ih (fun x hx => hes x (List.mem_cons_of_mem _ hx))
      (cleanStep_piece hs (hes e (List.mem_cons_self e es)))

theorem head_intercalate_pieces {segs : List (List Char)} (hs : ∀ x ∈ segs, Piece x) :
    (['/'].intercalate segs).head? ≠ some '/' := by
  rcases segs with _ | ⟨a, l⟩
  · simp [List.intercalate]
  · obtain ⟨c, t, rfl⟩ := List.exists_cons_of_ne_nil (hs a (List.mem_cons_self a l)).1
    have hc : c ≠ '/' := fun h => (hs _ (List.mem_cons_self _ l)).2 (h ▸ List.mem_cons_self c t)
    cases l <;> simp [List.intercalate, hc]

/-- `filepath.Clean` returns a rooted path exactly for a rooted input. -/
theorem rooted_of_clean {p : List Char} (h : (clean p).head? = some '/') :
    p.head? = some '/' := by
  by_contra hp
  have hpieces := @foldl_cleanStep_piece false (elements p) []
    (fun e he => not_mem_of_mem_split he) (by simp)
  have hrev : ∀ x ∈ ((elements p).foldl (cleanStep false) []).reverse, Piece x := by
    simpa using hpieces
  have hne : p ≠ [] := by rintro rfl; simp [clean] at h
  simp only [clean, hne, hp, decide_False, if_false, Bool.false_eq_true] at h
  split_ifs at h
  · simp at h
  · exact head_intercalate_pieces hrev h

/-! ## An accepted path is confined -/

/-- Joined elements that begin with `w/`, for `w` free of separators, have `w` as
their first element, followed by the elements of the rest. -/
theorem eq_cons_of_prefix_intercalate {segs : List (List Char)} {w : List Char}
    (hs : ∀ x ∈ segs, '/' ∉ x) (hw : '/' ∉ w) (h : w ++ ['/'] <+: ['/'].intercalate segs) :
    ∃ v, segs = w :: split v '/' ∧ ['/'].intercalate segs = w ++ '/' :: v := by
  obtain ⟨v, hv⟩ := h
  have hne : segs ≠ [] := by rintro rfl; simp [List.intercalate] at hv
  refine ⟨v, ?_, by simp [← hv]⟩
  rw [← split_intercalate hs hne, ← hv, List.append_assoc, List.singleton_append,
    split_append_cons hw]

/-- The rendered form of separator-free elements begins with an allow-listed prefix
only when the elements lie strictly below that directory. -/
theorem belowTmp_of_allowed {segs : List (List Char)} (hs : ∀ x ∈ segs, '/' ∉ x)
    (h : "/tmp/".toList <+: render segs ∨ "/var/tmp/".toList <+: render segs) :
    BelowTmp segs := by
  rcases h with h | h
  · have h' : '/' :: ("tmp".toList ++ ['/']) <+: '/' :: ['/'].intercalate segs := h
    obtain ⟨v, rfl, -⟩ := eq_cons_of_prefix_intercalate hs (by decide) ((List.prefix_cons_inj '/').mp h')
    exact .inl ⟨_, rfl, split_ne_nil v '/'⟩
  · have h' : "var/".toList ++ "tmp/".toList <+: ['/'].intercalate segs :=
      (List.prefix_cons_inj '/').mp h
    have hvar : "var".toList ++ ['/'] <+: ['/'].intercalate segs :=
      (List.prefix_append _ _).trans h'
    obtain ⟨v, rfl, hv⟩ := eq_cons_of_prefix_intercalate hs (by decide) hvar
    rw [hv] at h'
    have hv' : "tmp/".toList <+: ['/'].intercalate (split v '/') := by
      rw [split, List.intercalate_splitOn]
      exact (List.prefix_append_right_inj "var/".toList).mp h'
    obtain ⟨u, hu, -⟩ := @eq_cons_of_prefix_intercalate _ "tmp".toList (fun x hx => not_mem_of_mem_split hx)
      (by decide) hv'
    exact .inr ⟨_, by rw [hu], split_ne_nil u '/'⟩

/-- **An accepted path is confined.** It is rooted, `filepath.Clean` renders its
lexical resolution, and that resolution lies strictly below `/tmp` or `/var/tmp`. -/
theorem validatePath_confines {p : List Char} (h : validatePath p = none) :
    p.head? = some '/' ∧ clean p = render (resolve p) ∧ BelowTmp (resolve p) := by
  obtain ⟨habs, -, hpre⟩ := validatePath_eq_none.mp h
  have hp := rooted_of_clean habs
  rw [clean_of_rooted hp] at hpre
  exact ⟨hp, clean_of_rooted hp,
    belowTmp_of_allowed (fun x hx => (normal_resolve p x hx).2.2.2) hpre⟩

/-- After `filepath.Clean` a rooted path has no `..` element: the traversal check of
`validatePath` can only ever match inside a file name. -/
theorem clean_no_dotdot_element {p : List Char} (hp : p.head? = some '/') :
    ∀ e ∈ elements (clean p), e ≠ "..".toList := by
  intro e he
  rw [clean_of_rooted hp] at he
  by_cases hne : resolve p = []
  · have h0 : elements (render []) = [[], []] := by decide
    rw [hne, h0] at he
    rcases List.mem_pair.mp he with rfl | rfl <;> decide
  · rw [elements_render (fun x hx => (normal_resolve p x hx).2.2.2) hne] at he
    rcases List.mem_cons.mp he with rfl | he
    · decide
    · exact (normal_resolve p e he).2.2.1

/-- `validatePath` refuses `/tmp/firmware..bin`, a clean absolute path below `/tmp/`
none of whose elements is `..`. -/
theorem validatePath_rejects_dotted_name :
    clean "/tmp/firmware..bin".toList = "/tmp/firmware..bin".toList ∧
    isAbs (clean "/tmp/firmware..bin".toList) = true ∧
    (∀ e ∈ elements (clean "/tmp/firmware..bin".toList), e ≠ "..".toList) ∧
    hasPrefix (clean "/tmp/firmware..bin".toList) "/tmp/".toList = true ∧
    validatePath "/tmp/firmware..bin".toList =
      some "path traversal not allowed: /tmp/firmware..bin" :=
  ⟨by decide, by decide, clean_no_dotdot_element rfl, by decide, by decide⟩

end SonicGnmi.Path
