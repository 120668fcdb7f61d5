import SonicGnmi.Strings

/-!
# `filepath.Clean` and lexical resolution

Every path the file service touches goes through `filepath.Clean` first
(`validatePath`, `translatePathForContainer`). `clean` models it on Unix element by
element: the Go loop reads the path one element at a time, skips empty and `.`
elements, lets `..` back up to the previous separator but never past `dotdot` (the
root, or the run of leading `..` of a relative path), and copies any other element
after a separator. Here the output buffer is the stack of elements kept so far, and
`dotdot` is the point where the stack holds only `..`.

`resolve` is the lexical resolution of an absolute path, with nothing of Go in it:
`.` and empty elements dropped, `..` popping one element. The results:

* **refinement** — on a rooted path `clean` is `resolve` rendered back with `/`
  (`clean_of_rooted`);
* **normal form** — the resolution of a rooted path has only `Normal` elements
  (`normal_resolve`), so it is a fixed point of both functions (`resolve_render`,
  `clean_render`) and `clean` is idempotent on rooted paths (`clean_clean`).
-/

namespace SonicGnmi.Path

/-- The elements of a path: the pieces between its separators. -/
def elements (p : List Char) : List (List Char) := split p '/'

/-- A `..` may back up over the top of the stack: it is a real element, not one of the
leading `..` of a relative path (`out.w > dotdot` in the Go loop). -/
def canBacktrack : List (List Char) → Bool
  | top :: _ => top ≠ ['.', '.']
  | [] => false

/-- One element of the `filepath.Clean` loop, on the stack of elements kept so far
(the last one kept first). -/
def cleanStep (rooted : Bool) (stack : List (List Char)) (e : List Char) :
    List (List Char) :=
  if e = [] ∨ e = ['.'] then stack
  else if e = ['.', '.'] then
    if canBacktrack stack then stack.tail
    else if rooted then stack
    else e :: stack
  else e :: stack

/-- `filepath.Clean(path)` on Unix (no volume name; `FromSlash` is the identity). -/
def clean (path : List Char) : List Char :=
  if path = [] then ['.'] else
  let rooted := path.head? = some '/'
  let stack := (elements path).foldl (cleanStep rooted) []
  let body := ['/'].intercalate stack.reverse
  let out := if rooted then '/' :: body else body
  if out = [] then ['.'] else out

/-- One element of lexical resolution. -/
def resolveStep (stack : List (List Char)) (e : List Char) : List (List Char) :=
  if e = [] ∨ e = ['.'] then stack
  else if e = ['.', '.'] then stack.tail
  else e :: stack

/-- The lexical resolution of an absolute path, as the list of its elements from the
root: `.` and empty elements dropped, `..` popping one element (none at the root). -/
def resolve (p : List Char) : List (List Char) :=
  ((elements p).foldl resolveStep []).reverse

/-- The absolute path whose elements are `segs`. -/
def render (segs : List (List Char)) : List Char := '/' :: ['/'].intercalate segs

/-- An element of a clean absolute path: not empty, not `.` or `..`, no separator. -/
def Normal (e : List Char) : Prop :=
  e ≠ [] ∧ e ≠ ['.'] ∧ e ≠ ['.', '.'] ∧ '/' ∉ e

instance (e : List Char) : Decidable (Normal e) := inferInstanceAs (Decidable (_ ∧ _))

/-! ## Resolution keeps only normal elements -/

theorem resolveStep_normal {stack : List (List Char)} {e : List Char}
    (hs : ∀ x ∈ stack, Normal x) (he : '/' ∉ e) : ∀ x ∈ resolveStep stack e, Normal x := by
  unfold resolveStep
  split_ifs with h0 h1
  · exact hs
  · exact fun x hx => hs x (List.mem_of_mem_tail hx)
  · push_neg at h0
    simpa using ⟨⟨h0.1, h0.2, h1, he⟩, hs⟩

theorem foldl_resolveStep_normal {es stack : List (List Char)} (hes : ∀ e ∈ es, '/' ∉ e)
    (hs : ∀ x ∈ stack, Normal x) : ∀ x ∈ es.foldl resolveStep stack, Normal x := by
  induction es generalizing stack with
  | nil => exact hs
  | cons e es ih =>
    exact ih (fun x hx => hes x (List.mem_cons_of_mem _ hx))
      (resolveStep_normal hs (hes e (List.mem_cons_self e es)))

/-- Every element of a lexical resolution is normal. -/
theorem normal_resolve (p : List Char) : ∀ x ∈ resolve p, Normal x := by
  intro x hx
  rw [resolve, List.mem_reverse] at hx
  exact foldl_resolveStep_normal (fun e he => not_mem_of_mem_split he) (by simp) x hx

/-! ## On a rooted path `clean` renders the resolution -/

/-- With no `..` on the stack, the rooted `Clean` step is the resolution step. -/
theorem cleanStep_true {stack : List (List Char)} (hs : ['.', '.'] ∉ stack)
    (e : List Char) : cleanStep true stack e = resolveStep stack e := by
  unfold cleanStep resolveStep canBacktrack
  split_ifs <;> rcases stack with _ | ⟨top, rest⟩ <;> simp_all

theorem foldl_cleanStep_true {es stack : List (List Char)} (hes : ∀ e ∈ es, '/' ∉ e)
    (hs : ∀ x ∈ stack, Normal x) :
    es.foldl (cleanStep true) stack = es.foldl resolveStep stack := by
  induction es generalizing stack with
  | nil => rfl
  | cons e es ih =>
    have hdd : ['.', '.'] ∉ stack := fun h => (hs _ h).2.2.1 rfl
    simp only [List.foldl_cons, cleanStep_true hdd]
    exact ih (fun x hx => hes x (List.mem_cons_of_mem _ hx))
      (resolveStep_normal hs (hes e (List.mem_cons_self e es)))

/-- **Refinement.** On a rooted path, `filepath.Clean` is the lexical resolution
rendered back as an absolute path. -/
theorem clean_of_rooted {p : List Char} (hp : p.head? = some '/') :
    clean p = render (resolve p) := by
  have hne : p ≠ [] := by rintro rfl; simp at hp
  simp only [clean, hne, hp, render, resolve, List.reverse_reverse, decide_True, if_true,
    if_false, List.cons_ne_nil]
  rw [foldl_cleanStep_true (fun e (he : e ∈ elements p) => not_mem_of_mem_split he) (by simp)]

/-! ## Normal paths are fixed points -/

theorem foldl_resolveStep_of_normal {es : List (List Char)} (hes : ∀ x ∈ es, Normal x)
    (stack : List (List Char)) : es.foldl resolveStep stack = es.reverse ++ stack := by
  induction es generalizing stack with
  | nil => rfl
  | cons e es ih =>
    obtain ⟨h0, h1, h2, -⟩ := hes e (List.mem_cons_self e es)
    simp [resolveStep, h0, h1, h2, ih (fun x hx => hes x (List.mem_cons_of_mem e hx))]

theorem elements_render {segs : List (List Char)} (hs : ∀ x ∈ segs, '/' ∉ x)
    (hne : segs ≠ []) : elements (render segs) = [] :: segs := by
  obtain ⟨a, l, rfl⟩ := List.exists_cons_of_ne_nil hne
  have hr : render (a :: l) = ['/'].intercalate ([] :: a :: l) := by
    simp [render, List.intercalate]
  rw [hr, elements, split_intercalate (by simpa using hs) (List.cons_ne_nil _ _)]

/-- A path rendered from normal elements resolves to them. -/
theorem resolve_render {segs : List (List Char)} (hs : ∀ x ∈ segs, Normal x) :
    resolve (render segs) = segs := by
  by_cases hne : segs = []
  · subst hne; decide
  · rw [resolve, elements_render (fun x hx => (hs x hx).2.2.2) hne, List.foldl_cons]
    simp [resolveStep, foldl_resolveStep_of_normal hs]

/-- A path rendered from normal elements is clean. -/
theorem clean_render {segs : List (List Char)} (hs : ∀ x ∈ segs, Normal x) :
    clean (render segs) = render segs := by
  rw [@clean_of_rooted (render segs) rfl, resolve_render hs]

/-- `filepath.Clean` of a rooted path resolves as the path does. -/
theorem resolve_clean {p : List Char} (hp : p.head? = some '/') :
    resolve (clean p) = resolve p := by
  rw [clean_of_rooted hp, resolve_render (normal_resolve p)]

/-- `filepath.Clean` is idempotent on rooted paths. -/
theorem clean_clean {p : List Char} (hp : p.head? = some '/') : clean (clean p) = clean p := by
  rw [clean_of_rooted hp, clean_render (normal_resolve p)]

end SonicGnmi.Path
