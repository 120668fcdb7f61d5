import Mathlib.Data.List.Basic
import Mathlib.Data.List.Infix

/-!
# The `strings` functions the handlers and the authorizer call

A Go string is a byte string. It is modelled as the list of its bytes, one `Char` a
byte: every byte the handlers compare against (`/`, `.`, `_`, the letters of a service,
method or role name) is ASCII, and `strings.HasPrefix`, `strings.TrimPrefix`,
`strings.Contains` and `strings.Split` only compare bytes for equality, so nothing is
lost.

`strings.ToLower` decodes the bytes as UTF-8 and lower-cases each rune. The handlers only
look for ASCII words in its result, and a rune's bytes are ASCII only when the rune is, so
`toLower` keeps exactly what such a search can see: ASCII capitals become small letters,
and so do the two runes whose lower case is ASCII. Every other rune is left as it is.

The one fact the library lacks is that `strings.Split` never leaves a separator inside
a piece (`not_mem_of_mem_split`); the path and method parsers rest on it.
-/

namespace SonicGnmi

/-- `strings.HasPrefix(s, prefix)`. -/
def hasPrefix (s pre : List Char) : Bool := pre.isPrefixOf s

/-- `strings.TrimPrefix(s, prefix)`. -/
def trimPrefix (s pre : List Char) : List Char := if hasPrefix s pre then s.drop pre.length else s

/-- `strings.Contains(s, substr)`. -/
def contains (s sub : List Char) : Bool := decide (sub <:+: s)

/-- `strings.Split(s, sep)` for a one-byte separator. -/
def split (s : List Char) (sep : Char) : List (List Char) := s.splitOn sep

/-- `strings.ToLower(s)` on the bytes of `s`, up to runes whose lower case is not ASCII:
`A`–`Z` become `a`–`z`, U+0130 (`İ`, bytes C4 B0) becomes `i`, and U+212A (the Kelvin
sign, bytes E2 84 AA) becomes `k`. The lower case of every other rune is itself or a rune
with no ASCII byte, so it is left as it is. -/
def toLower : List Char → List Char
  | [] => []
  | '\xC4' :: '\xB0' :: s => 'i' :: toLower s
  | '\xE2' :: '\x84' :: '\xAA' :: s => 'k' :: toLower s
  | c :: s => c.toLower :: toLower s

example : toLower "Stat /tmp/No\xC4\xB0\xE2\x84\xAA".toList = "stat /tmp/noik".toList := by
  decide

@[simp] theorem hasPrefix_eq_true {s pre : List Char} : hasPrefix s pre = true ↔ pre <+: s :=
  List.isPrefixOf_iff_prefix

@[simp] theorem contains_eq_true {s sub : List Char} : contains s sub = true ↔ sub <:+: s :=
  decide_eq_true_iff

theorem hasPrefix_append (pre s : List Char) : hasPrefix (pre ++ s) pre = true :=
  hasPrefix_eq_true.mpr (List.prefix_append pre s)

theorem trimPrefix_append (pre s : List Char) : trimPrefix (pre ++ s) pre = s := by
  simp [trimPrefix, hasPrefix_append]

/-- No piece of `strings.Split(s, sep)` holds `sep`. -/
theorem not_mem_of_mem_split {s e : List Char} {c : Char} (he : e ∈ split s c) : c ∉ e := by
  induction s generalizing e with
  | nil => simp [split] at he; simp [he]
  | cons x xs ih =>
    simp only [split, List.splitOn, List.splitOnP_cons] at he ih
    split_ifs at he with hx
    · rcases List.mem_cons.mp he with rfl | he
      · simp
      · exact ih he
    · obtain ⟨h, t, hs⟩ := List.exists_cons_of_ne_nil (List.splitOnP_ne_nil (· == c) xs)
      rw [hs, List.modifyHead_cons] at he
      rw [hs] at ih
      rcases List.mem_cons.mp he with rfl | he
      · simp only [beq_iff_eq] at hx
        simp [Ne.symm hx, ih (List.mem_cons_self h t)]
      · exact ih (List.mem_cons_of_mem _ he)

/-- Splitting a string made of `w`, a separator and `v` gives `w` first, when `w` has
no separator. -/
theorem split_append_cons {w v : List Char} {c : Char} (hw : c ∉ w) :
    split (w ++ c :: v) c = w :: split v c :=
  List.splitOnP_first _ w (fun x hx h => hw (by simpa using (beq_iff_eq.mp h) ▸ hx)) c
    (by simp) v

/-- `strings.Split` inverts joining with the separator. -/
theorem split_intercalate {ls : List (List Char)} {c : Char} (hc : ∀ l ∈ ls, c ∉ l)
    (hne : ls ≠ []) : split ([c].intercalate ls) c = ls :=
  List.splitOn_intercalate ls c hc hne

theorem split_ne_nil (s : List Char) (c : Char) : split s c ≠ [] :=
  List.splitOnP_ne_nil _ s

/-- `strings.ToLower` of a concatenation is the concatenation of the two, when the second
part does not start inside a rune the first part ends with. -/
theorem toLower_append (p : List Char) {q : List Char}
    (hq : ∀ c ∈ q.head?, c ≠ '\xB0' ∧ c ≠ '\x84' ∧ c ≠ '\xAA') :
    toLower (p ++ q) = toLower p ++ toLower q := by
  induction p using toLower.induct with
  | case1 => rfl
  | case2 s ih => simp [toLower, ih]
  | case3 s ih => simp [toLower, ih]
  | case4 c s h1 h2 ih =>
    rw [List.cons_append, toLower.eq_4 c (s ++ q) ?_ ?_, toLower.eq_4 c s h1 h2, ih,
      List.cons_append]
    · -- `c :: s ++ q` does not start with `İ`: neither `s` nor `q` goes on with its second byte
      rintro s1 rfl hs
      rcases s with _ | ⟨x, s⟩
      · exact (hq _ (by rw [show q = _ from hs]; rfl)).1 rfl
      · obtain ⟨rfl, -⟩ := List.cons.inj hs
        exact h1 s rfl rfl
    · -- nor with the Kelvin sign
      rintro s1 rfl hs
      rcases s with _ | ⟨x, _ | ⟨y, s⟩⟩
      · exact (hq _ (by rw [show q = _ from hs]; rfl)).2.1 rfl
      · obtain ⟨rfl, hs'⟩ := List.cons.inj hs
        exact (hq _ (by rw [show q = _ from hs']; rfl)).2.2 rfl
      · obtain ⟨rfl, hs'⟩ := List.cons.inj hs
        obtain ⟨rfl, -⟩ := List.cons.inj hs'
        exact h2 s rfl rfl

end SonicGnmi
