import SonicGnmi.File.Atomic
import SonicGnmi.File.Remove
import SonicGnmi.File.Transfer

/-!
# Every path the file service touches is confined

A path a handler operates on for a request path `p` is `Confined` when `validatePath`
accepted `p` and the path is the translated path of `p`, possibly followed by a suffix
(`.tmp` for the temp file of `HandlePut`). Below the container prefix the translated path
is then a clean absolute path with the lexical resolution of `p`, and that resolution
lies strictly below `/tmp` or `/var/tmp`.

* `confined_translate` — the translated path of an accepted path is confined;
* `handlers_confined` — every call of `HandlePut`, `HandleFileRemove` and
  `handleTransferToRemoteLocal` touches only confined paths.
-/

namespace SonicGnmi.File

open SonicGnmi.Path

/-- The prefix `translatePathForContainer` puts before the clean path. -/
def mountPrefix (inContainer : Bool) : List Char :=
  if inContainer then "/mnt/host".toList else []

theorem translatePathForContainer_eq (inContainer : Bool) (p : List Char) :
    translatePathForContainer inContainer p = mountPrefix inContainer ++ clean p := by
  cases inContainer <;> rfl

/-- A path `q` touched for the request path `p` is confined: `validatePath` accepted `p`,
and below the container prefix `q` is a clean absolute path `q0` with the resolution of
`p`, strictly below `/tmp` or `/var/tmp`, followed by one of `suffixes`. -/
def Confined (inContainer : Bool) (suffixes : List (List Char)) (p q : List Char) : Prop :=
  validatePath p = none ∧ ∃ q0, ∃ sfx ∈ suffixes, q = mountPrefix inContainer ++ q0 ++ sfx ∧
    q0.head? = some '/' ∧ clean q0 = q0 ∧ resolve q0 = resolve p ∧ BelowTmp (resolve p)

/-- The translated path of an accepted path, with any of the suffixes, is confined. -/
theorem confined_translate {inContainer : Bool} {suffixes : List (List Char)} {p : List Char}
    (sfx : List Char) (hv : validatePath p = none) (hs : sfx ∈ suffixes) :
    Confined inContainer suffixes p (translatePathForContainer inContainer p ++ sfx) := by
  obtain ⟨hp, hc, hb⟩ := validatePath_confines hv
  refine ⟨hv, clean p, sfx, hs, by rw [translatePathForContainer_eq], ?_, clean_clean hp,
    resolve_clean hp, hb⟩
  rw [hc]
  rfl

theorem confined_translate_self {inContainer : Bool} {suffixes : List (List Char)}
    {p : List Char} (hv : validatePath p = none) (hs : [] ∈ suffixes) :
    Confined inContainer suffixes p (translatePathForContainer inContainer p) := by
  simpa using confined_translate [] hv hs

theorem PutCall.mem_paths {T D q : List Char} {c : Call} (hc : PutCall T D c) (hq : q ∈ c.paths) :
    q = T ∨ q = D := by
  rcases hc with _ | ⟨_ | _ | _ | _ | _⟩ | _ | _ <;> simp_all [Call.paths]

/-- The calls of an upload whose `Open` is accepted name only paths confined for its
`remote_file`. -/
theorem handlePut_confined (md5 : Bytes → Bytes) (inContainer : Bool) {items : List RecvItem}
    {d : Details} (hd : openedWith items = some d) :
    (handlePut md5 inContainer items).AllCalls fun c => ∀ q ∈ c.paths,
      Confined inContainer [[], ".tmp".toList] d.remoteFile q := by
  have hv := validatePath_of_openedWith hd
  refine (handlePut_allCalls md5 inContainer hd).mono fun c hc q hq => ?_
  rcases hc.mem_paths hq with rfl | rfl
  · exact confined_translate _ hv (by simp)
  · exact confined_translate_self hv (by simp)

theorem handleFileRemove_confined (inContainer : Bool) (r : RemoveRequest) :
    (handleFileRemove inContainer (some r)).AllCalls fun c => ∀ q ∈ c.paths,
      Confined inContainer [[]] r.remoteFile q := by
  refine (handleFileRemove_allCalls inContainer (some r)).mono fun c ⟨r', hr, hv, hc⟩ q hq => ?_
  cases hr
  rw [hc, Call.paths, List.mem_singleton] at hq
  exact hq ▸ confined_translate_self hv (List.mem_singleton_self _)

theorem handleTransferToRemoteLocal_confined (md5 : Bytes → Bytes) (inContainer : Bool)
    (body : Bytes) (r : TransferToRemoteRequest) :
    (handleTransferToRemoteLocal md5 inContainer body (some r)).AllCalls fun c => ∀ q ∈ c.paths,
      Confined inContainer [[]] r.localPath q := by
  refine (handleTransferToRemoteLocal_allCalls md5 inContainer body (some r)).mono
    fun c ⟨r', hr, hv, hc⟩ q hq => ?_
  cases hr
  rw [hc, List.mem_singleton] at hq
  exact hq ▸ confined_translate_self hv (List.mem_singleton_self _)

/-- **Every path the file service touches is confined.** Every call that `HandlePut`,
`HandleFileRemove` or `handleTransferToRemoteLocal` can make, whatever the replies,
names only paths confined for the request path it was given: the `remote_file` of the
`Open` message, the `remote_file` of the remove request, or the `local_path` of the
transfer request. -/
theorem handlers_confined (md5 : Bytes → Bytes) (inContainer : Bool) :
    (∀ items, (handlePut md5 inContainer items).AllCalls fun c => ∀ q ∈ c.paths,
      ∃ d, items.head? = some (.ok (.openMsg (some d))) ∧
        Confined inContainer [[], ".tmp".toList] d.remoteFile q) ∧
    (∀ req, (handleFileRemove inContainer req).AllCalls fun c => ∀ q ∈ c.paths,
      ∃ r, req = some r ∧ Confined inContainer [[]] r.remoteFile q) ∧
    (∀ body req, (handleTransferToRemoteLocal md5 inContainer body req).AllCalls fun c =>
      ∀ q ∈ c.paths, ∃ r, req = some r ∧ Confined inContainer [[]] r.localPath q) := by
  refine ⟨fun items => ?_, fun req => ?_, fun body req => ?_⟩
  · cases hd : openedWith items with
    | none =>
      obtain ⟨st, hst⟩ := handlePut_of_openedWith_none md5 inContainer hd
      rw [hst]
      trivial
    | some d =>
      obtain ⟨rest, rfl, -⟩ := handlePut_of_openedWith md5 inContainer hd
      exact (handlePut_confined md5 inContainer hd).mono fun c hc q hq => ⟨d, rfl, hc q hq⟩
  · rcases req with _ | r
    · trivial
    · exact (handleFileRemove_confined inContainer r).mono fun c hc q hq => ⟨r, rfl, hc q hq⟩
  · rcases req with _ | r
    · trivial
    · exact (handleTransferToRemoteLocal_confined md5 inContainer body r).mono
        fun c hc q hq => ⟨r, rfl, hc q hq⟩

end SonicGnmi.File
