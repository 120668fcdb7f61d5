import SonicGnmi.File.Fs

/-!
# `HandleFileRemove`

`handleFileRemove inContainer req` is the program of `HandleFileRemove`: it checks the
request and its path, removes the translated path, and classifies a failed remove by
`os.IsNotExist` and `os.IsPermission` or, failing those, by the lower-cased error text.

* `handleFileRemove_allCalls` — the one call it can make removes the translated path of
  a path `validatePath` accepts;
* `handleFileRemove_spec` — with its call going through, it deletes the file, or reports
  `NotFound` when there is none;
* `handleFileRemove_permission_notFound` — the error text it classifies by names the
  path, so a refused remove of a path that contains `no such file` is `NotFound`.
-/

namespace SonicGnmi.File

open SonicGnmi.Path

/-- `HandleFileRemove(ctx, req)`. -/
def handleFileRemove (inContainer : Bool) (req : Option RemoveRequest) :
    Prog (Except Status Unit) :=
  match req with
  | none => .ret (.error ⟨.invalidArgument, "Invalid nil request."⟩)
  | some req =>
    if req.remoteFile = [] then
      .ret (.error ⟨.invalidArgument, "Invalid request: remote_file field is empty."⟩)
    else
      match validatePath req.remoteFile with
      | some _ =>
        .ret (.error ⟨.permissionDenied, "only files in /tmp/ or /var/tmp/ can be removed"⟩)
      | none =>
        let translatedPath := translatePathForContainer inContainer req.remoteFile
        .call (.remove translatedPath) fun
        | .ok _ => .ret (.ok ())
        | .error e =>
          let lower := toLower e.text.toList
          if e.kind = .notExist ∨ contains lower "no such file".toList = true then
            .ret (.error ⟨.notFound, e.text⟩)
          else if e.kind = .permission ∨ contains lower "permission denied".toList = true then
            .ret (.error ⟨.permissionDenied, e.text⟩)
          else .ret (.error ⟨.internal, e.text⟩)

/-- Every call of `HandleFileRemove` removes the translated path of a request path that
`validatePath` accepts. -/
theorem handleFileRemove_allCalls (inContainer : Bool) (req : Option RemoveRequest) :
    (handleFileRemove inContainer req).AllCalls fun c => ∃ r, req = some r ∧
      validatePath r.remoteFile = none ∧
        c = .remove (translatePathForContainer inContainer r.remoteFile) := by
  rcases req with _ | r
  · trivial
  · simp only [handleFileRemove]
    split_ifs
    · trivial
    · rcases hv : validatePath r.remoteFile with _ | err
      · exact ⟨⟨r, rfl, hv, rfl⟩, fun r => by rcases r with _ | _ <;> dsimp only <;> (try split_ifs) <;> trivial⟩
      · trivial

/-- With its call going through, `HandleFileRemove` on an accepted path deletes the file
at the translated path, and reports `NotFound` when there is none. -/
theorem handleFileRemove_spec (inContainer : Bool) (r : RemoveRequest) (hr : r.remoteFile ≠ [])
    (hv : validatePath r.remoteFile = none) (s : Fs) :
    let p := translatePathForContainer inContainer r.remoteFile
    let run := (handleFileRemove inContainer (some r)).exec Fs.perform [] s
    run.state = s.set p none ∧
      run.result = if (s p).isSome then .ok () else .error ⟨.notFound, (notExistError "remove" p).text⟩ := by
  intro p run
  simp only [run, handleFileRemove, if_neg hr, hv, Prog.exec_call, List.headD_nil, List.tail_nil,
    Prog.Run.cons_result, Prog.Run.cons_state]
  cases hp : s p with
  | some f => simp [Fs.perform_remove_ok hp, p, hp]
  | none =>
    have hs : s.set p none = s := funext fun q => by by_cases hq : q = p <;> simp [hq, hp]
    simp [Fs.perform, p, hp, hs, notExistError]

/-- **A refused remove is reported `NotFound` on a path that says "no such file".**
`HandleFileRemove` classifies a failed remove by the lower-cased text of its error, and
the text of an `os.Remove` error includes the path. For every accepted request whose
translated path contains `no such file` in any letter case, a remove the system refuses
with `permission denied` is reported as `NotFound`, not `PermissionDenied`, and the
filesystem is left as it was. -/
theorem handleFileRemove_permission_notFound (inContainer : Bool) (r : RemoveRequest)
    (hr : r.remoteFile ≠ []) (hv : validatePath r.remoteFile = none)
    (hp : "no such file".toList <:+: toLower (translatePathForContainer inContainer r.remoteFile))
    (s : Fs) :
    ((handleFileRemove inContainer (some r)).exec Fs.perform
        [.fail (permissionError "remove" (translatePathForContainer inContainer r.remoteFile)) 0]
        s).result =
      .error ⟨.notFound,
        (permissionError "remove" (translatePathForContainer inContainer r.remoteFile)).text⟩ ∧
    ((handleFileRemove inContainer (some r)).exec Fs.perform
        [.fail (permissionError "remove" (translatePathForContainer inContainer r.remoteFile)) 0]
        s).state = s := by
  set p := translatePathForContainer inContainer r.remoteFile
  -- the lower-cased error text contains the lower-cased path
  have hc : contains (toLower (permissionError "remove" p).text.toList) "no such file".toList =
      true := by
    rw [contains_eq_true]
    show "no such file".toList <:+: "remove ".toList ++ toLower (p ++ ": permission denied".toList)
    rw [toLower_append p (by decide)]
    exact hp.trans (List.infix_append' _ _ _)
  simp only [handleFileRemove, if_neg hr, hv, Prog.exec_call, List.headD_cons, List.tail_cons,
    Fs.perform, Prog.Run.cons_result, Prog.Run.cons_state, hc]
  simp [permissionError]

end SonicGnmi.File
