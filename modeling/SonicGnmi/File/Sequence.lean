import SonicGnmi.File.Accept
import SonicGnmi.File.Refuse
import SonicGnmi.File.Remove

/-!
# Requests one after another

`HandlePut` and `HandleFileRemove` act on one filesystem, and a client may follow an upload
with a retry of it or with a `Remove` of the file. Whatever fails, an upload changes no
path but its temp path and its destination (`handlePut_keeps_others`); with every call
succeeding, a successful upload sets exactly those two, whatever they held before: the
temp path ends empty and the destination holds the chunks (`handlePut_accept_state`).
From that:

* `put_then_remove` — a `Remove` of the file just uploaded succeeds and leaves the
  filesystem as before the upload, without the file and without its temp path;
* `put_overwrites_earlier` — whatever an earlier upload of the same file did, with any
  failure at any step, a successful upload leaves what it leaves alone;
* `puts_commute_iff` — uploads to two different files leave the same filesystem in either
  order exactly when neither file is the other's temp path; an upload of `f` leaves no
  file at `f.tmp` when `f.tmp` was uploaded before it.
-/

namespace SonicGnmi.File

open SonicGnmi.Path

section Sequence

variable (md5 : Bytes → Bytes)

/-- A call of `HandlePut` names only its temp path and its destination. -/
theorem PutCall.not_mem_paths_of_ne {T D q : List Char} {c : Call} (hc : PutCall T D c)
    (hT : q ≠ T) (hD : q ≠ D) : q ∉ c.paths := by
  rcases hc with _ | ⟨_ | _ | _ | _ | _⟩ | _ | _ <;> simp_all [Call.paths]

/-- `cleanup` leaves a temp path that holds nothing empty. -/
theorem cleanup_temp_none (T : List Char) (s : Fs) (hT : s T = none) :
    ((cleanup T).exec Fs.perform [] s).state T = none := by
  simp [cleanup, Fs.perform, hT]

/-- Whatever fails, a `HandlePut` run leaves every path but its temp path and its
destination as it was. -/
theorem handlePut_keeps_others (inContainer : Bool) {items : List RecvItem} {d : Details}
    (hd : openedWith items = some d) (fs : List Fault) (s : Fs) {q : List Char}
    (hT : q ≠ d.temp inContainer) (hD : q ≠ d.dest inContainer) :
    ((handlePut md5 inContainer items).exec Fs.perform fs s).state q = s q :=
  Prog.exec_inv (fun t : Fs => t q = s q) (fun _ => True) _ (handlePut_allCalls md5 inContainer hd)
    (fun c f t hc (hinv : t q = s q) _ =>
      (Fs.perform_frame c f t (hc.not_mem_paths_of_ne hT hD)).trans hinv)
    fs rfl (fun _ _ => trivial)

/-- With every call succeeding, an accepted upload leaves its temp path empty, the chunks
at its destination with the mode `os.Chmod` sets, and every other path as it was. -/
theorem handlePut_accept_state (inContainer : Bool) {d : Details} {cs : List Bytes}
    {h : HashType} {tail : List RecvItem}
    (hd : openedWith (.ok (.openMsg (some d)) :: (chunks cs ++ .ok (.hashMsg (some h)) :: tail)) =
      some d)
    (hmd : md5 cs.flatten = h.hash) (s : Fs) :
    ((handlePut md5 inContainer (.ok (.openMsg (some d)) ::
        (chunks cs ++ .ok (.hashMsg (some h)) :: tail))).exec Fs.perform [] s).state =
      fun q => if q = d.temp inContainer then none
        else if q = d.dest inContainer then some ⟨cs.flatten, syscallMode d.mode⟩ else s q := by
  funext q
  by_cases hT : q = d.temp inContainer
  · -- the rename moved the temp file away, and `cleanup` finds nothing to remove
    subst hT
    obtain ⟨rest, hrest, hprog⟩ := handlePut_of_openedWith md5 inContainer hd
    obtain rfl := (List.cons.inj hrest).2
    have hs := Fs.truncate_apply_self s (d.temp inContainer)
    obtain ⟨-, hren⟩ := receiveLoop_accept md5 _ _ d.mode h tail cs [] _ _ hs (by simpa using hmd)
    have hcommit := receiveLoop_commit md5 (d.temp_ne_dest inContainer) d.mode h tail cs [] [] _ _
      hs (by simpa using hmd) hren
    rw [hprog]
    simp only [Prog.exec_call, List.headD_nil, List.tail_nil, Fs.perform_openFile_ok,
      Prog.Run.cons_state, Prog.state_exec_bind, Prog.exec_ret, List.drop_nil, if_true]
    exact cleanup_temp_none _ _ hcommit.2
  · rw [if_neg hT]
    by_cases hD : q = d.dest inContainer
    · rw [if_pos hD, hD]
      exact (handlePut_accept md5 inContainer hd hmd s).2
    · rw [if_neg hD]
      exact handlePut_keeps_others md5 inContainer hd [] s hT hD

/-- **Removing an uploaded file removes exactly it.** For every stream `HandlePut`
accepts (a valid `Open`, chunks, and the `Hash` of their digest) and every filesystem,
with every call succeeding: a `Remove` of the same `remote_file` after the upload succeeds,
and the filesystem is then the one before the upload with neither the file nor its temp
path. -/
theorem put_then_remove (inContainer : Bool) {d : Details} {cs : List Bytes} {h : HashType}
    {tail : List RecvItem}
    (hd : openedWith (.ok (.openMsg (some d)) :: (chunks cs ++ .ok (.hashMsg (some h)) :: tail)) =
      some d)
    (hmd : md5 cs.flatten = h.hash) (s : Fs) :
    ((handleFileRemove inContainer (some ⟨d.remoteFile⟩)).exec Fs.perform []
        ((handlePut md5 inContainer (.ok (.openMsg (some d)) ::
          (chunks cs ++ .ok (.hashMsg (some h)) :: tail))).exec Fs.perform [] s).state).result =
      .ok () ∧
    ((handleFileRemove inContainer (some ⟨d.remoteFile⟩)).exec Fs.perform []
        ((handlePut md5 inContainer (.ok (.openMsg (some d)) ::
          (chunks cs ++ .ok (.hashMsg (some h)) :: tail))).exec Fs.perform [] s).state).state =
      fun q => if q = d.temp inContainer ∨ q = d.dest inContainer then none else s q := by
  obtain ⟨h0, hv⟩ := openedWith_open_iff.mp hd
  obtain ⟨hst, hres⟩ := handleFileRemove_spec inContainer ⟨d.remoteFile⟩ h0 hv
    ((handlePut md5 inContainer (.ok (.openMsg (some d)) ::
      (chunks cs ++ .ok (.hashMsg (some h)) :: tail))).exec Fs.perform [] s).state
  have hTD := d.temp_ne_dest inContainer
  -- `Remove` translates the path as `HandlePut` did
  have hp : translatePathForContainer inContainer (⟨d.remoteFile⟩ : RemoveRequest).remoteFile =
      d.dest inContainer := rfl
  simp only [hp] at hst hres
  rw [handlePut_accept_state md5 inContainer hd hmd s] at hst hres ⊢
  refine ⟨?_, ?_⟩
  · rw [hres]
    simp [Ne.symm hTD]
  · rw [hst]
    funext q
    by_cases hT : q = d.temp inContainer
    · simp [hT, hTD]
    · by_cases hD : q = d.dest inContainer <;> simp [hT, hD]

/-- Uploading the byte `a` to `/tmp/f` on an empty filesystem and then removing `/tmp/f`
succeeds and leaves the filesystem empty. -/
theorem put_then_remove_tmp_f :
    openedWith (.ok (.openMsg (some ⟨"/tmp/f".toList, 0o644⟩)) ::
        (chunks [[97]] ++ .ok (.hashMsg (some ⟨.md5, Md5.md5Sum [97]⟩)) :: [])) =
      some ⟨"/tmp/f".toList, 0o644⟩ ∧ Md5.md5Sum [[97]].flatten = Md5.md5Sum [97] ∧
    ((handleFileRemove false (some ⟨"/tmp/f".toList⟩)).exec Fs.perform []
        ((handlePut Md5.md5Sum false (.ok (.openMsg (some ⟨"/tmp/f".toList, 0o644⟩)) ::
          (chunks [[97]] ++ .ok (.hashMsg (some ⟨.md5, Md5.md5Sum [97]⟩)) :: []))).exec
          Fs.perform [] fun _ => none).state).result = .ok () :=
  ⟨openedWith_open (by decide) (by decide), by simp,
    (@put_then_remove Md5.md5Sum false ⟨"/tmp/f".toList, 0o644⟩ [[97]] ⟨.md5, Md5.md5Sum [97]⟩ []
      (openedWith_open (by decide) (by decide)) (by simp) fun _ => none).1⟩

/-- **A successful upload erases every earlier upload of its file.** For every stream
`HandlePut` accepts, and every earlier `HandlePut` run on a stream whose `Open`, if
accepted, names the same destination, with any outcome for each of its calls (a success,
a failure at any step, a stream cut short, a partial temp file left behind): the accepted
upload run afterwards with every call succeeding succeeds, and leaves exactly the
filesystem it leaves when run alone. -/
theorem put_overwrites_earlier (inContainer : Bool) {d : Details} {cs : List Bytes}
    {h : HashType} {tail : List RecvItem}
    (hd : openedWith (.ok (.openMsg (some d)) :: (chunks cs ++ .ok (.hashMsg (some h)) :: tail)) =
      some d)
    (hmd : md5 cs.flatten = h.hash) {items : List RecvItem}
    (hsame : ∀ d', openedWith items = some d' → d'.dest inContainer = d.dest inContainer)
    (fs : List Fault) (s : Fs) :
    ((handlePut md5 inContainer (.ok (.openMsg (some d)) ::
        (chunks cs ++ .ok (.hashMsg (some h)) :: tail))).exec Fs.perform []
      ((handlePut md5 inContainer items).exec Fs.perform fs s).state).result = .ok () ∧
    ((handlePut md5 inContainer (.ok (.openMsg (some d)) ::
        (chunks cs ++ .ok (.hashMsg (some h)) :: tail))).exec Fs.perform []
      ((handlePut md5 inContainer items).exec Fs.perform fs s).state).state =
    ((handlePut md5 inContainer (.ok (.openMsg (some d)) ::
        (chunks cs ++ .ok (.hashMsg (some h)) :: tail))).exec Fs.perform [] s).state := by
  refine ⟨(handlePut_accept md5 inContainer hd hmd _).1, ?_⟩
  rw [handlePut_accept_state md5 inContainer hd hmd, handlePut_accept_state md5 inContainer hd hmd]
  funext q
  dsimp only
  split_ifs with hT hD
  · rfl
  · rfl
  -- the earlier run touched at most the same temp path and destination
  cases hd' : openedWith items with
  | none =>
    obtain ⟨st, hst⟩ := handlePut_of_openedWith_none md5 inContainer hd'
    rw [hst]
    rfl
  | some d' =>
    have hD' := hsame d' hd'
    exact handlePut_keeps_others md5 inContainer hd' fs s
      (by rwa [Details.temp, hD']) (by rwa [hD'])

/-- An upload of `a` to `/tmp/f` whose first write fails, retried with every call
succeeding, leaves what the retry alone leaves. -/
theorem put_overwrites_earlier_after_write_failure :
    openedWith (.ok (.openMsg (some ⟨"/tmp/f".toList, 0o644⟩)) ::
        (chunks [[97]] ++ .ok (.hashMsg (some ⟨.md5, Md5.md5Sum [97]⟩)) :: [])) =
      some ⟨"/tmp/f".toList, 0o644⟩ ∧ Md5.md5Sum [[97]].flatten = Md5.md5Sum [97] ∧
    ((handlePut Md5.md5Sum false (.ok (.openMsg (some ⟨"/tmp/f".toList, 0o644⟩)) ::
        (chunks [[97]] ++ .ok (.hashMsg (some ⟨.md5, Md5.md5Sum [97]⟩)) :: []))).exec Fs.perform []
      ((handlePut Md5.md5Sum false (.ok (.openMsg (some ⟨"/tmp/f".toList, 0o644⟩)) ::
        (chunks [[97]] ++ .ok (.hashMsg (some ⟨.md5, Md5.md5Sum [97]⟩)) :: []))).exec Fs.perform
          [.ok, .fail ⟨.other, "no space left on device"⟩ 0] fun _ => none).state).state =
      ((handlePut Md5.md5Sum false (.ok (.openMsg (some ⟨"/tmp/f".toList, 0o644⟩)) ::
        (chunks [[97]] ++ .ok (.hashMsg (some ⟨.md5, Md5.md5Sum [97]⟩)) :: []))).exec Fs.perform []
          fun _ => none).state :=
  ⟨openedWith_open (by decide) (by decide), by simp,
    (@put_overwrites_earlier Md5.md5Sum false ⟨"/tmp/f".toList, 0o644⟩ [[97]]
      ⟨.md5, Md5.md5Sum [97]⟩ [] (openedWith_open (by decide) (by decide)) (by simp) _
      (fun d' h' => by
        obtain rfl := Option.some.inj (h'.symm.trans (openedWith_open (by decide) (by decide)))
        rfl) _ _).2⟩

/-- **Two uploads to different files commute, unless one is the other's temp file.** For
every two streams `HandlePut` accepts whose destinations differ, and every filesystem, with
every call succeeding: the two uploads leave the same filesystem in either order exactly
when neither destination is the other's temp path `<dest>.tmp`. When one is, the upload of
the other, run second, leaves no file there: it opens that file as its temp file, with
`O_TRUNC`, and renames it onto its own destination. -/
theorem puts_commute_iff (inContainer : Bool) {dA dB : Details} {csA csB : List Bytes}
    {hA hB : HashType} {tailA tailB : List RecvItem}
    (hdA : openedWith (.ok (.openMsg (some dA)) ::
      (chunks csA ++ .ok (.hashMsg (some hA)) :: tailA)) = some dA)
    (hmdA : md5 csA.flatten = hA.hash)
    (hdB : openedWith (.ok (.openMsg (some dB)) ::
      (chunks csB ++ .ok (.hashMsg (some hB)) :: tailB)) = some dB)
    (hmdB : md5 csB.flatten = hB.hash)
    (hne : dA.dest inContainer ≠ dB.dest inContainer) (s : Fs) :
    (((handlePut md5 inContainer (.ok (.openMsg (some dB)) ::
        (chunks csB ++ .ok (.hashMsg (some hB)) :: tailB))).exec Fs.perform []
      ((handlePut md5 inContainer (.ok (.openMsg (some dA)) ::
        (chunks csA ++ .ok (.hashMsg (some hA)) :: tailA))).exec Fs.perform [] s).state).state =
    ((handlePut md5 inContainer (.ok (.openMsg (some dA)) ::
        (chunks csA ++ .ok (.hashMsg (some hA)) :: tailA))).exec Fs.perform []
      ((handlePut md5 inContainer (.ok (.openMsg (some dB)) ::
        (chunks csB ++ .ok (.hashMsg (some hB)) :: tailB))).exec Fs.perform [] s).state).state ↔
      dB.dest inContainer ≠ dA.temp inContainer ∧ dA.dest inContainer ≠ dB.temp inContainer) ∧
    (dB.dest inContainer = dA.temp inContainer →
      ((handlePut md5 inContainer (.ok (.openMsg (some dA)) ::
        (chunks csA ++ .ok (.hashMsg (some hA)) :: tailA))).exec Fs.perform []
      ((handlePut md5 inContainer (.ok (.openMsg (some dB)) ::
        (chunks csB ++ .ok (.hashMsg (some hB)) :: tailB))).exec Fs.perform [] s).state).state
        (dB.dest inContainer) = none) ∧
    (dA.dest inContainer = dB.temp inContainer →
      ((handlePut md5 inContainer (.ok (.openMsg (some dB)) ::
        (chunks csB ++ .ok (.hashMsg (some hB)) :: tailB))).exec Fs.perform []
      ((handlePut md5 inContainer (.ok (.openMsg (some dA)) ::
        (chunks csA ++ .ok (.hashMsg (some hA)) :: tailA))).exec Fs.perform [] s).state).state
        (dA.dest inContainer) = none) := by
  have hTDA := dA.temp_ne_dest inContainer
  have hTDB := dB.temp_ne_dest inContainer
  have hTT : dA.temp inContainer ≠ dB.temp inContainer :=
    fun h => hne (List.append_cancel_right h)
  simp only [handlePut_accept_state md5 inContainer hdA hmdA,
    handlePut_accept_state md5 inContainer hdB hmdB]
  refine ⟨⟨fun heq => ?_, fun hd => ?_⟩, fun h => by simp [h], fun h => by simp [h]⟩
  · refine ⟨fun h => ?_, fun h => ?_⟩
    · -- `B`'s file is `A`'s temp path: it survives only when `B` runs second
      have := congrFun heq (dB.dest inContainer)
      simp [h, hTDB.symm, hTT] at this
    · have := congrFun heq (dA.dest inContainer)
      simp [h, hTDA.symm, Ne.symm hTT] at this
  · obtain ⟨hBA, hAB⟩ := hd
    funext q
    by_cases h1 : q = dA.temp inContainer
    · subst h1; simp [hTT, Ne.symm hBA]
    by_cases h2 : q = dA.dest inContainer
    · subst h2; simp [hAB, hne, h1]
    simp [h1, h2]

/-- Uploading `/tmp/f` after `/tmp/f.tmp` leaves no file at `/tmp/f.tmp`, and the other
order keeps it: the two uploads do not commute. -/
theorem puts_commute_iff_tmp_sibling :
    openedWith (.ok (.openMsg (some ⟨"/tmp/f".toList, 0o644⟩)) ::
        (chunks [[97]] ++ .ok (.hashMsg (some ⟨.md5, Md5.md5Sum [97]⟩)) :: [])) =
      some ⟨"/tmp/f".toList, 0o644⟩ ∧
    openedWith (.ok (.openMsg (some ⟨"/tmp/f.tmp".toList, 0o644⟩)) ::
        (chunks [[98]] ++ .ok (.hashMsg (some ⟨.md5, Md5.md5Sum [98]⟩)) :: [])) =
      some ⟨"/tmp/f.tmp".toList, 0o644⟩ ∧
    ((handlePut Md5.md5Sum false (.ok (.openMsg (some ⟨"/tmp/f.tmp".toList, 0o644⟩)) ::
        (chunks [[98]] ++ .ok (.hashMsg (some ⟨.md5, Md5.md5Sum [98]⟩)) :: []))).exec Fs.perform []
      ((handlePut Md5.md5Sum false (.ok (.openMsg (some ⟨"/tmp/f".toList, 0o644⟩)) ::
        (chunks [[97]] ++ .ok (.hashMsg (some ⟨.md5, Md5.md5Sum [97]⟩)) :: []))).exec Fs.perform []
          fun _ => none).state).state ≠
    ((handlePut Md5.md5Sum false (.ok (.openMsg (some ⟨"/tmp/f".toList, 0o644⟩)) ::
        (chunks [[97]] ++ .ok (.hashMsg (some ⟨.md5, Md5.md5Sum [97]⟩)) :: []))).exec Fs.perform []
      ((handlePut Md5.md5Sum false (.ok (.openMsg (some ⟨"/tmp/f.tmp".toList, 0o644⟩)) ::
        (chunks [[98]] ++ .ok (.hashMsg (some ⟨.md5, Md5.md5Sum [98]⟩)) :: []))).exec Fs.perform []
          fun _ => none).state).state ∧
    ((handlePut Md5.md5Sum false (.ok (.openMsg (some ⟨"/tmp/f".toList, 0o644⟩)) ::
        (chunks [[97]] ++ .ok (.hashMsg (some ⟨.md5, Md5.md5Sum [97]⟩)) :: []))).exec Fs.perform []
      ((handlePut Md5.md5Sum false (.ok (.openMsg (some ⟨"/tmp/f.tmp".toList, 0o644⟩)) ::
        (chunks [[98]] ++ .ok (.hashMsg (some ⟨.md5, Md5.md5Sum [98]⟩)) :: []))).exec Fs.perform []
          fun _ => none).state).state "/tmp/f.tmp".toList = none := by
  have h := @puts_commute_iff Md5.md5Sum false ⟨"/tmp/f".toList, 0o644⟩ ⟨"/tmp/f.tmp".toList, 0o644⟩
    [[97]] [[98]] ⟨.md5, Md5.md5Sum [97]⟩ ⟨.md5, Md5.md5Sum [98]⟩ [] []
    (openedWith_open (by decide) (by decide)) (by simp)
    (openedWith_open (by decide) (by decide)) (by simp) (by decide) fun _ => none
  have hgone := h.2.1 (by decide)
  rw [show Details.dest false ⟨"/tmp/f.tmp".toList, 0o644⟩ = "/tmp/f.tmp".toList by decide]
    at hgone
  exact ⟨openedWith_open (by decide) (by decide), openedWith_open (by decide) (by decide),
    fun heq => (h.1.mp heq).1 (by decide), hgone⟩

end Sequence

end SonicGnmi.File
