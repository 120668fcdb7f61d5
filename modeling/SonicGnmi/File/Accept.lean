import SonicGnmi.File.Atomic
import SonicGnmi.Md5

/-!
# The streams `HandlePut` accepts

With every call succeeding (the empty fault list), `HandlePut` returns success exactly on
the streams of `Accepts`: an `Open` message with a valid path, chunks, and a `Hash` of
their digest. The destination then holds the concatenated chunks, with the mode bits
`os.Chmod` sets for the requested permissions. Success on any run, whatever fails,
needs an accepted stream, and nothing after the `Hash` message is read.

* `handlePut_accepts_of_ok` — a successful run had an accepted stream;
* `handlePut_accept` — with every call succeeding, an accepted stream is committed;
* `handlePut_tail_irrel` — the items after the `Hash` message do not change the program;
* `handlePut_language` — together: the language `HandlePut` accepts, and what it commits;
* `handlePut_drops_setuid` — the mode is what `os.Chmod` makes of the permissions, which
  is not always the permissions: `0o4755` gives `0o755`.
-/

namespace SonicGnmi.File

open SonicGnmi.Path

section Accept

variable (md5 : Bytes → Bytes)

/-! ## Success needs an accepted stream -/

/-- A loop run that succeeds read chunks and a `Hash` of their digest. -/
theorem receiveLoop_verified_of_ok {σ : Type} (perform : Call → Fault → σ → Reply × σ)
    (T D : List Char) (perm : UInt32) (items : List RecvItem) :
    ∀ (hasher : Bytes) (fs : List Fault) (s : σ),
      ((receiveLoop md5 T D perm items hasher).exec perform fs s).result = .ok () →
      Verified md5 items hasher := by
  induction items with
  | nil => intro _ _ _ h; simp [receiveLoop] at h
  | cons item rest ih =>
    intro hasher fs s h
    rcases item with e | req
    · simp [receiveLoop] at h
    · rcases req with _ | (_ | c) | (_ | hm) | _
      · simp [receiveLoop, PutRequest.getContents, PutRequest.getHash] at h
      · simp [receiveLoop, PutRequest.getContents, PutRequest.getHash] at h
      · simp only [receiveLoop, PutRequest.getContents, Prog.exec_call, Prog.Run.cons_result] at h
        rcases hr : (perform (.write T c) (fs.headD .ok) s).1 with e | _ <;> simp only [hr] at h
        · simp at h
        · exact verified_cons md5 (ih _ _ _ h)
      · simp [receiveLoop, PutRequest.getContents, PutRequest.getHash] at h
      · by_cases hmd : md5 hasher = hm.hash
        · exact ⟨[], hm, rest, rfl, by simpa using hmd⟩
        · simp [receiveLoop, PutRequest.getContents, PutRequest.getHash, hmd] at h
      · simp [receiveLoop, PutRequest.getContents, PutRequest.getHash] at h

/-- `HandlePut` succeeds, whatever fails, only on a stream it accepts. -/
theorem handlePut_accepts_of_ok {σ : Type} (perform : Call → Fault → σ → Reply × σ)
    (inContainer : Bool) (items : List RecvItem) (fs : List Fault) (s : σ)
    (h : ((handlePut md5 inContainer items).exec perform fs s).result = .ok ()) :
    Accepts md5 items := by
  cases hd : openedWith items with
  | none =>
    obtain ⟨st, hres⟩ := handlePut_of_openedWith_none md5 inContainer hd
    simp [hres] at h
  | some d =>
    obtain ⟨rest, rfl, hprog⟩ := handlePut_of_openedWith md5 inContainer hd
    rw [hprog] at h
    simp only [Prog.exec_call, Prog.Run.cons_result] at h
    rcases hr : (perform (.openFile (d.temp inContainer)) (fs.headD .ok) s).1 with e | _ <;>
      simp only [hr, Prog.result_exec_bind, Prog.exec_ret] at h
    · simp at h
    · exact ⟨d, hd, rest, rfl, receiveLoop_verified_of_ok md5 _ _ _ _ _ _ _ _ h⟩

/-- A `finalize` run that succeeds renamed the temp file onto the destination. -/
theorem finalize_rename_of_ok (T D : List Char) (perm : UInt32) (fs : List Fault) (s : Fs)
    (h : ((finalize T D perm).exec Fs.perform fs s).result = .ok ()) :
    ⟨.rename T D, .ok []⟩ ∈ ((finalize T D perm).exec Fs.perform fs s).events := by
  simp only [finalize, Prog.exec_call] at h ⊢
  generalize Fs.perform (.close T) (fs.headD .ok) s = r1 at h ⊢
  rcases r1 with ⟨_ | _, s1⟩
  · simp at h
  simp only [Prog.exec_call] at h ⊢
  generalize Fs.perform (.chmod T perm) (fs.tail.headD .ok) s1 = r2 at h ⊢
  rcases r2 with ⟨_ | _, s2⟩
  · simp at h
  simp only [Prog.exec_call] at h ⊢
  generalize hr3 : Fs.perform (.rename T D) (fs.tail.tail.headD .ok) s2 = r3 at h ⊢
  rcases r3 with ⟨_ | b, s3⟩
  · simp at h
  obtain rfl : b = [] := Fs.perform_rename_reply (by rw [hr3])
  simp

/-- A loop run that succeeds renamed the temp file onto the destination. -/
theorem receiveLoop_rename_of_ok (T D : List Char) (perm : UInt32) (items : List RecvItem) :
    ∀ (hasher : Bytes) (fs : List Fault) (s : Fs),
      ((receiveLoop md5 T D perm items hasher).exec Fs.perform fs s).result = .ok () →
      ⟨.rename T D, .ok []⟩ ∈ ((receiveLoop md5 T D perm items hasher).exec Fs.perform fs s).events := by
  induction items with
  | nil => intro _ _ _ h; simp [receiveLoop] at h
  | cons item rest ih =>
    intro hasher fs s h
    rcases item with e | req
    · simp [receiveLoop] at h
    · rcases req with _ | (_ | c) | (_ | hm) | _
      · simp [receiveLoop, PutRequest.getContents, PutRequest.getHash] at h
      · simp [receiveLoop, PutRequest.getContents, PutRequest.getHash] at h
      · simp only [receiveLoop, PutRequest.getContents, Prog.exec_call, Prog.Run.cons_result,
          Prog.Run.cons_events] at h ⊢
        generalize Fs.perform (.write T c) (fs.headD .ok) s = r at h ⊢
        rcases r with ⟨_ | _, s'⟩
        · simp at h
        · exact List.mem_cons_of_mem _ (ih _ _ _ h)
      · simp [receiveLoop, PutRequest.getContents, PutRequest.getHash] at h
      · by_cases hmd : md5 hasher = hm.hash
        · simp only [receiveLoop, PutRequest.getContents, PutRequest.getHash, if_pos hmd] at h ⊢
          exact finalize_rename_of_ok T D perm fs s h
        · simp [receiveLoop, PutRequest.getContents, PutRequest.getHash, hmd] at h
      · simp [receiveLoop, PutRequest.getContents, PutRequest.getHash] at h

/-! ## With every call succeeding, an accepted stream is committed -/

/-- With every call succeeding, the loop on a verified stream succeeds and renames. -/
theorem receiveLoop_accept (T D : List Char) (perm : UInt32) (h : HashType)
    (tail : List RecvItem) (cs : List Bytes) :
    ∀ (hasher : Bytes) (s : Fs) (m : Nat), s T = some ⟨hasher, m⟩ →
      md5 (hasher ++ cs.flatten) = h.hash →
      ((receiveLoop md5 T D perm (chunks cs ++ .ok (.hashMsg (some h)) :: tail) hasher).exec
          Fs.perform [] s).result = .ok () ∧
        ⟨.rename T D, .ok []⟩ ∈ ((receiveLoop md5 T D perm
          (chunks cs ++ .ok (.hashMsg (some h)) :: tail) hasher).exec Fs.perform [] s).events := by
  induction cs with
  | nil =>
    intro hasher s m hs hmd
    have hmd' : md5 hasher = h.hash := by simpa using hmd
    have hs' : (s.set T (some ⟨hasher, syscallMode perm⟩)) T = some ⟨hasher, syscallMode perm⟩ := by
      simp
    simp [receiveLoop, PutRequest.getContents, PutRequest.getHash, hmd', finalize,
      Fs.perform_chmod_ok perm hs, Fs.perform_rename_ok hs', Fault.reply]
  | cons c cs ih =>
    intro hasher s m hs hmd
    simp only [chunks_cons, List.cons_append, receiveLoop, PutRequest.getContents,
      Prog.exec_call, Fs.perform_write, List.headD_nil, List.tail_nil, Fault.reply,
      Fault.written, Prog.Run.cons_result, Prog.Run.cons_events, List.mem_cons]
    have := ih (hasher ++ c) _ m (Fs.append_apply_self c hs) (by simpa using hmd)
    exact ⟨this.1, .inr this.2⟩

/-- The deferred cleanup changes no path but the temp file. -/
theorem cleanup_frame (T : List Char) (fs : List Fault) (s : Fs) {q : List Char} (hq : q ≠ T) :
    ((cleanup T).exec Fs.perform fs s).state q = s q :=
  Prog.exec_inv (fun t : Fs => t q = s q) (fun _ => True) _ (cleanup_allCalls T)
    (fun c f t hc (hinv : t q = s q) _ => by
      show (Fs.perform c f t).2 q = s q
      rw [Fs.perform_frame c f t (by
        simp only [List.mem_cons, List.mem_singleton, List.not_mem_nil, or_false] at hc
        rcases hc with rfl | rfl | rfl <;> simp [Call.paths, hq]), hinv])
    fs rfl (fun _ _ => trivial)

/-- With every call succeeding, `HandlePut` commits an accepted stream: it succeeds, and
the destination holds the concatenated chunks with the mode `os.Chmod` sets. -/
theorem handlePut_accept (inContainer : Bool) {d : Details} {cs : List Bytes} {h : HashType}
    {tail : List RecvItem}
    (hd : openedWith (.ok (.openMsg (some d)) :: (chunks cs ++ .ok (.hashMsg (some h)) :: tail)) =
      some d)
    (hmd : md5 cs.flatten = h.hash) (s : Fs) :
    ((handlePut md5 inContainer (.ok (.openMsg (some d)) ::
        (chunks cs ++ .ok (.hashMsg (some h)) :: tail))).exec Fs.perform [] s).result = .ok () ∧
      ((handlePut md5 inContainer (.ok (.openMsg (some d)) ::
        (chunks cs ++ .ok (.hashMsg (some h)) :: tail))).exec Fs.perform [] s).state
          (d.dest inContainer) = some ⟨cs.flatten, syscallMode d.mode⟩ := by
  obtain ⟨rest, hrest, hprog⟩ := handlePut_of_openedWith md5 inContainer hd
  obtain rfl := (List.cons.inj hrest).2
  have hTD := d.temp_ne_dest inContainer
  have hs : (s.truncate (d.temp inContainer)) (d.temp inContainer) =
      some ⟨[], ((s (d.temp inContainer)).map RegFile.mode).getD 0o644⟩ := by
    simp only [Fs.truncate, Fs.set_apply, if_true]
    cases s (d.temp inContainer) <;> rfl
  obtain ⟨hok, hren⟩ := receiveLoop_accept md5 _ _ d.mode h tail cs [] _ _ hs (by simpa using hmd)
  have hcommit := receiveLoop_commit md5 hTD d.mode h tail cs [] [] _ _ hs (by simpa using hmd) hren
  rw [hprog]
  simp only [Prog.exec_call, List.headD_nil, List.tail_nil, Fs.perform_openFile_ok,
    Prog.Run.cons_result, Prog.Run.cons_state, Prog.result_exec_bind, Prog.state_exec_bind,
    Prog.exec_ret, List.drop_nil, hok, true_and]
  rw [cleanup_frame _ _ _ (Ne.symm hTD), hcommit.1, List.nil_append]

/-! ## Nothing after the `Hash` message is read -/

theorem receiveLoop_tail_irrel (T D : List Char) (perm : UInt32) (h : HashType)
    (tail tail' : List RecvItem) (cs : List Bytes) :
    ∀ hasher, receiveLoop md5 T D perm (chunks cs ++ .ok (.hashMsg (some h)) :: tail) hasher =
      receiveLoop md5 T D perm (chunks cs ++ .ok (.hashMsg (some h)) :: tail') hasher := by
  induction cs with
  | nil => intro hasher; simp [receiveLoop, PutRequest.getContents, PutRequest.getHash]
  | cons c cs ih =>
    intro hasher
    simp only [chunks_cons, List.cons_append]
    simp only [receiveLoop, PutRequest.getContents, ih]

/-- `HandlePut` reads nothing after the `Hash` message: the items that follow it do not
change the program. -/
theorem handlePut_tail_irrel (inContainer : Bool) (d : Details) (cs : List Bytes) (h : HashType)
    (tail tail' : List RecvItem) :
    handlePut md5 inContainer (.ok (.openMsg (some d)) :: (chunks cs ++ .ok (.hashMsg (some h)) :: tail)) =
      handlePut md5 inContainer
        (.ok (.openMsg (some d)) :: (chunks cs ++ .ok (.hashMsg (some h)) :: tail')) := by
  simp only [handlePut, PutRequest.getOpen, receiveLoop_tail_irrel md5 _ _ _ h tail tail' cs]

/-! ## The accepted language -/

/-- On a stream of one chunk and its digest, `HandlePut` makes the same calls whatever
the digest function: only the comparison reads it. -/
theorem handlePut_one_chunk (inContainer : Bool) (d : Details) (c : Bytes) :
    handlePut md5 inContainer [.ok (.openMsg (some d)), .ok (.contents (some c)),
        .ok (.hashMsg (some ⟨.md5, md5 c⟩))] =
      handlePut (fun _ => []) inContainer [.ok (.openMsg (some d)), .ok (.contents (some c)),
        .ok (.hashMsg (some ⟨.md5, []⟩))] := by
  simp [handlePut, receiveLoop, PutRequest.getContents, PutRequest.getHash]

/-- A stream splits into chunks and a `Hash` message in at most one way. -/
theorem chunks_append_hash_inj {cs cs' : List Bytes} {h h' : HashType}
    {tail tail' : List RecvItem}
    (he : chunks cs ++ .ok (.hashMsg (some h)) :: tail =
      chunks cs' ++ .ok (.hashMsg (some h')) :: tail') :
    cs = cs' ∧ h = h' ∧ tail = tail' := by
  induction cs generalizing cs' with
  | nil =>
    cases cs' with
    | nil => simpa using he
    | cons c' cs' => simp at he
  | cons c cs ih =>
    cases cs' with
    | nil => simp at he
    | cons c' cs' =>
      simp only [chunks_cons, List.cons_append, List.cons.injEq, Except.ok.injEq,
        PutRequest.contents.injEq, Option.some.injEq] at he
      obtain ⟨rfl, rfl, rfl⟩ := ih he.2
      exact ⟨by rw [he.1], rfl, rfl⟩

/-- Whatever fails, a successful `HandlePut` run on `Open d`, chunks `cs` and a `Hash`
leaves the chunks, with the mode `os.Chmod` sets, at the destination. -/
theorem handlePut_commit_of_ok (inContainer : Bool) {d : Details} {cs : List Bytes}
    {h : HashType} {tail : List RecvItem} (fs : List Fault) (s : Fs)
    (hok : ((handlePut md5 inContainer (.ok (.openMsg (some d)) ::
      (chunks cs ++ .ok (.hashMsg (some h)) :: tail))).exec Fs.perform fs s).result = .ok ()) :
    ((handlePut md5 inContainer (.ok (.openMsg (some d)) ::
      (chunks cs ++ .ok (.hashMsg (some h)) :: tail))).exec Fs.perform fs s).state
        (d.dest inContainer) = some ⟨cs.flatten, syscallMode d.mode⟩ := by
  obtain ⟨d', hd, rest, hrest, cs', h', tail', hrest', hmd⟩ :=
    handlePut_accepts_of_ok md5 _ inContainer _ fs s hok
  obtain ⟨⟨⟩, rfl⟩ := List.cons.inj hrest
  obtain ⟨rfl, rfl, rfl⟩ := chunks_append_hash_inj hrest'
  obtain ⟨rest, hrest, hprog⟩ := handlePut_of_openedWith md5 inContainer hd
  obtain rfl := (List.cons.inj hrest).2
  have hTD := d.temp_ne_dest inContainer
  rw [hprog] at hok ⊢
  simp only [Prog.exec_call, Prog.Run.cons_result, Prog.Run.cons_state] at hok ⊢
  cases hf : fs.headD .ok with
  | fail e n =>
    simp only [hf] at hok
    simp at hok
  | ok =>
    have hs : (s.truncate (d.temp inContainer)) (d.temp inContainer) =
        some ⟨[], ((s (d.temp inContainer)).map RegFile.mode).getD 0o644⟩ := by
      simp only [Fs.truncate, Fs.set_apply, if_true]
      cases s (d.temp inContainer) <;> rfl
    simp only [hf, Fs.perform_openFile_ok, Prog.result_exec_bind, Prog.state_exec_bind,
      Prog.exec_ret] at hok ⊢
    have hren := receiveLoop_rename_of_ok md5 _ _ d.mode _ [] fs.tail _ hok
    rw [cleanup_frame _ _ _ (Ne.symm hTD),
      (receiveLoop_commit md5 hTD d.mode h tail cs [] fs.tail _ _ hs (by simpa using hmd) hren).1,
      List.nil_append]

/-- **The language `HandlePut` accepts.** With every call succeeding, `HandlePut` returns
success exactly on the streams of `Accepts`; on a stream `Open d`, chunks `cs`, `Hash h`,
success leaves the concatenated chunks at the destination with the mode `os.Chmod`
sets for `d`'s permissions (`0644` for none), and the items after the `Hash` are never
read. -/
theorem handlePut_language (inContainer : Bool) (items : List RecvItem) (s : Fs) :
    let r := (handlePut md5 inContainer items).exec Fs.perform [] s
    (r.result = .ok () ↔ Accepts md5 items) ∧
      ∀ d cs h tail,
        items = .ok (.openMsg (some d)) :: (chunks cs ++ .ok (.hashMsg (some h)) :: tail) →
        (r.result = .ok () →
          r.state (d.dest inContainer) = some ⟨cs.flatten, syscallMode d.mode⟩) ∧
        ∀ tail', handlePut md5 inContainer
          (.ok (.openMsg (some d)) :: (chunks cs ++ .ok (.hashMsg (some h)) :: tail')) =
            handlePut md5 inContainer items := by
  intro r
  refine ⟨⟨handlePut_accepts_of_ok md5 _ inContainer items [] s, ?_⟩, ?_⟩
  · rintro ⟨d, hd, rest, rfl, cs, h, tail, rfl, hmd⟩
    exact (handlePut_accept md5 inContainer hd (by simpa using hmd) s).1
  · rintro d cs h tail rfl
    refine ⟨fun hok => ?_, fun tail' => handlePut_tail_irrel md5 inContainer d cs h tail' tail⟩
    obtain ⟨d', hd, rest, hrest, cs', h', tail', hrest', hmd⟩ :=
      handlePut_accepts_of_ok md5 _ inContainer _ [] s hok
    obtain ⟨⟨⟩, rfl⟩ := List.cons.inj hrest
    obtain ⟨rfl, rfl, rfl⟩ := chunks_append_hash_inj hrest'
    exact (handlePut_accept md5 inContainer hd (by simpa using hmd) s).2

end Accept

/-- The permissions `0o4755` ask for setuid in the Unix bits, which `os.FileMode` does not
read: the upload succeeds and the file gets mode `0o755`. -/
theorem handlePut_drops_setuid :
    let r := (handlePut Md5.md5Sum false
      [.ok (.openMsg (some ⟨"/tmp/f".toList, 0o4755⟩)),
        .ok (.hashMsg (some ⟨.md5, Md5.md5Sum []⟩))]).exec Fs.perform [] fun _ => none
    r.result = .ok () ∧ r.state "/tmp/f".toList = some ⟨[], 0o755⟩ := by
  have h := @handlePut_accept Md5.md5Sum false ⟨"/tmp/f".toList, 0o4755⟩ [] ⟨.md5, Md5.md5Sum []⟩ []
    (by decide) (by simp) fun _ => none
  have hD : Details.dest false ⟨"/tmp/f".toList, 0o4755⟩ = "/tmp/f".toList := by decide
  have hm : syscallMode (Details.mode ⟨"/tmp/f".toList, 0o4755⟩) = 0o755 := by decide
  rw [hD, hm] at h
  exact ⟨h.1, by simpa using h.2⟩

end SonicGnmi.File
