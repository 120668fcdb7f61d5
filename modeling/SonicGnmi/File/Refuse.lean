import SonicGnmi.File.Accept

/-!
# The streams `HandlePut` refuses, and with which code

With every call succeeding, the status `HandlePut` returns is read off the stream alone.
`DataLoss` comes exactly from a valid `Open`, chunks, and a `Hash` whose bytes differ from
the MD5 of the chunks. A first message that is not an `Open` with a valid path, a message
after it that is neither `Contents` nor `Hash`, and `io.EOF` before the `Hash` all give
`InvalidArgument`. `io.EOF` as the very first item does not: the first `stream.Recv()`
error is wrapped as `failed to receive first message`, with code `Internal`.

* `receiveLoop_chunks` — over a run of chunks the loop only writes and hashes;
* `receiveLoop_dataLoss_iff` — the loop returns `DataLoss` exactly on a `Corrupted` rest;
* `handlePut_dataLoss_iff` — `HandlePut` returns `DataLoss` exactly on a valid `Open`, chunks
  and a mismatched `Hash`;
* `handlePut_classifies` — the code of every outcome of a stream;
* `handlePut_commit_unacknowledged` — whatever fails, a run that did not succeed renamed the
  file onto the destination exactly when `SendAndClose` failed, and it returns that error's
  own status, which need not be `Unknown`; a run that renamed leaves the verified chunks
  there.
-/

namespace SonicGnmi.File

open SonicGnmi.Path

section Refuse

variable (md5 : Bytes → Bytes)

/-- The rest of a stream that ends the upload with a digest mismatch once `hasher` has
been hashed: chunks `cs`, then a `Hash` message whose bytes differ from the digest of all
the bytes, then anything. -/
def Corrupted (items : List RecvItem) (hasher : Bytes) : Prop :=
  ∃ cs h tail, items = chunks cs ++ .ok (.hashMsg (some h)) :: tail ∧
    md5 (hasher ++ cs.flatten) ≠ h.hash

theorem corrupted_cons_iff {x : RecvItem} {rest : List RecvItem} {hasher : Bytes} :
    Corrupted md5 (x :: rest) hasher ↔
      (∃ c, x = .ok (.contents (some c)) ∧ Corrupted md5 rest (hasher ++ c)) ∨
        ∃ h, x = .ok (.hashMsg (some h)) ∧ md5 hasher ≠ h.hash := by
  constructor
  · rintro ⟨_ | ⟨c, cs⟩, h, tail, he, hmd⟩
    · simp only [chunks_nil, List.nil_append, List.cons.injEq] at he
      exact .inr ⟨h, he.1, by simpa using hmd⟩
    · simp only [chunks_cons, List.cons_append, List.cons.injEq] at he
      exact .inl ⟨c, he.1, cs, h, tail, he.2, by simpa using hmd⟩
  · rintro (⟨c, rfl, cs, h, tail, rfl, hmd⟩ | ⟨h, rfl, hmd⟩)
    · exact ⟨c :: cs, h, tail, rfl, by simpa using hmd⟩
    · exact ⟨[], h, rest, rfl, by simpa using hmd⟩

/-- `finalize` fails with `Internal`, or with the status of the error of `SendAndClose`
when the response cannot be sent. -/
theorem finalize_errorsAs (T D : List Char) (perm : UInt32) :
    (finalize T D perm).ErrorsAs
      (fun c e st => st.code = .internal ∨ c = .sendAndClose ∧ st = e.status) fun _ => False :=
  ⟨fun _ => ⟨_, rfl, .inl rfl⟩, fun _ => ⟨fun _ => ⟨_, rfl, .inl rfl⟩, fun _ =>
    ⟨fun _ => ⟨_, rfl, .inl rfl⟩, fun _ => ⟨fun _ => ⟨_, rfl, .inr ⟨rfl, rfl⟩⟩, fun _ => trivial⟩⟩⟩⟩

/-- With every call succeeding, `SendAndClose` never fails. -/
theorem sendAndClose_ok {α : Type} (p : Prog α) (s : Fs) (e : OsError) :
    ⟨.sendAndClose, .error e⟩ ∉ (p.exec Fs.perform [] s).events := by
  induction p generalizing s with
  | ret a => simp
  | call c k ih =>
    simp only [Prog.exec_call, List.headD_nil, List.tail_nil, Prog.Run.cons_events,
      List.mem_cons, not_or]
    refine ⟨fun h => ?_, ih _ _⟩
    obtain ⟨rfl, h⟩ := Prog.Event.mk.inj h
    simp [Fault.reply] at h

theorem finalize_not_dataLoss (T D : List Char) (perm : UInt32) (s : Fs) {st : Status}
    (h : ((finalize T D perm).exec Fs.perform [] s).result = .error st) : st.code ≠ .dataLoss := by
  rcases Prog.exec_errorsAs Fs.perform (finalize_errorsAs T D perm) [] s h with
    ⟨c, e, he, hc | ⟨rfl, -⟩⟩ | ⟨-, ⟨⟩⟩
  · rw [hc]; decide
  · exact absurd he (sendAndClose_ok _ s e)

/-- With every call succeeding, the loop passes over chunks, writing and hashing them,
and goes on with the rest of the stream. -/
theorem receiveLoop_chunks (T D : List Char) (perm : UInt32) (rest : List RecvItem)
    (cs : List Bytes) :
    ∀ (hasher : Bytes) (s : Fs), ∃ s',
      ((receiveLoop md5 T D perm (chunks cs ++ rest) hasher).exec Fs.perform [] s).result =
        ((receiveLoop md5 T D perm rest (hasher ++ cs.flatten)).exec Fs.perform [] s').result := by
  induction cs with
  | nil => exact fun hasher s => ⟨s, by simp⟩
  | cons c cs ih =>
    intro hasher s
    obtain ⟨s', hs'⟩ := ih (hasher ++ c) (s.append T c)
    refine ⟨s', ?_⟩
    rw [chunks_cons, List.cons_append]
    simp only [receiveLoop, PutRequest.getContents, Prog.exec_call, Fs.perform_write,
      List.headD_nil, List.tail_nil, Fault.reply, Fault.written, Prog.Run.cons_result, hs',
      List.flatten_cons, List.append_assoc]

/-- With every call succeeding, the loop returns `DataLoss` exactly when the rest of the
stream is `Corrupted`. -/
theorem receiveLoop_dataLoss_iff (T D : List Char) (perm : UInt32) (items : List RecvItem) :
    ∀ (hasher : Bytes) (s : Fs),
      (∃ st, ((receiveLoop md5 T D perm items hasher).exec Fs.perform [] s).result = .error st ∧
        st.code = .dataLoss) ↔ Corrupted md5 items hasher := by
  induction items with
  | nil => intro hasher s; simp [receiveLoop, recvFailure, Corrupted]
  | cons x rest ih =>
    intro hasher s
    rw [corrupted_cons_iff]
    rcases x with e | ((_ | d) | (_ | c) | (_ | hm) | _)
    case error => cases e <;> simp [receiveLoop, recvFailure]
    case ok.contents.some =>
      simp only [receiveLoop, PutRequest.getContents, Prog.exec_call, Fs.perform_write,
        List.headD_nil, List.tail_nil, Fault.reply, Fault.written, Prog.Run.cons_result]
      simpa using ih (hasher ++ c) (s.append T c)
    case ok.hashMsg.some =>
      by_cases hmd : md5 hasher = hm.hash
      · simp only [receiveLoop, PutRequest.getContents, PutRequest.getHash, if_pos hmd]
        simpa [hmd] using fun st h => finalize_not_dataLoss T D perm s h
      · simp [receiveLoop, PutRequest.getContents, PutRequest.getHash, hmd]
    all_goals simp [receiveLoop, PutRequest.getContents, PutRequest.getHash]

theorem openedWith_open_iff {d : Details} {rest : List RecvItem} :
    openedWith (.ok (.openMsg (some d)) :: rest) = some d ↔
      d.remoteFile ≠ [] ∧ validatePath d.remoteFile = none := by
  simp [openedWith, PutRequest.getOpen]

/-- With every call succeeding, `HandlePut` on a valid `Open` returns what the loop returns
on the rest of the stream, from the emptied temp file. -/
theorem handlePut_result_opened (inContainer : Bool) {d : Details} {rest : List RecvItem}
    (hd : openedWith (.ok (.openMsg (some d)) :: rest) = some d) (s : Fs) :
    ((handlePut md5 inContainer (.ok (.openMsg (some d)) :: rest)).exec Fs.perform [] s).result =
      ((receiveLoop md5 (d.temp inContainer) (d.dest inContainer) d.mode rest []).exec
        Fs.perform [] (s.truncate (d.temp inContainer))).result := by
  obtain ⟨rest', hrest, hprog⟩ := handlePut_of_openedWith md5 inContainer hd
  obtain rfl := (List.cons.inj hrest).2
  rw [hprog]
  simp only [Prog.exec_call, List.headD_nil, List.tail_nil, Fs.perform_openFile_ok,
    Prog.Run.cons_result, Prog.result_exec_bind, Prog.exec_ret, List.drop_nil]

/-- With every call succeeding, `HandlePut` on a valid `Open` and chunks goes on as the
loop does on the rest of the stream, with the chunks hashed. -/
theorem handlePut_result_after_chunks (inContainer : Bool) {d : Details} (h0 : d.remoteFile ≠ [])
    (hv : validatePath d.remoteFile = none) (cs : List Bytes) (rest : List RecvItem) (s : Fs) :
    ∃ s', ((handlePut md5 inContainer (.ok (.openMsg (some d)) :: (chunks cs ++ rest))).exec
        Fs.perform [] s).result =
      ((receiveLoop md5 (d.temp inContainer) (d.dest inContainer) d.mode rest cs.flatten).exec
        Fs.perform [] s').result := by
  rw [handlePut_result_opened md5 inContainer (openedWith_open h0 hv)]
  simpa using receiveLoop_chunks md5 _ _ _ rest cs [] _

/-- A stream refused before the loop never gets `DataLoss`: the first `Recv` failed, with
`Internal`, or the first message was not a valid `Open`, with `InvalidArgument`. -/
theorem handlePut_not_dataLoss_of_refused (inContainer : Bool) {items : List RecvItem}
    (hd : openedWith items = none) (s : Fs) {st : Status}
    (hst : ((handlePut md5 inContainer items).exec Fs.perform [] s).result = .error st) :
    st.code ≠ .dataLoss := by
  rcases items with _ | ⟨_ | req, rest⟩
  · cases hst; decide
  · cases hst; simp
  · obtain ⟨msg, h⟩ := handlePut_refused_open md5 inContainer hd
    simp only [h, Prog.exec_ret, Except.error.injEq] at hst
    simp [← hst]

/-- With every call succeeding, `HandlePut` returns `DataLoss` exactly on a valid `Open`,
chunks, and a `Hash` whose bytes differ from the MD5 of the chunks. -/
theorem handlePut_dataLoss_iff (inContainer : Bool) (items : List RecvItem) (s : Fs) :
    (∃ st, ((handlePut md5 inContainer items).exec Fs.perform [] s).result = .error st ∧
        st.code = .dataLoss) ↔
      ∃ d cs h tail,
        items = .ok (.openMsg (some d)) :: (chunks cs ++ .ok (.hashMsg (some h)) :: tail) ∧
          d.remoteFile ≠ [] ∧ validatePath d.remoteFile = none ∧ md5 cs.flatten ≠ h.hash := by
  cases hd : openedWith items with
  | none =>
    refine iff_of_false (fun ⟨st, hst, hc⟩ =>
      handlePut_not_dataLoss_of_refused md5 inContainer hd s hst hc) ?_
    rintro ⟨d, cs, h, tail, rfl, h0, hv, -⟩
    simp [openedWith_open h0 hv] at hd
  | some d =>
    obtain ⟨rest, rfl, -⟩ := handlePut_of_openedWith md5 inContainer hd
    rw [handlePut_result_opened md5 inContainer hd, receiveLoop_dataLoss_iff]
    constructor
    · rintro ⟨cs, h, tail, rfl, hmd⟩
      obtain ⟨h0, hv⟩ := openedWith_open_iff.mp hd
      exact ⟨d, cs, h, tail, rfl, h0, hv, by simpa using hmd⟩
    · rintro ⟨d', cs, h, tail, he, -, -, hmd⟩
      simp only [List.cons.injEq, Except.ok.injEq, PutRequest.openMsg.injEq,
        Option.some.injEq] at he
      obtain ⟨rfl, rfl⟩ := he
      exact ⟨cs, h, tail, rfl, by simpa using hmd⟩

/-- **How `HandlePut` answers every stream, with every call succeeding.** It returns
`DataLoss` exactly on a valid `Open`, chunks, and a `Hash` whose bytes differ from the MD5
of the chunks, whatever follows the `Hash`. It returns `InvalidArgument` when the first
message is not an `Open` with a valid path, when a message after the `Open` is neither
`Contents` nor `Hash`, and on `io.EOF` before the `Hash`. On `io.EOF` as the first item it
returns `Internal`. -/
theorem handlePut_classifies (inContainer : Bool) (s : Fs) :
    let res := fun items => ((handlePut md5 inContainer items).exec Fs.perform [] s).result
    (∀ items, (∃ st, res items = .error st ∧ st.code = .dataLoss) ↔
      ∃ d cs h tail,
        items = .ok (.openMsg (some d)) :: (chunks cs ++ .ok (.hashMsg (some h)) :: tail) ∧
          d.remoteFile ≠ [] ∧ validatePath d.remoteFile = none ∧ md5 cs.flatten ≠ h.hash) ∧
    (∀ req rest, openedWith (.ok req :: rest) = none →
      ∃ msg, res (.ok req :: rest) = .error ⟨.invalidArgument, msg⟩) ∧
    (∀ d cs req tail, d.remoteFile ≠ [] → validatePath d.remoteFile = none →
      req.getContents = none → req.getHash = none →
      res (.ok (.openMsg (some d)) :: (chunks cs ++ .ok req :: tail)) =
        .error ⟨.invalidArgument, "message must contain contents or hash"⟩) ∧
    (∀ d cs tail, d.remoteFile ≠ [] → validatePath d.remoteFile = none →
      (tail = [] ∨ ∃ t, tail = .error .eof :: t) →
      res (.ok (.openMsg (some d)) :: (chunks cs ++ tail)) =
        .error ⟨.invalidArgument, "unexpected end of stream before hash"⟩) ∧
    (∀ items, (items = [] ∨ ∃ t, items = .error .eof :: t) →
      res items = .error ⟨.internal, "failed to receive first message: EOF"⟩) := by
  intro res
  refine ⟨fun items => handlePut_dataLoss_iff md5 inContainer items s,
    fun req rest hd => ?refused, fun d cs req tail h0 hv hc hh => ?neither,
    fun d cs tail h0 hv heof => ?eof, ?first⟩
  case refused =>
    obtain ⟨msg, h⟩ := handlePut_refused_open md5 inContainer hd
    exact ⟨msg, by simp [res, h]⟩
  case neither =>
    obtain ⟨s', hs'⟩ := handlePut_result_after_chunks md5 inContainer h0 hv cs (.ok req :: tail) s
    simp [res, hs', receiveLoop, hc, hh]
  case eof =>
    obtain ⟨s', hs'⟩ := handlePut_result_after_chunks md5 inContainer h0 hv cs tail s
    simp only [res, hs']
    rcases heof with rfl | ⟨t, rfl⟩ <;> rfl
  case first =>
    rintro items (rfl | ⟨t, rfl⟩)
    · rfl
    · simp [res, handlePut, RecvError.text]

/-! ## Committed, not acknowledged -/

/-- `finalize` renamed and did not succeed exactly when `SendAndClose` failed, and then
returns the status of its error. -/
theorem finalize_unacknowledged_iff (T D : List Char) (perm : UInt32) (fs : List Fault)
    (s : Fs) :
    (⟨.rename T D, .ok []⟩ ∈ ((finalize T D perm).exec Fs.perform fs s).events ∧
        ((finalize T D perm).exec Fs.perform fs s).result ≠ .ok ()) ↔
      ∃ e, ⟨.sendAndClose, .error e⟩ ∈ ((finalize T D perm).exec Fs.perform fs s).events ∧
        ((finalize T D perm).exec Fs.perform fs s).result = .error e.status := by
  simp only [finalize, Prog.exec_call]
  generalize Fs.perform (.close T) (fs.headD .ok) s = r1
  rcases r1 with ⟨_ | _, s1⟩
  · simp
  simp only [Prog.exec_call]
  generalize Fs.perform (.chmod T perm) (fs.tail.headD .ok) s1 = r2
  rcases r2 with ⟨_ | _, s2⟩
  · simp
  simp only [Prog.exec_call]
  generalize hr3 : Fs.perform (.rename T D) (fs.tail.tail.headD .ok) s2 = r3
  rcases r3 with ⟨_ | b, s3⟩
  · simp
  obtain rfl : b = [] := Fs.perform_rename_reply (by rw [hr3])
  simp only [Prog.exec_call]
  generalize Fs.perform .sendAndClose (fs.tail.tail.tail.headD .ok) s3 = r4
  rcases r4 with ⟨_ | _, s4⟩ <;> simp

/-- The loop renamed and did not succeed exactly when `SendAndClose` failed, and then
returns the status of its error. -/
theorem receiveLoop_unacknowledged_iff (T D : List Char) (perm : UInt32) (items : List RecvItem) :
    ∀ (hasher : Bytes) (fs : List Fault) (s : Fs),
      (⟨.rename T D, .ok []⟩ ∈ ((receiveLoop md5 T D perm items hasher).exec Fs.perform fs s).events ∧
          ((receiveLoop md5 T D perm items hasher).exec Fs.perform fs s).result ≠ .ok ()) ↔
        ∃ e, ⟨.sendAndClose, .error e⟩ ∈
            ((receiveLoop md5 T D perm items hasher).exec Fs.perform fs s).events ∧
          ((receiveLoop md5 T D perm items hasher).exec Fs.perform fs s).result =
            .error e.status := by
  induction items with
  | nil => intro _ _ _; simp [receiveLoop]
  | cons item rest ih =>
    intro hasher fs s
    rcases item with e | ((_ | d) | (_ | c) | (_ | hm) | _)
    case error => simp [receiveLoop]
    case ok.contents.some =>
      simp only [receiveLoop, PutRequest.getContents, Prog.exec_call, Prog.Run.cons_result,
        Prog.Run.cons_events]
      generalize Fs.perform (.write T c) (fs.headD .ok) s = r
      rcases r with ⟨_ | _, s'⟩
      · simp
      · simpa using ih _ fs.tail s'
    case ok.hashMsg.some =>
      by_cases hmd : md5 hasher = hm.hash
      · simp only [receiveLoop, PutRequest.getContents, PutRequest.getHash, if_pos hmd]
        exact finalize_unacknowledged_iff T D perm fs s
      · simp [receiveLoop, PutRequest.getContents, PutRequest.getHash, hmd]
    all_goals simp [receiveLoop, PutRequest.getContents, PutRequest.getHash]

/-- The deferred cleanup renames nothing. -/
theorem cleanup_no_rename (T T' D : List Char) (fs : List Fault) (s : Fs) :
    ⟨.rename T' D, .ok []⟩ ∉ ((cleanup T).exec Fs.perform fs s).events := fun h => by
  simpa using Prog.mem_exec_allCalls Fs.perform (cleanup_allCalls T) fs s _ h

/-- The deferred cleanup sends nothing. -/
theorem cleanup_no_sendAndClose (T : List Char) (r : Reply) (fs : List Fault) (s : Fs) :
    ⟨.sendAndClose, r⟩ ∉ ((cleanup T).exec Fs.perform fs s).events := fun h => by
  simpa using Prog.mem_exec_allCalls Fs.perform (cleanup_allCalls T) fs s _ h

/-- `HandlePut` on an accepted `Open` renamed and did not succeed exactly when
`SendAndClose` failed, and then returns the status of its error. -/
theorem handlePut_unacknowledged_iff (inContainer : Bool) {items : List RecvItem} {d : Details}
    (hd : openedWith items = some d) (fs : List Fault) (s : Fs) :
    (⟨.rename (d.temp inContainer) (d.dest inContainer), .ok []⟩ ∈
          ((handlePut md5 inContainer items).exec Fs.perform fs s).events ∧
        ((handlePut md5 inContainer items).exec Fs.perform fs s).result ≠ .ok ()) ↔
      ∃ e, ⟨.sendAndClose, .error e⟩ ∈ ((handlePut md5 inContainer items).exec Fs.perform fs s).events ∧
        ((handlePut md5 inContainer items).exec Fs.perform fs s).result = .error e.status := by
  obtain ⟨rest, rfl, hprog⟩ := handlePut_of_openedWith md5 inContainer hd
  rw [hprog]
  simp only [Prog.exec_call, Prog.Run.cons_result, Prog.Run.cons_events]
  generalize Fs.perform (.openFile (d.temp inContainer)) (fs.headD .ok) s = r
  rcases r with ⟨_ | _, s'⟩
  · simp
  -- the cleanup neither renames nor sends, and the result is the loop's
  simp only [Prog.result_exec_bind, Prog.events_exec_bind, Prog.exec_ret, List.append_nil,
    List.mem_cons, List.mem_append, cleanup_no_rename, cleanup_no_sendAndClose, or_false,
    Prog.Event.mk.injEq, reduceCtorEq, false_and, false_or, receiveLoop_unacknowledged_iff]

/-- Whatever fails, a `HandlePut` run that renamed had a verified stream, and leaves its
chunks, with the mode `os.Chmod` sets, at the destination. -/
theorem handlePut_commit_of_rename (inContainer : Bool) {d : Details} {rest : List RecvItem}
    (hd : openedWith (.ok (.openMsg (some d)) :: rest) = some d) (fs : List Fault) (s : Fs)
    (hr : ⟨.rename (d.temp inContainer) (d.dest inContainer), .ok []⟩ ∈
      ((handlePut md5 inContainer (.ok (.openMsg (some d)) :: rest)).exec Fs.perform fs s).events) :
    ∃ cs h tail, rest = chunks cs ++ .ok (.hashMsg (some h)) :: tail ∧ md5 cs.flatten = h.hash ∧
      ((handlePut md5 inContainer (.ok (.openMsg (some d)) :: rest)).exec Fs.perform fs s).state
        (d.dest inContainer) = some ⟨cs.flatten, syscallMode d.mode⟩ := by
  obtain ⟨cs, h, tail, rfl, hmd⟩ : Verified md5 rest [] := by
    by_contra hv
    exact Prog.mem_exec_allCalls _ (handlePut_no_rename md5 inContainer hd hv) fs s _ hr rfl
  refine ⟨cs, h, tail, rfl, by simpa using hmd, ?_⟩
  obtain ⟨rest, hrest, hprog⟩ := handlePut_of_openedWith md5 inContainer hd
  obtain rfl := (List.cons.inj hrest).2
  have hTD := d.temp_ne_dest inContainer
  rw [hprog] at hr ⊢
  simp only [Prog.exec_call, Prog.Run.cons_events, Prog.Run.cons_state] at hr ⊢
  cases hf : fs.headD .ok with
  | fail e n => simp only [hf] at hr; simp [Fs.perform] at hr
  | ok =>
    -- the rename is the loop's: the open and the cleanup rename nothing
    simp only [hf, Fs.perform_openFile_ok, Prog.events_exec_bind, Prog.state_exec_bind,
      Prog.exec_ret, List.append_nil, List.mem_cons, List.mem_append, cleanup_no_rename,
      or_false, Prog.Event.mk.injEq, reduceCtorEq, false_and, false_or] at hr ⊢
    rw [cleanup_frame _ _ _ (Ne.symm hTD), (receiveLoop_commit md5 hTD d.mode h tail cs [] fs.tail _ _
      (Fs.truncate_apply_self s _) (by simpa using hmd) hr).1, List.nil_append]

/-- **A failed upload is committed exactly when its response could not be sent.** For every
stream whose `Open` `HandlePut` accepts, every outcome of every call and every filesystem:
`HandlePut` renamed the temp file onto the destination and did not succeed exactly when
`SendAndClose` failed, and it then returns that error as it is, with the error's own
status; and a run that renamed, whatever it returns, had a verified stream and leaves its
chunks at the destination. -/
theorem handlePut_commit_unacknowledged (inContainer : Bool) {d : Details}
    {rest : List RecvItem} (hd : openedWith (.ok (.openMsg (some d)) :: rest) = some d)
    (fs : List Fault) (s : Fs) :
    ((⟨.rename (d.temp inContainer) (d.dest inContainer), .ok []⟩ ∈
          ((handlePut md5 inContainer (.ok (.openMsg (some d)) :: rest)).exec Fs.perform fs
            s).events ∧
        ((handlePut md5 inContainer (.ok (.openMsg (some d)) :: rest)).exec Fs.perform fs
          s).result ≠ .ok ()) ↔
      ∃ e, ⟨.sendAndClose, .error e⟩ ∈
          ((handlePut md5 inContainer (.ok (.openMsg (some d)) :: rest)).exec Fs.perform fs
            s).events ∧
        ((handlePut md5 inContainer (.ok (.openMsg (some d)) :: rest)).exec Fs.perform fs
          s).result = .error e.status) ∧
      (⟨.rename (d.temp inContainer) (d.dest inContainer), .ok []⟩ ∈
          ((handlePut md5 inContainer (.ok (.openMsg (some d)) :: rest)).exec Fs.perform fs
            s).events →
        ∃ cs h tail, rest = chunks cs ++ .ok (.hashMsg (some h)) :: tail ∧
          md5 cs.flatten = h.hash ∧
          ((handlePut md5 inContainer (.ok (.openMsg (some d)) :: rest)).exec Fs.perform fs
            s).state (d.dest inContainer) = some ⟨cs.flatten, syscallMode d.mode⟩) :=
  ⟨handlePut_unacknowledged_iff md5 inContainer hd fs s,
    handlePut_commit_of_rename md5 inContainer hd fs s⟩

end Refuse

/-- An upload of `a` to `/tmp/f` whose response fails with `Unavailable` answers
`Unavailable`, after the rename. -/
theorem handlePut_commit_unacknowledged_unavailable :
    openedWith [.ok (.openMsg (some ⟨"/tmp/f".toList, 0o644⟩)), .ok (.contents (some [97])),
        .ok (.hashMsg (some ⟨.md5, Md5.md5Sum [97]⟩))] = some ⟨"/tmp/f".toList, 0o644⟩ ∧
      ((handlePut Md5.md5Sum false [.ok (.openMsg (some ⟨"/tmp/f".toList, 0o644⟩)),
        .ok (.contents (some [97])), .ok (.hashMsg (some ⟨.md5, Md5.md5Sum [97]⟩))]).exec
          Fs.perform [.ok, .ok, .ok, .ok, .ok,
            .fail (Status.toError ⟨.unavailable, "transport is closing"⟩) 0]
          fun _ => none).result = .error ⟨.unavailable, "transport is closing"⟩ ∧
      ⟨.rename "/tmp/f.tmp".toList "/tmp/f".toList, .ok []⟩ ∈
        ((handlePut Md5.md5Sum false [.ok (.openMsg (some ⟨"/tmp/f".toList, 0o644⟩)),
          .ok (.contents (some [97])), .ok (.hashMsg (some ⟨.md5, Md5.md5Sum [97]⟩))]).exec
            Fs.perform [.ok, .ok, .ok, .ok, .ok,
              .fail (Status.toError ⟨.unavailable, "transport is closing"⟩) 0]
            fun _ => none).events := by
  have hres : ((handlePut Md5.md5Sum false [.ok (.openMsg (some ⟨"/tmp/f".toList, 0o644⟩)),
      .ok (.contents (some [97])), .ok (.hashMsg (some ⟨.md5, Md5.md5Sum [97]⟩))]).exec
        Fs.perform [.ok, .ok, .ok, .ok, .ok,
          .fail (Status.toError ⟨.unavailable, "transport is closing"⟩) 0]
        fun _ => none).result = .error ⟨.unavailable, "transport is closing"⟩ := by
    rw [handlePut_one_chunk]
    rfl
  -- the sixth call, after the open, the write, the close, the chmod and the rename
  have hsend : ⟨.sendAndClose, .error (Status.toError ⟨.unavailable, "transport is closing"⟩)⟩ ∈
      ((handlePut Md5.md5Sum false [.ok (.openMsg (some ⟨"/tmp/f".toList, 0o644⟩)),
        .ok (.contents (some [97])), .ok (.hashMsg (some ⟨.md5, Md5.md5Sum [97]⟩))]).exec
          Fs.perform [.ok, .ok, .ok, .ok, .ok,
            .fail (Status.toError ⟨.unavailable, "transport is closing"⟩) 0]
          fun _ => none).events := by
    rw [handlePut_one_chunk]
    exact .tail _ (.tail _ (.tail _ (.tail _ (.tail _ (.head _)))))
  exact ⟨openedWith_open (by decide) (by decide), hres,
    ((handlePut_commit_unacknowledged Md5.md5Sum false (openedWith_open (by decide) (by decide)) _
      _).1.mpr ⟨_, hsend, hres⟩).1⟩

end SonicGnmi.File
