import SonicGnmi.File.Fs

/-!
# `HandlePut`, the receiver of the chunked upload

`handlePut md5 inContainer items` is the program `HandlePut` runs when its
`stream.Recv()` calls return `items`, in order, and then `io.EOF`. It checks the
`Open` message, opens `<dest>.tmp` with `O_TRUNC`, writes each `Contents` chunk to it
while hashing it, and on a `Hash` message compares digests; on a match it closes,
chmods and renames the temp file onto the destination and sends the response. The
deferred cleanup closes the temp file again and removes it if it is still there.

`md5` is the digest `crypto/md5` computes: the hasher is modelled by the bytes
written to it, and `hasher.Sum(nil)` by `md5` of them.
-/

namespace SonicGnmi.File

open SonicGnmi.Path

section Put

variable (md5 : Bytes → Bytes)

/-- Steps 7 to 10 of `HandlePut`, after the hash is verified. The last step returns the
error of `stream.SendAndClose` as it is. -/
def finalize (tempPath translatedPath : List Char) (permissions : UInt32) :
    Prog (Except Status Unit) :=
  .call (.close tempPath) fun
  | .error e => .ret (.error ⟨.internal, "failed to close temp file: " ++ e.text⟩)
  | .ok _ => .call (.chmod tempPath permissions) fun
  | .error e => .ret (.error ⟨.internal, "failed to set permissions: " ++ e.text⟩)
  | .ok _ => .call (.rename tempPath translatedPath) fun
  | .error e => .ret (.error ⟨.internal, "failed to rename file: " ++ e.text⟩)
  | .ok _ => .call .sendAndClose fun
  | .error e => .ret (.error e.status)
  | .ok _ => .ret (.ok ())

/-- How the receive loop reports a failed `stream.Recv()`. -/
def recvFailure : RecvError → Status
  | .eof => ⟨.invalidArgument, "unexpected end of stream before hash"⟩
  | .canceled => ⟨.canceled, "stream canceled: context canceled"⟩
  | .deadlineExceeded => ⟨.canceled, "stream canceled: context deadline exceeded"⟩
  | .other t => ⟨.internal, "failed to receive chunk: " ++ t⟩

/-- Steps 5 and 6 of `HandlePut`: the receive loop. `hasher` is what has been written
to the MD5 hasher. -/
def receiveLoop (tempPath translatedPath : List Char) (permissions : UInt32) :
    List RecvItem → Bytes → Prog (Except Status Unit)
  | [], _ => .ret (.error (recvFailure .eof))
  | .error e :: _, _ => .ret (.error (recvFailure e))
  | .ok req :: rest, hasher =>
    match req.getContents with
    | some contents =>
      .call (.write tempPath contents) fun
      | .error e => .ret (.error ⟨.internal, "failed to write chunk: " ++ e.text⟩)
      | .ok _ => receiveLoop tempPath translatedPath permissions rest (hasher ++ contents)
    | none =>
      match req.getHash with
      | some hashMsg =>
        if md5 hasher = hashMsg.hash then finalize tempPath translatedPath permissions
        else .ret (.error ⟨.dataLoss, "hash mismatch: file corrupted during transfer"⟩)
      | none => .ret (.error ⟨.invalidArgument, "message must contain contents or hash"⟩)

/-- The deferred function of `HandlePut`: close the temp file and remove it if it is
still there. Its errors are only logged. -/
def cleanup (tempPath : List Char) : Prog Unit :=
  .call (.close tempPath) fun _ =>
  .call (.stat tempPath) fun
  | .ok _ => .call (.remove tempPath) fun _ => .ret ()
  | .error _ => .ret ()

/-- The permissions `HandlePut` applies: `0644` when the `Open` message gives none. -/
def Details.mode (d : Details) : UInt32 := if d.permissions = 0 then 0o644 else d.permissions

/-- `HandlePut(stream)`, on the items its `stream.Recv()` calls return. -/
def handlePut (inContainer : Bool) : List RecvItem → Prog (Except Status Unit)
  | [] => .ret (.error ⟨.internal, "failed to receive first message: EOF"⟩)
  | .error e :: _ => .ret (.error ⟨.internal, "failed to receive first message: " ++ e.text⟩)
  | .ok firstReq :: rest =>
    match firstReq.getOpen with
    | none => .ret (.error ⟨.invalidArgument, "first message must be Open"⟩)
    | some openMsg =>
      if openMsg.remoteFile = [] then
        .ret (.error ⟨.invalidArgument, "remote_file cannot be empty"⟩)
      else
        match validatePath openMsg.remoteFile with
        | some err => .ret (.error ⟨.invalidArgument, "invalid remote_file: " ++ err⟩)
        | none =>
          let translatedPath := translatePathForContainer inContainer openMsg.remoteFile
          let tempPath := translatedPath ++ ".tmp".toList
          .call (.openFile tempPath) fun
          | .error e => .ret (.error ⟨.internal, "failed to create temp file: " ++ e.text⟩)
          | .ok _ =>
            (receiveLoop md5 tempPath translatedPath openMsg.mode rest []).bind fun r =>
              (cleanup tempPath).bind fun _ => .ret r

/-- The destination of an upload whose `Open` message carries `d`. -/
def Details.dest (inContainer : Bool) (d : Details) : List Char :=
  translatePathForContainer inContainer d.remoteFile

/-- The temp path of that upload. -/
def Details.temp (inContainer : Bool) (d : Details) : List Char :=
  d.dest inContainer ++ ".tmp".toList

/-- The `Open` message a stream starts with, when `HandlePut` accepts its path. -/
def openedWith (items : List RecvItem) : Option Details :=
  match items with
  | .ok req :: _ =>
    match req.getOpen with
    | some d => if d.remoteFile ≠ [] ∧ validatePath d.remoteFile = none then some d else none
    | none => none
  | _ => none

theorem openedWith_open {d : Details} {rest : List RecvItem} (h0 : d.remoteFile ≠ [])
    (hv : validatePath d.remoteFile = none) :
    openedWith (.ok (.openMsg (some d)) :: rest) = some d := by
  simp [openedWith, PutRequest.getOpen, h0, hv]

theorem validatePath_of_openedWith {items : List RecvItem} {d : Details}
    (hd : openedWith items = some d) : validatePath d.remoteFile = none := by
  rcases items with _ | ⟨_ | req, rest⟩ <;> simp only [openedWith, reduceCtorEq] at hd
  split at hd
  · split_ifs at hd with hv
    cases hd
    exact hv.2
  · cases hd

/-- The `Contents` messages carrying `cs`. -/
def chunks (cs : List Bytes) : List RecvItem := cs.map fun c => .ok (.contents (some c))

@[simp] theorem chunks_nil : chunks [] = [] := rfl

@[simp] theorem chunks_cons (c : Bytes) (cs : List Bytes) :
    chunks (c :: cs) = .ok (.contents (some c)) :: chunks cs := rfl

/-- The rest of a stream that completes an upload once `hasher` has been hashed: chunks
`cs`, then a `Hash` message carrying the digest of all the bytes, then anything. -/
def Verified (items : List RecvItem) (hasher : Bytes) : Prop :=
  ∃ cs h tail, items = chunks cs ++ .ok (.hashMsg (some h)) :: tail ∧
    md5 (hasher ++ cs.flatten) = h.hash

/-- The streams `HandlePut` accepts: an `Open` message with a valid path, chunks `cs`,
and a `Hash` message carrying their digest. What follows is never read. -/
def Accepts (items : List RecvItem) : Prop :=
  ∃ d, openedWith items = some d ∧ ∃ rest, items = .ok (.openMsg (some d)) :: rest ∧
    Verified md5 rest []

/-! ## The calls of a run -/

/-- The calls of the receive loop, with temp path `T` and destination `D`. -/
inductive LoopCall (T D : List Char) : Call → Prop
  | write (data : Bytes) : LoopCall T D (.write T data)
  | close : LoopCall T D (.close T)
  | chmod (mode : UInt32) : LoopCall T D (.chmod T mode)
  | rename : LoopCall T D (.rename T D)
  | sendAndClose : LoopCall T D .sendAndClose

/-- The calls of `HandlePut`, with temp path `T` and destination `D`. -/
inductive PutCall (T D : List Char) : Call → Prop
  | openFile : PutCall T D (.openFile T)
  | loop {c : Call} : LoopCall T D c → PutCall T D c
  | stat : PutCall T D (.stat T)
  | remove : PutCall T D (.remove T)

theorem finalize_allCalls (T D : List Char) (perm : UInt32) :
    (finalize T D perm).AllCalls (LoopCall T D) := by
  refine ⟨.close, fun r => ?_⟩
  rcases r with _ | _
  · trivial
  refine ⟨.chmod _, fun r => ?_⟩
  rcases r with _ | _
  · trivial
  refine ⟨.rename, fun r => ?_⟩
  rcases r with _ | _
  · trivial
  exact ⟨.sendAndClose, fun r => by rcases r with _ | _ <;> trivial⟩

theorem receiveLoop_allCalls (T D : List Char) (perm : UInt32) (items : List RecvItem)
    (hasher : Bytes) : (receiveLoop md5 T D perm items hasher).AllCalls (LoopCall T D) := by
  induction items generalizing hasher with
  | nil => trivial
  | cons item rest ih =>
    rcases item with e | req
    · trivial
    · simp only [receiveLoop]
      split
      · exact ⟨.write _, by rintro (_ | _); trivial; exact ih _⟩
      · split
        · split
          · exact finalize_allCalls T D perm
          · trivial
        · trivial

theorem cleanup_allCalls (T : List Char) :
    (cleanup T).AllCalls (· ∈ [.close T, .stat T, .remove T]) :=
  ⟨by simp, fun _ => ⟨by simp, fun r => by
    rcases r with _ | _
    · trivial
    · exact ⟨by simp, fun _ => trivial⟩⟩⟩

/-- `HandlePut` on a stream whose `Open` it accepts. -/
theorem handlePut_of_openedWith (inContainer : Bool) {items : List RecvItem} {d : Details}
    (hd : openedWith items = some d) :
    ∃ rest, items = .ok (.openMsg (some d)) :: rest ∧
      handlePut md5 inContainer items =
        .call (.openFile (d.temp inContainer)) fun
        | .error e => .ret (.error ⟨.internal, "failed to create temp file: " ++ e.text⟩)
        | .ok _ =>
          (receiveLoop md5 (d.temp inContainer) (d.dest inContainer) d.mode rest []).bind
            fun r => (cleanup (d.temp inContainer)).bind fun _ => .ret r := by
  rcases items with _ | ⟨_ | req, rest⟩
  · simp [openedWith] at hd
  · simp [openedWith] at hd
  · simp only [openedWith] at hd
    split at hd
    · rename_i d' hd'
      split_ifs at hd with hv
      cases hd
      refine ⟨rest, by cases req <;> simp_all [PutRequest.getOpen], ?_⟩
      simp [handlePut, hd', hv.1, hv.2, Details.temp, Details.dest]
    · simp at hd

/-- A first message other than an `Open` with a valid path is refused at once with
`InvalidArgument`. -/
theorem handlePut_refused_open (inContainer : Bool) {req : PutRequest} {rest : List RecvItem}
    (hd : openedWith (.ok req :: rest) = none) :
    ∃ msg, handlePut md5 inContainer (.ok req :: rest) = .ret (.error ⟨.invalidArgument, msg⟩) := by
  simp only [openedWith] at hd
  simp only [handlePut]
  split at hd
  · rename_i d hd'
    simp only [hd']
    by_cases h0 : d.remoteFile = []
    · simp [h0]
    · rcases hv : validatePath d.remoteFile with _ | err
      · simp [h0, hv] at hd
      · simp [h0, hv]
  · rename_i hd'
    simp [hd']

/-- `HandlePut` makes no call on a stream whose `Open` it refuses. -/
theorem handlePut_of_openedWith_none (inContainer : Bool) {items : List RecvItem}
    (hd : openedWith items = none) : ∃ st, handlePut md5 inContainer items = .ret (.error st) := by
  rcases items with _ | ⟨_ | req, rest⟩
  · exact ⟨_, rfl⟩
  · exact ⟨_, rfl⟩
  · obtain ⟨msg, h⟩ := handlePut_refused_open md5 inContainer hd
    exact ⟨_, h⟩

/-! ## The receive loop -/

theorem verified_cons {c : Bytes} {rest : List RecvItem} {hasher : Bytes}
    (h : Verified md5 rest (hasher ++ c)) :
    Verified md5 (.ok (.contents (some c)) :: rest) hasher := by
  obtain ⟨cs, hm, tail, rfl, hmd⟩ := h
  exact ⟨c :: cs, hm, tail, rfl, by simpa using hmd⟩

/-- The loop calls `rename` only when the rest of the stream completes a verified
upload. -/
theorem receiveLoop_no_rename (T D : List Char) (perm : UInt32) (items : List RecvItem)
    (hasher : Bytes) (hv : ¬Verified md5 items hasher) :
    (receiveLoop md5 T D perm items hasher).AllCalls (· ≠ .rename T D) := by
  induction items generalizing hasher with
  | nil => trivial
  | cons item rest ih =>
    rcases item with e | req
    · trivial
    · rcases req with _ | (_ | c) | (_ | hm) | _
      · trivial
      · trivial
      · exact ⟨by simp, fun r => by
          rcases r with _ | _
          · trivial
          · exact ih _ (fun h => hv (verified_cons md5 h))⟩
      · trivial
      · have hne : md5 hasher ≠ hm.hash := fun h => hv ⟨[], hm, rest, rfl, by simpa using h⟩
        simp only [receiveLoop, PutRequest.getContents, PutRequest.getHash, if_neg hne]
        trivial
      · trivial

/-- A `finalize` run whose rename succeeds moves the temp file, with its new mode, onto
the destination. -/
theorem finalize_commit {T D : List Char} (hTD : T ≠ D) (perm : UInt32) (fs : List Fault)
    {s : Fs} {w : Bytes} {m : Nat} (hs : s T = some ⟨w, m⟩)
    (hr : ⟨.rename T D, .ok []⟩ ∈ ((finalize T D perm).exec Fs.perform fs s).events) :
    ((finalize T D perm).exec Fs.perform fs s).state D = some ⟨w, syscallMode perm⟩ ∧
      ((finalize T D perm).exec Fs.perform fs s).state T = none := by
  simp only [finalize, Prog.exec_call, Fs.perform_close] at hr ⊢
  generalize fs.headD .ok = f1 at hr ⊢
  generalize fs.tail = fs at hr ⊢
  cases f1 with
  | fail e n => simp [Fault.reply, Prog.Run.cons] at hr
  | ok =>
    simp only [Fault.reply, Prog.exec_call] at hr ⊢
    generalize fs.headD .ok = f2 at hr ⊢
    generalize fs.tail = fs at hr ⊢
    cases f2 with
    | fail e n => simp [Fs.perform, Prog.Run.cons] at hr
    | ok =>
      simp only [Fs.perform_chmod_ok perm hs, Prog.exec_call] at hr ⊢
      generalize fs.headD .ok = f3 at hr ⊢
      generalize fs.tail = fs at hr ⊢
      cases f3 with
      | fail e n => simp [Fs.perform, Prog.Run.cons] at hr
      | ok =>
        have hs' : (s.set T (some ⟨w, syscallMode perm⟩)) T = some ⟨w, syscallMode perm⟩ := by
          simp
        simp only [Fs.perform_rename_ok hs', Prog.exec_call, Fs.perform_sendAndClose]
        generalize fs.headD .ok = f4
        cases f4 <;> simp [Fault.reply, Prog.Run.cons, hTD, Ne.symm hTD]

/-- A loop run on a verified stream whose rename succeeds leaves everything hashed, with
the new mode, at the destination. -/
theorem receiveLoop_commit {T D : List Char} (hTD : T ≠ D) (perm : UInt32) (h : HashType)
    (tail : List RecvItem) (cs : List Bytes) :
    ∀ (hasher : Bytes) (fs : List Fault) (s : Fs) (m : Nat), s T = some ⟨hasher, m⟩ →
      md5 (hasher ++ cs.flatten) = h.hash →
      ⟨.rename T D, .ok []⟩ ∈ ((receiveLoop md5 T D perm
          (chunks cs ++ .ok (.hashMsg (some h)) :: tail) hasher).exec Fs.perform fs s).events →
      ((receiveLoop md5 T D perm (chunks cs ++ .ok (.hashMsg (some h)) :: tail) hasher).exec
          Fs.perform fs s).state D = some ⟨hasher ++ cs.flatten, syscallMode perm⟩ ∧
        ((receiveLoop md5 T D perm (chunks cs ++ .ok (.hashMsg (some h)) :: tail) hasher).exec
          Fs.perform fs s).state T = none := by
  induction cs with
  | nil =>
    intro hasher fs s m hs hmd hr
    have hmd' : md5 hasher = h.hash := by simpa using hmd
    simp only [chunks_nil, List.nil_append, receiveLoop, PutRequest.getContents,
      PutRequest.getHash, if_pos hmd'] at hr ⊢
    simpa using finalize_commit hTD perm fs hs hr
  | cons c cs ih =>
    intro hasher fs s m hs hmd hr
    simp only [chunks_cons, List.cons_append, receiveLoop, PutRequest.getContents,
      Prog.exec_call, Fs.perform_write] at hr ⊢
    generalize fs.headD .ok = f at hr ⊢
    cases f with
    | fail e n => simp [Fault.reply, Prog.Run.cons] at hr
    | ok =>
      simp only [Fault.reply, Fault.written, Prog.Run.cons, List.mem_cons, Prog.Event.mk.injEq,
        reduceCtorEq, false_and, false_or] at hr ⊢
      simpa using ih (hasher ++ c) fs.tail _ m (Fs.append_apply_self c hs)
        (by simpa using hmd) hr

end Put

end SonicGnmi.File
