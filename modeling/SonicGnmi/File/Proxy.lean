import SonicGnmi.File.Fs
import SonicGnmi.Md5

/-!
# `HandleTransferToRemoteForDPUStreaming`, the streaming proxy

The proxy opens the HTTP source, the DPU connection and a Put stream, sends `Open`,
then reads the source in chunks of at most 64 KiB, sending each non-empty chunk as
`Contents` while a tee reader feeds it to the MD5 hasher, and after `io.EOF` sends the
digest as `Hash` and waits for the DPU's response.

The source is modelled, like the stream `HandlePut` reads, by what its `Read` calls
return, in order, followed by `io.EOF` once the list runs out. Every other outcome is a
reply to a call: the deadline check at the top of the loop, each `Send`, and
`CloseAndRecv`.

* `proxy_reports_internal` — the code of an error names the call that saw the failure,
  not its cause: `DeadlineExceeded` only from the check at the top of the loop,
  `Internal` for every other failed call and for a failed read, never `Unavailable` or
  `Canceled`;
* `proxy_follows_upload` — whatever the reads and the replies, the messages sent are a
  prefix of `Open · Contents(b₁) ⋯ Contents(bₖ) · Hash(MD5(b₁ ++ ⋯ ++ bₖ))` where the
  `bᵢ` are the non-empty reads up to the first error; the `Hash` is sent only after
  `io.EOF` and after every earlier send succeeded, and success returns its digest once all
  of the word was sent and acknowledged.
-/

namespace SonicGnmi.File

/-- The size of the proxy's read buffer, `64 * 1024`. -/
def chunkSize : Nat := 64 * 1024

/-- What one `teeReader.Read(buffer)` returns: at most a buffer's worth of bytes, and the
error, if any. -/
structure ReadResult where
  data : Bytes
  err : Option RecvError
  bound : data.length ≤ chunkSize

/-- The `Contents` message of a chunk. -/
def contentsMsg (b : Bytes) : PutRequest := .contents (some b)

/-- The `Hash` message of a digest. -/
def hashMsgOf (d : Bytes) : PutRequest := .hashMsg (some ⟨.md5, d⟩)

section Proxy

variable (md5 : Bytes → Bytes)

/-- Steps 6 and 7: send the digest, close the send side and wait for the response. -/
def sendHash (hashBytes : Bytes) : Prog (Except Status HashType) :=
  .call (.send (hashMsgOf hashBytes)) fun
  | .error e => .ret (.error ⟨.internal, "failed to send hash: " ++ e.text⟩)
  | .ok _ => .call .closeAndRecv fun
  | .error e => .ret (.error ⟨.internal, "failed to complete Put to DPU: " ++ e.text⟩)
  | .ok _ => .ret (.ok ⟨.md5, hashBytes⟩)

/-- Send the bytes of a read when there are any (`if n > 0`), then go on with `k`. -/
def sendChunk (data : Bytes) (k : Prog (Except Status HashType)) : Prog (Except Status HashType) :=
  if 0 < data.length then
    .call (.send (contentsMsg data)) fun
    | .error e => .ret (.error ⟨.internal, "failed to send content chunk: " ++ e.text⟩)
    | .ok _ => k
  else k

/-- Step 5, the loop: check the deadline, read, send what was read, and stop on
`io.EOF` or an error. `hasher` is what the tee reader has fed the hasher. -/
def streamLoop (reads : List ReadResult) (hasher : Bytes) : Prog (Except Status HashType) :=
  .call .deadline fun
  | .error _ => .ret (.error ⟨.deadlineExceeded, "streaming operation timed out"⟩)
  | .ok _ =>
    match reads with
    | [] => sendHash (md5 hasher)
    | r :: rest =>
      sendChunk r.data
        (match r.err with
        | some .eof => sendHash (md5 (hasher ++ r.data))
        | some e => .ret (.error ⟨.internal, "failed to read from HTTP stream: " ++ e.text⟩)
        | none => streamLoop rest (hasher ++ r.data))

/-- `HandleTransferToRemoteForDPUStreaming(ctx, req, dpuIndex)`, when the source's reads
return `reads`. -/
def handleTransferToRemoteForDPUStreaming (reads : List ReadResult)
    (req : Option TransferToRemoteRequest) (dpuIndex : List Char) :
    Prog (Except Status HashType) :=
  match req with
  | none => .ret (.error ⟨.invalidArgument, "request cannot be nil"⟩)
  | some req =>
    if dpuIndex = [] then .ret (.error ⟨.invalidArgument, "dpuIndex cannot be empty"⟩) else
    match req.remoteDownload with
    | none => .ret (.error ⟨.invalidArgument, "remote_download cannot be nil"⟩)
    | some remoteDownload =>
      if req.localPath = [] then .ret (.error ⟨.invalidArgument, "local_path cannot be empty"⟩)
      else if remoteDownload.protocol ≠ .http then
        .ret (.error ⟨.unimplemented,
          "only HTTP protocol is supported, got protocol " ++ remoteDownload.protocol.name⟩)
      else if remoteDownload.path = [] then
        .ret (.error ⟨.invalidArgument, "remote download path (URL) cannot be empty"⟩)
      else
        .call (.openSource remoteDownload.path) fun
        | .error e => .ret (.error ⟨.internal, "failed to create HTTP stream: " ++ e.text⟩)
        | .ok _ => .call (.getConn dpuIndex) fun
        | .error e => .ret (.error ⟨.internal, "failed to get DPU connection: " ++ e.text⟩)
        | .ok _ => .call .openPut fun
        | .error e => .ret (.error ⟨.internal, "failed to create Put client: " ++ e.text⟩)
        | .ok _ => .call (.send (.openMsg (some ⟨req.localPath, 0o644⟩))) fun
        | .error e => .ret (.error ⟨.internal, "failed to send open request: " ++ e.text⟩)
        | .ok _ => streamLoop md5 reads []

/-- On a request that passes validation, the proxy makes the calls of steps 1 to 4, each
failing with `Internal`, and runs the loop. -/
theorem handleTransferToRemoteForDPUStreaming_of_valid (reads : List ReadResult)
    {r : TransferToRemoteRequest} {rd : RemoteDownload} {dpuIndex : List Char}
    (hrd : r.remoteDownload = some rd) (hp : rd.protocol = .http) (hu : rd.path ≠ [])
    (hl : r.localPath ≠ []) (hi : dpuIndex ≠ []) :
    handleTransferToRemoteForDPUStreaming md5 reads (some r) dpuIndex =
      .call (.openSource rd.path) fun
      | .error e => .ret (.error ⟨.internal, "failed to create HTTP stream: " ++ e.text⟩)
      | .ok _ => .call (.getConn dpuIndex) fun
      | .error e => .ret (.error ⟨.internal, "failed to get DPU connection: " ++ e.text⟩)
      | .ok _ => .call .openPut fun
      | .error e => .ret (.error ⟨.internal, "failed to create Put client: " ++ e.text⟩)
      | .ok _ => .call (.send (.openMsg (some ⟨r.localPath, 0o644⟩))) fun
      | .error e => .ret (.error ⟨.internal, "failed to send open request: " ++ e.text⟩)
      | .ok _ => streamLoop md5 reads [] := by
  simp only [handleTransferToRemoteForDPUStreaming, hrd, if_neg hi, if_neg hl, hp, hu,
    ne_eq, not_true_eq_false, if_false]

/-- The proxy either refuses the request before its first call, with `InvalidArgument` or
`Unimplemented`, or the request passes validation. -/
theorem handleTransferToRemoteForDPUStreaming_refused_or_valid (reads : List ReadResult)
    (req : Option TransferToRemoteRequest) (dpuIndex : List Char) :
    (∃ st, handleTransferToRemoteForDPUStreaming md5 reads req dpuIndex = .ret (.error st) ∧
        (st.code = .invalidArgument ∨ st.code = .unimplemented)) ∨
      ∃ r rd, req = some r ∧ r.remoteDownload = some rd ∧ rd.protocol = .http ∧ rd.path ≠ [] ∧
        r.localPath ≠ [] ∧ dpuIndex ≠ [] := by
  rcases req with _ | r
  · exact .inl ⟨_, rfl, .inl rfl⟩
  rcases hrd : r.remoteDownload with _ | rd
  · simp only [handleTransferToRemoteForDPUStreaming, hrd]
    split_ifs <;> exact .inl ⟨_, rfl, .inl rfl⟩
  simp only [handleTransferToRemoteForDPUStreaming, hrd]
  split_ifs with hi hl hp hu <;>
    first | exact .inl ⟨_, rfl, .inl rfl⟩ | exact .inl ⟨_, rfl, .inr rfl⟩ | skip
  exact .inr ⟨r, rd, rfl, hrd, not_not.mp hp, hu, hl, hi⟩

/-! ## What the proxy sends -/

/-- The message of a `Send` call. -/
def Call.sentMsg : Call → Option PutRequest
  | .send m => some m
  | _ => none

/-- The messages a run sent, in order. -/
def sent (evs : List Prog.Event) : List PutRequest := evs.filterMap (·.call.sentMsg)

@[simp] theorem sent_nil : sent [] = [] := rfl

@[simp] theorem sent_cons (e : Prog.Event) (evs : List Prog.Event) :
    sent (e :: evs) = e.call.sentMsg.toList ++ sent evs := by
  cases h : e.call.sentMsg <;> simp [sent, List.filterMap_cons, h]

/-- The bytes the reads return up to the first error, and that error: `io.EOF` once the
list runs out. -/
def readsUntilErr : List ReadResult → List Bytes × RecvError
  | [] => ([], .eof)
  | r :: rest =>
    match r.err with
    | some e => ([r.data], e)
    | none => (r.data :: (readsUntilErr rest).1, (readsUntilErr rest).2)

/-- The `Contents` message of a read, if it returned any bytes. -/
def chunkMsgs (data : Bytes) : List PutRequest := if 0 < data.length then [contentsMsg data] else []

/-- What the loop is to send from `hasher` on: a `Contents` message for each non-empty
read up to the first error, and, when that error is `io.EOF`, a `Hash` of everything
hashed. -/
def loopWord (reads : List ReadResult) (hasher : Bytes) : List PutRequest :=
  ((readsUntilErr reads).1.map chunkMsgs).flatten ++
    if (readsUntilErr reads).2 = .eof then
      [hashMsgOf (md5 (hasher ++ (readsUntilErr reads).1.flatten))]
    else []

/-- Every run of `p` sends a prefix of `W`; a run that succeeds sent all of `W`, which
ends with the `Hash` of `d`, had `CloseAndRecv` acknowledged, and returns the digest
`d`. -/
def SendsPrefix (p : Prog (Except Status HashType)) (W : List PutRequest) (d : Bytes) : Prop :=
  ∀ (σ : Type) (perform : Call → Fault → σ → Reply × σ) (fs : List Fault) (s : σ),
    sent (p.exec perform fs s).events <+: W ∧
      ∀ h, (p.exec perform fs s).result = .ok h →
        h = ⟨.md5, d⟩ ∧ sent (p.exec perform fs s).events = W ∧
          W.getLast? = some (hashMsgOf d) ∧
          ∃ b, ⟨.closeAndRecv, .ok b⟩ ∈ (p.exec perform fs s).events

theorem sendsPrefix_error (st : Status) (W : List PutRequest) (d : Bytes) :
    SendsPrefix (.ret (.error st)) W d :=
  fun _ _ _ _ => ⟨by simp, by simp⟩

/-- A call that sends nothing and fails on failure keeps what its continuations send. -/
theorem sendsPrefix_call {c : Call} {k : Reply → Prog (Except Status HashType)}
    {W : List PutRequest} {d : Bytes} (hc : c.sentMsg = none)
    (herr : ∀ e, ∃ st, k (.error e) = .ret (.error st)) (hok : ∀ b, SendsPrefix (k (.ok b)) W d) :
    SendsPrefix (.call c k) W d := by
  intro σ perform fs s
  simp only [Prog.exec_call, Prog.Run.cons_events, Prog.Run.cons_result, sent_cons, hc,
    Option.toList_none, List.nil_append]
  generalize perform c (fs.headD .ok) s = r
  rcases r with ⟨e | b, s'⟩
  · obtain ⟨st, hst⟩ := herr e
    simp [hst]
  · obtain ⟨hpre, hres⟩ := hok b σ perform fs.tail s'
    refine ⟨hpre, fun h hh => ?_⟩
    obtain ⟨h1, h2, h3, b', h4⟩ := hres h hh
    exact ⟨h1, h2, h3, b', List.mem_cons_of_mem _ h4⟩

/-- A send that fails on failure puts its message in front of what its continuation
sends. -/
theorem sendsPrefix_send {m : PutRequest} {k : Reply → Prog (Except Status HashType)}
    {W : List PutRequest} {d : Bytes}
    (herr : ∀ e, ∃ st, k (.error e) = .ret (.error st)) (hok : ∀ b, SendsPrefix (k (.ok b)) W d) :
    SendsPrefix (.call (.send m) k) (m :: W) d := by
  intro σ perform fs s
  simp only [Prog.exec_call, Prog.Run.cons_events, Prog.Run.cons_result, sent_cons,
    Call.sentMsg, Option.toList_some, List.singleton_append]
  generalize perform (.send m) (fs.headD .ok) s = r
  rcases r with ⟨e | b, s'⟩
  · obtain ⟨st, hst⟩ := herr e
    simp [hst]
  · obtain ⟨hpre, hres⟩ := hok b σ perform fs.tail s'
    refine ⟨List.cons_prefix_cons.mpr ⟨rfl, hpre⟩, fun h hh => ?_⟩
    obtain ⟨rfl, hw, hl, b', hc⟩ := hres h hh
    exact ⟨rfl, by rw [hw], by simp [List.getLast?_cons, hl], b', List.mem_cons_of_mem _ hc⟩

theorem sendsPrefix_sendHash (d : Bytes) : SendsPrefix (sendHash d) [hashMsgOf d] d := by
  intro σ perform fs s
  simp only [sendHash, Prog.exec_call]
  generalize perform (.send (hashMsgOf d)) (fs.headD .ok) s = r1
  rcases r1 with ⟨e | b, s1⟩
  · simp [Call.sentMsg]
  · simp only [Prog.exec_call]
    generalize perform .closeAndRecv (fs.tail.headD .ok) s1 = r2
    rcases r2 with ⟨e | b', s2⟩ <;> simp [Call.sentMsg]

theorem sendsPrefix_sendChunk (data : Bytes) {k : Prog (Except Status HashType)}
    {W : List PutRequest} {d : Bytes} (hk : SendsPrefix k W d) :
    SendsPrefix (sendChunk data k) (chunkMsgs data ++ W) d := by
  unfold sendChunk chunkMsgs
  split_ifs
  · exact sendsPrefix_send (fun e => ⟨_, rfl⟩) fun _ => hk
  · exact hk

theorem sendsPrefix_sendChunk_error (data : Bytes) (st : Status) (d : Bytes) :
    SendsPrefix (sendChunk data (.ret (.error st))) (chunkMsgs data) d := by
  simpa using sendsPrefix_sendChunk data (sendsPrefix_error st [] d)

/-- **The loop's sends.** From any hasher on, the loop sends a prefix of `loopWord`, and
succeeds only after sending all of it, with the digest of everything hashed. -/
theorem sendsPrefix_streamLoop (reads : List ReadResult) :
    ∀ hasher, SendsPrefix (streamLoop md5 reads hasher) (loopWord md5 reads hasher)
      (md5 (hasher ++ (readsUntilErr reads).1.flatten)) := by
  induction reads with
  | nil =>
    intro hasher
    rw [streamLoop]
    refine sendsPrefix_call (by rfl) (fun e => ⟨_, rfl⟩) fun _ => ?_
    simpa [loopWord, readsUntilErr] using sendsPrefix_sendHash (md5 hasher)
  | cons r rest ih =>
    intro hasher
    rw [streamLoop]
    refine sendsPrefix_call (by rfl) (fun e => ⟨_, rfl⟩) fun _ => ?_
    rcases r with ⟨data, _ | (_ | _ | _ | t), hb⟩ <;> dsimp only
    · simpa [loopWord, readsUntilErr, List.append_assoc] using
        sendsPrefix_sendChunk data (ih (hasher ++ data))
    · simpa [loopWord, readsUntilErr] using
        sendsPrefix_sendChunk data (sendsPrefix_sendHash (md5 (hasher ++ data)))
    all_goals
      simp only [loopWord, readsUntilErr, List.map_cons, List.map_nil, List.flatten_cons,
        List.flatten_nil, List.append_nil, reduceCtorEq, if_false]
      exact sendsPrefix_sendChunk_error data _ _

theorem sendsPrefix_proxy (reads : List ReadResult) (req : Option TransferToRemoteRequest)
    (dpuIndex : List Char) :
    (∃ st, handleTransferToRemoteForDPUStreaming md5 reads req dpuIndex = .ret (.error st)) ∨
      ∃ r, req = some r ∧ SendsPrefix (handleTransferToRemoteForDPUStreaming md5 reads req dpuIndex)
        (.openMsg (some ⟨r.localPath, 0o644⟩) :: loopWord md5 reads [])
        (md5 (readsUntilErr reads).1.flatten) := by
  rcases handleTransferToRemoteForDPUStreaming_refused_or_valid md5 reads req dpuIndex with
    ⟨st, h, -⟩ | ⟨r, rd, rfl, hrd, hp, hu, hl, hi⟩
  · exact .inl ⟨st, h⟩
  refine .inr ⟨r, rfl, ?_⟩
  rw [handleTransferToRemoteForDPUStreaming_of_valid md5 reads hrd hp hu hl hi]
  have hloop := sendsPrefix_streamLoop md5 reads []
  rw [List.nil_append] at hloop
  exact sendsPrefix_call (by rfl) (fun e => ⟨_, rfl⟩) fun _ =>
    sendsPrefix_call (by rfl) (fun e => ⟨_, rfl⟩) fun _ =>
    sendsPrefix_call (by rfl) (fun e => ⟨_, rfl⟩) fun _ =>
    sendsPrefix_send (fun e => ⟨_, rfl⟩) fun _ => hloop

/-! ## The codes of the proxy's errors -/

/-- The code the proxy reports a failed call with: `DeadlineExceeded` for the check at
the top of its loop, `Internal` for every other call, whatever the call's error. -/
def proxyFailureCode : Call → Code
  | .deadline => .deadlineExceeded
  | _ => .internal

theorem proxyFailureCode_eq (c : Call) :
    proxyFailureCode c = if c = .deadline then .deadlineExceeded else .internal := by
  cases c <;> rfl

/-- What the proxy's errors say of their cause: a failed call gives the code
`proxyFailureCode` names for it; a refused request gives `InvalidArgument` or
`Unimplemented`, and a failed read `Internal`. -/
def ProxyErrors (p : Prog (Except Status HashType)) : Prop :=
  p.ErrorsAs (fun c _ st => st.code = proxyFailureCode c)
    fun st => st.code = .invalidArgument ∨ st.code = .unimplemented ∨ st.code = .internal

theorem proxyErrors_sendHash (d : Bytes) : ProxyErrors (sendHash d) :=
  ⟨fun _ => ⟨_, rfl, rfl⟩, fun _ => ⟨fun _ => ⟨_, rfl, rfl⟩, fun _ => trivial⟩⟩

theorem proxyErrors_sendChunk (data : Bytes) {k : Prog (Except Status HashType)}
    (hk : ProxyErrors k) : ProxyErrors (sendChunk data k) := by
  unfold sendChunk
  split_ifs
  · exact ⟨fun _ => ⟨_, rfl, rfl⟩, fun _ => hk⟩
  · exact hk

theorem proxyErrors_streamLoop (reads : List ReadResult) :
    ∀ hasher, ProxyErrors (streamLoop md5 reads hasher) := by
  induction reads with
  | nil =>
    intro hasher
    rw [streamLoop]
    exact ⟨fun _ => ⟨_, rfl, rfl⟩, fun _ => proxyErrors_sendHash _⟩
  | cons r rest ih =>
    intro hasher
    rw [streamLoop]
    refine ⟨fun _ => ⟨_, rfl, rfl⟩, fun _ => proxyErrors_sendChunk _ ?_⟩
    rcases r with ⟨data, _ | (_ | _ | _ | _), hb⟩
    · exact ih _
    · exact proxyErrors_sendHash _
    all_goals exact .inr (.inr rfl)

theorem proxyErrors_proxy (reads : List ReadResult) (req : Option TransferToRemoteRequest)
    (dpuIndex : List Char) :
    ProxyErrors (handleTransferToRemoteForDPUStreaming md5 reads req dpuIndex) := by
  rcases handleTransferToRemoteForDPUStreaming_refused_or_valid md5 reads req dpuIndex with
    ⟨st, h, hc⟩ | ⟨r, rd, rfl, hrd, hp, hu, hl, hi⟩
  · rw [h]
    exact hc.imp_right .inl
  rw [handleTransferToRemoteForDPUStreaming_of_valid md5 reads hrd hp hu hl hi]
  exact ⟨fun _ => ⟨_, rfl, rfl⟩, fun _ => ⟨fun _ => ⟨_, rfl, rfl⟩, fun _ =>
    ⟨fun _ => ⟨_, rfl, rfl⟩, fun _ => ⟨fun _ => ⟨_, rfl, rfl⟩, fun _ =>
      proxyErrors_streamLoop md5 reads []⟩⟩⟩⟩

/-! ## The proxy stages nothing on disk -/

theorem sendHash_pathless (d : Bytes) : (sendHash d).AllCalls (·.paths = []) :=
  Prog.allCalls_call rfl (fun _ => trivial) fun _ =>
    Prog.allCalls_call rfl (fun _ => trivial) fun _ => trivial

theorem streamLoop_pathless (reads : List ReadResult) :
    ∀ hasher, (streamLoop md5 reads hasher).AllCalls (·.paths = []) := by
  induction reads with
  | nil =>
    intro hasher
    rw [streamLoop]
    exact Prog.allCalls_call rfl (fun _ => trivial) fun _ => sendHash_pathless _
  | cons r rest ih =>
    intro hasher
    rw [streamLoop]
    refine Prog.allCalls_call rfl (fun _ => trivial) fun _ => ?_
    -- the continuation after the read's bytes are sent
    have hk : (match r.err with
        | some .eof => sendHash (md5 (hasher ++ r.data))
        | some e => .ret (.error ⟨.internal, "failed to read from HTTP stream: " ++ e.text⟩)
        | none => streamLoop md5 rest (hasher ++ r.data)).AllCalls (·.paths = []) := by
      rcases r with ⟨data, _ | (_ | _ | _ | _), hb⟩
      · exact ih _
      · exact sendHash_pathless _
      all_goals trivial
    unfold sendChunk
    split_ifs
    · exact Prog.allCalls_call rfl (fun _ => trivial) fun _ => hk
    · exact hk

/-- Every call of the proxy is a network or stream call: none names a path. -/
theorem proxy_pathless (reads : List ReadResult) (req : Option TransferToRemoteRequest)
    (dpuIndex : List Char) :
    (handleTransferToRemoteForDPUStreaming md5 reads req dpuIndex).AllCalls (·.paths = []) := by
  rcases handleTransferToRemoteForDPUStreaming_refused_or_valid md5 reads req dpuIndex with
    ⟨st, h, -⟩ | ⟨r, rd, rfl, hrd, hp, hu, hl, hi⟩
  · rw [h]
    trivial
  rw [handleTransferToRemoteForDPUStreaming_of_valid md5 reads hrd hp hu hl hi]
  exact Prog.allCalls_call rfl (fun _ => trivial) fun _ =>
    Prog.allCalls_call rfl (fun _ => trivial) fun _ =>
    Prog.allCalls_call rfl (fun _ => trivial) fun _ =>
    Prog.allCalls_call rfl (fun _ => trivial) fun _ => streamLoop_pathless md5 reads []

/-- Whatever the reads and the outcomes of its calls, the proxy leaves the local
filesystem as it was. -/
theorem proxy_keeps_fs (reads : List ReadResult) (req : Option TransferToRemoteRequest)
    (dpuIndex : List Char) (fs : List Fault) (s : Fs) :
    ((handleTransferToRemoteForDPUStreaming md5 reads req dpuIndex).exec Fs.perform fs s).state =
      s :=
  Prog.exec_inv (· = s) (fun _ => True) _ (proxy_pathless md5 reads req dpuIndex)
    (fun c f t hc ht _ => by rw [Fs.perform_of_paths_nil c hc]; exact ht) fs rfl fun _ _ => trivial

/-! ## The proxy fails at its first failed call -/

theorem failsOnError_proxy (reads : List ReadResult) (req : Option TransferToRemoteRequest)
    (dpuIndex : List Char) :
    (handleTransferToRemoteForDPUStreaming md5 reads req dpuIndex).FailsOnError :=
  (proxyErrors_proxy md5 reads req dpuIndex).failsOnError

/-- **The proxy reports a failure by the call that saw it, not by its cause.** In every
run that returns an error: the code is never `Unavailable` and never `Canceled`; when a
call failed, the code is `DeadlineExceeded` if that call is the check at the top of the
loop and `Internal` for any other call, whatever its error (an `Unavailable` error of
`GetDPUConnection`, a deadline a `Send` or `CloseAndRecv` runs into); and when every call
succeeded (a refused request, a failed read, a read that ran into the deadline among
them) the code is not `DeadlineExceeded`. -/
theorem proxy_reports_internal (reads : List ReadResult) (req : Option TransferToRemoteRequest)
    (dpuIndex : List Char) {σ : Type} (perform : Call → Fault → σ → Reply × σ)
    (fs : List Fault) (s : σ) {st : Status}
    (h : ((handleTransferToRemoteForDPUStreaming md5 reads req dpuIndex).exec perform fs s).result =
      .error st) :
    let run := (handleTransferToRemoteForDPUStreaming md5 reads req dpuIndex).exec perform fs s
    st.code ≠ .unavailable ∧ st.code ≠ .canceled ∧
      (∀ c e, (⟨c, .error e⟩ : Prog.Event) ∈ run.events → st.code = proxyFailureCode c) ∧
      ((∀ ev ∈ run.events, ev.reply.isOk) → st.code ≠ .deadlineExceeded) := by
  intro run
  have hp := proxyErrors_proxy md5 reads req dpuIndex
  have hcall : ∀ c e, (⟨c, .error e⟩ : Prog.Event) ∈ run.events → st.code = proxyFailureCode c :=
    fun c e he => by
      obtain ⟨st', h', hq⟩ := Prog.exec_errorsAs_of_mem perform hp fs s he
      rw [h, Except.error.injEq] at h'
      exact h' ▸ hq
  -- `DeadlineExceeded` comes only from a failed call, the check at the top of the loop
  have hcode : st.code = .internal ∨ st.code = .invalidArgument ∨ st.code = .unimplemented ∨
      (st.code = .deadlineExceeded ∧ ¬∀ ev ∈ run.events, ev.reply.isOk) := by
    rcases Prog.exec_errorsAs perform hp fs s h with ⟨c, e, he, hc⟩ | ⟨-, hr | hr | hr⟩
    · rw [hc, proxyFailureCode_eq]
      split
      · exact .inr (.inr (.inr ⟨rfl, fun hok => by
          simpa [Except.isOk, Except.toBool] using hok _ he⟩))
      · exact .inl rfl
    exacts [.inr (.inl hr), .inr (.inr (.inl hr)), .inl hr]
  refine ⟨?_, ?_, hcall, fun hok => ?_⟩ <;> rcases hcode with hc | hc | hc | ⟨hc, hne⟩ <;>
    first | exact absurd hok hne | (rw [hc]; decide)

/-- The upload of `http://host/f` to `/tmp/f` on DPU `0`, run twice with every other call
succeeding: once with `GetDPUConnection` failing with `Unavailable`, as it does for a DPU
marked unreachable, and once with the first read of the source running into the deadline
after the check at the top of the loop passed. Both runs return `Internal`. -/
theorem proxy_reports_internal_unreachable_expired :
    let req : TransferToRemoteRequest := ⟨"/tmp/f".toList, some ⟨"http://host/f".toList, .http⟩⟩
    let unreachable := (handleTransferToRemoteForDPUStreaming Md5.md5Sum [] (some req)
      "0".toList).exec Fs.perform [.ok, .fail (Status.toError ⟨.unavailable, "DPU 0 is unreachable"⟩) 0]
        fun _ => none
    let st₁ : Status := ⟨.internal,
      "failed to get DPU connection: rpc error: code = Unavailable desc = DPU 0 is unreachable"⟩
    let expired := (handleTransferToRemoteForDPUStreaming Md5.md5Sum
      [⟨[], some .deadlineExceeded, by decide⟩] (some req) "0".toList).exec Fs.perform [] fun _ => none
    let st₂ : Status := ⟨.internal, "failed to read from HTTP stream: context deadline exceeded"⟩
    (unreachable.result = .error st₁ ∧ st₁.code ≠ .unavailable ∧ st₁.code ≠ .canceled ∧
      (∀ c e, (⟨c, .error e⟩ : Prog.Event) ∈ unreachable.events → st₁.code = proxyFailureCode c) ∧
      ((∀ ev ∈ unreachable.events, ev.reply.isOk) → st₁.code ≠ .deadlineExceeded)) ∧
    (expired.result = .error st₂ ∧ st₂.code ≠ .unavailable ∧ st₂.code ≠ .canceled ∧
      (∀ c e, (⟨c, .error e⟩ : Prog.Event) ∈ expired.events → st₂.code = proxyFailureCode c) ∧
      ((∀ ev ∈ expired.events, ev.reply.isOk) → st₂.code ≠ .deadlineExceeded)) := by
  intro req unreachable st₁ expired st₂
  have h₂ : expired.result = .error st₂ := by
    simp only [expired, handleTransferToRemoteForDPUStreaming, streamLoop]
    rfl
  exact ⟨⟨rfl, proxy_reports_internal Md5.md5Sum _ _ _ Fs.perform _ _ rfl⟩,
    ⟨h₂, proxy_reports_internal Md5.md5Sum _ _ _ Fs.perform _ _ h₂⟩⟩

/-! ## The protocol the proxy follows -/

/-- The chunked-upload word for `localPath` and chunks `bs`: `Open(localPath, 0644)`, a
`Contents` message per chunk, and the `Hash` of their MD5. -/
def uploadWord (localPath : List Char) (bs : List Bytes) : List PutRequest :=
  .openMsg (some ⟨localPath, 0o644⟩) :: (bs.map contentsMsg ++ [hashMsgOf (md5 bs.flatten)])

theorem flatten_map_chunkMsgs (ds : List Bytes) :
    (ds.map chunkMsgs).flatten = (ds.filter fun b => 0 < b.length).map contentsMsg := by
  induction ds with
  | nil => rfl
  | cons b ds ih => by_cases hb : 0 < b.length <;> simp [chunkMsgs, List.filter_cons, hb, ih]

/-- Dropping the empty reads drops no byte. -/
theorem flatten_filter_pos (ds : List Bytes) :
    (ds.filter fun b => 0 < b.length).flatten = ds.flatten := by
  induction ds with
  | nil => rfl
  | cons b ds ih =>
    by_cases hb : 0 < b.length
    · simp [List.filter_cons, hb, ih]
    · simp [List.filter_cons, hb, ih, List.eq_nil_of_length_eq_zero (Nat.eq_zero_of_not_pos hb)]

theorem readsUntilErr_bound (reads : List ReadResult) :
    ∀ b ∈ (readsUntilErr reads).1, b.length ≤ chunkSize := by
  induction reads with
  | nil => simp [readsUntilErr]
  | cons r rest ih =>
    rcases r with ⟨data, _ | e, hb⟩
    · simpa [readsUntilErr] using ⟨hb, ih⟩
    · simpa [readsUntilErr] using hb

/-- The loop's word from an empty hasher is a prefix of the word of its chunks. -/
theorem loopWord_prefix (reads : List ReadResult) :
    loopWord md5 reads [] <+: ((readsUntilErr reads).1.filter fun b => 0 < b.length).map contentsMsg ++
      [hashMsgOf (md5 ((readsUntilErr reads).1.filter fun b => 0 < b.length).flatten)] := by
  rw [loopWord, flatten_map_chunkMsgs, flatten_filter_pos, List.nil_append]
  split_ifs
  · exact List.prefix_refl _
  · exact (List.append_nil _).symm ▸ List.prefix_append _ _

/-- The one `Hash` of the loop's word comes after `io.EOF` and carries the digest of
everything hashed. -/
theorem hash_mem_loopWord {reads : List ReadResult} {hasher : Bytes} {h : Option HashType}
    (hm : .hashMsg h ∈ loopWord md5 reads hasher) :
    (readsUntilErr reads).2 = .eof ∧
      PutRequest.hashMsg h = hashMsgOf (md5 (hasher ++ (readsUntilErr reads).1.flatten)) := by
  rw [loopWord, flatten_map_chunkMsgs] at hm
  split_ifs at hm with he
  · simpa [he, contentsMsg] using hm
  · simp [contentsMsg] at hm

/-- A loop word after an `Open` that ends with a `Hash` is every chunk and the `Hash` of
them all. -/
theorem loopWord_of_getLast {reads : List ReadResult} {m : PutRequest} {d : Bytes}
    (hm : m ≠ hashMsgOf d) (h : (m :: loopWord md5 reads []).getLast? = some (hashMsgOf d)) :
    loopWord md5 reads [] =
      ((readsUntilErr reads).1.filter fun b => 0 < b.length).map contentsMsg ++
        [hashMsgOf (md5 ((readsUntilErr reads).1.filter fun b => 0 < b.length).flatten)] := by
  rw [loopWord, flatten_map_chunkMsgs, List.nil_append] at h ⊢
  split_ifs at h ⊢
  · rw [flatten_filter_pos]
  · -- without `io.EOF` the word after the `Open` is chunks alone
    rw [List.append_nil] at h
    rcases List.mem_cons.mp (List.mem_of_getLast?_eq_some h) with h' | h'
    · exact absurd h'.symm hm
    · obtain ⟨b, -, hb⟩ := List.mem_map.mp h'
      exact PutRequest.noConfusion hb

theorem mem_sent {evs : List Prog.Event} {e : Prog.Event} {m : PutRequest} (he : e ∈ evs)
    (hc : e.call = .send m) : m ∈ sent evs :=
  List.mem_filterMap.mpr ⟨e, he, by simp [hc, Call.sentMsg]⟩

/-- The proxy sends a `Hash` only after `io.EOF`, and it carries the digest of
everything read. -/
theorem proxy_hash_sent (reads : List ReadResult) (req : Option TransferToRemoteRequest)
    (dpuIndex : List Char) {σ : Type} (perform : Call → Fault → σ → Reply × σ)
    (fs : List Fault) (s : σ) {h : Option HashType}
    (hm : .hashMsg h ∈
      sent ((handleTransferToRemoteForDPUStreaming md5 reads req dpuIndex).exec perform fs s).events) :
    (readsUntilErr reads).2 = .eof ∧
      PutRequest.hashMsg h = hashMsgOf (md5 (readsUntilErr reads).1.flatten) := by
  rcases sendsPrefix_proxy md5 reads req dpuIndex with ⟨st, hst⟩ | ⟨r, rfl, hsp⟩
  · simp [hst] at hm
  · rcases List.mem_cons.mp ((hsp σ perform fs s).1.subset hm) with hm | hm
    · cases hm
    · simpa using hash_mem_loopWord md5 hm

/-- **The proxy follows the chunked-upload protocol.** Whatever its reads return and
whatever its calls reply, with `bs` the non-empty reads up to the first error (each at
most a buffer long, together all the bytes read): the proxy sends nothing or a prefix of
`Open(local_path, 0644) · Contents(b₁) ⋯ Contents(bₖ) · Hash(MD5(b₁ ++ ⋯ ++ bₖ))`, so
at most one `Hash`; it sends a `Hash` only after `io.EOF`, every call before it having
succeeded; and a successful response carries that digest, after the whole word, `Hash`
included, was sent and `CloseAndRecv` acknowledged it. -/
theorem proxy_follows_upload (reads : List ReadResult) (req : Option TransferToRemoteRequest)
    (dpuIndex : List Char) {σ : Type} (perform : Call → Fault → σ → Reply × σ)
    (fs : List Fault) (s : σ) :
    let run := (handleTransferToRemoteForDPUStreaming md5 reads req dpuIndex).exec perform fs s
    let bs := (readsUntilErr reads).1.filter fun b => 0 < b.length
    (∀ b ∈ bs, 0 < b.length ∧ b.length ≤ chunkSize) ∧
      bs.flatten = (readsUntilErr reads).1.flatten ∧
      (sent run.events = [] ∨ ∃ r, req = some r ∧ sent run.events <+: uploadWord md5 r.localPath bs) ∧
      (∀ pre e post h, run.events = pre ++ e :: post → e.call = .send (.hashMsg h) →
        (readsUntilErr reads).2 = .eof ∧ ∀ e' ∈ pre, e'.reply.isOk) ∧
      (∀ h, run.result = .ok h → h = ⟨.md5, md5 bs.flatten⟩ ∧
        (∃ r, req = some r ∧ sent run.events = uploadWord md5 r.localPath bs) ∧
        ∃ b, ⟨.closeAndRecv, .ok b⟩ ∈ run.events) := by
  intro run bs
  have hds := flatten_filter_pos (readsUntilErr reads).1
  refine ⟨fun b hb => ?_, hds, ?_, fun pre e post h he hc => ⟨?_,
    Prog.exec_failsOnError perform (failsOnError_proxy md5 reads req dpuIndex) fs s he⟩, ?_⟩
  · obtain ⟨hmem, hpos⟩ := List.mem_filter.mp hb
    exact ⟨by simpa using hpos, readsUntilErr_bound reads b hmem⟩
  · rcases sendsPrefix_proxy md5 reads req dpuIndex with ⟨st, hst⟩ | ⟨r, rfl, hsp⟩
    · exact .inl (by simp [run, hst])
    · exact .inr ⟨r, rfl, (hsp σ perform fs s).1.trans
        (List.cons_prefix_cons.mpr ⟨rfl, loopWord_prefix md5 reads⟩)⟩
  · exact (proxy_hash_sent md5 reads req dpuIndex perform fs s
      (mem_sent (he ▸ List.mem_append_right pre (List.mem_cons_self e post)) hc)).1
  · intro h hh
    rcases sendsPrefix_proxy md5 reads req dpuIndex with ⟨st, hst⟩ | ⟨r, rfl, hsp⟩
    · simp [run, hst] at hh
    · obtain ⟨rfl, hw, hl, hc⟩ := (hsp σ perform fs s).2 h hh
      refine ⟨by rw [hds], ⟨r, rfl, ?_⟩, hc⟩
      rw [hw, loopWord_of_getLast md5 PutRequest.noConfusion hl]
      rfl

end Proxy

end SonicGnmi.File
