import SonicGnmi.File.Refuse
import SonicGnmi.Md5
import SonicGnmi.File.Proxy

/-!
# The streaming proxy and `HandlePut` end to end

The proxy's Put stream is connected to `HandlePut` on the DPU by an in-order, lossless
link. `linkPerform` gives the proxy's calls their meaning on the link: a send delivers its
message while the stream is open (a failed send may still have got through), and
`CloseAndRecv` closes the stream and answers with the result of `HandlePut` on everything
delivered followed by `io.EOF`, a failure as the status error `HandlePut` returned, unless
the call itself fails. When the proxy stops
without closing, `HandlePut` sees the delivered messages and then a cancellation.

* `link_queue_sublist`, `link_queue_prefix`, `link_queue_of_ok`, `link_peer_ok` — what any
  program's run delivers, and what an acknowledged `CloseAndRecv` says of the receiver;
* `proxy_put_all_ok`, `proxy_put_ok_commits`, `proxy_put_commit_after_eof` — the three
  parts of the end-to-end statement;
* `proxy_put_end_to_end` — with every call succeeding the proxy returns the digest of
  the source and the DPU holds exactly the source; whatever fails, the proxy succeeds
  only if the DPU holds exactly the source, and the DPU commits only after `io.EOF`;
* `proxy_put_never_dataLoss` — whatever fails on either side, a `Hash` reaches the DPU
  only with the whole upload word, so the DPU never answers `DataLoss` to the proxy.
-/

namespace SonicGnmi.File

open SonicGnmi.Path

/-- Whether a send with this outcome reached the peer: a successful send, and a failed one
that got bytes out. -/
def Fault.delivered : Fault → Bool
  | .ok => true
  | .fail _ n => 0 < n

/-- The link to the DPU: the DPU's filesystem, the messages delivered to it so far, and
whether the proxy closed its send side. -/
structure Link where
  fs : Fs
  queue : List PutRequest
  closed : Bool

section Link

variable (md5 : Bytes → Bytes) (inContainer : Bool) (peerFaults : List Fault)

/-- What the DPU's `stream.Recv()` calls return: the delivered messages, then `io.EOF`
once the proxy closed its side, or a cancellation when it went away without closing. -/
def Link.items (l : Link) : List RecvItem :=
  l.queue.map .ok ++ if l.closed then [] else [.error .canceled]

/-- The run of `HandlePut` on the DPU on what the link delivered. -/
def Link.peer (l : Link) : Prog.Run (Except Status Unit) Fs :=
  (handlePut md5 inContainer l.items).exec Fs.perform peerFaults l.fs

/-- The proxy's calls on the link. -/
def linkPerform (c : Call) (f : Fault) (l : Link) : Reply × Link :=
  match c with
  | .send m =>
    if l.closed then (.error ⟨.other, "SendMsg called after CloseSend"⟩, l)
    else (f.reply, if f.delivered then { l with queue := l.queue ++ [m] } else l)
  | .closeAndRecv =>
    (match f, (Link.peer md5 inContainer peerFaults { l with closed := true }).result with
      | .fail e _, _ => .error e
      | .ok, .ok _ => .ok []
      | .ok, .error st => .error st.toError,
      { l with closed := true })
  | _ => (f.reply, l)

/-! ## What a run delivers -/

/-- Once the stream is closed, nothing changes on the link. -/
theorem link_closed {α : Type} (p : Prog α) (fs : List Fault) {l : Link} (hl : l.closed = true) :
    (p.exec (linkPerform md5 inContainer peerFaults) fs l).state = l := by
  induction p generalizing fs with
  | ret a => rfl
  | call c k ih =>
    have hstep : ∀ f, (linkPerform md5 inContainer peerFaults c f l).2 = l := by
      intro f
      cases c <;> simp only [linkPerform, hl, if_true]
      cases l
      simp_all
    simp only [Prog.exec_call, Prog.Run.cons_state, hstep]
    exact ih _ _

/-- A run delivers some of the messages it sent. -/
theorem link_queue_sublist {α : Type} (p : Prog α) (fs : List Fault) (l : Link) :
    List.Sublist (p.exec (linkPerform md5 inContainer peerFaults) fs l).state.queue
      (l.queue ++ sent (p.exec (linkPerform md5 inContainer peerFaults) fs l).events) := by
  induction p generalizing fs l with
  | ret a => simp
  | call c k ih =>
    simp only [Prog.exec_call, Prog.Run.cons_state, Prog.Run.cons_events, sent_cons]
    refine (ih _ _ _).trans ?_
    cases c <;> simp only [linkPerform, Call.sentMsg, Option.toList_none, Option.toList_some,
      List.nil_append, List.Sublist.refl]
    split_ifs <;> simp

/-- A call answered with success delivered what it sent. -/
theorem linkPerform_queue_of_ok (c : Call) (f : Fault) (l : Link)
    (h : (linkPerform md5 inContainer peerFaults c f l).1.isOk) :
    (linkPerform md5 inContainer peerFaults c f l).2.queue = l.queue ++ c.sentMsg.toList := by
  cases c <;> simp only [linkPerform, Call.sentMsg, Option.toList_none, Option.toList_some,
    List.append_nil] at h ⊢
  split_ifs at h ⊢
  · simp [Except.isOk, Except.toBool] at h
  all_goals cases f <;> simp_all [Fault.reply, Fault.delivered, Except.isOk, Except.toBool]

/-- A run all of whose calls succeeded delivered every message it sent. -/
theorem link_queue_of_ok {α : Type} (p : Prog α) (fs : List Fault) (l : Link)
    (hok : ∀ e ∈ (p.exec (linkPerform md5 inContainer peerFaults) fs l).events, e.reply.isOk) :
    (p.exec (linkPerform md5 inContainer peerFaults) fs l).state.queue =
      l.queue ++ sent (p.exec (linkPerform md5 inContainer peerFaults) fs l).events := by
  induction p generalizing fs l with
  | ret a => simp
  | call c k ih =>
    simp only [Prog.exec_call, Prog.Run.cons_state, Prog.Run.cons_events, sent_cons,
      List.mem_cons, forall_eq_or_imp] at hok ⊢
    rw [ih _ _ _ hok.2, linkPerform_queue_of_ok md5 inContainer peerFaults _ _ _ hok.1,
      List.append_assoc]

/-- A call delivers nothing, or the message it sent. -/
theorem linkPerform_queue_prefix (c : Call) (f : Fault) (l : Link) :
    (linkPerform md5 inContainer peerFaults c f l).2.queue <+: l.queue ++ c.sentMsg.toList := by
  cases c <;> simp only [linkPerform, Call.sentMsg, Option.toList_none, Option.toList_some,
    List.append_nil, List.prefix_refl]
  split_ifs <;> simp

/-- A program that stops at its first failed call delivers a prefix of what it sent: every
send but a failed last one got through. -/
theorem link_queue_prefix {ε β : Type} {p : Prog (Except ε β)} (hp : p.FailsOnError)
    (fs : List Fault) (l : Link) :
    (p.exec (linkPerform md5 inContainer peerFaults) fs l).state.queue <+:
      l.queue ++ sent (p.exec (linkPerform md5 inContainer peerFaults) fs l).events := by
  induction p generalizing fs l with
  | ret a => simp
  | call c k ih =>
    have hpre := linkPerform_queue_prefix md5 inContainer peerFaults c (fs.headD .ok) l
    have hok := linkPerform_queue_of_ok md5 inContainer peerFaults c (fs.headD .ok) l
    simp only [Prog.exec_call, Prog.Run.cons_state, Prog.Run.cons_events, sent_cons]
    generalize linkPerform md5 inContainer peerFaults c (fs.headD .ok) l = r at hpre hok ⊢
    rcases r with ⟨e | b, l'⟩
    · -- the failed call is the last: the program returns at once
      obtain ⟨st, hst⟩ := hp.1 e
      simpa [hst] using hpre
    · rw [← List.append_assoc, ← hok rfl]
      exact ih _ (hp.2 _) _ _

/-- An acknowledged `CloseAndRecv` means `HandlePut` on the DPU succeeded on what the
link delivered before `io.EOF`. -/
theorem link_peer_ok {α : Type} (p : Prog α) (fs : List Fault) (l : Link) {b : Bytes}
    (hc : ⟨.closeAndRecv, .ok b⟩ ∈ (p.exec (linkPerform md5 inContainer peerFaults) fs l).events) :
    ((p.exec (linkPerform md5 inContainer peerFaults) fs l).state.peer md5 inContainer
      peerFaults).result = .ok () ∧
      (p.exec (linkPerform md5 inContainer peerFaults) fs l).state.closed = true := by
  induction p generalizing fs l with
  | ret a => simp at hc
  | call c k ih =>
    simp only [Prog.exec_call, Prog.Run.cons_state, Prog.Run.cons_events, List.mem_cons] at hc ⊢
    rcases hc with hc | hc
    · injection hc with hc1 hr
      subst hc1
      generalize fs.headD .ok = f at hr ⊢
      have hcl : (linkPerform md5 inContainer peerFaults .closeAndRecv f l).2.closed = true := rfl
      rw [link_closed md5 inContainer peerFaults _ _ hcl]
      refine ⟨?_, rfl⟩
      cases f with
      | fail e n => simp [linkPerform] at hr
      | ok =>
        simp only [linkPerform] at hr ⊢
        split at hr <;> simp_all
    · exact ih _ _ _ hc

/-! ## The proxy on the link, with every call succeeding -/

theorem loopWord_cons_none (reads : List ReadResult) (r : ReadResult) (hasher : Bytes)
    (hr : r.err = none) :
    loopWord md5 (r :: reads) hasher = chunkMsgs r.data ++ loopWord md5 reads (hasher ++ r.data) := by
  simp [loopWord, readsUntilErr, hr, List.append_assoc]

theorem loopWord_cons_eof (reads : List ReadResult) (r : ReadResult) (hasher : Bytes)
    (hr : r.err = some .eof) :
    loopWord md5 (r :: reads) hasher = chunkMsgs r.data ++ [hashMsgOf (md5 (hasher ++ r.data))] := by
  simp [loopWord, readsUntilErr, hr]

/-- On a source that reaches `io.EOF`, the loop's word is the upload of its chunks. -/
theorem loopWord_eof {reads : List ReadResult} (he : (readsUntilErr reads).2 = .eof) :
    loopWord md5 reads [] = ((readsUntilErr reads).1.filter fun b => 0 < b.length).map contentsMsg ++
      [hashMsgOf (md5 (readsUntilErr reads).1.flatten)] := by
  simp [loopWord, he, flatten_map_chunkMsgs]

theorem map_ok_contentsMsg (bs : List Bytes) :
    (bs.map contentsMsg).map (Except.ok : PutRequest → RecvItem) = chunks bs := by
  induction bs with
  | nil => rfl
  | cons b bs ih => simp [contentsMsg, ih]

theorem sendHash_link (d : Bytes) (fs : Fs) (q : List PutRequest)
    (hpeer : ((handlePut md5 inContainer ((q ++ [hashMsgOf d]).map .ok)).exec Fs.perform
      peerFaults fs).result = .ok ()) :
    ((sendHash d).exec (linkPerform md5 inContainer peerFaults) [] ⟨fs, q, false⟩).result =
        .ok ⟨.md5, d⟩ ∧
      ((sendHash d).exec (linkPerform md5 inContainer peerFaults) [] ⟨fs, q, false⟩).state =
        ⟨fs, q ++ [hashMsgOf d], true⟩ := by
  have hp : (Link.peer md5 inContainer peerFaults ⟨fs, q ++ [hashMsgOf d], true⟩).result =
      .ok () := by
    simpa [Link.peer, Link.items] using hpeer
  simp [sendHash, linkPerform, Fault.reply, Fault.delivered, hp]

theorem sendChunk_link (data : Bytes) (k : Prog (Except Status HashType)) (fs : Fs)
    (q : List PutRequest) :
    ((sendChunk data k).exec (linkPerform md5 inContainer peerFaults) [] ⟨fs, q, false⟩).result =
        (k.exec (linkPerform md5 inContainer peerFaults) [] ⟨fs, q ++ chunkMsgs data, false⟩).result ∧
      ((sendChunk data k).exec (linkPerform md5 inContainer peerFaults) [] ⟨fs, q, false⟩).state =
        (k.exec (linkPerform md5 inContainer peerFaults) [] ⟨fs, q ++ chunkMsgs data, false⟩).state := by
  unfold sendChunk chunkMsgs
  split_ifs <;> simp [linkPerform, Fault.reply, Fault.delivered]

/-- With every call succeeding and a receiver that accepts the result, the loop on a
source that reaches `io.EOF` delivers its word, closes the stream and returns the digest. -/
theorem streamLoop_link (fs : Fs) (reads : List ReadResult) :
    ∀ (hasher : Bytes) (q : List PutRequest), (readsUntilErr reads).2 = .eof →
      ((handlePut md5 inContainer ((q ++ loopWord md5 reads hasher).map .ok)).exec Fs.perform
        peerFaults fs).result = .ok () →
      ((streamLoop md5 reads hasher).exec (linkPerform md5 inContainer peerFaults) []
          ⟨fs, q, false⟩).result = .ok ⟨.md5, md5 (hasher ++ (readsUntilErr reads).1.flatten)⟩ ∧
        ((streamLoop md5 reads hasher).exec (linkPerform md5 inContainer peerFaults) []
          ⟨fs, q, false⟩).state = ⟨fs, q ++ loopWord md5 reads hasher, true⟩ := by
  induction reads with
  | nil =>
    intro hasher q _ hpeer
    have hw : loopWord md5 [] hasher = [hashMsgOf (md5 hasher)] := by simp [loopWord, readsUntilErr]
    rw [hw] at hpeer ⊢
    rw [streamLoop]
    simpa [linkPerform, Fault.reply, readsUntilErr] using
      sendHash_link md5 inContainer peerFaults (md5 hasher) fs q hpeer
  | cons r rest ih =>
    intro hasher q he hpeer
    rw [streamLoop]
    simp only [Prog.exec_call, List.headD_nil, List.tail_nil, Prog.Run.cons_result,
      Prog.Run.cons_state, linkPerform, Fault.reply]
    rcases r with ⟨data, _ | (_ | _ | _ | t), hb⟩
    · rw [loopWord_cons_none md5 _ _ _ rfl, ← List.append_assoc] at hpeer ⊢
      obtain ⟨h1, h2⟩ := ih (hasher ++ data) (q ++ chunkMsgs data) (by simpa [readsUntilErr] using he) hpeer
      rw [(sendChunk_link md5 inContainer peerFaults _ _ fs q).1,
        (sendChunk_link md5 inContainer peerFaults _ _ fs q).2]
      have h12 := And.intro h1 h2
      simpa [readsUntilErr] using h12
    · rw [loopWord_cons_eof md5 _ _ _ rfl, ← List.append_assoc] at hpeer ⊢
      obtain ⟨h1, h2⟩ := sendHash_link md5 inContainer peerFaults _ fs _ hpeer
      rw [(sendChunk_link md5 inContainer peerFaults _ _ fs q).1,
        (sendChunk_link md5 inContainer peerFaults _ _ fs q).2]
      have h12 := And.intro h1 h2
      simpa [readsUntilErr] using h12
    all_goals simp [readsUntilErr] at he

/-- With every call succeeding and a receiver that accepts the result, the proxy on a
valid request and a source that reaches `io.EOF` delivers `Open` and the loop's word,
closes the stream and returns the digest. -/
theorem proxy_link (fs : Fs) (reads : List ReadResult) {r : TransferToRemoteRequest}
    {rd : RemoteDownload} {dpuIndex : List Char} (hrd : r.remoteDownload = some rd)
    (hp : rd.protocol = .http) (hu : rd.path ≠ []) (hl : r.localPath ≠ []) (hi : dpuIndex ≠ [])
    (he : (readsUntilErr reads).2 = .eof)
    (hpeer : ((handlePut md5 inContainer ((.openMsg (some ⟨r.localPath, 0o644⟩) ::
      loopWord md5 reads []).map .ok)).exec Fs.perform peerFaults fs).result = .ok ()) :
    ((handleTransferToRemoteForDPUStreaming md5 reads (some r) dpuIndex).exec
        (linkPerform md5 inContainer peerFaults) [] ⟨fs, [], false⟩).result =
        .ok ⟨.md5, md5 (readsUntilErr reads).1.flatten⟩ ∧
      ((handleTransferToRemoteForDPUStreaming md5 reads (some r) dpuIndex).exec
        (linkPerform md5 inContainer peerFaults) [] ⟨fs, [], false⟩).state =
        ⟨fs, .openMsg (some ⟨r.localPath, 0o644⟩) :: loopWord md5 reads [], true⟩ := by
  have := streamLoop_link md5 inContainer peerFaults fs reads [] [.openMsg (some ⟨r.localPath, 0o644⟩)]
    he hpeer
  rw [handleTransferToRemoteForDPUStreaming_of_valid md5 reads hrd hp hu hl hi]
  simpa [linkPerform, Fault.reply, Fault.delivered] using this

end Link

/-! ## End to end -/

/-- What the proxy sends on a source that reaches `io.EOF`, as the receiver reads it:
`Open`, the non-empty reads as chunks, and the `Hash` of the whole source. -/
theorem upload_items (md5 : Bytes → Bytes) {reads : List ReadResult}
    (he : (readsUntilErr reads).2 = .eof) (lp : List Char) :
    (PutRequest.openMsg (some ⟨lp, 0o644⟩) :: loopWord md5 reads []).map Except.ok =
      .ok (.openMsg (some ⟨lp, 0o644⟩)) ::
        (chunks ((readsUntilErr reads).1.filter fun b => 0 < b.length) ++
          .ok (.hashMsg (some ⟨.md5, md5 (readsUntilErr reads).1.flatten⟩)) :: []) := by
  simp [loopWord_eof md5 he, ← map_ok_contentsMsg, hashMsgOf]

theorem Link.mem_queue_of_items {l : Link} {m : PutRequest} (h : .ok m ∈ l.items) :
    m ∈ l.queue := by
  simp only [Link.items, List.mem_append, List.mem_map] at h
  rcases h with ⟨m', hm, hmeq⟩ | h
  · cases hmeq; exact hm
  · split at h <;> simp at h

/-- With every call of both sides succeeding, the proxy on a source that reaches `io.EOF`
and a valid request returns the digest of the source, and the DPU holds exactly the
source with mode `0644`. -/
theorem proxy_put_all_ok (md5 : Bytes → Bytes) (inContainer : Bool) {reads : List ReadResult}
    (fs : Fs) (he : (readsUntilErr reads).2 = .eof) {r : TransferToRemoteRequest}
    {rd : RemoteDownload} {dpuIndex : List Char} (hrd : r.remoteDownload = some rd)
    (hp : rd.protocol = .http) (hu : rd.path ≠ []) (hv : validatePath r.localPath = none)
    (hi : dpuIndex ≠ []) :
    let run := (handleTransferToRemoteForDPUStreaming md5 reads (some r) dpuIndex).exec
      (linkPerform md5 inContainer []) [] ⟨fs, [], false⟩
    run.result = .ok ⟨.md5, md5 (readsUntilErr reads).1.flatten⟩ ∧
      (run.state.peer md5 inContainer []).state (translatePathForContainer inContainer r.localPath) =
        some ⟨(readsUntilErr reads).1.flatten, syscallMode 0o644⟩ := by
  have hl : r.localPath ≠ [] := fun h => absurd (h ▸ hv) (by decide)
  have hacc := @handlePut_accept md5 inContainer ⟨r.localPath, 0o644⟩ _
    ⟨.md5, md5 (readsUntilErr reads).1.flatten⟩ [] (openedWith_open hl hv)
    (by rw [flatten_filter_pos]) fs
  rw [← upload_items md5 he r.localPath] at hacc
  obtain ⟨hres, hstate⟩ := proxy_link md5 inContainer [] fs reads hrd hp hu hl hi he hacc.1
  refine ⟨hres, ?_⟩
  rw [hstate]
  simpa [Link.peer, Link.items, flatten_filter_pos, Details.dest, Details.mode] using hacc.2

/-- Whatever fails, a proxy run that succeeds read its source through to `io.EOF`,
returns the digest of the source, and left the source with mode `0644` on the DPU. -/
theorem proxy_put_ok_commits (md5 : Bytes → Bytes) (inContainer : Bool) (reads : List ReadResult)
    (fs : Fs) (req : Option TransferToRemoteRequest) (dpuIndex : List Char)
    (proxyFaults peerFaults : List Fault) {h : HashType}
    (hh : ((handleTransferToRemoteForDPUStreaming md5 reads req dpuIndex).exec
      (linkPerform md5 inContainer peerFaults) proxyFaults ⟨fs, [], false⟩).result = .ok h) :
    (readsUntilErr reads).2 = .eof ∧ h = ⟨.md5, md5 (readsUntilErr reads).1.flatten⟩ ∧
      ∃ r, req = some r ∧
        (((handleTransferToRemoteForDPUStreaming md5 reads req dpuIndex).exec
          (linkPerform md5 inContainer peerFaults) proxyFaults ⟨fs, [], false⟩).state.peer
            md5 inContainer peerFaults).state (translatePathForContainer inContainer r.localPath) =
          some ⟨(readsUntilErr reads).1.flatten, syscallMode 0o644⟩ := by
  rcases sendsPrefix_proxy md5 reads req dpuIndex with ⟨st, hst⟩ | ⟨r, rfl, hsp⟩
  · simp [hst] at hh
  obtain ⟨rfl, hsent, hlast, b, hcl⟩ := (hsp _ _ proxyFaults _).2 h hh
  have he := (proxy_hash_sent md5 reads _ dpuIndex _ proxyFaults _
    (hsent ▸ List.mem_of_getLast?_eq_some hlast)).1
  -- every call succeeded, so the receiver got the whole upload and acknowledged it
  have hq := link_queue_of_ok md5 inContainer peerFaults _ proxyFaults _
    (Prog.exec_failsOnError_ok _ (failsOnError_proxy md5 reads _ dpuIndex) _ _ hh)
  obtain ⟨hpeer, hclosed⟩ := link_peer_ok md5 inContainer peerFaults _ proxyFaults _ hcl
  refine ⟨he, rfl, r, rfl, ?_⟩
  rw [Link.peer, Link.items, hq, hclosed, hsent, List.nil_append, if_pos rfl, List.append_nil,
    upload_items md5 he] at hpeer ⊢
  simpa [flatten_filter_pos, Details.dest, Details.mode] using
    handlePut_commit_of_ok md5 inContainer peerFaults _ hpeer

/-- Whatever fails, the DPU commits a file only after the proxy read its source through to
`io.EOF` and sent the `Hash` of all of it: the receiver's `Hash` came from the proxy. -/
theorem proxy_put_commit_after_eof (md5 : Bytes → Bytes) (inContainer : Bool)
    (reads : List ReadResult) (fs : Fs) (req : Option TransferToRemoteRequest)
    (dpuIndex : List Char) (proxyFaults peerFaults : List Fault) {T D : List Char}
    (hren : ⟨.rename T D, .ok []⟩ ∈ (((handleTransferToRemoteForDPUStreaming md5 reads req
      dpuIndex).exec (linkPerform md5 inContainer peerFaults) proxyFaults ⟨fs, [], false⟩).state.peer
        md5 inContainer peerFaults).events) :
    (readsUntilErr reads).2 = .eof ∧ hashMsgOf (md5 (readsUntilErr reads).1.flatten) ∈
      sent ((handleTransferToRemoteForDPUStreaming md5 reads req dpuIndex).exec
        (linkPerform md5 inContainer peerFaults) proxyFaults ⟨fs, [], false⟩).events := by
  obtain ⟨h, hh⟩ := hash_mem_of_rename md5 inContainer _ peerFaults _ hren
  have hs := (link_queue_sublist md5 inContainer peerFaults _ proxyFaults _).subset
    (Link.mem_queue_of_items hh)
  rw [List.nil_append] at hs
  obtain ⟨he, heq⟩ := proxy_hash_sent md5 reads req dpuIndex _ proxyFaults _ hs
  exact ⟨he, heq ▸ hs⟩

/-- Whatever the reads return and whatever fails, the DPU receives a prefix of the upload
word of the non-empty reads up to the first error. -/
theorem proxy_delivers_prefix (md5 : Bytes → Bytes) (inContainer : Bool)
    (reads : List ReadResult) (fs : Fs) (req : Option TransferToRemoteRequest)
    (dpuIndex : List Char) (proxyFaults peerFaults : List Fault) :
    ((handleTransferToRemoteForDPUStreaming md5 reads req dpuIndex).exec
        (linkPerform md5 inContainer peerFaults) proxyFaults ⟨fs, [], false⟩).state.queue = [] ∨
      ∃ r, req = some r ∧
        ((handleTransferToRemoteForDPUStreaming md5 reads req dpuIndex).exec
          (linkPerform md5 inContainer peerFaults) proxyFaults ⟨fs, [], false⟩).state.queue <+:
        uploadWord md5 r.localPath ((readsUntilErr reads).1.filter fun b => 0 < b.length) := by
  have hq := link_queue_prefix md5 inContainer peerFaults (failsOnError_proxy md5 reads req dpuIndex)
    proxyFaults ⟨fs, [], false⟩
  rw [List.nil_append] at hq
  rcases sendsPrefix_proxy md5 reads req dpuIndex with ⟨st, hst⟩ | ⟨r, rfl, hsp⟩
  · rw [hst]
    exact .inl rfl
  · exact .inr ⟨r, rfl, hq.trans ((hsp _ _ proxyFaults _).1.trans
      (List.cons_prefix_cons.mpr ⟨rfl, loopWord_prefix md5 reads⟩))⟩

/-- **The DPU never sees a digest mismatch from the proxy.** For every source, request and
DPU index, every outcome of every call of the proxy and of the DPU, and every DPU
filesystem: once a `Hash` has reached the DPU, it has received exactly the upload word
`Open(local_path, 0644) · Contents(b₁) ⋯ Contents(bₖ) · Hash(MD5(b₁ ++ ⋯ ++ bₖ))` of
the non-empty reads up to the first error, and nothing else; so `HandlePut` on what the
DPU received, with its own calls succeeding, never returns `DataLoss`. -/
theorem proxy_put_never_dataLoss (md5 : Bytes → Bytes) (inContainer : Bool)
    (reads : List ReadResult) (fs : Fs) (req : Option TransferToRemoteRequest)
    (dpuIndex : List Char) (proxyFaults peerFaults : List Fault) :
    (∀ h, .hashMsg h ∈ ((handleTransferToRemoteForDPUStreaming md5 reads req dpuIndex).exec
          (linkPerform md5 inContainer peerFaults) proxyFaults ⟨fs, [], false⟩).state.queue →
        ∃ r, req = some r ∧
          ((handleTransferToRemoteForDPUStreaming md5 reads req dpuIndex).exec
            (linkPerform md5 inContainer peerFaults) proxyFaults ⟨fs, [], false⟩).state.queue =
          uploadWord md5 r.localPath ((readsUntilErr reads).1.filter fun b => 0 < b.length)) ∧
      ∀ st, (((handleTransferToRemoteForDPUStreaming md5 reads req dpuIndex).exec
          (linkPerform md5 inContainer peerFaults) proxyFaults ⟨fs, [], false⟩).state.peer
            md5 inContainer []).result = .error st → st.code ≠ .dataLoss := by
  have hpre := proxy_delivers_prefix md5 inContainer reads fs req dpuIndex proxyFaults peerFaults
  generalize ((handleTransferToRemoteForDPUStreaming md5 reads req dpuIndex).exec
    (linkPerform md5 inContainer peerFaults) proxyFaults ⟨fs, [], false⟩).state = l at hpre ⊢
  generalize (readsUntilErr reads).1.filter (fun b => 0 < b.length) = bs at hpre ⊢
  -- a delivered `Hash` is the last message of the upload word
  have hwhole : ∀ h, .hashMsg h ∈ l.queue →
      ∃ r, req = some r ∧ l.queue = uploadWord md5 r.localPath bs := by
    intro h hh
    rcases hpre with hq | ⟨r, rfl, hq⟩
    · rw [hq] at hh; cases hh
    rw [uploadWord, ← List.cons_append, List.prefix_concat_iff] at hq
    rcases hq with hq | hq
    · exact ⟨r, rfl, hq⟩
    · rcases List.mem_cons.mp (hq.subset hh) with h' | h'
      · cases h'
      · obtain ⟨b, -, hb⟩ := List.mem_map.mp h'
        exact PutRequest.noConfusion hb
  refine ⟨hwhole, fun st hst hcode => ?_⟩
  -- `DataLoss` needs a delivered `Hash` that differs from the digest of the chunks before it
  obtain ⟨d, cs, h, tail, hitems, -, -, hmd⟩ :=
    (handlePut_dataLoss_iff md5 inContainer l.items l.fs).mp ⟨st, hst, hcode⟩
  obtain ⟨r, rfl, hqw⟩ := hwhole _ (Link.mem_queue_of_items
    (by rw [hitems]; simp : Except.ok (PutRequest.hashMsg (some h)) ∈ l.items))
  have hitems' : (Except.ok (.openMsg (some ⟨r.localPath, 0o644⟩)) : RecvItem) ::
      (chunks bs ++ .ok (.hashMsg (some ⟨.md5, md5 bs.flatten⟩)) ::
        (if l.closed then [] else [.error .canceled])) =
      .ok (.openMsg (some d)) :: (chunks cs ++ .ok (.hashMsg (some h)) :: tail) := by
    rw [← hitems, Link.items, hqw]
    simp [uploadWord, ← map_ok_contentsMsg, hashMsgOf]
  obtain ⟨rfl, rfl, -⟩ := chunks_append_hash_inj (List.cons.inj hitems').2
  exact hmd rfl

/-- **The proxy and `HandlePut` agree end to end.** (a) On a source that reaches `io.EOF`,
however its reads split it, and a valid request whose `local_path` `validatePath`
accepts: with every call of both sides succeeding, the proxy returns the MD5 of the source
and the DPU holds exactly the source, with mode `0644`, at the translated path.
(b) Whatever fails and whenever: the proxy succeeds only after `io.EOF`, with the MD5 of
the source, and with the DPU holding exactly the source at the translated path; and the
DPU commits a file only after the proxy reached `io.EOF` and sent the `Hash` of all it
read. -/
theorem proxy_put_end_to_end (md5 : Bytes → Bytes) (inContainer : Bool)
    (reads : List ReadResult) (fs : Fs) :
    ((readsUntilErr reads).2 = .eof → ∀ r rd dpuIndex, r.remoteDownload = some rd →
      rd.protocol = .http → rd.path ≠ [] → validatePath r.localPath = none →
      dpuIndex ≠ [] →
      let run := (handleTransferToRemoteForDPUStreaming md5 reads (some r) dpuIndex).exec
        (linkPerform md5 inContainer []) [] ⟨fs, [], false⟩
      run.result = .ok ⟨.md5, md5 (readsUntilErr reads).1.flatten⟩ ∧
        (run.state.peer md5 inContainer []).state
            (translatePathForContainer inContainer r.localPath) =
          some ⟨(readsUntilErr reads).1.flatten, syscallMode 0o644⟩) ∧
    (∀ req dpuIndex proxyFaults peerFaults,
      let run := (handleTransferToRemoteForDPUStreaming md5 reads req dpuIndex).exec
        (linkPerform md5 inContainer peerFaults) proxyFaults ⟨fs, [], false⟩
      let peer := run.state.peer md5 inContainer peerFaults
      (∀ h, run.result = .ok h → (readsUntilErr reads).2 = .eof ∧
        h = ⟨.md5, md5 (readsUntilErr reads).1.flatten⟩ ∧
        ∃ r, req = some r ∧ peer.state (translatePathForContainer inContainer r.localPath) =
          some ⟨(readsUntilErr reads).1.flatten, syscallMode 0o644⟩) ∧
      (∀ T D, ⟨.rename T D, .ok []⟩ ∈ peer.events → (readsUntilErr reads).2 = .eof ∧
        hashMsgOf (md5 (readsUntilErr reads).1.flatten) ∈ sent run.events)) :=
  ⟨fun he _ _ _ hrd hp hu hv hi => proxy_put_all_ok md5 inContainer fs he hrd hp hu hv hi,
    fun req dpuIndex proxyFaults peerFaults =>
      ⟨fun _ hh => proxy_put_ok_commits md5 inContainer reads fs req dpuIndex proxyFaults peerFaults hh,
        fun _ _ hren =>
          proxy_put_commit_after_eof md5 inContainer reads fs req dpuIndex proxyFaults peerFaults hren⟩⟩

/-- The end-to-end statement on one upload: the source `ab` read in one go with `io.EOF`,
to `/tmp/f`. -/
theorem proxy_put_end_to_end_ab :
    let reads : List ReadResult := [⟨[97, 98], some .eof, by decide⟩]
    let r : TransferToRemoteRequest := ⟨"/tmp/f".toList, some ⟨"http://h".toList, .http⟩⟩
    let run := (handleTransferToRemoteForDPUStreaming Md5.md5Sum reads (some r) "0".toList).exec
      (linkPerform Md5.md5Sum false []) [] ⟨fun _ => none, [], false⟩
    run.result = .ok ⟨.md5, Md5.md5Sum [97, 98]⟩ ∧
      (run.state.peer Md5.md5Sum false []).state "/tmp/f".toList = some ⟨[97, 98], 0o644⟩ :=
  (proxy_put_end_to_end Md5.md5Sum false [⟨[97, 98], some .eof, by decide⟩] (fun _ => none)).1
    rfl ⟨"/tmp/f".toList, some ⟨"http://h".toList, .http⟩⟩ ⟨"http://h".toList, .http⟩ "0".toList
    rfl rfl (by decide) (by decide) (by decide)

end SonicGnmi.File
