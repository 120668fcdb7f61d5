import SonicGnmi.File.Proxy
import SonicGnmi.File.Fs
import SonicGnmi.Md5

/-!
# `TransferToRemote`: the local handler and the routing

`handleTransferToRemoteLocal` checks the request, downloads the URL to the translated
local path and returns the MD5 of what it stored, removing the file when the digest
cannot be computed. `HandleTransferToRemote` sends a request whose metadata names a DPU
target to the streaming proxy instead, and every other request to the local handler.

* `handleTransferToRemoteLocal_allCalls` — every call of the local handler names the
  translated path of a path `validatePath` accepts;
* `handleTransferToRemoteLocal_stores` — with every call succeeding, the translated path
  holds the body the server answered, nothing else changes, and the response carries the
  MD5 of that body;
* `handleTransferToRemoteLocal_hash_failure` — when the file cannot be read back, the
  handler removes it and reports `Internal`;
* `transfer_dpu_keeps_fs` — routed to a DPU, a transfer never changes the local
  filesystem, whatever it reads and whatever fails;
* `transfer_dpu_skips_path_check` — the proxy does not check the path: a request for
  `/etc/passwd` that the local handler refuses before any I/O starts a download, opens
  the DPU connection and sends `Open` for `/etc/passwd` once routed to a DPU.
-/

namespace SonicGnmi.File

open SonicGnmi.Path

section Transfer

variable (md5 : Bytes → Bytes)

/-- `handleTransferToRemoteLocal(ctx, req)`, when the server at the URL answers with
`body`. The digest of `hash.CalculateMD5` is modelled from the spec: the MD5 of the file
read back. -/
def handleTransferToRemoteLocal (inContainer : Bool) (body : Bytes)
    (req : Option TransferToRemoteRequest) : Prog (Except Status HashType) :=
  match req with
  | none => .ret (.error ⟨.invalidArgument, "request cannot be nil"⟩)
  | some req =>
    match req.remoteDownload with
    | none => .ret (.error ⟨.invalidArgument, "remote_download cannot be nil"⟩)
    | some remoteDownload =>
      if req.localPath = [] then .ret (.error ⟨.invalidArgument, "local_path cannot be empty"⟩)
      else
        match validatePath req.localPath with
        | some err => .ret (.error ⟨.invalidArgument, "invalid local_path: " ++ err⟩)
        | none =>
          if remoteDownload.protocol ≠ .http then
            .ret (.error ⟨.unimplemented,
              "only HTTP protocol is supported, got protocol " ++ remoteDownload.protocol.name⟩)
          else if remoteDownload.path = [] then
            .ret (.error ⟨.invalidArgument, "remote download path (URL) cannot be empty"⟩)
          else
            let translatedPath := translatePathForContainer inContainer req.localPath
            .call (.download remoteDownload.path translatedPath body) fun
            | .error e => .ret (.error ⟨.internal, "download failed: " ++ e.text⟩)
            | .ok _ => .call (.readFile translatedPath) fun
            | .error e => .call (.remove translatedPath) fun _ =>
                .ret (.error ⟨.internal, "hash calculation failed: " ++ e.text⟩)
            | .ok data => .ret (.ok ⟨.md5, md5 data⟩)

/-- `HandleTransferToRemote(ctx, req)`. `md` is the incoming metadata when the context
carries any; `body` is what the server answers a local download and `reads` what the
source's reads return to the proxy. -/
def handleTransferToRemote (inContainer : Bool) (body : Bytes) (reads : List ReadResult)
    (md : Option Metadata) (req : Option TransferToRemoteRequest) :
    Prog (Except Status HashType) :=
  match md with
  | some md =>
    let targetType := (md "x-sonic-ss-target-type".toList).headD []
    let targetIndex := (md "x-sonic-ss-target-index".toList).headD []
    if targetType = "dpu".toList ∧ targetIndex ≠ [] then
      handleTransferToRemoteForDPUStreaming md5 reads req targetIndex
    else handleTransferToRemoteLocal md5 inContainer body req
  | none => handleTransferToRemoteLocal md5 inContainer body req

/-- Every call of the local handler names the translated path of a local path that
`validatePath` accepts, or no path at all. -/
theorem handleTransferToRemoteLocal_allCalls (inContainer : Bool) (body : Bytes)
    (req : Option TransferToRemoteRequest) :
    (handleTransferToRemoteLocal md5 inContainer body req).AllCalls fun c =>
      ∃ r, req = some r ∧ validatePath r.localPath = none ∧
        c.paths = [translatePathForContainer inContainer r.localPath] := by
  rcases req with _ | r
  · trivial
  rcases hrd : r.remoteDownload with _ | rd
  · simp only [handleTransferToRemoteLocal, hrd]; trivial
  rcases hv : validatePath r.localPath with _ | err <;>
    simp only [handleTransferToRemoteLocal, hrd, hv] <;> split_ifs <;> try trivial
  have hc : ∀ c : Call, c.paths = [translatePathForContainer inContainer r.localPath] →
      ∃ r', some r = some r' ∧ validatePath r'.localPath = none ∧
        c.paths = [translatePathForContainer inContainer r'.localPath] :=
    fun c h => ⟨r, rfl, hv, h⟩
  refine ⟨hc _ rfl, fun r1 => ?_⟩
  rcases r1 with _ | _
  · trivial
  refine ⟨hc _ rfl, fun r2 => ?_⟩
  rcases r2 with _ | _
  · exact ⟨hc _ rfl, fun _ => trivial⟩
  · trivial

/-- The program of the local handler on a request that passes every check: download to the
translated path, read it back, and remove it when the read fails. -/
theorem handleTransferToRemoteLocal_of_valid (inContainer : Bool) (body : Bytes)
    {r : TransferToRemoteRequest} {rd : RemoteDownload} (hrd : r.remoteDownload = some rd)
    (hl : r.localPath ≠ []) (hv : validatePath r.localPath = none) (hp : rd.protocol = .http)
    (hu : rd.path ≠ []) :
    handleTransferToRemoteLocal md5 inContainer body (some r) =
      .call (.download rd.path (translatePathForContainer inContainer r.localPath) body) fun
      | .error e => .ret (.error ⟨.internal, "download failed: " ++ e.text⟩)
      | .ok _ => .call (.readFile (translatePathForContainer inContainer r.localPath)) fun
      | .error e => .call (.remove (translatePathForContainer inContainer r.localPath)) fun _ =>
          .ret (.error ⟨.internal, "hash calculation failed: " ++ e.text⟩)
      | .ok data => .ret (.ok ⟨.md5, md5 data⟩) := by
  simp only [handleTransferToRemoteLocal, hrd, if_neg hl, hv, hp, ne_eq, not_true_eq_false,
    if_false, if_neg hu]

/-- **A local transfer stores the body and returns its digest.** For every request the
local handler accepts (a `remote_download` over HTTP with a URL, and a non-empty local
path that `validatePath` accepts), every body the server answers and every filesystem,
with every call succeeding: the response carries the MD5 of the body, the translated path
holds the body, and every other path is as it was. -/
theorem handleTransferToRemoteLocal_stores (inContainer : Bool) (body : Bytes)
    {r : TransferToRemoteRequest} {rd : RemoteDownload} (hrd : r.remoteDownload = some rd)
    (hl : r.localPath ≠ []) (hv : validatePath r.localPath = none) (hp : rd.protocol = .http)
    (hu : rd.path ≠ []) (s : Fs) :
    ((handleTransferToRemoteLocal md5 inContainer body (some r)).exec Fs.perform [] s).result =
        .ok ⟨.md5, md5 body⟩ ∧
      (((handleTransferToRemoteLocal md5 inContainer body (some r)).exec Fs.perform [] s).state
          (translatePathForContainer inContainer r.localPath)).map RegFile.data = some body ∧
      ∀ q ≠ translatePathForContainer inContainer r.localPath,
        ((handleTransferToRemoteLocal md5 inContainer body (some r)).exec Fs.perform [] s).state q =
          s q := by
  -- the download leaves the body at the translated path
  have hd := Fs.append_apply_self body
    (Fs.truncate_apply_self s (translatePathForContainer inContainer r.localPath))
  rw [handleTransferToRemoteLocal_of_valid md5 inContainer body hrd hl hv hp hu]
  refine ⟨?_, ?_, fun q hq => ?_⟩ <;> simp only [Prog.exec_call, List.headD_nil, List.tail_nil,
    Fs.perform, hd, Prog.Run.cons_result, Prog.Run.cons_state, Prog.exec_ret]
  · rfl
  · exact Option.map_some' _ _
  · rw [Fs.append_apply_ne _ _ hq, Fs.truncate_apply_ne _ hq]

/-- **A download whose digest cannot be computed is removed.** For every request the local
handler accepts, every body and every filesystem: when the download goes through, reading
the file back fails with any error, and the remove goes through, the handler returns
`Internal` with `hash calculation failed: ` and the read's error, and the filesystem is the
one before with nothing at the translated path. -/
theorem handleTransferToRemoteLocal_hash_failure (inContainer : Bool) (body : Bytes)
    {r : TransferToRemoteRequest} {rd : RemoteDownload} (hrd : r.remoteDownload = some rd)
    (hl : r.localPath ≠ []) (hv : validatePath r.localPath = none) (hp : rd.protocol = .http)
    (hu : rd.path ≠ []) (e : OsError) (n : Nat) (s : Fs) :
    ((handleTransferToRemoteLocal md5 inContainer body (some r)).exec Fs.perform
        [.ok, .fail e n] s).result = .error ⟨.internal, "hash calculation failed: " ++ e.text⟩ ∧
      ((handleTransferToRemoteLocal md5 inContainer body (some r)).exec Fs.perform
        [.ok, .fail e n] s).state = s.set (translatePathForContainer inContainer r.localPath) none := by
  have hd := Fs.append_apply_self body
    (Fs.truncate_apply_self s (translatePathForContainer inContainer r.localPath))
  rw [handleTransferToRemoteLocal_of_valid md5 inContainer body hrd hl hv hp hu]
  simp only [Prog.exec_call, List.headD_cons, List.tail_cons, List.headD_nil, List.tail_nil,
    Fs.perform, hd, Prog.Run.cons_result, Prog.Run.cons_state, Prog.exec_ret, true_and]
  funext q
  by_cases hq : q = translatePathForContainer inContainer r.localPath
  · simp [hq]
  · simp only [Fs.set_apply, if_neg hq, Fs.append_apply_ne _ _ hq, Fs.truncate_apply_ne _ hq]

end Transfer

/-- The request of the routing example: `/etc/passwd` from an HTTP URL. -/
def etcPasswdRequest : TransferToRemoteRequest :=
  ⟨"/etc/passwd".toList, some ⟨"http://host/f".toList, .http⟩⟩

/-- Metadata naming DPU `0` as the target. -/
def dpuMetadata : Metadata := fun k =>
  if k = "x-sonic-ss-target-type".toList then ["dpu".toList]
  else if k = "x-sonic-ss-target-index".toList then ["0".toList] else []

/-- **The DPU route skips the path check.** The local handler refuses `/etc/passwd`
before any call; routed to DPU `0`, the same request opens the HTTP source, gets the DPU
connection, opens the Put stream and sends `Open` for `/etc/passwd`. -/
theorem transfer_dpu_skips_path_check :
    handleTransferToRemoteLocal Md5.md5Sum false [] (some etcPasswdRequest) =
        .ret (.error ⟨.invalidArgument,
          "invalid local_path: path must be under /tmp/ or /var/tmp/, got: /etc/passwd"⟩) ∧
      (((handleTransferToRemote Md5.md5Sum false [] [] (some dpuMetadata)
        (some etcPasswdRequest)).exec Fs.perform [] fun _ => none).events.map
          Prog.Event.call).take 4 =
        [.openSource "http://host/f".toList, .getConn "0".toList, .openPut,
          .send (.openMsg (some ⟨"/etc/passwd".toList, 0o644⟩))] := by
  constructor
  · rfl
  · decide

/-- **A transfer routed to a DPU leaves the local disk alone.** For every request, every
metadata that names a DPU target (`x-sonic-ss-target-type` is `dpu` and
`x-sonic-ss-target-index` is not empty), every source, every outcome of every call and every
filesystem, `HandleTransferToRemote` leaves the local filesystem exactly as it was: the
proxy streams the source to the DPU without staging it, whether it succeeds or fails. -/
theorem transfer_dpu_keeps_fs (md5 : Bytes → Bytes) (inContainer : Bool) (body : Bytes)
    (reads : List ReadResult) {md : Metadata}
    (ht : (md "x-sonic-ss-target-type".toList).headD [] = "dpu".toList)
    (hi : (md "x-sonic-ss-target-index".toList).headD [] ≠ [])
    (req : Option TransferToRemoteRequest) (fs : List Fault) (s : Fs) :
    ((handleTransferToRemote md5 inContainer body reads (some md) req).exec Fs.perform fs
      s).state = s := by
  simp only [handleTransferToRemote, ht, hi, ne_eq, not_false_eq_true, and_self, if_true]
  exact proxy_keeps_fs md5 reads req _ fs s

/-- The routed request for `/etc/passwd` leaves an empty local filesystem empty. -/
theorem transfer_dpu_keeps_fs_etc_passwd :
    (dpuMetadata "x-sonic-ss-target-type".toList).headD [] = "dpu".toList ∧
      (dpuMetadata "x-sonic-ss-target-index".toList).headD [] ≠ [] ∧
      ((handleTransferToRemote Md5.md5Sum false [] [] (some dpuMetadata)
        (some etcPasswdRequest)).exec Fs.perform [] fun _ => none).state = fun _ => none :=
  ⟨by decide, by decide, transfer_dpu_keeps_fs Md5.md5Sum false [] [] (by decide) (by decide) _ _ _⟩

end SonicGnmi.File
