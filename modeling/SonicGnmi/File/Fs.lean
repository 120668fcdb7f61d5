import SonicGnmi.File.Prog

/-!
# The filesystem as a map from paths to regular files

`Fs.perform` gives each call its effect and reply on a filesystem in which every path
holds a regular file or nothing. The descriptor a handler writes through is named by
the path it was opened on. A failed call changes nothing, except that a failed write
may have written a prefix of its bytes. `os.Stat` always reports what is there.
`os.Chmod` sets the bits `syscallMode` computes from the Go `os.FileMode`, as the
standard library does, and not the raw number.

* `perform_frame` — a call changes no path it does not name.
-/

namespace SonicGnmi.File

/-- A regular file: its bytes and its mode bits. -/
structure RegFile where
  data : Bytes
  mode : Nat
  deriving DecidableEq, Repr

/-- The filesystem: what each path holds. -/
abbrev Fs := List Char → Option RegFile

/-- `syscallMode(os.FileMode(m))`, the bits `os.Chmod` passes to chmod(2): the nine
permission bits of `m`, and the Unix setuid, setgid and sticky bits for Go's own flags
`ModeSetuid` (bit 23), `ModeSetgid` (bit 22) and `ModeSticky` (bit 20). -/
def syscallMode (m : UInt32) : Nat :=
  m.toNat % 0o1000 + (if m.toNat.testBit 23 then 0o4000 else 0) +
    (if m.toNat.testBit 22 then 0o2000 else 0) + (if m.toNat.testBit 20 then 0o1000 else 0)

/-- The reply a call that touches nothing gets for an outcome. -/
def Fault.reply : Fault → Reply
  | .ok => .ok []
  | .fail e _ => .error e

/-- The bytes of `d` a write with this outcome gets through. -/
def Fault.written (d : Bytes) : Fault → Bytes
  | .ok => d
  | .fail _ n => d.take n

/-- The `*os.PathError` of a call on a missing path. -/
def notExistError (op : String) (p : List Char) : OsError :=
  ⟨.notExist, op ++ " " ++ String.mk p ++ ": no such file or directory"⟩

/-- The `*os.PathError` of a call on a path the system refuses with `EACCES`. -/
def permissionError (op : String) (p : List Char) : OsError :=
  ⟨.permission, op ++ " " ++ String.mk p ++ ": permission denied"⟩

namespace Fs

/-- The filesystem with `p` holding `f`. -/
def set (fs : Fs) (p : List Char) (f : Option RegFile) : Fs := Function.update fs p f

/-- Bytes written through the descriptor opened on `p`, at the end of its file. -/
def append (fs : Fs) (p : List Char) (d : Bytes) : Fs :=
  match fs p with
  | some f => fs.set p (some { f with data := f.data ++ d })
  | none => fs

/-- `os.OpenFile` with `O_CREATE|O_TRUNC`: an existing file is emptied and keeps its
mode, a new one gets `0644`. -/
def truncate (fs : Fs) (p : List Char) : Fs :=
  fs.set p (some (match fs p with
    | some f => { f with data := [] }
    | none => ⟨[], 0o644⟩))

/-- The reply and effect of one call given the outcome `flt`. -/
def perform (c : Call) (flt : Fault) (fs : Fs) : Reply × Fs :=
  match c, flt with
  | .stat p, _ => (if (fs p).isSome then .ok [] else .error (notExistError "stat" p), fs)
  | .write p d, .fail e n => (.error e, fs.append p (d.take n))
  | .download _ p b, .fail e n => (.error e, (fs.truncate p).append p (b.take n))
  | _, .fail e _ => (.error e, fs)
  | .openFile p, .ok => (.ok [], fs.truncate p)
  | .write p d, .ok => (.ok [], fs.append p d)
  | .download _ p b, .ok => (.ok [], (fs.truncate p).append p b)
  | .chmod p m, .ok =>
    match fs p with
    | some f => (.ok [], fs.set p (some { f with mode := syscallMode m }))
    | none => (.error (notExistError "chmod" p), fs)
  | .rename src dst, .ok =>
    match fs src with
    | some f => (.ok [], (fs.set src none).set dst (some f))
    | none => (.error (notExistError "rename" src), fs)
  | .remove p, .ok =>
    match fs p with
    | some _ => (.ok [], fs.set p none)
    | none => (.error (notExistError "remove" p), fs)
  | .readFile p, .ok =>
    match fs p with
    | some f => (.ok f.data, fs)
    | none => (.error (notExistError "open" p), fs)
  | .close _, .ok | .sendAndClose, .ok | .openSource _, .ok | .getConn _, .ok | .openPut, .ok
  | .send _, .ok | .deadline, .ok | .closeAndRecv, .ok => (.ok [], fs)

@[simp] theorem set_apply (fs : Fs) (p q : List Char) (f : Option RegFile) :
    fs.set p f q = if q = p then f else fs q := by
  simp [set, Function.update_apply]

theorem append_apply_ne (fs : Fs) {p q : List Char} (d : Bytes) (h : q ≠ p) :
    fs.append p d q = fs q := by
  unfold append
  cases fs p <;> simp [h]

theorem truncate_apply_ne (fs : Fs) {p q : List Char} (h : q ≠ p) :
    fs.truncate p q = fs q := by
  simp [truncate, h]

theorem append_apply_self {fs : Fs} {p : List Char} {w : Bytes} {m : Nat} (d : Bytes)
    (h : fs p = some ⟨w, m⟩) : fs.append p d p = some ⟨w ++ d, m⟩ := by
  simp [append, h]

/-- A truncated path holds an empty file with the mode it had, or `0644`. -/
theorem truncate_apply_self (fs : Fs) (p : List Char) :
    fs.truncate p p = some ⟨[], ((fs p).map RegFile.mode).getD 0o644⟩ := by
  simp only [truncate, set_apply, if_true]
  cases fs p <;> rfl

@[simp] theorem perform_close (p : List Char) (f : Fault) (fs : Fs) :
    perform (.close p) f fs = (f.reply, fs) := by
  cases f <;> rfl

/-- A call that names no path touches no file. -/
theorem perform_of_paths_nil (c : Call) (hc : c.paths = []) (f : Fault) (fs : Fs) :
    perform c f fs = (f.reply, fs) := by
  cases c <;> cases f <;> simp_all [Call.paths, perform, Fault.reply]

@[simp] theorem perform_sendAndClose (f : Fault) (fs : Fs) :
    perform .sendAndClose f fs = (f.reply, fs) := perform_of_paths_nil .sendAndClose rfl f fs

@[simp] theorem perform_write (p : List Char) (d : Bytes) (f : Fault) (fs : Fs) :
    perform (.write p d) f fs = (f.reply, fs.append p (f.written d)) := by
  cases f <;> rfl

@[simp] theorem perform_stat (p : List Char) (f : Fault) (fs : Fs) :
    perform (.stat p) f fs =
      (if (fs p).isSome then .ok [] else .error (notExistError "stat" p), fs) := by
  cases f <;> rfl

@[simp] theorem perform_fail (c : Call) (e : OsError) (n : Nat) (fs : Fs)
    (hw : ∀ p d, c ≠ .write p d) (hs : ∀ p, c ≠ .stat p) (hd : ∀ u p b, c ≠ .download u p b) :
    perform c (.fail e n) fs = (.error e, fs) := by
  cases c <;> simp_all [perform]

@[simp] theorem perform_openFile_ok (p : List Char) (fs : Fs) :
    perform (.openFile p) .ok fs = (.ok [], fs.truncate p) := rfl

theorem perform_chmod_ok {p : List Char} {fs : Fs} {f : RegFile} (m : UInt32)
    (h : fs p = some f) :
    perform (.chmod p m) .ok fs = (.ok [], fs.set p (some { f with mode := syscallMode m })) := by
  simp [perform, h]

theorem perform_rename_ok {src dst : List Char} {fs : Fs} {f : RegFile}
    (h : fs src = some f) :
    perform (.rename src dst) .ok fs = (.ok [], (fs.set src none).set dst (some f)) := by
  simp [perform, h]

theorem perform_remove_ok {p : List Char} {fs : Fs} {f : RegFile} (h : fs p = some f) :
    perform (.remove p) .ok fs = (.ok [], fs.set p none) := by
  simp [perform, h]

/-- A rename that reports success returns no bytes. -/
theorem perform_rename_reply {src dst : List Char} {f : Fault} {fs : Fs} {b : Bytes}
    (h : (perform (.rename src dst) f fs).1 = .ok b) : b = [] := by
  cases f with
  | fail e n => simp [perform] at h
  | ok =>
    simp only [perform] at h
    split at h <;> simp_all

/-- A rename that does not report success changes nothing. -/
theorem perform_rename_of_reply_ne {src dst : List Char} {f : Fault} {fs : Fs}
    (h : (perform (.rename src dst) f fs).1 ≠ .ok []) : (perform (.rename src dst) f fs).2 = fs := by
  cases f with
  | fail e n => rfl
  | ok =>
    simp only [perform] at h ⊢
    split <;> simp_all

/-- A call changes no path it does not name. -/
theorem perform_frame (c : Call) (flt : Fault) (fs : Fs) {q : List Char}
    (hq : q ∉ c.paths) : (perform c flt fs).2 q = fs q := by
  cases c <;> cases flt <;>
    simp only [Call.paths, List.mem_cons, List.mem_singleton, List.not_mem_nil, or_false,
      not_or] at hq <;>
    simp only [perform] <;> (try split) <;>
    simp_all [append_apply_ne, truncate_apply_ne]

end Fs

end SonicGnmi.File
