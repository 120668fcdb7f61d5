import SonicGnmi.File.Accept
import SonicGnmi.File.Remove
import SonicGnmi.Md5

/-!
# The handlers on a filesystem with links

`validatePath` checks the path string; the kernel acts on whatever the path leads to.
`LinkFs` gives each path a node, an inode or a symbolic link, and keeps the regular file
of each inode, so that two paths may be hard links of one file. `locate` is the kernel's
walk of a path: empty and `.` elements are skipped, `..` goes up, and an element that
holds a symbolic link is replaced by the link's target, up to `maxSymlinks` links.
`open` with `O_CREATE|O_TRUNC`, the writes through its descriptor, `chmod`, `stat`, reads
and downloads follow a link in the last element too and act on the inode they reach;
`rename` and `remove` act on the name itself (`Call.locate`, `LinkFs.apply`). A run
starts from whatever other local processes left below `/tmp`; none acts during the run.

* `handlers_write_through_links` — a symbolic link or a hard link planted at the temp
  path of an upload sends its truncate, writes and `chmod` to `/etc/passwd`, and a link
  planted on a directory makes a remove below `/tmp` unlink `/etc/passwd`.
-/

namespace SonicGnmi.File

open SonicGnmi.Path

/-- What a path holds once the filesystem has links: the inode of a regular file, or a
symbolic link with its target path. Directories are left implicit. -/
inductive Node where
  | file (ino : Nat)
  | link (target : List Char)
  deriving DecidableEq, Repr

/-- A filesystem with symbolic and hard links: what each absolute path holds, the regular
file of each inode, and the number the next new inode gets. -/
structure LinkFs where
  names : List Char → Option Node
  inodes : Nat → Option RegFile
  next : Nat

namespace LinkFs

/-- The filesystem with `p` holding `n`. -/
def setName (fs : LinkFs) (p : List Char) (n : Option Node) : LinkFs :=
  { fs with names := Function.update fs.names p n }

/-- The regular file at a location. -/
def file? (fs : LinkFs) (p : List Char) : Option RegFile :=
  match fs.names p with
  | some (.file i) => fs.inodes i
  | _ => none

/-- The file at a location changed by `g` through its inode, for every name it has. -/
def modify (fs : LinkFs) (p : List Char) (g : RegFile → RegFile) : LinkFs :=
  match fs.names p with
  | some (.file i) =>
    match fs.inodes i with
    | some f => { fs with inodes := Function.update fs.inodes i (some (g f)) }
    | none => fs
  | _ => fs

/-- `O_CREATE|O_TRUNC` at a location: an existing file is emptied and keeps its mode,
otherwise a new inode with mode `0644` is linked there. -/
def truncate (fs : LinkFs) (p : List Char) : LinkFs :=
  match fs.file? p with
  | some _ => fs.modify p fun f => { f with data := [] }
  | none =>
    ⟨Function.update fs.names p (some (.file fs.next)),
      Function.update fs.inodes fs.next (some ⟨[], 0o644⟩), fs.next + 1⟩

/-- Bytes written at the end of the file at a location. -/
def append (fs : LinkFs) (p : List Char) (d : Bytes) : LinkFs :=
  fs.modify p fun f => { f with data := f.data ++ d }

/-! ## The walk of a path -/

/-- The kernel's walk over the elements `todo` of a path from the directory `done` (its
elements from the root). An element that holds a symbolic link is replaced by the link's
target, read from `done` when relative, and the walk starts again from the root through
`restart`; the last element is followed only when `followLast`. -/
def walkFrom (fs : LinkFs) (followLast : Bool)
    (restart : List (List Char) → Option (List (List Char))) :
    List (List Char) → List (List Char) → Option (List (List Char))
  | done, [] => some done
  | done, e :: todo =>
    if e = [] ∨ e = ['.'] then walkFrom fs followLast restart done todo
    else if e = ['.', '.'] then walkFrom fs followLast restart done.dropLast todo
    else match fs.names (render (done ++ [e])) with
      | some (.link t) =>
        if todo = [] ∧ followLast = false then some (done ++ [e])
        else restart ((if t.head? = some '/' then [] else done) ++ elements t ++ todo)
      | _ => walkFrom fs followLast restart (done ++ [e]) todo

/-- The walk from the root, following at most `n` more links (`ELOOP` past that). -/
def walk (fs : LinkFs) (followLast : Bool) : Nat → List (List Char) → Option (List (List Char))
  | 0 => walkFrom fs followLast (fun _ => none) []
  | n + 1 => walkFrom fs followLast (walk fs followLast n) []

/-- `MAXSYMLINKS` of Linux. -/
def maxSymlinks : Nat := 40

/-- Where a path leads. -/
def locate (fs : LinkFs) (followLast : Bool) (p : List Char) : Option (List Char) :=
  (walk fs followLast maxSymlinks (elements p)).map render

end LinkFs

/-- The call on the objects its paths lead to in `fs`: `open`, the writes through its
descriptor, `chmod`, `stat`, reads and downloads follow a link in the last element,
`rename` and `remove` do not. `none` when a walk fails. -/
def Call.locate (fs : LinkFs) : Call → Option Call
  | .openFile p => (fs.locate true p).map .openFile
  | .write p d => (fs.locate true p).map fun q => .write q d
  | .chmod p m => (fs.locate true p).map fun q => .chmod q m
  | .stat p => (fs.locate true p).map .stat
  | .readFile p => (fs.locate true p).map .readFile
  | .download u p b => (fs.locate true p).map fun q => .download u q b
  | .remove p => (fs.locate false p).map .remove
  | .rename src dst => (fs.locate false src).bind fun s => (fs.locate false dst).map (.rename s)
  | c => some c

namespace LinkFs

/-- The reply and effect of a call on the locations it names, given the outcome `flt`:
`Fs.perform` on inodes, where `rename` and `remove` move or unlink the name itself. -/
def apply (c : Call) (flt : Fault) (fs : LinkFs) : Reply × LinkFs :=
  match c, flt with
  | .stat p, _ => (if (fs.file? p).isSome then .ok [] else .error (notExistError "stat" p), fs)
  | .write p d, .fail e n => (.error e, fs.append p (d.take n))
  | .download _ p b, .fail e n => (.error e, (fs.truncate p).append p (b.take n))
  | _, .fail e _ => (.error e, fs)
  | .openFile p, .ok => (.ok [], fs.truncate p)
  | .write p d, .ok => (.ok [], fs.append p d)
  | .download _ p b, .ok => (.ok [], (fs.truncate p).append p b)
  | .chmod p m, .ok =>
    match fs.file? p with
    | some _ => (.ok [], fs.modify p fun f => { f with mode := syscallMode m })
    | none => (.error (notExistError "chmod" p), fs)
  | .rename src dst, .ok =>
    match fs.names src with
    | some n => (.ok [], (fs.setName src none).setName dst (some n))
    | none => (.error (notExistError "rename" src), fs)
  | .remove p, .ok =>
    match fs.names p with
    | some _ => (.ok [], fs.setName p none)
    | none => (.error (notExistError "remove" p), fs)
  | .readFile p, .ok =>
    match fs.file? p with
    | some f => (.ok f.data, fs)
    | none => (.error (notExistError "open" p), fs)
  | .close _, .ok | .sendAndClose, .ok | .openSource _, .ok | .getConn _, .ok | .openPut, .ok
  | .send _, .ok | .deadline, .ok | .closeAndRecv, .ok => (.ok [], fs)

/-- The reply and effect of a call: on the locations its paths lead to, or `ELOOP`. -/
def perform (c : Call) (flt : Fault) (fs : LinkFs) : Reply × LinkFs :=
  match c.locate fs with
  | some c' => apply c' flt fs
  | none => (.error ⟨.other, "too many levels of symbolic links"⟩, fs)

end LinkFs

/-! ## Links planted below `/tmp` -/

/-- **Links planted below `/tmp` by another local process.** With `/etc/passwd` holding
`root` as inode 0: when `/tmp/x.tmp` is a symbolic link to `/etc/passwd`, or a hard link
of it, an upload of `pwn` to `/tmp/x` succeeds and leaves `pwn` in `/etc/passwd`: the open
truncates it, the write fills it and the `chmod` sets its mode. With `/tmp/d` a link to
`/etc`, removing `/tmp/d/passwd` succeeds and unlinks `/etc/passwd`. -/
theorem handlers_write_through_links :
    let passwd : Nat → Option RegFile := fun i =>
      if i = 0 then some ⟨[114, 111, 111, 116], 0o644⟩ else none
    let put := fun names : List Char → Option Node =>
      (handlePut Md5.md5Sum false [.ok (.openMsg (some ⟨"/tmp/x".toList, 0o644⟩)),
        .ok (.contents (some [112, 119, 110])),
        .ok (.hashMsg (some ⟨.md5, Md5.md5Sum [112, 119, 110]⟩))]).exec LinkFs.perform []
        ⟨names, passwd, 1⟩
    let symlinked : List Char → Option Node := fun p =>
      if p = "/tmp/x.tmp".toList then some (.link "/etc/passwd".toList)
      else if p = "/etc/passwd".toList then some (.file 0) else none
    let hardlinked : List Char → Option Node := fun p =>
      if p = "/tmp/x.tmp".toList ∨ p = "/etc/passwd".toList then some (.file 0) else none
    let remove := (handleFileRemove false (some ⟨"/tmp/d/passwd".toList⟩)).exec LinkFs.perform []
      ⟨fun p => if p = "/tmp/d".toList then some (.link "/etc".toList)
        else if p = "/etc/passwd".toList then some (.file 0) else none, passwd, 1⟩
    (put symlinked).result = .ok () ∧
      (put symlinked).state.file? "/etc/passwd".toList = some ⟨[112, 119, 110], 0o644⟩ ∧
      (put hardlinked).result = .ok () ∧
      (put hardlinked).state.file? "/etc/passwd".toList = some ⟨[112, 119, 110], 0o644⟩ ∧
      remove.result = .ok () ∧ remove.state.file? "/etc/passwd".toList = none := by
  simp only [handlePut_one_chunk]
  exact ⟨rfl, rfl, rfl, rfl, rfl, rfl⟩

end SonicGnmi.File
