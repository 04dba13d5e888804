import Libsbox.Lib.CMemory
import Libsbox.Lib.Pile
import Mathlib.Data.List.DropRight
import Mathlib.Data.List.Infix
import Mathlib.Logic.Function.Basic

/-!
# libsbox — paths and the mount namespace of a container

What the container asks of the kernel: the resolution of a path, `mkdir`,
`open` with `O_CREAT | O_TRUNC`, `mount(2)` and `umount(2)`, over file systems
whose nodes are directories, regular files, symbolic links and others. The
contents of files are not modelled; a truncation is in the log.

A `Location` is where a path leads: the names from the root of the namespace
without `.`, `..` and links. Each mount covers the locations below its target,
and a newer mount hides what the older ones have there, so the mount at a
location is the newest whose target is a prefix of it.
-/

namespace Libsbox

open CMemory

-- ---------------------------------------------------------------------------
-- std::filesystem::path
-- ---------------------------------------------------------------------------

/-- `fs::path`, by what stands between its slashes. Where two of them follow each other,
and behind a trailing one, there is an empty name. -/
structure FsPath where
  absolute : Bool
  names : List Str
  deriving DecidableEq

namespace FsPath

def ofStr (s : Str) : FsPath :=
  match s with
  | [] => ⟨false, []⟩
  | 47 :: s => ⟨true, s.splitOn 47⟩ -- '/'
  | s => ⟨false, s.splitOn 47⟩

def toStr (p : FsPath) : Str :=
  (if p.absolute then lit "/" else []) ++ (lit "/").intercalate p.names

/-- No character of a path is lost. -/
theorem toStr_ofStr (s : Str) : (ofStr s).toStr = s := by
  have hSlash : lit "/" = [47] := by decide
  unfold ofStr
  split
  · rfl
  · rw [toStr, hSlash, List.intercalate_splitOn]
    rfl
  · rw [toStr, hSlash, List.intercalate_splitOn]
    rfl

/-- The path from its first name on. -/
def relativePath (p : FsPath) : FsPath := ⟨false, p.names.dropWhile List.isEmpty⟩

theorem relativePath_names {p : FsPath} (h : [] ∉ p.names) : p.relativePath.names = p.names := by
  show p.names.dropWhile List.isEmpty = p.names
  cases hNames : p.names with
  | nil => rfl
  | cons name names =>
    have hName : name ≠ [] := fun hEmpty => h (hNames ▸ hEmpty ▸ List.mem_cons_self)
    rw [List.dropWhile_cons_of_neg (by simpa using hName)]

def parentPath (p : FsPath) : FsPath := { p with names := p.names.dropLast }

/-- The path up to its last name. `parent_path` leaves no slash at the end. -/
def trimmed (p : FsPath) : FsPath := { p with names := p.names.rdropWhile List.isEmpty }

/-- `operator/`. -/
def append (p q : FsPath) : FsPath :=
  if q.absolute then q
  else
    let names := if p.names.getLast? = some [] then p.names.dropLast else p.names
    { p with names := names ++ if q.names.isEmpty && !p.names.isEmpty then [[]] else q.names }

instance : Div FsPath := ⟨append⟩

end FsPath

-- ---------------------------------------------------------------------------
-- The mount namespace
-- ---------------------------------------------------------------------------

/-- The tmpfs of the box, its proc, and the file systems of the host. -/
inductive FsId where
  | box
  | proc
  | host (n : Nat)
  deriving DecidableEq

inductive Node where
  | dir
  | file
  | symlink (target : FsPath)
  | other
  deriving DecidableEq

/-- A node of a file system, by the names that lead to it there. -/
structure Place where
  fs : FsId
  path : List Str
  deriving DecidableEq

abbrev Location := List Str

/-- The options of one mount. -/
structure MountOptions where
  ro : Bool := false
  nosuid : Bool := false
  nodev : Bool := false
  noexec : Bool := false
  deriving DecidableEq

/-- `root` is the node of `fs` that the mount shows at `target`. -/
structure Mount where
  target : Location
  fs : FsId
  root : List Str
  options : MountOptions
  deriving DecidableEq

inductive EventKind where
  | mkdir
  | create
  | truncate
  deriving DecidableEq

/-- What was done to a file system. -/
structure Event where
  kind : EventKind
  place : Place
  deriving DecidableEq

/-- `mounts` is newest first, `log` oldest first. -/
structure Kernel where
  nodes : Place → Option Node
  mounts : List Mount
  log : List Event

inductive Errno where
  | noEntry
  | notDir
  | isDir
  | exist
  | loop
  | busy
  | inval
  | roFs
  | noDev
  deriving DecidableEq

/-- `strerror`. -/
def Errno.text : Errno → Str
  | .noEntry => lit "No such file or directory"
  | .notDir => lit "Not a directory"
  | .isDir => lit "Is a directory"
  | .exist => lit "File exists"
  | .loop => lit "Too many levels of symbolic links"
  | .busy => lit "Device or resource busy"
  | .inval => lit "Invalid argument"
  | .roFs => lit "Read-only file system"
  | .noDev => lit "No such device"

/-- Two locations of which one is the other or lies above it. -/
def Comparable (a b : Location) : Prop := a <+: b ∨ b <+: a

instance : DecidableRel Comparable := fun _ _ => inferInstanceAs (Decidable (_ ∨ _))

namespace Kernel

variable (k : Kernel)

/-- The mount a location is in. -/
def cover (c : Location) : Option Mount := k.mounts.find? fun m => m.target.isPrefixOf c

def place (c : Location) : Option Place :=
  (k.cover c).map fun m => ⟨m.fs, m.root ++ c.drop m.target.length⟩

def node (c : Location) : Option Node := (k.place c).bind k.nodes

-- ---------------------------------------------------------------------------
-- Path resolution
-- ---------------------------------------------------------------------------

/-- Where a path leads: to a node; to a name that does not exist, with the names
behind it; to a link whose target does not exist; nowhere. -/
inductive Lookup where
  | found (c : Location)
  | absent (c : Location) (rest : List Str)
  | dangling (c : Location)
  | fail (e : Errno)
  deriving DecidableEq

/-- One name below `c`; `follow` resolves the target of a link. -/
def stepWith (follow : Location → List Str → Lookup) (c : Location) (name : Str) : Lookup :=
  if k.node c ≠ some .dir then .fail .notDir
  else if name = [] ∨ name = lit "." then .found c
  else if name = lit ".." then .found c.dropLast
  else
    match k.node (c ++ [name]) with
    | none => .absent (c ++ [name]) []
    | some (.symlink target) =>
      match follow (if target.absolute then [] else c) target.names with
      | .absent c' [] => .dangling c'
      | .absent _ _ => .fail .noEntry
      | l => l
    | some _ => .found (c ++ [name])

def walkWith (follow : Location → List Str → Lookup) : Location → List Str → Lookup
  | c, [] => .found c
  | c, name :: rest =>
    match k.stepWith follow c name with
    | .found c' => walkWith follow c' rest
    | .absent c' _ => .absent c' rest
    | .dangling c' => if rest = [] then .dangling c' else .fail .noEntry
    | .fail e => .fail e

/-- Resolution from `c` on. The kernel gives up after 40 links; here they are
counted along a chain of links. -/
def walk : Nat → Location → List Str → Lookup
  | 0 => k.walkWith fun _ _ => .fail .loop
  | links + 1 => k.walkWith (walk links)

def step (c : Location) (name : Str) : Lookup := k.stepWith (k.walk 39) c name

def lookup (path : FsPath) : Lookup := k.walk 40 [] path.names

def Lookup.errno : Lookup → Errno
  | .fail e => e
  | _ => .noEntry

/-- `stat`. -/
def status (path : FsPath) : Option Node :=
  match k.lookup path with
  | .found c => k.node c
  | _ => none

-- ---------------------------------------------------------------------------
-- Directories and files
-- ---------------------------------------------------------------------------

/-- A new node at `c`, where there is none. Nothing can be made on a read-only
mount or in proc. -/
def create (kind : EventKind) (node : Node) (c : Location) : Except Errno Kernel :=
  match k.cover c with
  | none => .error .noEntry
  | some m =>
    if m.options.ro then .error .roFs
    else if m.fs = .proc then .error .noEntry
    else
      let p : Place := ⟨m.fs, m.root ++ c.drop m.target.length⟩
      .ok { k with nodes := Function.update k.nodes p (some node), log := k.log ++ [⟨kind, p⟩] }

def mkdir (c : Location) : Except Errno Kernel := k.create .mkdir .dir c

/-- `fs::create_directories` from `c` on: every name that is missing is made. -/
def mkdirs (k : Kernel) (c : Location) : List Str → Kernel × Option Errno
  | [] => (k, if k.node c = some .dir then none else some .notDir)
  | name :: rest =>
    match k.step c name with
    | .found c' => mkdirs k c' rest
    | .absent c' _ =>
      match k.mkdir c' with
      | .ok k' => mkdirs k' c' rest
      | .error e => (k, some e)
    | .dangling _ => (k, some .exist)
    | .fail e => (k, some e)

def createDirectories (path : FsPath) : Kernel × Option Errno := k.mkdirs [] path.names

/-- `open(path, O_CREAT | O_WRONLY | O_TRUNC)` and `close`. -/
def openTruncate (path : FsPath) : Except Errno Kernel :=
  match k.lookup path with
  | .found c =>
    match k.cover c, k.node c with
    | some m, some .file =>
      if m.options.ro then .error .roFs
      else
        .ok { k with
          log := k.log ++ [⟨.truncate, ⟨m.fs, m.root ++ c.drop m.target.length⟩⟩] }
    | _, some .dir => .error .isDir
    | _, _ => .ok k
  | .absent c [] => k.create .create .file c
  | .dangling c => k.create .create .file c
  | .absent _ _ => .error .noEntry
  | .fail e => .error e

/-- `fs::remove_all` on everything `fs::directory_iterator` finds in `path`. -/
def clearDirectory (path : FsPath) : Except Errno Kernel :=
  match k.lookup path with
  | .found c =>
    match k.cover c with
    | none => .error .noEntry
    | some m =>
      let p := m.root ++ c.drop m.target.length
      if k.node c ≠ some .dir then .error .notDir
      else if m.options.ro then .error .roFs
      else if (k.mounts.takeWhile fun m => !m.target.isPrefixOf c).any fun m =>
          c.isPrefixOf m.target then .error .busy
      else
        .ok { k with
          nodes := fun q => if q.fs = m.fs ∧ p <+: q.path ∧ p ≠ q.path then none else k.nodes q }
  | l => .error l.errno

-- ---------------------------------------------------------------------------
-- mount(2) and umount(2)
-- ---------------------------------------------------------------------------

structure MountFlags where
  msRdonly : Bool := false
  msNosuid : Bool := false
  msNodev : Bool := false
  msNoexec : Bool := false
  msRemount : Bool := false
  msBind : Bool := false
  msRec : Bool := false
  msPrivate : Bool := false
  deriving DecidableEq

def MountFlags.options (flags : MountFlags) : MountOptions where
  ro := flags.msRdonly
  nosuid := flags.msNosuid
  nodev := flags.msNodev
  noexec := flags.msNoexec

/-- The options of the mount at `t` change; nothing else does. -/
def setOptions (options : MountOptions) (t : Location) : List Mount → Option (List Mount)
  | [] => none
  | m :: mounts =>
    if m.target = t then some ({ m with options } :: mounts)
    else if m.target.isPrefixOf t then none
    else (setOptions options t mounts).map (m :: ·)

/-- The mounts attached below `s`, moved to `t`. -/
def submounts (s t : Location) : List Mount :=
  ((k.mounts.takeWhile fun m => !m.target.isPrefixOf s).filter fun m => s.isPrefixOf m.target).map
    fun m => { m with target := t ++ m.target.drop s.length }

/-- `MS_BIND`: what `s` shows appears at `t`, with the options of its mount. -/
def bindMount (s t : Location) (recursive : Bool) : Except Errno Kernel :=
  match k.cover s with
  | none => .error .noEntry
  | some m =>
    if (k.node s = some .dir) ≠ (k.node t = some .dir) then .error .notDir
    else
      let top : Mount := { m with target := t, root := m.root ++ s.drop m.target.length }
      let copies := if recursive then k.submounts s t else []
      .ok { k with mounts := copies ++ top :: k.mounts }

/-- A new tmpfs is empty. -/
def newMount (t : Location) (fstype : Str) (options : MountOptions) : Except Errno Kernel :=
  if k.node t ≠ some .dir then .error .notDir
  else if fstype = lit "tmpfs" then
    .ok { k with
      nodes := fun p => if p.fs = .box then if p.path = [] then some .dir else none else k.nodes p
      mounts := ⟨t, .box, [], options⟩ :: k.mounts }
  else if fstype = lit "proc" then
    .ok { k with
      nodes := Function.update k.nodes ⟨.proc, []⟩ (some .dir)
      mounts := ⟨t, .proc, [], options⟩ :: k.mounts }
  else .error .noDev

/-- `mount(2)`: a remount changes the options, a bind takes those of its source,
a new file system takes those of the call. -/
def mount (source : FsPath) (target : FsPath) (fstype : Str) (flags : MountFlags) :
    Except Errno Kernel :=
  match k.lookup target with
  | .found t =>
    if flags.msRemount then
      match setOptions flags.options t k.mounts with
      | some mounts => .ok { k with mounts }
      | none => .error .inval
    else if flags.msBind then
      match k.lookup source with
      | .found s => k.bindMount s t flags.msRec
      | l => .error l.errno
    else if flags.msPrivate then .ok k
    else k.newMount t fstype flags.options
  | l => .error l.errno

/-- `umount(2)`: the mount at the path goes, unless there is none or another one
is attached below it. -/
def umount (path : FsPath) : Except Errno Kernel :=
  match k.lookup path with
  | .found c =>
    match Pile.pop Mount.target Comparable c k.mounts with
    | some mounts => .ok { k with mounts }
    | none => .error (if (k.cover c).any (·.target = c) then .busy else .inval)
  | l => .error l.errno

end Kernel

end Libsbox
