import Libsbox.Model.Halt
import Libsbox.Model.Kernel
import Libsbox.Model.Task

/-!
# libsbox — binds and the root of a box

`Bind` (bind.cpp) and the parts of `Container` that build, use and clean the
tree below `root_` (container.cpp). A call that dies leaves the kernel as far as
it got, so every call returns the kernel together with its result.
-/

namespace Libsbox

open CMemory

-- ---------------------------------------------------------------------------
-- Bind
-- ---------------------------------------------------------------------------

namespace Rules

def rw : Int32 := 1
def dev : Int32 := 2
def noexec : Int32 := 4
def suid : Int32 := 8
def opt : Int32 := 16

end Rules

/-- `Bind`. -/
structure Bind where
  inside : FsPath
  outside : FsPath
  flags : Int32
  mounted : Bool := false
  fromPath : FsPath := ⟨false, []⟩
  toPath : FsPath := ⟨false, []⟩

namespace Bind

/-- The constructor from `BindData`. -/
def ofRule (rule : BindRule) : Bind where
  inside := FsPath.ofStr (cstr rule.inside)
  outside := FsPath.ofStr (cstr rule.outside)
  flags := rule.flags

def hasFlag (b : Bind) (rule : Int32) : Bool := b.flags &&& rule != 0

/-- `Bind::set_paths`. -/
def setPaths (rootDir workDir : FsPath) (b : Bind) : Except Halt Bind :=
  if !b.outside.absolute then
    .error (.die (b.outside.toStr ++ lit " is not absolute path"))
  else
    .ok { b with
      fromPath := b.outside
      toPath := if b.inside.absolute then rootDir / b.inside.relativePath else workDir / b.inside }

def mountFlags (b : Bind) : Kernel.MountFlags where
  msBind := true
  msRec := true
  msRdonly := !b.hasFlag Rules.rw
  msNodev := !b.hasFlag Rules.dev
  msNoexec := b.hasFlag Rules.noexec
  msNosuid := !b.hasFlag Rules.suid

/-- The `::mount` call of `Bind::mount`. -/
def callMount (b : Bind) (k : Kernel) : Kernel × Except Halt Bind :=
  match k.mount b.fromPath b.toPath (lit "none") b.mountFlags with
  | .error e => (k, .error (.die (lit "Cannot mount " ++ b.toPath.toStr ++ lit ": " ++ e.text)))
  | .ok k => (k, .ok { b with mounted := true })

/-- `Bind::mount` of a directory. -/
def mountDirectory (b : Bind) (k : Kernel) : Kernel × Except Halt Bind :=
  match k.createDirectories b.toPath with
  | (k, some e) =>
    (k, .error (.die (lit "Cannot create dir " ++ b.toPath.toStr ++ lit " for mount point: " ++
      e.text)))
  | (k, none) => b.callMount k

/-- `Bind::mount` of a regular file. -/
def mountFile (b : Bind) (k : Kernel) : Kernel × Except Halt Bind :=
  match k.createDirectories b.toPath.parentPath with
  | (k, some e) =>
    (k, .error (.die (lit "Cannot create dir " ++ b.fromPath.parentPath.trimmed.toStr ++ lit ": " ++
      e.text)))
  | (k, none) =>
    match k.openTruncate b.toPath with
    | .error e =>
      (k, .error (.die (lit "Cannot create file " ++ b.toPath.toStr ++ lit " for mount point: " ++
        e.text)))
    | .ok k => b.callMount k

/-- `Bind::mount`. -/
def mount (rootDir workDir : FsPath) (b : Bind) (k : Kernel) : Kernel × Except Halt Bind :=
  match b.setPaths rootDir workDir with
  | .error e => (k, .error e)
  | .ok b =>
    match k.status b.fromPath with
    | none =>
      if b.hasFlag Rules.opt then (k, .ok b)
      else (k, .error (.die (b.fromPath.toStr ++ lit " not exists")))
    | some .dir => b.mountDirectory k
    | some .file => b.mountFile k
    | some _ => (k, .error (.die (b.toPath.toStr ++ lit " is not directory nor regular file")))

/-- The loop of `Container::serve` over the binds of a task, and the one of
`apply_standard_rules`. -/
def mountAll (rootDir workDir : FsPath) : List Bind → Kernel → Kernel × Except Halt (List Bind)
  | [], k => (k, .ok [])
  | b :: binds, k =>
    match b.mount rootDir workDir k with
    | (k, .error e) => (k, .error e)
    | (k, .ok b) =>
      match mountAll rootDir workDir binds k with
      | (k, .error e) => (k, .error e)
      | (k, .ok binds) => (k, .ok (b :: binds))

/-- `Bind::umount_if_mounted`. -/
def umountIfMounted (b : Bind) (k : Kernel) : Except Halt Kernel :=
  if !b.mounted then .ok k
  else
    match k.umount b.toPath with
    | .ok k => .ok k
    | .error e => .error (.die (lit "Cannot umount " ++ b.toPath.toStr ++ lit ": " ++ e.text))

/-- The loop over the binds after the run. -/
def umountAll (binds : List Bind) (k : Kernel) : Except Halt Kernel :=
  binds.foldlM (fun k b => b.umountIfMounted k) k

def standardBinds : List Bind := [
  { inside := FsPath.ofStr (lit "/lib"), outside := FsPath.ofStr (lit "/lib"), flags := 0 },
  { inside := FsPath.ofStr (lit "/lib64"), outside := FsPath.ofStr (lit "/lib64")
    flags := Rules.opt },
  { inside := FsPath.ofStr (lit "/bin"), outside := FsPath.ofStr (lit "/bin"), flags := 0 },
  { inside := FsPath.ofStr (lit "/dev"), outside := FsPath.ofStr (lit "/dev"), flags := Rules.dev },
  { inside := FsPath.ofStr (lit "/usr"), outside := FsPath.ofStr (lit "/usr"), flags := 0 }]

/-- `Bind::apply_standard_rules`. -/
def applyStandardRules (rootDir workDir : FsPath) (k : Kernel) : Kernel × Except Halt Unit :=
  let (k, result) := mountAll rootDir workDir standardBinds k
  (k, result.map fun _ => ())

end Bind

-- ---------------------------------------------------------------------------
-- The root of a box
-- ---------------------------------------------------------------------------

/-- `work_dir_`. -/
def workDir (root : FsPath) : FsPath := root / FsPath.ofStr (lit "work")

def tmpDir (root : FsPath) : FsPath := root / FsPath.ofStr (lit "tmp")

/-- A system call of `prepare_root`, which dies when it fails. -/
def orDieWith {α : Type} (msg : Str) : Except Errno α → Except Halt α
  | .ok a => .ok a
  | .error e => .error (.die (msg ++ lit ": " ++ e.text))

def createDirectoriesOrDie (k : Kernel) (path : FsPath) (msg : Str) : Except Halt Kernel :=
  match k.createDirectories path with
  | (k, none) => .ok k
  | (_, some e) => orDieWith msg (.error e)

/-- `Container::prepare_root`. -/
def prepareRoot (root : FsPath) (useStandardBinds : Bool) (k : Kernel) : Except Halt Kernel := do
  let noSource := FsPath.ofStr (lit "none")
  let k ← orDieWith (lit "Cannot privatize mounts")
    (k.mount noSource (FsPath.ofStr (lit "/")) (lit "none") { msRec := true, msPrivate := true })
  let k ← createDirectoriesOrDie k root (lit "Cannot create root directory (" ++ root.toStr ++ lit ")")
  let k ← orDieWith (lit "Cannot mount root tmpfs") (k.mount noSource root (lit "tmpfs") {})
  let k ← orDieWith (lit "Cannot remount root tmpfs")
    (k.mount noSource root (lit "tmpfs") { msRemount := true })
  let procDir := root / FsPath.ofStr (lit "proc")
  let k ← createDirectoriesOrDie k procDir (lit "Cannot create '/proc' dir")
  let k ← orDieWith (lit "Cannot mount proc filesystem") (k.mount noSource procDir (lit "proc") {})
  let k ← orDieWith (lit "Cannot remount proc filesystem")
    (k.mount noSource procDir (lit "proc") { msRemount := true })
  let k ← createDirectoriesOrDie k (workDir root) (lit "Cannot create '/work' dir")
  let k ← createDirectoriesOrDie k (tmpDir root) (lit "Cannot create '/tmp' dir")
  if useStandardBinds then
    let (k, result) := Bind.applyStandardRules root (workDir root) k
    result.map fun _ => k
  else return k

/-- One of the three loops of `Container::cleanup_root`. -/
def clearOrDie (k : Kernel) (path : FsPath) : Except Halt Kernel :=
  orDieWith (lit "Cannot remove " ++ path.toStr) (k.clearDirectory path)

/-- `Container::cleanup_root`. -/
def cleanupRoot (root : FsPath) (k : Kernel) : Except Halt Kernel := do
  let k ← clearOrDie k (workDir root)
  let k ← clearOrDie k (tmpDir root)
  clearOrDie k (workDir root)

end Libsbox
