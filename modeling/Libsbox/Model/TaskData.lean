import Libsbox.Model.Halt
import Libsbox.Model.PlainStrings
import Libsbox.Model.Task

/-!
# libsbox — the shared task block

`TaskData` (task_data.h), the block of shared memory through which a worker
hands a task to a container, and the code that fills it: `Container::set_task`
on the worker's side and the `PATH` entry that `Container::slave` adds to the
environment just before `execvpe`.
-/

namespace Libsbox

open CMemory

def pathMax : Nat := 4096

abbrev Fd := Int

def stdoutFileno : Fd := 1

/-- `IOStream`. -/
structure IOStream where
  fd : Fd := -1
  filename : PlainString pathMax := PlainString.new

/-- `BindData`. -/
structure BindData where
  inside : PlainString pathMax
  outside : PlainString pathMax
  flags : Int32

/-- `TaskData`. `env` has room for one entry and 1024 bytes more than a request
may use: the slave's `PATH`. -/
structure TaskData where
  timeLimitMs : Int64
  wallTimeLimitMs : Int64
  memoryLimitKb : Int64
  fsizeLimitKb : Int64
  maxFiles : Int32
  maxThreads : Int32
  needIpc : Bool
  useStandardBinds : Bool
  stdinDesc : IOStream
  stdoutDesc : IOStream
  stderrDesc : IOStream
  argv : PlainStringVector argcMax argvMax
  env : PlainStringVector (envcMax + 1) (envMax + 1024)
  binds : PlainVector BindData bindsMax
  timeUsageMs : Int64
  timeUsageSysMs : Int64
  timeUsageUserMs : Int64
  wallTimeUsageMs : Int64
  memoryUsageKb : Int64
  timeLimitExceeded : Bool
  wallTimeLimitExceeded : Bool
  exited : Bool
  exitCode : Int32
  signaled : Bool
  termSignal : Int32
  oomKilled : Bool
  memoryLimitHit : Bool
  error : Bool

/-- The default member initializers, over zeroed memory. -/
def TaskData.new : TaskData where
  timeLimitMs := -1
  wallTimeLimitMs := -1
  memoryLimitKb := -1
  fsizeLimitKb := -1
  maxFiles := 16
  maxThreads := 1
  needIpc := false
  useStandardBinds := true
  stdinDesc := {}
  stdoutDesc := {}
  stderrDesc := {}
  argv := PlainStringVector.new
  env := PlainStringVector.new
  binds := PlainVector.new ⟨PlainString.new, PlainString.new, 0⟩
  timeUsageMs := 0
  timeUsageSysMs := 0
  timeUsageUserMs := 0
  wallTimeUsageMs := 0
  memoryUsageKb := 0
  timeLimitExceeded := false
  wallTimeLimitExceeded := false
  exited := false
  exitCode := -1
  signaled := false
  termSignal := -1
  oomKilled := false
  memoryLimitHit := false
  error := false

-- ---------------------------------------------------------------------------
-- Pipes of the worker
-- ---------------------------------------------------------------------------

/-- `pipes_`, and the descriptors the kernel will hand out next. -/
structure Pipes where
  pipes : List (Str × Fd × Fd)
  fresh : List Fd

/-- `Worker::get_pipe`. -/
def Pipes.getPipe (p : Pipes) (pipeName : Str) : Except Halt ((Fd × Fd) × Pipes) :=
  match p.pipes.lookup pipeName with
  | some fds => .ok (fds, p)
  | none =>
    match p.fresh with
    | r :: w :: fresh => .ok ((r, w), ⟨(pipeName, r, w) :: p.pipes, fresh⟩)
    | _ => .error (.die (lit "Cannot create pipe: Too many open files"))

-- ---------------------------------------------------------------------------
-- Container::set_task
-- ---------------------------------------------------------------------------

/-- `<what> is larger than maximum (<n> > <max>)`. -/
def largerThanMaximum (what : String) (n max : Nat) : Halt :=
  .die (lit what ++ lit " is larger than maximum (" ++ decimal n ++ lit " > " ++ decimal max ++
    lit ")")

/-- The three stream blocks of `set_task`, which differ in the name `what` of
the stream, in the end of a pipe they take, and in whether `@_stdout` is special. -/
def setStream (what : String) (pipeEnd : Fd × Fd → Fd) (stdoutAllowed : Bool)
    (filename : Str) (desc : IOStream) (pipes : Pipes) : Except Halt (IOStream × Pipes) := do
  let empty ← checked (desc.filename.assign [])
  let desc : IOStream := { fd := -1, filename := empty }
  if filename.isEmpty then
    let devNull ← checked (desc.filename.assign (lit "/dev/null"))
    return ({ desc with filename := devNull }, pipes)
  else if filename.head? = some 64 then -- '@'
    let pipeName := filename.drop 1
    if stdoutAllowed && pipeName == lit "_stdout" then
      return ({ desc with fd := stdoutFileno }, pipes)
    else
      let (pipe, pipes) ← pipes.getPipe pipeName
      return ({ desc with fd := pipeEnd pipe }, pipes)
  else if filename.length > pathMax then
    throw (largerThanMaximum (what ++ " filename") filename.length pathMax)
  else
    let name ← checked (desc.filename.set filename)
    return ({ desc with filename := name }, pipes)

def setStdin := setStream "stdin" Prod.fst false
def setStdout := setStream "stdout" Prod.snd false
def setStderr := setStream "stderr" Prod.snd true

/-- The `argv` and `env` blocks of `set_task`: both check the number of strings
and their total size against the capacity of the vector, then copy them. -/
def setStrings {maxItems maxTotalSize : Nat} (what : String)
    (v : PlainStringVector maxItems maxTotalSize) (strs : List Str) :
    Except Halt (PlainStringVector maxItems maxTotalSize) :=
  if strs.length > v.maxCount then
    .error (largerThanMaximum (what ++ " size") strs.length v.maxCount)
  else
    let totalSize := (strs.map List.length).sum
    if totalSize > v.maxSize then
      .error (largerThanMaximum (what ++ " total size") totalSize v.maxSize)
    else do
      let v ← checked v.clear
      checked (v.addAll strs)

/-- The constructor of `BindData`. -/
def BindData.new (rule : BindRule) : Except Halt BindData :=
  if rule.inside.length > pathMax then
    .error (.die (lit "bind inside path is larger that maximum (" ++ decimal rule.inside.length ++
      lit " > " ++ decimal pathMax ++ lit ")"))
  else if rule.outside.length > pathMax then
    .error (.die (lit "bind outsize path is larger that maximum (" ++
      decimal rule.outside.length ++ lit " > " ++ decimal pathMax ++ lit ")"))
  else do
    let inside ← checked (PlainString.new.set rule.inside)
    let outside ← checked (PlainString.new.set rule.outside)
    return { inside, outside, flags := rule.flags }

/-- The loop of `emplace_back` calls on `binds`. -/
def addBinds (v : PlainVector BindData bindsMax) :
    List BindRule → Except Halt (PlainVector BindData bindsMax)
  | [] => .ok v
  | rule :: rules => do
    let bind ← BindData.new rule
    let v ← checked (v.pushBack bind)
    addBinds v rules

/-- The `binds` block of `set_task`. -/
def setBinds (v : PlainVector BindData bindsMax) (rules : List BindRule) :
    Except Halt (PlainVector BindData bindsMax) :=
  if rules.length > bindsMax then
    .error (.die (lit "binds count is larger that maximum (" ++ decimal rules.length ++
      lit " > " ++ decimal bindsMax ++ lit ")"))
  else addBinds v.clear rules

/-- `Container::set_task`. -/
def setTask (task : Task) (d : TaskData) (pipes : Pipes) : Except Halt (TaskData × Pipes) := do
  let (stdinDesc, pipes) ← setStdin task.stdin.filename d.stdinDesc pipes
  let (stdoutDesc, pipes) ← setStdout task.stdout.filename d.stdoutDesc pipes
  let (stderrDesc, pipes) ← setStderr task.stderr.filename d.stderrDesc pipes
  let argv ← setStrings "argv" d.argv task.argv
  let env ← setStrings "env" d.env task.env
  let binds ← setBinds d.binds task.binds
  return ({
    timeLimitMs := task.timeLimitMs
    wallTimeLimitMs := task.wallTimeLimitMs
    memoryLimitKb := task.memoryLimitKb
    fsizeLimitKb := task.fsizeLimitKb
    maxFiles := task.maxFiles
    maxThreads := task.maxThreads
    needIpc := task.needIpc
    useStandardBinds := task.useStandardBinds
    stdinDesc, stdoutDesc, stderrDesc, argv, env, binds
    timeUsageMs := -1
    timeUsageSysMs := -1
    timeUsageUserMs := -1
    wallTimeUsageMs := -1
    memoryUsageKb := -1
    timeLimitExceeded := false
    wallTimeLimitExceeded := false
    exited := false
    exitCode := -1
    signaled := false
    termSignal := -1
    oomKilled := false
    memoryLimitHit := false
    error := true }, pipes)

-- ---------------------------------------------------------------------------
-- The slave's PATH entry
-- ---------------------------------------------------------------------------

/-- The loop of `Container::slave` that looks for a `PATH` in the task's `env`. -/
def hasPath {maxItems maxTotalSize : Nat} (env : PlainStringVector maxItems maxTotalSize) : Bool :=
  (List.range env.count).any fun i =>
    match env.str? i with
    | some str => strcmpEq str (lit "PATH=")
    | none => false

/-- `format("PATH=%s", path_env)`. -/
def pathEntry (pathEnv : Str) : Str := lit "PATH=" ++ cstr pathEnv

/-- What `Container::slave` does to `env` before `execvpe`; `pathEnv` is the
result of `getenv("PATH")`. -/
def addPath (pathEnv : Option Str) (d : TaskData) : Except Halt TaskData :=
  if hasPath d.env then .ok d
  else
    match pathEnv with
    | none => .ok d
    | some path => do
      let env ← checked (d.env.add (pathEntry path))
      return { d with env }

/-- A task on its way from the worker to `execvpe`: `set_task` in the worker,
then the slave's addition to the environment. -/
def launch (task : Task) (d : TaskData) (pipes : Pipes) (pathEnv : Option Str) :
    Except Halt TaskData := do
  let (d, _) ← setTask task d pipes
  addPath pathEnv d

end Libsbox
