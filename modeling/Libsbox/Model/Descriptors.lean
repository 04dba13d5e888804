import Libsbox.Lib.FdTable
import Libsbox.Model.System

/-!
# libsbox — descriptors

The processes of a worker with their descriptors: the pipes of `Worker::get_pipe`,
the streams that `Container::set_task` describes, and what a slave makes of them in
`open_files`, `dup2_fds` and `close_all_fds`. The worker and its containers have one
table (`CLONE_FILES`), and a slave has the copy that `fork` made of it.

Pipes are numbered in the order in which the worker makes them. All other files are
alike here.
-/

namespace Libsbox

open CMemory

inductive PipeEnd where
  | read
  | write
  deriving DecidableEq

/-- What a descriptor refers to. -/
inductive File where
  | pipe (p : Nat) (e : PipeEnd)
  | other
  deriving DecidableEq

/-- The descriptor of the logger. -/
def loggerFd : Fd := 107

/-- The standard descriptors, where the daemon has opened `/dev/null`, and the
logger's. They are open in the daemon before it makes its workers. -/
def standing (fd : Fd) : Bool := fd = 0 || fd = 1 || fd = 2 || fd = loggerFd

-- ---------------------------------------------------------------------------
-- The streams of a task
-- ---------------------------------------------------------------------------

inductive StdStream where
  | stdin
  | stdout
  | stderr
  deriving DecidableEq

namespace StdStream

def fileno : StdStream → Fd
  | .stdin => 0
  | .stdout => stdoutFileno
  | .stderr => 2

/-- The end of a pipe that the stream takes. -/
def pipeEnd : StdStream → PipeEnd
  | .stdin => .read
  | .stdout | .stderr => .write

end StdStream

def Task.filename (task : Task) : StdStream → Str
  | .stdin => task.stdin.filename
  | .stdout => task.stdout.filename
  | .stderr => task.stderr.filename

/-- The stream descriptions of a shared block. -/
structure Streams where
  stdinDesc : IOStream := {}
  stdoutDesc : IOStream := {}
  stderrDesc : IOStream := {}

namespace Streams

def desc (d : Streams) : StdStream → IOStream
  | .stdin => d.stdinDesc
  | .stdout => d.stdoutDesc
  | .stderr => d.stderrDesc

/-- The part of `Container::set_task` that writes them. -/
def set (task : Task) (d : Streams) (pipes : Pipes) : Except Halt (Streams × Pipes) := do
  let (stdinDesc, pipes) ← setStdin task.stdin.filename d.stdinDesc pipes
  let (stdoutDesc, pipes) ← setStdout task.stdout.filename d.stdoutDesc pipes
  let (stderrDesc, pipes) ← setStderr task.stderr.filename d.stderrDesc pipes
  return ({ stdinDesc, stdoutDesc, stderrDesc }, pipes)

end Streams

namespace IOStream

/-- One of the three blocks of `Container::open_files`. -/
def openFile (d : IOStream) (t : FdTable File) (fresh : List Fd) :
    Option (IOStream × FdTable File × List Fd) :=
  if d.filename.empty then some (d, t, fresh)
  else (t.openFile .other fresh).map fun (fd, t, fresh) => ({ d with fd }, t, fresh)

/-- One of the three blocks of `Container::dup2_fds`. -/
def dup2 (d : IOStream) (fileno : Fd) (t : FdTable File) : Option (FdTable File) :=
  if d.fd ≠ -1 then t.dup2 d.fd fileno else some t

end IOStream

namespace Streams

/-- `Container::open_files`. -/
def openFiles (d : Streams) (t : FdTable File) (fresh : List Fd) :
    Option (Streams × FdTable File × List Fd) := do
  let (stdinDesc, t, fresh) ← d.stdinDesc.openFile t fresh
  let (stdoutDesc, t, fresh) ← d.stdoutDesc.openFile t fresh
  let (stderrDesc, t, fresh) ← d.stderrDesc.openFile t fresh
  return ({ stdinDesc, stdoutDesc, stderrDesc }, t, fresh)

/-- `Container::dup2_fds`. -/
def dup2Fds (d : Streams) (t : FdTable File) : Option (FdTable File) := do
  let t ← d.stdinDesc.dup2 StdStream.stdin.fileno t
  let t ← d.stdoutDesc.dup2 StdStream.stdout.fileno t
  d.stderrDesc.dup2 StdStream.stderr.fileno t

end Streams

/-- `Container::close_all_fds`; `enterFds` are the descriptors of the two cgroup
controllers. The one of `/proc/self/fd` is closed behind the loop. -/
def closeAllFds (enterFds : Fd × Fd) (t : FdTable File) : FdTable File :=
  t.keepOnly fun fd => standing fd || fd = enterFds.1 || fd = enterFds.2

-- ---------------------------------------------------------------------------
-- The pipes of the worker
-- ---------------------------------------------------------------------------

/-- `pipes_` and the table that the worker shares with its containers. `made` tells
of every pipe made so far for which request it was, and under which name. -/
structure Pipework where
  pipes : List (Str × Fd × Fd) := []
  made : List (Nat × Str) := []
  table : FdTable File

namespace Pipework

/-- `pipe`, for a new entry of `pipes_`. -/
def addPipe (request : Nat) (entry : Str × Fd × Fd) (k : Pipework) : Option Pipework := do
  let p := k.made.length
  let (_, table, fresh) ← k.table.openFile (.pipe p .read) [entry.2.1, entry.2.2]
  let (_, table, _) ← table.openFile (.pipe p .write) fresh
  return { pipes := entry :: k.pipes, made := k.made ++ [(request, entry.1)], table }

/-- The pipes of a call of `set_task`, the latest first. -/
def addPipes (request : Nat) (k : Pipework) : List (Str × Fd × Fd) → Option Pipework
  | [] => some k
  | entry :: entries => (k.addPipes request entries).bind (addPipe request entry)

/-- One round of `Worker::close_pipes`. The source clears the map behind the loop. -/
def closePipe (name : Str) (k : Pipework) : Option Pipework :=
  match k.pipes.lookup name with
  | none => none
  | some (r, w) => do
    let table ← k.table.close r
    let table ← table.close w
    return { k with pipes := k.pipes.filter fun entry => entry.1 ≠ name, table }

end Pipework

-- ---------------------------------------------------------------------------
-- The world
-- ---------------------------------------------------------------------------

/-- A worker, its containers and their slaves, with their descriptors. `streams` are
those of the containers' blocks, `slaveTable` and `enterFds` belong to the slaves. -/
structure World where
  sys : Sys
  work : Pipework
  streams : BoxId → Streams := fun _ => {}
  slaveTable : BoxId → FdTable File := fun _ _ => none
  enterFds : BoxId → Fd × Fd := fun _ => (-1, -1)

inductive WorldAct where
  /-- A step of the processes. The kernel hands out `fresh` to the calls in it. -/
  | sys (a : Act) (fresh : List Fd)
  /-- A round of `close_pipes`. The order of the map makes no difference. -/
  | closePipe (name : Str)
  /-- The worker or a container opens a file, or closes one that it has opened. -/
  | openFile (fd : Fd)
  | closeFile (fd : Fd)

namespace World

/-- A worker that has just begun to serve. -/
def initial (firstUid : Uid) : World where
  sys := Sys.initial firstUid
  work := { table := fun fd => if standing fd then some .other else none }

/-- A step that uses no descriptor. -/
def sysStep (pathEnv : Option Str) (w : World) (a : Act) : Option World :=
  (w.sys.step pathEnv a).map fun sys => { w with sys }

def workerStep (pathEnv : Option Str) (w : World) (fresh : List Fd) : Option World :=
  match w.sys.worker with
  | .writeTasks i =>
    match w.sys.tasks[i]?, w.sys.containers[i]? with
    | some task, some c =>
      match (w.streams c).set task ⟨w.work.pipes, fresh⟩ with
      | .error _ => if w.sys.alive then some { w with sys := w.sys.die } else none
      | .ok (streams, pipes) => do
        let sys ← w.sys.step pathEnv .worker
        let new := pipes.pipes.take (pipes.pipes.length - w.work.pipes.length)
        let work ← w.work.addPipes w.sys.request new
        return { w with sys, work, streams := Function.update w.streams c streams }
    | _, _ => w.sysStep pathEnv .worker
  | .closePipes => if w.work.pipes = [] then w.sysStep pathEnv .worker else none
  | _ => w.sysStep pathEnv .worker

/-- `fork` copies the table. -/
def containerStep (pathEnv : Option Str) (w : World) (c : BoxId) : Option World := do
  let w' ← w.sysStep pathEnv (.container c)
  if (w.sys.box c).pc = .fork then
    return { w' with slaveTable := Function.update w.slaveTable c w.work.table }
  else return w'

/-- What the next step of the slave of `c` does to its table. -/
def slaveFds (w : World) (c : BoxId) (fresh : List Fd) : SlaveAt → Option World
  | .openFiles => do
    -- delay_enter() of the two controllers comes first
    let (memory, t, fresh) ← (w.slaveTable c).openFile .other fresh
    let (cpuacct, t, fresh) ← t.openFile .other fresh
    let (streams, t, _) ← (w.streams c).openFiles t fresh
    return { w with
      streams := Function.update w.streams c streams
      slaveTable := Function.update w.slaveTable c t
      enterFds := Function.update w.enterFds c (memory, cpuacct) }
  | .dup2Fds => do
    let t ← (w.streams c).dup2Fds (w.slaveTable c)
    return { w with slaveTable := Function.update w.slaveTable c t }
  | .closeAllFds =>
    let t := closeAllFds (w.enterFds c) (w.slaveTable c)
    some { w with slaveTable := Function.update w.slaveTable c t }
  | .setupRlimits => do
    -- enter() of the two controllers
    let t ← (w.slaveTable c).close (w.enterFds c).1
    let t ← t.close (w.enterFds c).2
    return { w with slaveTable := Function.update w.slaveTable c t }
  | .exec =>
    -- the logger's descriptor is close-on-exec
    let t := Function.update (w.slaveTable c) loggerFd none
    some { w with slaveTable := Function.update w.slaveTable c t }
  | _ => some w

def slaveStep (pathEnv : Option Str) (w : World) (c : BoxId) (fresh : List Fd) : Option World :=
  match (w.sys.box c).slave with
  | none => none
  | some sl => (w.slaveFds c fresh sl.pc).bind fun w' => w'.sysStep pathEnv (.slave c)

/-- One step of the world. -/
def step (pathEnv : Option Str) (w : World) : WorldAct → Option World
  | .sys .worker fresh => w.workerStep pathEnv fresh
  | .sys (.container c) _ => w.containerStep pathEnv c
  | .sys (.slave c) fresh => w.slaveStep pathEnv c fresh
  | .sys a _ => w.sysStep pathEnv a
  | .closePipe name =>
    if w.sys.alive ∧ w.sys.worker = .closePipes then
      (w.work.closePipe name).map fun work => { w with work }
    else none
  | .openFile fd =>
    (w.work.table.openFile .other [fd]).map fun (_, table, _) => { w with work := { w.work with table } }
  | .closeFile fd =>
    if standing fd = false ∧ w.work.table fd = some .other then
      (w.work.table.close fd).map fun table => { w with work := { w.work with table } }
    else none

end World

end Libsbox
