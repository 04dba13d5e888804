import Libsbox.Lib.Barrier
import Libsbox.Model.TaskData
import Mathlib.Logic.Function.Basic

/-!
# libsbox — the processes of a worker

A worker with the containers it has started and the slave of each, as one
transition system: the steps of `Worker::process` (worker.cpp), of
`Container::serve` and `Container::slave` (container.cpp) between two points where
another process can notice, and what the kernel does by itself (signals, the end
of a target). A container is named by the number of containers started before it.

The shared block of a container is modelled by the task that it describes, by
`error`, and by the write that each of its fields holds.
-/

namespace Libsbox

open CMemory

-- ---------------------------------------------------------------------------
-- The shared block of a container
-- ---------------------------------------------------------------------------

/-- The fields of `TaskData`. -/
inductive Field where
  | timeLimitMs | wallTimeLimitMs | memoryLimitKb | fsizeLimitKb | maxFiles | maxThreads
  | needIpc | useStandardBinds
  | stdinFd | stdinFilename | stdoutFd | stdoutFilename | stderrFd | stderrFilename
  | argv | env | binds
  | timeUsageMs | timeUsageSysMs | timeUsageUserMs | wallTimeUsageMs | memoryUsageKb
  | timeLimitExceeded | wallTimeLimitExceeded
  | exited | exitCode | signaled | termSignal
  | oomKilled | memoryLimitHit
  | error
  deriving DecidableEq

/-- The write that a field holds: the default member initializer, or the write of a
function for the request of that number. -/
inductive Write where
  | initial
  | setTask (request : Nat)
  | slave (request : Nat)
  | waitForSlave (request : Nat)
  deriving DecidableEq

/-- The shared block. `task` has the parameters and the results. -/
structure Block where
  task : Task := {}
  error : Bool := false
  last : Field → Write := fun _ => .initial

namespace Block

/-- The fields in `fields` hold `w` from here on. -/
def wrote (w : Write) (fields : List Field) (b : Block) : Block :=
  { b with last := fun f => if f ∈ fields then w else b.last f }

/-- The size checks of `set_task` and of `BindData`, which let it die. -/
def refuses (task : Task) : Bool :=
  let tooLong (filename : Str) : Bool := filename.head? ≠ some 64 && filename.length > pathMax
  tooLong task.stdin.filename || tooLong task.stdout.filename || tooLong task.stderr.filename ||
    task.argv.length > argcMax || (task.argv.map List.length).sum > argvMax ||
    task.env.length > envcMax + 1 || (task.env.map List.length).sum > envMax + 1024 ||
    task.binds.length > bindsMax ||
    task.binds.any fun rule => rule.inside.length > pathMax || rule.outside.length > pathMax

/-- `Container::set_task` on a task that it does not refuse. It writes every field. -/
def setTask (request : Nat) (task : Task) : Block where
  task := { task with
    timeUsageMs := -1
    timeUsageSysMs := -1
    timeUsageUserMs := -1
    wallTimeUsageMs := -1
    memoryUsageKb := -1
    timeLimitExceeded := false
    wallTimeLimitExceeded := false
    exited := false
    exitCode := -1
    signaled := false
    termSignal := -1
    oomKilled := false
    memoryLimitHit := false }
  error := true
  last := fun _ => .setTask request

/-- `Container::put_results`. -/
def putResults (b : Block) (task : Task) : Task :=
  { task with
    timeUsageMs := b.task.timeUsageMs
    timeUsageSysMs := b.task.timeUsageSysMs
    timeUsageUserMs := b.task.timeUsageUserMs
    wallTimeUsageMs := b.task.wallTimeUsageMs
    memoryUsageKb := b.task.memoryUsageKb
    timeLimitExceeded := b.task.timeLimitExceeded
    wallTimeLimitExceeded := b.task.wallTimeLimitExceeded
    exited := b.task.exited
    exitCode := b.task.exitCode
    signaled := b.task.signaled
    termSignal := b.task.termSignal
    oomKilled := b.task.oomKilled
    memoryLimitHit := b.task.memoryLimitHit }

end Block

/-- A wait status. -/
inductive WaitStatus where
  | exited (code : Int32)
  | signaled (signal : Int32)
  deriving DecidableEq

namespace WaitStatus

def sigkill : WaitStatus := .signaled 9

/-- What `die` ends a process with. -/
def exitFailure : WaitStatus := .exited 1

end WaitStatus

/-- What the cgroups and the clock say at the end of a run. -/
structure Usage where
  timeUsageMs : Int64
  timeUsageSysMs : Int64
  timeUsageUserMs : Int64
  wallTimeUsageMs : Int64
  memoryUsageKb : Int64
  oomKilled : Bool
  memoryLimitHit : Bool

namespace Block

/-- The `WIFEXITED` and `WIFSIGNALED` branches of `Container::wait_for_slave`. -/
def setStatus (request : Nat) (status : WaitStatus) (b : Block) : Block :=
  match status with
  | .exited code =>
    { b with task := { b.task with exited := true, exitCode := code } }.wrote
      (.waitForSlave request) [.exited, .exitCode]
  | .signaled signal =>
    { b with task := { b.task with signaled := true, termSignal := signal } }.wrote
      (.waitForSlave request) [.signaled, .termSignal]

/-- The fields that `wait_for_slave` writes on every path. -/
def usageFields : List Field :=
  [.timeUsageMs, .timeUsageSysMs, .timeUsageUserMs, .wallTimeUsageMs, .memoryUsageKb, .oomKilled,
    .memoryLimitHit]

/-- What `wait_for_slave` reads behind its loop. -/
def putUsage (request : Nat) (u : Usage) (b : Block) : Block :=
  { b with task := { b.task with
    timeUsageMs := u.timeUsageMs
    timeUsageSysMs := u.timeUsageSysMs
    timeUsageUserMs := u.timeUsageUserMs
    wallTimeUsageMs := u.wallTimeUsageMs
    memoryUsageKb := u.memoryUsageKb
    oomKilled := u.oomKilled
    memoryLimitHit := u.memoryLimitHit } }.wrote (.waitForSlave request) usageFields

def checkTimeLimit (request : Nat) (b : Block) : Block :=
  if b.task.timeLimitMs ≠ -1 then
    { b with task := { b.task with
      timeLimitExceeded := b.task.timeUsageMs > b.task.timeLimitMs } }.wrote
        (.waitForSlave request) [.timeLimitExceeded]
  else b

def checkWallTimeLimit (request : Nat) (b : Block) : Block :=
  if b.task.wallTimeLimitMs ≠ -1 then
    { b with task := { b.task with
      wallTimeLimitExceeded := b.task.wallTimeUsageMs > b.task.wallTimeLimitMs } }.wrote
        (.waitForSlave request) [.wallTimeLimitExceeded]
  else b

/-- The end of `wait_for_slave`, behind its loop. -/
def setUsage (request : Nat) (u : Usage) (b : Block) : Block :=
  ((b.putUsage request u).checkTimeLimit request).checkWallTimeLimit request

@[simp] theorem setUsage_error (request : Nat) (u : Usage) (b : Block) :
    (b.setUsage request u).error = b.error := by
  simp only [setUsage, checkTimeLimit, checkWallTimeLimit]
  split <;> split <;> rfl

/-- A tick of the timer in `wait_for_slave` finds a limit exceeded. -/
def limitExceeded (b : Block) (cpuMs wallMs : Int64) : Bool :=
  (b.task.timeLimitMs ≠ -1 && cpuMs > b.task.timeLimitMs) ||
    (b.task.wallTimeLimitMs ≠ -1 && wallMs > b.task.wallTimeLimitMs)

/-- A stream that `open_files` opens: `set_task` leaves the others no filename. -/
def opens (filename : Str) : Bool := filename.head? ≠ some 64

/-- The descriptors that `Container::open_files` writes. -/
def openedFds (task : Task) : List Field :=
  (if opens task.stdin.filename then [.stdinFd] else []) ++
    (if opens task.stdout.filename then [.stdoutFd] else []) ++
    (if opens task.stderr.filename then [.stderrFd] else [])

/-- The slave adds a `PATH` entry to the environment of the task. -/
def addsPath (pathEnv : Option Str) (task : Task) : Bool :=
  pathEnv.isSome && !task.env.any fun str => strcmpEq str (lit "PATH=")

end Block

-- ---------------------------------------------------------------------------
-- Processes
-- ---------------------------------------------------------------------------

/-- A container, by the number of containers that were started before it. -/
abbrev BoxId := Nat

abbrev Uid := UInt32

/-- Who comes to a container's own barrier. -/
inductive Seat where
  | worker
  | container
  deriving DecidableEq

inductive Proc where
  | worker
  | container (c : BoxId)
  | slave (c : BoxId)
  deriving DecidableEq

/-- A process at the start barrier, with the number of the request it is there for. -/
@[ext] structure Party where
  proc : Proc
  request : Nat
  deriving DecidableEq

/-- What a slave does next: the calls of `Container::slave`, then the target, then
what is left of it for `waitpid`. `setError` and `exitFailure` are what `_die` has
still to do. -/
inductive SlaveAt where
  | startBarrier
  | awaitStart
  | openFiles
  | dup2Fds
  | closeAllFds
  | setupRlimits
  | addPath
  | exec
  | running
  | setError
  | exitFailure
  | zombie (status : WaitStatus)
  deriving DecidableEq

structure Slave where
  pc : SlaveAt
  request : Nat

/-- What a container does next, in the order of `Container::prepare` and
`Container::serve`. `died` is the end through `die`, `killed` the one through the
death of the worker. -/
inductive ContainerAt where
  | unborn
  | prepare
  | prepareRoot
  | disableIpcs
  | taskBarrier
  | awaitTask
  | mountBinds
  | createCgroups
  | fork
  | startBarrier
  | awaitStart
  | waitForSlave
  | readUsage
  | umountBinds
  | resultsBarrier
  | awaitResults
  | cleanupRoot
  | exit
  | exited
  | died
  | killed
  deriving DecidableEq

/-- A container. `armed` says that the kernel kills it when the worker dies
(`PR_SET_PDEATHSIG`), `standardRules` that it has run `Bind::apply_standard_rules`,
`sigchld` is the signal of its slave that is pending; `serving` is the request for
which it has left its task barrier last, and `startedFor` the task for which
`prepare_containers` has made it. -/
structure Box where
  id : Uid := 0
  permanent : Bool := false
  startedFor : Task := {}
  pc : ContainerAt := .unborn
  armed : Bool := false
  standardRules : Bool := false
  ipcsDisabled : Bool := false
  barrier : Barrier Seat := ⟨2, []⟩
  block : Block := {}
  slave : Option Slave := none
  sigchld : Option WaitStatus := none
  serving : Nat := 0

namespace Box

/-- There is a process. -/
def Alive (b : Box) : Prop :=
  b.pc ≠ .unborn ∧ b.pc ≠ .exited ∧ b.pc ≠ .died ∧ b.pc ≠ .killed

instance (b : Box) : Decidable b.Alive := inferInstanceAs (Decidable (_ ∧ _))

/-- The process has ended, as `waitpid` sees it. -/
def Ended (b : Box) : Prop := b.pc = .exited ∨ b.pc = .died ∨ b.pc = .killed

instance (b : Box) : Decidable b.Ended := inferInstanceAs (Decidable (_ ∨ _))

/-- The container is the first process of its namespace: with it goes the slave. -/
def stop (pc : ContainerAt) (b : Box) : Box := { b with pc, slave := none, sigchld := none }

/-- `kill_all`. A slave that had not ended leaves one more `SIGCHLD`. -/
def killAll (b : Box) : Box :=
  match b.slave with
  | none => b
  | some ⟨.zombie _, _⟩ => { b with slave := none }
  | some _ => { b with slave := none, sigchld := some .sigkill }

def slaveEnds (status : WaitStatus) (sl : Slave) (b : Box) : Box :=
  { b with slave := some { sl with pc := .zombie status }, sigchld := some status }

end Box

/-- What a worker does next, in the order of `Worker::process`. The numbers are
those of the loops; `next` is `next_permanent_container`, and `id` the id of the
container that is to be started. -/
inductive WorkerAt where
  | accept
  | prepareContainers (i next : Nat)
  | startContainer (i next : Nat) (id : Uid)
  | resetBarrier
  | writeTasks (i : Nat)
  | taskBarrier (i : Nat)
  | awaitTask (i : Nat)
  | startBarrier
  | awaitStart
  | closePipes
  | resultsBarrier (i : Nat)
  | awaitResults (i : Nat)
  | putResults (i : Nat)
  | putId (i : Nat)
  | waitpid (i : Nat)
  deriving DecidableEq

/-- `SharedIdGetter`: the free ids, the next one first, and those that other workers
hold. -/
structure SharedIdGetter where
  stack : List Uid
  elsewhere : List Uid := []

/-- The constructor. -/
def SharedIdGetter.new (start : Uid) (count : Nat) : SharedIdGetter where
  stack := (List.range count).map fun i => start + UInt32.ofNat i

/-- The number of ids the daemon makes. -/
def idCount : Nat := 256

/-- A worker and its containers. `alive` is the worker's: when it dies, `worker`
keeps the place where it was. -/
structure Sys where
  ids : SharedIdGetter
  request : Nat := 0
  tasks : List Task := []
  permanent : List BoxId := []
  temporary : List BoxId := []
  containers : List BoxId := []
  started : Nat := 0
  box : BoxId → Box := fun _ => {}
  start : Barrier Party := ⟨1, []⟩
  worker : WorkerAt := .accept
  alive : Bool := true
  responses : List (List Task) := []

namespace Sys

/-- A worker that has just begun to serve. -/
def initial (firstUid : Uid) : Sys := { ids := SharedIdGetter.new firstUid idCount }

def setBox (s : Sys) (c : BoxId) (b : Box) : Sys := { s with box := Function.update s.box c b }

@[simp] theorem setBox_box_self (s : Sys) (c : BoxId) (b : Box) : (s.setBox c b).box c = b := by
  simp [setBox]

theorem setBox_box_ne (s : Sys) {c c' : BoxId} (b : Box) (h : c' ≠ c) :
    (s.setBox c b).box c' = s.box c' := by
  simp [setBox, h]

@[simp] theorem setBox_box_same (s : Sys) (c : BoxId) : (s.setBox c (s.box c)).box = s.box :=
  Function.update_eq_self c s.box

@[simp] theorem setBox_ids (s : Sys) (c : BoxId) (b : Box) : (s.setBox c b).ids = s.ids := rfl
@[simp] theorem setBox_request (s : Sys) (c : BoxId) (b : Box) :
    (s.setBox c b).request = s.request := rfl
@[simp] theorem setBox_tasks (s : Sys) (c : BoxId) (b : Box) : (s.setBox c b).tasks = s.tasks := rfl
@[simp] theorem setBox_permanent (s : Sys) (c : BoxId) (b : Box) :
    (s.setBox c b).permanent = s.permanent := rfl
@[simp] theorem setBox_temporary (s : Sys) (c : BoxId) (b : Box) :
    (s.setBox c b).temporary = s.temporary := rfl
@[simp] theorem setBox_containers (s : Sys) (c : BoxId) (b : Box) :
    (s.setBox c b).containers = s.containers := rfl
@[simp] theorem setBox_started (s : Sys) (c : BoxId) (b : Box) :
    (s.setBox c b).started = s.started := rfl
@[simp] theorem setBox_start (s : Sys) (c : BoxId) (b : Box) : (s.setBox c b).start = s.start := rfl
@[simp] theorem setBox_worker (s : Sys) (c : BoxId) (b : Box) :
    (s.setBox c b).worker = s.worker := rfl
@[simp] theorem setBox_alive (s : Sys) (c : BoxId) (b : Box) : (s.setBox c b).alive = s.alive := rfl

/-- The worker at the start barrier. -/
def workerParty (s : Sys) : Party := ⟨.worker, s.request⟩

def containerParty (c : BoxId) (b : Box) : Party := ⟨.container c, b.serving⟩

def slaveParty (c : BoxId) (sl : Slave) : Party := ⟨.slave c, sl.request⟩

-- ---------------------------------------------------------------------------
-- The worker
-- ---------------------------------------------------------------------------

/-- `Worker::_die`. -/
def die (s : Sys) : Sys := { s with alive := false }

/-- The task is for a permanent container. -/
def permanentAllowed (task : Task) : Bool := !(task.needIpc || !task.useStandardBinds)

/-- `id_getter_->get()`, in one step. `mutex_` and what becomes of it where a worker dies
inside are in `Mutex`. -/
def getId (s : Sys) (i next : Nat) : Sys :=
  match s.ids.stack with
  | [] => s.die
  | id :: stack => { s with ids := { s.ids with stack }, worker := .startContainer i next id }

/-- One round of `Worker::prepare_containers`, up to the new container if there is to be
one. -/
def prepareContainer (s : Sys) (i next : Nat) (task : Task) : Sys :=
  if permanentAllowed task then
    match s.permanent[next]? with
    | some c =>
      { s with
        containers := s.containers ++ [c]
        worker := .prepareContainers (i + 1) (next + 1) }
    | none => s.getId i next
  else s.getId i next

/-- `new Container(id, permanent)` and `start()`. -/
def newContainer (s : Sys) (id : Uid) (task : Task) : Sys :=
  { s.setBox s.started
      { id, permanent := permanentAllowed task, startedFor := task, pc := .prepare } with
    started := s.started + 1
    containers := s.containers ++ [s.started] }

theorem newContainer_box_self (s : Sys) (id : Uid) (task : Task) :
    (s.newContainer id task).box s.started =
      { id, permanent := permanentAllowed task, startedFor := task, pc := .prepare } :=
  setBox_box_self ..

theorem newContainer_box_ne (s : Sys) (id : Uid) (task : Task) {c : BoxId} (h : c ≠ s.started) :
    (s.newContainer id task).box c = s.box c :=
  setBox_box_ne s _ h

/-- The rest of the round. -/
def startContainer (s : Sys) (i next : Nat) (id : Uid) (task : Task) : Sys :=
  if permanentAllowed task then
    { s.newContainer id task with
      permanent := s.permanent ++ [s.started]
      worker := .prepareContainers (i + 1) (next + 1) }
  else
    { s.newContainer id task with
      temporary := s.temporary ++ [s.started]
      worker := .prepareContainers (i + 1) next }

/-- The worker comes to the barrier of a container. -/
def callContainer (s : Sys) (c : BoxId) : Sys :=
  s.setBox c { s.box c with barrier := (s.box c).barrier.arrive .worker }

/-- The next step of the worker while it processes a request. -/
def workerStep (s : Sys) : Option Sys :=
  match s.worker with
  | .accept => none
  | .prepareContainers i next =>
    match s.tasks[i]? with
    | none => some { s with worker := .resetBarrier }
    | some task => some (s.prepareContainer i next task)
  | .startContainer i next id =>
    match s.tasks[i]? with
    | none => none
    | some task => some (s.startContainer i next id task)
  | .resetBarrier =>
    -- reset() takes a uint32_t
    let count := UInt32.ofNat (s.containers.length * 2 + 1)
    some { s with start := ⟨count.toNat, []⟩, worker := .writeTasks 0 }
  | .writeTasks i =>
    match s.tasks[i]?, s.containers[i]? with
    | none, _ => some { s with worker := .taskBarrier 0 }
    | some _, none => none
    | some task, some c =>
      if Block.refuses task then some s.die
      else some { s.setBox c { s.box c with block := Block.setTask s.request task } with
        worker := .writeTasks (i + 1) }
  | .taskBarrier i =>
    match s.containers[i]? with
    | none => some { s with worker := .startBarrier }
    | some c => some { s.callContainer c with worker := .awaitTask i }
  | .awaitTask i =>
    match s.containers[i]? with
    | none => none
    | some c =>
      if .worker ∈ (s.box c).barrier.waiting then none
      else some { s with worker := .taskBarrier (i + 1) }
  | .startBarrier => some { s with start := s.start.arrive s.workerParty, worker := .awaitStart }
  | .awaitStart =>
    if s.workerParty ∈ s.start.waiting then none else some { s with worker := .closePipes }
  | .closePipes => some { s with worker := .resultsBarrier 0 }
  | .resultsBarrier i =>
    match s.tasks[i]?, s.containers[i]? with
    | none, _ => some { s with worker := .putId 0 }
    | some _, none => none
    | some _, some c => some { s.callContainer c with worker := .awaitResults i }
  | .awaitResults i =>
    match s.containers[i]? with
    | none => none
    | some c =>
      if .worker ∈ (s.box c).barrier.waiting then none
      else some { s with worker := .putResults i }
  | .putResults i =>
    match s.tasks[i]?, s.containers[i]? with
    | some task, some c =>
      some { s with
        tasks := s.tasks.set i ((s.box c).block.putResults task)
        worker := .resultsBarrier (i + 1) }
    | _, _ => none
  | .putId i =>
    match s.temporary[i]? with
    | none =>
      some { s with
        tasks := [], temporary := [], containers := []
        worker := .accept
        responses := s.responses ++ [s.tasks] }
    | some c =>
      if s.ids.stack.length = idCount then some s.die
      else some { s with
        ids := { s.ids with stack := (s.box c).id :: s.ids.stack }
        worker := .waitpid i }
  | .waitpid i =>
    match s.temporary[i]? with
    | none => none
    | some c => if (s.box c).Ended then some { s with worker := .putId (i + 1) } else none

-- ---------------------------------------------------------------------------
-- The containers
-- ---------------------------------------------------------------------------

/-- The next step of a container, apart from the end of `wait_for_slave`. -/
def containerStep (s : Sys) (c : BoxId) : Option Sys :=
  let b := s.box c
  let goto (pc : ContainerAt) : Option Sys := some (s.setBox c { b with pc })
  match b.pc with
  | .unborn | .readUsage | .exited | .died | .killed => none
  | .prepare => some (s.setBox c { b with armed := s.alive, pc := .prepareRoot })
  | .prepareRoot =>
    some (s.setBox c { b with
      standardRules := b.standardRules || b.block.task.useStandardBinds
      pc := if b.permanent then .disableIpcs else .taskBarrier })
  | .disableIpcs => some (s.setBox c { b with ipcsDisabled := true, pc := .taskBarrier })
  | .taskBarrier =>
    some (s.setBox c { b with barrier := b.barrier.arrive .container, pc := .awaitTask })
  | .awaitTask =>
    if .container ∈ b.barrier.waiting then none
    else some (s.setBox c { b with serving := s.request, pc := .mountBinds })
  | .mountBinds => goto .createCgroups
  | .createCgroups => goto .fork
  | .fork =>
    some (s.setBox c { b with slave := some ⟨.startBarrier, b.serving⟩, pc := .startBarrier })
  | .startBarrier =>
    some { s.setBox c { b with pc := .awaitStart } with
      start := s.start.arrive (containerParty c b) }
  | .awaitStart =>
    if containerParty c b ∈ s.start.waiting then none else goto .waitForSlave
  | .waitForSlave =>
    -- waitpid() returns the slave
    match b.slave with
    | some ⟨.zombie status, _⟩ =>
      some (s.setBox c { b.killAll with
        block := b.block.setStatus b.serving status, pc := .readUsage })
    | _ => none
  | .umountBinds => goto .resultsBarrier
  | .resultsBarrier =>
    some (s.setBox c { b with barrier := b.barrier.arrive .container, pc := .awaitResults })
  | .awaitResults =>
    if .container ∈ b.barrier.waiting then none
    else goto (if b.permanent then .cleanupRoot else .exit)
  | .cleanupRoot => goto .taskBarrier
  | .exit => goto .exited

/-- A tick of the timer inside `wait_for_slave`. -/
def tick (s : Sys) (c : BoxId) (cpuMs wallMs : Int64) : Option Sys :=
  let b := s.box c
  if b.pc = .waitForSlave then
    if b.block.limitExceeded cpuMs wallMs then some (s.setBox c { b.killAll with pc := .readUsage })
    else some s
  else none

/-- The end of `wait_for_slave`. The signal of the slave that has been waited for is
delivered before `waitpid` returns. -/
def readUsage (s : Sys) (c : BoxId) (u : Usage) : Option Sys :=
  let b := s.box c
  if b.pc = .readUsage ∧ b.sigchld = none then
    let b := { b with block := b.block.setUsage b.serving u }
    some (s.setBox c (if b.block.error then b.stop .died else { b with pc := .umountBinds }))
  else none

/-- `Container::sigchld_action`. -/
def containerSigchld (s : Sys) (c : BoxId) : Option Sys :=
  let b := s.box c
  match b.sigchld with
  | none => none
  | some status =>
    if b.Alive then
      if b.block.error ∧ status ≠ .exited 0 then some (s.setBox c (b.stop .died))
      else some (s.setBox c { b with sigchld := none })
    else none

-- ---------------------------------------------------------------------------
-- The slaves
-- ---------------------------------------------------------------------------

/-- The next step of a slave, up to its target. -/
def slaveStep (pathEnv : Option Str) (s : Sys) (c : BoxId) : Option Sys :=
  let b := s.box c
  match b.slave with
  | none => none
  | some sl =>
    let goto (pc : SlaveAt) (block : Block) : Option Sys :=
      some (s.setBox c { b with slave := some { sl with pc }, block })
    match sl.pc with
    | .startBarrier =>
      some { s.setBox c { b with slave := some { sl with pc := .awaitStart } } with
        start := s.start.arrive (slaveParty c sl) }
    | .awaitStart =>
      if slaveParty c sl ∈ s.start.waiting then none
      else goto .openFiles ({ b.block with error := false }.wrote (.slave sl.request) [.error])
    | .openFiles =>
      goto .dup2Fds (b.block.wrote (.slave sl.request) (Block.openedFds b.block.task))
    | .dup2Fds => goto .closeAllFds b.block
    | .closeAllFds => goto .setupRlimits b.block
    | .setupRlimits => goto .addPath b.block
    | .addPath =>
      goto .exec (if Block.addsPath pathEnv b.block.task then
        b.block.wrote (.slave sl.request) [.env] else b.block)
    | .exec => goto .running b.block
    | .setError =>
      goto .exitFailure ({ b.block with error := true }.wrote (.slave sl.request) [.error])
    | .exitFailure => some (s.setBox c (b.slaveEnds .exitFailure sl))
    | .running | .zombie _ => none

/-- The target ends. -/
def exit (s : Sys) (c : BoxId) (status : WaitStatus) : Option Sys :=
  match (s.box c).slave with
  | some ⟨.running, request⟩ => some (s.setBox c ((s.box c).slaveEnds status ⟨.running, request⟩))
  | _ => none

-- ---------------------------------------------------------------------------
-- Failing calls and the deaths that follow from them
-- ---------------------------------------------------------------------------

/-- A process inside a barrier, or one that ends or has ended, makes no call that
fails. -/
def failContainer (s : Sys) (c : BoxId) : Option Sys :=
  let b := s.box c
  match b.pc with
  | .unborn | .awaitTask | .awaitStart | .awaitResults | .exit | .exited | .died | .killed => none
  | _ => some (s.setBox c (b.stop .died))

/-- A slave calls `die`. -/
def failSlave (s : Sys) (c : BoxId) : Option Sys :=
  let b := s.box c
  match b.slave with
  | none => none
  | some sl =>
    match sl.pc with
    | .awaitStart | .running | .setError | .exitFailure | .zombie _ => none
    | _ => some (s.setBox c { b with slave := some { sl with pc := .setError } })

def failWorker (s : Sys) : Option Sys :=
  match s.worker with
  | .awaitTask _ | .awaitStart | .awaitResults _ | .waitpid _ => none
  | _ => some s.die

/-- A call of the process fails, and it dies. -/
def fail (s : Sys) : Proc → Option Sys
  | .worker => if s.alive then s.failWorker else none
  | .container c => s.failContainer c
  | .slave c => s.failSlave c

/-- `Worker::sigchld_action` for a container that has not exited with 0. Here there is one
for each of them, and it is never lost; `Signaled` has the one pending signal of the kernel. -/
def workerSigchld (s : Sys) (c : BoxId) : Option Sys :=
  if s.alive ∧ (s.box c).pc = .died then some s.die else none

/-- The kernel kills a container whose parent has died. -/
def parentDied (s : Sys) (c : BoxId) : Option Sys :=
  if ¬ s.alive ∧ (s.box c).armed ∧ (s.box c).Alive then
    some (s.setBox c ((s.box c).stop .killed))
  else none

end Sys

-- ---------------------------------------------------------------------------
-- The system
-- ---------------------------------------------------------------------------

inductive Act where
  /-- A client's request, parsed and found valid. -/
  | accept (tasks : List Task)
  | worker
  | container (c : BoxId)
  | tick (c : BoxId) (cpuMs wallMs : Int64)
  | readUsage (c : BoxId) (u : Usage)
  | slave (c : BoxId)
  | exit (c : BoxId) (status : WaitStatus)
  | containerSigchld (c : BoxId)
  | workerSigchld (c : BoxId)
  | parentDied (c : BoxId)
  | fail (p : Proc)
  /-- Another worker takes an id from the getter, or puts one back. -/
  | othersGet
  | othersPut (id : Uid)

/-- One step of the system; `pathEnv` is the daemon's `PATH`. -/
def Sys.step (pathEnv : Option Str) (s : Sys) : Act → Option Sys
  | .accept tasks =>
    if s.alive ∧ s.worker = .accept then
      some { s with request := s.request + 1, tasks, worker := .prepareContainers 0 0 }
    else none
  | .worker => if s.alive then s.workerStep else none
  | .container c => s.containerStep c
  | .tick c cpuMs wallMs => s.tick c cpuMs wallMs
  | .readUsage c u => s.readUsage c u
  | .slave c => s.slaveStep pathEnv c
  | .exit c status => s.exit c status
  | .containerSigchld c => s.containerSigchld c
  | .workerSigchld c => s.workerSigchld c
  | .parentDied c => s.parentDied c
  | .fail p => s.fail p
  | .othersGet =>
    match s.ids.stack with
    | [] => none
    | id :: stack => some { s with ids := ⟨stack, id :: s.ids.elsewhere⟩ }
  | .othersPut id =>
    if id ∈ s.ids.elsewhere then
      some { s with ids := ⟨id :: s.ids.stack, s.ids.elsewhere.erase id⟩ }
    else none

end Libsbox
