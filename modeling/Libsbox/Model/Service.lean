import Libsbox.Model.Config
import Libsbox.Model.Signals
import Libsbox.Model.Worker

/-!
# libsbox — the daemon and its workers

`Daemon::run` and `Worker::serve` as one transition system: the daemon, the workers that
it has forked, and the clients that wait at its socket. A `SIGTERM` can be sent to each
process and is delivered at any of its steps; it interrupts the call that the process is
in, and `SA_RESTART` decides whether this call goes on.

A worker is followed from `ContextManager::set` on. Between two requests it is a `Worker`
that no call of `process` is under way in. The id getter of such a worker is its own: what
the other workers do to the shared one are steps of it.
-/

namespace Libsbox

open CMemory

-- ---------------------------------------------------------------------------
-- Worker::serve
-- ---------------------------------------------------------------------------

/-- What `serve` does next, in the order of the source. `accept` is inside the call;
`request` is what `recv` has read so far, and `cnt` how much of the response the kernel
has taken. -/
inductive ServeAt where
  | setpgrp
  | prctl
  | requestValidator
  | setSigchldAction
  | testTerminated
  | interruptAccept
  | callAccept
  | accept
  | acceptFailed
  | restartCalls
  | recv (request : Str)
  | process (request : Str)
  | processing
  | write (response : Str) (cnt : Nat)
  | close
  | exit
  | exited
  | died
  | killed
  deriving DecidableEq

namespace ServeAt

def Ended (pc : ServeAt) : Prop := pc = .exited ∨ pc = .died ∨ pc = .killed

instance (pc : ServeAt) : Decidable pc.Ended := inferInstanceAs (Decidable (_ ∨ _))

/-- A connection has been accepted that has no response yet. -/
def Serving : ServeAt → Prop
  | .restartCalls | .recv _ | .process _ | .processing | .write _ _ => True
  | _ => False

instance : DecidablePred Serving := fun pc => by
  cases pc <;> first | exact isTrue trivial | exact isFalse id

end ServeAt

/-- A process of `Worker::serve`. `armed` says that it is killed when the daemon dies,
`accepted` counts its connections, and `sent` are the responses written in full. -/
structure Server where
  pc : ServeAt := .setpgrp
  context : Context
  worker : Worker
  armed : Bool := false
  accepted : Nat := 0
  sent : List Str := []

inductive ServeAct where
  /-- The next call that does not block. -/
  | next
  /-- `accept` returns a connection. -/
  | connection
  /-- `recv` returns these bytes, or the end of the stream. -/
  | received (chunk : Str)
  /-- A step of `process`, or of a container. -/
  | work (wa : WorldAct)
  /-- The kernel takes more of the response. -/
  | transfer (cnt : Nat)
  /-- A call fails. -/
  | fail
  /-- Somebody sends `SIGTERM`. -/
  | kill
  | deliver
  /-- The kernel kills the worker of a daemon that has died. -/
  | parentDied

namespace Server

/-- `process` has gone on to `worker`. -/
def processed (v : Server) (worker : Worker) : Server :=
  { v with
    worker
    pc := if ¬ worker.world.sys.alive then .died
      else if worker.world.sys.worker = .accept then .write (worker.replies.getLast?.getD []) 0
      else .processing }

def next (rj : Rapidjson) (pathEnv : Option Str) (daemonAlive : Bool) (v : Server) :
    Option Server :=
  match v.pc with
  | .setpgrp => some { v with pc := .prctl }
  -- getppid() is not 0, not even when the daemon has died
  | .prctl => some { v with armed := daemonAlive, pc := .requestValidator }
  | .requestValidator => some { v with pc := .setSigchldAction }
  | .setSigchldAction => some { v with pc := .testTerminated }
  | .testTerminated =>
    some { v with pc := if v.context.terminated then .exit else .interruptAccept }
  | .interruptAccept => some { v with context := v.context.setRestart false, pc := .callAccept }
  | .callAccept => some { v with pc := .accept }
  | .acceptFailed => some { v with pc := if v.context.terminated then .exit else .died }
  | .restartCalls => some { v with context := v.context.setRestart true, pc := .recv [] }
  | .process request => (v.worker.process rj pathEnv request).map v.processed
  | .write response cnt =>
    if cnt = response.length then some { v with sent := v.sent ++ [response], pc := .close }
    else none
  | .close => some { v with pc := .testTerminated }
  | .exit => some { v with pc := .exited }
  | .accept | .recv _ | .processing | .exited | .died | .killed => none

/-- `recv` returns. The buffer is read as a string, and a NUL in it ends the request. -/
def received (v : Server) (chunk : Str) : Option Server :=
  match v.pc with
  | .recv request =>
    if chunk.length < 1024 then
      some { v with
        pc := if chunk = [] ∨ 0 ∈ chunk then .process (request ++ cstr chunk)
          else .recv (request ++ cstr chunk) }
    else none
  | _ => none

/-- A step of `process` or of a container. -/
def work (rj : Rapidjson) (pathEnv : Option Str) (v : Server) (wa : WorldAct) : Option Server :=
  if v.pc.Ended then none
  else
    (v.worker.step rj pathEnv (.world wa)).map fun worker =>
      if v.pc = .processing then v.processed worker
      else { v with worker, pc := if worker.world.sys.alive then v.pc else .died }

def transfer (v : Server) (more : Nat) : Option Server :=
  match v.pc with
  | .write response cnt =>
    if cnt + more ≤ response.length then some { v with pc := .write response (cnt + more) }
    else none
  | _ => none

/-- A call fails by itself. -/
def fail (v : Server) : Option Server :=
  match v.pc with
  | .accept => some { v with pc := .acceptFailed }
  | .setpgrp | .prctl | .requestValidator | .setSigchldAction | .interruptAccept | .restartCalls
  | .recv _ | .write _ _ | .close => some { v with pc := .died }
  | _ => none

/-- The call that `serve` is in, when a handler has returned: all but the first fail with
`die`, and a `write` that has transferred something is not restarted. -/
def interrupted (restart : Bool) (v : Server) : ServeAt :=
  match v.pc with
  | .accept => if restart then .accept else .acceptFailed
  | .recv request => if restart then .recv request else .died
  | .processing =>
    match v.worker.world.sys.worker with
    | .waitpid _ => if restart then .processing else .died
    | _ => .processing
  | .write response cnt =>
    if cnt = response.length ∨ cnt = 0 ∧ restart = true then .write response cnt else .died
  | pc => pc

/-- `SIGTERM` is delivered. -/
def deliver (v : Server) : Option Server :=
  if v.context.pending = true ∧ ¬ v.pc.Ended then
    let (delivery, context) := v.context.deliver
    some { v with
      context
      pc := match delivery with
        | .ignored => v.pc
        | .killed => .killed
        | .dies => .died
        | .returns restart => v.interrupted restart }
  else none

/-- One step of a worker; `clients` says that somebody waits at the socket. -/
def step (rj : Rapidjson) (pathEnv : Option Str) (daemonAlive clients : Bool) (v : Server) :
    ServeAct → Option Server
  | .next => v.next rj pathEnv daemonAlive
  | .connection =>
    if v.pc = .accept ∧ clients = true then
      some { v with pc := .restartCalls, accepted := v.accepted + 1 }
    else none
  | .received chunk => v.received chunk
  | .work wa => v.work rj pathEnv wa
  | .transfer more => v.transfer more
  | .fail => v.fail
  | .kill => some { v with context := { v.context with pending := true } }
  | .deliver => v.deliver
  | .parentDied =>
    if daemonAlive = false ∧ v.armed = true ∧ ¬ v.pc.Ended then some { v with pc := .killed }
    else none

end Server

-- ---------------------------------------------------------------------------
-- Daemon::run
-- ---------------------------------------------------------------------------

/-- What `run` does next. `wait` is inside the call of the first loop; `i` and `count` are
those of the loops behind it. -/
inductive DaemonAt where
  | prepare
  | prepareSignals
  | prepareSocket
  | startWorkers
  | callWait
  | wait
  | waitFailed
  | unlinkSocket
  | closeSocket
  | killWorkers (i : Nat)
  | waitWorkers (count : Nat)
  | exited
  | died
  | killed
  deriving DecidableEq

def DaemonAt.Ended (pc : DaemonAt) : Prop := pc = .exited ∨ pc = .died ∨ pc = .killed

instance (pc : DaemonAt) : Decidable pc.Ended := inferInstanceAs (Decidable (_ ∨ _))

structure Daemon where
  pc : DaemonAt := .prepare
  context : Context := {}

inductive DaemonAct where
  | next
  /-- `wait` returns this worker. -/
  | waits (j : Nat)
  | fail
  | kill
  | deliver

/-- The daemon, its workers, those that it has waited for, and the number of clients
that wait at its socket. -/
structure Service where
  daemon : Daemon := {}
  workers : List Server := []
  reaped : List Nat := []
  clients : Nat := 0

inductive ServiceAct where
  | daemon (a : DaemonAct)
  | worker (i : Nat) (a : ServeAct)
  /-- A client connects. -/
  | connect

namespace Service

/-- Right behind `ContextManager::set(this, "daemon")`. -/
def initial : Service := {}

/-- `Worker::start`, up to `ContextManager::set(this, "worker")` in the child, which
inherits the actions of the signals. -/
def forked (config : Config) (d : Daemon) : Server where
  context := { signals := d.context.signals }
  worker := .initial config.firstUid

def setWorker (s : Service) (i : Nat) (v : Server) : Service :=
  { s with workers := s.workers.set i v }

def daemonNext (config : Config) (s : Service) : Option Service :=
  let goto (pc : DaemonAt) : Option Service := some { s with daemon := { s.daemon with pc } }
  match s.daemon.pc with
  | .prepare => goto .prepareSignals
  | .prepareSignals =>
    let context := { s.daemon.context with signals := s.daemon.context.signals.prepareSignals }
    some { s with daemon := { context, pc := .prepareSocket } }
  | .prepareSocket => goto .startWorkers
  | .startWorkers =>
    if s.workers.length < config.numBoxes.toNat then
      some { s with workers := s.workers ++ [forked config s.daemon] }
    else goto .callWait
  | .callWait => goto .wait
  -- ECHILD
  | .wait => if s.workers = [] then goto .waitFailed else none
  | .waitFailed => goto (if s.daemon.context.terminated then .unlinkSocket else .died)
  | .unlinkSocket => goto .closeSocket
  | .closeSocket => goto (.killWorkers 0)
  | .killWorkers i =>
    match s.workers[i]? with
    | none => goto (.waitWorkers 0)
    | some v =>
      let v := { v with context := { v.context with pending := true } }
      some { s.setWorker i v with daemon := { s.daemon with pc := .killWorkers (i + 1) } }
  | .waitWorkers count => if count < s.workers.length then none else goto .exited
  | .exited | .died | .killed => none

/-- `wait` returns the `j`-th worker. -/
def daemonWaits (s : Service) (j : Nat) : Option Service :=
  let goto (pc : DaemonAt) : Service :=
    { s with daemon := { s.daemon with pc }, reaped := j :: s.reaped }
  match s.workers[j]? with
  | none => none
  | some v =>
    if v.pc.Ended ∧ j ∉ s.reaped then
      match s.daemon.pc with
      | .wait => some (goto .died)
      | .waitWorkers count =>
        if count < s.workers.length then
          some (goto (if v.pc = .exited then .waitWorkers (count + 1) else .died))
        else none
      | _ => none
    else none

/-- A call fails, and the daemon dies. -/
def daemonFail (s : Service) : Option Service :=
  match s.daemon.pc with
  | .prepare | .prepareSignals | .prepareSocket | .startWorkers | .unlinkSocket | .closeSocket
  | .killWorkers _ => some { s with daemon := { s.daemon with pc := .died } }
  | _ => none

/-- The call that `run` is in, when a handler has returned. -/
def daemonInterrupted (restart : Bool) : DaemonAt → DaemonAt
  | .wait => if restart then .wait else .waitFailed
  | .waitWorkers count => if restart then .waitWorkers count else .died
  | pc => pc

def daemonDeliver (s : Service) : Option Service :=
  if s.daemon.context.pending = true ∧ ¬ s.daemon.pc.Ended then
    let (delivery, context) := s.daemon.context.deliver
    let pc := match delivery with
      | .ignored => s.daemon.pc
      | .killed => .killed
      | .dies => .died
      | .returns restart => daemonInterrupted restart s.daemon.pc
    some { s with daemon := { context, pc } }
  else none

def daemonStep (config : Config) (s : Service) : DaemonAct → Option Service
  | .next => s.daemonNext config
  | .waits j => s.daemonWaits j
  | .fail => s.daemonFail
  | .kill =>
    let context := { s.daemon.context with pending := true }
    some { s with daemon := { s.daemon with context } }
  | .deliver => s.daemonDeliver

/-- One client less waits, if the step takes one. -/
def clientsAfter (s : Service) : ServeAct → Nat
  | .connection => s.clients - 1
  | _ => s.clients

/-- One step of the service. -/
def step (rj : Rapidjson) (pathEnv : Option Str) (config : Config) (s : Service) :
    ServiceAct → Option Service
  | .daemon a => s.daemonStep config a
  | .worker i a => do
    let v ← s.workers[i]?
    let v ← v.step rj pathEnv (!decide s.daemon.pc.Ended) (0 < s.clients) a
    return { s.setWorker i v with clients := s.clientsAfter a }
  | .connect => some { s with clients := s.clients + 1 }

end Service

end Libsbox
