import Libsbox.Client.RunTogether
import Libsbox.Model.Service

/-!
# libsbox — the clients of the service

The service together with the processes that call `run_together`, and the bytes between
them. A client sends its message and receives until the end of the stream; a worker
receives up to the NUL, writes its response and closes the connection. The kernel hands
over any number of bytes at a time, and any call on the socket can fail. The calls of one
process share its static validator. Others than the library can connect as well, and send
what they like.
-/

namespace Libsbox

open CMemory

/-- What has become of a call of `run_together`, and of its process. -/
inductive ClientAt where
  | calling
  | returned (exchange : Exchange) (outcome : Outcome)
  /-- The process has died. -/
  | gone
  /-- A process that does not use the library. -/
  | stranger

/-- The connection of a client. The worker `i` has accepted it, and had had `before` valid
requests then. -/
inductive Link where
  /-- `socket` or `connect` has failed. -/
  | none
  | waiting
  | opened (i before : Nat)
  | closed (i before : Nat)
  deriving DecidableEq

/-- A call of `run_together` by a process, or a stranger. `unsent` is what it has not handed
to the kernel, `up` and `down` what the kernel has of the two directions, and `chunks` is
what its `recv` has returned. -/
structure Client where
  process : Nat := 0
  tasks : List Task := []
  pc : ClientAt := .calling
  link : Link := .waiting
  unsent : Str := []
  up : Str := []
  down : Str := []
  chunks : List Str := []

/-- `validators` has the static `response_validator` of each process. -/
structure Session where
  service : Service := {}
  clients : List Client := []
  validators : Nat → Option SchemaValidator := fun _ => none

inductive SessionAct where
  | daemon (a : DaemonAct)
  /-- A step of a worker that neither accepts, receives nor writes. -/
  | worker (i : Nat) (a : ServeAct)
  /-- A process calls `run_together`, or connects otherwise. -/
  | call (process : Nat) (tasks : List Task)
  | visit
  /-- It calls `run_together`, and gets no connection. -/
  | cannotConnect (process : Nat) (tasks : List Task) (exchange : Exchange)
  | accept (i k : Nat)
  /-- The kernel takes more of the message. -/
  | send (k cnt : Nat)
  | babble (k : Nat) (bytes : Str)
  /-- The worker receives so many bytes, or the end of the stream. -/
  | recv (i k cnt : Nat)
  | write (i k cnt : Nat)
  /-- The client receives so many bytes. -/
  | read (k cnt : Nat)
  /-- It receives the end of the stream, and `run_together` returns. -/
  | ends (k : Nat)
  /-- Its `send` or its `recv` fails, and `run_together` returns. -/
  | fails (k : Nat) (exchange : Exchange)
  | leave (k : Nat)

/-- It keeps its end open, sends and receives. -/
def ClientAt.isCalling : ClientAt → Bool
  | .calling => true
  | _ => false

/-- `socket` or `connect` fails. -/
def Exchange.isUnconnected : Exchange → Bool
  | .socketFailed _ | .connectFailed _ => true
  | _ => false

/-- With these bytes of the message left, `send` fails, or without any, `recv`. -/
def Exchange.isCutOff (unsent : Str) : Exchange → Bool
  | .sendFailed _ => !unsent.isEmpty
  | .recvFailed _ => unsent.isEmpty
  | _ => false

namespace Client

def call (rj : Rapidjson) (process : Nat) (tasks : List Task) : Client where
  process
  tasks
  unsent := requestMessage rj tasks

/-- `run_together` returns. -/
def returns (rj : Rapidjson) (validator : Option SchemaValidator) (exchange : Exchange)
    (c : Client) : Client :=
  { c with pc := .returned exchange (runTogether rj c.tasks exchange validator).1 }

/-- The worker `i` closes the connection. -/
def hangUp (i : Nat) (c : Client) : Client :=
  match c.link with
  | .opened j before => if j = i then { c with link := .closed j before } else c
  | _ => c

end Client

namespace Session

def setClient (s : Session) (k : Nat) (c : Client) : Session :=
  { s with clients := s.clients.set k c }

/-- The step is the `close` of a connection. -/
def closes (s : Session) (i : Nat) : ServeAct → Bool
  | .next => (s.service.workers[i]?).any fun v => v.pc = .close
  | _ => false

/-- The step is about the bytes of a connection, or about a new one. -/
def onSocket : ServeAct → Bool
  | .connection | .received _ | .transfer _ => true
  | _ => false

/-- The worker at the other end has closed the connection, or ended. -/
def hungUp (s : Session) : Link → Bool
  | .none | .waiting => false
  | .opened i _ => (s.service.workers[i]?).any fun v => v.pc.Ended
  | .closed _ _ => true

/-- One step of the service and its clients. -/
def step (rj : Rapidjson) (pathEnv : Option Str) (config : Config) (s : Session) :
    SessionAct → Option Session
  | .daemon a => do
    let service ← s.service.step rj pathEnv config (.daemon a)
    return { s with service }
  | .worker i a => do
    if onSocket a then none
    else
      let service ← s.service.step rj pathEnv config (.worker i a)
      let clients := if s.closes i a then s.clients.map (Client.hangUp i) else s.clients
      return { s with service, clients }
  | .call process tasks => do
    let service ← s.service.step rj pathEnv config .connect
    return { s with service, clients := s.clients ++ [Client.call rj process tasks] }
  | .visit => do
    let service ← s.service.step rj pathEnv config .connect
    return { s with service, clients := s.clients ++ [{ pc := .stranger }] }
  | .cannotConnect process tasks exchange =>
    if exchange.isUnconnected then
      let c : Client := { process, tasks, link := .none }
      some { s with clients := s.clients ++ [c.returns rj (s.validators process) exchange] }
    else none
  | .accept i k => do
    let c ← s.clients[k]?
    let v ← s.service.workers[i]?
    if c.link = .waiting then
      let service ← s.service.step rj pathEnv config (.worker i .connection)
      return { s.setClient k { c with link := .opened i v.worker.valid.length } with service }
    else none
  | .send k cnt => do
    let c ← s.clients[k]?
    if c.pc.isCalling then
      return s.setClient k { c with unsent := c.unsent.drop cnt, up := c.up ++ c.unsent.take cnt }
    else none
  | .babble k bytes => do
    let c ← s.clients[k]?
    match c.pc with
    | .stranger => return s.setClient k { c with up := c.up ++ bytes }
    | _ => none
  | .recv i k cnt => do
    let c ← s.clients[k]?
    match c.link with
    | .opened j _ =>
      -- 0 is the end of the stream, which a caller of the library does not close before it returns
      if j = i ∧ cnt ≤ c.up.length ∧ (cnt = 0 → c.up = [] ∧ ¬ c.pc.isCalling) then
        let service ← s.service.step rj pathEnv config (.worker i (.received (c.up.take cnt)))
        return { s.setClient k { c with up := c.up.drop cnt } with service }
      else none
    | _ => none
  | .write i k cnt => do
    let c ← s.clients[k]?
    let v ← s.service.workers[i]?
    match c.link, v.pc with
    | .opened j _, .write response old =>
      if j = i then
        let service ← s.service.step rj pathEnv config (.worker i (.transfer cnt))
        return { s.setClient k { c with down := c.down ++ (response.drop old).take cnt } with service }
      else none
    | _, _ => none
  | .read k cnt => do
    let c ← s.clients[k]?
    if c.pc.isCalling ∧ c.unsent = [] ∧ 0 < cnt ∧ cnt ≤ 1023 ∧ cnt ≤ c.down.length then
      return s.setClient k { c with down := c.down.drop cnt, chunks := c.chunks ++ [c.down.take cnt] }
    else none
  | .ends k => do
    let c ← s.clients[k]?
    if c.pc.isCalling ∧ c.unsent = [] ∧ c.down = [] ∧ s.hungUp c.link then
      let held := s.validators c.process
      let left := (runTogether rj c.tasks (.received c.chunks) held).2
      return { s.setClient k (c.returns rj held (.received c.chunks)) with
        validators := Function.update s.validators c.process left }
    else none
  | .fails k exchange => do
    let c ← s.clients[k]?
    if c.pc.isCalling ∧ exchange.isCutOff c.unsent then
      return s.setClient k (c.returns rj (s.validators c.process) exchange)
    else none
  | .leave k => do
    let c ← s.clients[k]?
    match c.pc with
    | .returned _ _ => none
    | _ => return s.setClient k { c with pc := .gone }

end Session

end Libsbox
