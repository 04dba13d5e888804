import Mathlib.Logic.Function.Basic
import Mathlib.Tactic.Common
import Libsbox.Lib.Runs

/-!
# libsbox — the family of processes

The daemon, its workers, their containers and the programs inside of these, and how the
end of one of them comes to the others:

* downwards: a worker and a container ask to be killed when their parent dies
  (`PR_SET_PDEATHSIG`), and the kernel kills what is in a PID namespace with its first
  process, the container;
* upwards: a worker learns of its containers by `SIGCHLD`, of which only one can be
  pending, and the daemon of its workers by `wait`.

What the processes do besides is not modelled here: a process can end at any time.
-/

namespace Libsbox

/-- A process, by the order of the forks; the daemon is the first. -/
abbrev ProcId := Nat

inductive Role where
  | daemon
  | worker
  | container
  /-- The slave, the target, and whatever these start. -/
  | program
  deriving DecidableEq

/-- How far a process has come. `guarded` is behind `prctl`, and `serves` behind
`set_sigchld_action`; the daemon serves in the first loop of `run` and stops behind it. -/
inductive Stage where
  | starts
  | guarded
  | serves
  | stops
  | exited
  | died
  /-- By the kernel, because of the end of another one. -/
  | killed
  deriving DecidableEq

def Stage.Ended (g : Stage) : Prop := g = .exited ∨ g = .died ∨ g = .killed

/-- `prctl` and `set_sigchld_action` are behind it. -/
def Stage.Serving (g : Stage) : Prop := g = .serves ∨ g = .stops

instance Stage.decidableEnded (g : Stage) : Decidable g.Ended := inferInstanceAs (Decidable (_ ∨ _))

/-- `guardian` is the process whose end is to be the end of this one, and `armed` says that
the kernel knows. `sigchld` is the pending `SIGCHLD`: whether it is about an `_exit(0)`. -/
structure Member where
  role : Role := .program
  guardian : ProcId := 0
  stage : Stage := .starts
  armed : Bool := false
  sigchld : Option Bool := none
  waited : Bool := false

structure Family where
  born : Nat := 1
  proc : ProcId → Member := fun _ => { role := .daemon }

inductive FamilyAct where
  | fork (p : ProcId) (role : Role)
  /-- The next call of a process: `prctl`, `set_sigchld_action`, `wait` of the daemon. -/
  | next (p : ProcId)
  /-- `SIGTERM` ends the first loop of the daemon. -/
  | stop
  /-- `_exit(0)`. -/
  | exit (p : ProcId)
  /-- `die`, or a signal from elsewhere. -/
  | die (p : ProcId)
  /-- The kernel kills a process whose guardian has ended. -/
  | parentDied (p : ProcId)
  /-- `Worker::sigchld_action`. -/
  | sigchld (p : ProcId)
  /-- `wait` of the daemon returns a worker. -/
  | wait (p : ProcId)

namespace Family

def initial : Family := {}

def Alive (f : Family) (p : ProcId) : Prop := p < f.born ∧ ¬ (f.proc p).stage.Ended

instance (f : Family) (p : ProcId) : Decidable (f.Alive p) := inferInstanceAs (Decidable (_ ∧ _))

def set (f : Family) (p : ProcId) (q : Member) : Family := { f with proc := Function.update f.proc p q }

@[simp] theorem set_self (f : Family) (p : ProcId) (q : Member) : (f.set p q).proc p = q := by
  simp [set]

theorem set_ne {f : Family} {p p' : ProcId} (q : Member) (h : p' ≠ p) : (f.set p q).proc p' = f.proc p' := by
  simp [set, h]

@[simp] theorem set_born (f : Family) (p : ProcId) (q : Member) : (f.set p q).born = f.born := rfl

/-- Whom a process forks, and where. -/
def Forks : Role → Stage → Role → Prop
  | .daemon, .starts, .worker => True
  | .worker, .serves, .container => True
  | .container, .serves, .program => True
  | .program, .serves, .program => True
  | _, _, _ => False

instance (role : Role) (stage : Stage) (role' : Role) : Decidable (Forks role stage role') := by
  unfold Forks
  split <;> infer_instance

/-- A new process of `p`. A program is in the namespace of its container from the start. -/
def child (f : Family) (p : ProcId) : Role → Member
  | .program =>
    { role := .program
      guardian := if (f.proc p).role = .container then p else (f.proc p).guardian
      stage := .serves
      armed := true }
  | role => { role, guardian := p }

def fork (f : Family) (p : ProcId) (role : Role) : Option Family :=
  if f.Alive p ∧ Forks (f.proc p).role (f.proc p).stage role then
    some { f.set f.born (f.child p role) with born := f.born + 1 }
  else none

def next (f : Family) (p : ProcId) : Option Family :=
  let q := f.proc p
  if f.Alive p then
    match q.role, q.stage with
    | .daemon, .starts => some (f.set p { q with stage := .serves })
    -- a process whose parent has died already has another one, and getppid() is not 0
    | .worker, .starts | .container, .starts =>
      some (f.set p { q with stage := .guarded, armed := f.Alive q.guardian })
    | .worker, .guarded | .container, .guarded => some (f.set p { q with stage := .serves })
    | _, _ => none
  else none

/-- A container has ended: its worker gets a `SIGCHLD`, unless one is pending. -/
def notify (f : Family) (p : ProcId) (clean : Bool) : Family :=
  let w := (f.proc p).guardian
  if (f.proc p).role = .container ∧ f.Alive w ∧ (f.proc w).sigchld = none then
    f.set w { f.proc w with sigchld := some clean }
  else f

def finish (f : Family) (p : ProcId) (stage : Stage) : Family := f.set p { f.proc p with stage }

/-- The daemon exits when it has waited for all workers. -/
def MayExit (f : Family) (p : ProcId) : Prop :=
  match (f.proc p).role, (f.proc p).stage with
  | .daemon, .stops =>
    ∀ w, w < f.born → (f.proc w).role = .worker → (f.proc w).waited = true
  | .worker, .serves | .container, .serves | .program, .serves => True
  | _, _ => False

instance (f : Family) (p : ProcId) : Decidable (f.MayExit p) := by
  unfold MayExit
  split <;> infer_instance

def sigchld (f : Family) (p : ProcId) : Option Family :=
  let q := f.proc p
  if f.Alive p ∧ q.role = .worker ∧ q.stage = .serves then
    match q.sigchld with
    | none => none
    | some clean => some (f.set p { q with sigchld := none, stage := if clean then .serves else .died })
  else none

/-- In the first loop any worker that has ended is a reason to die. -/
def wait (f : Family) (p : ProcId) : Option Family :=
  let q := f.proc p
  let d := f.proc 0
  if p < f.born ∧ q.role = .worker ∧ q.stage.Ended ∧ q.waited = false then
    if d.stage = .serves ∨ d.stage = .stops ∧ q.stage ≠ .exited then
      some ((f.finish 0 .died).set p { q with waited := true })
    else if d.stage = .stops then some (f.set p { q with waited := true })
    else none
  else none

def step (f : Family) : FamilyAct → Option Family
  | .fork p role => f.fork p role
  | .next p => f.next p
  | .stop => if (f.proc 0).stage = .serves then some (f.finish 0 .stops) else none
  | .exit p => if f.Alive p ∧ f.MayExit p then some ((f.notify p true).finish p .exited) else none
  | .die p => if f.Alive p then some ((f.notify p false).finish p .died) else none
  | .parentDied p =>
    if f.Alive p ∧ (f.proc p).armed = true ∧ p ≠ 0 ∧ ¬ f.Alive (f.proc p).guardian then
      some (f.finish p .killed)
    else none
  | .sigchld p => f.sigchld p
  | .wait p => f.wait p

end Family

end Libsbox
