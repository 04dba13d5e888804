import Libsbox.Model.System

/-!
# libsbox — what a step can do to a container

`Box.Moves` lists every way in which a step of a container, of its slave, of a
signal handler or of the kernel changes the record of the container, with its
guard. The invariants of the protocol go through this list and do not unfold the
step functions.

## Results

* `step_of_box` — a step of a process of a container is one of these moves.
-/

namespace Libsbox

open CMemory

/-- The container that an action belongs to. -/
def Act.box? : Act → Option BoxId
  | .container c | .tick c _ _ | .readUsage c _ | .slave c | .exit c _ | .containerSigchld c
  | .parentDied c | .fail (.container c) | .fail (.slave c) => some c
  | .accept _ | .worker | .workerSigchld _ | .fail .worker | .othersGet | .othersPut _ => none

/-- Steps of a container that only go on. -/
inductive ContainerAt.Precedes : ContainerAt → ContainerAt → Prop where
  | mountBinds : Precedes .mountBinds .createCgroups
  | createCgroups : Precedes .createCgroups .fork
  | umountBinds : Precedes .umountBinds .resultsBarrier
  | cleanupRoot : Precedes .cleanupRoot .taskBarrier
  | exit : Precedes .exit .exited

/-- Steps of a slave that only go on, with the fields of the block that they write. -/
inductive SlaveAt.Precedes (pathEnv : Option Str) (task : Task) :
    SlaveAt → SlaveAt → List Field → Prop where
  | openFiles : Precedes pathEnv task .openFiles .dup2Fds (Block.openedFds task)
  | dup2Fds : Precedes pathEnv task .dup2Fds .closeAllFds []
  | closeAllFds : Precedes pathEnv task .closeAllFds .setupRlimits []
  | setupRlimits : Precedes pathEnv task .setupRlimits .addPath []
  | addPath (hAdds : Block.addsPath pathEnv task = true) :
    Precedes pathEnv task .addPath .exec [.env]
  | hasPath (hHas : Block.addsPath pathEnv task = false) : Precedes pathEnv task .addPath .exec []
  | exec : Precedes pathEnv task .exec .running []

/-- The places of a container in which a call can fail. -/
def ContainerAt.CanFail (pc : ContainerAt) : Prop :=
  pc ≠ .unborn ∧ pc ≠ .awaitTask ∧ pc ≠ .awaitStart ∧ pc ≠ .awaitResults ∧ pc ≠ .exit ∧
    pc ≠ .exited ∧ pc ≠ .died ∧ pc ≠ .killed

/-- The places of a slave in which a call can fail. -/
def SlaveAt.CanFail (pc : SlaveAt) : Prop :=
  pc ≠ .awaitStart ∧ pc ≠ .running ∧ pc ≠ .setError ∧ pc ≠ .exitFailure ∧
    ∀ status, pc ≠ .zombie status

/-- A step turns `b`, the record of `c` in `s`, into another one. With it `some p`
comes to the start barrier. -/
inductive Box.Moves (pathEnv : Option Str) (s : Sys) (c : BoxId) (b : Box) :
    Option Party → Box → Prop where
  | prepare (hPc : b.pc = .prepare) :
    Moves pathEnv s c b none { b with armed := s.alive, pc := .prepareRoot }
  | prepareRoot (hPc : b.pc = .prepareRoot) :
    Moves pathEnv s c b none { b with
      standardRules := b.standardRules || b.block.task.useStandardBinds
      pc := if b.permanent then .disableIpcs else .taskBarrier }
  | disableIpcs (hPc : b.pc = .disableIpcs) :
    Moves pathEnv s c b none { b with ipcsDisabled := true, pc := .taskBarrier }
  | taskBarrier (hPc : b.pc = .taskBarrier) :
    Moves pathEnv s c b none { b with barrier := b.barrier.arrive .container, pc := .awaitTask }
  | awaitTask (hPc : b.pc = .awaitTask) (hFree : .container ∉ b.barrier.waiting) :
    Moves pathEnv s c b none { b with serving := s.request, pc := .mountBinds }
  | goOn {pc : ContainerAt} (hPc : b.pc.Precedes pc) : Moves pathEnv s c b none { b with pc }
  | fork (hPc : b.pc = .fork) :
    Moves pathEnv s c b none { b with slave := some ⟨.startBarrier, b.serving⟩, pc := .startBarrier }
  | startBarrier (hPc : b.pc = .startBarrier) :
    Moves pathEnv s c b (some (Sys.containerParty c b)) { b with pc := .awaitStart }
  | awaitStart (hPc : b.pc = .awaitStart) (hFree : Sys.containerParty c b ∉ s.start.waiting) :
    Moves pathEnv s c b none { b with pc := .waitForSlave }
  | reap {status : WaitStatus} {request : Nat} (hPc : b.pc = .waitForSlave)
      (hSlave : b.slave = some ⟨.zombie status, request⟩) :
    Moves pathEnv s c b none { b with
      slave := none, block := b.block.setStatus b.serving status, pc := .readUsage }
  | timeout {sigchld : Option WaitStatus} (hPc : b.pc = .waitForSlave) :
    Moves pathEnv s c b none { b with slave := none, sigchld, pc := .readUsage }
  | readUsage (u : Usage) (hPc : b.pc = .readUsage) (hHandled : b.sigchld = none)
      (hError : b.block.error = false) :
    Moves pathEnv s c b none { b with block := b.block.setUsage b.serving u, pc := .umountBinds }
  | slaveError (u : Usage) (hPc : b.pc = .readUsage) (hError : b.block.error = true) :
    Moves pathEnv s c b none ({ b with block := b.block.setUsage b.serving u }.stop .died)
  | resultsBarrier (hPc : b.pc = .resultsBarrier) :
    Moves pathEnv s c b none { b with barrier := b.barrier.arrive .container, pc := .awaitResults }
  | awaitResults (hPc : b.pc = .awaitResults) (hFree : .container ∉ b.barrier.waiting) :
    Moves pathEnv s c b none { b with pc := if b.permanent then .cleanupRoot else .exit }
  | sigchldDies {status : WaitStatus} (hAlive : b.Alive) (hPending : b.sigchld = some status)
      (hError : b.block.error = true) (hStatus : status ≠ .exited 0) :
    Moves pathEnv s c b none (b.stop .died)
  | sigchldReturns {status : WaitStatus} (hAlive : b.Alive) (hPending : b.sigchld = some status)
      (hHarmless : ¬ (b.block.error = true ∧ status ≠ .exited 0)) :
    Moves pathEnv s c b none { b with sigchld := none }
  | slaveArrives {sl : Slave} (hSlave : b.slave = some sl) (hPc : sl.pc = .startBarrier) :
    Moves pathEnv s c b (some (Sys.slaveParty c sl))
      { b with slave := some { sl with pc := .awaitStart } }
  | slaveStarts {sl : Slave} (hSlave : b.slave = some sl) (hPc : sl.pc = .awaitStart)
      (hFree : Sys.slaveParty c sl ∉ s.start.waiting) :
    Moves pathEnv s c b none { b with
      slave := some { sl with pc := .openFiles }
      block := { b.block with error := false }.wrote (.slave sl.request) [.error] }
  | slaveGoesOn {sl : Slave} {pc : SlaveAt} {fields : List Field} (hSlave : b.slave = some sl)
      (hPc : sl.pc.Precedes pathEnv b.block.task pc fields) :
    Moves pathEnv s c b none { b with
      slave := some { sl with pc }, block := b.block.wrote (.slave sl.request) fields }
  | slaveExits {sl : Slave} (status : WaitStatus) (hSlave : b.slave = some sl)
      (hPc : sl.pc = .running) :
    Moves pathEnv s c b none (b.slaveEnds status sl)
  | slaveFails {sl : Slave} (hSlave : b.slave = some sl) (hPc : sl.pc.CanFail) :
    Moves pathEnv s c b none { b with slave := some { sl with pc := .setError } }
  | slaveSetsError {sl : Slave} (hSlave : b.slave = some sl) (hPc : sl.pc = .setError) :
    Moves pathEnv s c b none { b with
      slave := some { sl with pc := .exitFailure }
      block := { b.block with error := true }.wrote (.slave sl.request) [.error] }
  | slaveDies {sl : Slave} (hSlave : b.slave = some sl) (hPc : sl.pc = .exitFailure) :
    Moves pathEnv s c b none (b.slaveEnds .exitFailure sl)
  | fails (hPc : b.pc.CanFail) : Moves pathEnv s c b none (b.stop .died)
  | parentDied (hDead : s.alive = false) (hArmed : b.armed = true) (hAlive : b.Alive) :
    Moves pathEnv s c b none (b.stop .killed)

/-- What a step of the worker makes of `b`, the record of `c`. -/
inductive Box.Worked (s : Sys) (c : BoxId) (b : Box) : Box → Prop where
  | kept : Box.Worked s c b b
  | called : Box.Worked s c b { b with barrier := b.barrier.arrive .worker }
  | written {i : Nat} {task : Task} (hWorker : s.worker = .writeTasks i)
      (hTask : s.tasks[i]? = some task) (hUsed : s.containers[i]? = some c) :
    Box.Worked s c b { b with block := Block.setTask s.request task }
  | started {i next : Nat} {id : Uid} {task : Task} (hAlive : s.alive = true)
      (hWorker : s.worker = .startContainer i next id) (hTask : s.tasks[i]? = some task)
      (hNew : c = s.started) :
    Box.Worked s c b
      { id, permanent := Sys.permanentAllowed task, startedFor := task, pc := .prepare }

theorem Block.wrote_nil (w : Write) (b : Block) : b.wrote w [] = b := by
  simp [Block.wrote]

@[simp] theorem Block.setStatus_error (request : Nat) (status : WaitStatus) (b : Block) :
    (b.setStatus request status).error = b.error := by
  cases status <;> rfl

theorem Box.killAll_eq (b : Box) :
    ∃ sigchld, b.killAll = { b with slave := none, sigchld := sigchld } := by
  unfold Box.killAll
  split
  · rename_i hNone
    exact ⟨b.sigchld, by rw [← hNone]⟩
  · exact ⟨b.sigchld, rfl⟩
  · exact ⟨some .sigkill, rfl⟩

namespace Sys

variable {pathEnv : Option Str} {s s' : Sys} {c : BoxId}

/-- `c` gets a new record, and `p` comes to the start barrier. -/
def moveBox (s : Sys) (c : BoxId) (p : Option Party) (b : Box) : Sys :=
  { s.setBox c b with start := p.elim s.start s.start.arrive }

/-- The step is a move of the container `c`. -/
def Moved (pathEnv : Option Str) (s : Sys) (c : BoxId) (s' : Sys) : Prop :=
  ∃ p b, (s.box c).Moves pathEnv s c p b ∧ s' = s.moveBox c p b

theorem Moved.of_eq {b : Box} (hMoves : (s.box c).Moves pathEnv s c none b)
    (h : some (s.setBox c b) = some s') : s.Moved pathEnv c s' :=
  ⟨none, b, hMoves, (Option.some.inj h).symm⟩

theorem containerStep_moved (h : s.containerStep c = some s') : s.Moved pathEnv c s' := by
  unfold containerStep at h
  cases hPc : (s.box c).pc
  all_goals simp only [hPc, reduceCtorEq] at h
  case prepare => exact .of_eq (.prepare hPc) h
  case prepareRoot => exact .of_eq (.prepareRoot hPc) h
  case disableIpcs => exact .of_eq (.disableIpcs hPc) h
  case taskBarrier => exact .of_eq (.taskBarrier hPc) h
  case awaitTask =>
    split at h
    · cases h
    · exact .of_eq (.awaitTask hPc ‹_›) h
  case mountBinds => exact .of_eq (.goOn (hPc ▸ .mountBinds)) h
  case createCgroups => exact .of_eq (.goOn (hPc ▸ .createCgroups)) h
  case fork => exact .of_eq (.fork hPc) h
  case startBarrier => exact ⟨some _, _, .startBarrier hPc, (Option.some.inj h).symm⟩
  case awaitStart =>
    split at h
    · cases h
    · exact .of_eq (.awaitStart hPc ‹_›) h
  case waitForSlave =>
    split at h
    · rename_i status request hSlave
      simp only [Box.killAll, hSlave] at h
      exact .of_eq (.reap hPc hSlave) h
    · cases h
  case umountBinds => exact .of_eq (.goOn (hPc ▸ .umountBinds)) h
  case resultsBarrier => exact .of_eq (.resultsBarrier hPc) h
  case awaitResults =>
    split at h
    · cases h
    · exact .of_eq (.awaitResults hPc ‹_›) h
  case cleanupRoot => exact .of_eq (.goOn (hPc ▸ .cleanupRoot)) h
  case exit => exact .of_eq (.goOn (hPc ▸ .exit)) h

/-- A tick that finds no limit exceeded changes nothing. -/
theorem tick_moved {cpuMs wallMs : Int64} (h : s.tick c cpuMs wallMs = some s') :
    s' = s ∨ s.Moved pathEnv c s' := by
  simp only [tick] at h
  split at h
  · rename_i hPc
    split at h
    · obtain ⟨sigchld, hKill⟩ := (s.box c).killAll_eq
      rw [hKill] at h
      exact .inr (.of_eq (.timeout hPc) h)
    · exact .inl (Option.some.inj h).symm
  · cases h

theorem readUsage_moved {u : Usage} (h : s.readUsage c u = some s') : s.Moved pathEnv c s' := by
  simp only [readUsage, Block.setUsage_error] at h
  split at h
  · rename_i hPc
    cases hError : (s.box c).block.error with
    | true =>
      rw [hError, if_pos rfl] at h
      exact .of_eq (.slaveError u hPc.1 hError) h
    | false =>
      rw [hError, if_neg Bool.false_ne_true] at h
      exact .of_eq (.readUsage u hPc.1 hPc.2 hError) h
  · cases h

theorem containerSigchld_moved (h : s.containerSigchld c = some s') : s.Moved pathEnv c s' := by
  simp only [containerSigchld] at h
  split at h
  · cases h
  · rename_i status hPending
    split at h
    · rename_i hAlive
      split at h
      · rename_i hDies
        exact .of_eq (.sigchldDies hAlive hPending hDies.1 hDies.2) h
      · exact .of_eq (.sigchldReturns hAlive hPending ‹_›) h
    · cases h

theorem slaveStep_moved (h : s.slaveStep pathEnv c = some s') : s.Moved pathEnv c s' := by
  simp only [slaveStep] at h
  split at h
  · cases h
  · rename_i sl hSlave
    cases hPc : sl.pc
    all_goals simp only [hPc, reduceCtorEq] at h
    case startBarrier => exact ⟨some _, _, .slaveArrives hSlave hPc, (Option.some.inj h).symm⟩
    case awaitStart =>
      split at h
      · cases h
      · exact .of_eq (.slaveStarts hSlave hPc ‹_›) h
    case openFiles => exact .of_eq (.slaveGoesOn hSlave (hPc ▸ .openFiles)) h
    case dup2Fds =>
      rw [← Block.wrote_nil (.slave sl.request) (s.box c).block] at h
      exact .of_eq (.slaveGoesOn hSlave (hPc ▸ .dup2Fds)) h
    case closeAllFds =>
      rw [← Block.wrote_nil (.slave sl.request) (s.box c).block] at h
      exact .of_eq (.slaveGoesOn hSlave (hPc ▸ .closeAllFds)) h
    case setupRlimits =>
      rw [← Block.wrote_nil (.slave sl.request) (s.box c).block] at h
      exact .of_eq (.slaveGoesOn hSlave (hPc ▸ .setupRlimits)) h
    case addPath =>
      split at h
      · rename_i hAdds
        exact .of_eq (.slaveGoesOn hSlave (hPc ▸ .addPath hAdds)) h
      · rename_i hHas
        rw [← Block.wrote_nil (.slave sl.request) (s.box c).block] at h
        exact .of_eq (.slaveGoesOn hSlave (hPc ▸ .hasPath (Bool.eq_false_iff.mpr hHas))) h
    case exec =>
      rw [← Block.wrote_nil (.slave sl.request) (s.box c).block] at h
      exact .of_eq (.slaveGoesOn hSlave (hPc ▸ .exec)) h
    case setError => exact .of_eq (.slaveSetsError hSlave hPc) h
    case exitFailure => exact .of_eq (.slaveDies hSlave hPc) h

theorem exit_moved {status : WaitStatus} (h : s.exit c status = some s') : s.Moved pathEnv c s' := by
  simp only [exit] at h
  split at h
  · rename_i request hSlave
    exact .of_eq (.slaveExits status hSlave rfl) h
  · cases h

theorem failContainer_moved (h : s.failContainer c = some s') : s.Moved pathEnv c s' := by
  simp only [failContainer] at h
  cases hPc : (s.box c).pc
  all_goals simp only [hPc, reduceCtorEq] at h
  all_goals exact .of_eq (.fails (by simp [ContainerAt.CanFail, hPc])) h

theorem failSlave_moved (h : s.failSlave c = some s') : s.Moved pathEnv c s' := by
  simp only [failSlave] at h
  split at h
  · cases h
  · rename_i sl hSlave
    cases hPc : sl.pc
    all_goals simp only [hPc, reduceCtorEq] at h
    all_goals exact .of_eq (.slaveFails hSlave (by simp [SlaveAt.CanFail, hPc])) h

theorem parentDied_moved (h : s.parentDied c = some s') : s.Moved pathEnv c s' := by
  simp only [parentDied] at h
  split at h
  · rename_i hDead
    exact .of_eq (.parentDied (by simpa using hDead.1) hDead.2.1 hDead.2.2) h
  · cases h

/-- **Every step of the processes of a container is a move.** -/
theorem step_of_box {a : Act} (hBox : a.box? = some c)
    (h : s.step pathEnv a = some s') : s' = s ∨ s.Moved pathEnv c s' := by
  cases a with
  | container c' => cases hBox; exact .inr (containerStep_moved h)
  | tick c' cpuMs wallMs => cases hBox; exact tick_moved h
  | readUsage c' u => cases hBox; exact .inr (readUsage_moved h)
  | slave c' => cases hBox; exact .inr (slaveStep_moved h)
  | exit c' status => cases hBox; exact .inr (exit_moved h)
  | containerSigchld c' => cases hBox; exact .inr (containerSigchld_moved h)
  | parentDied c' => cases hBox; exact .inr (parentDied_moved h)
  | fail p =>
    cases p with
    | worker => cases hBox
    | container c' => cases hBox; exact .inr (failContainer_moved h)
    | slave c' => cases hBox; exact .inr (failSlave_moved h)
  | accept tasks => cases hBox
  | worker => cases hBox
  | workerSigchld c' => cases hBox
  | othersGet => cases hBox
  | othersPut id => cases hBox

end Sys

end Libsbox
