import Libsbox.Protocol.Stamps

/-!
# libsbox — a slave that fails

A slave that calls `die` sets `error` in the shared block before it exits. Its
container finds the flag set, in the handler of `SIGCHLD` or at the end of
`wait_for_slave`, and dies; the worker is left at a barrier to which nobody comes, and
dies with it. So nothing is said about the task, and there is no response.

Behind the start barrier the flag is not set until `_die` sets it. A container that
finds a limit exceeded in between kills the slave and knows nothing of the failure.

## Results

* `noVerdict_of_run` — a failed slave has no verdict, unless its container kills it
  before it has set the flag;
* `noVerdict_refuted` — a run with a response in which the container does.
-/

namespace Libsbox

open CMemory Runs

namespace Box

/-- What is left of a slave that has called `die`, and of its container. -/
inductive Failing (b : Box) : Prop where
  | dies {sl : Slave} (hSlave : b.slave = some sl) (hPc : sl.pc = .setError)
  | exits {sl : Slave} (hSlave : b.slave = some sl) (hPc : sl.pc = .exitFailure)
      (hError : b.block.error = true)
  | ended {sl : Slave} {status : WaitStatus} (hSlave : b.slave = some sl)
      (hPc : sl.pc = .zombie status) (hError : b.block.error = true)
  | reaped (hPc : b.pc = .readUsage) (hError : b.block.error = true)
  | gone (hPc : b.pc = .died ∨ b.pc = .killed)

/-- The container is between its two barriers, as the worker sees it. -/
def Unanswered (v : View) (b : Box) : Prop := b.Starting v ∨ b.Running v

variable {pathEnv : Option Str} {s : Sys} {k : Nat} {waiting : List Party} {v v' : View}
  {c : BoxId} {b b' : Box} {p : Option Party}

attribute [local grind] View.Open Starting Running Unanswered stop slaveEnds Alive
  ContainerAt.CanFail SlaveAt.CanFail Block.wrote Barrier.arrive

attribute [local grind cases] ContainerAt.Precedes SlaveAt.Precedes

/-- A failing slave is one of the start barrier or behind it. -/
theorem Failing.pc (h : b.Failing) (hSlave : b.HasSlave v) :
    b.pc = .startBarrier ∨ b.pc = .awaitStart ∨ b.pc = .waitForSlave ∨ b.pc = .readUsage ∨
      b.pc = .died ∨ b.pc = .killed := by
  cases h with
  | dies hSome | exits hSome | ended hSome =>
    rcases hSlave.pc_of_some hSome with hPc | hPc | hPc <;> simp [hPc]
  | reaped hPc => simp [hPc]
  | gone hPc => tauto

/-- **What a move makes of a failing slave**: the container must not go on without it
before it has set the flag. -/
theorem Failing.move (h : b.Failing) (hHas : b.HasSlave v) (hMoves : b.Moves pathEnv s c p b')
    (hKept : b.pc = .waitForSlave → b'.pc = .readUsage →
      ∀ sl, b.slave = some sl → sl.pc ≠ .setError) : b'.Failing := by
  cases h with
  | dies hSlave hSl =>
    have hPc := hHas.pc_of_some hSlave
    cases hMoves with
    | slaveSetsError hSome hPc' =>
      obtain rfl := Option.some.inj (hSlave.symm.trans hSome)
      exact .exits rfl rfl rfl
    | startBarrier | awaitStart | sigchldReturns => exact .dies hSlave hSl
    | timeout hPc' => exact absurd hSl (hKept hPc' rfl _ hSlave)
    | sigchldDies | slaveError | fails => exact .gone (.inl rfl)
    | parentDied => exact .gone (.inr rfl)
    | _ => grind
  | exits hSlave hSl hError =>
    have hPc := hHas.pc_of_some hSlave
    cases hMoves with
    | slaveDies hSome hPc' =>
      obtain rfl := Option.some.inj (hSlave.symm.trans hSome)
      exact .ended rfl rfl hError
    | startBarrier | awaitStart | sigchldReturns => exact .exits hSlave hSl hError
    | timeout hPc' => exact .reaped rfl hError
    | sigchldDies | slaveError | fails => exact .gone (.inl rfl)
    | parentDied => exact .gone (.inr rfl)
    | _ => grind
  | ended hSlave hSl hError =>
    have hPc := hHas.pc_of_some hSlave
    cases hMoves with
    | startBarrier | awaitStart | sigchldReturns => exact .ended hSlave hSl hError
    | timeout hPc' => exact .reaped rfl hError
    | reap => exact .reaped rfl ((Block.setStatus_error ..).trans hError)
    | sigchldDies | slaveError | fails => exact .gone (.inl rfl)
    | parentDied => exact .gone (.inr rfl)
    | _ => grind
  | reaped hPc' hError =>
    have hNone : b.slave = none := by
      unfold HasSlave at hHas
      simpa only [hPc'] using hHas
    cases hMoves with
    | sigchldReturns => exact .reaped hPc' hError
    | sigchldDies | slaveError | fails => exact .gone (.inl rfl)
    | parentDied => exact .gone (.inr rfl)
    | _ => grind
  | gone hPc' =>
    have hEnded : b.Ended := .inr hPc'
    exact absurd hEnded (hMoves.not_ended hHas)

/-- A container with a failing slave does not come to its barrier. -/
theorem Unanswered.move (h : b.Unanswered v) (hFailing : b.Failing) (hHas : b.HasSlave v)
    (hMoves : b.Moves pathEnv s c p b') : b'.Unanswered v := by
  have hPc := hFailing.pc hHas
  cases hMoves with
  | taskBarrier hPc' | resultsBarrier hPc' => simp [hPc'] at hPc
  | _ => exact h

/-- **A step of the worker leaves a container with a failing slave unanswered.** -/
theorem Unanswered.turns (h : b.Unanswered v) (hCount : b.barrier.count = 2)
    (hTurns : View.Turns k v b v' b') : b'.Unanswered v' := by
  cases hTurns with
  | same => exact h
  | write | call | answered | released | ask | told => grind

theorem Failing.turns (h : b.Failing) (hView : b.Unanswered v)
    (hTurns : View.Turns k v b v' b') : b'.Failing := by
  cases hTurns with
  | write => grind
  | same | answered | released | told => exact h
  | call | ask =>
    cases h with
    | dies hSlave hPc => exact .dies hSlave hPc
    | exits hSlave hPc hError => exact .exits hSlave hPc hError
    | ended hSlave hPc hError => exact .ended hSlave hPc hError
    | reaped hPc hError => exact .reaped hPc hError
    | gone hPc => exact .gone hPc

end Box

namespace Sys

variable {pathEnv : Option Str} {s s' : Sys} {a : Act} {c : BoxId} {j : Nat}

/-- A tick of the timer finds a limit exceeded, and the slave that the container kills
has called `die` and not yet set the flag. -/
def KillsDying (s : Sys) : Act → Prop
  | .tick c cpuMs wallMs =>
    (s.box c).block.limitExceeded cpuMs wallMs = true ∧
      ∃ sl, (s.box c).slave = some sl ∧ sl.pc = .setError
  | _ => False

/-- The slave for the task `j`, in the container `c`, has failed. -/
structure Failed (s : Sys) (j : Nat) (c : BoxId) : Prop where
  used : s.containers[j]? = some c
  unanswered : (s.box c).Unanswered (s.view j)
  failing : (s.box c).Failing

/-- Only a tick makes a container go on without a slave that has not set the flag. -/
theorem killsDying_of_step (hStep : s.step pathEnv a = some s') (hBox : a.box? = some c)
    (hPc : (s.box c).pc = .waitForSlave) (hPc' : (s'.box c).pc = .readUsage) {sl : Slave}
    (hSlave : (s.box c).slave = some sl) (hDying : sl.pc = .setError) : s.KillsDying a := by
  have hOf : ∀ b : Box, b.pc ≠ .readUsage → some (s.setBox c b) ≠ some s' := by
    rintro b hNe hEq
    obtain rfl := Option.some.inj hEq
    rw [setBox_box_self] at hPc'
    exact hNe hPc'
  obtain ⟨pc, request⟩ := sl
  obtain rfl : pc = .setError := hDying
  cases a with
  | tick c' cpuMs wallMs =>
    obtain rfl : c' = c := Option.some.inj hBox
    simp only [step, tick, hPc, if_true] at hStep
    split at hStep
    · rename_i hLimit
      exact ⟨hLimit, _, hSlave, rfl⟩
    · obtain rfl := Option.some.inj hStep
      simp [hPc] at hPc'
  | container c' =>
    obtain rfl : c' = c := Option.some.inj hBox
    simp [step, containerStep, hPc, hSlave] at hStep
  | readUsage c' u =>
    obtain rfl : c' = c := Option.some.inj hBox
    simp [step, readUsage, hPc] at hStep
  | slave c' =>
    obtain rfl : c' = c := Option.some.inj hBox
    simp only [step, slaveStep, hSlave] at hStep
    exact absurd hStep (hOf _ (by simp [hPc]))
  | exit c' status =>
    obtain rfl : c' = c := Option.some.inj hBox
    simp [step, exit, hSlave] at hStep
  | containerSigchld c' =>
    obtain rfl : c' = c := Option.some.inj hBox
    simp only [step, containerSigchld] at hStep
    repeat' split at hStep
    all_goals first
      | exact absurd hStep (Option.some_ne_none _).symm
      | exact absurd hStep (hOf _ (by simp [hPc, Box.stop]))
  | parentDied c' =>
    obtain rfl : c' = c := Option.some.inj hBox
    simp only [step, parentDied] at hStep
    split at hStep
    · exact absurd hStep (hOf _ (by simp [Box.stop]))
    · cases hStep
  | fail p =>
    cases p with
    | worker => cases hBox
    | container c' =>
      obtain rfl : c' = c := Option.some.inj hBox
      simp only [step, fail, failContainer, hPc] at hStep
      exact absurd hStep (hOf _ (by simp [Box.stop]))
    | slave c' =>
      obtain rfl : c' = c := Option.some.inj hBox
      simp [step, fail, failSlave, hSlave] at hStep
  | accept | worker | workerSigchld | othersGet | othersPut => cases hBox

-- ---------------------------------------------------------------------------
-- The worker
-- ---------------------------------------------------------------------------

/-- The worker is behind `set_task` and has not come back from the results barrier of
`containers_[j]`. -/
theorem Failed.view (h : s.Failed j c) : s.view j = .called ∨ (∃ released, s.view j = .serving released) ∨
    s.view j = .asked := by
  rcases h.unanswered with ⟨hOpen, -⟩ | ⟨hView, -⟩ | ⟨hView, -⟩
  · rcases hOpen with hView | hView
    · exact .inl hView
    · exact .inr (.inl ⟨_, hView⟩)
  · exact .inr (.inl ⟨_, hView⟩)
  · exact .inr (.inr hView)

/-- Meanwhile it keeps its containers, and sends nothing. -/
theorem Failed.workerMoves_kept (h : s.Failed j c) (hMoves : s.WorkerMoves s') :
    s'.containers = s.containers ∧ s'.responses = s.responses := by
  have hView := h.view
  cases hMoves with
  | reuses hWorker | startsPermanent hWorker | startsTemporary hWorker | answers hWorker =>
    exfalso
    simp [Sys.view, WorkerAt.view, hWorker] at hView
  | _ => exact ⟨rfl, rfl⟩

/-- It does not come to `put_results`. -/
theorem Failed.not_putResults (h : s.Failed j c) : s.worker ≠ .putResults j := by
  intro hWorker
  have hView := h.view
  simp [Sys.view, WorkerAt.view, hWorker] at hView

theorem Failed.workerMoves (h : s.Failed j c) (hInv : s.Inv) (hMoves : s.WorkerMoves s') :
    s'.Failed j c := by
  have hUsed : s'.containers[j]? = some c := (h.workerMoves_kept hMoves).1 ▸ h.used
  have hTurns := hMoves.turns hInv h.used hUsed
  have hCount := (hInv.boxes c _ (.used h.used)).count
  exact ⟨hUsed, h.unanswered.turns hCount hTurns, h.failing.turns h.unanswered hTurns⟩

-- ---------------------------------------------------------------------------
-- All steps
-- ---------------------------------------------------------------------------

theorem Failed.moved {c' : BoxId} (h : s.Failed j c) (hInv : s.Inv) (hBox : a.box? = some c')
    (hOk : ¬ s.KillsDying a) (hStep : s.step pathEnv a = some s')
    (hMoved : s.Moved pathEnv c' s') : s'.Failed j c := by
  have hHas := (hInv.boxes c _ (.used h.used)).slave
  have hNew : (s'.box c).Unanswered (s.view j) ∧ (s'.box c).Failing := by
    obtain ⟨p, b, hMoves, rfl⟩ := hMoved
    rcases eq_or_ne c c' with rfl | hNe
    · have hEq : (s.moveBox c p b).box c = b := setBox_box_self ..
      rw [hEq]
      refine ⟨h.unanswered.move h.failing hHas hMoves, h.failing.move hHas hMoves ?_⟩
      intro hPc hPc' sl hSlave hDying
      exact hOk (killsDying_of_step hStep hBox hPc (by rw [hEq]; exact hPc') hSlave hDying)
    · have hEq : (s.moveBox c' p b).box c = s.box c := setBox_box_ne s b hNe
      rw [hEq]
      exact ⟨h.unanswered, h.failing⟩
  obtain ⟨p, b, hMoves, rfl⟩ := hMoved
  refine ⟨h.used, ?_, hNew.2⟩
  rcases moveBox_view hMoves with hView | ⟨hHeld, hView⟩
  · rw [hView]
    exact hNew.1
  · -- the start barrier lets go
    rw [hHeld] at hNew
    rw [hView]
    have hFits := (hInv.moved ⟨p, b, hMoves, rfl⟩).boxes c _ (.used h.used)
    have hTurns := hNew.1.turns (k := s.request) hFits.count .released
    exact hTurns

/-- **A step keeps a failed slave failed**, and the worker without a verdict. -/
theorem Failed.step (h : s.Failed j c) (hInv : s.Inv) (hOk : ¬ s.KillsDying a)
    (hStep : s.step pathEnv a = some s') : s'.Failed j c ∧ s'.responses = s.responses := by
  cases hBox : a.box? with
  | some c' =>
    rcases step_of_box hBox hStep with rfl | hMoved
    · exact ⟨h, rfl⟩
    · refine ⟨h.moved hInv hBox hOk hStep hMoved, ?_⟩
      obtain ⟨p, b, -, rfl⟩ := hMoved
      rfl
  | none =>
    cases step_turns hBox hStep with
    | accepts _ hWorker =>
      have hView := h.view
      simp [Sys.view, WorkerAt.view, hWorker] at hView
    | worker _ hMoves => exact ⟨h.workerMoves hInv hMoves, (h.workerMoves_kept hMoves).2⟩
    | dies | othersGet | othersPut => exact ⟨⟨h.used, h.unanswered, h.failing⟩, rfl⟩

/-- A slave that calls `die` has failed. -/
theorem failed_of_die (hInv : s.Inv) (hUsed : s.containers[j]? = some c)
    (hDie : s.step pathEnv (.fail (.slave c)) = some s') : s'.Failed j c := by
  have hFits := hInv.boxes c _ (.used hUsed)
  simp only [Sys.step, fail, failSlave] at hDie
  split at hDie
  · cases hDie
  · rename_i sl hSlave
    have hServing : (s.box c).Serving := by
      rcases hFits.slave.pc_of_some hSlave with hPc | hPc | hPc <;> simp [Box.Serving, hPc]
    have hUnanswered : (s.box c).Unanswered (s.view j) := hFits.seated.of_serving hServing
    have hFailed : (s.setBox c { s.box c with slave := some { sl with pc := .setError } }).Failed j c := by
      refine ⟨hUsed, ?_, ?_⟩
      · rw [setBox_box_self]
        exact hUnanswered
      · rw [setBox_box_self]
        exact .dies rfl rfl
    split at hDie
    all_goals first
      | exact absurd hDie (Option.some_ne_none _).symm
      | exact Option.some.inj hDie ▸ hFailed

/-- **A failed slave has no verdict**, if no container kills its slave between the call
of `die` and the write of the flag. -/
theorem noVerdict_of_run {firstUid : Uid} {acts acts' : List Act} {m m' : Sys}
    (hRun : run (step pathEnv) (initial firstUid) acts = some m)
    (hUsed : m.containers[j]? = some c) (hDie : m.step pathEnv (.fail (.slave c)) = some m')
    (hRun' : run (step pathEnv) m' acts' = some s)
    (hOk : AllSteps (step pathEnv) (fun s a => ¬ s.KillsDying a) m' acts') :
    s.worker ≠ .putResults j ∧ s.responses = m.responses := by
  have hInv : m.Inv := inv_of_reachable ⟨acts, hRun⟩
  have hKept : m'.responses = m.responses := by
    obtain rfl | ⟨p, b, -, rfl⟩ := step_of_box rfl hDie
    · rfl
    · rfl
  have hEnd : s.Inv ∧ s.Failed j c ∧ s.responses = m.responses := by
    refine invariant_of_run (I := fun s => s.Inv ∧ s.Failed j c ∧ s.responses = m.responses)
      ?_ ⟨hInv.step hDie, failed_of_die hInv hUsed hDie, hKept⟩ hOk hRun'
    rintro s a s' ⟨hInv, hFailed, hNone⟩ hOk hStep
    obtain ⟨hFailed', hSame⟩ := hFailed.step hInv hOk hStep
    exact ⟨hInv.step hStep, hFailed', hSame.trans hNone⟩
  exact ⟨hEnd.2.1.not_putResults, hEnd.2.2⟩

/-- A task with a wall time limit, whose standard input does not exist. -/
def failingTask : Task where
  argv := [lit "true"]
  wallTimeLimitMs := 100
  stdin := ⟨lit "missing"⟩

/-- The slave is about to open the standard input. -/
def failingRun : List Act := (requestRun failingTask).take 22

/-- The slave dies, its container of its signal, and the worker of the one of the
container. -/
theorem noVerdict_of_failingRun :
    ∃ m m' s, run (step none) (initial 1000) failingRun = some m ∧
      m.step none (.fail (.slave 0)) = some m' ∧
      run (step none) m' [.slave 0, .slave 0, .containerSigchld 0, .workerSigchld 0] = some s ∧
      s.worker ≠ .putResults 0 ∧ s.responses = m.responses := by
  obtain ⟨m, hRun⟩ : ∃ m, run (step none) (initial 1000) failingRun = some m :=
    Option.isSome_iff_exists.mp rfl
  have hUsed : m.containers[0]? = some 0 := of_run_map (f := fun m => m.containers[0]?) rfl hRun
  obtain ⟨m', hDie⟩ : ∃ m', m.step none (.fail (.slave 0)) = some m' :=
    Option.isSome_iff_exists.mp
      (of_run_map (f := fun m => (m.step none (.fail (.slave 0))).isSome) rfl hRun)
  have hWhole : run (step none) (initial 1000) (failingRun ++ [.fail (.slave 0)]) = some m' := by
    rw [run_append, hRun]
    show (m.step none (.fail (.slave 0))).bind some = some m'
    rw [hDie]
    rfl
  obtain ⟨s, hRun'⟩ : ∃ s, run (step none) m'
      [.slave 0, .slave 0, .containerSigchld 0, .workerSigchld 0] = some s :=
    Option.isSome_iff_exists.mp (of_run_map
      (f := fun m => (run (step none) m
        [.slave 0, .slave 0, .containerSigchld 0, .workerSigchld 0]).isSome) rfl hWhole)
  refine ⟨m, m', s, hRun, hDie, hRun', noVerdict_of_run hRun hUsed hDie hRun' ?_⟩
  exact ⟨not_false, fun _ _ => ⟨not_false, fun _ _ => ⟨not_false, fun _ _ => ⟨not_false,
    fun _ _ => trivial⟩⟩⟩⟩

/-- The container finds the wall time limit exceeded and kills the slave in `_die`,
before it has set the flag; the worker sends the results. -/
def killedDyingRun : List Act :=
  [.container 0, .tick 0 0 101, .containerSigchld 0, .readUsage 0 ⟨0, 0, 0, 101, 300, false, false⟩,
    .worker, .worker, .worker, .container 0, .container 0, .worker, .worker, .worker, .worker]

/-- **A failed slave can have a verdict.** -/
theorem noVerdict_refuted :
    ¬ ∀ acts acts' m m' s c j, run (step none) (initial 1000) acts = some m →
      m.containers[j]? = some c → m.step none (.fail (.slave c)) = some m' →
      run (step none) m' acts' = some s →
        s.worker ≠ .putResults j ∧ s.responses = m.responses := by
  intro hClaim
  obtain ⟨m, hRun⟩ : ∃ m, run (step none) (initial 1000) failingRun = some m :=
    Option.isSome_iff_exists.mp rfl
  have hUsed : m.containers[0]? = some 0 := of_run_map (f := fun m => m.containers[0]?) rfl hRun
  have hBefore : m.responses.length = 0 := of_run_map (f := fun m => m.responses.length) rfl hRun
  obtain ⟨m', hDie⟩ : ∃ m', m.step none (.fail (.slave 0)) = some m' :=
    Option.isSome_iff_exists.mp
      (of_run_map (f := fun m => (m.step none (.fail (.slave 0))).isSome) rfl hRun)
  have hWhole : run (step none) (initial 1000) (failingRun ++ [.fail (.slave 0)]) = some m' := by
    rw [run_append, hRun]
    show (m.step none (.fail (.slave 0))).bind some = some m'
    rw [hDie]
    rfl
  obtain ⟨s, hRun'⟩ : ∃ s, run (step none) m' killedDyingRun = some s :=
    Option.isSome_iff_exists.mp
      (of_run_map (f := fun m => (run (step none) m killedDyingRun).isSome) rfl hWhole)
  have hAll : run (step none) (initial 1000)
      (failingRun ++ [.fail (.slave 0)] ++ killedDyingRun) = some s := by
    rw [run_append, hWhole]
    exact hRun'
  have hAfter : s.responses.length = 1 := of_run_map (f := fun s => s.responses.length) rfl hAll
  have hSame := (hClaim _ _ m m' s 0 0 hRun hUsed hDie hRun').2
  rw [hSame] at hAfter
  omega

end Sys

end Libsbox
