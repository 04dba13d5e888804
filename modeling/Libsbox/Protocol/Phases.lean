import Libsbox.Protocol.Steps

/-!
# libsbox — what a container and its worker know of each other

A container meets its worker at its own two-party barrier twice a round, and the
worker meets all containers of a request and their slaves at the start barrier.
`View` is how far the worker is with one container; it follows from the place of
the worker and the position of the container in `containers_`. `Box.Fits` says,
for every place of a container, in which views it can be there, who then waits at
its barrier, and where its slave is.

## Results

* `Fits.move`, `Fits.arrives` — every step of a container, a slave or a signal handler
  keeps the container fitting, whatever the view;
* `Fits.write`, `Fits.turn`, `Fits.released`, `Fits.reaped` — so do the steps of the
  worker, which change the view.
-/

namespace Libsbox

open CMemory

/-- How far a worker is with a container, in the request that it processes. -/
inductive View where
  /-- The container is not started. -/
  | unborn
  /-- The worker has not come to the task barrier yet; it has written the task or not. -/
  | free (written : Bool)
  /-- The worker is in the task barrier. -/
  | called
  /-- The worker has left the task barrier; the start barrier has let go or not. -/
  | serving (released : Bool)
  /-- The worker is in the results barrier. -/
  | asked
  /-- The worker has left the results barrier. -/
  | done
  /-- The container is one of an earlier request that has been reaped. -/
  | gone
  deriving DecidableEq

/-- The view that a worker has of `containers_[j]`. -/
def WorkerAt.view (released : Bool) (j : Nat) : WorkerAt → View
  | .accept | .prepareContainers _ _ | .startContainer _ _ _ | .resetBarrier => .free false
  | .writeTasks i => .free (decide (j < i))
  | .taskBarrier i => if j < i then .serving false else .free true
  | .awaitTask i => if j < i then .serving false else if j = i then .called else .free true
  | .startBarrier => .serving false
  | .awaitStart => .serving released
  | .closePipes => .serving true
  | .resultsBarrier i => if j < i then .done else .serving true
  | .awaitResults i => if j < i then .done else if j = i then .asked else .serving true
  | .putResults i => if j ≤ i then .done else .serving true
  | .putId _ | .waitpid _ => .done

/-- The task barrier may have let go and the start barrier has not. -/
def View.Open (v : View) : Prop := v = .called ∨ v = .serving false

/-- The steps of a slave that only go on are behind the start barrier. -/
theorem SlaveAt.Precedes.behind {pathEnv : Option Str} {task : Task} {pc pc' : SlaveAt}
    {fields : List Field} (h : pc.Precedes pathEnv task pc' fields) :
    pc ≠ .awaitStart ∧ pc' ≠ .startBarrier ∧ pc' ≠ .awaitStart := by
  cases h <;> simp

/-- The places of a living container in which it has no slave. -/
def ContainerAt.Alone (pc : ContainerAt) : Prop :=
  pc ≠ .startBarrier ∧ pc ≠ .awaitStart ∧ pc ≠ .waitForSlave ∧ pc ≠ .died ∧ pc ≠ .killed

/-- Those of a container are where it has none. -/
theorem ContainerAt.Precedes.alone {pc pc' : ContainerAt} (h : pc.Precedes pc') :
    pc.Alone ∧ pc' ≠ .awaitStart := by
  cases h <;> simp [Alone]

namespace Box

-- ---------------------------------------------------------------------------
-- The table
-- ---------------------------------------------------------------------------

/-- The container has not come to the task barrier in this round. -/
def Uncalled (v : View) (b : Box) : Prop :=
  (∃ written, v = .free written) ∧ b.barrier.waiting = [] ∨
    v = .called ∧ b.barrier.waiting = [.worker]

/-- Both have come to the task barrier, and the start barrier holds. -/
def Starting (v : View) (b : Box) : Prop :=
  v.Open ∧ b.barrier.waiting = []

/-- The start barrier has let go, and the container has not come to the results
barrier. -/
def Running (v : View) (b : Box) : Prop :=
  v = .serving true ∧ b.barrier.waiting = [] ∨ v = .asked ∧ b.barrier.waiting = [.worker]

/-- Both have come to the results barrier. -/
def Finished (v : View) (b : Box) : Prop :=
  (v = .asked ∨ v = .done) ∧ b.barrier.waiting = []

/-- The container waits at the task barrier, alone. -/
def Waiting (v : View) (b : Box) : Prop :=
  ((∃ written, v = .free written) ∨ b.permanent = true ∧ (v = .asked ∨ v = .done)) ∧
    b.barrier.waiting = [.container]

/-- Where the container can be in a view, and who then waits at its barrier. -/
def Seated (v : View) (b : Box) : Prop :=
  match b.pc with
  | .unborn => v = .unborn ∧ b.barrier.waiting = []
  | .prepare | .prepareRoot | .disableIpcs => b.Uncalled v
  | .taskBarrier => b.Uncalled v ∨ b.permanent = true ∧ b.Finished v
  | .awaitTask => b.Waiting v ∨ b.Starting v
  | .mountBinds | .createCgroups | .fork | .startBarrier => b.Starting v
  | .awaitStart => b.Starting v ∨ b.Running v
  | .waitForSlave | .readUsage | .umountBinds | .resultsBarrier => b.Running v
  | .awaitResults =>
    v = .serving true ∧ b.barrier.waiting = [.container] ∨ b.Finished v ∨
      b.permanent = true ∧ b.Uncalled v
  | .cleanupRoot => b.permanent = true ∧ (b.Finished v ∨ b.Uncalled v)
  | .exit => b.permanent = false ∧ b.Finished v
  | .exited => b.permanent = false ∧ (b.Finished v ∨ v = .gone)
  | .died =>
    v ≠ .unborn ∧ (b.barrier.waiting = [] ∨
      b.barrier.waiting = [.worker] ∧ (v = .called ∨ v = .asked))
  | .killed => v ≠ .unborn

/-- The container is between its task barrier and its results barrier. -/
def Serving (b : Box) : Prop :=
  b.pc = .mountBinds ∨ b.pc = .createCgroups ∨ b.pc = .fork ∨ b.pc = .startBarrier ∨
    b.pc = .awaitStart ∨ b.pc = .waitForSlave ∨ b.pc = .readUsage ∨ b.pc = .umountBinds ∨
    b.pc = .resultsBarrier

/-- A slave that has not left the start barrier. If it has ended, through `die`, its
container is about to learn of it. -/
def SlaveStarting (b : Box) (sl : Slave) : Prop :=
  sl.pc = .startBarrier ∨ sl.pc = .awaitStart ∨ sl.pc = .setError ∨ sl.pc = .exitFailure ∨
    ∃ status, sl.pc = .zombie status ∧ status ≠ .exited 0 ∧ b.sigchld = some status

/-- There is a slave exactly from `fork` to the end of the loop of `wait_for_slave`,
and its signal is handled before `wait_for_slave` ends. -/
def HasSlave (v : View) (b : Box) : Prop :=
  match b.pc with
  | .startBarrier | .awaitStart | .waitForSlave =>
    ∃ sl, b.slave = some sl ∧ sl.request = b.serving ∧
      (b.Starting v → b.SlaveStarting sl) ∧ (b.Running v → sl.pc ≠ .startBarrier)
  | .readUsage => b.slave = none
  | _ => b.slave = none ∧ b.sigchld = none

/-- The container `c` and its slave are among the `waiting` at the start barrier only
while they are inside it, and as long as it holds. -/
structure Arrived (v : View) (c : BoxId) (waiting : List Party) (b : Box) : Prop where
  container : ∀ r, ⟨.container c, r⟩ ∈ waiting →
    v.Open ∧ (b.pc = .awaitStart ∧ r = b.serving ∨ b.pc = .died ∨ b.pc = .killed)
  slave : ∀ r, ⟨.slave c, r⟩ ∈ waiting →
    v.Open ∧ ((∃ sl, b.slave = some sl ∧ sl.pc = .awaitStart ∧ r = sl.request) ∨
      b.pc = .died ∨ b.pc = .killed)
  container_held : b.Starting v → b.pc = .awaitStart → Sys.containerParty c b ∈ waiting
  slave_held : b.Starting v → ∀ sl, b.slave = some sl → sl.pc = .awaitStart →
    Sys.slaveParty c sl ∈ waiting

/-- What holds of the container `c` in the view `v`, in request `k` and with these
`waiting` at the start barrier. -/
structure Fits (k : Nat) (waiting : List Party) (v : View) (c : BoxId) (b : Box) : Prop where
  count : b.barrier.count = 2
  seated : b.Seated v
  slave : b.HasSlave v
  arrived : b.Arrived v c waiting
  serving : b.Serving → b.serving = k
  error : v = .free true ∨ v.Open → b.block.error = true

variable {pathEnv : Option Str} {s : Sys} {k : Nat} {waiting : List Party} {v : View} {c : BoxId} {b b' : Box}

attribute [local grind] View.Open Uncalled Starting Running Finished Waiting Seated Serving SlaveStarting
  HasSlave Sys.containerParty Sys.slaveParty stop slaveEnds Alive ContainerAt.CanFail
  SlaveAt.CanFail Block.wrote Barrier.arrive

attribute [local grind cases] ContainerAt.Precedes SlaveAt.Precedes

-- ---------------------------------------------------------------------------
-- Reading the table
-- ---------------------------------------------------------------------------

theorem Seated.congr (h : b.Seated v) (hPc : b'.pc = b.pc) (hPermanent : b'.permanent = b.permanent)
    (hBarrier : b'.barrier = b.barrier) : b'.Seated v := by
  simpa only [Seated, Uncalled, Starting, Running, Finished, Waiting, hPc, hPermanent, hBarrier]
    using h

/-- A container can die wherever it does not wait at its barrier. -/
theorem Seated.died (h : b.Seated v) (hAlive : b.Alive) (hTask : b.pc ≠ .awaitTask)
    (hResults : b.pc ≠ .awaitResults) : (b.stop .died).Seated v := by
  obtain ⟨hUnborn, hExited, -, hKilled⟩ := hAlive
  unfold Seated at h
  cases hPc : b.pc <;> simp only [hPc] at h <;> grind

theorem Seated.ne_unborn (h : b.Seated v) (hPc : b.pc ≠ .unborn) : v ≠ .unborn := by
  unfold Seated at h
  cases hEq : b.pc <;> simp only [hEq] at h <;> grind

theorem serving_of_awaitStart (hPc : b.pc = .awaitStart) : b.Serving := by simp [Serving, hPc]

/-- A container serves only between the two barriers, as the worker sees it. -/
theorem Seated.of_serving (h : b.Seated v) (hServing : b.Serving) :
    b.Starting v ∨ b.Running v := by
  unfold Seated at h
  rcases hServing with hPc | hPc | hPc | hPc | hPc | hPc | hPc | hPc | hPc <;>
    simp only [hPc] at h <;> tauto

theorem Starting.not_running (h : b.Starting v) : ¬ b.Running v := by grind

theorem HasSlave.pc_of_some {sl : Slave} (h : b.HasSlave v) (hSlave : b.slave = some sl) :
    b.pc = .startBarrier ∨ b.pc = .awaitStart ∨ b.pc = .waitForSlave := by
  unfold HasSlave at h
  grind

theorem HasSlave.pc_of_pending {status : WaitStatus} (h : b.HasSlave v)
    (hPending : b.sigchld = some status) :
    b.pc = .startBarrier ∨ b.pc = .awaitStart ∨ b.pc = .waitForSlave ∨ b.pc = .readUsage := by
  unfold HasSlave at h
  grind

/-- Who is inside the start barrier and not held has been let go. -/
theorem Fits.running (h : b.Fits k waiting v c) (hPc : b.pc = .awaitStart)
    (hFree : Sys.containerParty c b ∉ waiting) : b.Running v := by
  have hSeated := h.seated
  rw [Seated, hPc] at hSeated
  rcases hSeated with hStarting | hRunning
  · exact absurd (h.arrived.container_held hStarting hPc) hFree
  · exact hRunning

theorem Fits.slave_running {sl : Slave} (h : b.Fits k waiting v c) (hSlave : b.slave = some sl)
    (hPc : sl.pc = .awaitStart) (hFree : Sys.slaveParty c sl ∉ waiting) : ¬ b.Starting v :=
  fun hStarting => hFree (h.arrived.slave_held hStarting sl hSlave hPc)

-- ---------------------------------------------------------------------------
-- The moves of a container
-- ---------------------------------------------------------------------------

theorem Fits.seated_move (h : b.Fits k s.start.waiting v c)
    (hMoves : b.Moves pathEnv s c none b') :
    b'.Seated v := by
  have hSeated := h.seated
  have hSlave := h.slave
  have hCount := h.count
  cases hMoves with
  | awaitStart hPc hFree => exact h.running hPc hFree
  | sigchldDies hAlive hPending =>
    rcases hSlave.pc_of_pending hPending with hPc | hPc | hPc | hPc <;>
      exact hSeated.died hAlive (by simp [hPc]) (by simp [hPc])
  | fails hPc => exact hSeated.died ⟨hPc.1, hPc.2.2.2.2.2.1, hPc.2.2.2.2.2.2⟩ hPc.2.1 hPc.2.2.2.1
  | parentDied _ _ hAlive => exact hSeated.ne_unborn hAlive.1
  | sigchldReturns | slaveStarts | slaveGoesOn | slaveExits | slaveFails | slaveSetsError
  | slaveDies => exact hSeated.congr rfl rfl rfl
  | _ => grind

theorem HasSlave.eq_none (h : b.HasSlave v) (hPc : b.pc.Alone) : b.slave = none := by
  cases hSlave : b.slave with
  | none => rfl
  | some sl =>
    rcases h.pc_of_some hSlave with hBox | hBox | hBox <;> simp [ContainerAt.Alone, hBox] at hPc

/-- The slave goes on, and its container stays where it is. -/
theorem HasSlave.slave_goesOn {sl sl' : Slave} (h : b.HasSlave v) (hSome : b.slave = some sl)
    (hPc : b'.pc = b.pc) (hServing : b'.serving = b.serving) (hBarrier : b'.barrier = b.barrier)
    (hSome' : b'.slave = some sl') (hRequest : sl'.request = sl.request)
    (hBefore : b.Starting v → b.SlaveStarting sl → b'.SlaveStarting sl')
    (hBehind : sl'.pc ≠ .startBarrier) : b'.HasSlave v := by
  have hStarting : b'.Starting v → b.Starting v := by simp only [Starting, hBarrier, imp_self]
  have hBox := h.pc_of_some hSome
  unfold HasSlave at h ⊢
  rcases hBox with hBox | hBox | hBox
  all_goals
    simp only [hPc, hBox, hSome, Option.some.injEq, exists_eq_left'] at h ⊢
    obtain ⟨hOld, hStart, -⟩ := h
    exact ⟨sl', hSome', by rw [hRequest, hOld, hServing],
      fun hNew => hBefore (hStarting hNew) (hStart (hStarting hNew)), fun _ => hBehind⟩

/-- Where the start barrier holds, no slave goes on behind it. -/
theorem SlaveStarting.not_precedes {sl : Slave} {task : Task} {pc : SlaveAt} {fields : List Field}
    (h : b.SlaveStarting sl) : ¬ sl.pc.Precedes pathEnv task pc fields := by
  rcases h with hPc | hPc | hPc | hPc | ⟨status, hPc, -⟩ <;> (rw [hPc]; rintro ⟨⟩)

theorem Fits.slave_move (h : b.Fits s.request s.start.waiting v c)
    (hMoves : b.Moves pathEnv s c none b') : b'.HasSlave v := by
  have hSeated := h.seated
  have hSlave := h.slave
  cases hMoves with
  | fails | parentDied | slaveError | sigchldDies => exact ⟨rfl, rfl⟩
  | slaveStarts hSome hPc hFree =>
    refine hSlave.slave_goesOn hSome rfl rfl rfl rfl rfl (fun hStarting => ?_) (by simp)
    exact absurd hStarting (h.slave_running hSome hPc hFree)
  | slaveGoesOn hSome hPc =>
    refine hSlave.slave_goesOn hSome rfl rfl rfl rfl rfl (fun _ hOld => ?_) hPc.behind.2.1
    exact absurd hPc hOld.not_precedes
  | slaveExits status hSome hPc =>
    refine hSlave.slave_goesOn hSome rfl rfl rfl rfl rfl (fun _ hOld => ?_) (by simp)
    simp [SlaveStarting, hPc] at hOld
  | slaveFails hSome hPc =>
    exact hSlave.slave_goesOn hSome rfl rfl rfl rfl rfl (fun _ _ => .inr (.inr (.inl rfl))) (by simp)
  | slaveSetsError hSome hPc =>
    exact hSlave.slave_goesOn hSome rfl rfl rfl rfl rfl (fun _ _ => .inr (.inr (.inr (.inl rfl))))
      (by simp)
  | slaveDies hSome hPc =>
    have hStatus : WaitStatus.exitFailure ≠ .exited 0 := by decide
    exact hSlave.slave_goesOn hSome rfl rfl rfl rfl rfl
      (fun _ _ => .inr (.inr (.inr (.inr ⟨_, rfl, hStatus, rfl⟩)))) (by simp)
  | sigchldReturns hAlive hPending hHarmless =>
    have hError := h.error
    rcases hSlave.pc_of_pending hPending with hBox | hBox | hBox | hBox <;> grind
  | reap | timeout => exact rfl
  | fork hPc =>
    simp only [Seated, hPc] at hSeated
    exact ⟨_, rfl, rfl, fun _ => .inl rfl, fun hRunning => absurd hRunning hSeated.not_running⟩
  | awaitStart hPc | prepare hPc | disableIpcs hPc | taskBarrier hPc | awaitTask hPc
  | resultsBarrier hPc =>
    simp only [HasSlave, hPc] at hSlave
    exact hSlave
  | readUsage u hPc hHandled =>
    exact ⟨hSlave.eq_none (by simp [ContainerAt.Alone, hPc]), hHandled⟩
  | prepareRoot hPc | awaitResults hPc =>
    simp only [HasSlave, hPc] at hSlave
    cases hPermanent : b.permanent <;> simpa [HasSlave, hPermanent] using hSlave
  | goOn hPc =>
    have hNone := hSlave.eq_none hPc.alone.1
    unfold HasSlave at hSlave
    grind

/-- Behind the start barrier nobody is among those that wait there. -/
theorem Arrived.of_not_open (h : b.Arrived v c waiting) (hView : ¬ v.Open) :
    b'.Arrived v c waiting where
  container r hr := absurd (h.container r hr).1 hView
  slave r hr := absurd (h.slave r hr).1 hView
  container_held hStarting := absurd hStarting.1 hView
  slave_held hStarting := absurd hStarting.1 hView

theorem Arrived.congr (h : b.Arrived v c waiting) (hPc : b'.pc = b.pc)
    (hServing : b'.serving = b.serving) (hBarrier : b'.barrier = b.barrier)
    (hSlave : b'.slave = b.slave) : b'.Arrived v c waiting := by
  obtain ⟨hIn, hSlaveIn, hHeld, hSlaveHeld⟩ := h
  constructor <;>
    simpa only [Starting, Sys.containerParty, hPc, hServing, hBarrier, hSlave]

/-- Whoever stops is taken as it stood at the start barrier. -/
theorem Arrived.stop {pc : ContainerAt} (h : b.Arrived v c waiting)
    (hPc : pc = .died ∨ pc = .killed) : (b.stop pc).Arrived v c waiting where
  container r hr := ⟨(h.container r hr).1, .inr hPc⟩
  slave r hr := ⟨(h.slave r hr).1, .inr hPc⟩
  container_held _ hAwait := by rcases hPc with rfl | rfl <;> cases hAwait
  slave_held _ _ hSome := by cases hSome

/-- The container goes on where it has no slave, and not into the start barrier. -/
theorem Fits.arrived_alone (h : b.Fits k waiting v c) (hPc : b.pc.Alone) (hPc' : b'.pc ≠ .awaitStart)
    (hSlave' : ∀ sl, b'.slave = some sl → sl.pc ≠ .awaitStart) : b'.Arrived v c waiting where
  container r hr := by
    rcases (h.arrived.container r hr).2 with ⟨hAwait, -⟩ | hStopped | hStopped
    · exact absurd hAwait hPc.2.1
    · exact absurd hStopped hPc.2.2.2.1
    · exact absurd hStopped hPc.2.2.2.2
  slave r hr := by
    rcases (h.arrived.slave r hr).2 with ⟨sl, hSome, -⟩ | hStopped | hStopped
    · exact absurd hSome (by simp [h.slave.eq_none hPc])
    · exact absurd hStopped hPc.2.2.2.1
    · exact absurd hStopped hPc.2.2.2.2
  container_held _ hAwait := absurd hAwait hPc'
  slave_held _ sl hSome hAwait := absurd hAwait (hSlave' sl hSome)

/-- The slave goes on outside of the start barrier. -/
theorem Arrived.slave_goesOn {sl sl' : Slave} (h : b.Arrived v c waiting)
    (hSome : b.slave = some sl) (hPc : b'.pc = b.pc) (hServing : b'.serving = b.serving)
    (hBarrier : b'.barrier = b.barrier) (hSome' : b'.slave = some sl')
    (hOut : sl.pc ≠ .awaitStart) (hOut' : sl'.pc ≠ .awaitStart) : b'.Arrived v c waiting where
  container r hr := by simpa only [hPc, hServing] using h.container r hr
  slave r hr := by
    obtain ⟨hOpen, ⟨sl, hOther, hAwait, -⟩ | hStopped⟩ := h.slave r hr
    · rw [hSome, Option.some.injEq] at hOther
      exact absurd hAwait (hOther ▸ hOut)
    · exact ⟨hOpen, .inr (hPc ▸ hStopped)⟩
  container_held hStarting hAwait := by
    have hHeld := h.container_held (by rwa [Starting, hBarrier] at hStarting) (hPc ▸ hAwait)
    rwa [Sys.containerParty, hServing]
  slave_held _ sl hOther hAwait := by
    rw [hSome', Option.some.injEq] at hOther
    exact absurd hAwait (hOther ▸ hOut')

theorem Running.not_open (h : b.Running v) : ¬ v.Open := by
  rcases h with ⟨rfl, -⟩ | ⟨rfl, -⟩ <;> simp [View.Open]

/-- With a slave and a start barrier that has let go, the view is past it. -/
theorem Fits.not_open_of_slave {sl : Slave} (h : b.Fits k waiting v c) (hSome : b.slave = some sl)
    (hNot : ¬ b.Starting v) : ¬ v.Open := by
  have hServing : b.Serving := by
    rcases h.slave.pc_of_some hSome with hPc | hPc | hPc <;> simp [Serving, hPc]
  exact ((h.seated.of_serving hServing).resolve_left hNot).not_open

theorem Fits.arrived_move (h : b.Fits s.request s.start.waiting v c)
    (hMoves : b.Moves pathEnv s c none b') : b'.Arrived v c s.start.waiting := by
  have hSeated := h.seated
  have hSlave := h.slave
  have hArrived := h.arrived
  unfold Seated at hSeated
  cases hMoves with
  | fails | sigchldDies => exact hArrived.stop (.inl rfl)
  | slaveError =>
    refine Arrived.stop ?_ (.inl rfl)
    exact hArrived.congr rfl rfl rfl rfl
  | parentDied => exact hArrived.stop (.inr rfl)
  | awaitStart hPc hFree => exact hArrived.of_not_open (h.running hPc hFree).not_open
  | slaveStarts hSome hPc hFree =>
    exact hArrived.of_not_open (h.not_open_of_slave hSome (h.slave_running hSome hPc hFree))
  | reap hPc hSome =>
    simp only [hPc] at hSeated
    exact hArrived.of_not_open hSeated.not_open
  | timeout hPc =>
    simp only [hPc] at hSeated
    exact hArrived.of_not_open hSeated.not_open
  | slaveGoesOn hSome hPc =>
    exact hArrived.slave_goesOn hSome rfl rfl rfl rfl hPc.behind.1 hPc.behind.2.2
  | slaveExits status hSome hPc =>
    exact hArrived.slave_goesOn hSome rfl rfl rfl rfl (by simp [hPc]) (by simp)
  | slaveFails hSome hPc =>
    exact hArrived.slave_goesOn hSome rfl rfl rfl rfl hPc.1 (by simp)
  | slaveSetsError hSome hPc =>
    exact hArrived.slave_goesOn hSome rfl rfl rfl rfl (by simp [hPc]) (by simp)
  | slaveDies hSome hPc =>
    exact hArrived.slave_goesOn hSome rfl rfl rfl rfl (by simp [hPc]) (by simp)
  | sigchldReturns hAlive hPending hHarmless =>
    exact hArrived.congr rfl rfl rfl rfl
  | fork hPc => exact h.arrived_alone (by simp [ContainerAt.Alone, hPc]) (by simp) (by simp)
  | goOn hPc => exact h.arrived_alone hPc.alone.1 hPc.alone.2 (by simp [hSlave.eq_none hPc.alone.1])
  | disableIpcs hPc | prepare hPc | taskBarrier hPc | awaitTask hPc | readUsage u hPc
  | resultsBarrier hPc =>
    have hAlone : b.pc.Alone := by simp [ContainerAt.Alone, hPc]
    exact h.arrived_alone hAlone (by simp) (by simp [hSlave.eq_none hAlone])
  | prepareRoot hPc | awaitResults hPc =>
    have hAlone : b.pc.Alone := by simp [ContainerAt.Alone, hPc]
    refine h.arrived_alone hAlone ?_ (by simp [hSlave.eq_none hAlone])
    cases b.permanent <;> simp

theorem Fits.serving_move (h : b.Fits s.request s.start.waiting v c)
    (hMoves : b.Moves pathEnv s c none b') (hServing : b'.Serving) : b'.serving = s.request := by
  have hOld := h.serving
  have hSlave := h.slave
  cases hMoves <;> grind

theorem Fits.error_move (h : b.Fits s.request s.start.waiting v c)
    (hMoves : b.Moves pathEnv s c none b') (hView : v = .free true ∨ v.Open) :
    b'.block.error = true := by
  have hSeated := h.seated
  have hSlave := h.slave
  have hError := h.error hView
  cases hMoves with
  | slaveStarts hSome hPc hFree =>
    -- the slave clears the flag behind the start barrier
    have hRunning := h.slave_running hSome hPc hFree
    rcases hSlave.pc_of_some hSome with hBox | hBox | hBox <;> grind
  | _ => grind [Block.setUsage_error, Block.setStatus_error]

theorem Moves.permanent_eq {p : Option Party} (hMoves : b.Moves pathEnv s c p b') :
    b'.permanent = b.permanent := by
  cases hMoves <;> rfl

/-- A container that has ended does not move. -/
theorem Moves.not_ended {p : Option Party} (hMoves : b.Moves pathEnv s c p b')
    (hSlave : b.HasSlave v) : ¬ b.Ended := by
  rintro hEnded
  have hPc : b.pc ≠ .startBarrier ∧ b.pc ≠ .awaitStart ∧ b.pc ≠ .waitForSlave := by
    rcases hEnded with hPc | hPc | hPc <;> simp [hPc]
  unfold Ended at hEnded
  cases hMoves with
  | slaveArrives hSome | slaveStarts hSome | slaveGoesOn hSome | slaveExits status hSome
  | slaveFails hSome | slaveSetsError hSome | slaveDies hSome =>
    rcases hSlave.pc_of_some hSome with hBox | hBox | hBox <;> simp [hBox] at hPc
  | _ => grind

/-- **A move of a container, with nobody coming to the start barrier.** -/
theorem Fits.move (h : b.Fits s.request s.start.waiting v c)
    (hMoves : b.Moves pathEnv s c none b') : b'.Fits s.request s.start.waiting v c where
  count := by
    have hCount := h.count
    cases hMoves <;> simp_all [stop, slaveEnds]
  seated := h.seated_move hMoves
  slave := h.slave_move hMoves
  arrived := h.arrived_move hMoves
  serving := h.serving_move hMoves
  error := h.error_move hMoves

-- ---------------------------------------------------------------------------
-- The start barrier
-- ---------------------------------------------------------------------------

/-- A party of another container, or the worker, comes to the start barrier. -/
theorem Fits.other_arrives {p : Party} (h : b.Fits k waiting v c)
    (hContainer : p.proc ≠ .container c) (hSlave : p.proc ≠ .slave c) :
    b.Fits k (waiting ++ [p]) v c := by
  obtain ⟨hIn, hSlaveIn, hHeld, hSlaveHeld⟩ := h.arrived
  refine ⟨h.count, h.seated, h.slave, ⟨?_, ?_, ?_, ?_⟩, h.serving, h.error⟩
  · intro r hr
    refine hIn r ?_
    simpa [Party.ext_iff, Ne.symm hContainer] using hr
  · intro r hr
    refine hSlaveIn r ?_
    simpa [Party.ext_iff, Ne.symm hSlave] using hr
  · exact fun hStarting hPc => List.mem_append_left _ (hHeld hStarting hPc)
  · exact fun hStarting sl hSome hPc => List.mem_append_left _ (hSlaveHeld hStarting sl hSome hPc)

/-- **The container comes to the start barrier.** -/
theorem Fits.container_arrives (h : b.Fits k waiting v c) (hPc : b.pc = .startBarrier) :
    { b with pc := .awaitStart }.Fits k (waiting ++ [(⟨.container c, k⟩ : Party)]) v c := by
  have hSeated := h.seated
  have hSlave := h.slave
  have hServing : b.serving = k := h.serving (by simp [Serving, hPc])
  obtain ⟨hIn, hSlaveIn, hHeld, hSlaveHeld⟩ := h.arrived
  refine ⟨h.count, by grind, by grind, ⟨?_, ?_, ?_, ?_⟩, fun _ => hServing, h.error⟩ <;> grind

theorem Fits.container_new (h : b.Fits k waiting v c) (hPc : b.pc = .startBarrier) :
    v.Open ∧ (⟨.container c, k⟩ : Party) ∉ waiting := by
  have hSeated := h.seated
  rw [Seated, hPc] at hSeated
  refine ⟨hSeated.1, fun hIn => ?_⟩
  simpa [hPc] using (h.arrived.container k hIn).2

theorem Fits.slave_new {sl : Slave} (h : b.Fits k waiting v c) (hSome : b.slave = some sl)
    (hPc : sl.pc = .startBarrier) :
    v.Open ∧ sl.request = k ∧ (⟨.slave c, sl.request⟩ : Party) ∉ waiting := by
  have hSeated := h.seated
  have hSlave := h.slave
  have hServing := h.serving
  obtain ⟨hIn, hSlaveIn, hHeld, hSlaveHeld⟩ := h.arrived
  rcases hSlave.pc_of_some hSome with hBox | hBox | hBox <;> grind

/-- **The slave of the container comes to the start barrier.** -/
theorem Fits.slave_arrives {sl : Slave} (h : b.Fits k waiting v c) (hSome : b.slave = some sl)
    (hPc : sl.pc = .startBarrier) :
    { b with slave := some { sl with pc := .awaitStart } }.Fits k
      (waiting ++ [(⟨.slave c, sl.request⟩ : Party)]) v c := by
  obtain ⟨hOpen, -, -⟩ := h.slave_new hSome hPc
  obtain ⟨hIn, hSlaveIn, hHeld, -⟩ := h.arrived
  refine ⟨h.count, h.seated.congr rfl rfl rfl, ?_, ⟨?_, ?_, ?_, ?_⟩, h.serving, h.error⟩
  · exact h.slave.slave_goesOn hSome rfl rfl rfl rfl rfl (fun _ _ => .inr (.inl rfl)) (by simp)
  · intro r hr
    exact hIn r (by simpa using hr)
  · intro r hr
    rcases List.mem_append.1 hr with hOld | hNew
    · obtain ⟨-, ⟨sl', hSome', hAwait, -⟩ | hStopped⟩ := hSlaveIn r hOld
      · rw [hSome, Option.some.injEq] at hSome'
        rw [← hSome', hPc] at hAwait
        cases hAwait
      · exact ⟨hOpen, .inr hStopped⟩
    · obtain rfl : r = sl.request := by simpa using hNew
      exact ⟨hOpen, .inl ⟨_, rfl, rfl, rfl⟩⟩
  · exact fun hStarting hAwait => List.mem_append_left _ (hHeld hStarting hAwait)
  · rintro - sl' hSome' -
    cases hSome'
    exact List.mem_append_right _ (List.mem_singleton_self _)

/-- **A party of the request comes to the start barrier**, a new one. -/
theorem Fits.arrives {p : Party} (h : b.Fits k waiting v c)
    (hMoves : b.Moves pathEnv s c (some p) b') :
    v.Open ∧ p ∉ waiting ∧ (p = ⟨.container c, k⟩ ∨ p = ⟨.slave c, k⟩) ∧
      b'.Fits k (waiting ++ [p]) v c := by
  cases hMoves with
  | startBarrier hPc =>
    obtain ⟨hOpen, hNew⟩ := h.container_new hPc
    have hParty : Sys.containerParty c b = ⟨.container c, k⟩ := by
      rw [Sys.containerParty, h.serving (by simp [Serving, hPc])]
    rw [hParty]
    exact ⟨hOpen, hNew, .inl rfl, h.container_arrives hPc⟩
  | slaveArrives hSome hPc =>
    obtain ⟨hOpen, hRequest, hNew⟩ := h.slave_new hSome hPc
    exact ⟨hOpen, hNew, .inr (by rw [Sys.slaveParty, hRequest]), h.slave_arrives hSome hPc⟩

/-- **The start barrier lets go** when the container and its slave are there. -/
theorem Fits.released (h : b.Fits k waiting (.serving false) c)
    (hContainer : ⟨.container c, k⟩ ∈ waiting) (hSlave : ⟨.slave c, k⟩ ∈ waiting) :
    b.Fits k [] (.serving true) c := by
  have hSeated := h.seated
  have hHas := h.slave
  have hIn := (h.arrived.container k hContainer).2
  have hSlaveIn := (h.arrived.slave k hSlave).2
  refine ⟨h.count, ?_, ?_, ⟨?_, ?_, ?_, ?_⟩, h.serving, ?_⟩ <;> grind

-- ---------------------------------------------------------------------------
-- The steps of the worker
-- ---------------------------------------------------------------------------

/-- Where the start barrier plays no role, neither do the request and those at it. -/
theorem Fits.idle {k' : Nat} {waiting' : List Party} (h : b.Fits k waiting v c)
    (hView : v = .free false ∨ v = .gone ∨ v = .unborn)
    (hNone : ∀ r, (⟨.container c, r⟩ : Party) ∉ waiting' ∧ (⟨.slave c, r⟩ : Party) ∉ waiting') :
    b.Fits k' waiting' v c := by
  have hServing : ¬ b.Serving := fun hServing => by
    rcases h.seated.of_serving hServing with hStarting | hRunning <;> grind
  refine ⟨h.count, h.seated, h.slave, ⟨?_, ?_, ?_, ?_⟩, (absurd · hServing), ?_⟩ <;> grind

/-- A container that is not there. -/
theorem fits_unborn (k : Nat) (c : BoxId) : ({} : Box).Fits k [] .unborn c := by
  refine ⟨rfl, ⟨rfl, rfl⟩, ⟨rfl, rfl⟩, ⟨?_, ?_, ?_, ?_⟩, ?_, ?_⟩ <;> grind

/-- A container that has just been started. -/
theorem fits_started (id : Uid) (permanent : Bool) (task : Task)
    (hNone : ∀ r, (⟨.container c, r⟩ : Party) ∉ waiting ∧ (⟨.slave c, r⟩ : Party) ∉ waiting) :
    { id, permanent, startedFor := task, pc := .prepare : Box }.Fits k waiting (.free false) c := by
  refine ⟨rfl, ?_, ?_, ⟨?_, ?_, ?_, ?_⟩, ?_, ?_⟩ <;> grind

/-- `set_task`. -/
theorem Fits.write (h : b.Fits k waiting (.free false) c) (task : Task) :
    { b with block := Block.setTask k task }.Fits k waiting (.free true) c := by
  have hSeated := h.seated
  have hSlave := h.slave
  obtain ⟨hIn, hSlaveIn, hHeld, hSlaveHeld⟩ := h.arrived
  refine ⟨h.count, ?_, ?_, ⟨?_, ?_, ?_, ?_⟩, h.serving, fun _ => rfl⟩
  · unfold Seated at hSeated ⊢
    cases hPc : b.pc <;> simp only [hPc] at hSeated ⊢ <;> grind
  all_goals grind

/-- The worker goes on from the view `v` to `v'`, and at most the barrier of the
container changes: what that makes of the lines of the table. -/
structure Turns (v v' : View) (barrier : Barrier Seat) (b : Box) : Prop where
  count : barrier.count = b.barrier.count
  born : v ≠ .unborn ∧ v ≠ .gone ∧ v' ≠ .unborn
  uncalled : b.Uncalled v → { b with barrier }.Uncalled v'
  waiting : b.Waiting v → { b with barrier }.Waiting v' ∨ { b with barrier }.Starting v'
  starting : b.Starting v → { b with barrier }.Starting v'
  running : b.Running v → { b with barrier }.Running v'
  held : v = .serving true → b.barrier.waiting = [.container] → { b with barrier }.Finished v'
  finished : b.Finished v →
    { b with barrier }.Finished v' ∨ b.permanent = true ∧ { b with barrier }.Uncalled v'
  died : b.barrier.waiting = [] ∨ b.barrier.waiting = [.worker] ∧ (v = .called ∨ v = .asked) →
    barrier.waiting = [] ∨ barrier.waiting = [.worker] ∧ (v' = .called ∨ v' = .asked)
  opens : v.Open → v'.Open
  error : v' = .free true ∨ v'.Open → v = .free true ∨ v.Open

theorem Turns.seated {v' : View} {barrier : Barrier Seat} (h : b.Turns v v' barrier)
    (hSeated : b.Seated v) : { b with barrier }.Seated v' := by
  obtain ⟨-, hBorn, hUncalled, hWaiting, hStarting, hRunning, hHeld, hFinished, hDied, -, -⟩ := h
  unfold Seated at hSeated ⊢
  cases hPc : b.pc <;> simp only [hPc] at hSeated ⊢
  case unborn => exact absurd hSeated.1 hBorn.1
  case prepare | prepareRoot | disableIpcs => exact hUncalled hSeated
  case taskBarrier =>
    rcases hSeated with hFree | ⟨hPermanent, hDone⟩
    · exact .inl (hUncalled hFree)
    · exact (hFinished hDone).elim (fun hDone => .inr ⟨hPermanent, hDone⟩) fun hFree => .inl hFree.2
  case awaitTask =>
    exact hSeated.elim hWaiting fun hOpen => .inr (hStarting hOpen)
  case mountBinds | createCgroups | fork | startBarrier => exact hStarting hSeated
  case awaitStart => exact hSeated.imp hStarting hRunning
  case waitForSlave | readUsage | umountBinds | resultsBarrier => exact hRunning hSeated
  case awaitResults =>
    rcases hSeated with ⟨hView, hHere⟩ | hDone | ⟨hPermanent, hFree⟩
    · exact .inr (.inl (hHeld hView hHere))
    · exact .inr (hFinished hDone)
    · exact .inr (.inr ⟨hPermanent, hUncalled hFree⟩)
  case cleanupRoot =>
    obtain ⟨hPermanent, hDone | hFree⟩ := hSeated
    · exact ⟨hPermanent, (hFinished hDone).imp_right And.right⟩
    · exact ⟨hPermanent, .inr (hUncalled hFree)⟩
  case exit =>
    obtain ⟨hTemporary, hDone⟩ := hSeated
    exact ⟨hTemporary, (hFinished hDone).resolve_right fun hFree => by simp_all⟩
  case exited =>
    obtain ⟨hTemporary, hDone | hGone⟩ := hSeated
    · exact ⟨hTemporary, .inl ((hFinished hDone).resolve_right fun hFree => by simp_all)⟩
    · exact absurd hGone hBorn.2.1
  case died => exact ⟨hBorn.2.2, hDied hSeated.2⟩
  case killed => exact hBorn.2.2

theorem Turns.slave {v' : View} {barrier : Barrier Seat} (h : b.Turns v v' barrier)
    (hSeated : b.Seated v) (hSlave : b.HasSlave v) : { b with barrier }.HasSlave v' := by
  have hKept : b.Serving → ({ b with barrier }.Starting v' → b.Starting v) ∧
      ({ b with barrier }.Running v' → b.Running v) := fun hServing => by
    rcases hSeated.of_serving hServing with hOld | hOld
    · exact ⟨fun _ => hOld, fun hNew => absurd hNew (h.starting hOld).not_running⟩
    · exact ⟨fun hNew => absurd (h.running hOld) hNew.not_running, fun _ => hOld⟩
  unfold HasSlave at hSlave ⊢
  cases hPc : b.pc with
  | startBarrier | awaitStart | waitForSlave =>
    simp only [hPc] at hSlave ⊢
    obtain ⟨sl, hSome, hRequest, hBefore, hBehind⟩ := hSlave
    obtain ⟨hOpen, hRunning⟩ := hKept (by simp [Serving, hPc])
    exact ⟨sl, hSome, hRequest, fun hNew => hBefore (hOpen hNew),
      fun hNew => hBehind (hRunning hNew)⟩
  | _ => simpa only [hPc] using hSlave

theorem Turns.arrived {v' : View} {barrier : Barrier Seat} (h : b.Turns v v' barrier)
    (hFits : b.Fits k waiting v c) : { b with barrier }.Arrived v' c waiting := by
  obtain ⟨hIn, hSlaveIn, hHeld, hSlaveHeld⟩ := hFits.arrived
  have hOpen : b.Serving → { b with barrier }.Starting v' → b.Starting v := fun hServing hNew => by
    rcases hFits.seated.of_serving hServing with hOld | hOld
    · exact hOld
    · exact absurd (h.running hOld) hNew.not_running
  refine ⟨?_, ?_, ?_, ?_⟩
  · exact fun r hr => ⟨h.opens (hIn r hr).1, (hIn r hr).2⟩
  · exact fun r hr => ⟨h.opens (hSlaveIn r hr).1, (hSlaveIn r hr).2⟩
  · exact fun hNew hPc => hHeld (hOpen (serving_of_awaitStart hPc) hNew) hPc
  · intro hNew sl hSome hPc
    refine hSlaveHeld (hOpen ?_ hNew) sl hSome hPc
    rcases hFits.slave.pc_of_some hSome with hBox | hBox | hBox <;> simp [Serving, hBox]

/-- **A step of the worker with a container.** -/
theorem Fits.turn {v' : View} {barrier : Barrier Seat} (h : b.Fits k waiting v c)
    (hTurns : b.Turns v v' barrier) : { b with barrier }.Fits k waiting v' c where
  count := hTurns.count.trans h.count
  seated := hTurns.seated h.seated
  slave := hTurns.slave h.seated h.slave
  arrived := hTurns.arrived h
  serving := h.serving
  error := fun hView => h.error (hTurns.error hView)

/-- The worker comes to the task barrier. -/
theorem Fits.call (h : b.Fits k waiting (.free true) c) :
    { b with barrier := b.barrier.arrive .worker }.Fits k waiting .called c := by
  have hCount := h.count
  refine h.turn ?_
  constructor <;> grind

/-- The worker leaves the task barrier. -/
theorem Fits.answered (h : b.Fits k waiting .called c) (hFree : .worker ∉ b.barrier.waiting) :
    b.Fits k waiting (.serving false) c := by
  have hTurns : b.Turns .called (.serving false) b.barrier := by constructor <;> grind
  exact h.turn hTurns

/-- The worker comes to the results barrier. -/
theorem Fits.ask (h : b.Fits k waiting (.serving true) c) :
    { b with barrier := b.barrier.arrive .worker }.Fits k waiting .asked c := by
  have hCount := h.count
  refine h.turn ?_
  constructor <;> grind

/-- The worker leaves the results barrier. -/
theorem Fits.told (h : b.Fits k waiting .asked c) (hFree : .worker ∉ b.barrier.waiting) :
    b.Fits k waiting .done c := by
  have hTurns : b.Turns .asked .done b.barrier := by constructor <;> grind
  exact h.turn hTurns

/-- A permanent container stays for the next request. -/
theorem Fits.kept (h : b.Fits k waiting .done c) (hPermanent : b.permanent = true) :
    b.Fits k waiting (.free false) c := by
  have hTurns : b.Turns .done (.free false) b.barrier := by constructor <;> grind
  exact h.turn hTurns

/-- A temporary one has been reaped. -/
theorem Fits.reaped (h : b.Fits k waiting .done c) (hEnded : b.Ended) :
    b.Fits k waiting .gone c := by
  have hSeated := h.seated
  have hSlave := h.slave
  obtain ⟨hIn, hSlaveIn, hHeld, hSlaveHeld⟩ := h.arrived
  rcases hEnded with hPc | hPc | hPc
  all_goals refine ⟨h.count, ?_, ?_, ⟨?_, ?_, ?_, ?_⟩, h.serving, ?_⟩ <;> grind

end Box

end Libsbox
