import Libsbox.Protocol.Sigchld

/-!
# libsbox — the start barrier and deadlocks

`run_start_barrier_` lets go exactly when the worker, the containers of the
request and their slaves have all come to it. A process that waits at a barrier
never waits for ever, except where the worker waits for a client: each of those
that it waits for is at the barrier, can go on, or has died and is about to take
the worker with it.

The last of these fails in two ways. A container that asks for its death signal
(`PR_SET_PDEATHSIG`) when its worker has died already waits at its task barrier, and
nothing ends it. And a container that dies while a `SIGCHLD` is pending that is about
another one, which has exited with 0, has its own dropped: the worker waits for it at its
results barrier.

## Results

* `startBarrier_of_run` — the start barrier in every run, and no deadlocks in the runs
  in which neither happens;
* `orphan_deadlock`, `merged_deadlock` — a run of each of the other kinds that ends in a
  deadlock.
-/

namespace Libsbox

open CMemory Runs

/-- What the processes and the kernel do by themselves: no client, no other worker
and no failing call has a part in it. The signals of the worker stand in `Signaled`. -/
def Act.IsOwn : Act → Prop
  | .worker | .container _ | .readUsage _ _ | .slave _ | .exit _ _ | .containerSigchld _
  | .parentDied _ => True
  | .accept _ | .tick _ _ _ | .fail _ | .workerSigchld _ | .othersGet | .othersPut _ => False

namespace Sys

/-- Who comes to the start barrier with a step. -/
def arrival (s : Sys) : Act → Option Party
  | .worker => if s.worker = .startBarrier then some s.workerParty else none
  | .container c =>
    if (s.box c).pc = .startBarrier then some (containerParty c (s.box c)) else none
  | .slave c =>
    match (s.box c).slave with
    | some sl => if sl.pc = .startBarrier then some (slaveParty c sl) else none
    | none => none
  | _ => none

/-- The process waits at a barrier that holds it. -/
def Blocked (s : Sys) : Proc → Prop
  | .worker =>
    s.alive = true ∧
      match s.worker with
      | .awaitTask i | .awaitResults i =>
        ∃ c, s.containers[i]? = some c ∧ .worker ∈ (s.box c).barrier.waiting
      | .awaitStart => s.workerParty ∈ s.start.waiting
      | _ => False
  | .container c =>
    match (s.box c).pc with
    | .awaitTask | .awaitResults => .container ∈ (s.box c).barrier.waiting
    | .awaitStart => containerParty c (s.box c) ∈ s.start.waiting
    | _ => False
  | .slave c =>
    ∃ sl, (s.box c).slave = some sl ∧ sl.pc = .awaitStart ∧ slaveParty c sl ∈ s.start.waiting

/-- No process can take a step. -/
def Stuck (pathEnv : Option Str) (s : Sys) : Prop :=
  ∀ a, a.IsOwn → s.step pathEnv a = none

/-- The worker waits for a client, every permanent container waits at its own task
barrier, and there is no other container. -/
structure Idle (s : Sys) : Prop where
  alive : s.alive = true
  accept : s.worker = .accept
  permanent : ∀ c ∈ s.permanent, (s.box c).pc = .awaitTask ∧ (s.box c).barrier.waiting = [.container]
  temporary : ∀ c, (s.box c).Alive → c ∈ s.permanent

/-- The start barrier in a state, and what a step from there does to it. -/
structure StartBarrierOk (pathEnv : Option Str) (s : Sys) : Prop where
  /-- Only processes of the request wait there, each of them once. -/
  waiting : s.start.waiting.Nodup ∧ ∀ p ∈ s.start.waiting, p ∈ s.parties
  /-- Who comes belongs to the request as well, and the barrier lets go exactly when
  nobody is missing. -/
  arrives : ∀ a s' p, s.step pathEnv a = some s' → s.arrival a = some p →
    s.containers.length = s.tasks.length ∧ p ∈ s.parties ∧ p ∉ s.start.waiting ∧
      (s'.start.waiting = [] ↔ (p :: s.start.waiting).Perm s.parties)
  /-- Other steps leave it as it is. -/
  kept : ∀ a s', s.step pathEnv a = some s' → s.arrival a = none →
    s'.start = s.start ∨ a = .worker ∧ s.worker = .resetBarrier
  /-- Nobody waits there, and nobody is still inside, when the worker resets it. -/
  reset : s.worker = .resetBarrier →
    s.start.waiting = [] ∧ ∀ c, (s.box c).pc ≠ .awaitStart ∧ (s.box c).slave = none

variable {pathEnv : Option Str} {s s' : Sys} {a : Act} {c : BoxId} {v : View}

-- ---------------------------------------------------------------------------
-- The start barrier
-- ---------------------------------------------------------------------------

theorem workerStep_start (h : s.workerStep = some s') :
    s'.start = (s.arrival .worker).elim s.start s.start.arrive ∨ s.worker = .resetBarrier := by
  by_cases hArrives : s.worker = .startBarrier
  · simp only [workerStep, hArrives] at h
    refine .inl (Option.some.inj h ▸ ?_)
    simp [arrival, hArrives]
  · have hNone : s.arrival .worker = none := by simp [arrival, hArrives]
    rw [hNone]
    cases workerStep_moves h with
    | resets hWorker => exact .inr hWorker
    | arrives hWorker => exact absurd hWorker hArrives
    -- elsewhere the worker only goes on
    | _ => exact .inl rfl

theorem containerStep_start (h : s.containerStep c = some s') :
    s'.start = (s.arrival (.container c)).elim s.start s.start.arrive := by
  unfold containerStep at h
  simp only [arrival]
  cases hPc : (s.box c).pc
  all_goals simp only [hPc, reduceCtorEq] at h
  all_goals
    repeat' split at h
    all_goals first
      | exact absurd h (Option.some_ne_none _).symm
      | exact Option.some.inj h ▸ rfl

theorem slaveStep_start (h : s.slaveStep pathEnv c = some s') :
    s'.start = (s.arrival (.slave c)).elim s.start s.start.arrive := by
  simp only [slaveStep] at h
  simp only [arrival]
  split at h
  · cases h
  · rename_i sl hSlave
    simp only [hSlave]
    cases hPc : sl.pc
    all_goals simp only [hPc, reduceCtorEq] at h
    all_goals
      repeat' split at h
      all_goals first
        | exact absurd h (Option.some_ne_none _).symm
        | exact Option.some.inj h ▸ rfl

/-- **What a step does to the start barrier.** -/
theorem step_start (h : s.step pathEnv a = some s') :
    s'.start = (s.arrival a).elim s.start s.start.arrive ∨
      a = .worker ∧ s.worker = .resetBarrier := by
  cases a with
  | worker =>
    simp only [step] at h
    split at h
    · exact (workerStep_start h).imp_right fun hReset => ⟨rfl, hReset⟩
    · cases h
  | container c => exact .inl (containerStep_start h)
  | slave c => exact .inl (slaveStep_start h)
  | fail p =>
    refine .inl ?_
    cases p <;> simp only [step, fail, failWorker, failContainer, failSlave] at h
    all_goals
      repeat' split at h
      all_goals first
        | exact absurd h (Option.some_ne_none _).symm
        | exact Option.some.inj h ▸ rfl
  | _ =>
    refine .inl ?_
    simp only [step, tick, readUsage, exit, containerSigchld, workerSigchld, parentDied] at h
    repeat' split at h
    all_goals first
      | exact absurd h (Option.some_ne_none _).symm
      | exact Option.some.inj h ▸ rfl

/-- Who comes to the start barrier is a party of the request that has not come yet. -/
theorem Inv.arrival (h : s.Inv) {p : Party} (hArrival : s.arrival a = some p) :
    s.worker.Counts ∧ p ∈ s.parties ∧ p ∉ s.start.waiting := by
  have hOfBox : ∀ {c : BoxId} {b : Box}, (s.box c).Moves none s c (some p) b →
      s.worker.Counts ∧ p ∈ s.parties ∧ p ∉ s.start.waiting := by
    intro c b hMoves
    obtain ⟨v, hSees⟩ := s.sees_total s.view c
    obtain ⟨hOpen, hNew, hWho, -⟩ := (h.boxes c v hSees).arrives hMoves
    obtain ⟨hUsed, hCounts, -⟩ := open_view hSees hOpen
    exact ⟨hCounts, mem_parties.mpr (.inr ⟨c, hUsed, hWho⟩), hNew⟩
  cases a with
  | worker =>
    simp only [Sys.arrival, Option.ite_none_right_eq_some, Option.some.injEq] at hArrival
    obtain ⟨hWorker, rfl⟩ := hArrival
    refine ⟨by simp [hWorker, WorkerAt.Counts], mem_parties.mpr (.inl rfl), fun hIn => ?_⟩
    simpa [hWorker] using h.start.worker s.request hIn
  | container c =>
    simp only [Sys.arrival, Option.ite_none_right_eq_some, Option.some.injEq] at hArrival
    obtain ⟨hPc, rfl⟩ := hArrival
    exact hOfBox (.startBarrier hPc)
  | slave c =>
    simp only [Sys.arrival] at hArrival
    split at hArrival
    · rename_i sl hSlave
      simp only [Option.ite_none_right_eq_some, Option.some.injEq] at hArrival
      obtain ⟨hPc, rfl⟩ := hArrival
      exact hOfBox (.slaveArrives hSlave hPc)
    · cases hArrival
  | _ => cases hArrival

/-- A container whose worker is before the barriers is inside neither. -/
theorem Inv.nobody_inside (h : s.Inv) (hWorker : s.worker = .resetBarrier) (c : BoxId) :
    (s.box c).pc ≠ .awaitStart ∧ (s.box c).slave = none := by
  obtain ⟨v, hSees⟩ := s.sees_total s.view c
  have hView : v = .free false ∨ v = .gone ∨ v = .unborn := by
    cases hSees with
    | used => simp [view, hWorker, WorkerAt.view]
    | spare | gone | unborn => simp
  have hFits := h.boxes c v hSees
  have hServing : ¬ (s.box c).Serving := fun hServing => by
    rcases hFits.seated.of_serving hServing with hStarting | hRunning
    · rcases hView with rfl | rfl | rfl <;> simp [Box.Starting, View.Open] at hStarting
    · rcases hView with rfl | rfl | rfl <;> simp [Box.Running] at hRunning
  refine ⟨fun hPc => hServing (Box.serving_of_awaitStart hPc), ?_⟩
  by_contra hSome
  obtain ⟨sl, hSlave⟩ := Option.ne_none_iff_exists'.mp hSome
  rcases hFits.slave.pc_of_some hSlave with hPc | hPc | hPc <;>
    exact hServing (by simp [Box.Serving, hPc])

/-- **The start barrier of a reachable state.** -/
theorem Inv.startBarrierOk (h : s.Inv) : s.StartBarrierOk pathEnv where
  waiting := by
    refine ⟨?_, fun p => h.party⟩
    by_cases hCounts : s.worker.Counts
    · exact (h.start.serves hCounts).nodup
    · simp [h.start.quiet hCounts]
  arrives := by
    intro a s' p hStep hArrival
    obtain ⟨hCounts, hParty, hNew⟩ := h.arrival hArrival
    have hLength : s.containers.length = s.tasks.length := by
      have hPlace := h.place
      unfold PlaceOk at hPlace
      cases hWorker : s.worker <;> simp only [hWorker, WorkerAt.Counts] at hPlace hCounts
      all_goals first
        | exact hPlace
        | exact hPlace.1
    refine ⟨hLength, hParty, hNew, ?_⟩
    rcases step_start hStep with hStart | ⟨-, hReset⟩
    · rw [hStart, hArrival]
      exact (h.start.serves hCounts).releases_iff hParty hNew
    · simp [hReset, WorkerAt.Counts] at hCounts
  kept := by
    intro a s' hStep hArrival
    rw [← Option.elim_none s.start s.start.arrive, ← hArrival]
    exact step_start hStep
  reset := fun hWorker =>
    ⟨h.start.quiet (by simp [hWorker, WorkerAt.Counts]), h.nobody_inside hWorker⟩

-- ---------------------------------------------------------------------------
-- Orphans
-- ---------------------------------------------------------------------------

/-- A container is killed only when its worker is dead. -/
theorem step_killed (h : ∀ c, (s.box c).pc = .killed → s.alive = false)
    (hStep : s.step pathEnv a = some s') (c : BoxId) (hPc : (s'.box c).pc = .killed) :
    s'.alive = false := by
  have hKilled := h c
  rcases step_alive hStep with hSame | rfl
  · rcases step_box hStep c with ⟨p, hMoves⟩ | hWorked
    · generalize s'.box c = b' at *
      cases hMoves <;> grind [Box.stop, Box.slaveEnds, ContainerAt.Precedes]
    · generalize s'.box c = b' at *
      cases hWorked <;> grind
  · rfl

/-- A container goes with its worker, unless it has still to ask for that. -/
structure Guarded (s : Sys) : Prop where
  armed : ∀ c, (s.box c).Alive → if (s.box c).pc = .prepare then s.alive = true
    else (s.box c).armed = true
  killed : ∀ c, (s.box c).pc = .killed → s.alive = false

theorem guarded_initial (firstUid : Uid) : (initial firstUid).Guarded where
  armed := fun _ hAlive => absurd rfl hAlive.1
  killed := nofun

theorem Guarded.step (h : s.Guarded)
    (hOrderly : s.alive = true → s'.alive = false → ∀ c, (s.box c).pc ≠ .prepare)
    (hStep : s.step pathEnv a = some s') : s'.Guarded := by
  refine ⟨fun c hBox => ?_, step_killed h.killed hStep⟩
  have hArmed := h.armed c
  rcases step_alive hStep with hSame | rfl
  · rcases step_box hStep c with ⟨p, hMoves⟩ | hWorked
    · generalize s'.box c = b' at *
      cases hMoves <;> grind [Box.Alive, Box.stop, Box.slaveEnds, ContainerAt.Precedes]
    · generalize s'.box c = b' at *
      cases hWorked <;> grind [Box.Alive]
  · have hOld := fun hAlive => hOrderly hAlive rfl
    change if (s.box c).pc = .prepare then false = true else _
    grind [Box.Alive, die]

-- ---------------------------------------------------------------------------
-- Progress
-- ---------------------------------------------------------------------------

/-- A signal is handled at once. -/
theorem Stuck.no_sigchld (h : s.Stuck pathEnv) (hAlive : (s.box c).Alive) :
    (s.box c).sigchld = none := by
  by_contra hSome
  obtain ⟨status, hPending⟩ := Option.ne_none_iff_exists'.mp hSome
  have hStep := h (.containerSigchld c) trivial
  simp only [step, containerSigchld, hPending, if_pos hAlive] at hStep
  split at hStep <;> cases hStep

/-- A slave that cannot go on is held by the start barrier or has ended. -/
theorem Stuck.slave (h : s.Stuck pathEnv) {sl : Slave} (hSlave : (s.box c).slave = some sl) :
    sl.pc = .awaitStart ∧ slaveParty c sl ∈ s.start.waiting ∨ ∃ status, sl.pc = .zombie status := by
  have hStep := h (.slave c) trivial
  simp only [step, slaveStep, hSlave] at hStep
  cases hPc : sl.pc
  all_goals simp only [hPc, reduceCtorEq] at hStep
  case awaitStart =>
    refine .inl ⟨rfl, ?_⟩
    by_contra hFree
    simp [hFree] at hStep
  case running =>
    -- the target ends at some time
    have hExit := h (.exit c (.exited 0)) trivial
    obtain ⟨pc, request⟩ := sl
    obtain rfl : pc = .running := hPc
    simp [step, exit, hSlave] at hExit
  case zombie status => exact .inr ⟨status, rfl⟩

/-- **A container that cannot go on** waits at a barrier, unless it is not there. -/
theorem Stuck.container (h : s.Stuck pathEnv) (hFits : (s.box c).Fits s.request s.start.waiting v c)
    (hAlive : (s.box c).Alive) : s.Blocked (.container c) := by
  have hStep := h (.container c) trivial
  simp only [step, containerStep] at hStep
  unfold Box.Alive at hAlive
  cases hPc : (s.box c).pc
  all_goals simp only [hPc, reduceCtorEq] at hStep
  case awaitTask | awaitStart | awaitResults =>
    unfold Blocked
    by_contra hFree
    simp only [hPc] at hFree
    simp [hFree] at hStep
  case waitForSlave =>
    have hSeated := hFits.seated
    rw [Box.Seated, hPc] at hSeated
    have hHas := hFits.slave
    rw [Box.HasSlave, hPc] at hHas
    obtain ⟨sl, hSlave, -, -, hStarted⟩ := hHas
    rcases h.slave hSlave with ⟨hWaits, hHeld⟩ | ⟨status, hEnded⟩
    · -- the start barrier has let go
      have hOpen := (hFits.arrived.slave _ hHeld).1
      rcases hSeated with ⟨rfl, -⟩ | ⟨rfl, -⟩ <;> simp [View.Open] at hOpen
    · obtain ⟨pc, request⟩ := sl
      obtain rfl : pc = .zombie status := hEnded
      simp [hSlave] at hStep
  case readUsage =>
    have hNone := h.no_sigchld (c := c) (by simp [Box.Alive, hPc])
    have hRead := h (.readUsage c ⟨0, 0, 0, 0, 0, false, false⟩) trivial
    simp [step, readUsage, hPc, hNone] at hRead
  all_goals simp [hPc] at hAlive

/-- In no view that lets the worker wait at a container's barrier does it wait there. -/
theorem Stuck.answers (h : s.Stuck pathEnv) (hFits : (s.box c).Fits s.request s.start.waiting v c)
    (hThere : (s.box c).pc ≠ .died ∧ (s.box c).pc ≠ .killed) (hView : v = .called ∨ v = .asked) :
    .worker ∉ (s.box c).barrier.waiting := by
  have hSeated := hFits.seated
  have hBlocked := h.container hFits
  have hHeld := hFits.arrived.container (s.box c).serving
  unfold Box.Seated at hSeated
  unfold Blocked Box.Alive at hBlocked
  cases hPc : (s.box c).pc <;> simp only [hPc] at hSeated hBlocked hThere <;>
    grind [View.Open, Box.Uncalled, Box.Starting, Box.Running, Box.Finished, Box.Waiting,
      containerParty]

/-- As long as the start barrier holds, a container that cannot go on is there, and so
is its slave. -/
theorem Stuck.arrives (h : s.Stuck pathEnv)
    (hFits : (s.box c).Fits s.request s.start.waiting (.serving false) c)
    (hThere : (s.box c).pc ≠ .died ∧ (s.box c).pc ≠ .killed) :
    ⟨.container c, s.request⟩ ∈ s.start.waiting ∧ ⟨.slave c, s.request⟩ ∈ s.start.waiting := by
  have hSeated := hFits.seated
  have hBlocked := h.container hFits
  have hPc : (s.box c).pc = .awaitStart := by
    unfold Box.Seated at hSeated
    unfold Blocked Box.Alive at hBlocked
    cases hPc : (s.box c).pc <;> simp only [hPc] at hSeated hBlocked hThere <;>
      grind [View.Open, Box.Uncalled, Box.Starting, Box.Running, Box.Finished, Box.Waiting]
  have hAlive : (s.box c).Alive := by simp [Box.Alive, hPc]
  have hServing := hFits.serving (Box.serving_of_awaitStart hPc)
  have hStarting : (s.box c).Starting (.serving false) := by
    rw [Box.Seated, hPc] at hSeated
    exact hSeated.resolve_right fun hRunning => by simp [Box.Running] at hRunning
  have hHas := hFits.slave
  rw [Box.HasSlave, hPc] at hHas
  obtain ⟨sl, hSlave, hRequest, hBefore, -⟩ := hHas
  refine ⟨hServing ▸ hFits.arrived.container_held hStarting hPc, ?_⟩
  rcases h.slave hSlave with ⟨-, hHeld⟩ | ⟨status, hEnded⟩
  · rwa [slaveParty, hRequest, hServing] at hHeld
  · -- the end of a slave that has not started is about to be noticed
    rcases hBefore hStarting with hSl | hSl | hSl | hSl | ⟨status', -, -, hPending⟩
    · simp [hSl] at hEnded
    · simp [hSl] at hEnded
    · simp [hSl] at hEnded
    · simp [hSl] at hEnded
    · simp [h.no_sigchld hAlive] at hPending

theorem Inv.idle_of_accept (h : s.Inv) (hStuck : s.Stuck pathEnv) (hAlive : s.alive = true)
    (hThere : ∀ c, (s.box c).pc ≠ .died ∧ (s.box c).pc ≠ .killed) (hWorker : s.worker = .accept) :
    s.Idle := by
  have hPlace := h.place
  simp only [PlaceOk, hWorker] at hPlace
  refine ⟨hAlive, hWorker, fun c hc => ?_, fun c hBox => ?_⟩
  · have hFits := h.boxes c _ (.spare hc (by simp [hPlace]))
    have hSeated := hFits.seated
    have hBlocked := hStuck.container hFits
    have hPermanent := h.roster.permanent c hc
    have hThere := hThere c
    unfold Box.Seated at hSeated
    unfold Blocked Box.Alive at hBlocked
    cases hPc : (s.box c).pc <;> simp only [hPc] at hSeated hBlocked hThere <;>
      grind [View.Open, Box.Uncalled, Box.Starting, Box.Running, Box.Finished, Box.Waiting]
  · obtain ⟨v, hSees⟩ := s.sees_total s.view c
    have hFits := h.boxes c v hSees
    have hSeated := hFits.seated
    cases hSees with
    | used hUsed => simp [hPlace] at hUsed
    | spare hPermanent => exact hPermanent
    | gone | unborn =>
      unfold Box.Seated at hSeated
      unfold Box.Alive at hBox
      cases hPc : (s.box c).pc <;> simp only [hPc] at hSeated hBox <;>
        grind [View.Open, Box.Uncalled, Box.Starting, Box.Running, Box.Finished, Box.Waiting]

/-- The worker is not held at the start barrier by containers that cannot go on: they
and their slaves have all come. -/
theorem Inv.start_free_of_stuck (h : s.Inv) (hStuck : s.Stuck pathEnv)
    (hThere : ∀ c, (s.box c).pc ≠ .died ∧ (s.box c).pc ≠ .killed)
    (hWorker : s.worker = .awaitStart) : s.workerParty ∉ s.start.waiting := by
  intro hHeld
  have hCounts : s.worker.Counts := by simp [hWorker, WorkerAt.Counts]
  obtain ⟨p, hParty, hMissing⟩ :=
    (h.start.serves hCounts).exists_missing (parties_nodup h.roster.distinct)
  have hView : s.view = fun _ => .serving false := by
    rw [view_of_awaitStart hWorker, released, decide_eq_false (not_not.mpr hHeld)]
  rcases mem_parties.mp hParty with rfl | ⟨c, hc, hWho⟩
  · exact hMissing hHeld
  · obtain ⟨j, hj⟩ := List.mem_iff_getElem?.mp hc
    have hFits := h.boxes c _ (.used hj)
    rw [hView] at hFits
    obtain ⟨hContainer, hSlave⟩ := hStuck.arrives hFits (hThere c)
    rcases hWho with rfl | rfl
    · exact hMissing hContainer
    · exact hMissing hSlave

/-- A temporary container that the worker waits for has ended, if it cannot go on. -/
theorem Inv.ended_of_stuck (h : s.Inv) (hStuck : s.Stuck pathEnv) {i : Nat}
    (hWorker : s.worker = .waitpid i) (hOld : s.temporary[i]? = some c) : (s.box c).Ended := by
  have hTemporary := List.mem_of_getElem? hOld
  obtain ⟨j, hj⟩ := List.mem_iff_getElem?.mp (h.roster.temporaries c hTemporary)
  have hFits := h.boxes c _ (.used hj)
  have hView : s.view j = .done := by simp [view, hWorker, WorkerAt.view]
  rw [hView] at hFits
  have hSeated := hFits.seated
  have hBlocked := hStuck.container hFits
  have hPermanent := h.roster.temporary c hTemporary
  unfold Box.Seated at hSeated
  unfold Blocked Box.Alive at hBlocked
  unfold Box.Ended
  cases hPc : (s.box c).pc <;> simp only [hPc] at hSeated hBlocked <;>
    grind [View.Open, Box.Uncalled, Box.Starting, Box.Running, Box.Finished, Box.Waiting]

/-- **If nobody can go on, and the worker and its containers live, it waits for a
client.** -/
theorem Inv.idle_of_stuck (h : s.Inv) (hStuck : s.Stuck pathEnv) (hAlive : s.alive = true)
    (hThere : ∀ c, (s.box c).pc ≠ .died ∧ (s.box c).pc ≠ .killed) : s.Idle := by
  have hStep := hStuck .worker trivial
  simp only [Sys.step, if_pos hAlive, Sys.workerStep] at hStep
  have hPlace := h.place
  unfold PlaceOk at hPlace
  cases hWorker : s.worker
  all_goals simp only [hWorker, reduceCtorEq] at hStep hPlace
  case accept => exact h.idle_of_accept hStuck hAlive hThere hWorker
  case prepareContainers i next => split at hStep <;> cases hStep
  case startContainer i next id => simp [List.getElem?_eq_getElem hPlace.2.1] at hStep
  case writeTasks i =>
    exfalso
    split at hStep
    · cases hStep
    · rename_i hTask hNone
      have := (List.getElem?_eq_some_iff.mp hTask).1
      have := List.getElem?_eq_none_iff.mp hNone
      omega
    · split at hStep <;> cases hStep
  case taskBarrier i => split at hStep <;> cases hStep
  case awaitTask i =>
    exfalso
    have hUsed := List.getElem?_eq_getElem hPlace.2
    have hFits := h.boxes _ _ (.used hUsed)
    rw [hUsed] at hStep
    refine hStuck.answers hFits (hThere _) (.inl (by simp [view, hWorker, WorkerAt.view])) ?_
    by_contra hFree
    simp [hFree] at hStep
  case awaitStart =>
    have hFree := h.start_free_of_stuck hStuck hThere hWorker
    simp [hFree] at hStep
  case resultsBarrier i =>
    exfalso
    split at hStep
    · cases hStep
    · rename_i hTask hNone
      have := (List.getElem?_eq_some_iff.mp hTask).1
      have := List.getElem?_eq_none_iff.mp hNone
      omega
    · cases hStep
  case awaitResults i =>
    exfalso
    have hUsed := List.getElem?_eq_getElem hPlace.2
    have hFits := h.boxes _ _ (.used hUsed)
    rw [hUsed] at hStep
    refine hStuck.answers hFits (hThere _) (.inr (by simp [view, hWorker, WorkerAt.view])) ?_
    by_contra hFree
    simp [hFree] at hStep
  case putResults i =>
    have hTask : i < s.tasks.length := by omega
    simp [List.getElem?_eq_getElem hPlace.2, List.getElem?_eq_getElem hTask] at hStep
  case putId i =>
    split at hStep
    · cases hStep
    · split at hStep <;> cases hStep
  case waitpid i =>
    have hOld := List.getElem?_eq_getElem hPlace.2.1
    have hEnded := h.ended_of_stuck hStuck hWorker hOld
    simp [hOld, hEnded] at hStep

/-- A worker that is dead leaves nobody waiting. -/
theorem Inv.unblocked (h : s.Inv) (hGuarded : s.Guarded) (hStuck : s.Stuck pathEnv)
    (hDead : s.alive = false) (p : Proc) : ¬ s.Blocked p := by
  have hGone : ∀ c, ¬ (s.box c).Alive := fun c hBox => by
    have hArmed := hGuarded.armed c hBox
    split at hArmed
    · simp [hDead] at hArmed
    · have hKill := hStuck (.parentDied c) trivial
      simp [Sys.step, parentDied, hDead, hArmed, hBox] at hKill
  intro hBlocked
  cases p with
  | worker => simp [Blocked, hDead] at hBlocked
  | container c =>
    refine hGone c ?_
    unfold Blocked at hBlocked
    unfold Box.Alive
    cases hPc : (s.box c).pc <;> simp [hPc] at hBlocked ⊢
  | slave c =>
    obtain ⟨sl, hSlave, -⟩ := hBlocked
    obtain ⟨v, hSees⟩ := s.sees_total s.view c
    refine hGone c ?_
    rcases (h.boxes c v hSees).slave.pc_of_some hSlave with hPc | hPc | hPc <;>
      simp [Box.Alive, hPc]

/-- A container that has not been started is nowhere. -/
theorem Inv.unborn (h : s.Inv) (hNew : s.started ≤ c) :
    (s.box c).pc = .unborn ∧ (s.box c).slave = none ∧ (s.box c).sigchld = none := by
  have hFits := h.boxes c _ (.unborn hNew)
  have hPc : (s.box c).pc = .unborn := by
    by_contra hBorn
    exact hFits.seated.ne_unborn hBorn rfl
  have hSlave := hFits.slave
  rw [Box.HasSlave, hPc] at hSlave
  exact ⟨hPc, hSlave⟩

/-- The container is not there, or waits at its task barrier, and nobody kills it. -/
def AtRest (s : Sys) (c : BoxId) : Prop :=
  (s.box c).slave = none ∧ (s.box c).sigchld = none ∧
    (¬ (s.box c).Alive ∨ (s.box c).pc = .awaitTask ∧ .container ∈ (s.box c).barrier.waiting ∧
      (s.alive = true ∨ (s.box c).armed = false))

instance (s : Sys) (c : BoxId) : Decidable (s.AtRest c) :=
  inferInstanceAs (Decidable (_ ∧ _ ∧ (¬ (_ ∧ _ ∧ _ ∧ _) ∨ _)))

instance (s : Sys) : Decidable (s.Blocked .worker) :=
  @instDecidableAnd _ _ _ <|
    match s.worker with
    | .awaitTask i | .awaitResults i =>
      inferInstanceAs (Decidable (∃ c, s.containers[i]? = some c ∧
        .worker ∈ (s.box c).barrier.waiting))
    | .awaitStart => inferInstanceAs (Decidable (s.workerParty ∈ s.start.waiting))
    | .accept | .prepareContainers _ _ | .startContainer _ _ _ | .resetBarrier | .writeTasks _
    | .taskBarrier _ | .startBarrier | .closePipes | .resultsBarrier _ | .putResults _ | .putId _
    | .waitpid _ => inferInstanceAs (Decidable False)

/-- A worker that a barrier holds does not go on. -/
theorem workerStep_of_blocked (h : s.Blocked .worker) : s.workerStep = none := by
  obtain ⟨-, hHeld⟩ := h
  unfold workerStep
  split at hHeld
  · rename_i i hWorker
    obtain ⟨c, hUsed, hWaits⟩ := hHeld
    simp [hWorker, hUsed, hWaits]
  · rename_i i hWorker
    obtain ⟨c, hUsed, hWaits⟩ := hHeld
    simp [hWorker, hUsed, hWaits]
  · rename_i hWorker
    simp [hWorker, hHeld]
  · exact hHeld.elim

/-- Nobody can go on where the worker has nothing to do, or is held, and every container
is at rest. -/
theorem stuck_of_rest (hWorker : s.alive = false ∨ s.worker = .accept ∨ s.Blocked .worker)
    (hBoxes : ∀ c, s.AtRest c) : s.Stuck pathEnv := by
  intro a hOwn
  cases a with
  | worker =>
    rcases hWorker with hDead | hAccept | hBlocked
    · simp [step, hDead]
    · simp [step, workerStep, hAccept]
    · simp [step, workerStep_of_blocked hBlocked]
  | container c =>
    obtain ⟨-, -, hGone | ⟨hPc, hHeld, -⟩⟩ := hBoxes c
    · unfold Box.Alive at hGone
      simp only [step, containerStep]
      cases hPc : (s.box c).pc <;> simp [hPc] at hGone ⊢
    · simp [step, containerStep, hPc, hHeld]
  | readUsage c u =>
    obtain ⟨-, -, hGone | ⟨hPc, -⟩⟩ := hBoxes c
    · unfold Box.Alive at hGone
      simp only [step, readUsage]
      cases hPc : (s.box c).pc <;> simp [hPc] at hGone ⊢
    · simp [step, readUsage, hPc]
  | slave c | exit c status =>
    simp [step, slaveStep, exit, (hBoxes c).1]
  | containerSigchld c => simp [step, containerSigchld, (hBoxes c).2.1]
  | parentDied c =>
    obtain ⟨-, -, hGone | ⟨-, -, hAlive | hArmed⟩⟩ := hBoxes c
    · simp [step, parentDied, hGone]
    · simp [step, parentDied, hAlive]
    · simp [step, parentDied, hArmed]
  | _ => cases hOwn

/-- Containers that have not been started are at rest. -/
theorem Inv.atRest (h : s.Inv) (hStarted : ∀ c < s.started, s.AtRest c) (c : BoxId) : s.AtRest c := by
  by_cases hOld : c < s.started
  · exact hStarted c hOld
  · obtain ⟨hPc, hSlave, hSigchld⟩ := h.unborn (Nat.le_of_not_lt hOld)
    exact ⟨hSlave, hSigchld, .inl fun hAlive => hAlive.1 hPc⟩

/-- A request of one task that a permanent container serves, from `accept` to `accept`. -/
def requestRun (task : Task) : List Act :=
  [.accept [task], .worker, .worker, .worker, .worker, .worker, .worker, .worker,
    -- prepare() and the task barrier
    .container 0, .container 0, .container 0, .container 0, .container 0, .worker, .worker,
    -- up to the start barrier
    .worker, .container 0, .container 0, .container 0, .container 0, .slave 0,
    -- the slave, its target and wait_for_slave()
    .slave 0, .slave 0, .slave 0, .slave 0, .slave 0, .slave 0, .slave 0, .exit 0 (.exited 0),
    .container 0, .container 0, .containerSigchld 0, .readUsage 0 ⟨1, 0, 1, 2, 300, false, false⟩,
    -- the results barrier
    .worker, .worker, .worker, .container 0, .container 0, .worker, .worker, .worker, .worker,
    -- cleanup_root()
    .container 0, .container 0, .container 0]

end Sys

-- ---------------------------------------------------------------------------
-- Deadlocks
-- ---------------------------------------------------------------------------

def SignaledAct.IsOwn : SignaledAct → Prop
  | .sys a => a.IsOwn
  | .deliver => True

namespace Signaled

/-- No process can take a step, and no signal is left to be handled. -/
def Stuck (pathEnv : Option Str) (s : Signaled) : Prop :=
  ∀ a, a.IsOwn → s.step pathEnv a = none

def Deadlock (pathEnv : Option Str) (s : Signaled) : Prop :=
  (∃ p, s.sys.Blocked p) ∧ s.Stuck pathEnv

/-- If the worker dies in this step, each container that it has started has asked for
its death signal; and no container dies whose signal the kernel drops. -/
def Orderly (s : Signaled) (a : SignaledAct) : Prop :=
  (s.Kills a → ∀ c, (s.sys.box c).pc ≠ .prepare) ∧ ¬ s.Merges a

variable {pathEnv : Option Str} {s s' : Signaled} {a : SignaledAct}

theorem stuck_iff_parts : s.Stuck pathEnv ↔
    s.sys.Stuck pathEnv ∧ (s.sys.alive = true → s.sigchld = none) := by
  constructor
  · intro h
    refine ⟨fun a hOwn => ?_, fun hAlive => ?_⟩
    · have hStep := h (.sys a) hOwn
      cases hSys : s.sys.step pathEnv a with
      | none => rfl
      | some sys => cases a <;> simp [step, hSys, Act.IsOwn] at hStep hOwn
    · have hStep := h .deliver trivial
      simp only [step, hAlive, if_true] at hStep
      split at hStep
      · assumption
      · cases hStep
      · cases hStep
  · rintro ⟨hSys, hNone⟩ a hOwn
    cases a with
    | sys a =>
      have hStep := hSys a hOwn
      cases a with
      | workerSigchld => rfl
      | _ => simp [step, hStep]
    | deliver =>
      by_cases hAlive : s.sys.alive = true
      · simp [step, hNone hAlive]
      · simp [step, hAlive]

theorem guarded_step (h : s.sys.Guarded) (hOrderly : s.Orderly a)
    (hStep : s.step pathEnv a = some s') : s'.sys.Guarded := by
  have hKills := kills_of_step hStep
  cases step_moves hStep with
  | sys hOwn hSys => exact h.step (fun hAlive hDead => hOrderly.1 (hKills hAlive hDead)) hSys
  | returns => exact h
  | dies hAlive hPending =>
    have hBoxes := hOrderly.1 hPending
    refine ⟨fun c hBox => ?_, fun c _ => rfl⟩
    have hArmed := h.armed c hBox
    rw [if_neg (hBoxes c)] at hArmed
    show if (s.sys.box c).pc = .prepare then _ else (s.sys.box c).armed = true
    rw [if_neg (hBoxes c)]
    exact hArmed

/-- Where nobody can go on and the worker lives, no container has died. -/
theorem there_of_stuck (hGuarded : s.sys.Guarded) (hNoticed : s.Noticed)
    (hStuck : s.Stuck pathEnv) (hAlive : s.sys.alive = true) (c : BoxId) :
    (s.sys.box c).pc ≠ .died ∧ (s.sys.box c).pc ≠ .killed := by
  refine ⟨fun hDied => ?_, fun hKilled => ?_⟩
  · have hPending := hNoticed hAlive c hDied
    rw [(stuck_iff_parts.mp hStuck).2 hAlive] at hPending
    cases hPending
  · rw [hGuarded.killed c hKilled] at hAlive
    cases hAlive

/-- **Nobody waits for ever**, but for a client. -/
theorem idle_of_deadlock (hInv : s.sys.Inv) (hGuarded : s.sys.Guarded) (hNoticed : s.Noticed)
    (hDeadlock : s.Deadlock pathEnv) : s.sys.Idle := by
  obtain ⟨⟨p, hBlocked⟩, hStuck⟩ := hDeadlock
  have hSys := (stuck_iff_parts.mp hStuck).1
  cases hAlive : s.sys.alive with
  | true => exact hInv.idle_of_stuck hSys hAlive (there_of_stuck hGuarded hNoticed hStuck hAlive)
  | false => exact absurd hBlocked (hInv.unblocked hGuarded hSys hAlive p)

/-- **The start barrier, and deadlock freedom.** -/
theorem startBarrier_of_run {firstUid : Uid} {acts : List SignaledAct}
    (hRun : run (step pathEnv) (initial firstUid) acts = some s) :
    s.sys.StartBarrierOk pathEnv ∧
      (AllSteps (step pathEnv) Orderly (initial firstUid) acts →
        s.Deadlock pathEnv → s.sys.Idle) := by
  have hInv : s.sys.Inv := inv_of_reachable ⟨acts, hRun⟩
  refine ⟨hInv.startBarrierOk, fun hOrderly => ?_⟩
  obtain ⟨hGuarded, hNoticed⟩ := invariant_of_run
    (I := fun s : Signaled => s.sys.Guarded ∧ s.Noticed)
    (fun _ _ _ h hOk hStep => ⟨guarded_step h.1 hOk hStep, h.2.step hOk.2 hStep⟩)
    ⟨Sys.guarded_initial firstUid, noticed_initial firstUid⟩ hOrderly hRun
  exact idle_of_deadlock hInv hGuarded hNoticed

/-- In a run that the worker survives only the signals have to be looked at. -/
theorem orderly_of_alive {acts : List SignaledAct} {s₀ : Signaled}
    (hRun : run (step pathEnv) s₀ acts = some s) (hAlive : s.sys.alive = true)
    (hMerges : AllSteps (step pathEnv) (fun s a => ¬ s.Merges a) s₀ acts) :
    s₀.sys.alive = true ∧ AllSteps (step pathEnv) Orderly s₀ acts := by
  induction acts generalizing s₀ with
  | nil =>
    cases hRun
    exact ⟨hAlive, trivial⟩
  | cons a acts ih =>
    obtain ⟨m, hFirst, hRest⟩ := run_cons_eq_some.mp hRun
    obtain ⟨hBehind, hSteps⟩ := ih hRest (hMerges.2 m hFirst)
    obtain ⟨hBefore, hSpares⟩ := survives hFirst hBehind
    refine ⟨hBefore, ⟨fun hKills => absurd hKills hSpares, hMerges.1⟩, fun s' hStep => ?_⟩
    obtain rfl := Option.some.inj (hFirst.symm.trans hStep)
    exact hSteps

/-- Two tasks, one in a container of its own and one in a permanent container. -/
def mixedTasks : List Task :=
  [{ argv := [lit "true"], needIpc := true }, { argv := [lit "false"] }]

/-- The first container has exited with 0, its `SIGCHLD` is pending, and the worker waits for
the results of the second, whose target runs. -/
def pendingRun : List SignaledAct :=
  (List.flatten [
    -- prepare_containers(), write_tasks() and the containers up to the start barrier
    [.accept mixedTasks], List.replicate 10 .worker, List.replicate 3 (.container 0),
    [.worker, .worker], List.replicate 5 (.container 0), List.replicate 4 (.container 1),
    List.replicate 3 .worker, List.replicate 5 (.container 1),
    -- the start barrier, the slaves and their targets
    [.slave 0, .slave 1, .worker, .worker, .worker, .container 0, .container 1],
    List.replicate 7 (.slave 0), List.replicate 7 (.slave 1),
    [.exit 0 (.exited 0), .container 0, .containerSigchld 0,
      .readUsage 0 ⟨1, 0, 1, 2, 300, false, false⟩, .container 0, .container 0],
    List.replicate 3 .worker, List.replicate 2 (.container 0)]).map .sys

/-- Both are served. -/
def mixedRun : List SignaledAct :=
  pendingRun ++ .deliver :: (List.flatten [
    [.exit 1 (.exited 1), .container 1, .containerSigchld 1,
      .readUsage 1 ⟨1, 0, 1, 2, 300, false, false⟩, .container 1, .container 1],
    List.replicate 6 .worker, List.replicate 3 (.container 1)]).map .sys

/-- The second container dies before the worker has handled the signal. -/
def mergedRun : List SignaledAct := pendingRun ++ [.sys (.fail (.container 1)), .deliver]

/-- A deadlock, by what a run shows of it. -/
theorem deadlock_of_rest (hInv : s.sys.Inv) {p : Proc} (hBlocked : s.sys.Blocked p)
    (hWorker : s.sys.alive = false ∨ s.sys.worker = .accept ∨ s.sys.Blocked .worker)
    (hPending : s.sigchld = none) (hBoxes : ∀ c < s.sys.started, s.sys.AtRest c) :
    s.Deadlock pathEnv :=
  ⟨⟨p, hBlocked⟩, stuck_iff_parts.mpr ⟨Sys.stuck_of_rest hWorker (hInv.atRest hBoxes), fun _ => hPending⟩⟩

/-- The permanent container waits for the next task, in a deadlock that is none. -/
theorem startBarrier_of_mixedRun :
    ∃ s, run (step none) (initial 1000) mixedRun = some s ∧
      s.sys.StartBarrierOk none ∧ s.Deadlock none ∧ s.sys.Idle := by
  have hSeen : (run (step none) (initial 1000) mixedRun).map (fun s => decide
      (s.sys.alive = true ∧ s.sys.worker = .accept ∧ s.sigchld = none ∧
        (∀ c < s.sys.started, s.sys.AtRest c) ∧ (s.sys.box 1).pc = .awaitTask ∧
        (s.sys.box 1).barrier.waiting = [.container])) = some true := by decide +kernel
  have hMerges : AllSteps (step none) (fun s a => ¬ s.Merges a) (initial 1000) mixedRun := by
    decide +kernel
  obtain ⟨s, hRun, hState⟩ := Option.map_eq_some_iff.mp hSeen
  obtain ⟨hAlive, hWorker, hPending, hBoxes, hPc, hWaiting⟩ := of_decide_eq_true hState
  obtain ⟨hStart, hIdle⟩ := startBarrier_of_run hRun
  have hDeadlock : s.Deadlock none := by
    refine deadlock_of_rest (inv_of_reachable ⟨_, hRun⟩) (p := .container 1) ?_ (.inr (.inl hWorker))
      hPending hBoxes
    simp [Sys.Blocked, hPc, hWaiting]
  exact ⟨s, hRun, hStart, hDeadlock, hIdle (orderly_of_alive hRun hAlive hMerges).2 hDeadlock⟩

/-- `set_task` refuses eleven binds. -/
def refusedTask : Task where
  argv := [lit "true"]
  binds := List.replicate 11 ⟨lit "usr", lit "/usr", 0⟩

/-- The worker dies before its container has asked for its death signal. -/
def orphanRun : List SignaledAct :=
  [Act.accept [refusedTask], .worker, .worker, .worker, .worker, .worker,
    .container 0, .container 0, .container 0, .container 0].map .sys

/-- **A container that its worker has left behind waits for ever**, with no call
failing. -/
theorem orphan_deadlock :
    ¬ ∀ acts s, (∀ p, SignaledAct.sys (.fail p) ∉ acts) →
      run (step none) (initial 1000) acts = some s → s.Deadlock none → s.sys.Idle := by
  intro hClaim
  have hSeen : (run (step none) (initial 1000) orphanRun).map (fun s => decide
      (s.sys.alive = false ∧ s.sigchld = none ∧ (∀ c < s.sys.started, s.sys.AtRest c) ∧
        (s.sys.box 0).pc = .awaitTask ∧ (s.sys.box 0).barrier.waiting = [.container])) =
      some true := by decide +kernel
  obtain ⟨s, hRun, hState⟩ := Option.map_eq_some_iff.mp hSeen
  obtain ⟨hDead, hPending, hBoxes, hPc, hWaiting⟩ := of_decide_eq_true hState
  have hDeadlock : s.Deadlock none := by
    refine deadlock_of_rest (inv_of_reachable ⟨_, hRun⟩) (p := .container 0) ?_ (.inl hDead)
      hPending hBoxes
    simp [Sys.Blocked, hPc, hWaiting]
  have hIdle := hClaim orphanRun s (by simp [orphanRun]) hRun hDeadlock
  simpa [hDead] using hIdle.alive

/-- **A worker waits for ever for a container whose signal the kernel has dropped.** -/
theorem merged_deadlock :
    ∃ s, run (step none) (initial 1000) mergedRun = some s ∧ s.Deadlock none ∧ ¬ s.sys.Idle := by
  have hSeen : (run (step none) (initial 1000) mergedRun).map (fun s => decide
      (s.sys.Blocked .worker ∧ s.sys.worker ≠ .accept ∧ s.sigchld = none ∧
        ∀ c < s.sys.started, s.sys.AtRest c)) = some true := by decide +kernel
  obtain ⟨s, hRun, hState⟩ := Option.map_eq_some_iff.mp hSeen
  obtain ⟨hBlocked, hWorker, hPending, hBoxes⟩ := of_decide_eq_true hState
  exact ⟨s, hRun, deadlock_of_rest (inv_of_reachable ⟨_, hRun⟩) hBlocked (.inr (.inr hBlocked))
    hPending hBoxes, fun hIdle => hWorker hIdle.accept⟩

end Signaled

end Libsbox
