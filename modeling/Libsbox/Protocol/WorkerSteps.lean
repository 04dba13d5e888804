import Libsbox.Protocol.Steps

/-!
# libsbox — what a step can do to the worker

The counterpart of `Box.Moves` for the worker: `Sys.WorkerMoves` lists what a step
of `Worker::process` makes of the whole system, with its guard, and `Sys.Turns`
adds the steps that belong to no container. The invariants of the protocol go
through these two lists and do not unfold `Sys.workerStep`.

## Results

* `workerStep_moves`, `step_turns` — the steps are the ones listed;
* `step_box` — what any step makes of a container;
* `step_alive` — a step in which the worker dies changes nothing else.
-/

namespace Libsbox

open CMemory

namespace Sys

/-- Steps of the worker that only go on. -/
inductive GoesOn (s : Sys) : WorkerAt → WorkerAt → Prop where
  | prepared {i next : Nat} (hTask : s.tasks[i]? = none) :
    GoesOn s (.prepareContainers i next) .resetBarrier
  | written {i : Nat} (hTask : s.tasks[i]? = none) : GoesOn s (.writeTasks i) (.taskBarrier 0)
  | called {i : Nat} (hUsed : s.containers[i]? = none) : GoesOn s (.taskBarrier i) .startBarrier
  | awaitTask {i : Nat} {c : BoxId} (hUsed : s.containers[i]? = some c)
      (hFree : .worker ∉ (s.box c).barrier.waiting) : GoesOn s (.awaitTask i) (.taskBarrier (i + 1))
  | awaitStart (hFree : s.workerParty ∉ s.start.waiting) : GoesOn s .awaitStart .closePipes
  | closePipes : GoesOn s .closePipes (.resultsBarrier 0)
  | asked {i : Nat} (hTask : s.tasks[i]? = none) : GoesOn s (.resultsBarrier i) (.putId 0)
  | awaitResults {i : Nat} {c : BoxId} (hUsed : s.containers[i]? = some c)
      (hFree : .worker ∉ (s.box c).barrier.waiting) : GoesOn s (.awaitResults i) (.putResults i)
  | waitpid {i : Nat} {c : BoxId} (hTemporary : s.temporary[i]? = some c)
      (hEnded : (s.box c).Ended) : GoesOn s (.waitpid i) (.putId (i + 1))

/-- A step of the worker. -/
inductive WorkerMoves (s : Sys) : Sys → Prop where
  | dies : WorkerMoves s s.die
  | goesOn {w : WorkerAt} (hGoesOn : s.GoesOn s.worker w) : WorkerMoves s { s with worker := w }
  | reuses {i next : Nat} {task : Task} {c : BoxId}
      (hWorker : s.worker = .prepareContainers i next) (hTask : s.tasks[i]? = some task)
      (hAllowed : permanentAllowed task = true) (hSpare : s.permanent[next]? = some c) :
    WorkerMoves s { s with
      containers := s.containers ++ [c]
      worker := .prepareContainers (i + 1) (next + 1) }
  | getsId {i next : Nat} {task : Task} {id : Uid} {stack : List Uid}
      (hWorker : s.worker = .prepareContainers i next) (hTask : s.tasks[i]? = some task)
      (hNone : permanentAllowed task = true → s.permanent[next]? = none)
      (hStack : s.ids.stack = id :: stack) :
    WorkerMoves s { s with ids := { s.ids with stack }, worker := .startContainer i next id }
  | startsPermanent {i next : Nat} {task : Task} {id : Uid}
      (hWorker : s.worker = .startContainer i next id) (hTask : s.tasks[i]? = some task)
      (hAllowed : permanentAllowed task = true) :
    WorkerMoves s { s.newContainer id task with
      permanent := s.permanent ++ [s.started]
      worker := .prepareContainers (i + 1) (next + 1) }
  | startsTemporary {i next : Nat} {task : Task} {id : Uid}
      (hWorker : s.worker = .startContainer i next id) (hTask : s.tasks[i]? = some task)
      (hAllowed : permanentAllowed task = false) :
    WorkerMoves s { s.newContainer id task with
      temporary := s.temporary ++ [s.started]
      worker := .prepareContainers (i + 1) next }
  | resets (hWorker : s.worker = .resetBarrier) :
    WorkerMoves s { s with
      start := ⟨(UInt32.ofNat (s.containers.length * 2 + 1)).toNat, []⟩
      worker := .writeTasks 0 }
  | writes {i : Nat} {task : Task} {c : BoxId} (hWorker : s.worker = .writeTasks i)
      (hTask : s.tasks[i]? = some task) (hUsed : s.containers[i]? = some c)
      (hFits : Block.refuses task = false) :
    WorkerMoves s { s.setBox c { s.box c with block := Block.setTask s.request task } with
      worker := .writeTasks (i + 1) }
  | calls {i : Nat} {c : BoxId} (hWorker : s.worker = .taskBarrier i)
      (hUsed : s.containers[i]? = some c) :
    WorkerMoves s { s.callContainer c with worker := .awaitTask i }
  | arrives (hWorker : s.worker = .startBarrier) :
    WorkerMoves s { s with start := s.start.arrive s.workerParty, worker := .awaitStart }
  | asks {i : Nat} {task : Task} {c : BoxId} (hWorker : s.worker = .resultsBarrier i)
      (hTask : s.tasks[i]? = some task) (hUsed : s.containers[i]? = some c) :
    WorkerMoves s { s.callContainer c with worker := .awaitResults i }
  | puts {i : Nat} {task : Task} {c : BoxId} (hWorker : s.worker = .putResults i)
      (hTask : s.tasks[i]? = some task) (hUsed : s.containers[i]? = some c) :
    WorkerMoves s { s with
      tasks := s.tasks.set i ((s.box c).block.putResults task)
      worker := .resultsBarrier (i + 1) }
  | putsId {i : Nat} {c : BoxId} (hWorker : s.worker = .putId i)
      (hTemporary : s.temporary[i]? = some c) (hRoom : s.ids.stack.length ≠ idCount) :
    WorkerMoves s { s with
      ids := { s.ids with stack := (s.box c).id :: s.ids.stack }
      worker := .waitpid i }
  | answers {i : Nat} (hWorker : s.worker = .putId i) (hTemporary : s.temporary[i]? = none) :
    WorkerMoves s { s with
      tasks := [], temporary := [], containers := []
      worker := .accept
      responses := s.responses ++ [s.tasks] }

/-- A step that belongs to no container. -/
inductive Turns (s : Sys) : Act → Sys → Prop where
  | accepts {tasks : List Task} (hAlive : s.alive = true) (hWorker : s.worker = .accept) :
    Turns s (.accept tasks)
      { s with request := s.request + 1, tasks, worker := .prepareContainers 0 0 }
  | worker {s' : Sys} (hAlive : s.alive = true) (hMoves : s.WorkerMoves s') : Turns s .worker s'
  | dies {a : Act} (hAlive : s.alive = true) : Turns s a s.die
  | othersGet {id : Uid} {stack : List Uid} (hStack : s.ids.stack = id :: stack) :
    Turns s .othersGet { s with ids := ⟨stack, id :: s.ids.elsewhere⟩ }
  | othersPut {id : Uid} (hElsewhere : id ∈ s.ids.elsewhere) :
    Turns s (.othersPut id) { s with ids := ⟨id :: s.ids.stack, s.ids.elsewhere.erase id⟩ }

variable {pathEnv : Option Str} {s s' : Sys} {a : Act}

theorem WorkerMoves.of_goesOn {w w' : WorkerAt} (hWorker : s.worker = w) (hGoesOn : s.GoesOn w w')
    (h : some { s with worker := w' } = some s') : s.WorkerMoves s' := by
  subst hWorker
  exact Option.some.inj h ▸ .goesOn hGoesOn

theorem getId_moves {i next : Nat} {task : Task} (hWorker : s.worker = .prepareContainers i next)
    (hTask : s.tasks[i]? = some task)
    (hNone : permanentAllowed task = true → s.permanent[next]? = none) :
    s.WorkerMoves (s.getId i next) := by
  unfold getId
  split
  · exact .dies
  · exact .getsId hWorker hTask hNone ‹_›

theorem prepareContainer_moves {i next : Nat} {task : Task}
    (hWorker : s.worker = .prepareContainers i next) (hTask : s.tasks[i]? = some task) :
    s.WorkerMoves (s.prepareContainer i next task) := by
  unfold prepareContainer
  split
  · split
    · exact .reuses hWorker hTask ‹_› ‹_›
    · exact getId_moves hWorker hTask fun _ => ‹_›
  · rename_i hTemporary
    exact getId_moves hWorker hTask fun hAllowed => absurd hAllowed hTemporary

/-- **The steps of the worker.** -/
theorem workerStep_moves (h : s.workerStep = some s') : s.WorkerMoves s' := by
  unfold workerStep at h
  cases hWorker : s.worker
  all_goals simp only [hWorker, reduceCtorEq] at h
  case prepareContainers i next =>
    split at h
    · exact .of_goesOn hWorker (.prepared ‹_›) h
    · exact Option.some.inj h ▸ prepareContainer_moves hWorker ‹_›
  case startContainer i next id =>
    split at h
    · cases h
    · rename_i task hTask
      rw [← Option.some.inj h, startContainer]
      split
      · exact .startsPermanent hWorker hTask ‹_›
      · exact .startsTemporary hWorker hTask (Bool.eq_false_iff.mpr ‹_›)
  case resetBarrier => exact Option.some.inj h ▸ .resets hWorker
  case writeTasks i =>
    split at h
    · exact .of_goesOn hWorker (.written ‹_›) h
    · cases h
    · split at h
      · exact Option.some.inj h ▸ .dies
      · exact Option.some.inj h ▸ .writes hWorker ‹_› ‹_› (Bool.eq_false_iff.mpr ‹_›)
  case taskBarrier i =>
    split at h
    · exact .of_goesOn hWorker (.called ‹_›) h
    · exact Option.some.inj h ▸ .calls hWorker ‹_›
  case awaitTask i =>
    split at h
    · cases h
    · split at h
      · cases h
      · exact .of_goesOn hWorker (.awaitTask ‹_› ‹_›) h
  case startBarrier => exact Option.some.inj h ▸ .arrives hWorker
  case awaitStart =>
    split at h
    · cases h
    · exact .of_goesOn hWorker (.awaitStart ‹_›) h
  case closePipes => exact .of_goesOn hWorker .closePipes h
  case resultsBarrier i =>
    split at h
    · exact .of_goesOn hWorker (.asked ‹_›) h
    · cases h
    · exact Option.some.inj h ▸ .asks hWorker ‹_› ‹_›
  case awaitResults i =>
    split at h
    · cases h
    · split at h
      · cases h
      · exact .of_goesOn hWorker (.awaitResults ‹_› ‹_›) h
  case putResults i =>
    split at h
    · exact Option.some.inj h ▸ .puts hWorker ‹_› ‹_›
    · cases h
  case putId i =>
    split at h
    · exact Option.some.inj h ▸ .answers hWorker ‹_›
    · split at h
      · exact Option.some.inj h ▸ .dies
      · exact Option.some.inj h ▸ .putsId hWorker ‹_› ‹_›
  case waitpid i =>
    split at h
    · cases h
    · split at h
      · exact .of_goesOn hWorker (.waitpid ‹_› ‹_›) h
      · cases h

/-- **The steps that belong to no container.** -/
theorem step_turns (hBox : a.box? = none) (h : s.step pathEnv a = some s') : s.Turns a s' := by
  cases a with
  | accept tasks =>
    simp only [step] at h
    split at h
    · rename_i hAccept
      exact Option.some.inj h ▸ .accepts hAccept.1 hAccept.2
    · cases h
  | worker =>
    simp only [step] at h
    split at h
    · exact .worker ‹_› (workerStep_moves h)
    · cases h
  | workerSigchld c =>
    simp only [step, workerSigchld] at h
    split at h
    · rename_i hDied
      exact Option.some.inj h ▸ .dies hDied.1
    · cases h
  | fail p =>
    cases p with
    | worker =>
      simp only [step, fail, failWorker] at h
      split at h
      · rename_i hAlive
        split at h
        all_goals first
          | exact absurd h (Option.some_ne_none _).symm
          | exact Option.some.inj h ▸ .dies hAlive
      · cases h
    | container c => cases hBox
    | slave c => cases hBox
  | othersGet =>
    simp only [step] at h
    split at h
    · cases h
    · exact Option.some.inj h ▸ .othersGet ‹_›
  | othersPut id =>
    simp only [step] at h
    split at h
    · exact Option.some.inj h ▸ .othersPut ‹_›
    · cases h
  | _ => cases hBox

-- ---------------------------------------------------------------------------
-- The containers
-- ---------------------------------------------------------------------------

theorem worked_setBox {c : BoxId} {b : Box} (h : (s.box c).Worked s c b) (c' : BoxId) :
    (s.box c').Worked s c' ((s.setBox c b).box c') := by
  rcases eq_or_ne c' c with rfl | hNe
  · rw [setBox_box_self]
    exact h
  · rw [setBox_box_ne s b hNe]
    exact .kept

/-- **What a step of the worker makes of the containers.** -/
theorem WorkerMoves.worked (h : s.WorkerMoves s') (hAlive : s.alive = true) (c : BoxId) :
    (s.box c).Worked s c (s'.box c) := by
  cases h with
  | startsPermanent hWorker hTask => exact worked_setBox (.started hAlive hWorker hTask rfl) c
  | startsTemporary hWorker hTask => exact worked_setBox (.started hAlive hWorker hTask rfl) c
  | writes hWorker hTask hUsed => exact worked_setBox (.written hWorker hTask hUsed) c
  | calls | asks => exact worked_setBox .called c
  -- the other steps leave all containers as they are
  | _ => exact .kept

/-- **What any other step makes of a container.** -/
theorem Turns.worked (h : s.Turns a s') (c : BoxId) : (s.box c).Worked s c (s'.box c) := by
  cases h with
  | worker hAlive hMoves => exact hMoves.worked hAlive c
  | _ => exact .kept

/-- **What any step makes of a container.** -/
theorem step_box (h : s.step pathEnv a = some s') (c : BoxId) :
    (∃ p, (s.box c).Moves pathEnv s c p (s'.box c)) ∨ (s.box c).Worked s c (s'.box c) := by
  cases hBox : a.box? with
  | some c' =>
    rcases step_of_box hBox h with rfl | ⟨p, b, hMoves, rfl⟩
    · exact .inr .kept
    · rcases eq_or_ne c c' with rfl | hNe
      · refine .inl ⟨p, ?_⟩
        change (s.box c).Moves pathEnv s c p ((s.setBox c b).box c)
        rwa [setBox_box_self]
      · have hKept : (s.moveBox c' p b).box c = s.box c := setBox_box_ne s b hNe
        exact .inr (hKept ▸ .kept)
  | none => exact .inr ((step_turns hBox h).worked c)

-- ---------------------------------------------------------------------------
-- The life of the worker
-- ---------------------------------------------------------------------------

theorem WorkerMoves.alive (h : s.WorkerMoves s') : s'.alive = s.alive ∨ s' = s.die := by
  cases h with
  | dies => exact .inr rfl
  | _ => exact .inl rfl

theorem Turns.alive (h : s.Turns a s') : s'.alive = s.alive ∨ s' = s.die := by
  cases h with
  | worker _ hMoves => exact hMoves.alive
  | dies => exact .inr rfl
  | _ => exact .inl rfl

/-- A step in which the worker dies changes nothing else. -/
theorem step_alive (h : s.step pathEnv a = some s') : s'.alive = s.alive ∨ s' = s.die := by
  cases hBox : a.box? with
  | some c =>
    rcases step_of_box hBox h with rfl | ⟨p, b, -, rfl⟩
    · exact .inl rfl
    · exact .inl rfl
  | none => exact (step_turns hBox h).alive

end Sys

end Libsbox
