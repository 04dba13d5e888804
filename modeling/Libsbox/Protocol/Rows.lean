import Libsbox.Protocol.Invariant

/-!
# libsbox — the rows of a request

`tasks_` and `containers_` are filled by different functions and read side by side.
`Sys.Rows` is what ties their `j`-th entries together: the container is of the kind
that the task asks for, its block describes the task from `set_task` on, and the task
has the results of the block from `put_results` on.

## Results

* `Rows.step`, `rows_of_reachable` — every step keeps it.
-/

namespace Libsbox

open CMemory Runs

/-- The worker has written the `j`-th task of the request into the block of its
container. -/
def WorkerAt.Wrote (j : Nat) : WorkerAt → Prop
  | .accept | .prepareContainers _ _ | .startContainer _ _ _ | .resetBarrier => False
  | .writeTasks i => j < i
  | _ => True

/-- The worker has read the results of the `j`-th task from there. -/
def WorkerAt.Put (j : Nat) : WorkerAt → Prop
  | .resultsBarrier i | .awaitResults i | .putResults i => j < i
  | .putId _ | .waitpid _ => True
  | _ => False

variable {pathEnv : Option Str} {s s' : Sys} {a : Act} {c : BoxId} {b b' : Box} {p : Option Party}
variable {j k : Nat} {waiting : List Party}

-- ---------------------------------------------------------------------------
-- What moves of a container leave
-- ---------------------------------------------------------------------------

@[simp] theorem Block.setUsage_parameters (k : Nat) (u : Usage) (b : Block) :
    (b.setUsage k u).task.parameters = b.task.parameters := by
  unfold setUsage checkTimeLimit checkWallTimeLimit
  split <;> split <;> rfl

theorem Box.Moves.parameters_eq (h : b.Moves pathEnv s c p b') :
    b'.block.task.parameters = b.block.task.parameters := by
  cases h with
  | reap hPc hSlave =>
    rename_i status request
    cases status <;> rfl
  | readUsage | slaveError => exact Block.setUsage_parameters _ _ _
  | _ => rfl

/-- The container of a request that the worker is done with writes nothing. -/
theorem Box.Moves.block_eq (h : b.Moves pathEnv s c p b') (hFits : b.Fits k waiting .done c) :
    b'.block = b.block := by
  have hSeated := hFits.seated
  have hPc : b.pc ≠ .startBarrier ∧ b.pc ≠ .awaitStart ∧ b.pc ≠ .waitForSlave ∧
      b.pc ≠ .readUsage := by
    unfold Seated at hSeated
    refine ⟨?_, ?_, ?_, ?_⟩ <;> intro hPc <;>
      simp [hPc, Starting, View.Open, Running] at hSeated
  have hNone : ∀ sl, b.slave ≠ some sl := fun sl hSlave => by
    rcases hFits.slave.pc_of_some hSlave with h | h | h
    · exact hPc.1 h
    · exact hPc.2.1 h
    · exact hPc.2.2.1 h
  cases h with
  | reap hWait => exact absurd hWait hPc.2.2.1
  | readUsage u hRead | slaveError u hRead => exact absurd hRead hPc.2.2.2
  | slaveStarts hSlave | slaveGoesOn hSlave | slaveSetsError hSlave => exact absurd hSlave (hNone _)
  | _ => rfl

namespace Sys

theorem view_of_put (h : s.worker.Put j) : s.view j = .done := by
  unfold view
  cases hWorker : s.worker <;> simp_all [WorkerAt.Put, WorkerAt.view]
  omega

/-- A step that only goes on writes and reads no task. -/
theorem GoesOn.wrote {w w' : WorkerAt} {task : Task} (h : s.GoesOn w w')
    (hTask : s.tasks[j]? = some task) : (w'.Wrote j → w.Wrote j) ∧ (w'.Put j → w.Put j) := by
  have hLt := (List.getElem?_eq_some_iff.mp hTask).1
  cases h with
  | written hNone | asked hNone =>
    have := List.getElem?_eq_none_iff.mp hNone
    simp only [WorkerAt.Wrote, WorkerAt.Put, imp_self, forall_const, and_true, true_and]
    omega
  | _ => simp [WorkerAt.Wrote, WorkerAt.Put]

-- ---------------------------------------------------------------------------
-- The rows
-- ---------------------------------------------------------------------------

/-- The `j`-th row of the request: a container and its task. -/
def Row (s : Sys) (j : Nat) (c : BoxId) (task : Task) : Prop :=
  s.containers[j]? = some c ∧ s.tasks[j]? = some task

/-- What holds in the rows of a request. -/
structure Rows (s : Sys) : Prop where
  chosen : ∀ j c task, s.Row j c task → (s.box c).permanent = permanentAllowed task
  written : ∀ j c task, s.Row j c task → s.worker.Wrote j →
    (s.box c).block.task.parameters = task.parameters
  put : ∀ j c task, s.Row j c task → s.worker.Put j → (s.box c).block.putResults task = task

theorem Row.born (hInv : s.Inv) {task : Task} (h : s.Row j c task) : c < s.started :=
  hInv.roster.born c (hInv.roster.within c (List.mem_of_getElem? h.1))

/-- A container is in one row only. -/
theorem Row.unique (hInv : s.Inv) {task task' : Task} {j' : Nat} (h : s.Row j c task)
    (h' : s.Row j' c task') : j = j' :=
  (List.getElem?_inj (List.getElem?_eq_some_iff.mp h.1).1 hInv.roster.distinct).mp
    (h.1.trans h'.1.symm)

/-- A step that leaves the lists as they are. -/
theorem Rows.keep (h : s.Rows) (hContainers : s'.containers = s.containers)
    (hTasks : s'.tasks = s.tasks)
    (hWorker : ∀ j task, s.tasks[j]? = some task →
      (s'.worker.Wrote j → s.worker.Wrote j) ∧ (s'.worker.Put j → s.worker.Put j))
    (hBoxes : ∀ j c task, s.Row j c task → (s'.box c).permanent = (s.box c).permanent ∧
      (s'.box c).block.task.parameters = (s.box c).block.task.parameters ∧
      (s.worker.Put j → (s'.box c).block = (s.box c).block)) : s'.Rows := by
  have hRow : ∀ j c task, s'.Row j c task → s.Row j c task := by
    intro j c task hRow
    rw [Row, hContainers, hTasks] at hRow
    exact hRow
  refine ⟨fun j c task hRow' => ?_, fun j c task hRow' hWrote => ?_, fun j c task hRow' hPut => ?_⟩
  · have hOld := hRow j c task hRow'
    rw [(hBoxes j c task hOld).1]
    exact h.chosen j c task hOld
  · have hOld := hRow j c task hRow'
    rw [(hBoxes j c task hOld).2.1]
    exact h.written j c task hOld ((hWorker j task hOld.2).1 hWrote)
  · have hOld := hRow j c task hRow'
    have hPutOld := (hWorker j task hOld.2).2 hPut
    rw [(hBoxes j c task hOld).2.2 hPutOld]
    exact h.put j c task hOld hPutOld

/-- A step of the worker that only moves it, or touches barriers and ids. -/
theorem Rows.goTo (h : s.Rows) {w : WorkerAt}
    (hWorker : ∀ j task, s.tasks[j]? = some task →
      (w.Wrote j → s.worker.Wrote j) ∧ (w.Put j → s.worker.Put j))
    (hContainers : s'.containers = s.containers) (hTasks : s'.tasks = s.tasks)
    (hPlace : s'.worker = w) (hBox : ∀ c, (s'.box c).permanent = (s.box c).permanent ∧
      (s'.box c).block = (s.box c).block) : s'.Rows := by
  refine h.keep hContainers hTasks (fun j task hTask => ?_) fun j c task _ => ?_
  · rw [hPlace]
    exact hWorker j task hTask
  · exact ⟨(hBox c).1, by rw [(hBox c).2], fun _ => (hBox c).2⟩

/-- No row is there. -/
theorem rows_of_empty (h : s.containers = []) : s.Rows := by
  have hNone : ∀ j c task, ¬ s.Row j c task := fun j c task hRow => by
    rw [Row, h] at hRow
    exact absurd hRow.1 (Option.some_ne_none c).symm
  exact ⟨fun j c task hRow => absurd hRow (hNone j c task),
    fun j c task hRow => absurd hRow (hNone j c task),
    fun j c task hRow => absurd hRow (hNone j c task)⟩

theorem callContainer_box (s : Sys) (c c' : BoxId) :
    ((s.callContainer c).box c').permanent = (s.box c').permanent ∧
      ((s.callContainer c).box c').block = (s.box c').block := by
  unfold callContainer
  rcases eq_or_ne c' c with rfl | hNe
  · rw [setBox_box_self]
    exact ⟨rfl, rfl⟩
  · rw [setBox_box_ne s _ hNe]
    exact ⟨rfl, rfl⟩

/-- `prepare_containers` adds a row with a container of the kind that the task asks for. -/
theorem Rows.add (h : s.Rows) (hInv : s.Inv) {i next : Nat} {task : Task} {cNew : BoxId}
    (hLength : s.containers.length = i) (hTask : s.tasks[i]? = some task)
    (hContainers : s'.containers = s.containers ++ [cNew]) (hTasks : s'.tasks = s.tasks)
    (hPlace : s'.worker = .prepareContainers (i + 1) next)
    (hOld : ∀ c, c < s.started → (s'.box c).permanent = (s.box c).permanent)
    (hNew : (s'.box cNew).permanent = permanentAllowed task) : s'.Rows := by
  refine ⟨fun j c task' hRow => ?_, fun j c task' _ hWrote => ?_, fun j c task' _ hPut => ?_⟩
  · rw [Row, hContainers, hTasks] at hRow
    obtain ⟨hUsed, hTask'⟩ := hRow
    rcases Nat.lt_or_ge j s.containers.length with hLt | hGe
    · rw [List.getElem?_append_left hLt] at hUsed
      have hRowOld : s.Row j c task' := ⟨hUsed, hTask'⟩
      rw [hOld c (hRowOld.born hInv)]
      exact h.chosen j c task' hRowOld
    · obtain rfl : j = i := by
        have := (List.getElem?_eq_some_iff.mp hUsed).1
        rw [List.length_append, List.length_singleton] at this
        omega
      rw [← hLength, List.getElem?_concat_length] at hUsed
      obtain rfl := Option.some.inj hUsed
      obtain rfl := Option.some.inj (hTask.symm.trans hTask')
      exact hNew
  · rw [hPlace] at hWrote
    exact hWrote.elim
  · rw [hPlace] at hPut
    exact hPut.elim

/-- `set_task` writes one row. -/
theorem Rows.write (h : s.Rows) (hInv : s.Inv) {i : Nat} {task : Task}
    (hWorker : s.worker = .writeTasks i) (hTask : s.tasks[i]? = some task)
    (hUsed : s.containers[i]? = some c) :
    { s.setBox c { s.box c with block := Block.setTask s.request task } with
      worker := .writeTasks (i + 1) : Sys }.Rows := by
  refine ⟨fun j c' task' hRow => ?_, fun j c' task' hRow hWrote => ?_, fun _ _ _ _ hPut => hPut.elim⟩
  · have hOld : s.Row j c' task' := hRow
    show ((s.setBox c _).box c').permanent = _
    rcases eq_or_ne c' c with rfl | hNe
    · rw [setBox_box_self]
      exact h.chosen j c' task' hOld
    · rw [setBox_box_ne s _ hNe]
      exact h.chosen j c' task' hOld
  · have hOld : s.Row j c' task' := hRow
    have hWritten : j < i + 1 := hWrote
    show ((s.setBox c _).box c').block.task.parameters = _
    rcases eq_or_ne c' c with rfl | hNe
    · obtain rfl : j = i := hOld.unique hInv ⟨hUsed, hTask⟩
      obtain rfl := Option.some.inj (hTask.symm.trans hOld.2)
      rw [setBox_box_self]
      rfl
    · have hOther : j ≠ i := by
        rintro rfl
        exact hNe (Option.some.inj (hOld.1.symm.trans hUsed))
      rw [setBox_box_ne s _ hNe]
      refine h.written j c' task' hOld ?_
      rw [hWorker]
      show j < i
      omega

/-- `put_results` reads one row. -/
theorem Rows.putResults (h : s.Rows) {i : Nat} {task : Task}
    (hWorker : s.worker = .putResults i) (hTask : s.tasks[i]? = some task)
    (hUsed : s.containers[i]? = some c) :
    { s with
      tasks := s.tasks.set i ((s.box c).block.putResults task)
      worker := .resultsBarrier (i + 1) : Sys }.Rows := by
  have hRows : ∀ j c' task', { s with
        tasks := s.tasks.set i ((s.box c).block.putResults task)
        worker := .resultsBarrier (i + 1) : Sys }.Row j c' task' →
      (j = i ∧ c' = c ∧ task' = (s.box c).block.putResults task) ∨
        (j ≠ i ∧ s.Row j c' task') := by
    rintro j c' task' ⟨hUsed', hTask'⟩
    rcases eq_or_ne j i with rfl | hNe
    · refine .inl ⟨rfl, Option.some.inj (hUsed'.symm.trans hUsed), ?_⟩
      change (s.tasks.set j _)[j]? = some task' at hTask'
      rw [List.getElem?_set_self (List.getElem?_eq_some_iff.mp hTask).1] at hTask'
      exact (Option.some.inj hTask').symm
    · change (s.tasks.set i _)[j]? = some task' at hTask'
      rw [List.getElem?_set_ne hNe.symm] at hTask'
      exact .inr ⟨hNe, hUsed', hTask'⟩
  refine ⟨fun j c' task' hRow => ?_, fun j c' task' hRow _ => ?_, fun j c' task' hRow hPut => ?_⟩
  · rcases hRows j c' task' hRow with ⟨rfl, rfl, rfl⟩ | ⟨-, hOld⟩
    · exact h.chosen j c' task ⟨hUsed, hTask⟩
    · exact h.chosen j c' task' hOld
  · have hWrote : s.worker.Wrote j := by
      rw [hWorker]
      trivial
    rcases hRows j c' task' hRow with ⟨rfl, rfl, rfl⟩ | ⟨-, hOld⟩
    · exact h.written j c' task ⟨hUsed, hTask⟩ hWrote
    · exact h.written j c' task' hOld hWrote
  · rcases hRows j c' task' hRow with ⟨rfl, rfl, rfl⟩ | ⟨hNe, hOld⟩
    · rfl
    · refine h.put j c' task' hOld ?_
      have hLt : j < i + 1 := hPut
      rw [hWorker]
      show j < i
      omega

theorem Rows.workerMoves (h : s.Rows) (hInv : s.Inv) (hMoves : s.WorkerMoves s') : s'.Rows := by
  have hPlace := hInv.place
  cases hMoves with
  | dies => exact h.goTo (fun _ _ _ => ⟨id, id⟩) rfl rfl rfl fun _ => ⟨rfl, rfl⟩
  | goesOn hGoesOn =>
    exact h.goTo (fun _ _ hTask => hGoesOn.wrote hTask) rfl rfl rfl fun _ => ⟨rfl, rfl⟩
  | @reuses i next task c hWorker hTask hAllowed hSpare =>
    simp only [PlaceOk, hWorker] at hPlace
    refine h.add hInv hPlace.1 hTask rfl rfl rfl (fun _ _ => rfl) ?_
    rw [hAllowed]
    exact hInv.roster.permanent c (List.mem_of_getElem? hSpare)
  | getsId hWorker =>
    exact h.goTo (fun _ _ _ => ⟨False.elim, False.elim⟩) rfl rfl rfl fun _ => ⟨rfl, rfl⟩
  | @startsPermanent i next task id hWorker hTask hAllowed
  | @startsTemporary i next task id hWorker hTask hAllowed =>
    simp only [PlaceOk, hWorker] at hPlace
    exact h.add hInv hPlace.1 hTask rfl rfl rfl
      (fun _ hBorn => congrArg Box.permanent (newContainer_box_ne s id task (Nat.ne_of_lt hBorn)))
      (congrArg Box.permanent (newContainer_box_self s id task))
  | resets hWorker =>
    exact h.goTo (fun _ _ _ => ⟨fun hWrote => absurd hWrote (Nat.not_lt_zero _), False.elim⟩)
      rfl rfl rfl fun _ => ⟨rfl, rfl⟩
  | writes hWorker hTask hUsed => exact h.write hInv hWorker hTask hUsed
  | @calls i c hWorker hUsed =>
    refine h.goTo (fun j task _ => ?_) rfl rfl rfl (callContainer_box s c)
    rw [hWorker]
    exact ⟨id, id⟩
  | arrives hWorker =>
    refine h.goTo (fun j task _ => ?_) rfl rfl rfl fun _ => ⟨rfl, rfl⟩
    rw [hWorker]
    exact ⟨id, id⟩
  | @asks i task c hWorker hTask hUsed =>
    refine h.goTo (fun j task _ => ?_) rfl rfl rfl (callContainer_box s c)
    rw [hWorker]
    exact ⟨id, id⟩
  | puts hWorker hTask hUsed => exact h.putResults hWorker hTask hUsed
  | putsId hWorker =>
    refine h.goTo (fun j task _ => ?_) rfl rfl rfl fun _ => ⟨rfl, rfl⟩
    rw [hWorker]
    exact ⟨id, id⟩
  | answers => exact rows_of_empty rfl

theorem Rows.turns (h : s.Rows) (hInv : s.Inv) (hTurns : s.Turns a s') : s'.Rows := by
  cases hTurns with
  | accepts hAlive hWorker =>
    have hPlace := hInv.place
    simp only [PlaceOk, hWorker] at hPlace
    exact rows_of_empty hPlace
  | worker hAlive hMoves => exact h.workerMoves hInv hMoves
  | dies => exact h.workerMoves hInv .dies
  | othersGet | othersPut =>
    exact h.goTo (fun _ _ _ => ⟨id, id⟩) rfl rfl rfl fun _ => ⟨rfl, rfl⟩

/-- A move of a container. -/
theorem Rows.moved (h : s.Rows) (hInv : s.Inv) (hMoved : s.Moved pathEnv c s') : s'.Rows := by
  obtain ⟨p, b, hMoves, rfl⟩ := hMoved
  refine h.keep rfl rfl (fun _ _ _ => ⟨id, id⟩) fun j c' task hRow => ?_
  show ((s.setBox c b).box c').permanent = _ ∧ ((s.setBox c b).box c').block.task.parameters = _ ∧
    (_ → ((s.setBox c b).box c').block = _)
  rcases eq_or_ne c' c with rfl | hNe
  · rw [setBox_box_self]
    refine ⟨hMoves.permanent_eq, hMoves.parameters_eq, fun hPut => ?_⟩
    have hFits := hInv.boxes c' _ (.used hRow.1)
    rw [view_of_put hPut] at hFits
    exact hMoves.block_eq hFits
  · rw [setBox_box_ne s b hNe]
    exact ⟨rfl, rfl, fun _ => rfl⟩

/-- **Every step keeps the rows.** -/
theorem Rows.step (h : s.Rows) (hInv : s.Inv) (hStep : s.step pathEnv a = some s') : s'.Rows := by
  cases hBox : a.box? with
  | some c =>
    rcases step_of_box hBox hStep with rfl | hMoved
    · exact h
    · exact h.moved hInv hMoved
  | none => exact h.turns hInv (step_turns hBox hStep)

theorem rows_of_reachable {firstUid : Uid}
    (hReach : Reachable (step pathEnv) (initial firstUid) s) : s.Inv ∧ s.Rows :=
  invariant_of_reachable (I := fun s => s.Inv ∧ s.Rows)
    (fun _ _ _ h hStep => ⟨h.1.step hStep, h.2.step h.1 hStep⟩)
    ⟨inv_initial firstUid, rows_of_empty rfl⟩ hReach

end Sys

end Libsbox
