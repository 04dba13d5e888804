import Libsbox.Pipes.Streams
import Libsbox.Protocol.SlaveSteps
import Mathlib.Data.List.Infix

/-!
# libsbox — the descriptors of a request

`World.Wired` ties the descriptors to the places of the processes: while the worker
has pipes, the streams of the tasks that it has written refer to them, and the table
of a slave is what `fork`, `open_files`, `dup2_fds` and `close_all_fds` make of the
worker's.

## Results

* `Wired.step`, `wired_of_reachable` — every step of the world keeps it;
* `step_sys` — the world is the system of its processes, with descriptors.
-/

namespace Libsbox

open CMemory Runs

-- ---------------------------------------------------------------------------
-- The invariant
-- ---------------------------------------------------------------------------

/-- The worker may have pipes. -/
def WorkerAt.HasPipes : WorkerAt → Prop
  | .writeTasks _ | .taskBarrier _ | .awaitTask _ | .startBarrier | .awaitStart | .closePipes => True
  | _ => False

/-- The worker has closed no pipe of the request. -/
def WorkerAt.Naming : WorkerAt → Prop
  | .prepareContainers _ _ | .startContainer _ _ _ | .resetBarrier | .writeTasks _ => True
  | _ => False

namespace World

/-- What holds of the table of the slave of `c`. -/
def SlaveFds (w : World) (c : BoxId) (sl : Slave) : Prop :=
  sl.pc.Holds w.work.made sl.request (w.sys.box c).block.task.parameters (w.streams c)
    (w.enterFds c) (w.slaveTable c)

/-- **What ties the descriptors to the places of the processes.** -/
structure Wired (w : World) : Prop where
  work : w.work.Ok w.sys.request
  complete : w.sys.worker.Naming → w.work.Complete w.sys.request
  closed : ¬ w.sys.worker.HasPipes → w.work.pipes = []
  given : ∀ j c task, w.sys.Row j c task → w.sys.worker.Wrote j → w.sys.worker.Counts → ∀ st,
    Pending w.work.made w.sys.request w.work.table st ((w.streams c).desc st) (task.asks st)
  slaves : ∀ c sl, (w.sys.box c).slave = some sl → w.SlaveFds c sl

variable {pathEnv : Option Str} {w w' : World} {a : Act} {c : BoxId} {sl : Slave} {fresh : List Fd}

theorem SlaveFds.congr (h : w.SlaveFds c sl) (hMade : w.work.made <+: w'.work.made)
    (hTask : (w'.sys.box c).block.task.parameters = (w.sys.box c).block.task.parameters)
    (hStreams : w'.streams c = w.streams c) (hEnter : w'.enterFds c = w.enterFds c)
    (hTable : w'.slaveTable c = w.slaveTable c) : w'.SlaveFds c sl := by
  rw [SlaveFds, hTask, hStreams, hEnter, hTable]
  exact SlaveAt.Holds.mono h hMade

theorem slaveFds_of_over (hOver : sl.pc.Over) : w.SlaveFds c sl := by
  unfold SlaveFds
  cases hPc : sl.pc <;> rw [hPc] at hOver
  case setError | exitFailure | zombie => trivial
  all_goals exact hOver.elim

/-- A step that leaves the worker's table. -/
theorem Wired.keep (h : w.Wired) (hWork : w'.work = w.work)
    (hRequest : w'.sys.request = w.sys.request)
    (hNaming : w'.sys.worker.Naming → w.sys.worker.Naming)
    (hPipes : w.sys.worker.HasPipes → w'.sys.worker.HasPipes ∨ w.work.pipes = [])
    (hRows : ∀ j c task, w'.sys.Row j c task → w'.sys.worker.Wrote j → w'.sys.worker.Counts →
      w.sys.Row j c task ∧ w.sys.worker.Wrote j ∧ w.sys.worker.Counts)
    (hStreams : ∀ c st made request t asked, Pending made request t st ((w.streams c).desc st) asked →
      Pending made request t st ((w'.streams c).desc st) asked)
    (hSlaves : ∀ c sl, (w'.sys.box c).slave = some sl → w'.SlaveFds c sl) : w'.Wired := by
  refine ⟨?_, fun hNames => ?_, fun hNone => ?_, fun j c task hRow hWrote hCounts st => ?_, hSlaves⟩
  · rw [hWork, hRequest]
    exact h.work
  · rw [hWork, hRequest]
    exact h.complete (hNaming hNames)
  · rw [hWork]
    by_cases hHad : w.sys.worker.HasPipes
    · exact (hPipes hHad).resolve_left hNone
    · exact h.closed hHad
  · rw [hWork, hRequest]
    obtain ⟨hRowOld, hWroteOld, hCountsOld⟩ := hRows j c task hRow hWrote hCounts
    exact hStreams _ _ _ _ _ _ (h.given j c task hRowOld hWroteOld hCountsOld st)

-- ---------------------------------------------------------------------------
-- Steps of a container and of its slave
-- ---------------------------------------------------------------------------

theorem sysStep_cases (h : w.sysStep pathEnv a = some w') :
    ∃ s', w.sys.step pathEnv a = some s' ∧ w' = { w with sys := s' } := by
  obtain ⟨s', hStep, rfl⟩ := Option.map_eq_some_iff.mp h
  exact ⟨s', hStep, rfl⟩

/-- The lists and the worker stay in a step of the processes of a container. -/
theorem box_step_kept {s s' : Sys} (hBox : a.box? = some c) (hStep : s.step pathEnv a = some s') :
    s'.request = s.request ∧ s'.worker = s.worker ∧ s'.containers = s.containers ∧
      s'.tasks = s.tasks := by
  rcases Sys.step_of_box hBox hStep with rfl | ⟨p, b, -, rfl⟩
  · exact ⟨rfl, rfl, rfl, rfl⟩
  · exact ⟨rfl, rfl, rfl, rfl⟩

/-- A step of the processes of a container, with its slave looked at. -/
theorem Wired.boxStep (h : w.Wired) (hBox : a.box? = some c)
    (hStep : w.sys.step pathEnv a = some w'.sys) (hWork : w'.work = w.work)
    (hStreams : ∀ c st made request t asked, Pending made request t st ((w.streams c).desc st) asked →
      Pending made request t st ((w'.streams c).desc st) asked)
    (hSlaves : ∀ c sl, (w'.sys.box c).slave = some sl → w'.SlaveFds c sl) : w'.Wired := by
  obtain ⟨hRequest, hWorker, hContainers, hTasks⟩ := box_step_kept hBox hStep
  refine h.keep hWork hRequest ?_ ?_ (fun j c task hRow hWrote hCounts => ?_) hStreams hSlaves
  · rw [hWorker]
    exact id
  · rw [hWorker]
    exact .inl
  · rw [Sys.Row, hContainers, hTasks] at hRow
    rw [hWorker] at hWrote hCounts
    exact ⟨hRow, hWrote, hCounts⟩

/-- Steps that are neither a `fork` nor a slave's, where the descriptors stay. -/
theorem Wired.quiet_slaves (h : w.Wired) (hInv : w.sys.Inv) {s' : Sys}
    (hStep : w.sys.step pathEnv a = some s') {c' : BoxId} (hSlave : (s'.box c').slave = some sl)
    (hNot : a ≠ .slave c') (hFork : a = .container c' → (w.sys.box c').pc ≠ .fork) :
    { w with sys := s' }.SlaveFds c' sl := by
  rcases Sys.step_slave hNot hStep hSlave with hOld | hOver | ⟨rfl, hPc, -⟩
  · exact (h.slaves c' sl hOld).congr (List.prefix_refl _) (Sys.slave_parameters hInv hStep hOld)
      rfl rfl rfl
  · exact slaveFds_of_over hOver
  · exact absurd hPc (hFork rfl)

/-- The table that a container has for its slave. -/
theorem Wired.forked (h : w.Wired) (hInv : w.sys.Inv) (hRows : w.sys.Rows)
    (hPc : (w.sys.box c).pc = .fork) :
    (w.sys.box c).serving = w.sys.request ∧
      Forked w.work.made w.sys.request (w.sys.box c).block.task.parameters (w.streams c)
        w.work.table := by
  obtain ⟨v, hSees⟩ := w.sys.sees_total w.sys.view c
  have hFits := hInv.boxes c v hSees
  have hSeated := hFits.seated
  simp only [Box.Seated, hPc] at hSeated
  have hOpen := hSeated.1
  obtain ⟨-, hCounts, -⟩ := Sys.open_view hSees hOpen
  cases hSees with
  | @used j hUsed =>
    have hWrote : w.sys.worker.Wrote j := by
      unfold Sys.view at hOpen
      cases hPlace : w.sys.worker <;> simp_all [WorkerAt.view, View.Open, WorkerAt.Wrote]
    obtain ⟨task, hTask⟩ : ∃ task, w.sys.tasks[j]? = some task := by
      have hLength : w.sys.containers.length = w.sys.tasks.length := by
        have hPlace := hInv.place
        cases hWorker : w.sys.worker <;> simp_all [Sys.PlaceOk, WorkerAt.Counts]
      have hLt := (List.getElem?_eq_some_iff.mp hUsed).1
      exact ⟨w.sys.tasks[j], List.getElem?_eq_getElem (by omega)⟩
    refine ⟨hFits.serving (by simp [Box.Serving, hPc]), h.work.nonneg, h.work.standing, fun st => ?_⟩
    have hSame := hRows.written j c task ⟨hUsed, hTask⟩ hWrote
    rw [hSame, Task.asks_parameters]
    exact h.given j c task ⟨hUsed, hTask⟩ hWrote hCounts st
  | _ => simp [View.Open] at hOpen

theorem Wired.containerStep (h : w.Wired) (hInv : w.sys.Inv) (hRows : w.sys.Rows)
    (hStep : w.containerStep pathEnv c = some w') : w'.Wired := by
  obtain ⟨m, hFirst, hRest⟩ := Option.bind_eq_some_iff.mp hStep
  obtain ⟨s', hSys, rfl⟩ := sysStep_cases hFirst
  split at hRest
  · rename_i hPc
    obtain rfl := Option.some.inj hRest
    refine h.boxStep (a := .container c) rfl hSys rfl (fun _ _ _ _ _ _ => id) fun c' sl hSlave => ?_
    rcases eq_or_ne c' c with rfl | hNe
    · obtain ⟨hServing, hForked⟩ := h.forked hInv hRows hPc
      rcases Sys.containerStep_slave hSys hSlave with hOld | ⟨-, rfl⟩
      · exfalso
        obtain ⟨v, hSees⟩ := w.sys.sees_total w.sys.view c'
        rcases (hInv.boxes c' v hSees).slave.pc_of_some hOld with hOther | hOther | hOther <;>
          rw [hPc] at hOther <;> cases hOther
      · have hTask : (s'.box c').block = (w.sys.box c').block := by
          have hFork := hSys
          simp only [Sys.step, Sys.containerStep, hPc] at hFork
          rw [← Option.some.inj hFork, Sys.setBox_box_self]
        unfold SlaveFds
        show Forked w.work.made (w.sys.box c').serving (s'.box c').block.task.parameters _
          (Function.update w.slaveTable c' w.work.table c')
        rw [hTask, Function.update_self, hServing]
        exact hForked
    · refine (h.quiet_slaves hInv hSys hSlave (by simp) ?_).congr (List.prefix_refl _) rfl rfl rfl
        (Function.update_of_ne hNe _ _)
      intro hSame
      cases hSame
      exact absurd rfl hNe
  · rename_i hPc
    obtain rfl := Option.some.inj hRest
    refine h.boxStep (a := .container c) rfl hSys rfl (fun _ _ _ _ _ _ => id) fun c' sl hSlave => ?_
    refine h.quiet_slaves hInv hSys hSlave (by simp) ?_
    intro hSame
    cases hSame
    exact hPc

/-- What a slave does with its descriptors. -/
structure SlaveDid (w : World) (c : BoxId) (w' : World) : Prop where
  sys : w'.sys = w.sys
  work : w'.work = w.work
  streams : ∀ c', c' ≠ c → w'.streams c' = w.streams c'
  tables : ∀ c', c' ≠ c → w'.slaveTable c' = w.slaveTable c'
  enter : ∀ c', c' ≠ c → w'.enterFds c' = w.enterFds c'
  pending : ∀ st made request t asked, Pending made request t st ((w.streams c).desc st) asked →
    Pending made request t st ((w'.streams c).desc st) asked

theorem slaveDid_refl (w : World) (c : BoxId) : w.SlaveDid c w :=
  ⟨rfl, rfl, fun _ _ => rfl, fun _ _ => rfl, fun _ _ => rfl, fun _ _ _ _ _ h => h⟩

/-- A new table for the slave. -/
theorem slaveDid_table (w : World) (c : BoxId) (t : FdTable File) :
    w.SlaveDid c { w with slaveTable := Function.update w.slaveTable c t } :=
  ⟨rfl, rfl, fun _ _ => rfl, fun _ hNe => Function.update_of_ne hNe _ _, fun _ _ => rfl,
    fun _ _ _ _ _ h => h⟩

/-- **What the steps of a slave make of its table.** -/
theorem slaveFds_holds (hFds : w.slaveFds c fresh sl.pc = some w') (h : w.SlaveFds c sl) :
    w.SlaveDid c w' ∧ sl.pc.next.Holds w.work.made sl.request
      (w.sys.box c).block.task.parameters (w'.streams c) (w'.enterFds c) (w'.slaveTable c) := by
  unfold SlaveFds at h
  cases hPc : sl.pc <;> rw [hPc] at hFds h
  case openFiles =>
    simp only [slaveFds, Option.bind_eq_bind, Option.bind_eq_some_iff, Prod.exists] at hFds
    obtain ⟨memory, t1, fresh1, hMemory, cpuacct, t2, fresh2, hCpuacct, streams, t3, fresh3, hFiles,
      hEq⟩ := hFds
    obtain rfl := Option.some.inj hEq
    obtain ⟨hOpened1, -⟩ := FdTable.openFile_cases hMemory
    obtain ⟨hOpened2, -⟩ := FdTable.openFile_cases hCpuacct
    have hEnter : t1.Opened .other (memory, cpuacct).2 t2 := hOpened2
    have hOpened := h.openFiles hOpened1 hEnter hFiles
    refine ⟨⟨rfl, rfl, fun _ hNe => Function.update_of_ne hNe _ _,
      fun _ hNe => Function.update_of_ne hNe _ _, fun _ hNe => Function.update_of_ne hNe _ _,
      fun st made request t asked hPending => ?_⟩, ?_⟩
    · show Pending made request t st ((Function.update w.streams c streams c).desc st) asked
      rw [Function.update_self]
      exact hPending.openFiles hFiles
    · show Opened _ _ _ (Function.update w.streams c streams c)
        (Function.update w.enterFds c (memory, cpuacct) c) (Function.update w.slaveTable c t3 c)
      rw [Function.update_self, Function.update_self, Function.update_self]
      exact hOpened
  case dup2Fds =>
    obtain ⟨t, hDup, hEq⟩ := Option.bind_eq_some_iff.mp hFds
    obtain rfl := Option.some.inj hEq
    refine ⟨slaveDid_table w c t, ?_⟩
    show Placed _ _ _ _ (Function.update w.slaveTable c t c)
    rw [Function.update_self]
    exact Opened.dup2Fds h hDup
  case closeAllFds =>
    obtain rfl := Option.some.inj hFds
    refine ⟨slaveDid_table w c _, ?_⟩
    show Closed _ _ _ _ (Function.update w.slaveTable c _ c)
    rw [Function.update_self]
    exact Placed.closeAllFds h
  case setupRlimits =>
    simp only [slaveFds, Option.bind_eq_bind, Option.bind_eq_some_iff] at hFds
    obtain ⟨t1, hMemory, t2, hCpuacct, hEq⟩ := hFds
    obtain rfl := Option.some.inj hEq
    refine ⟨slaveDid_table w c t2, ?_⟩
    show Closed _ _ _ _ (Function.update w.slaveTable c t2 c)
    rw [Function.update_self]
    exact Closed.leave h hMemory hCpuacct
  case exec =>
    obtain rfl := Option.some.inj hFds
    refine ⟨slaveDid_table w c _, ?_⟩
    show Closed _ _ _ _ (Function.update w.slaveTable c _ c)
    rw [Function.update_self]
    exact Closed.exec h
  case setError | exitFailure | zombie =>
    obtain rfl := Option.some.inj hFds
    exact ⟨slaveDid_refl _ c, trivial⟩
  all_goals
    obtain rfl := Option.some.inj hFds
    exact ⟨slaveDid_refl _ c, h⟩

theorem slaveFds_sys {pc : SlaveAt} (hFds : w.slaveFds c fresh pc = some w') : w'.sys = w.sys := by
  cases pc <;> simp only [slaveFds, Option.bind_eq_bind, Option.bind_eq_some_iff, Prod.exists] at hFds
  case openFiles =>
    obtain ⟨_, _, _, -, _, _, _, -, _, _, _, -, hEq⟩ := hFds
    rw [← Option.some.inj hEq]
  case dup2Fds =>
    obtain ⟨_, -, hEq⟩ := hFds
    rw [← Option.some.inj hEq]
  case setupRlimits =>
    obtain ⟨_, -, _, -, hEq⟩ := hFds
    rw [← Option.some.inj hEq]
  all_goals rw [← Option.some.inj hFds]

theorem Wired.slaveStep (h : w.Wired) (hInv : w.sys.Inv)
    (hStep : w.slaveStep pathEnv c fresh = some w') : w'.Wired := by
  unfold World.slaveStep at hStep
  split at hStep
  · cases hStep
  · rename_i sl hSlave
    obtain ⟨m, hFds, hLast⟩ := Option.bind_eq_some_iff.mp hStep
    obtain ⟨s', hSys, rfl⟩ := sysStep_cases hLast
    obtain ⟨hDid, hHolds⟩ := slaveFds_holds hFds (h.slaves c sl hSlave)
    rw [hDid.sys] at hSys
    refine h.boxStep (a := .slave c) rfl hSys hDid.work (fun c' st made request t asked => ?_)
      fun c' sl' hSlave' => ?_
    · rcases eq_or_ne c' c with rfl | hNe
      · exact hDid.pending st made request t asked
      · show _ → Pending made request t st ((m.streams c').desc st) asked
        rw [hDid.streams c' hNe]
        exact id
    · rcases eq_or_ne c' c with rfl | hNe
      · obtain ⟨sl1, hSlave1, hNext⟩ := Sys.slaveStep_slave hSys
        cases hSlave.symm.trans hSlave1
        obtain rfl := Option.some.inj (hNext.symm.trans hSlave')
        unfold SlaveFds
        show sl.pc.next.Holds m.work.made sl.request (s'.box c').block.task.parameters _ _ _
        rw [hDid.work, Sys.slave_parameters hInv hSys hSlave]
        exact hHolds
      · have hOther := h.quiet_slaves hInv hSys hSlave'
          (fun hSame => hNe (Act.slave.inj hSame).symm) (by simp)
        refine hOther.congr ?_ rfl (hDid.streams c' hNe) (hDid.enter c' hNe) (hDid.tables c' hNe)
        show w.work.made <+: m.work.made
        rw [hDid.work]

-- ---------------------------------------------------------------------------
-- Steps of the worker
-- ---------------------------------------------------------------------------

/-- A step of the worker: `set_task` refuses a stream, or it describes those of a task, or
the worker uses no descriptor. -/
inductive WorkerDoes (pathEnv : Option Str) (w : World) (fresh : List Fd) : World → Prop where
  | refuses {i : Nat} (hAlive : w.sys.alive = true) (hWorker : w.sys.worker = .writeTasks i) :
    WorkerDoes pathEnv w fresh { w with sys := w.sys.die }
  | writes {i : Nat} {task : Task} {c : BoxId} {streams : Streams} {pipes : Pipes} {s' : Sys}
      {work : Pipework} (hWorker : w.sys.worker = .writeTasks i)
      (hTask : w.sys.tasks[i]? = some task) (hUsed : w.sys.containers[i]? = some c)
      (hStep : w.sys.step pathEnv .worker = some s')
      (hSet : (w.streams c).set task ⟨w.work.pipes, fresh⟩ = .ok (streams, pipes))
      (hWork : w.work.addPipes w.sys.request
        (pipes.pipes.take (pipes.pipes.length - w.work.pipes.length)) = some work) :
    WorkerDoes pathEnv w fresh
      { w with sys := s', work, streams := Function.update w.streams c streams }
  | goesOn {s' : Sys} (hStep : w.sys.step pathEnv .worker = some s')
      (hWrites : ∀ i task c, w.sys.worker = .writeTasks i → w.sys.tasks[i]? = some task →
        w.sys.containers[i]? ≠ some c)
      (hCloses : w.sys.worker = .closePipes → w.work.pipes = []) :
    WorkerDoes pathEnv w fresh { w with sys := s' }

theorem workerStep_does (hStep : w.workerStep pathEnv fresh = some w') :
    w.WorkerDoes pathEnv fresh w' := by
  unfold World.workerStep at hStep
  split at hStep
  · rename_i i hWorker
    split at hStep
    · rename_i task c hTask hUsed
      split at hStep
      · split at hStep
        · exact Option.some.inj hStep ▸ .refuses ‹_› hWorker
        · cases hStep
      · rename_i streams pipes hSet
        simp only [Option.bind_eq_bind, Option.bind_eq_some_iff] at hStep
        obtain ⟨s', hSys, work, hWork, hEq⟩ := hStep
        exact Option.some.inj hEq ▸ .writes hWorker hTask hUsed hSys hSet hWork
    · rename_i hNone
      obtain ⟨s', hSys, rfl⟩ := sysStep_cases hStep
      refine .goesOn hSys (fun n task c hPlace hTask hUsed => ?_) (by simp [hWorker])
      cases hWorker.symm.trans hPlace
      exact hNone task c hTask hUsed
  · rename_i hPlace
    split at hStep
    · rename_i hEmpty
      obtain ⟨s', hSys, rfl⟩ := sysStep_cases hStep
      exact .goesOn hSys (by simp [hPlace]) fun _ => hEmpty
    · cases hStep
  · rename_i hNotWrites hNotCloses
    obtain ⟨s', hSys, rfl⟩ := sysStep_cases hStep
    exact .goesOn hSys (fun n _ _ hWrites => absurd hWrites (hNotWrites n))
      fun hCloses => absurd hCloses hNotCloses

/-- A worker whose `set_task` refuses a stream dies by a call that fails. -/
theorem fail_of_refuses {i : Nat} (hAlive : w.sys.alive = true)
    (hWorker : w.sys.worker = .writeTasks i) :
    w.sys.step pathEnv (.fail .worker) = some w.sys.die := by
  simp [Sys.step, Sys.fail, hAlive, Sys.failWorker, hWorker]

theorem goesOn_kept {s : Sys} {p p' : WorkerAt} (h : s.GoesOn p p') :
    (p'.Naming → p.Naming) ∧ (p.HasPipes → p'.HasPipes ∨ p = .closePipes) ∧
      (p'.Counts → p.Counts) := by
  cases h <;> simp [WorkerAt.Naming, WorkerAt.HasPipes, WorkerAt.Counts]

/-- A step of the worker that uses no descriptor. -/
theorem Wired.workerMoves (h : w.Wired) (hInv : w.sys.Inv) {s' : Sys}
    (hStep : w.sys.step pathEnv a = some s') (hSlaves : ∀ c, a ≠ .slave c ∧ a ≠ .container c)
    (hMoves : w.sys.WorkerMoves s')
    (hWrites : ∀ i task c, w.sys.worker = .writeTasks i → w.sys.tasks[i]? = some task →
      w.sys.containers[i]? = some c → s' = w.sys.die)
    (hCloses : w.sys.worker = .closePipes → w.work.pipes = []) :
    { w with sys := s' }.Wired := by
  have hBoxes : ∀ c sl, (s'.box c).slave = some sl → { w with sys := s' }.SlaveFds c sl :=
    fun c sl hSlave => h.quiet_slaves hInv hStep hSlave (hSlaves c).1
      fun hSame => absurd hSame (hSlaves c).2
  cases hMoves with
  | dies =>
    exact h.keep rfl rfl id .inl (fun _ _ _ hRow hWrote hCounts => ⟨hRow, hWrote, hCounts⟩)
      (fun _ _ _ _ _ _ => id) hBoxes
  | goesOn hGoesOn =>
    obtain ⟨hNaming, hPipes, hCounts⟩ := goesOn_kept hGoesOn
    refine h.keep rfl rfl hNaming (fun hHas => ?_) (fun j c task hRow hWrote hCounts' => ?_)
      (fun _ _ _ _ _ _ => id) hBoxes
    · exact (hPipes hHas).imp id hCloses
    · exact ⟨hRow, (hGoesOn.wrote hRow.2).1 hWrote, hCounts hCounts'⟩
  | writes hWorker hTask hUsed hFits =>
    have hDie := hWrites _ _ _ hWorker hTask hUsed
    rw [hDie] at hBoxes ⊢
    exact h.keep rfl rfl id .inl (fun _ _ _ hRow hWrote hCounts => ⟨hRow, hWrote, hCounts⟩)
      (fun _ _ _ _ _ _ => id) hBoxes
  | resets hWorker =>
    refine h.keep rfl rfl (fun _ => ?_) (fun hHas => ?_) (fun j c task hRow hWrote _ => ?_)
      (fun _ _ _ _ _ _ => id) hBoxes
    · rw [hWorker]
      trivial
    · rw [hWorker] at hHas
      exact hHas.elim
    · exact absurd hWrote (Nat.not_lt_zero j)
  | calls hWorker | arrives hWorker =>
    refine h.keep rfl rfl False.elim (fun _ => .inl trivial) (fun j c task hRow _ _ => ?_)
      (fun _ _ _ _ _ _ => id) hBoxes
    rw [hWorker]
    exact ⟨hRow, trivial, trivial⟩
  | reuses hWorker | getsId hWorker | startsPermanent hWorker | startsTemporary hWorker =>
    refine h.keep rfl rfl (fun _ => ?_) (fun hHas => ?_) (fun _ _ _ _ _ hCounts => hCounts.elim)
      (fun _ _ _ _ _ _ => id) hBoxes
    · rw [hWorker]
      trivial
    · rw [hWorker] at hHas
      exact hHas.elim
  | asks hWorker | puts hWorker | putsId hWorker | answers hWorker =>
    refine h.keep rfl rfl False.elim (fun hHas => ?_) (fun _ _ _ _ _ hCounts => hCounts.elim)
      (fun _ _ _ _ _ _ => id) hBoxes
    rw [hWorker] at hHas
    exact hHas.elim

/-- What `set_task` adds to the map is in front. -/
theorem take_new {α : Type} (new old : List α) :
    (new ++ old).take ((new ++ old).length - old.length) = new := by
  rw [List.length_append, Nat.add_sub_cancel, List.take_left]

/-- After `set_task` the worker has written the row, or has died. -/
theorem written_or_dead {s s' : Sys} {i : Nat} {task : Task} (hWorker : s.worker = .writeTasks i)
    (hTask : s.tasks[i]? = some task) (hUsed : s.containers[i]? = some c)
    (hStep : s.step pathEnv .worker = some s') :
    (s'.worker = .writeTasks i ∨ s'.worker = .writeTasks (i + 1)) ∧
      s'.request = s.request ∧ s'.containers = s.containers ∧ s'.tasks = s.tasks := by
  simp only [Sys.step, Sys.workerStep, hWorker, hTask, hUsed] at hStep
  split at hStep
  · split at hStep
    · rw [← Option.some.inj hStep]
      exact ⟨.inl hWorker, rfl, rfl, rfl⟩
    · rw [← Option.some.inj hStep]
      exact ⟨.inr rfl, rfl, rfl, rfl⟩
  · cases hStep

/-- `set_task` for one row. -/
theorem Wired.writeTask (h : w.Wired) (hInv : w.sys.Inv) {s' : Sys} {work : Pipework}
    {streams : Streams} {pipes : Pipes} {i : Nat} {task : Task}
    (hWorker : w.sys.worker = .writeTasks i) (hTask : w.sys.tasks[i]? = some task)
    (hUsed : w.sys.containers[i]? = some c) (hStep : w.sys.step pathEnv .worker = some s')
    (hSet : (w.streams c).set task ⟨w.work.pipes, fresh⟩ = .ok (streams, pipes))
    (hWork : w.work.addPipes w.sys.request
      (pipes.pipes.take (pipes.pipes.length - w.work.pipes.length)) = some work) :
    { w with sys := s', work, streams := Function.update w.streams c streams }.Wired := by
  obtain ⟨new, hPipes, hAdds, hDescribed⟩ := set_described hSet
  dsimp only at hPipes hAdds
  rw [hPipes, take_new] at hWork
  have hNaming : w.sys.worker.Naming := by
    rw [hWorker]
    trivial
  obtain ⟨hOk, hComplete, hPipes', hExtends, hMade⟩ :=
    h.work.addPipes (h.complete hNaming) hAdds hWork
  obtain ⟨hPlace, hRequest, hContainers, hTasks⟩ := written_or_dead hWorker hTask hUsed hStep
  refine ⟨?_, fun _ => ?_, fun hNone => ?_, fun j c' task' hRow hWrote _ st => ?_,
    fun c' sl hSlave => ?_⟩
  · show work.Ok s'.request
    rw [hRequest]
    exact hOk
  · show work.Complete s'.request
    rw [hRequest]
    exact hComplete
  · change ¬ s'.worker.HasPipes at hNone
    rcases hPlace with hPlace | hPlace <;> rw [hPlace] at hNone <;> exact absurd trivial hNone
  · show Pending work.made s'.request work.table st ((Function.update w.streams c streams c').desc st)
      (task'.asks st)
    rw [hRequest]
    change s'.Row j c' task' at hRow
    rw [Sys.Row, hContainers, hTasks] at hRow
    have hWritten : j < i + 1 := by
      change s'.worker.Wrote j at hWrote
      rcases hPlace with hPlace | hPlace <;> rw [hPlace] at hWrote
      · exact Nat.lt_succ_of_lt hWrote
      · exact hWrote
    rcases eq_or_ne c' c with rfl | hNe
    · obtain rfl : j = i := Sys.Row.unique hInv hRow ⟨hUsed, hTask⟩
      obtain rfl := Option.some.inj (hTask.symm.trans hRow.2)
      rw [Function.update_self]
      have hDesc := hDescribed st
      rw [hPipes, ← hPipes'] at hDesc
      exact hDesc.pending hOk
    · rw [Function.update_of_ne hNe]
      have hOther : j ≠ i := by
        rintro rfl
        exact hNe (Option.some.inj (hRow.1.symm.trans hUsed))
      refine (h.given j c' task' hRow ?_ ?_ st).mono hMade fun fd p e => hExtends fd _
      · rw [hWorker]
        show j < i
        omega
      · rw [hWorker]
        trivial
  · change (s'.box c').slave = some sl at hSlave
    have hNe : c' ≠ c ∨ sl.pc.Over := by
      rcases Sys.step_slave (by simp) hStep hSlave with hOld | hOver | ⟨hAct, -⟩
      · refine .inl ?_
        rintro rfl
        exact Sys.slave_unwritten hInv hOld hWorker hUsed
      · exact .inr hOver
      · cases hAct
    rcases hNe with hNe | hOver
    · exact (h.quiet_slaves hInv hStep hSlave (by simp) (by simp)).congr hMade rfl
        (Function.update_of_ne hNe _ _) rfl rfl
    · exact slaveFds_of_over hOver

theorem step_worker_moves {s s' : Sys} (hStep : s.step pathEnv .worker = some s') :
    s.WorkerMoves s' := by
  simp only [Sys.step] at hStep
  split at hStep
  · exact Sys.workerStep_moves hStep
  · cases hStep

theorem Wired.workerStep (h : w.Wired) (hInv : w.sys.Inv)
    (hStep : w.workerStep pathEnv fresh = some w') : w'.Wired := by
  cases workerStep_does hStep with
  | refuses hAlive hWorker =>
    have hFail : w.sys.step pathEnv (.fail .worker) = some w.sys.die := fail_of_refuses hAlive hWorker
    exact h.workerMoves hInv hFail (by simp) .dies (fun _ _ _ _ _ _ => rfl) (by simp [hWorker])
  | writes hWorker hTask hUsed hSys hSet hWork =>
    exact h.writeTask hInv hWorker hTask hUsed hSys hSet hWork
  | goesOn hSys hWrites hCloses =>
    exact h.workerMoves hInv hSys (by simp) (step_worker_moves hSys)
      (fun i task c hWorker hTask hUsed => absurd hUsed (hWrites i task c hWorker hTask)) hCloses

-- ---------------------------------------------------------------------------
-- All steps
-- ---------------------------------------------------------------------------

/-- Steps that are neither the worker's, nor a container's or a slave's own. -/
theorem Wired.sysStep (h : w.Wired) (hInv : w.sys.Inv)
    (hOwn : a ≠ .worker ∧ ∀ c, a ≠ .slave c ∧ a ≠ .container c)
    (hStep : w.sysStep pathEnv a = some w') : w'.Wired := by
  obtain ⟨s', hSys, rfl⟩ := sysStep_cases hStep
  have hBoxes : ∀ c sl, (s'.box c).slave = some sl → { w with sys := s' }.SlaveFds c sl :=
    fun c sl hSlave => h.quiet_slaves hInv hSys hSlave (hOwn.2 c).1
      fun hSame => absurd hSame (hOwn.2 c).2
  cases hBox : a.box? with
  | some c => exact h.boxStep hBox hSys rfl (fun _ _ _ _ _ _ => id) hBoxes
  | none =>
    cases Sys.step_turns hBox hSys with
    | worker => exact absurd rfl hOwn.1
    | accepts hAlive hWorker =>
      have hEmpty : w.work.pipes = [] := h.closed (by rw [hWorker]; exact id)
      obtain ⟨hOk, hComplete⟩ := h.work.next hEmpty
      exact ⟨hOk, fun _ => hComplete, fun _ => hEmpty, fun _ _ _ _ hWrote => hWrote.elim, hBoxes⟩
    | dies | othersGet | othersPut =>
      exact h.keep rfl rfl id .inl (fun _ _ _ hRow hWrote hCounts => ⟨hRow, hWrote, hCounts⟩)
        (fun _ _ _ _ _ _ => id) hBoxes

/-- `close_pipes`. -/
theorem Wired.closePipe (h : w.Wired) {work : Pipework} {name : Str}
    (hWorker : w.sys.worker = .closePipes) (hClose : w.work.closePipe name = some work) :
    { w with work }.Wired := by
  have hMade : work.made = w.work.made := by
    unfold Pipework.closePipe at hClose
    split at hClose
    · cases hClose
    · simp only [Option.bind_eq_bind, Option.bind_eq_some_iff] at hClose
      obtain ⟨t, -, t', -, hEq⟩ := hClose
      rw [← Option.some.inj hEq]
  refine ⟨h.work.closePipe hClose, fun hNaming => ?_, fun hNone => ?_,
    fun _ _ _ _ _ hCounts => ?_, fun c sl hSlave => ?_⟩
  · change w.sys.worker.Naming at hNaming
    rw [hWorker] at hNaming
    exact hNaming.elim
  · change ¬ w.sys.worker.HasPipes at hNone
    rw [hWorker] at hNone
    exact absurd trivial hNone
  · change w.sys.worker.Counts at hCounts
    rw [hWorker] at hCounts
    exact hCounts.elim
  · refine (h.slaves c sl hSlave).congr ?_ rfl rfl rfl rfl
    show w.work.made <+: work.made
    rw [hMade]

/-- The worker's table with the same ends of pipes. -/
theorem Wired.otherFile (h : w.Wired) {t : FdTable File}
    (hOk : { w.work with table := t }.Ok w.sys.request)
    (hEnds : ∀ fd p e, w.work.table fd = some (.pipe p e) → t fd = some (.pipe p e)) :
    { w with work := { w.work with table := t } }.Wired := by
  refine ⟨hOk, h.complete, h.closed, fun j c task hRow hWrote hCounts st => ?_, h.slaves⟩
  exact (h.given j c task hRow hWrote hCounts st).mono (List.prefix_refl _) hEnds

/-- **Every step of the world keeps the descriptors in order.** -/
theorem Wired.step {wa : WorldAct} (h : w.Wired) (hInv : w.sys.Inv) (hRows : w.sys.Rows)
    (hStep : w.step pathEnv wa = some w') : w'.Wired := by
  unfold World.step at hStep
  split at hStep
  · exact h.workerStep hInv hStep
  · exact h.containerStep hInv hRows hStep
  · exact h.slaveStep hInv hStep
  · rename_i a fresh hWorker hContainer hSlave
    exact h.sysStep hInv ⟨hWorker, fun c => ⟨hSlave c, hContainer c⟩⟩ hStep
  · split at hStep
    · rename_i hHere
      obtain ⟨work, hClose, rfl⟩ := Option.map_eq_some_iff.mp hStep
      exact h.closePipe hHere.2 hClose
    · cases hStep
  · obtain ⟨⟨fd', t, rest⟩, hOpen, rfl⟩ := Option.map_eq_some_iff.mp hStep
    obtain ⟨hOpened, -⟩ := FdTable.openFile_cases hOpen
    exact h.otherFile (h.work.openFile hOpened) fun fd p e hEnd => hOpened.extends _ _ hEnd
  · split at hStep
    · rename_i fd hOther
      obtain ⟨t, hClose, rfl⟩ := Option.map_eq_some_iff.mp hStep
      refine h.otherFile (h.work.closeFile hOther.1 hOther.2 hClose) fun n p e hEnd => ?_
      refine (FdTable.close_open hClose).mpr ⟨?_, hEnd⟩
      rintro rfl
      cases hOther.2.symm.trans hEnd
    · cases hStep

theorem wired_initial (firstUid : Uid) : (initial firstUid).Wired := by
  have hEnds : ∀ fd p e, (initial firstUid).work.table fd ≠ some (.pipe p e) := by
    intro fd p e hEnd
    change (if standing fd then some File.other else none) = _ at hEnd
    split at hEnd
    · cases hEnd
    · cases hEnd
  refine ⟨⟨fun fd f hOpen => ?_, fun fd hStanding => if_pos hStanding, nofun,
    fun fd p e hEnd => absurd hEnd (hEnds fd p e), nofun, List.nodup_nil⟩, fun _ => nofun,
    fun _ => rfl, nofun, nofun⟩
  change (if standing fd then some File.other else none) = some f at hOpen
  split at hOpen
  · rename_i hStanding
    simp only [standing, Bool.or_eq_true, decide_eq_true_eq] at hStanding
    rcases hStanding with ((rfl | rfl) | rfl) | rfl <;> decide
  · cases hOpen

/-- A step of the processes that an action of the world is. -/
def WorldAct.Steps (wa : WorldAct) (a : Act) : Prop := a = .fail .worker ∨ ∃ fresh, wa = .sys a fresh

/-- **A step of the world is a step of its processes, or of none.** -/
theorem step_sys {wa : WorldAct} (hStep : w.step pathEnv wa = some w') :
    w'.sys = w.sys ∨ ∃ a, WorldAct.Steps wa a ∧ w.sys.step pathEnv a = some w'.sys := by
  have hSysStep : ∀ {m m' : World} {a : Act}, m.sysStep pathEnv a = some m' →
      m.sys.step pathEnv a = some m'.sys := by
    intro m m' a h
    obtain ⟨s', hSys, rfl⟩ := sysStep_cases h
    exact hSys
  unfold World.step at hStep
  split at hStep
  · rename_i fresh
    refine .inr ?_
    cases workerStep_does hStep with
    | refuses hAlive hWorker => exact ⟨.fail .worker, .inl rfl, fail_of_refuses hAlive hWorker⟩
    | writes _ _ _ hSys => exact ⟨.worker, .inr ⟨fresh, rfl⟩, hSys⟩
    | goesOn hSys => exact ⟨.worker, .inr ⟨fresh, rfl⟩, hSys⟩
  · rename_i c fresh
    obtain ⟨m, hFirst, hRest⟩ := Option.bind_eq_some_iff.mp hStep
    have hSys := hSysStep hFirst
    split at hRest <;> obtain rfl := Option.some.inj hRest <;>
      exact .inr ⟨.container c, .inr ⟨fresh, rfl⟩, hSys⟩
  · rename_i c fresh
    unfold World.slaveStep at hStep
    split at hStep
    · cases hStep
    · rename_i sl hSlave
      obtain ⟨m, hFds, hLast⟩ := Option.bind_eq_some_iff.mp hStep
      have hSys := hSysStep hLast
      rw [slaveFds_sys hFds] at hSys
      exact .inr ⟨.slave c, .inr ⟨fresh, rfl⟩, hSys⟩
  · rename_i a fresh _ _ _
    exact .inr ⟨a, .inr ⟨fresh, rfl⟩, hSysStep hStep⟩
  · split at hStep
    · obtain ⟨work, -, rfl⟩ := Option.map_eq_some_iff.mp hStep
      exact .inl rfl
    · cases hStep
  · obtain ⟨m, -, rfl⟩ := Option.map_eq_some_iff.mp hStep
    exact .inl rfl
  · split at hStep
    · obtain ⟨t, -, rfl⟩ := Option.map_eq_some_iff.mp hStep
      exact .inl rfl
    · cases hStep

/-- The processes of a reachable world are in a state that they reach by themselves. -/
theorem reachable_sys {firstUid : Uid} (hReach : Reachable (step pathEnv) (initial firstUid) w) :
    Reachable (Sys.step pathEnv) (Sys.initial firstUid) w.sys := by
  refine reachable_of_view (f := World.sys) (fun w wa w' hStep => ?_) hReach
  exact (step_sys hStep).imp id fun ⟨a, _, hSys⟩ => ⟨a, hSys⟩

/-- In every reachable state of the world the processes are in order, and so are the
descriptors. -/
theorem wired_of_reachable {firstUid : Uid}
    (hReach : Reachable (step pathEnv) (initial firstUid) w) :
    w.sys.Inv ∧ w.sys.Rows ∧ w.Wired := by
  refine invariant_of_reachable (I := fun w => w.sys.Inv ∧ w.sys.Rows ∧ w.Wired)
    (fun w wa w' h hStep => ?_)
    ⟨Sys.inv_initial firstUid, Sys.rows_of_empty rfl, wired_initial firstUid⟩ hReach
  obtain ⟨hInv, hRows, hWired⟩ := h
  have hWired' := hWired.step hInv hRows hStep
  rcases step_sys hStep with hSame | ⟨a, -, hSys⟩
  · rw [hSame]
    exact ⟨hInv, hRows, hWired'⟩
  · exact ⟨hInv.step hSys, hRows.step hInv hSys, hWired'⟩

end World

end Libsbox
