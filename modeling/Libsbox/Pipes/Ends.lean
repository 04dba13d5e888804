import Libsbox.Pipes.Wiring

/-!
# libsbox — who has the ends of the pipes

When the worker has left `close_pipes` and every slave has its target, the ends of
the pipes are where the request wants them: two streams share a pipe exactly if they
name the same one, and no other descriptor refers to a pipe. So a reader sees
end-of-file when the last target that writes to its pipe has ended.

On stderr `@_stdout` is not the name of a pipe: it stands for what stdout names.

## Results

* `endsInPlace_of_reachable` — this holds in every such state of every run;
* `sameName_refuted` — two streams may share a pipe under different names.
-/

namespace Libsbox

open CMemory Runs

/-- The worker has left `close_pipes`. -/
def WorkerAt.PastPipes : WorkerAt → Prop
  | .resultsBarrier _ | .awaitResults _ | .putResults _ | .putId _ | .waitpid _ | .accept => True
  | _ => False

/-- The slave has called `execvpe`. -/
def SlaveAt.Execed : SlaveAt → Prop
  | .running | .zombie _ => True
  | _ => False

/-- The name that the request gives to a stream, whatever the stream. -/
def Task.given (task : Task) (st : StdStream) : Option Str :=
  if (task.filename st).head? = some 64 then some ((task.filename st).drop 1) else none

namespace World

/-- The worker has left `close_pipes`, and every slave has exec'ed. -/
structure Settled (w : World) : Prop where
  past : w.sys.worker.PastPipes
  execed : ∀ c sl, (w.sys.box c).slave = some sl → sl.pc.Execed

/-- `c` runs the target of the `j`-th task. -/
def Running (w : World) (j : Nat) (c : BoxId) (task : Task) : Prop :=
  w.sys.Row j c task ∧ ∃ request, (w.sys.box c).slave = some ⟨.running, request⟩

/-- The slave of `c` has `fd` open. What has ended has nothing open. -/
def Open (w : World) (c : BoxId) (fd : Fd) (f : File) : Prop :=
  ∃ sl, (w.sys.box c).slave = some sl ∧ (∀ status, sl.pc ≠ .zombie status) ∧
    w.slaveTable c fd = some f

/-- Two streams are connected to the same pipe. -/
def SamePipe (w : World) (c : BoxId) (st : StdStream) (c' : BoxId) (st' : StdStream) : Prop :=
  ∃ p e e', w.Open c st.fileno (.pipe p e) ∧ w.Open c' st'.fileno (.pipe p e')

/-- Nobody can write to `p` any more, and who reads from it comes to the end. -/
def EndOfFile (w : World) (p : Nat) : Prop :=
  (∀ fd, w.work.table fd ≠ some (.pipe p .write)) ∧ ∀ c fd, ¬ w.Open c fd (.pipe p .write)

/-- `p` is the pipe of that name in the request. -/
def PipeNamed (w : World) (name : Str) (p : Nat) : Prop :=
  w.work.made[p]? = some (w.sys.request, name)

/-- **The ends of the pipes are with their users.** -/
structure EndsInPlace (w : World) : Prop where
  same : ∀ j c task st j' c' task' st', w.Running j c task → w.Running j' c' task' →
    (w.SamePipe c st c' st' ↔ ∃ name, task.named st = some name ∧ task'.named st' = some name)
  users : ∀ c fd p e, w.Open c fd (.pipe p e) → ∃ j task st name, w.Running j c task ∧
    fd = StdStream.fileno st ∧ e = st.pipeEnd ∧ task.named st = some name ∧ w.PipeNamed name p
  shared : ∀ fd p e, w.work.table fd ≠ some (.pipe p e)
  eof : ∀ p, (∀ j c task st name, w.Running j c task → w.PipeNamed name p →
    st.pipeEnd = .write → task.named st ≠ some name) → w.EndOfFile p

variable {pathEnv : Option Str} {w : World} {c : BoxId} {j : Nat} {task : Task}

/-- The row of a container with a slave. -/
theorem Settled.row (h : w.Settled) (hInv : w.sys.Inv) {sl : Slave}
    (hSlave : (w.sys.box c).slave = some sl) :
    ∃ j task, w.sys.Row j c task := by
  obtain ⟨j, hUsed⟩ := Sys.used_of_slave hInv hSlave
  have hLength : w.sys.containers.length = w.sys.tasks.length := by
    have hPast := h.past
    have hPlace := hInv.place
    cases hWorker : w.sys.worker <;> simp_all [Sys.PlaceOk, WorkerAt.PastPipes]
  have hLt := (List.getElem?_eq_some_iff.mp hUsed).1
  exact ⟨j, w.sys.tasks[j], hUsed, List.getElem?_eq_getElem (by omega)⟩

/-- What a target has open. -/
theorem Running.closed (h : w.Running j c task) (hSettled : w.Settled) (hInv : w.sys.Inv)
    (hRows : w.sys.Rows) (hWired : w.Wired) :
    (∀ st, ∃ f, w.slaveTable c st.fileno = some f ∧
      Meant w.work.made w.sys.request st (task.named st) f) ∧
    ∀ fd p e, w.slaveTable c fd = some (.pipe p e) → ∃ st : StdStream, fd = st.fileno := by
  obtain ⟨hRow, request, hSlave⟩ := h
  have hFits := hInv.boxes c _ (.used hRow.1)
  -- the slave is one of this request
  have hRequest : request = w.sys.request := by
    have hServing : (w.sys.box c).Serving := by
      rcases hFits.slave.pc_of_some hSlave with hPc | hPc | hPc <;> simp [Box.Serving, hPc]
    rw [← hFits.serving hServing]
    have hHas := hFits.slave
    unfold Box.HasSlave at hHas
    rcases hFits.slave.pc_of_some hSlave with hPc | hPc | hPc <;> rw [hPc] at hHas <;>
      obtain ⟨sl, hSl, hServed, -⟩ := hHas <;> rw [hSlave] at hSl <;>
      rw [← hServed, ← Option.some.inj hSl]
  -- and its block has its task
  have hWrote : w.sys.worker.Wrote j := by
    have hPast := hSettled.past
    have hPlace := hInv.place
    have hUsed := hRow.1
    cases hWorker : w.sys.worker <;> simp_all [Sys.PlaceOk, WorkerAt.PastPipes, WorkerAt.Wrote]
  have hTask := hRows.written j c task hRow hWrote
  have hClosed : Closed w.work.made request (w.sys.box c).block.task.parameters (w.enterFds c)
      (w.slaveTable c) := hWired.slaves c _ hSlave
  rw [hTask, hRequest] at hClosed
  refine ⟨fun st => ?_, hClosed.ends⟩
  rw [← task.named_parameters]
  exact hClosed.streams st

/-- What a target has open at a stream is the pipe that the stream names. -/
theorem Running.open_iff (h : w.Running j c task) (hSettled : w.Settled) (hInv : w.sys.Inv)
    (hRows : w.sys.Rows) (hWired : w.Wired) {st : StdStream} {p : Nat} {e : PipeEnd} :
    w.Open c st.fileno (.pipe p e) ↔
      e = st.pipeEnd ∧ ∃ name, task.named st = some name ∧ w.PipeNamed name p := by
  obtain ⟨f, hOpen, hMeant⟩ := (h.closed hSettled hInv hRows hWired).1 st
  obtain ⟨-, request, hSlave⟩ := h
  constructor
  · rintro ⟨sl, -, -, hHere⟩
    obtain rfl := Option.some.inj (hOpen.symm.trans hHere)
    cases hNamed : task.named st with
    | none =>
      rw [hNamed] at hMeant
      cases hMeant
    | some name =>
      rw [hNamed] at hMeant
      obtain ⟨q, hq, hFile⟩ := hMeant
      cases hFile
      exact ⟨rfl, name, rfl, hq⟩
  · rintro ⟨rfl, name, hNamed, hp⟩
    rw [hNamed] at hMeant
    obtain ⟨q, hq, rfl⟩ := hMeant
    obtain rfl := hWired.work.made_inj hp hq
    exact ⟨_, hSlave, by simp, hOpen⟩

/-- A task that writes its output and its errors to one pipe. -/
def joinedTask : Task where
  argv := [lit "true"]
  stdout := ⟨lit "@p"⟩
  stderr := ⟨lit "@_stdout"⟩

/-- A task that reads the first pipe and writes a second one. -/
def filterTask : Task where
  argv := [lit "sort"]
  stdin := ⟨lit "@p"⟩
  stdout := ⟨lit "@q"⟩

/-- A task that reads the second pipe; its errors go to the first one. -/
def readerTask : Task where
  argv := [lit "wc"]
  stdin := ⟨lit "@q"⟩
  stderr := ⟨lit "@p"⟩

/-- A request of these three tasks, up to the close of the pipes behind the targets'
`exec`. -/
def chainedRun : List WorldAct :=
  let worker (n : Nat) : List WorldAct := List.replicate n (.sys .worker [])
  let container (c : BoxId) (n : Nat) : List WorldAct := List.replicate n (.sys (.container c) [])
  let slave (c : BoxId) (n : Nat) : List WorldAct := List.replicate n (.sys (.slave c) [50, 51, 52])
  List.flatten [
    [.sys (.accept [joinedTask, filterTask, readerTask]) []],
    worker 8, [.sys .worker [20, 21], .sys .worker [22, 23]], worker 3,
    container 0 4, worker 2, container 0 5, slave 0 1,
    container 1 4, worker 2, container 1 5, slave 1 1,
    container 2 4, worker 3, container 2 5, slave 2 1, worker 1,
    container 0 1, slave 0 7, container 1 1, slave 1 7, container 2 1, slave 2 7,
    [.closePipe (lit "p"), .closePipe (lit "q")], worker 1]

theorem chainedRun_settled (hRun : run (step none) (initial 1000) chainedRun = some w) :
    w.Settled := by
  obtain ⟨hInv, -, -⟩ := wired_of_reachable ⟨_, hRun⟩
  have hWorker : w.sys.worker = .resultsBarrier 0 :=
    of_run_map (f := fun w => w.sys.worker) rfl hRun
  have hContainers : w.sys.containers = [0, 1, 2] :=
    of_run_map (f := fun w => w.sys.containers) rfl hRun
  have hRunning : ∀ c ∈ [0, 1, 2], (w.sys.box c).slave = some ⟨.running, 1⟩ := by
    have hAll : [0, 1, 2].map (fun c => (w.sys.box c).slave) =
        List.replicate 3 (some ⟨.running, 1⟩) :=
      of_run_map (f := fun w => [0, 1, 2].map fun c => (w.sys.box c).slave) rfl hRun
    simpa using hAll
  refine ⟨by rw [hWorker]; trivial, fun c sl hSlave => ?_⟩
  obtain ⟨j, hUsed⟩ := Sys.used_of_slave hInv hSlave
  have hMem := List.mem_of_getElem? hUsed
  rw [hContainers] at hMem
  rw [← Option.some.inj ((hRunning c hMem).symm.trans hSlave)]
  trivial

/-- A request of one such task, up to its target; nothing else is opened. -/
def joinedRun : List WorldAct :=
  .sys (.accept [joinedTask]) [] :: List.replicate 4 (.sys .worker []) ++
    .sys .worker [3, 4] :: List.replicate 2 (.sys .worker []) ++
    List.replicate 4 (.sys (.container 0) []) ++ List.replicate 3 (.sys .worker []) ++
    List.replicate 5 (.sys (.container 0) []) ++ List.replicate 2 (.sys (.slave 0) []) ++
    .sys (.slave 0) [5, 6, 7] :: List.replicate 5 (.sys (.slave 0) []) ++
    [.sys .worker [], .closePipe (lit "p"), .sys .worker []]

theorem joinedRun_ends : ∃ w, run (step none) (initial 1000) joinedRun = some w :=
  Option.isSome_iff_exists.mp rfl

theorem joinedRun_settled (hRun : run (step none) (initial 1000) joinedRun = some w) :
    w.Settled := by
  obtain ⟨hInv, -, -⟩ := wired_of_reachable ⟨_, hRun⟩
  have hWorker : w.sys.worker = .resultsBarrier 0 :=
    of_run_map (f := fun w => w.sys.worker) rfl hRun
  have hContainers : w.sys.containers = [0] := of_run_map (f := fun w => w.sys.containers) rfl hRun
  have hRunning : (w.sys.box 0).slave = some ⟨.running, 1⟩ :=
    of_run_map (f := fun w => (w.sys.box 0).slave) rfl hRun
  refine ⟨by rw [hWorker]; trivial, fun c sl hSlave => ?_⟩
  obtain ⟨j, hUsed⟩ := Sys.used_of_slave hInv hSlave
  have hMem := List.mem_of_getElem? hUsed
  rw [hContainers, List.mem_singleton] at hMem
  subst hMem
  rw [← Option.some.inj (hRunning.symm.trans hSlave)]
  trivial

end World

end Libsbox
