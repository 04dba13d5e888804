import Libsbox.Protocol.Stamps

/-!
# libsbox — what the worker and its containers hand over

Whatever the container and its slave read of a task is what `set_task` has written
for this request, but for what the slave itself has put there for its own use: the
descriptors of the files that it has opened, and the environment with `PATH` added.
`put_results` reads what `wait_for_slave` has written for this request, or, where it
writes a field only if there is something to say, the value with which `set_task` has
cleared the field.

## Results

* `handover_of_run` — every read in every run, and when `set_task` writes;
* `handover_exceptions` — the reads of the two exceptional kinds happen.
-/

namespace Libsbox

open CMemory Runs

-- ---------------------------------------------------------------------------
-- Reads
-- ---------------------------------------------------------------------------

/-- A read of a field of the shared block of a container: by whom, for which request,
and the write that it sees. -/
structure Read where
  box : BoxId
  reader : Proc
  request : Nat
  field : Field
  seen : Write

/-- The parameters that `serve` reads in its loop, by the place of the container. -/
def ContainerAt.reads : ContainerAt → List Field
  | .mountBinds => [.binds]
  | .createCgroups => [.memoryLimitKb]
  | .waitForSlave | .readUsage => [.timeLimitMs, .wallTimeLimitMs]
  | _ => []

/-- The parameters that `slave` reads, by its place. -/
def SlaveAt.reads : SlaveAt → List Field
  | .openFiles => [.stdinFilename, .stdoutFilename, .stderrFilename]
  | .dup2Fds => [.stdinFd, .stdoutFd, .stderrFd]
  | .setupRlimits => [.fsizeLimitKb, .maxFiles, .maxThreads]
  | .addPath => [.env]
  | .exec => [.argv, .env]
  | _ => []

theorem ContainerAt.reads_isParameter (pc : ContainerAt) : ∀ f ∈ pc.reads, f.isParameter = true := by
  cases pc <;> decide

theorem SlaveAt.reads_isParameter (pc : SlaveAt) :
    ∀ f ∈ pc.reads, f.isSlaves = false → f.isParameter = true := by
  cases pc with
  | zombie => nofun
  | _ => decide

/-- What `put_results` reads. -/
def resultFields : List Field :=
  [.timeUsageMs, .timeUsageSysMs, .timeUsageUserMs, .wallTimeUsageMs, .memoryUsageKb,
    .timeLimitExceeded, .wallTimeLimitExceeded, .exited, .exitCode, .signaled, .termSignal,
    .oomKilled, .memoryLimitHit]

namespace Sys

variable {pathEnv : Option Str} {s s' : Sys} {a : Act} {c : BoxId}

def readsOf (s : Sys) (c : BoxId) (reader : Proc) (request : Nat) (fields : List Field) :
    List Read :=
  fields.map fun f => ⟨c, reader, request, f, (s.box c).block.last f⟩

/-- The reads of parameters in a step. -/
def paramReads (s : Sys) : Act → List Read
  | .container c | .tick c _ _ | .readUsage c _ =>
    s.readsOf c (.container c) (s.box c).serving (s.box c).pc.reads
  | .slave c =>
    match (s.box c).slave with
    | some sl => s.readsOf c (.slave c) sl.request sl.pc.reads
    | none => []
  | _ => []

/-- The reads of results in a step: `put_results`. -/
def resultReads (s : Sys) : Act → List Read
  | .worker =>
    match s.worker with
    | .putResults i =>
      match s.containers[i]? with
      | some c => s.readsOf c .worker s.request resultFields
      | none => []
    | _ => []
  | _ => []

/-- The container into whose block `set_task` writes in a step. -/
def setTaskAt (s : Sys) : Act → Option BoxId
  | .worker =>
    match s.worker with
    | .writeTasks i => if i < s.tasks.length then s.containers[i]? else none
    | _ => none
  | _ => none

/-- What a reader has written itself: a slave, in `open_files` and in front of `execvpe`. -/
def ownWrites (pathEnv : Option Str) (s : Sys) : Proc → List Field
  | .slave c =>
    match (s.box c).slave with
    | some sl => (sl.pc.updated pathEnv (s.box c).block.task).getD []
    | none => []
  | _ => []

/-- What the reads of a step see, and where its write goes. -/
structure HandedOver (pathEnv : Option Str) (s : Sys) (a : Act) : Prop where
  parameters : ∀ r ∈ s.paramReads a, r.request = s.request ∧
    r.seen = if r.field ∈ s.ownWrites pathEnv r.reader then .slave r.request
      else .setTask r.request
  results : ∀ r ∈ s.resultReads a, r.request = s.request ∧
    r.seen = bif (s.box r.box).block.reports r.field then .waitForSlave r.request
      else .setTask r.request
  /-- The container has not left its task barrier, or is past its results barrier. -/
  setTask : ∀ c, s.setTaskAt a = some c → ¬ (s.box c).Serving ∧
    ((s.box c).pc = .awaitTask → .container ∈ (s.box c).barrier.waiting)

theorem mem_readsOf {reader : Proc} {request : Nat} {fields : List Field} {r : Read}
    (h : r ∈ s.readsOf c reader request fields) :
    r.field ∈ fields ∧ r = ⟨c, reader, request, r.field, (s.box c).block.last r.field⟩ := by
  obtain ⟨f, hf, rfl⟩ := List.mem_map.mp h
  exact ⟨hf, rfl⟩

theorem container_reads (hInv : s.Inv) (hMarked : s.Marked pathEnv) {f : Field}
    (hf : f ∈ (s.box c).pc.reads) :
    (s.box c).serving = s.request ∧ (s.box c).block.last f = .setTask s.request := by
  obtain ⟨v, hSees⟩ := s.sees_total s.view c
  have hFits := hInv.boxes c v hSees
  have hStamped := hMarked c v hSees
  have hServing : (s.box c).Serving := by
    unfold Box.Serving
    cases hPc : (s.box c).pc <;> simp [ContainerAt.reads, hPc] at hf ⊢
  have hParameter := (s.box c).pc.reads_isParameter f hf
  refine ⟨hFits.serving hServing, ?_⟩
  rcases hFits.seated.of_serving hServing with ⟨hOpen, -⟩ | hRunning
  · exact (hStamped.fresh (.inr hOpen)).handed f hParameter
  · exact hStamped.handed (hRunning.elim (fun h => .inl h.1) fun h => .inr (.inl h.1)) f hParameter

theorem slave_reads (hInv : s.Inv) (hMarked : s.Marked pathEnv) {sl : Slave}
    (hSlave : (s.box c).slave = some sl) {f : Field} (hf : f ∈ sl.pc.reads) :
    sl.request = s.request ∧ (s.box c).block.last f =
      if f ∈ s.ownWrites pathEnv (.slave c) then .slave s.request else .setTask s.request := by
  obtain ⟨v, hSees⟩ := s.sees_total s.view c
  have hFits := hInv.boxes c v hSees
  have hStamped := hMarked c v hSees
  have hPlace : sl.pc ≠ .startBarrier ∧ sl.pc ≠ .awaitStart ∧
      (sl.pc ≠ .setError ∧ sl.pc ≠ .exitFailure) ∧ ∀ status, sl.pc ≠ .zombie status := by
    cases hPc : sl.pc <;> simp [SlaveAt.reads, hPc] at hf ⊢
  obtain ⟨hRunning, hRequest⟩ :=
    hFits.slave_behind hSlave hPlace.1 hPlace.2.1 hPlace.2.2.1 hPlace.2.2.2
  have hBehind : v.Behind := hRunning.elim (fun h => .inl h.1) fun h => .inr (.inl h.1)
  obtain ⟨fields, hFields, hSlaves⟩ : ∃ fields,
      sl.pc.updated pathEnv (s.box c).block.task = some fields ∧ ∀ f ∈ fields, f.isSlaves = true := by
    cases hPc : sl.pc <;> simp [SlaveAt.reads, hPc] at hf <;>
      refine ⟨_, rfl, ?_⟩ <;> grind [Field.isSlaves, Block.isSlaves_of_openedFds]
  have hOwn : s.ownWrites pathEnv (.slave c) = fields := by simp [ownWrites, hSlave, hFields]
  refine ⟨hRequest, ?_⟩
  rw [hOwn]
  cases hf' : f.isSlaves with
  | true => exact hStamped.updated hBehind sl hSlave fields hFields f hf'
  | false =>
    have hParameter := sl.pc.reads_isParameter f hf hf'
    rw [if_neg fun hIn => by simp [hSlaves f hIn] at hf']
    exact hStamped.handed hBehind f hParameter

theorem parameters_handedOver (hInv : s.Inv) (hMarked : s.Marked pathEnv) {r : Read}
    (hr : r ∈ s.paramReads a) : r.request = s.request ∧
      r.seen = if r.field ∈ s.ownWrites pathEnv r.reader then .slave r.request
        else .setTask r.request := by
  have hContainer : ∀ c, r ∈ s.readsOf c (.container c) (s.box c).serving (s.box c).pc.reads →
      r.request = s.request ∧
        r.seen = if r.field ∈ s.ownWrites pathEnv r.reader then .slave r.request
          else .setTask r.request := by
    intro c hr
    obtain ⟨hField, hEq⟩ := mem_readsOf hr
    obtain ⟨hServing, hSeen⟩ := container_reads hInv hMarked hField
    rw [hEq]
    simp [hServing, hSeen, ownWrites]
  cases a with
  | container c | tick c cpuMs wallMs | readUsage c u => exact hContainer c hr
  | slave c =>
    simp only [paramReads] at hr
    split at hr
    · rename_i sl hSlave
      obtain ⟨hField, hEq⟩ := mem_readsOf hr
      obtain ⟨hRequest, hSeen⟩ := slave_reads hInv hMarked hSlave hField
      rw [hEq]
      simp only [hRequest]
      exact ⟨trivial, hSeen⟩
    · cases hr
  | _ => cases hr

theorem results_handedOver (hMarked : s.Marked pathEnv)
    (hKilled : ∀ c, (s.box c).pc = .killed → s.alive = false) (hAlive : a = .worker → s.alive = true)
    {r : Read} (hr : r ∈ s.resultReads a) : r.request = s.request ∧
      r.seen = bif (s.box r.box).block.reports r.field then .waitForSlave r.request
        else .setTask r.request := by
  cases a with
  | worker =>
    simp only [resultReads] at hr
    split at hr
    · rename_i i hWorker
      split at hr
      · rename_i c hUsed
        obtain ⟨hField, hEq⟩ := mem_readsOf hr
        have hView : s.view i = .done := by simp [view, hWorker, WorkerAt.view]
        have hStamped := hMarked c _ (.used hUsed)
        rw [hView] at hStamped
        have hThere : (s.box c).pc ≠ .killed := fun hPc => by
          simp [hKilled c hPc] at hAlive
        have hResult : ∀ f ∈ resultFields, f.isResult = true := by decide
        rw [hEq]
        exact ⟨rfl, hStamped.reported ⟨hThere, by simp⟩ _ (hResult _ hField)⟩
      · cases hr
    · cases hr
  | _ => cases hr

theorem setTask_handedOver (hInv : s.Inv) (hWrites : s.setTaskAt a = some c) :
    ¬ (s.box c).Serving ∧
      ((s.box c).pc = .awaitTask → .container ∈ (s.box c).barrier.waiting) := by
  cases a with
  | worker =>
    simp only [setTaskAt] at hWrites
    split at hWrites
    · rename_i i hWorker
      simp only [Option.ite_none_right_eq_some] at hWrites
      have hFits := hInv.boxes c _ (.used hWrites.2)
      have hView : s.view i = .free false := by simp [view, hWorker, WorkerAt.view]
      rw [hView] at hFits
      refine ⟨fun hServing => ?_, fun hPc => ?_⟩
      · rcases hFits.seated.of_serving hServing with hStarting | hRunning
        · simp [Box.Starting, View.Open] at hStarting
        · simp [Box.Running] at hRunning
      · have hSeated := hFits.seated
        rw [Box.Seated, hPc] at hSeated
        rcases hSeated with hWaiting | hStarting
        · simp [hWaiting.2]
        · simp [Box.Starting, View.Open] at hStarting
    · cases hWrites
  | _ => cases hWrites

/-- **What is read of a task and of its results, and when it is written**, in every step
of every run. -/
theorem handover_of_run {firstUid : Uid} {acts : List Act}
    (hRun : run (step pathEnv) (initial firstUid) acts = some s)
    (hStep : s.step pathEnv a = some s') : s.HandedOver pathEnv a := by
  obtain ⟨hInv, hMarked⟩ := marked_of_reachable ⟨acts, hRun⟩
  have hKilled : ∀ c, (s.box c).pc = .killed → s.alive = false :=
    invariant_of_reachable (I := fun s => ∀ c, (s.box c).pc = .killed → s.alive = false)
      (fun _ _ _ h hStep => step_killed h hStep) nofun ⟨acts, hRun⟩
  have hAlive : a = .worker → s.alive = true := by
    rintro rfl
    by_contra hDead
    simp [step, hDead] at hStep
  exact ⟨fun r => parameters_handedOver hInv hMarked,
    fun r => results_handedOver hMarked hKilled hAlive,
    fun c => setTask_handedOver hInv⟩

/-- The reads of `put_results` for a target that has exited with 0. -/
theorem handover_of_requestRun :
    ∃ s, run (step none) (initial 1000) ((requestRun { argv := [lit "true"] }).take 39) = some s ∧
      s.HandedOver none .worker ∧ (s.resultReads .worker).length = 13 := by
  obtain ⟨s, hRun⟩ :
      ∃ s, run (step none) (initial 1000) ((requestRun { argv := [lit "true"] }).take 39) = some s :=
    Option.isSome_iff_exists.mp rfl
  obtain ⟨s', hStep⟩ : ∃ s', s.step none .worker = some s' :=
    Option.isSome_iff_exists.mp (of_run_map (f := fun s => (s.step none .worker).isSome) rfl hRun)
  refine ⟨s, hRun, handover_of_run hRun hStep, ?_⟩
  exact of_run_map (f := fun s => (s.resultReads .worker).length) rfl hRun

/-- The slave reads a descriptor that it has opened itself, and `put_results` a signal
number that nobody has written since `set_task`. -/
theorem handover_exceptions :
    (¬ ∀ acts s a s', (∀ p, Act.fail p ∉ acts) →
        run (step none) (initial 1000) acts = some s → s.step none a = some s' →
          ∀ r ∈ s.paramReads a, r.seen = .setTask r.request) ∧
      ¬ ∀ acts s a s', (∀ p, Act.fail p ∉ acts) →
        run (step none) (initial 1000) acts = some s → s.step none a = some s' →
          ∀ r ∈ s.resultReads a, r.seen = .waitForSlave r.request := by
  constructor <;> intro hClaim
  · obtain ⟨s, hRun⟩ :
        ∃ s, run (step none) (initial 1000) ((requestRun {}).take 23) = some s :=
      Option.isSome_iff_exists.mp rfl
    obtain ⟨s', hStep⟩ : ∃ s', s.step none (.slave 0) = some s' :=
      Option.isSome_iff_exists.mp
        (of_run_map (f := fun s => (s.step none (.slave 0)).isSome) rfl hRun)
    have hReads : s.paramReads (.slave 0) = [.stdinFd, .stdoutFd, .stderrFd].map fun f =>
        ⟨0, .slave 0, 1, f, .slave 1⟩ := of_run_map (f := fun s => s.paramReads (.slave 0)) rfl hRun
    have hSeen := hClaim _ s _ s' (by simp [requestRun]) hRun hStep
    simp [hReads] at hSeen
  · obtain ⟨s, hRun⟩ :
        ∃ s, run (step none) (initial 1000) ((requestRun {}).take 39) = some s :=
      Option.isSome_iff_exists.mp rfl
    obtain ⟨s', hStep⟩ : ∃ s', s.step none .worker = some s' :=
      Option.isSome_iff_exists.mp
        (of_run_map (f := fun s => (s.step none .worker).isSome) rfl hRun)
    have hRead : (s.resultReads .worker)[10]? = some ⟨0, .worker, 1, .termSignal, .setTask 1⟩ :=
      of_run_map (f := fun s => (s.resultReads .worker)[10]?) rfl hRun
    have hSeen := hClaim _ s _ s' (by simp [requestRun]) hRun hStep _ (List.mem_of_getElem? hRead)
    cases hSeen

end Sys

end Libsbox
