import Libsbox.Marshalling.Blocks
import Libsbox.Protocol.Deaths
import Libsbox.Service.Serving

/-!
# libsbox — what a worker dies of

Besides the steps of `Sys.Kills`, a worker in a call of `process` ends in `set_task`, when
the kernel has no descriptors for the pipes of a task, and in the reader of the requests,
when the schema has let a document through that the reader does not understand. All of
these can be seen in the state before the step.

## Results

* `World.dies_iff_of_step` — the steps that end a worker.
* `Worker.dies_iff_of_process` — the requests that end one.
-/

namespace Libsbox

open CMemory Runs

-- ---------------------------------------------------------------------------
-- Descriptors for pipes
-- ---------------------------------------------------------------------------

/-- The name of the pipe that `set_task` asks for. -/
def Asked.pipe? : Asked → Option Str
  | .pipe name => some name
  | .file | .stdout => none

/-- The names of the pipes that `set_task` asks for, one after another. -/
def Task.pipeNames (task : Task) : List Str :=
  (task.asks .stdin).pipe?.toList ++ ((task.asks .stdout).pipe?.toList ++
    (task.asks .stderr).pipe?.toList)

/-- The number of descriptors that take the pipes with these names, where those with the
names `known` are there. -/
def descriptorsFor (known : List Str) : List Str → Nat
  | [] => 0
  | name :: names =>
    if name ∈ known then descriptorsFor known names else 2 + descriptorsFor (name :: known) names

/-- The kernel has descriptors for the pipes with these names. -/
def Pipes.HasRoom (pipes : Pipes) (names : List Str) : Prop :=
  descriptorsFor (pipes.pipes.map Prod.fst) names ≤ pipes.fresh.length

theorem lookup_eq_none_iff {pipes : List (Str × Fd × Fd)} {name : Str} :
    pipes.lookup name = none ↔ name ∉ pipes.map Prod.fst := by
  rw [List.lookup_eq_none_iff, List.mem_map]
  constructor
  · rintro h ⟨entry, hMem, rfl⟩
    simpa using h entry hMem
  · intro h entry hMem
    simpa using fun hSame : name = entry.1 => h ⟨entry, hMem, hSame.symm⟩

/-- A call of `get_pipe`, and the calls that follow it. -/
theorem getPipe_room {pipes : Pipes} {name : Str} (names : List Str) :
    pipes.HasRoom (name :: names) ↔
      ∃ fds pipes', pipes.getPipe name = .ok (fds, pipes') ∧ pipes'.HasRoom names := by
  unfold Pipes.HasRoom Pipes.getPipe
  rw [descriptorsFor]
  cases hLookup : pipes.pipes.lookup name with
  | some fds =>
    have hKnown : name ∈ pipes.pipes.map Prod.fst := by
      by_contra hNot
      rw [lookup_eq_none_iff.mpr hNot] at hLookup
      cases hLookup
    rw [if_pos hKnown]
    simp
  | none =>
    rw [if_neg (lookup_eq_none_iff.mp hLookup)]
    match hFresh : pipes.fresh with
    | [] | [_] =>
      simp only [reduceCtorEq, false_and, exists_false, iff_false, not_le, List.length_nil,
        List.length_singleton]
      omega
    | r :: w :: fresh =>
      simp only [Except.ok.injEq, Prod.mk.injEq, List.length_cons]
      constructor
      · intro hRoom
        exact ⟨(r, w), _, ⟨rfl, rfl⟩, show _ ≤ fresh.length by simp only [List.map_cons]; omega⟩
      · rintro ⟨-, pipes', ⟨-, rfl⟩, hRoom⟩
        simp only [List.map_cons] at hRoom
        omega

/-- What a stream asks for, and what follows. -/
theorem askPipe_room (task : Task) (st : StdStream) {pipes : Pipes} (names : List Str) :
    pipes.HasRoom ((task.asks st).pipe?.toList ++ names) ↔
      ∃ fds pipes', task.askPipe st pipes = .ok (fds, pipes') ∧ pipes'.HasRoom names := by
  unfold Task.askPipe
  cases task.asks st with
  | pipe name =>
    show pipes.HasRoom (name :: names) ↔
      ∃ fds pipes', (pipes.getPipe name >>= fun r => pure (some r.1, r.2)) = .ok (fds, pipes') ∧ _
    rw [getPipe_room]
    constructor
    · rintro ⟨fds, pipes', hGet, hRoom⟩
      exact ⟨some fds, pipes', by rw [hGet]; rfl, hRoom⟩
    · rintro ⟨fds, pipes', hAsk, hRoom⟩
      obtain ⟨⟨fds', after⟩, hGet, hSome⟩ := bind_eq_ok hAsk
      cases hSome
      exact ⟨fds', _, hGet, hRoom⟩
  | file | stdout =>
    show pipes.HasRoom names ↔ _
    simp

theorem returns_askPipes_iff (task : Task) (pipes : Pipes) :
    Returns (task.askPipes pipes) ↔ pipes.HasRoom task.pipeNames := by
  have hEnd : ∀ p : Pipes, p.HasRoom [] := fun _ => Nat.zero_le _
  have hLast := fun p : Pipes => @askPipe_room task .stderr p []
  simp only [List.append_nil, hEnd, and_true] at hLast
  rw [Task.pipeNames, askPipe_room, Task.askPipes, returns_bind]
  simp only [askPipe_room, hLast, returns_bind, Prod.exists, returns_pure, and_true]

/-- When the part of `set_task` that describes the streams does not die. -/
theorem streams_set_iff (task : Task) (d : Streams) (pipes : Pipes) :
    Returns (d.set task pipes) ↔
      (∀ st, (task.filename st).head? = some 64 ∨ (task.filename st).length ≤ pathMax) ∧
        pipes.HasRoom task.pipeNames := by
  rw [streams_set_returns_iff, returns_askPipes_iff]

-- ---------------------------------------------------------------------------
-- The processes, their blocks and their descriptors
-- ---------------------------------------------------------------------------

namespace World

/-- The worker is about to write a task for whose pipes the kernel has no descriptors. -/
def NoRoom (w : World) (fresh : List Fd) : Prop :=
  match w.sys.worker with
  | .writeTasks i => w.sys.containers[i]?.isSome ∧
      ∃ task ∈ w.sys.tasks[i]?, ¬ Pipes.HasRoom ⟨w.work.pipes, fresh⟩ task.pipeNames
  | _ => False

instance (pipes : Pipes) (names : List Str) : Decidable (pipes.HasRoom names) :=
  inferInstanceAs (Decidable (_ ≤ _))

instance (w : World) (fresh : List Fd) : Decidable (w.NoRoom fresh) := by
  unfold NoRoom
  split <;> infer_instance

/-- The step is one that the worker dies of. -/
def Kills (w : World) : WorldAct → Prop
  | .sys .worker fresh => w.sys.Kills .worker ∨ w.NoRoom fresh
  | .sys a _ => w.sys.Kills a
  | _ => False

instance (w : World) (wa : WorldAct) : Decidable (w.Kills wa) := by
  unfold Kills
  split <;> infer_instance

variable {pathEnv : Option Str} {w w' : World} {wa : WorldAct} {fresh : List Fd}

/-- What `set_task` does not die of, it does not refuse. -/
theorem returns_set_of_fits {task : Task} (d : Streams) {pipes : Pipes}
    (hFits : Block.refuses task = false) (hRoom : pipes.HasRoom task.pipeNames) :
    Returns (d.set task pipes) :=
  (streams_set_iff task d pipes).mpr ⟨(Block.refuses_eq_false_iff.mp hFits).streams, hRoom⟩

theorem dies_iff_of_workerStep (hAlive : w.sys.alive = true)
    (hStep : w.workerStep pathEnv fresh = some w') :
    w'.sys.alive = false ↔ w.Kills (.sys .worker fresh) := by
  have hSys : ∀ {s' : Sys}, w.sys.step pathEnv .worker = some s' →
      (w.Kills (.sys .worker fresh) ↔ w.sys.Kills .worker) →
      (s'.alive = false ↔ w.Kills (.sys .worker fresh)) := by
    intro s' hSysStep hSame
    rw [hSame]
    exact Sys.dies_iff_of_step hAlive hSysStep
  unfold World.workerStep at hStep
  split at hStep
  · rename_i i hWorker
    have hKills : w.Kills (.sys .worker fresh) ↔ w.sys.Kills .worker ∨
        w.sys.containers[i]?.isSome ∧
          ∃ task ∈ w.sys.tasks[i]?, ¬ Pipes.HasRoom ⟨w.work.pipes, fresh⟩ task.pipeNames := by
      simp only [Kills, NoRoom, hWorker]
    split at hStep
    · rename_i task c hTask hUsed
      have hRefuses : w.sys.Kills .worker ↔ Block.refuses task = true := by
        simp only [Sys.Kills, hWorker, hTask, hUsed]
        simp
      have hNoRoom : (w.sys.containers[i]?.isSome ∧ ∃ task ∈ w.sys.tasks[i]?,
          ¬ Pipes.HasRoom ⟨w.work.pipes, fresh⟩ task.pipeNames) ↔
          ¬ Pipes.HasRoom ⟨w.work.pipes, fresh⟩ task.pipeNames := by
        simp [hTask, hUsed]
      rw [hNoRoom] at hKills
      split at hStep
      · rename_i halt hSet
        rw [if_pos hAlive] at hStep
        obtain rfl := Option.some.inj hStep
        refine iff_of_true rfl (hKills.mpr ?_)
        by_contra hNeither
        rw [not_or, hRefuses, Bool.not_eq_true, not_not] at hNeither
        obtain ⟨r, hOk⟩ := returns_set_of_fits (w.streams c) hNeither.1 hNeither.2
        rw [hSet] at hOk
        cases hOk
      · rename_i streams pipes hSet
        simp only [Option.bind_eq_bind, Option.bind_eq_some_iff] at hStep
        obtain ⟨s', hSysStep, work, -, hEq⟩ := hStep
        obtain rfl := Option.some.inj hEq
        have hRoom := ((streams_set_iff task (w.streams c) _).mp ⟨_, hSet⟩).2
        exact hSys hSysStep (hKills.trans (or_iff_left (not_not.mpr hRoom)))
    · rename_i hNone
      obtain ⟨s', hSysStep, rfl⟩ := sysStep_cases hStep
      refine hSys hSysStep (hKills.trans (or_iff_left ?_))
      rintro ⟨hUsed, task, hTask, -⟩
      obtain ⟨c, hc⟩ := Option.isSome_iff_exists.mp hUsed
      exact hNone task c hTask hc
  · rename_i hWorker
    have hKills : w.Kills (.sys .worker fresh) ↔ w.sys.Kills .worker := by
      simp only [Kills, NoRoom, hWorker, or_false]
    split at hStep
    · obtain ⟨s', hSysStep, rfl⟩ := sysStep_cases hStep
      exact hSys hSysStep hKills
    · cases hStep
  · rename_i hNotWrites hNotCloses
    have hKills : w.Kills (.sys .worker fresh) ↔ w.sys.Kills .worker := by
      refine or_iff_left fun hPlace => ?_
      unfold NoRoom at hPlace
      split at hPlace
      · rename_i i hWorker
        exact hNotWrites i hWorker
      · exact hPlace
    obtain ⟨s', hSysStep, rfl⟩ := sysStep_cases hStep
    exact hSys hSysStep hKills

/-- **What a worker dies of**: exactly the steps that `Kills` names. -/
theorem dies_iff_of_step (hAlive : w.sys.alive = true) (hStep : w.step pathEnv wa = some w') :
    w'.sys.alive = false ↔ w.Kills wa := by
  -- the worker's own step is the only one in which the descriptors matter
  have hOther : ∀ {a : Act} {fresh : List Fd}, a ≠ .worker →
      w.sys.step pathEnv a = some w'.sys → (w'.sys.alive = false ↔ w.Kills (.sys a fresh)) := by
    intro a fresh hNot hSys
    have hKills : w.Kills (.sys a fresh) = w.sys.Kills a := by
      cases a with
      | worker => exact absurd rfl hNot
      | _ => rfl
    rw [hKills]
    exact Sys.dies_iff_of_step hAlive hSys
  have hQuiet : w'.sys = w.sys → ¬ w.Kills wa → (w'.sys.alive = false ↔ w.Kills wa) := by
    intro hSame hNot
    rw [hSame, hAlive]
    exact iff_of_false (by simp) hNot
  unfold World.step at hStep
  split at hStep
  · exact dies_iff_of_workerStep hAlive hStep
  · rename_i c fresh
    obtain ⟨m, hFirst, hRest⟩ := Option.bind_eq_some_iff.mp hStep
    obtain ⟨s', hSys, rfl⟩ := sysStep_cases hFirst
    split at hRest <;> obtain rfl := Option.some.inj hRest <;> exact hOther (by simp) hSys
  · rename_i c fresh
    unfold World.slaveStep at hStep
    split at hStep
    · cases hStep
    · rename_i sl hSlave
      obtain ⟨m, hFds, hLast⟩ := Option.bind_eq_some_iff.mp hStep
      obtain ⟨s', hSys, rfl⟩ := sysStep_cases hLast
      rw [slaveFds_sys hFds] at hSys
      exact hOther (by simp) hSys
  · rename_i a fresh hNotWorker _ _
    obtain ⟨s', hSys, rfl⟩ := sysStep_cases hStep
    exact hOther (fun h => hNotWorker h) hSys
  · split at hStep
    · obtain ⟨work, -, rfl⟩ := Option.map_eq_some_iff.mp hStep
      exact hQuiet rfl id
    · cases hStep
  · obtain ⟨r, -, rfl⟩ := Option.map_eq_some_iff.mp hStep
    exact hQuiet rfl id
  · split at hStep
    · obtain ⟨table, -, rfl⟩ := Option.map_eq_some_iff.mp hStep
      exact hQuiet rfl id
    · cases hStep

end World

-- ---------------------------------------------------------------------------
-- The reader
-- ---------------------------------------------------------------------------

namespace Worker

variable {rj : Rapidjson} {pathEnv : Option Str} {v v' : Worker} {request : Str}

/-- The schema of a worker stays the one of requests. -/
theorem schema_of_step {m : Move} (hSchema : v.validator.schema = requestSchema)
    (hStep : v.step rj pathEnv m = some v') : v'.validator.schema = requestSchema := by
  cases m with
  | process request =>
    change v.process rj pathEnv request = some v' at hStep
    unfold Worker.process at hStep
    split at hStep
    · split at hStep
      · obtain ⟨w, -, rfl⟩ := Option.map_eq_some_iff.mp hStep
        exact hSchema
      · rename_i error tasks validator hParse
        split at hStep
        · obtain rfl := Option.some.inj hStep
          exact (schema_of_parse hParse).trans hSchema
        · obtain ⟨w, -, rfl⟩ := Option.map_eq_some_iff.mp hStep
          exact (schema_of_parse hParse).trans hSchema
    · cases hStep
  | world wa =>
    obtain ⟨-, w, -, rfl⟩ := step_world_eq hStep
    exact hSchema

/-- **The requests that a worker dies of**: those that the schema accepts, and the reader
does not. -/
theorem dies_iff_of_process (hSchema : v.validator.schema = requestSchema)
    (hStep : v.process rj pathEnv request = some v') :
    v'.world.sys.alive = false ↔ ¬ TasksBeyondSchema rj request := by
  have hReader := returns_reader_iff rj v.validator.error request
  rw [← hSchema] at hReader
  unfold Worker.process at hStep
  split at hStep
  · rename_i hThere
    split at hStep
    · rename_i halt hParse
      obtain ⟨w, hWorld, rfl⟩ := Option.map_eq_some_iff.mp hStep
      refine iff_of_true ((World.dies_iff_of_step hThere.1 hWorld).mpr trivial) ?_
      rw [← hReader, hParse]
      exact not_returns_error _
    · rename_i error tasks validator hParse
      have hReads : TasksBeyondSchema rj request := hReader.mp ⟨_, hParse⟩
      split at hStep
      · obtain rfl := Option.some.inj hStep
        refine iff_of_false ?_ (not_not.mpr hReads)
        rw [hThere.1]
        simp
      · obtain ⟨w, hWorld, rfl⟩ := Option.map_eq_some_iff.mp hStep
        exact iff_of_false (World.dies_iff_of_step hThere.1 hWorld).mp (not_not.mpr hReads)
  · cases hStep

end Worker

end Libsbox
