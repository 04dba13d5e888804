import Libsbox.Protocol.Handover

/-!
# libsbox — who runs the standard rules

A container reads `use_standard_binds` in `prepare_root`, before its task barrier, and
the worker writes it with `set_task`, before that barrier as well: nothing orders the
two. A container that comes first finds the default of `TaskData`, which is `true`.

## Results

* `standardRules_iff` — a container that was started for a task without standard binds
  never runs `apply_standard_rules` exactly when `set_task` comes first;
* `standardRules_raced` — a run in which it comes second.
-/

namespace Libsbox

open CMemory Runs

/-- What a container can have been told of the standard binds: a temporary one is
served to the task for which it was started, and has the default before. -/
structure Box.Told (b : Box) : Prop where
  unborn : b.pc = .unborn → b.standardRules = false
  permanent : b.permanent = true → b.startedFor.useStandardBinds = true
  temporary : b.permanent = false → b.block.task.useStandardBinds =
    (decide (b.block.last .useStandardBinds = .initial) || b.startedFor.useStandardBinds)

/-- The container reads `use_standard_binds` for a task without standard binds, and
`set_task` has not been there. -/
def Sys.ReadsDefault (c : BoxId) (s : Sys) (a : Act) : Prop :=
  a = .container c ∧ (s.box c).pc = .prepareRoot ∧
    (s.box c).startedFor.useStandardBinds = false ∧
    (s.box c).block.last .useStandardBinds = .initial

variable {pathEnv : Option Str} {s s' : Sys} {a : Act} {c : BoxId} {b b' : Box} {p : Option Party}

-- ---------------------------------------------------------------------------
-- What containers are told
-- ---------------------------------------------------------------------------

/-- The block says the same of the standard binds, and of who has said so. -/
def Block.SameRules (b b' : Block) : Prop :=
  b'.task.useStandardBinds = b.task.useStandardBinds ∧
    b'.last .useStandardBinds = b.last .useStandardBinds

theorem Block.sameRules_setUsage (k : Nat) (u : Usage) (b : Block) :
    b.SameRules (b.setUsage k u) := by
  refine ⟨?_, setUsage_last_of_not_isResult k u b rfl⟩
  unfold setUsage checkTimeLimit checkWallTimeLimit
  split <;> split <;> rfl

theorem Box.Moves.sameRules (h : b.Moves pathEnv s c p b') : b.block.SameRules b'.block := by
  cases h with
  | reap hPc hSlave =>
    rename_i status request
    cases status <;> exact ⟨rfl, rfl⟩
  | readUsage | slaveError => exact Block.sameRules_setUsage _ _ _
  | slaveGoesOn hSlave hPc =>
    refine ⟨rfl, Block.wrote_last_of_not_mem fun hIn => ?_⟩
    cases hPc.isSlaves _ hIn
  | _ => exact ⟨rfl, rfl⟩

theorem Box.Moves.startedFor_eq (h : b.Moves pathEnv s c p b') : b'.startedFor = b.startedFor := by
  cases h <;> rfl

theorem Box.Told.move (h : b.Told) (hMoves : b.Moves pathEnv s c p b') : b'.Told where
  unborn := by
    have hUnborn := h.unborn
    cases hMoves <;> grind [Box.stop, Box.slaveEnds, ContainerAt.Precedes]
  permanent := by
    rw [hMoves.permanent_eq, hMoves.startedFor_eq]
    exact h.permanent
  temporary := by
    rw [hMoves.permanent_eq, hMoves.startedFor_eq, hMoves.sameRules.1, hMoves.sameRules.2]
    exact h.temporary

theorem Box.told_default : ({} : Box).Told := ⟨fun _ => rfl, nofun, fun _ => rfl⟩

theorem Box.told_started (id : Uid) (task : Task) :
    { id, permanent := Sys.permanentAllowed task, startedFor := task, pc := .prepare : Box }.Told := by
  refine ⟨nofun, fun hPermanent => ?_, fun _ => rfl⟩
  simp only [Sys.permanentAllowed, Bool.not_eq_true', Bool.or_eq_false_iff, Bool.not_eq_false']
    at hPermanent
  exact hPermanent.2

namespace Sys

/-- A temporary container is there for the task that it was started for. -/
def TasksOk (s : Sys) : Prop :=
  ∀ (j : Nat) (c : BoxId) (task : Task), s.containers[j]? = some c → c ∈ s.temporary →
    s.tasks[j]? = some task → task.useStandardBinds = (s.box c).startedFor.useStandardBinds

structure Told (s : Sys) : Prop where
  tasks : s.TasksOk
  boxes : ∀ c, (s.box c).Told

theorem told_initial (firstUid : Uid) : (initial firstUid).Told :=
  ⟨nofun, fun _ => Box.told_default⟩

/-- `set_task` tells a container what it was started for. -/
theorem Told.worked (h : s.Told) (hInv : s.Inv) (hWorked : (s.box c).Worked s c b) : b.Told := by
  have hBox := h.boxes c
  cases hWorked with
  | kept => exact hBox
  | called => exact ⟨hBox.unborn, hBox.permanent, hBox.temporary⟩
  | @written i task hWorker hTask hUsed =>
    refine ⟨hBox.unborn, hBox.permanent, fun hTemporary => ?_⟩
    have hMem := hInv.roster.within c (List.mem_of_getElem? hUsed)
    have hOld : c ∈ s.temporary := by
      refine (List.mem_append.mp hMem).resolve_left fun hPermanent => ?_
      simp [hInv.roster.permanent c hPermanent] at hTemporary
    exact h.tasks i c task hUsed hOld hTask
  | started => exact Box.told_started _ _

theorem startedFor_step (hStep : s.step pathEnv a = some s') (hBorn : c < s.started) :
    (s'.box c).startedFor = (s.box c).startedFor := by
  rcases step_box hStep c with ⟨p, hMoves⟩ | hWorked
  · exact hMoves.startedFor_eq
  · generalize s'.box c = b' at hWorked
    cases hWorked with
    | started hAlive hWorker hTask hNew => exact absurd hBorn (hNew ▸ lt_irrefl _)
    | _ => rfl

/-- What a step makes of the lists of the worker, as far as the standard binds go. -/
inductive Lists (s s' : Sys) : Prop where
  | same (hContainers : s'.containers = s.containers) (hTemporary : s'.temporary = s.temporary)
      (hTasks : ∀ (j : Nat) (task' : Task), s'.tasks[j]? = some task' →
        ∃ task, s.tasks[j]? = some task ∧ task'.useStandardBinds = task.useStandardBinds)
  | empty (hContainers : s'.containers = [])
  | more (cNew : BoxId) (task : Task) (hTask : s.tasks[s.containers.length]? = some task)
      (hContainers : s'.containers = s.containers ++ [cNew]) (hTasks : s'.tasks = s.tasks)
      (hTemporary : s'.temporary = s.temporary ∧ cNew ∉ s.temporary ∨
        s'.temporary = s.temporary ++ [cNew] ∧ (s'.box cNew).startedFor = task)

theorem Lists.kept (hContainers : s'.containers = s.containers)
    (hTemporary : s'.temporary = s.temporary) (hTasks : s'.tasks = s.tasks) : s.Lists s' :=
  .same hContainers hTemporary fun _ task hTask => ⟨task, hTasks ▸ hTask, rfl⟩

/-- `put_results` leaves the standard binds of a task as they are. -/
theorem lists_puts {i : Nat} {task : Task} (block : Block) (hTask : s.tasks[i]? = some task)
    (hContainers : s'.containers = s.containers) (hTemporary : s'.temporary = s.temporary)
    (hTasks : s'.tasks = s.tasks.set i (block.putResults task)) : s.Lists s' := by
  refine .same hContainers hTemporary fun j task' hTask' => ?_
  simp only [hTasks, List.getElem?_set] at hTask'
  split at hTask'
  · rename_i hEq
    obtain rfl := hEq
    refine ⟨task, hTask, ?_⟩
    split at hTask'
    · exact Option.some.inj hTask' ▸ rfl
    · cases hTask'
  · exact ⟨task', hTask', rfl⟩

theorem Inv.length_preparing (h : s.Inv) {i next : Nat}
    (hWorker : s.worker = .prepareContainers i next) : s.containers.length = i := by
  have hPlace := h.place
  simp only [PlaceOk, hWorker] at hPlace
  exact hPlace.1

theorem Inv.length_starting (h : s.Inv) {i next : Nat} {id : Uid}
    (hWorker : s.worker = .startContainer i next id) : s.containers.length = i := by
  have hPlace := h.place
  simp only [PlaceOk, hWorker] at hPlace
  exact hPlace.1

theorem WorkerMoves.lists (hMoves : s.WorkerMoves s') (h : s.Inv) : s.Lists s' := by
  have hNew : s.started ∉ s.temporary := fun hOld =>
    lt_irrefl _ (h.roster.born _ (List.mem_append_right _ hOld))
  cases hMoves with
  | @reuses i next task c hWorker hTask hAllowed hSpare =>
    obtain rfl := h.length_preparing hWorker
    refine .more c task hTask rfl rfl (.inl ⟨rfl, fun hOld => ?_⟩)
    exact List.disjoint_of_nodup_append h.roster.nodup (List.mem_of_getElem? hSpare) hOld
  | @startsPermanent i next task id hWorker hTask =>
    obtain rfl := h.length_starting hWorker
    exact .more s.started task hTask rfl rfl (.inl ⟨rfl, hNew⟩)
  | @startsTemporary i next task id hWorker hTask =>
    obtain rfl := h.length_starting hWorker
    refine .more s.started task hTask rfl rfl (.inr ⟨rfl, ?_⟩)
    show ((s.setBox s.started _).box s.started).startedFor = task
    rw [setBox_box_self]
  | @puts i task c hWorker hTask => exact lists_puts (s.box c).block hTask rfl rfl rfl
  | answers => exact .empty rfl
  -- elsewhere the lists stay as they are
  | _ => exact .kept rfl rfl rfl

theorem step_lists (h : s.Inv) (hStep : s.step pathEnv a = some s') : s.Lists s' := by
  cases hBox : a.box? with
  | some c =>
    rcases step_of_box hBox hStep with rfl | ⟨p, b, -, rfl⟩
    · exact .kept rfl rfl rfl
    · exact .kept rfl rfl rfl
  | none =>
    cases step_turns hBox hStep with
    | accepts _ hWorker =>
      have hPlace := h.place
      simp only [PlaceOk, hWorker] at hPlace
      exact .empty hPlace
    | worker _ hMoves => exact hMoves.lists h
    | dies | othersGet | othersPut => exact .kept rfl rfl rfl

theorem Told.tasks_step (h : s.Told) (hInv : s.Inv) (hStep : s.step pathEnv a = some s') :
    s'.TasksOk := by
  have hDistinct := (hInv.step hStep).roster.distinct
  have hBorn : ∀ j c, s.containers[j]? = some c → c < s.started := fun j c hUsed =>
    hInv.roster.born c (hInv.roster.within c (List.mem_of_getElem? hUsed))
  intro j c task' hUsed hOld hTask
  cases step_lists hInv hStep with
  | same hContainers hTemporary hTasks =>
    rw [hContainers] at hUsed
    rw [hTemporary] at hOld
    obtain ⟨task, hTask, hRules⟩ := hTasks j task' hTask
    rw [hRules, startedFor_step hStep (hBorn j c hUsed)]
    exact h.tasks j c task hUsed hOld hTask
  | empty hContainers => simp [hContainers] at hUsed
  | more cNew task hNew hContainers hTasks hTemporary =>
    rw [hContainers] at hUsed hDistinct
    rw [hTasks] at hTask
    rcases Nat.lt_or_ge j s.containers.length with hLt | hGe
    · rw [List.getElem?_append_left hLt] at hUsed
      have hNe : c ≠ cNew := by
        rintro rfl
        have := List.disjoint_of_nodup_append hDistinct (List.mem_of_getElem? hUsed)
        simp at this
      have hOld' : c ∈ s.temporary := by
        rcases hTemporary with ⟨hSame, -⟩ | ⟨hMore, -⟩
        · exact hSame ▸ hOld
        · rw [hMore] at hOld
          simpa [hNe] using hOld
      rw [startedFor_step hStep (hBorn j c hUsed)]
      exact h.tasks j c task' hUsed hOld' hTask
    · rw [List.getElem?_append_right hGe] at hUsed
      obtain ⟨hEq, rfl⟩ : j - s.containers.length = 0 ∧ c = cNew := by
        have := (List.getElem?_eq_some_iff.mp hUsed).1
        simp_all
      obtain rfl : j = s.containers.length := by omega
      rcases hTemporary with ⟨hSame, hNot⟩ | ⟨-, hFor⟩
      · exact absurd (hSame ▸ hOld) hNot
      · rw [hFor, Option.some.inj (hNew.symm.trans hTask)]

theorem Told.step (h : s.Told) (hInv : s.Inv) (hStep : s.step pathEnv a = some s') : s'.Told where
  tasks := h.tasks_step hInv hStep
  boxes := fun c => by
    rcases step_box hStep c with ⟨p, hMoves⟩ | hWorked
    · exact (h.boxes c).move hMoves
    · exact h.worked hInv hWorked

-- ---------------------------------------------------------------------------
-- Who runs the standard rules
-- ---------------------------------------------------------------------------

/-- The container has run `apply_standard_rules`, for a task without standard binds. -/
def RanRules (c : BoxId) (s : Sys) : Prop :=
  (s.box c).standardRules = true ∧ (s.box c).startedFor.useStandardBinds = false

/-- Only the container itself runs the rules. -/
theorem standardRules_of_other (hBox : a.box? = some c) (hOther : a ≠ .container c)
    (hStep : s.step pathEnv a = some s') :
    (s'.box c).standardRules = (s.box c).standardRules := by
  cases a with
  | container c' =>
    cases hBox
    exact absurd rfl hOther
  | tick c' cpuMs wallMs =>
    cases hBox
    obtain ⟨sigchld, hKill⟩ := (s.box c).killAll_eq
    simp only [step, tick, hKill] at hStep
    repeat' split at hStep
    all_goals first
      | exact absurd hStep (Option.some_ne_none _).symm
      | exact Option.some.inj hStep ▸ (congrArg Box.standardRules (setBox_box_self ..)).trans rfl
      | exact Option.some.inj hStep ▸ rfl
  | readUsage c' | slave c' | exit c' | containerSigchld c' | parentDied c' =>
    cases hBox
    simp only [step, readUsage, slaveStep, exit, containerSigchld, parentDied] at hStep
    repeat' split at hStep
    all_goals first
      | exact absurd hStep (Option.some_ne_none _).symm
      | exact Option.some.inj hStep ▸ (congrArg Box.standardRules (setBox_box_self ..)).trans rfl
  | fail p =>
    cases p <;> cases hBox <;> simp only [step, fail, failContainer, failSlave] at hStep
    all_goals
      repeat' split at hStep
      all_goals first
        | exact absurd hStep (Option.some_ne_none _).symm
        | exact Option.some.inj hStep ▸ (congrArg Box.standardRules (setBox_box_self ..)).trans rfl
  | accept | worker | workerSigchld | othersGet | othersPut => cases hBox

/-- The step of a container out of `prepare_root`. -/
theorem ranRules_prepareRoot (hTold : s.Told) (hPc : (s.box c).pc = .prepareRoot)
    (hStep : s.containerStep c = some s') :
    RanRules c s' ↔ RanRules c s ∨ ReadsDefault c s (.container c) := by
  simp only [containerStep, hPc] at hStep
  obtain rfl := Option.some.inj hStep
  have hBox := hTold.boxes c
  unfold RanRules ReadsDefault
  rw [setBox_box_self]
  constructor
  · rintro ⟨hRules, hTask⟩
    have hTemporary : (s.box c).permanent = false := by
      by_contra hPermanent
      simp [hBox.permanent (by simpa using hPermanent)] at hTask
    have hRead := hBox.temporary hTemporary
    rw [hTask, Bool.or_false] at hRead
    rcases Bool.or_eq_true_iff.mp hRules with hOld | hNow
    · exact .inl ⟨hOld, hTask⟩
    · exact .inr ⟨rfl, hPc, hTask, by simpa [hRead] using hNow⟩
  · rintro (⟨hOld, hTask⟩ | ⟨-, -, hTask, hInitial⟩)
    · exact ⟨by simp [hOld], hTask⟩
    · have hTemporary : (s.box c).permanent = false := by
        by_contra hPermanent
        simp [hBox.permanent (by simpa using hPermanent)] at hTask
      exact ⟨by simp [hBox.temporary hTemporary, hInitial], hTask⟩

/-- **When a step makes a container run the rules against its task.** -/
theorem ranRules_step (hInv : s.Inv) (hTold : s.Told) (hStep : s.step pathEnv a = some s') :
    RanRules c s' ↔ RanRules c s ∨ ReadsDefault c s a := by
  by_cases hOwn : a = .container c
  · subst hOwn
    by_cases hPc : (s.box c).pc = .prepareRoot
    · exact ranRules_prepareRoot hTold hPc hStep
    · have hMoved : s.Moved pathEnv c s' := containerStep_moved hStep
      obtain ⟨p, b, hMoves, rfl⟩ := hMoved
      have hBox : (s.moveBox c p b).box c = b := setBox_box_self ..
      unfold RanRules ReadsDefault
      rw [hBox]
      cases hMoves <;> simp_all [Box.stop, Box.slaveEnds]
  · have hNot : ¬ ReadsDefault c s a := fun h => hOwn h.1
    simp only [hNot, or_false]
    cases hBox : a.box? with
    | some c' =>
      rcases step_of_box hBox hStep with rfl | ⟨p, b, hMoves, rfl⟩
      · rfl
      · rcases eq_or_ne c c' with rfl | hNe
        · have hRules := standardRules_of_other hBox hOwn hStep
          have hEq : (s.moveBox c p b).box c = b := setBox_box_self ..
          unfold RanRules
          rw [hRules, hEq, hMoves.startedFor_eq]
        · have hKept : (s.moveBox c' p b).box c = s.box c := setBox_box_ne s b hNe
          unfold RanRules
          rw [hKept]
    | none =>
      have hWorked := (step_turns hBox hStep).worked c
      unfold RanRules
      generalize s'.box c = b' at hWorked
      cases hWorked with
      | started hAlive hWorker hTask hNew =>
        have hUnborn := (hTold.boxes c).unborn (hInv.unborn (hNew ▸ le_rfl)).1
        simp [hUnborn]
      | _ => rfl

/-- `set_task` is through when the container reads `use_standard_binds` for a task
without standard binds. -/
def WrittenFirst (c : BoxId) (s : Sys) (a : Act) : Prop :=
  a = .container c → (s.box c).pc = .prepareRoot →
    (s.box c).startedFor.useStandardBinds = false →
      (s.box c).block.last .useStandardBinds ≠ .initial

/-- **A container started for a task without standard binds never runs the standard
rules exactly if `set_task` comes first.** -/
theorem standardRules_iff {firstUid : Uid} {acts : List Act}
    (hRun : run (Sys.step pathEnv) (initial firstUid) acts = some s)
    (hTask : (s.box c).startedFor.useStandardBinds = false) :
    (s.box c).standardRules = false ↔
      AllSteps (Sys.step pathEnv) (WrittenFirst c) (initial firstUid) acts := by
  have hFlag := flag_iff_someStep (I := fun s => s.Inv ∧ s.Told) (F := RanRules c)
    (P := ReadsDefault c)
    (fun _ _ _ h hStep => ⟨h.1.step hStep, h.2.step h.1 hStep⟩)
    (fun _ _ _ h hStep => ranRules_step h.1 h.2 hStep)
    ⟨inv_initial firstUid, told_initial firstUid⟩ hRun
  have hFresh : ¬ RanRules c (initial firstUid) := fun h => by cases h.1
  have hAll : ∀ (m : Sys) (a : Act), ¬ ReadsDefault c m a ↔ WrittenFirst c m a := by
    intro m a
    unfold ReadsDefault WrittenFirst
    tauto
  simp only [hFresh, false_or] at hFlag
  rw [← Bool.not_eq_true, ← and_iff_left (a := (s.box c).standardRules = true) hTask]
  change ¬ RanRules c s ↔ _
  rw [hFlag, not_someStep_iff]
  simp only [hAll]

/-- The container of a task without standard binds, which comes to `prepare_root` behind
`set_task`. -/
theorem standardRules_ordered :
    ∃ s, run (step none) (initial 1000)
        [.accept [{ argv := [lit "true"], useStandardBinds := false }], .worker, .worker, .worker,
          .worker, .worker, .container 0, .container 0] = some s ∧
      AllSteps (step none) (WrittenFirst 0) (initial 1000)
        [.accept [{ argv := [lit "true"], useStandardBinds := false }], .worker, .worker, .worker,
          .worker, .worker, .container 0, .container 0] := by
  obtain ⟨s, hRun⟩ : ∃ s, run (step none) (initial 1000)
      [.accept [{ argv := [lit "true"], useStandardBinds := false }], .worker, .worker, .worker,
        .worker, .worker, .container 0, .container 0] = some s := Option.isSome_iff_exists.mp rfl
  have hTask : (s.box 0).startedFor.useStandardBinds = false :=
    of_run_map (f := fun s => (s.box 0).startedFor.useStandardBinds) rfl hRun
  have hNever : (s.box 0).standardRules = false :=
    of_run_map (f := fun s => (s.box 0).standardRules) rfl hRun
  exact ⟨s, hRun, (standardRules_iff hRun hTask).mp hNever⟩

/-- A container that comes to `prepare_root` before `set_task` runs the standard rules,
whatever its task says. -/
theorem standardRules_raced :
    ¬ ∀ acts s c, (∀ p, Act.fail p ∉ acts) → run (step none) (initial 1000) acts = some s →
      (s.box c).startedFor.useStandardBinds = false → (s.box c).standardRules = false := by
  intro hClaim
  obtain ⟨s, hRun⟩ : ∃ s, run (step none) (initial 1000)
      [.accept [{ argv := [lit "true"], useStandardBinds := false }], .worker, .worker,
        .container 0, .container 0] = some s := Option.isSome_iff_exists.mp rfl
  have hNever := hClaim _ s 0 (by simp) hRun
    (of_run_map (f := fun s => (s.box 0).startedFor.useStandardBinds) rfl hRun)
  have hRules : (s.box 0).standardRules = true :=
    of_run_map (f := fun s => (s.box 0).standardRules) rfl hRun
  simp [hNever] at hRules

end Sys

end Libsbox
