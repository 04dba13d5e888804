import Libsbox.Protocol.WorkerSteps

/-!
# libsbox — what the worker and its containers die of

The worker dies in a call of its own that fails, in the handler of `SIGCHLD`, where one of
its containers has died, in `SharedIdGetter`, where there is no id left, and in `set_task`,
which refuses a task. A container dies in a call that fails, and where it learns that its
slave has not got as far as its target. All of these can be seen in the state before the
step.

## Results

* `dies_iff_of_step` — the steps that end the worker;
* `loses_iff_of_step` — the steps that end a container through `die`.
-/

namespace Libsbox

open CMemory

namespace Sys

/-- The step is one that the worker dies of. -/
def Kills (s : Sys) : Act → Prop
  -- a call of the worker's own fails
  | .fail .worker => True
  -- the handler of SIGCHLD is called for a container that has died
  | .workerSigchld _ => True
  | .worker =>
    match s.worker with
    -- get() has no id
    | .prepareContainers i next => s.ids.stack = [] ∧ ∃ task ∈ s.tasks[i]?,
        permanentAllowed task = true → s.permanent[next]? = none
    -- set_task() refuses the task
    | .writeTasks i => s.containers[i]?.isSome ∧ ∃ task ∈ s.tasks[i]?, Block.refuses task = true
    -- put() has no room
    | .putId i => s.temporary[i]?.isSome ∧ s.ids.stack.length = idCount
    | _ => False
  | _ => False

instance (s : Sys) (a : Act) : Decidable (s.Kills a) := by
  unfold Kills
  split <;> first
    | infer_instance
    | (split <;> infer_instance)

variable {pathEnv : Option Str} {s s' : Sys} {a : Act}

/-- A task that needs a container of its own needs an id. -/
theorem prepareContainer_cases (s : Sys) (i next : Nat) (task : Task) :
    (∃ c, permanentAllowed task = true ∧ s.permanent[next]? = some c ∧
        (s.prepareContainer i next task).alive = s.alive) ∨
      (permanentAllowed task = true → s.permanent[next]? = none) ∧
        s.prepareContainer i next task = s.getId i next := by
  unfold prepareContainer
  by_cases hAllowed : permanentAllowed task = true
  · rw [if_pos hAllowed]
    cases hSpare : s.permanent[next]? with
    | some c => exact .inl ⟨c, hAllowed, rfl, rfl⟩
    | none => exact .inr ⟨fun _ => rfl, rfl⟩
  · rw [if_neg hAllowed]
    exact .inr ⟨fun h => absurd h hAllowed, rfl⟩

theorem dies_iff_of_workerStep (hAlive : s.alive = true) (hStep : s.workerStep = some s') :
    s'.alive = false ↔ s.Kills .worker := by
  have hGoesOn : ∀ {t : Sys}, some t = some s' → t.alive = s.alive → ¬ s.Kills .worker →
      (s'.alive = false ↔ s.Kills .worker) := by
    intro t hSome hSame hNot
    obtain rfl := Option.some.inj hSome
    rw [hSame, hAlive]
    exact iff_of_false (by simp) hNot
  have hDies : ∀ {t : Sys}, some t = some s' → t.alive = false → s.Kills .worker →
      (s'.alive = false ↔ s.Kills .worker) := by
    intro t hSome hDead hKills
    obtain rfl := Option.some.inj hSome
    exact iff_of_true hDead hKills
  unfold workerStep at hStep
  split at hStep
  case h_2 i next hWorker =>
    have hKills : s.Kills .worker ↔ s.ids.stack = [] ∧ ∃ task ∈ s.tasks[i]?,
        permanentAllowed task = true → s.permanent[next]? = none := by simp only [Kills, hWorker]
    split at hStep
    · rename_i hTask
      exact hGoesOn hStep rfl (by simp [hKills, hTask])
    · rename_i task hTask
      rcases s.prepareContainer_cases i next task with ⟨c, hAllowed, hSpare, hSame⟩ | ⟨hNone, hGets⟩
      · exact hGoesOn hStep hSame (by simp [hKills, hTask, hAllowed, hSpare])
      · rw [hGets, getId] at hStep
        split at hStep
        · rename_i hStack
          exact hDies hStep rfl (hKills.mpr ⟨hStack, task, hTask, hNone⟩)
        · rename_i id stack hStack
          exact hGoesOn hStep rfl (by simp [hKills, hStack])
  case h_3 i next id hWorker =>
    split at hStep
    · cases hStep
    · rename_i task hTask
      have hSame : (s.startContainer i next id task).alive = s.alive := by
        unfold startContainer
        split <;> rfl
      exact hGoesOn hStep hSame (by simp only [Kills, hWorker, not_false_eq_true])
  case h_5 i hWorker =>
    have hKills : s.Kills .worker ↔ s.containers[i]?.isSome ∧
        ∃ task ∈ s.tasks[i]?, Block.refuses task = true := by simp only [Kills, hWorker]
    split at hStep
    · rename_i hTask
      exact hGoesOn hStep rfl (by simp [hKills, hTask])
    · cases hStep
    · rename_i task c hTask hUsed
      split at hStep
      · rename_i hRefuses
        exact hDies hStep rfl (hKills.mpr ⟨by simp [hUsed], task, hTask, hRefuses⟩)
      · rename_i hFits
        exact hGoesOn hStep rfl (by simp [hKills, hTask, hFits])
  case h_14 i hWorker =>
    have hKills : s.Kills .worker ↔ s.temporary[i]?.isSome ∧ s.ids.stack.length = idCount := by
      simp only [Kills, hWorker]
    split at hStep
    · rename_i hNone
      exact hGoesOn hStep rfl (by simp [hKills, hNone])
    · rename_i c hTemporary
      split at hStep
      · rename_i hFull
        exact hDies hStep rfl (hKills.mpr ⟨by simp [hTemporary], hFull⟩)
      · rename_i hRoom
        exact hGoesOn hStep rfl (by simp [hKills, hRoom])
  -- at the other places nothing is refused
  all_goals
    rename_i hWorker
    have hNot : ¬ s.Kills .worker := by simp only [Kills, hWorker, not_false_eq_true]
    first
      | exact hGoesOn hStep rfl hNot
      | cases hStep
      | (split at hStep <;> first
          | exact hGoesOn hStep rfl hNot
          | cases hStep
          | (split at hStep <;> first
              | exact hGoesOn hStep rfl hNot
              | cases hStep))

/-- **What a worker dies of**, as far as the processes are concerned. -/
theorem dies_iff_of_step (hAlive : s.alive = true) (hStep : s.step pathEnv a = some s') :
    s'.alive = false ↔ s.Kills a := by
  have hNever : s'.alive = s.alive → ¬ s.Kills a → (s'.alive = false ↔ s.Kills a) := by
    intro hSame hNot
    rw [hSame, hAlive]
    exact iff_of_false (by simp) hNot
  cases hBox : a.box? with
  | some c =>
    have hSame : s'.alive = s.alive := by
      rcases step_of_box hBox hStep with rfl | ⟨p, b, -, rfl⟩ <;> rfl
    cases a with
    | worker | workerSigchld => cases hBox
    | fail p =>
      cases p with
      | worker => cases hBox
      | _ => exact hNever hSame id
    | _ => exact hNever hSame id
  | none =>
    cases a with
    | worker =>
      simp only [step, if_pos hAlive] at hStep
      exact dies_iff_of_workerStep hAlive hStep
    | workerSigchld c =>
      simp only [step, workerSigchld] at hStep
      split at hStep
      · obtain rfl := Option.some.inj hStep
        exact iff_of_true rfl trivial
      · cases hStep
    | fail p =>
      cases p with
      | worker =>
        simp only [step, fail, if_pos hAlive, failWorker] at hStep
        split at hStep
        all_goals first
          | (obtain rfl := Option.some.inj hStep; exact iff_of_true rfl trivial)
          | cases hStep
      | _ => cases hBox
    | accept tasks =>
      simp only [step] at hStep
      split at hStep
      · obtain rfl := Option.some.inj hStep
        exact hNever rfl id
      · cases hStep
    | othersGet =>
      simp only [step] at hStep
      split at hStep
      · cases hStep
      · obtain rfl := Option.some.inj hStep
        exact hNever rfl id
    | othersPut id =>
      simp only [step] at hStep
      split at hStep
      · obtain rfl := Option.some.inj hStep
        exact hNever rfl (fun h => h)
      · cases hStep
    | _ => cases hBox

-- ---------------------------------------------------------------------------
-- The containers
-- ---------------------------------------------------------------------------

/-- The step is one in which a container calls `die`. -/
def Loses (s : Sys) : Act → Prop
  | .fail (.container _) => True
  -- the slave has set error_, and has not exited with 0
  | .containerSigchld c =>
    (s.box c).block.error = true ∧ ∃ status ∈ (s.box c).sigchld, status ≠ .exited 0
  | .readUsage c _ => (s.box c).block.error = true
  | _ => False

instance (s : Sys) (a : Act) : Decidable (s.Loses a) := by
  unfold Loses
  split <;> infer_instance

/-- The container dies in a step that leads to `s'`. -/
def DiesIn (s s' : Sys) (c : BoxId) : Prop := (s'.box c).pc = .died ∧ (s.box c).pc ≠ .died

variable {c : BoxId}

theorem diesIn_setBox {c' : BoxId} {b : Box} (h : s.DiesIn (s.setBox c' b) c) :
    c = c' ∧ b.pc = .died := by
  rcases eq_or_ne c c' with rfl | hNe
  · exact ⟨rfl, by simpa using h.1⟩
  · have hSame := h.1
    rw [setBox_box_ne s b hNe] at hSame
    exact absurd hSame h.2

theorem containerStep_keeps {c' : BoxId} (hStep : s.containerStep c' = some s') :
    ¬ s.DiesIn s' c := by
  intro h
  have hNever : ∀ {b : Box}, s'.box = (s.setBox c' b).box → b.pc ≠ .died → False := by
    intro b hSame hNot
    have hDies : s.DiesIn (s.setBox c' b) c := ⟨hSame ▸ h.1, h.2⟩
    exact hNot (diesIn_setBox hDies).2
  unfold containerStep at hStep
  cases hPc : (s.box c').pc
  all_goals simp only [hPc, reduceCtorEq] at hStep
  case waitForSlave =>
    split at hStep
    · exact hNever (congrArg Sys.box (Option.some.inj hStep)).symm (by simp)
    · cases hStep
  case awaitTask | awaitStart =>
    split at hStep
    · cases hStep
    · exact hNever (congrArg Sys.box (Option.some.inj hStep)).symm (by simp)
  case awaitResults =>
    split at hStep
    · cases hStep
    · refine hNever (congrArg Sys.box (Option.some.inj hStep)).symm ?_
      split <;> simp
  case prepareRoot =>
    refine hNever (congrArg Sys.box (Option.some.inj hStep)).symm ?_
    show (if (s.box c').permanent = true then ContainerAt.disableIpcs else .taskBarrier) ≠ _
    split <;> simp
  all_goals exact hNever (congrArg Sys.box (Option.some.inj hStep)).symm (by simp)

/-- The steps of a slave leave the place of its container. -/
theorem slaveStep_pc {c' : BoxId} (hStep : s.slaveStep pathEnv c' = some s') :
    (s'.box c).pc = (s.box c).pc := by
  have hSetBox : ∀ {b : Box}, s'.box = (s.setBox c' b).box → b.pc = (s.box c').pc →
      (s'.box c).pc = (s.box c).pc := by
    intro b hBox hSame
    rw [hBox]
    rcases eq_or_ne c c' with rfl | hNe
    · rw [setBox_box_self, hSame]
    · rw [setBox_box_ne s b hNe]
  simp only [slaveStep] at hStep
  split at hStep
  · cases hStep
  · rename_i sl hSlave
    cases hPc : sl.pc
    all_goals simp only [hPc, reduceCtorEq] at hStep
    case awaitStart =>
      split at hStep
      · cases hStep
      · exact hSetBox (congrArg Sys.box (Option.some.inj hStep)).symm rfl
    all_goals exact hSetBox (congrArg Sys.box (Option.some.inj hStep)).symm rfl

/-- The worker starts containers, and leaves all others where they are. -/
theorem worked_keeps (h : (s.box c).Worked s c (s'.box c)) : ¬ s.DiesIn s' c := by
  rintro ⟨hDied, hNot⟩
  generalize s'.box c = b' at h hDied
  cases h with
  | started => cases hDied
  | _ => exact hNot hDied

theorem loses_of_diesIn (h : s.DiesIn s' c) (hStep : s.step pathEnv a = some s') :
    s.Loses a ∧ a.box? = some c := by
  have hSetBox : ∀ {c' : BoxId} {b : Box}, some (s.setBox c' b) = some s' → c' = c ∧ b.pc = .died := by
    intro c' b hSome
    obtain rfl := Option.some.inj hSome
    obtain ⟨rfl, hDied⟩ := diesIn_setBox h
    exact ⟨rfl, hDied⟩
  cases a with
  | container c' => exact absurd h (containerStep_keeps hStep)
  | slave c' => exact absurd ((slaveStep_pc hStep).symm.trans h.1) h.2
  | tick c' cpuMs wallMs =>
    simp only [step, tick] at hStep
    split at hStep
    · split at hStep
      · cases (hSetBox hStep).2
      · obtain rfl := Option.some.inj hStep
        exact absurd h.1 h.2
    · cases hStep
  | readUsage c' u =>
    simp only [step, readUsage, Block.setUsage_error] at hStep
    split at hStep
    · obtain ⟨rfl, hDied⟩ := hSetBox hStep
      split at hDied
      · exact ⟨‹_›, rfl⟩
      · cases hDied
    · cases hStep
  | exit c' status =>
    simp only [step, exit] at hStep
    split at hStep
    · obtain ⟨rfl, hDied⟩ := hSetBox hStep
      exact absurd hDied h.2
    · cases hStep
  | containerSigchld c' =>
    simp only [step, containerSigchld] at hStep
    split at hStep
    · cases hStep
    · rename_i status hPending
      split at hStep
      · split at hStep
        · rename_i hDies
          obtain ⟨rfl, -⟩ := hSetBox hStep
          exact ⟨⟨hDies.1, status, hPending, hDies.2⟩, rfl⟩
        · obtain ⟨rfl, hDied⟩ := hSetBox hStep
          exact absurd hDied h.2
      · cases hStep
  | parentDied c' =>
    simp only [step, parentDied] at hStep
    split at hStep
    · cases (hSetBox hStep).2
    · cases hStep
  | fail p =>
    cases p with
    | container c' =>
      simp only [step, fail, failContainer] at hStep
      split at hStep
      all_goals first
        | exact ⟨trivial, congrArg some (hSetBox hStep).1⟩
        | cases hStep
    | slave c' =>
      simp only [step, fail, failSlave] at hStep
      split at hStep
      · cases hStep
      · split at hStep
        all_goals first
          | (obtain ⟨rfl, hDied⟩ := hSetBox hStep
             exact absurd hDied h.2)
          | cases hStep
    | worker => exact absurd h (worked_keeps ((step_turns rfl hStep).worked c))
  | _ => exact absurd h (worked_keeps ((step_turns rfl hStep).worked c))

/-- **What a container dies of**: exactly the steps that `Loses` names. -/
theorem loses_iff_of_step (hStep : s.step pathEnv a = some s') :
    s.Loses a ↔ ∃ c, s.DiesIn s' c := by
  refine ⟨fun hLoses => ?_, fun ⟨c, hDies⟩ => (loses_of_diesIn hDies hStep).1⟩
  unfold Loses at hLoses
  split at hLoses
  · rename_i c
    refine ⟨c, ?_⟩
    simp only [step, fail, failContainer] at hStep
    split at hStep
    all_goals first
      | (obtain rfl := Option.some.inj hStep
         exact ⟨by simp [Box.stop], by assumption⟩)
      | cases hStep
  · rename_i c
    obtain ⟨hError, status, hPending, hStatus⟩ := hLoses
    rw [Option.mem_def] at hPending
    simp only [step, containerSigchld, hPending, hError, hStatus, ne_eq, not_false_eq_true,
      and_self, if_true] at hStep
    split at hStep
    · rename_i hAlive
      obtain rfl := Option.some.inj hStep
      exact ⟨c, by simp [Box.stop], hAlive.2.2.1⟩
    · cases hStep
  · rename_i c u
    simp only [step, readUsage, Block.setUsage_error, hLoses, if_true] at hStep
    split at hStep
    · rename_i hPc
      obtain rfl := Option.some.inj hStep
      exact ⟨c, by simp [Box.stop], by simp [hPc.1]⟩
    · cases hStep
  · exact hLoses.elim

/-- **A container that is about to read** its files goes on by reading them, or ends. -/
theorem reading_of_step (hPc : (s.box c).pc = .readUsage) (hBox : a.box? = some c)
    (hStep : s.step pathEnv a = some s') (hNot : ∀ u, a ≠ .readUsage c u) :
    (s'.box c).pc = .readUsage ∨ (s'.box c).pc = .died ∨ (s'.box c).pc = .killed := by
  have hSetBox : ∀ {b : Box}, some (s.setBox c b) = some s' → (s'.box c).pc = b.pc := by
    rintro b ⟨⟩
    rw [setBox_box_self]
  cases a with
  | container c' =>
    cases hBox
    simp only [step, containerStep, hPc, reduceCtorEq] at hStep
  | tick c' cpuMs wallMs =>
    cases hBox
    simp only [step, tick, hPc, reduceCtorEq, if_false] at hStep
  | readUsage c' u =>
    cases hBox
    exact absurd rfl (hNot u)
  | slave c' => exact .inl ((slaveStep_pc hStep).trans hPc)
  | exit c' status =>
    cases hBox
    simp only [step, exit] at hStep
    split at hStep
    · exact .inl ((hSetBox hStep).trans hPc)
    · cases hStep
  | containerSigchld c' =>
    cases hBox
    simp only [step, containerSigchld] at hStep
    split at hStep
    · cases hStep
    · split at hStep
      · split at hStep
        · exact .inr (.inl (hSetBox hStep))
        · exact .inl ((hSetBox hStep).trans hPc)
      · cases hStep
  | parentDied c' =>
    cases hBox
    simp only [step, parentDied] at hStep
    split at hStep
    · exact .inr (.inr (hSetBox hStep))
    · cases hStep
  | fail p =>
    cases p with
    | container c' =>
      cases hBox
      simp only [step, fail, failContainer, hPc] at hStep
      exact .inr (.inl (hSetBox hStep))
    | slave c' =>
      cases hBox
      simp only [step, fail, failSlave] at hStep
      split at hStep
      · cases hStep
      · split at hStep
        all_goals first
          | exact .inl ((hSetBox hStep).trans hPc)
          | cases hStep
    | worker => cases hBox
  | _ => cases hBox

end Sys

end Libsbox
