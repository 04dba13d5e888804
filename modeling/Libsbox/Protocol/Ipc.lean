import Libsbox.Protocol.Rows

/-!
# libsbox — who disables ipcs

`Container::prepare` runs `disable_ipcs` for a permanent container and for no other,
before the container comes to its task barrier for the first time. Which task gets a
permanent container is decided by `prepare_containers`, which also looks at
`use_standard_binds`.

## Results

* `ipcsDisabled_iff` — a container that runs a task has disabled ipcs exactly when the
  task is one for a permanent container;
* `ipcsFollow_iff` — for which tasks that agrees with `need_ipc`.
-/

namespace Libsbox

open CMemory Runs

/-- A container disables ipcs on its way to its first task barrier, if it is a permanent
one. -/
def Box.Prepared (b : Box) : Prop :=
  match b.pc with
  | .unborn | .prepare | .prepareRoot => b.ipcsDisabled = false
  | .disableIpcs => b.ipcsDisabled = false ∧ b.permanent = true
  | .exited | .died | .killed => True
  | _ => b.ipcsDisabled = b.permanent

variable {pathEnv : Option Str} {s s' : Sys} {a : Act} {c : BoxId} {b b' : Box} {p : Option Party}

theorem Box.Prepared.congr (h : b.Prepared) (hPc : b'.pc = b.pc)
    (hIpcs : b'.ipcsDisabled = b.ipcsDisabled) (hPermanent : b'.permanent = b.permanent) :
    b'.Prepared := by
  rw [Prepared, hPc, hIpcs, hPermanent]
  exact h

theorem Box.Prepared.move (h : b.Prepared) (hMoves : b.Moves pathEnv s c p b') : b'.Prepared := by
  have hOld := h
  unfold Prepared at h
  cases hMoves with
  | sigchldDies | slaveError | fails | parentDied => trivial
  | sigchldReturns | slaveArrives | slaveStarts | slaveGoesOn | slaveExits | slaveFails
  | slaveSetsError | slaveDies => exact hOld.congr rfl rfl rfl
  | prepareRoot hPc =>
    rw [hPc] at h
    cases hPermanent : b.permanent with
    | true => exact ⟨h, rfl⟩
    | false => exact h
  | disableIpcs hPc =>
    rw [hPc] at h
    exact h.2.symm
  | awaitResults hPc =>
    rw [hPc] at h
    cases hPermanent : b.permanent with
    | true => exact h.trans hPermanent
    | false => exact h.trans hPermanent
  | goOn hPc =>
    generalize hFrom : b.pc = pc at hPc
    rw [hFrom] at h
    cases hPc with
    | exit => trivial
    | _ => exact h
  | prepare hPc | taskBarrier hPc | awaitTask hPc | fork hPc | startBarrier hPc | awaitStart hPc
  | reap hPc | timeout hPc | readUsage _ hPc | resultsBarrier hPc =>
    rw [hPc] at h
    exact h

theorem Box.Prepared.worked (h : b.Prepared) (hWorked : b.Worked s c b') : b'.Prepared := by
  cases hWorked with
  | kept => exact h
  | called | written => exact h.congr rfl rfl rfl
  | started => rfl

/-- A container with a slave is behind `prepare`. -/
theorem Box.Prepared.of_slave {v : View} {sl : Slave} (h : b.Prepared) (hHas : b.HasSlave v)
    (hSlave : b.slave = some sl) : b.ipcsDisabled = b.permanent := by
  unfold Prepared at h
  rcases hHas.pc_of_some hSlave with hPc | hPc | hPc
  all_goals
    rw [hPc] at h
    exact h

namespace Sys

theorem prepared_of_reachable {firstUid : Uid}
    (hReach : Reachable (step pathEnv) (initial firstUid) s) : ∀ c, (s.box c).Prepared := by
  refine invariant_of_reachable (I := fun s => ∀ c, (s.box c).Prepared)
    (fun s a s' h hStep c => ?_) (fun c => rfl) hReach
  rcases step_box hStep c with ⟨p, hMoves⟩ | hWorked
  · exact (h c).move hMoves
  · exact (h c).worked hWorked

/-- The container `c` runs `task`, the `j`-th of the request: its slave is there. -/
def RunsTask (s : Sys) (j : Nat) (c : BoxId) (task : Task) : Prop :=
  s.Row j c task ∧ (s.box c).slave.isSome = true

/-- A container that runs a task has disabled ipcs exactly when it is permanent, and it
is permanent exactly when the task needs no ipc and has the standard binds. -/
theorem ipcsDisabled_iff {firstUid : Uid} {j : Nat} {task : Task}
    (hReach : Reachable (step pathEnv) (initial firstUid) s) (hRuns : s.RunsTask j c task) :
    (s.box c).ipcsDisabled = true ↔ task.needIpc = false ∧ task.useStandardBinds = true := by
  obtain ⟨hInv, hRows⟩ := rows_of_reachable hReach
  obtain ⟨hRow, hSome⟩ := hRuns
  obtain ⟨sl, hSlave⟩ := Option.isSome_iff_exists.mp hSome
  have hHas := (hInv.boxes c _ (.used hRow.1)).slave
  rw [(prepared_of_reachable hReach c).of_slave hHas hSlave, hRows.chosen j c task hRow,
    permanentAllowed, Bool.not_eq_true', Bool.or_eq_false_iff, Bool.not_eq_false']

/-- **Ipc isolation follows the task** if and only if the task needs ipc or has the
standard binds. -/
theorem ipcsFollow_iff {firstUid : Uid} {j : Nat} {task : Task}
    (hReach : Reachable (step pathEnv) (initial firstUid) s) (hRuns : s.RunsTask j c task) :
    ((s.box c).ipcsDisabled = true ↔ task.needIpc = false) ↔
      (task.needIpc = true ∨ task.useStandardBinds = true) := by
  rw [ipcsDisabled_iff hReach hRuns]
  cases task.needIpc <;> cases task.useStandardBinds <;> decide

/-- A request of one task, up to the fork of its slave; `n` is the number of steps that
the container makes. -/
def forkRun (task : Task) (n : Nat) : List Act :=
  .accept [task] :: List.replicate 7 .worker ++ List.replicate n (.container 0)

/-- A new task gets a container without ipcs. -/
theorem ipcsFollow_of_forkRun :
    ∃ s, run (step none) (initial 1000) (forkRun { argv := [lit "true"] } 8) = some s ∧
      (((s.box 0).ipcsDisabled = true ↔ false = false) ↔ (false = true ∨ true = true)) := by
  obtain ⟨s, hRun⟩ : ∃ s, run (step none) (initial 1000) (forkRun { argv := [lit "true"] } 8) =
    some s := Option.isSome_iff_exists.mp rfl
  have hUsed : s.containers[0]? = some 0 := of_run_map (f := fun s => s.containers[0]?) rfl hRun
  have hTask : s.tasks[0]? = some { argv := [lit "true"] } :=
    of_run_map (f := fun s => s.tasks[0]?) rfl hRun
  have hSlave : (s.box 0).slave.isSome = true :=
    of_run_map (f := fun s => (s.box 0).slave.isSome) rfl hRun
  exact ⟨s, hRun, ipcsFollow_iff ⟨_, hRun⟩ ⟨⟨hUsed, hTask⟩, hSlave⟩⟩

/-- A task that needs no ipc and no standard binds. -/
def bareTask : Task where
  argv := [lit "true"]
  needIpc := false
  useStandardBinds := false

/-- Its container is a temporary one and keeps the ipcs. -/
theorem ipcsFollow_refuted :
    ¬ ∀ s j c task, Reachable (step none) (initial 1000) s → s.RunsTask j c task →
      ((s.box c).ipcsDisabled = true ↔ task.needIpc = false) := by
  intro hClaim
  obtain ⟨s, hRun⟩ : ∃ s, run (step none) (initial 1000) (forkRun bareTask 7) = some s :=
    Option.isSome_iff_exists.mp rfl
  have hUsed : s.containers[0]? = some 0 := of_run_map (f := fun s => s.containers[0]?) rfl hRun
  have hTask : s.tasks[0]? = some bareTask := of_run_map (f := fun s => s.tasks[0]?) rfl hRun
  have hSlave : (s.box 0).slave.isSome = true :=
    of_run_map (f := fun s => (s.box 0).slave.isSome) rfl hRun
  have hDisabled := (hClaim s 0 0 bareTask ⟨_, hRun⟩ ⟨⟨hUsed, hTask⟩, hSlave⟩).mpr rfl
  have hKept : (s.box 0).ipcsDisabled = false := of_run_map (f := fun s => (s.box 0).ipcsDisabled)
    rfl hRun
  rw [hKept] at hDisabled
  cases hDisabled

end Sys

end Libsbox
