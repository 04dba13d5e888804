import Libsbox.Protocol.Rows

/-!
# libsbox — the slave in a step

What a step of the system makes of a slave: its own steps take it to the next call,
and the others leave it, end it, or make it.

## Results

* `slaveStep_slave`, `step_slave` — the slave behind its own step and behind the others;
* `slave_parameters` — its task stays.
-/

namespace Libsbox

open CMemory

/-- What a slave does next, when its calls succeed. -/
def SlaveAt.next : SlaveAt → SlaveAt
  | .startBarrier => .awaitStart
  | .awaitStart => .openFiles
  | .openFiles => .dup2Fds
  | .dup2Fds => .closeAllFds
  | .closeAllFds => .setupRlimits
  | .setupRlimits => .addPath
  | .addPath => .exec
  | .exec => .running
  | .setError => .exitFailure
  | .exitFailure => .zombie .exitFailure
  | .running => .running
  | .zombie status => .zombie status

/-- The slave has died or is about to, or its target has ended. -/
def SlaveAt.Over : SlaveAt → Prop
  | .setError | .exitFailure | .zombie _ => True
  | _ => False

namespace Sys

variable {pathEnv : Option Str} {s s' : Sys} {a : Act} {c c' : BoxId} {sl : Slave}

-- ---------------------------------------------------------------------------
-- The slave in a step
-- ---------------------------------------------------------------------------

theorem slaveStep_slave (hStep : s.slaveStep pathEnv c = some s') :
    ∃ sl, (s.box c).slave = some sl ∧ (s'.box c).slave = some ⟨sl.pc.next, sl.request⟩ := by
  unfold slaveStep at hStep
  cases hSlave : (s.box c).slave with
  | none => simp [hSlave] at hStep
  | some sl =>
    simp only [hSlave] at hStep
    refine ⟨sl, rfl, ?_⟩
    cases hPc : sl.pc <;> simp only [hPc, reduceCtorEq] at hStep
    case awaitStart =>
      split at hStep
      · cases hStep
      · rw [← Option.some.inj hStep, setBox_box_self]
        rfl
    case startBarrier =>
      rw [← Option.some.inj hStep]
      show ((s.setBox c _).box c).slave = _
      rw [setBox_box_self]
      rfl
    all_goals
      rw [← Option.some.inj hStep, setBox_box_self]
      rfl

/-- The slave that a step of its container leaves. -/
theorem containerStep_slave (hStep : s.containerStep c = some s')
    (hSlave : (s'.box c).slave = some sl) :
    (s.box c).slave = some sl ∨ (s.box c).pc = .fork ∧ sl = ⟨.startBarrier, (s.box c).serving⟩ := by
  unfold containerStep at hStep
  cases hPc : (s.box c).pc <;> simp only [hPc, reduceCtorEq] at hStep
  case awaitTask | awaitStart | awaitResults =>
    split at hStep
    · cases hStep
    · rw [← Option.some.inj hStep, setBox_box_self] at hSlave
      exact .inl hSlave
  case fork =>
    rw [← Option.some.inj hStep, setBox_box_self] at hSlave
    exact .inr ⟨rfl, (Option.some.inj hSlave).symm⟩
  case waitForSlave =>
    split at hStep
    · rename_i hZombie
      rw [← Option.some.inj hStep, setBox_box_self] at hSlave
      simp [Box.killAll, hZombie] at hSlave
    · cases hStep
  case startBarrier =>
    rw [← Option.some.inj hStep] at hSlave
    change ((s.setBox c _).box c).slave = some sl at hSlave
    rw [setBox_box_self] at hSlave
    exact .inl hSlave
  all_goals
    rw [← Option.some.inj hStep, setBox_box_self] at hSlave
    exact .inl hSlave

theorem killAll_slave (b : Box) : b.killAll.slave = none := by
  obtain ⟨sigchld, hEq⟩ := b.killAll_eq
  rw [hEq]

/-- A failing call leaves no slave, or one that is over. -/
theorem fail_slave {p : Proc} (hBox : (Act.fail p).box? = some c)
    (hStep : s.step pathEnv (.fail p) = some s') (hSlave : (s'.box c).slave = some sl) :
    sl.pc.Over := by
  cases p with
  | worker => cases hBox
  | container n =>
    cases hBox
    simp only [step, fail, failContainer] at hStep
    split at hStep
    all_goals first
      | exact absurd hStep (Option.some_ne_none _).symm
      | (rw [← Option.some.inj hStep, setBox_box_self] at hSlave
         cases hSlave)
  | slave n =>
    cases hBox
    simp only [step, fail, failSlave] at hStep
    split at hStep
    · cases hStep
    · split at hStep
      all_goals first
        | exact absurd hStep (Option.some_ne_none _).symm
        | (rw [← Option.some.inj hStep, setBox_box_self] at hSlave
           rw [← Option.some.inj hSlave]
           trivial)

/-- The slave behind a step of its container, of a handler or of the kernel. -/
theorem boxStep_slave (hBox : a.box? = some c) (hNot : a ≠ .slave c)
    (hStep : s.step pathEnv a = some s') (hSlave : (s'.box c).slave = some sl) :
    (s.box c).slave = some sl ∨ sl.pc.Over ∨
      a = .container c ∧ (s.box c).pc = .fork ∧ sl = ⟨.startBarrier, (s.box c).serving⟩ := by
  cases a with
  | container n =>
    cases hBox
    rcases containerStep_slave hStep hSlave with hOld | hFork
    · exact .inl hOld
    · exact .inr (.inr ⟨rfl, hFork⟩)
  | slave n =>
    cases hBox
    exact absurd rfl hNot
  | tick n cpuMs wallMs =>
    cases hBox
    simp only [step, tick] at hStep
    split at hStep
    · split at hStep
      · rw [← Option.some.inj hStep, setBox_box_self] at hSlave
        change ((s.box c).killAll).slave = some sl at hSlave
        rw [killAll_slave] at hSlave
        cases hSlave
      · rw [← Option.some.inj hStep] at hSlave
        exact .inl hSlave
    · cases hStep
  | readUsage n u =>
    cases hBox
    simp only [step, readUsage] at hStep
    split at hStep
    · rw [← Option.some.inj hStep, setBox_box_self] at hSlave
      split at hSlave
      · cases hSlave
      · exact .inl hSlave
    · cases hStep
  | exit n status =>
    cases hBox
    simp only [step, exit] at hStep
    split at hStep
    · rw [← Option.some.inj hStep, setBox_box_self] at hSlave
      rw [← Option.some.inj hSlave]
      exact .inr (.inl trivial)
    · cases hStep
  | containerSigchld n =>
    cases hBox
    simp only [step, containerSigchld] at hStep
    split at hStep
    · cases hStep
    · split at hStep
      · split at hStep
        · rw [← Option.some.inj hStep, setBox_box_self] at hSlave
          cases hSlave
        · rw [← Option.some.inj hStep, setBox_box_self] at hSlave
          exact .inl hSlave
      · cases hStep
  | parentDied n =>
    cases hBox
    simp only [step, parentDied] at hStep
    split at hStep
    · rw [← Option.some.inj hStep, setBox_box_self] at hSlave
      cases hSlave
    · cases hStep
  | fail p => exact .inr (.inl (fail_slave hBox hStep hSlave))
  | _ => cases hBox

/-- **The slave behind a step that is not its own.** -/
theorem step_slave (hNot : a ≠ .slave c) (hStep : s.step pathEnv a = some s')
    (hSlave : (s'.box c).slave = some sl) :
    (s.box c).slave = some sl ∨ sl.pc.Over ∨
      a = .container c ∧ (s.box c).pc = .fork ∧ sl = ⟨.startBarrier, (s.box c).serving⟩ := by
  cases hBox : a.box? with
  | none =>
    have hWorked := (step_turns hBox hStep).worked c
    generalize s'.box c = b at hWorked hSlave
    cases hWorked with
    | started => cases hSlave
    | kept | called | written => exact .inl hSlave
  | some c' =>
    rcases eq_or_ne c c' with rfl | hNe
    · exact boxStep_slave hBox hNot hStep hSlave
    · rcases step_of_box hBox hStep with rfl | ⟨p, b, -, rfl⟩
      · exact .inl hSlave
      · change ((s.setBox c' b).box c).slave = some sl at hSlave
        rw [setBox_box_ne s b hNe] at hSlave
        exact .inl hSlave

/-- The worker has called a container with a slave, and has not seen its results. -/
theorem view_of_slave (hInv : s.Inv) (hSlave : (s.box c).slave = some sl) {v : View}
    (hSees : s.Sees s.view c v) :
    v.Open ∨ v = .serving true ∨ v = .asked := by
  have hFits := hInv.boxes c v hSees
  have hServing : (s.box c).Serving := by
    rcases hFits.slave.pc_of_some hSlave with hPc | hPc | hPc <;> simp [Box.Serving, hPc]
  rcases hFits.seated.of_serving hServing with hStarting | hRunning
  · exact .inl hStarting.1
  · rcases hRunning with ⟨hView, -⟩ | ⟨hView, -⟩
    · exact .inr (.inl hView)
    · exact .inr (.inr hView)

/-- It is a container of the request. -/
theorem used_of_slave (hInv : s.Inv) (hSlave : (s.box c).slave = some sl) :
    ∃ j : Nat, s.containers[j]? = some c := by
  obtain ⟨v, hSees⟩ := s.sees_total s.view c
  have hView := view_of_slave hInv hSlave hSees
  cases hSees with
  | @used j hUsed => exact ⟨j, hUsed⟩
  | _ => simp [View.Open] at hView

theorem slave_born (hInv : s.Inv) (hSlave : (s.box c).slave = some sl) : c < s.started := by
  obtain ⟨j, hUsed⟩ := used_of_slave hInv hSlave
  exact hInv.roster.born c (hInv.roster.within c (List.mem_of_getElem? hUsed))

/-- `set_task` is not called for it. -/
theorem slave_unwritten (hInv : s.Inv) (hSlave : (s.box c).slave = some sl) {i : Nat}
    (hWorker : s.worker = .writeTasks i) (hUsed : s.containers[i]? = some c) : False := by
  have hView := view_of_slave hInv hSlave (.used hUsed)
  simp [view, hWorker, WorkerAt.view, View.Open] at hView

/-- The task of a slave stays. -/
theorem slave_parameters (hInv : s.Inv) (hStep : s.step pathEnv a = some s')
    (hSlave : (s.box c).slave = some sl) :
    (s'.box c).block.task.parameters = (s.box c).block.task.parameters := by
  rcases step_box hStep c with ⟨p, hMoves⟩ | hWorked
  · exact hMoves.parameters_eq
  · have hBorn := slave_born hInv hSlave
    generalize s'.box c = b at hWorked
    cases hWorked with
    | kept | called => rfl
    | written hWorker _ hUsed => exact (slave_unwritten hInv hSlave hWorker hUsed).elim
    | started _ _ _ hNew => exact absurd hNew (Nat.ne_of_lt hBorn)

end Sys

end Libsbox
