import Libsbox.Model.System

/-!
# libsbox — verdicts

`Container::wait_for_slave` as one call: the timer interrupts `waitpid` any number of
times, and the loop ends either at a tick that finds a limit exceeded or with the wait
status of the slave. The limits are judged twice, at the ticks and behind the loop, on
readings of different moments.

## Results

* `tick_waitLoop`, `reap_waitLoop`, `readUsage_block` — the steps of a container in its
  loop are those of the call;
* `waitForSlave_consistent` — what the result fields say after the call.
-/

namespace Libsbox

open CMemory

/-- What a tick finds, as far as the loop asks for it. -/
structure Tick where
  cpuMs : Int64
  wallMs : Int64

namespace Block

variable {k : Nat} {b b' : Block} {ticks : List Tick} {status : Option WaitStatus} {u : Usage}

/-- The loop of `Container::wait_for_slave`. It has no result while `waitpid` has not
returned the slave and no tick has found a limit exceeded. -/
def waitLoop (request : Nat) (b : Block) : List Tick → Option WaitStatus → Option Block
  | [], none => none
  | [], some status => some (b.setStatus request status)
  | tick :: ticks, status =>
    if b.limitExceeded tick.cpuMs tick.wallMs then some b else waitLoop request b ticks status

/-- `Container::wait_for_slave`. -/
def waitForSlave (request : Nat) (b : Block) (ticks : List Tick) (status : Option WaitStatus)
    (u : Usage) : Option (Except Halt Block) :=
  (b.waitLoop request ticks status).map fun b =>
    let b := b.setUsage request u
    if b.error then .error (.die (lit "Slave exited with error")) else .ok b

-- ---------------------------------------------------------------------------
-- The loop
-- ---------------------------------------------------------------------------

/-- How the loop ends: with a status behind ticks that find nothing, or at a tick. -/
theorem waitLoop_cases (h : b.waitLoop k ticks status = some b') :
    (∃ st, status = some st ∧ b' = b.setStatus k st) ∨
      (b' = b ∧ ∃ tick ∈ ticks, b.limitExceeded tick.cpuMs tick.wallMs = true) := by
  induction ticks with
  | nil =>
    cases status with
    | none => cases h
    | some st => exact .inl ⟨st, rfl, (Option.some.inj h).symm⟩
  | cons tick ticks ih =>
    rw [waitLoop] at h
    split at h
    · rename_i hExceeded
      exact .inr ⟨(Option.some.inj h).symm, tick, List.mem_cons_self, hExceeded⟩
    · rcases ih h with hStatus | ⟨rfl, tick', hMem, hExceeded⟩
      · exact .inl hStatus
      · exact .inr ⟨rfl, tick', List.mem_cons_of_mem _ hMem, hExceeded⟩

/-- The loop ends with a status, or at a tick that finds a limit exceeded. -/
theorem waitLoop_isSome
    (hEnds : status.isSome ∨ ∃ tick ∈ ticks, b.limitExceeded tick.cpuMs tick.wallMs = true) :
    ∃ m, b.waitLoop k ticks status = some m := by
  induction ticks with
  | nil =>
    rcases hEnds with hStatus | ⟨tick, hMem, -⟩
    · obtain ⟨st, rfl⟩ := Option.isSome_iff_exists.mp hStatus
      exact ⟨_, rfl⟩
    · cases hMem
  | cons tick ticks ih =>
    rw [waitLoop]
    split
    · exact ⟨b, rfl⟩
    · rename_i hWithin
      refine ih (hEnds.imp id ?_)
      rintro ⟨tick', hMem, hExceeded⟩
      rcases List.mem_cons.mp hMem with rfl | hMem
      · exact absurd hExceeded hWithin
      · exact ⟨tick', hMem, hExceeded⟩

/-- A tick that finds a limit exceeded keeps the status out of the loop's result. -/
theorem waitLoop_of_exceeded {tick : Tick} (hMem : tick ∈ ticks)
    (hExceeded : b.limitExceeded tick.cpuMs tick.wallMs = true) :
    b.waitLoop k ticks status = some b := by
  induction ticks with
  | nil => cases hMem
  | cons tick' ticks ih =>
    rw [waitLoop]
    split
    · rfl
    · rename_i hWithin
      rcases List.mem_cons.mp hMem with rfl | hMem
      · exact absurd hExceeded hWithin
      · exact ih hMem

-- ---------------------------------------------------------------------------
-- The readings behind the loop
-- ---------------------------------------------------------------------------

/-- What `setUsage` makes of the fields that the claims of a verdict are about. -/
theorem setUsage_task (k : Nat) (u : Usage) (b : Block) :
    (b.setUsage k u).task = { b.task with
      timeUsageMs := u.timeUsageMs
      timeUsageSysMs := u.timeUsageSysMs
      timeUsageUserMs := u.timeUsageUserMs
      wallTimeUsageMs := u.wallTimeUsageMs
      memoryUsageKb := u.memoryUsageKb
      oomKilled := u.oomKilled
      memoryLimitHit := u.memoryLimitHit
      timeLimitExceeded := if b.task.timeLimitMs ≠ -1 then
        decide (u.timeUsageMs > b.task.timeLimitMs) else b.task.timeLimitExceeded
      wallTimeLimitExceeded := if b.task.wallTimeLimitMs ≠ -1 then
        decide (u.wallTimeUsageMs > b.task.wallTimeLimitMs) else b.task.wallTimeLimitExceeded } := by
  unfold setUsage checkTimeLimit checkWallTimeLimit
  split <;> split <;> simp_all [putUsage, wrote]

end Block

/-- The readings of the CPU usage and of the wall clock, those behind the loop
included, never decrease. -/
def NeverDecrease (ticks : List Tick) (u : Usage) : Prop :=
  (ticks.map Tick.cpuMs ++ [u.timeUsageMs]).Pairwise (· ≤ ·) ∧
    (ticks.map Tick.wallMs ++ [u.wallTimeUsageMs]).Pairwise (· ≤ ·)

theorem NeverDecrease.le {ticks : List Tick} {u : Usage} (h : NeverDecrease ticks u) {tick : Tick}
    (hMem : tick ∈ ticks) : tick.cpuMs ≤ u.timeUsageMs ∧ tick.wallMs ≤ u.wallTimeUsageMs := by
  obtain ⟨hCpu, hWall⟩ := h
  rw [List.pairwise_append] at hCpu hWall
  exact ⟨hCpu.2.2 _ (List.mem_map_of_mem hMem) _ (List.mem_singleton_self _),
    hWall.2.2 _ (List.mem_map_of_mem hMem) _ (List.mem_singleton_self _)⟩

namespace Task

/-- The slave has exited with the code of the status. -/
def ExitedBy (status : Option WaitStatus) (t : Task) : Prop :=
  t.exited = true ∧ status = some (.exited t.exitCode) ∧ t.signaled = false ∧ t.termSignal = -1

/-- The slave was ended by the signal of the status. -/
def SignaledBy (status : Option WaitStatus) (t : Task) : Prop :=
  t.signaled = true ∧ status = some (.signaled t.termSignal) ∧ t.exited = false ∧ t.exitCode = -1

/-- The slave ran into a limit. -/
def Limited (t : Task) : Prop :=
  t.exited = false ∧ t.signaled = false ∧ t.exitCode = -1 ∧ t.termSignal = -1 ∧
    (t.timeLimitExceeded = true ∨ t.wallTimeLimitExceeded = true)

/-- The result fields of a task agree with each other, with the limits and with the
status. -/
structure Consistent (status : Option WaitStatus) (t : Task) : Prop where
  time : t.timeLimitExceeded = true ↔ t.timeLimitMs ≠ -1 ∧ t.timeUsageMs > t.timeLimitMs
  wallTime : t.wallTimeLimitExceeded = true ↔
    t.wallTimeLimitMs ≠ -1 ∧ t.wallTimeUsageMs > t.wallTimeLimitMs
  one : t.ExitedBy status ∧ ¬ t.SignaledBy status ∧ ¬ t.Limited ∨
    ¬ t.ExitedBy status ∧ t.SignaledBy status ∧ ¬ t.Limited ∨
    ¬ t.ExitedBy status ∧ ¬ t.SignaledBy status ∧ t.Limited

end Task

namespace Block

variable {k : Nat} {b b' : Block} {ticks : List Tick} {status : Option WaitStatus} {u : Usage}
variable {task : Task}

/-- The limits, judged behind the loop on a block whose flags `set_task` has cleared. -/
theorem setUsage_limits (hTime : b.task.timeLimitExceeded = false)
    (hWall : b.task.wallTimeLimitExceeded = false) :
    let t := (b.setUsage k u).task
    (t.timeLimitExceeded = true ↔ t.timeLimitMs ≠ -1 ∧ t.timeUsageMs > t.timeLimitMs) ∧
      (t.wallTimeLimitExceeded = true ↔
        t.wallTimeLimitMs ≠ -1 ∧ t.wallTimeUsageMs > t.wallTimeLimitMs) := by
  intro t
  have ht : t = (b.setUsage k u).task := rfl
  rw [setUsage_task] at ht
  rw [ht]
  constructor
  · by_cases hLimit : b.task.timeLimitMs = -1
    · simp [hLimit, hTime]
    · simp [hLimit]
  · by_cases hLimit : b.task.wallTimeLimitMs = -1
    · simp [hLimit, hWall]
    · simp [hLimit]

/-- A limit that a tick has found exceeded is still exceeded behind the loop. -/
theorem setUsage_exceeded {tick : Tick} (hCpu : tick.cpuMs ≤ u.timeUsageMs)
    (hWall : tick.wallMs ≤ u.wallTimeUsageMs)
    (hExceeded : b.limitExceeded tick.cpuMs tick.wallMs = true) :
    (b.setUsage k u).task.timeLimitExceeded = true ∨
      (b.setUsage k u).task.wallTimeLimitExceeded = true := by
  rw [setUsage_task]
  rcases Bool.or_eq_true_iff.mp hExceeded with hTime | hTime
  · obtain ⟨hLimit, hLt⟩ := (Bool.and_eq_true_iff.mp hTime).imp of_decide_eq_true of_decide_eq_true
    left
    have hStill : u.timeUsageMs > b.task.timeLimitMs := Int64.lt_of_lt_of_le hLt hCpu
    simp [hLimit, hStill]
  · obtain ⟨hLimit, hLt⟩ := (Bool.and_eq_true_iff.mp hTime).imp of_decide_eq_true of_decide_eq_true
    right
    have hStill : u.wallTimeUsageMs > b.task.wallTimeLimitMs := Int64.lt_of_lt_of_le hLt hWall
    simp [hLimit, hStill]

/-- The fields behind a loop that has ended with a status. -/
theorem consistent_of_status {st : WaitStatus} (hTask : b.task = (setTask k task).task) :
    ((b.setStatus k st).setUsage k u).task.Consistent (some st) ∧
      ¬ ((b.setStatus k st).setUsage k u).task.Limited := by
  have hLimits := setUsage_limits (k := k) (u := u) (b := b.setStatus k st)
    (by cases st <;> simp [setStatus, wrote, hTask, setTask])
    (by cases st <;> simp [setStatus, wrote, hTask, setTask])
  cases st with
  | exited code =>
    refine ⟨⟨hLimits.1, hLimits.2, .inl ?_⟩, ?_⟩ <;>
      simp [setUsage_task, setStatus, wrote, hTask, setTask, Task.ExitedBy, Task.SignaledBy,
        Task.Limited]
  | signaled signal =>
    refine ⟨⟨hLimits.1, hLimits.2, .inr (.inl ?_)⟩, ?_⟩ <;>
      simp [setUsage_task, setStatus, wrote, hTask, setTask, Task.ExitedBy, Task.SignaledBy,
        Task.Limited]

/-- The fields behind a loop that a tick has ended: `set_task` has cleared what no
status has written since. -/
theorem consistent_of_tick {tick : Tick} (hTask : b.task = (setTask k task).task)
    (hCpu : tick.cpuMs ≤ u.timeUsageMs) (hWall : tick.wallMs ≤ u.wallTimeUsageMs)
    (hExceeded : b.limitExceeded tick.cpuMs tick.wallMs = true) :
    (b.setUsage k u).task.Consistent status ∧ (b.setUsage k u).task.Limited := by
  have hLimits := setUsage_limits (k := k) (u := u) (b := b) (by rw [hTask]; rfl)
    (by rw [hTask]; rfl)
  have hFlag := setUsage_exceeded (k := k) hCpu hWall hExceeded
  have hExited : (b.setUsage k u).task.exited = false := by rw [setUsage_task, hTask]; rfl
  have hSignaled : (b.setUsage k u).task.signaled = false := by rw [setUsage_task, hTask]; rfl
  have hCode : (b.setUsage k u).task.exitCode = -1 := by rw [setUsage_task, hTask]; rfl
  have hSignal : (b.setUsage k u).task.termSignal = -1 := by rw [setUsage_task, hTask]; rfl
  have hLimited : (b.setUsage k u).task.Limited := ⟨hExited, hSignaled, hCode, hSignal, hFlag⟩
  refine ⟨⟨hLimits.1, hLimits.2, .inr (.inr ⟨fun h => ?_, fun h => ?_, hLimited⟩)⟩, hLimited⟩
  · rw [h.1] at hExited
    cases hExited
  · rw [h.1] at hSignaled
    cases hSignaled

/-- **Verdicts are consistent.** The block is as `set_task` has left it, apart from what
the slave writes, which is no field of the task. Where the loop ends, by a status or by
a tick, and the slave has set no error, the call returns and its fields agree; where the
slave has set one, the container dies behind them. -/
theorem waitForSlave_consistent (hTask : b.task = (setTask k task).task)
    (hReadings : NeverDecrease ticks u)
    (hEnds : status.isSome ∨ ∃ tick ∈ ticks, b.limitExceeded tick.cpuMs tick.wallMs = true) :
    (b.error = true →
      b.waitForSlave k ticks status u = some (.error (.die (lit "Slave exited with error")))) ∧
    (b.error = false →
      ∃ b', b.waitForSlave k ticks status u = some (.ok b') ∧ b'.task.Consistent status ∧
        (b'.task.Limited ↔
          ∃ tick ∈ ticks, b.limitExceeded tick.cpuMs tick.wallMs = true)) := by
  obtain ⟨m, hLoop⟩ := waitLoop_isSome (k := k) hEnds
  have hCall : b.waitForSlave k ticks status u = some
      (if (m.setUsage k u).error then .error (.die (lit "Slave exited with error"))
        else .ok (m.setUsage k u)) := by
    rw [waitForSlave, hLoop]
    rfl
  have hError : (m.setUsage k u).error = b.error := by
    rw [setUsage_error]
    rcases waitLoop_cases hLoop with ⟨st, -, rfl⟩ | ⟨rfl, -⟩
    · cases st <;> rfl
    · rfl
  rw [hCall, hError]
  refine ⟨fun hSet => by rw [if_pos hSet], fun hClear => ⟨m.setUsage k u, ?_, ?_⟩⟩
  · rw [hClear]
    rfl
  by_cases hTick : ∃ tick ∈ ticks, b.limitExceeded tick.cpuMs tick.wallMs = true
  · -- a tick has ended the loop, whatever `waitpid` would have returned later
    obtain ⟨tick, hMem, hExceeded⟩ := hTick
    obtain rfl := Option.some.inj (hLoop.symm.trans (waitLoop_of_exceeded hMem hExceeded))
    obtain ⟨hCpu, hWall⟩ := hReadings.le hMem
    obtain ⟨hConsistent, hLimited⟩ :=
      @consistent_of_tick k _ status u task tick hTask hCpu hWall hExceeded
    exact ⟨hConsistent, iff_of_true hLimited ⟨tick, hMem, hExceeded⟩⟩
  · rcases waitLoop_cases hLoop with ⟨st, rfl, rfl⟩ | ⟨-, hFound⟩
    · obtain ⟨hConsistent, hNot⟩ := @consistent_of_status k _ u task st hTask
      exact ⟨hConsistent, iff_of_false hNot hTick⟩
    · exact absurd hFound hTick

/-- A task with a time limit of 100 ms, twice: the slave exits with 3 after a tick within
the limit, or the second tick finds the limit exceeded. -/
theorem waitForSlave_consistent_both :
    (∃ b', ({ (setTask 1 { timeLimitMs := 100 }) with error := false } : Block).waitForSlave 1
        [⟨10, 12⟩] (some (.exited 3)) ⟨40, 5, 35, 60, 300, false, false⟩ = some (.ok b') ∧
      b'.task.exitCode = 3 ∧ b'.task.Consistent (some (.exited 3)) ∧ ¬ b'.task.Limited) ∧
    (∃ b', ({ (setTask 1 { timeLimitMs := 100 }) with error := false } : Block).waitForSlave 1
        [⟨10, 12⟩, ⟨120, 130⟩] none ⟨125, 5, 120, 140, 300, false, false⟩ = some (.ok b') ∧
      b'.task.Consistent none ∧ b'.task.Limited) := by
  have hTask : ({ (setTask 1 { timeLimitMs := 100 }) with error := false } : Block).task =
    (setTask 1 { timeLimitMs := 100 }).task := rfl
  constructor
  · have hReadings : NeverDecrease [⟨10, 12⟩] ⟨40, 5, 35, 60, 300, false, false⟩ := by
      constructor <;> decide
    obtain ⟨b', hCall, hConsistent, hLimited⟩ :=
      @waitForSlave_consistent 1 _ _ (some (.exited 3)) _ _ hTask hReadings (.inl rfl) |>.2 rfl
    refine ⟨b', hCall, ?_, hConsistent, fun h => ?_⟩
    · obtain rfl := Except.ok.inj (Option.some.inj hCall)
      rfl
    · obtain ⟨tick, hMem, hExceeded⟩ := hLimited.mp h
      obtain rfl := List.mem_singleton.mp hMem
      exact absurd hExceeded (by decide)
  · have hReadings : NeverDecrease [⟨10, 12⟩, ⟨120, 130⟩] ⟨125, 5, 120, 140, 300, false, false⟩ := by
      constructor <;> decide
    have hTick : ∃ tick ∈ [(⟨10, 12⟩ : Tick), ⟨120, 130⟩],
        ({ (setTask 1 { timeLimitMs := 100 }) with error := false } : Block).limitExceeded
          tick.cpuMs tick.wallMs = true := ⟨⟨120, 130⟩, by simp, by decide⟩
    obtain ⟨b', hCall, hConsistent, hLimited⟩ :=
      (waitForSlave_consistent hTask hReadings (.inr hTick)).2 rfl
    exact ⟨b', hCall, hConsistent, hLimited.mpr hTick⟩

end Block

namespace Sys

variable {s s' : Sys} {c : BoxId} {ticks : List Tick} {status : Option WaitStatus}

/-- A tick is one round of the loop. -/
theorem tick_waitLoop (k : Nat) {t : Tick} (h : s.tick c t.cpuMs t.wallMs = some s') :
    (s' = s ∧ (s.box c).block.waitLoop k (t :: ticks) status =
      (s.box c).block.waitLoop k ticks status) ∨
    ((s'.box c).pc = .readUsage ∧
      (s.box c).block.waitLoop k (t :: ticks) status = some (s'.box c).block) := by
  simp only [Sys.tick] at h
  rw [Block.waitLoop]
  split at h
  · split at h
    · rename_i hExceeded
      obtain rfl := Option.some.inj h
      rw [if_pos hExceeded, setBox_box_self]
      refine .inr ⟨rfl, congrArg some ?_⟩
      unfold Box.killAll
      split <;> rfl
    · rename_i hExceeded
      rw [if_neg hExceeded]
      exact .inl ⟨(Option.some.inj h).symm, rfl⟩
  · cases h

/-- The return of `waitpid` ends the loop. -/
theorem reap_waitLoop {st : WaitStatus} {request : Nat} (hPc : (s.box c).pc = .waitForSlave)
    (hSlave : (s.box c).slave = some ⟨.zombie st, request⟩) (h : s.containerStep c = some s') :
    (s'.box c).pc = .readUsage ∧ (s.box c).block.waitLoop (s.box c).serving [] (some st) =
      some (s'.box c).block := by
  simp only [containerStep, hPc, hSlave] at h
  obtain rfl := Option.some.inj h
  rw [setBox_box_self]
  exact ⟨rfl, rfl⟩

/-- What follows the loop. The container dies where the call does. -/
theorem readUsage_block {u : Usage} (h : s.readUsage c u = some s') :
    (s'.box c).block = (s.box c).block.setUsage (s.box c).serving u ∧
      ((s'.box c).pc = .died ↔ (s.box c).block.error = true) := by
  simp only [readUsage] at h
  split at h
  · obtain rfl := Option.some.inj h
    rw [setBox_box_self]
    rw [Block.setUsage_error]
    split
    · rename_i hSet
      exact ⟨rfl, by simp [Box.stop, hSet]⟩
    · rename_i hClear
      exact ⟨rfl, by simp [hClear]⟩
  · cases h

end Sys

end Libsbox
