import Libsbox.Protocol.StartBarrier

/-!
# libsbox — who has written the fields of a block

`set_task` fills the shared block of a container before the task barrier. Behind the
start barrier the slave changes what is for its own use, and `wait_for_slave` puts the
results in. `Box.Stamped` says for each view and each place of the container who has
written its fields.

## Results

* `Stamped.move`, `Stamped.turns` — the moves of a container and the steps of the
  worker keep that;
* `marked_of_reachable` — it holds of all containers in every reachable state.
-/

namespace Libsbox

open CMemory Runs

/-- What `put_results` reads. -/
def Field.isResult : Field → Bool
  | .timeUsageMs | .timeUsageSysMs | .timeUsageUserMs | .wallTimeUsageMs | .memoryUsageKb
  | .timeLimitExceeded | .wallTimeLimitExceeded | .exited | .exitCode | .signaled | .termSignal
  | .oomKilled | .memoryLimitHit => true
  | _ => false

/-- What a slave writes for its own use. -/
def Field.isSlaves : Field → Bool
  | .stdinFd | .stdoutFd | .stderrFd | .env => true
  | _ => false

/-- What `set_task` hands over for good. -/
def Field.isParameter (f : Field) : Bool := !f.isResult && !f.isSlaves && f != .error

namespace Block

/-- The results that `wait_for_slave` has written by the end of its loop. -/
def endReports (b : Block) : Field → Bool
  | .exited | .exitCode => b.task.exited
  | .signaled | .termSignal => b.task.signaled
  | _ => false

/-- The results that `wait_for_slave` has written when it returns. -/
def reports (b : Block) : Field → Bool
  | .exited | .exitCode => b.task.exited
  | .signaled | .termSignal => b.task.signaled
  | .timeLimitExceeded => b.task.timeLimitMs ≠ -1
  | .wallTimeLimitExceeded => b.task.wallTimeLimitMs ≠ -1
  | f => f.isResult

/-- Nobody has written since `set_task`, but to `error`. -/
structure Fresh (k : Nat) (b : Block) : Prop where
  last : ∀ f, f ≠ .error → b.last f = .setTask k
  exited : b.task.exited = false
  signaled : b.task.signaled = false

/-- The parameters. -/
def Handed (k : Nat) (b : Block) : Prop := ∀ f, f.isParameter → b.last f = .setTask k

/-- What the slave has written is `fields`. -/
def Updated (k : Nat) (fields : List Field) (b : Block) : Prop :=
  ∀ f, f.isSlaves → b.last f = if f ∈ fields then .slave k else .setTask k

/-- The results before the end of the slave. -/
structure Unrun (k : Nat) (b : Block) : Prop where
  last : ∀ f, f.isResult → b.last f = .setTask k
  exited : b.task.exited = false
  signaled : b.task.signaled = false

/-- The results behind the loop of `wait_for_slave`. -/
def Ended (k : Nat) (b : Block) : Prop :=
  ∀ f, f.isResult → b.last f = bif b.endReports f then .waitForSlave k else .setTask k

/-- The results when `wait_for_slave` has returned. -/
def Reported (k : Nat) (b : Block) : Prop :=
  ∀ f, f.isResult → b.last f = bif b.reports f then .waitForSlave k else .setTask k

variable {k : Nat} {b : Block} {w : Write} {fields : List Field}

theorem fresh_setTask (k : Nat) (task : Task) : (setTask k task).Fresh k :=
  ⟨fun _ _ => rfl, rfl, rfl⟩

theorem Fresh.handed (h : b.Fresh k) : b.Handed k := by
  intro f hf
  refine h.last f ?_
  rintro rfl
  cases hf

theorem Fresh.updated (h : b.Fresh k) : b.Updated k [] := by
  intro f hf
  refine h.last f ?_
  rintro rfl
  cases hf

theorem Fresh.unrun (h : b.Fresh k) : b.Unrun k := by
  refine ⟨fun f hf => h.last f ?_, h.exited, h.signaled⟩
  rintro rfl
  cases hf

/-- A write leaves the other fields alone. -/
theorem wrote_last_of_not_mem {f : Field} (h : f ∉ fields) : (b.wrote w fields).last f = b.last f :=
  if_neg h

theorem wrote_last_of_mem {f : Field} (h : f ∈ fields) : (b.wrote w fields).last f = w :=
  if_pos h

theorem isSlaves_of_openedFds {task : Task} {f : Field} (h : f ∈ openedFds task) :
    f.isSlaves = true := by
  unfold openedFds at h
  grind [Field.isSlaves]

/-- A write of the slave for its own use. -/
theorem Updated.wrote {fields' : List Field} (h : b.Updated k fields) :
    (b.wrote (.slave k) fields').Updated k (fields ++ fields') := by
  intro f hf
  by_cases hNew : f ∈ fields'
  · simp [wrote_last_of_mem hNew, hNew]
  · simp [wrote_last_of_not_mem hNew, hNew, h f hf]

/-- The flag of the slave is not handed over. -/
theorem last_error {f : Field} (hf : f ≠ .error) (w : Write) (error : Bool) (b : Block) :
    ({ b with error }.wrote w [.error]).last f = b.last f :=
  wrote_last_of_not_mem (by simpa using hf)

theorem Fresh.error (h : b.Fresh k) (w : Write) (error : Bool) :
    ({ b with error }.wrote w [.error]).Fresh k :=
  ⟨fun f hf => (last_error hf w error b).trans (h.last f hf), h.exited, h.signaled⟩

theorem Handed.error (h : b.Handed k) (w : Write) (error : Bool) :
    ({ b with error }.wrote w [.error]).Handed k := by
  intro f hf
  refine (last_error ?_ w error b).trans (h f hf)
  rintro rfl
  cases hf

theorem Updated.error (h : b.Updated k fields) (w : Write) (error : Bool) :
    ({ b with error }.wrote w [.error]).Updated k fields := by
  intro f hf
  refine (last_error ?_ w error b).trans (h f hf)
  rintro rfl
  cases hf

theorem Unrun.error (h : b.Unrun k) (w : Write) (error : Bool) :
    ({ b with error }.wrote w [.error]).Unrun k := by
  refine ⟨fun f hf => (last_error ?_ w error b).trans (h.last f hf), h.exited, h.signaled⟩
  rintro rfl
  cases hf

theorem Handed.wrote (h : b.Handed k) (w : Write) (hFields : ∀ f ∈ fields, f.isSlaves = true) :
    (b.wrote w fields).Handed k := by
  intro f hf
  refine (wrote_last_of_not_mem fun hIn => ?_).trans (h f hf)
  simp [Field.isParameter, hFields f hIn] at hf

theorem Unrun.wrote (h : b.Unrun k) (w : Write) (hFields : ∀ f ∈ fields, f.isSlaves = true) :
    (b.wrote w fields).Unrun k := by
  refine ⟨fun f hf => (wrote_last_of_not_mem fun hIn => ?_).trans (h.last f hf), h.exited,
    h.signaled⟩
  have hSlaves := hFields f hIn
  cases f <;> simp [Field.isResult, Field.isSlaves] at hf hSlaves

theorem Handed.setStatus (h : b.Handed k) (k' : Nat) (status : WaitStatus) :
    (b.setStatus k' status).Handed k := by
  intro f hf
  rw [← h f hf]
  cases status <;> refine wrote_last_of_not_mem fun hIn => ?_ <;>
    simp only [List.mem_cons, List.not_mem_nil, or_false] at hIn <;> rcases hIn with rfl | rfl <;>
    cases hf

theorem Unrun.setStatus (h : b.Unrun k) (status : WaitStatus) :
    (b.setStatus k status).Ended k := by
  obtain ⟨hLast, hExited, hSignaled⟩ := h
  intro f hf
  have hOld := hLast f hf
  cases status <;> cases f <;> simp_all [Block.setStatus, Block.wrote, endReports]

theorem Unrun.ended (h : b.Unrun k) : b.Ended k := by
  obtain ⟨hLast, hExited, hSignaled⟩ := h
  intro f hf
  have hOld := hLast f hf
  cases f <;> simp_all [endReports]

@[simp] theorem putUsage_last (k : Nat) (u : Usage) (b : Block) (f : Field) :
    (b.putUsage k u).last f = if f ∈ usageFields then .waitForSlave k else b.last f := rfl

theorem checkTimeLimit_last (k : Nat) (b : Block) (f : Field) :
    (b.checkTimeLimit k).last f =
      if f = .timeLimitExceeded ∧ b.task.timeLimitMs ≠ -1 then .waitForSlave k else b.last f := by
  unfold checkTimeLimit
  split <;> simp [wrote, *]

theorem checkWallTimeLimit_last (k : Nat) (b : Block) (f : Field) :
    (b.checkWallTimeLimit k).last f =
      if f = .wallTimeLimitExceeded ∧ b.task.wallTimeLimitMs ≠ -1 then .waitForSlave k
      else b.last f := by
  unfold checkWallTimeLimit
  split <;> simp [wrote, *]

/-- The fields that say what `wait_for_slave` reports. -/
theorem reports_congr {b' : Block} (hExited : b'.task.exited = b.task.exited)
    (hSignaled : b'.task.signaled = b.task.signaled)
    (hTime : b'.task.timeLimitMs = b.task.timeLimitMs)
    (hWall : b'.task.wallTimeLimitMs = b.task.wallTimeLimitMs) : b'.reports = b.reports := by
  funext f
  cases f <;> simp only [reports, hExited, hSignaled, hTime, hWall]

theorem checkTimeLimit_reports (k : Nat) (b : Block) :
    (b.checkTimeLimit k).reports = b.reports := by
  unfold checkTimeLimit
  split
  · exact reports_congr rfl rfl rfl rfl
  · rfl

theorem checkWallTimeLimit_reports (k : Nat) (b : Block) :
    (b.checkWallTimeLimit k).reports = b.reports := by
  unfold checkWallTimeLimit
  split
  · exact reports_congr rfl rfl rfl rfl
  · rfl

/-- `wait_for_slave` changes none of them. -/
theorem setUsage_reports (k : Nat) (u : Usage) (b : Block) :
    (b.setUsage k u).reports = b.reports := by
  rw [setUsage, checkWallTimeLimit_reports, checkTimeLimit_reports]
  exact reports_congr rfl rfl rfl rfl

/-- Who has written the fields when `wait_for_slave` returns. -/
theorem setUsage_last (k : Nat) (u : Usage) (b : Block) (f : Field) :
    (b.setUsage k u).last f =
      if f = .wallTimeLimitExceeded ∧ b.task.wallTimeLimitMs ≠ -1 then .waitForSlave k
      else if f = .timeLimitExceeded ∧ b.task.timeLimitMs ≠ -1 then .waitForSlave k
      else if f ∈ usageFields then .waitForSlave k
      else b.last f := by
  have hWall : ((b.putUsage k u).checkTimeLimit k).task.wallTimeLimitMs = b.task.wallTimeLimitMs := by
    unfold checkTimeLimit
    split <;> rfl
  have hTime : (b.putUsage k u).task.timeLimitMs = b.task.timeLimitMs := rfl
  rw [setUsage, checkWallTimeLimit_last, checkTimeLimit_last, putUsage_last, hWall, hTime]

theorem setUsage_last_of_not_isResult (k : Nat) (u : Usage) (b : Block) {f : Field}
    (hf : f.isResult = false) : (b.setUsage k u).last f = b.last f := by
  rw [setUsage_last]
  cases f <;> simp [Field.isResult, usageFields] at hf ⊢

theorem Handed.setUsage (h : b.Handed k) (k' : Nat) (u : Usage) :
    (b.setUsage k' u).Handed k := by
  intro f hf
  refine (setUsage_last_of_not_isResult k' u b ?_).trans (h f hf)
  simp only [Field.isParameter, Bool.and_eq_true, Bool.not_eq_true'] at hf
  exact hf.1.1

theorem Ended.setUsage (h : b.Ended k) (u : Usage) : (b.setUsage k u).Reported k := by
  intro f hf
  have hOld := h f hf
  rw [setUsage_reports, setUsage_last]
  cases f <;> simp_all [usageFields, reports, endReports, Field.isResult]

end Block

/-- The start barrier has let go, and the request is not over. -/
def View.Behind (v : View) : Prop := v = .serving true ∨ v = .asked ∨ v = .done

/-- What a slave has written before it comes to this place. One that has failed or
ended is asked no more. -/
def SlaveAt.updated (pathEnv : Option Str) (task : Task) : SlaveAt → Option (List Field)
  | .startBarrier | .awaitStart | .openFiles => some []
  | .dup2Fds | .closeAllFds | .setupRlimits | .addPath => some (Block.openedFds task)
  | .exec | .running =>
    some (Block.openedFds task ++ if Block.addsPath pathEnv task then [.env] else [])
  | .setError | .exitFailure | .zombie _ => none

/-- A slave on its way writes what is its own. -/
theorem SlaveAt.Precedes.isSlaves {pathEnv : Option Str} {task : Task} {pc pc' : SlaveAt}
    {fields : List Field} (h : SlaveAt.Precedes pathEnv task pc pc' fields) :
    ∀ f ∈ fields, f.isSlaves = true := by
  cases h with
  | openFiles => exact fun f hf => Block.isSlaves_of_openedFds hf
  | _ => simp [Field.isSlaves]

/-- A slave on its way has written what it writes now and what it had written before. -/
theorem SlaveAt.Precedes.updated {pathEnv : Option Str} {task : Task} {pc pc' : SlaveAt}
    {fields : List Field} (h : SlaveAt.Precedes pathEnv task pc pc' fields) :
    ∃ old, pc.updated pathEnv task = some old ∧ pc'.updated pathEnv task = some (old ++ fields) := by
  cases h <;> simp_all [SlaveAt.updated]

namespace Box

/-- `wait_for_slave` has returned for this request. -/
def Reported (v : View) (b : Box) : Prop :=
  b.pc ≠ .killed ∧
    (b.pc = .umountBinds ∨ b.pc = .resultsBarrier ∨ v = .serving true ∧ b.pc = .awaitResults ∨
      v = .asked ∧ .worker ∉ b.barrier.waiting ∨ v = .done)

/-- Who has written the fields of the block of a container. -/
structure Stamped (pathEnv : Option Str) (k : Nat) (v : View) (b : Box) : Prop where
  fresh : v = .free true ∨ v.Open → b.block.Fresh k
  handed : v.Behind → b.block.Handed k
  updated : v.Behind → ∀ sl, b.slave = some sl →
    ∀ fields, sl.pc.updated pathEnv b.block.task = some fields → b.block.Updated k fields
  unrun : v.Behind → b.pc = .awaitStart ∨ b.pc = .waitForSlave → b.block.Unrun k
  ended : b.pc = .readUsage → b.block.Ended k
  reported : b.Reported v → b.block.Reported k

variable {pathEnv : Option Str} {s : Sys} {k : Nat} {waiting : List Party} {v : View} {c : BoxId}
  {b b' : Box} {p : Option Party}

attribute [local grind] View.Open View.Behind Uncalled Starting Running Finished Waiting Seated
  Serving SlaveStarting HasSlave stop slaveEnds Alive ContainerAt.CanFail SlaveAt.CanFail
  Barrier.arrive Box.Reported SlaveAt.updated

attribute [local grind cases] ContainerAt.Precedes SlaveAt.Precedes

/-- The step of a slave up to its target happens behind the start barrier. -/
theorem Fits.slave_behind (h : b.Fits k waiting v c) {sl : Slave} (hSlave : b.slave = some sl)
    (hPc : sl.pc ≠ .startBarrier) (hPc' : sl.pc ≠ .awaitStart)
    (hDies : sl.pc ≠ .setError ∧ sl.pc ≠ .exitFailure) (hZombie : ∀ status, sl.pc ≠ .zombie status) :
    b.Running v ∧ sl.request = k := by
  have hSeated := h.seated
  have hHas := h.slave
  have hServing := h.serving
  rcases hHas.pc_of_some hSlave with hBox | hBox | hBox <;> grind

theorem Stamped.fresh_move (h : b.Stamped pathEnv s.request v)
    (hFits : b.Fits s.request s.start.waiting v c) (hMoves : b.Moves pathEnv s c p b')
    (hView : v = .free true ∨ v.Open) : b'.block.Fresh s.request := by
  have hFresh := h.fresh hView
  have hSeated := hFits.seated
  cases hMoves with
  | reap hPc | readUsage u hPc | slaveError u hPc => grind
  | slaveGoesOn hSlave hPc =>
    have hRunning := (hFits.slave_behind hSlave (by grind) (by grind) (by grind) (by grind)).1
    grind
  | slaveStarts | slaveSetsError => exact hFresh.error ..
  | _ => exact hFresh

theorem Stamped.handed_move (h : b.Stamped pathEnv s.request v)
    (hMoves : b.Moves pathEnv s c p b') (hView : v.Behind) : b'.block.Handed s.request := by
  have hHanded := h.handed hView
  cases hMoves with
  | reap => exact hHanded.setStatus _ _
  | readUsage | slaveError => exact hHanded.setUsage _ _
  | slaveGoesOn hSlave hPc => exact hHanded.wrote _ hPc.isSlaves
  | slaveStarts | slaveSetsError => exact hHanded.error _ _
  | _ => exact hHanded

theorem Stamped.updated_move (h : b.Stamped pathEnv s.request v)
    (hFits : b.Fits s.request s.start.waiting v c) (hMoves : b.Moves pathEnv s c p b')
    (hView : v.Behind) {sl : Slave} (hSlave' : b'.slave = some sl) {fields : List Field}
    (hFields : sl.pc.updated pathEnv b'.block.task = some fields) :
    b'.block.Updated s.request fields := by
  have hUpdated := h.updated hView
  have hSeated := hFits.seated
  cases hMoves with
  | fork hPc => grind
  | slaveArrives hSlave hPc =>
    cases hSlave'
    cases hFields
    exact hUpdated _ hSlave _ (by rw [hPc]; rfl)
  | slaveStarts hSlave hPc =>
    cases hSlave'
    cases hFields
    exact (hUpdated _ hSlave _ (by rw [hPc]; rfl)).error _ _
  | slaveGoesOn hSlave hPc =>
    cases hSlave'
    have hRequest := (hFits.slave_behind hSlave (by grind) (by grind) (by grind) (by grind)).2
    obtain ⟨old, hOld, hNew⟩ := hPc.updated
    obtain rfl := Option.some.inj (hNew.symm.trans hFields)
    rw [hRequest]
    exact (hUpdated _ hSlave _ hOld).wrote
  | slaveExits | slaveFails | slaveSetsError | slaveDies =>
    cases hSlave'
    cases hFields
  | reap | timeout | sigchldDies | fails | parentDied | slaveError => cases hSlave'
  | readUsage u hPc =>
    have hHas := hFits.slave
    grind
  | _ => exact hUpdated _ hSlave' _ hFields

theorem Stamped.unrun_move (h : b.Stamped pathEnv s.request v)
    (hFits : b.Fits s.request s.start.waiting v c) (hMoves : b.Moves pathEnv s c p b')
    (hView : v.Behind) (hPc' : b'.pc = .awaitStart ∨ b'.pc = .waitForSlave) :
    b'.block.Unrun s.request := by
  have hUnrun := h.unrun hView
  have hSeated := hFits.seated
  cases hMoves with
  | slaveGoesOn hSlave hPc => exact (hUnrun hPc').wrote _ hPc.isSlaves
  | slaveStarts | slaveSetsError => exact (hUnrun hPc').error _ _
  | startBarrier hPc => grind
  | awaitStart hPc => exact hUnrun (.inl hPc)
  | sigchldReturns | slaveArrives | slaveExits | slaveFails | slaveDies => exact hUnrun hPc'
  | _ => grind

theorem Stamped.ended_move (h : b.Stamped pathEnv s.request v)
    (hFits : b.Fits s.request s.start.waiting v c) (hMoves : b.Moves pathEnv s c p b')
    (hPc' : b'.pc = .readUsage) : b'.block.Ended s.request := by
  have hEnded := h.ended
  have hSeated := hFits.seated
  have hHas := hFits.slave
  have hUnrun : b.pc = .waitForSlave → b.block.Unrun s.request ∧ b.serving = s.request := by
    intro hPc
    exact ⟨h.unrun (by grind) (.inr hPc), hFits.serving (by grind)⟩
  cases hMoves with
  | reap hPc =>
    rw [(hUnrun hPc).2]
    exact (hUnrun hPc).1.setStatus _
  | timeout hPc => exact (hUnrun hPc).1.ended
  | sigchldReturns => exact hEnded hPc'
  | _ => grind

theorem Stamped.reported_move (h : b.Stamped pathEnv s.request v)
    (hFits : b.Fits s.request s.start.waiting v c) (hMoves : b.Moves pathEnv s c p b')
    (hReported : b'.Reported v) : b'.block.Reported s.request := by
  have hOld := h.reported
  have hSeated := hFits.seated
  have hHas := hFits.slave
  cases hMoves with
  | readUsage u hPc =>
    rw [hFits.serving (by grind)]
    exact (h.ended hPc).setUsage u
  | slaveError u hPc => grind
  | slaveStarts | slaveGoesOn | slaveSetsError | reap => grind
  | _ => exact hOld (by grind)

/-- **A move keeps the stamps.** -/
theorem Stamped.move (h : b.Stamped pathEnv s.request v)
    (hFits : b.Fits s.request s.start.waiting v c) (hMoves : b.Moves pathEnv s c p b') :
    b'.Stamped pathEnv s.request v where
  fresh := h.fresh_move hFits hMoves
  handed := h.handed_move hMoves
  updated := fun hView _ hSlave _ hFields => h.updated_move hFits hMoves hView hSlave hFields
  unrun := h.unrun_move hFits hMoves
  ended := h.ended_move hFits hMoves
  reported := h.reported_move hFits hMoves

-- ---------------------------------------------------------------------------
-- The steps of the worker
-- ---------------------------------------------------------------------------

/-- Where no request is under way, nothing is said. -/
theorem Fits.stamped_idle {k' : Nat} (hFits : b.Fits k waiting v c)
    (hView : v = .free false ∨ v = .gone ∨ v = .unborn) : b.Stamped pathEnv k' v := by
  have hSeated := hFits.seated
  constructor <;> grind

/-- The start barrier lets go. -/
theorem Stamped.released (h : b.Stamped pathEnv k (.serving false))
    (hFits : b.Fits k waiting (.serving false) c) : b.Stamped pathEnv k (.serving true) := by
  have hFresh := h.fresh (.inr (.inr rfl))
  have hSeated := hFits.seated
  have hHas := hFits.slave
  refine ⟨by grind, fun _ => hFresh.handed, fun _ sl hSlave fields hFields => ?_,
    fun _ _ => hFresh.unrun, by grind, by grind⟩
  have hNone : fields = [] := by
    rcases hHas.pc_of_some hSlave with hPc | hPc | hPc <;> grind
  exact hNone ▸ hFresh.updated

end Box

/-- What a step of the worker makes of its view of a container of the request, and of
the container. -/
inductive View.Turns (k : Nat) : View → Box → View → Box → Prop where
  | same {v : View} {b : Box} : Turns k v b v b
  | write {b : Box} (task : Task) :
    Turns k (.free false) b (.free true) { b with block := Block.setTask k task }
  | call {b : Box} : Turns k (.free true) b .called { b with barrier := b.barrier.arrive .worker }
  | answered {b : Box} (hFree : .worker ∉ b.barrier.waiting) :
    Turns k .called b (.serving false) b
  | released {b : Box} : Turns k (.serving false) b (.serving true) b
  | ask {b : Box} :
    Turns k (.serving true) b .asked { b with barrier := b.barrier.arrive .worker }
  | told {b : Box} (hFree : .worker ∉ b.barrier.waiting) : Turns k .asked b .done b

namespace Box

variable {pathEnv : Option Str} {k : Nat} {waiting : List Party} {v v' : View} {c : BoxId}
  {b b' : Box}

attribute [local grind] View.Open View.Behind Uncalled Starting Running Finished Waiting Seated
  Barrier.arrive Box.Reported

/-- **A step of the worker keeps the stamps.** -/
theorem Stamped.turns (h : b.Stamped pathEnv k v) (hFits : b.Fits k waiting v c)
    (hTurns : View.Turns k v b v' b') : b'.Stamped pathEnv k v' := by
  have hSeated := hFits.seated
  have hCount := hFits.count
  obtain ⟨hFresh, hHanded, hUpdated, hUnrun, hEnded, hReported⟩ := h
  cases hTurns with
  | same => exact ⟨hFresh, hHanded, hUpdated, hUnrun, hEnded, hReported⟩
  | write task =>
    refine ⟨fun _ => Block.fresh_setTask k task, ?_, ?_, ?_, ?_, ?_⟩ <;> grind
  | released => exact Stamped.released ⟨hFresh, hHanded, hUpdated, hUnrun, hEnded, hReported⟩ hFits
  | call | answered | ask | told => constructor <;> grind

end Box

namespace Sys

variable {pathEnv : Option Str} {s s' : Sys} {a : Act} {c : BoxId} {v : View}

theorem turns_same {j : Nat} (hView : s'.view j = s.view j) (hBox : s'.box c = s.box c) :
    View.Turns s.request (s.view j) (s.box c) (s'.view j) (s'.box c) := by
  rw [hView, hBox]
  exact .same

/-- The worker goes on with `containers_[i]`, and with no other container. -/
theorem Inv.turns_at (h : s.Inv) {i j : Nat} {ci : BoxId} {b : Box} {w : WorkerAt}
    (hi : s.containers[i]? = some ci) (hj : s.containers[j]? = some c)
    (hOthers : j ≠ i → w.view s.released j = s.view j)
    (hTurns : View.Turns s.request (s.view i) (s.box ci) (w.view s.released i) b) :
    View.Turns s.request (s.view j) (s.box c) (w.view s.released j) ((s.setBox ci b).box c) := by
  rcases eq_or_ne j i with rfl | hNe
  · obtain rfl := Option.some.inj (hi.symm.trans hj)
    rwa [setBox_box_self]
  · have hBox : c ≠ ci := by
      rintro rfl
      obtain ⟨hLt, hGet⟩ := List.getElem?_eq_some_iff.mp hi
      obtain ⟨hLt', hGet'⟩ := List.getElem?_eq_some_iff.mp hj
      exact hNe (h.roster.distinct.getElem_inj_iff.mp (hGet'.trans hGet.symm))
    rw [hOthers hNe, setBox_box_ne _ _ hBox]
    exact .same

theorem view_preparing {i next : Nat} (hWorker : s.worker = .prepareContainers i next) (j : Nat) :
    s.view j = .free false := by
  simp [view, WorkerAt.view, hWorker]

theorem view_starting {i next : Nat} {id : Uid} (hWorker : s.worker = .startContainer i next id)
    (j : Nat) : s.view j = .free false := by
  simp [view, WorkerAt.view, hWorker]

/-- The new container is none of those that the worker has. -/
theorem Inv.newContainer_box_used (h : s.Inv) {j : Nat} (hj : s.containers[j]? = some c) (id : Uid)
    (task : Task) : (s.newContainer id task).box c = s.box c := by
  have hOld := h.roster.born c (h.roster.within c (List.mem_of_getElem? hj))
  exact newContainer_box_ne s id task (Nat.ne_of_lt hOld)

/-- **What a step that only goes on makes of the views.** -/
theorem GoesOn.turns (h : s.Inv) {w : WorkerAt} (hGoesOn : s.GoesOn s.worker w) {j : Nat}
    (hj : s.containers[j]? = some c) :
    View.Turns s.request (s.view j) (s.box c) (w.view s.released j) (s.box c) := by
  have hLt := (List.getElem?_eq_some_iff.mp hj).1
  have hPlace := h.place
  unfold PlaceOk at hPlace
  generalize hWorker : s.worker = w₀ at hGoesOn
  have hSame : w.view s.released j = s.view j →
      View.Turns s.request (s.view j) (s.box c) (w.view s.released j) (s.box c) := by
    intro hView
    rw [hView]
    exact .same
  cases hGoesOn with
  | prepared => exact hSame (view_preparing hWorker j).symm
  | @written i hTask =>
    simp only [hWorker] at hPlace
    have hWritten : j < i := by
      have := List.getElem?_eq_none_iff.mp hTask
      omega
    exact hSame (by simp [view, WorkerAt.view, hWorker, hWritten])
  | @called i hUsed =>
    have hPassed : j < i := by
      have := List.getElem?_eq_none_iff.mp hUsed
      omega
    exact hSame (by simp [view, WorkerAt.view, hWorker, hPassed])
  | @awaitTask i ci hi hFree =>
    have hTurns := h.turns_at (w := .taskBarrier (i + 1)) (b := s.box ci) hi hj ?_ ?_
    · rwa [setBox_box_same] at hTurns
    · intro hNe
      have hSame : j < i + 1 ↔ j < i := by omega
      simp [view, WorkerAt.view, hWorker, hNe, hSame]
    · simpa [view, WorkerAt.view, hWorker] using View.Turns.answered hFree
  | awaitStart hFree => exact hSame (by simp [view, WorkerAt.view, hWorker, released, hFree])
  | closePipes => exact hSame (by simp [view, WorkerAt.view, hWorker])
  | @asked i hTask =>
    simp only [hWorker] at hPlace
    have hPassed : j < i := by
      have := List.getElem?_eq_none_iff.mp hTask
      omega
    exact hSame (by simp [view, WorkerAt.view, hWorker, hPassed])
  | @awaitResults i ci hi hFree =>
    have hTurns := h.turns_at (w := .putResults i) (b := s.box ci) hi hj ?_ ?_
    · rwa [setBox_box_same] at hTurns
    · intro hNe
      have hSame : j ≤ i ↔ j < i := by omega
      simp [view, WorkerAt.view, hWorker, hNe, hSame]
    · simpa [view, WorkerAt.view, hWorker] using View.Turns.told hFree
  | waitpid => exact hSame (by simp [view, WorkerAt.view, hWorker])

/-- **What a step of the worker makes of the views.** -/
theorem WorkerMoves.turns (hMoves : s.WorkerMoves s') (h : s.Inv) {j : Nat}
    (hj : s.containers[j]? = some c) (hj' : s'.containers[j]? = some c) :
    View.Turns s.request (s.view j) (s.box c) (s'.view j) (s'.box c) := by
  cases hMoves with
  | dies => exact turns_same rfl rfl
  | goesOn hGoesOn => exact hGoesOn.turns h hj
  | reuses hWorker => exact turns_same (view_preparing hWorker j).symm rfl
  | getsId hWorker => exact turns_same (view_preparing hWorker j).symm rfl
  | startsPermanent hWorker =>
    exact turns_same (view_starting hWorker j).symm (h.newContainer_box_used hj ..)
  | startsTemporary hWorker =>
    exact turns_same (view_starting hWorker j).symm (h.newContainer_box_used hj ..)
  | resets hWorker => exact turns_same (by simp [view, WorkerAt.view, hWorker]) rfl
  | @writes i task ci hWorker hTask hi =>
    refine h.turns_at (w := .writeTasks (i + 1)) hi hj (fun hNe => ?_) ?_
    · have hSame : j < i + 1 ↔ j < i := by omega
      simp [view, WorkerAt.view, hWorker, hSame]
    · simpa [view, WorkerAt.view, hWorker] using View.Turns.write task
  | @calls i ci hWorker hi =>
    refine h.turns_at (w := .awaitTask i) hi hj (fun hNe => ?_) ?_
    · simp [view, WorkerAt.view, hWorker, hNe]
    · simpa [view, WorkerAt.view, hWorker] using View.Turns.call
  | arrives hWorker =>
    have hOld : s.view j = .serving false := by simp [view, WorkerAt.view, hWorker]
    rw [hOld, view_of_awaitStart rfl]
    generalize released _ = r
    cases r with
    | false => exact .same
    | true => exact .released
  | @asks i task ci hWorker hTask hi =>
    refine h.turns_at (w := .awaitResults i) hi hj (fun hNe => ?_) ?_
    · simp [view, WorkerAt.view, hWorker, hNe]
    · simpa [view, WorkerAt.view, hWorker] using View.Turns.ask
  | @puts i task ci hWorker =>
    have hSame : j < i + 1 ↔ j ≤ i := by omega
    exact turns_same (by simp [view, WorkerAt.view, hWorker, hSame]) rfl
  | putsId hWorker => exact turns_same (by simp [view, WorkerAt.view, hWorker]) rfl
  | answers => simp at hj'

theorem WorkerMoves.request_eq (h : s.WorkerMoves s') : s'.request = s.request := by
  cases h <;> rfl

/-- The worker changes its list of containers only where no request is under way. -/
theorem WorkerMoves.containers_cases (h : s.WorkerMoves s') :
    s'.containers = s.containers ∨ s'.containers = [] ∨ s'.view = fun _ => .free false := by
  cases h with
  | reuses | startsPermanent | startsTemporary => exact .inr (.inr rfl)
  | answers => exact .inr (.inl rfl)
  | _ => exact .inl rfl

/-- A container whose worker has no request under way has an idle view. -/
theorem Sees.idle (hSees : s.Sees s.view c v)
    (hView : c ∉ s.containers ∨ s.view = fun _ => .free false) :
    v = .free false ∨ v = .gone ∨ v = .unborn := by
  cases hSees with
  | used hUsed =>
    rcases hView with hFree | hView
    · exact absurd (List.mem_of_getElem? hUsed) hFree
    · exact .inl (congrFun hView _)
  | spare => exact .inl rfl
  | gone => exact .inr (.inl rfl)
  | unborn => exact .inr (.inr rfl)

/-- **The stamps of all containers.** -/
def Marked (pathEnv : Option Str) (s : Sys) : Prop :=
  ∀ c v, s.Sees s.view c v → (s.box c).Stamped pathEnv s.request v

theorem Marked.workerMoves (h : s.Marked pathEnv) (hInv : s.Inv) (hInv' : s'.Inv)
    (hMoves : s.WorkerMoves s') : s'.Marked pathEnv := by
  intro c v hSees
  have hFits := hInv'.boxes c v hSees
  by_cases hIdle : c ∉ s'.containers ∨ s'.view = fun _ => .free false
  · exact hFits.stamped_idle (hSees.idle hIdle)
  · push Not at hIdle
    cases hSees with
    | @used j hUsed =>
      have hUsed' : s.containers[j]? = some c := by
        rcases hMoves.containers_cases with hSame | hEmpty | hView
        · exact hSame ▸ hUsed
        · simp [hEmpty] at hUsed
        · exact absurd hView hIdle.2
      rw [hMoves.request_eq]
      exact (h c _ (.used hUsed')).turns (hInv.boxes c _ (.used hUsed'))
        (hMoves.turns hInv hUsed' hUsed)
    | spare _ hFree => exact absurd hIdle.1 hFree
    | gone _ _ hFree => exact absurd hIdle.1 hFree
    | unborn => exact hFits.stamped_idle (.inr (.inr rfl))

/-- What a move makes of the views. -/
theorem moveBox_view {p : Option Party} {b : Box} (hMoves : (s.box c).Moves pathEnv s c p b) :
    (s.moveBox c p b).view = s.view ∨
      (s.view = fun _ => .serving false) ∧ (s.moveBox c p b).view = fun _ => .serving true := by
  by_cases hPlace : s.worker = .awaitStart
  · rw [view_of_awaitStart hPlace, view_of_awaitStart (s := s.moveBox c p b) hPlace]
    cases hOld : s.released <;> cases hNew : (s.moveBox c p b).released
    · exact .inl rfl
    · exact .inr ⟨rfl, rfl⟩
    · -- nobody comes to the barrier as the worker
      exfalso
      refine of_decide_eq_true hOld ?_
      have hIn : s.workerParty ∈ (s.moveBox c p b).start.waiting :=
        not_not.mp (of_decide_eq_false hNew)
      cases p with
      | none => exact hIn
      | some p =>
        refine (Barrier.mem_waiting_of_arrive hIn).resolve_right ?_
        rintro rfl
        generalize hEq : some s.workerParty = p at hMoves
        cases hMoves <;> simp [workerParty, containerParty, slaveParty] at hEq
    · exact .inl rfl
  · refine .inl (funext fun j => ?_)
    change s.worker.view _ j = s.worker.view _ j
    cases hWorker : s.worker <;> first | rfl | exact absurd hWorker hPlace

theorem Inv.fits_moved (h : s.Inv) {p : Option Party} {b : Box}
    (hMoves : (s.box c).Moves pathEnv s c p b) (hSees : s.Sees s.view c v) :
    ∃ waiting, b.Fits s.request waiting v c := by
  have hFits := h.boxes c v hSees
  cases p with
  | none => exact ⟨_, hFits.move hMoves⟩
  | some p => exact ⟨_, (hFits.arrives hMoves).2.2.2⟩

theorem Marked.moved (h : s.Marked pathEnv) (hInv : s.Inv) (hMoved : s.Moved pathEnv c s') :
    s'.Marked pathEnv := by
  obtain ⟨p, b, hMoves, rfl⟩ := hMoved
  have hBoxes : ∀ c' v, s.Sees s.view c' v →
      ((s.setBox c b).box c').Stamped pathEnv s.request v ∧
        ∃ waiting, ((s.setBox c b).box c').Fits s.request waiting v c' := by
    intro c' v hSees
    rcases eq_or_ne c' c with rfl | hNe
    · rw [setBox_box_self]
      exact ⟨(h c' v hSees).move (hInv.boxes c' v hSees) hMoves, hInv.fits_moved hMoves hSees⟩
    · rw [setBox_box_ne s b hNe]
      exact ⟨h c' v hSees, _, hInv.boxes c' v hSees⟩
  intro c' v hSees
  change ((s.setBox c b).box c').Stamped pathEnv s.request v
  rcases moveBox_view hMoves with hView | ⟨hHeld, hView⟩
  · rw [hView] at hSees
    exact (hBoxes c' v hSees).1
  · rw [hView] at hSees
    rw [hHeld] at hBoxes
    cases hSees with
    | used hUsed =>
      obtain ⟨hStamped, waiting, hFits⟩ := hBoxes c' _ (.used hUsed)
      exact hStamped.released hFits
    | spare hPermanent hFree => exact (hBoxes c' _ (.spare hPermanent hFree)).1
    | gone hStarted hTemporary hFree => exact (hBoxes c' _ (.gone hStarted hTemporary hFree)).1
    | unborn hNew => exact (hBoxes c' _ (.unborn hNew)).1

/-- **Every step keeps the stamps.** -/
theorem Marked.step (h : s.Marked pathEnv) (hInv : s.Inv) (hStep : s.step pathEnv a = some s') :
    s'.Marked pathEnv := by
  cases hBox : a.box? with
  | some c =>
    rcases step_of_box hBox hStep with rfl | hMoved
    · exact h
    · exact h.moved hInv hMoved
  | none =>
    have hInv' := hInv.step hStep
    cases step_turns hBox hStep with
    | accepts =>
      exact fun c v hSees => (hInv'.boxes c v hSees).stamped_idle (hSees.idle (.inr rfl))
    | worker _ hMoves => exact h.workerMoves hInv hInv' hMoves
    | dies | othersGet | othersPut => exact h

theorem marked_initial (firstUid : Uid) : (initial firstUid).Marked pathEnv := by
  intro c v hSees
  exact ((inv_initial firstUid).boxes c v hSees).stamped_idle (hSees.idle (.inr rfl))

theorem marked_of_reachable {firstUid : Uid}
    (hReach : Reachable (step pathEnv) (initial firstUid) s) : s.Inv ∧ s.Marked pathEnv :=
  invariant_of_reachable (I := fun s => s.Inv ∧ s.Marked pathEnv)
    (fun _ _ _ h hStep => ⟨h.1.step hStep, h.2.step h.1 hStep⟩)
    ⟨inv_initial firstUid, marked_initial firstUid⟩ hReach

end Sys

end Libsbox
