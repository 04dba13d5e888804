import Libsbox.Container.WaitForSlave
import Libsbox.Lib.ProcessTree
import Libsbox.Lib.Runs

/-!
# libsbox — no survivors

`Container::serve`, `wait_for_slave` and `kill_all` over the processes of the container's
PID namespace, of which the container is the first one. The slave and all that comes from
it fork, end and wait as they like between any two calls of the container. The kernel does
what its manual says: `kill(-1, SIGKILL)` reaches every process, a killed one forks no
more, the children of a process that ends fall to the container, and `wait` fails with
`ECHILD` if and only if there are no children.

## Results

* `Jail.loop_weight` — a step inside the loop of `kill_all` brings its end nearer;
* `Jail.no_survivors` — where `wait_for_slave` has returned there is no process, and the
  loop of `kill_all` ends;
* `Jail.step_shows` — `kill_all` and what is around it are one step of `Sys`.
-/

namespace Libsbox

open ProcessTree Runs

/-- The three ways out of the loop of `wait_for_slave`. -/
inductive LoopExit where
  | timeLimit
  | wallTimeLimit
  | reaped (status : WaitStatus)
  deriving DecidableEq

/-- The container of the system can leave its loop this way. -/
def LoopExit.Open (e : LoopExit) (b : Box) : Prop :=
  match e with
  | timeLimit | wallTimeLimit => ∃ cpuMs wallMs, b.block.limitExceeded cpuMs wallMs = true
  | reaped status => ∃ request, b.slave = some ⟨.zombie status, request⟩

/-- What a container does next. `stopTimer` to `noRestart` are the calls of `kill_all`;
where it goes on from there is the way out of the loop around it. -/
inductive JailAt where
  | taskBarrier
  | mountBinds
  | createCgroups
  | fork
  | startBarrier
  | waitpid
  | stopTimer (exit : LoopExit)
  | kill (exit : LoopExit)
  | restart (exit : LoopExit)
  | wait (exit : LoopExit)
  | noRestart (exit : LoopExit)
  | setStatus (exit : LoopExit)
  | stopTimerAgain
  | readUsage
  | umountBinds
  | deleteControllers
  | resultsBarrier
  | cleanupRoot
  | exited
  | died
  deriving DecidableEq

namespace JailAt

/-- In the loop of `kill_all`. -/
def InLoop : JailAt → Prop
  | wait _ => True
  | _ => False

/-- Behind the `kill` of `kill_all`, up to the end of its loop. -/
def Killed : JailAt → Prop
  | restart _ | wait _ => True
  | _ => False

/-- Behind `kill_all`, up to the next `fork`. -/
def Quiet : JailAt → Prop
  | startBarrier | waitpid | stopTimer _ | kill _ | restart _ | wait _ | died => False
  | _ => True

/-- `wait_for_slave` has returned, and what is left to do for the task goes on. -/
def Returned : JailAt → Prop
  | umountBinds | deleteControllers | resultsBarrier | cleanupRoot | exited => True
  | _ => False

instance : DecidablePred InLoop := fun pc => by unfold InLoop; split <;> infer_instance

instance : DecidablePred Returned := fun pc => by unfold Returned; split <;> infer_instance

theorem InLoop.eq_wait {pc : JailAt} (h : pc.InLoop) : ∃ e, pc = .wait e := by
  cases pc
  case wait e => exact ⟨e, rfl⟩
  all_goals exact h.elim

theorem Returned.quiet {pc : JailAt} (h : pc.Returned) : pc.Quiet := by
  cases pc <;> trivial

end JailAt

/-- A container and the processes of its namespace. `request` is the number of the one
it serves. -/
structure Jail where
  permanent : Bool
  request : Nat := 0
  pc : JailAt := .taskBarrier
  slave : Pid := 0
  block : Block := {}
  procs : Namespace := .empty

inductive JailAct where
  /-- A call of the container that has but one result. -/
  | serve
  | fork (child : Pid)
  /-- `SIGALRM` interrupts `waitpid`. -/
  | tick (cpuMs wallMs : Int64)
  | reaped (status : WaitStatus)
  /-- `left` says how long each process takes to die. -/
  | kill (left : Pid → Nat)
  | wait (c : Pid)
  | readUsage (u : Usage)
  /-- A call of the container fails. -/
  | fail
  | process (m : Move)
  /-- The worker or a process of the box writes the shared block. -/
  | write (block : Block)

namespace Jail

/-- A container that has prepared itself. -/
def initial (permanent : Bool) : Jail := { permanent }

/-- The calls of the container that have but one result. -/
def serve (s : Jail) : Option Jail :=
  let goto (pc : JailAt) : Option Jail := some { s with pc }
  match s.pc with
  | .taskBarrier => some { s with request := s.request + 1, pc := .mountBinds }
  | .mountBinds => goto .createCgroups
  | .createCgroups => goto .fork
  | .startBarrier => goto .waitpid
  | .stopTimer e => goto (.kill e)
  | .restart e => goto (.wait e)
  | .wait e =>
    -- ECHILD
    if ∀ q ∈ s.procs.procs, q.parent ≠ init then goto (.noRestart e) else none
  | .noRestart e => goto (.setStatus e)
  | .setStatus (.reaped status) =>
    some { s with block := s.block.setStatus s.request status, pc := .stopTimerAgain }
  | .setStatus _ => goto .stopTimerAgain
  | .stopTimerAgain => goto .readUsage
  | .umountBinds => goto .deleteControllers
  | .deleteControllers => goto .resultsBarrier
  | .resultsBarrier => goto (if s.permanent then .cleanupRoot else .exited)
  | .cleanupRoot => goto .taskBarrier
  | .fork | .waitpid | .kill _ | .readUsage | .exited | .died => none

/-- The two checks of a tick. -/
def tick (s : Jail) (cpuMs wallMs : Int64) : Jail :=
  let task := s.block.task
  if task.timeLimitMs ≠ -1 ∧ cpuMs > task.timeLimitMs then { s with pc := .stopTimer .timeLimit }
  else if task.wallTimeLimitMs ≠ -1 ∧ wallMs > task.wallTimeLimitMs then
    { s with pc := .stopTimer .wallTimeLimit }
  else s

def step (s : Jail) : JailAct → Option Jail
  | .serve => s.serve
  | .fork child =>
    if s.pc = .fork then
      if h : s.procs.Fresh child then
        some { s with
          slave := child, procs := s.procs.spawn init child (.inl rfl) h, pc := .startBarrier }
      else none
    else none
  | .tick cpuMs wallMs => if s.pc = .waitpid then some (s.tick cpuMs wallMs) else none
  | .reaped status =>
    if s.pc = .waitpid then
      if h : s.procs.Reapable init s.slave then
        some { s with procs := s.procs.reap init s.slave h, pc := .stopTimer (.reaped status) }
      else none
    else none
  | .kill left =>
    match s.pc with
    | .kill e => some { s with procs := s.procs.killAll left, pc := .restart e }
    | _ => none
  | .wait c =>
    match s.pc with
    | .wait _ =>
      if h : s.procs.Reapable init c then some { s with procs := s.procs.reap init c h } else none
    | _ => none
  | .readUsage u =>
    if s.pc = .readUsage then
      let block := s.block.setUsage s.request u
      some { s with block, pc := if block.error then .died else .umountBinds }
    else none
  | .fail => if s.pc = .exited then none else some { s with pc := .died }
  | .process m => (s.procs.move m).map fun procs => { s with procs }
  | .write block =>
    -- the worker while the container is at its barrier, a process while it runs
    if s.pc = .taskBarrier ∨ ∃ q ∈ s.procs.procs, q.life = .running then some { s with block }
    else none

/-- What a step does, with its guard. -/
inductive Moves (s : Jail) : JailAct → Jail → Prop where
  | serve {s' : Jail} (hServe : s.serve = some s') : Moves s .serve s'
  | fork {child : Pid} (hPc : s.pc = .fork) (hFresh : s.procs.Fresh child) :
    Moves s (.fork child) { s with
      slave := child, procs := s.procs.spawn init child (.inl rfl) hFresh, pc := .startBarrier }
  | tick {cpuMs wallMs : Int64} (hPc : s.pc = .waitpid) :
    Moves s (.tick cpuMs wallMs) (s.tick cpuMs wallMs)
  | reaped {status : WaitStatus} (hPc : s.pc = .waitpid)
      (hReapable : s.procs.Reapable init s.slave) :
    Moves s (.reaped status) { s with
      procs := s.procs.reap init s.slave hReapable, pc := .stopTimer (.reaped status) }
  | kill {e : LoopExit} {left : Pid → Nat} (hPc : s.pc = .kill e) :
    Moves s (.kill left) { s with procs := s.procs.killAll left, pc := .restart e }
  | wait {e : LoopExit} {child : Pid} (hPc : s.pc = .wait e)
      (hReapable : s.procs.Reapable init child) :
    Moves s (.wait child) { s with procs := s.procs.reap init child hReapable }
  | readUsage {u : Usage} (hPc : s.pc = .readUsage)
      (hError : (s.block.setUsage s.request u).error = false) :
    Moves s (.readUsage u) { s with block := s.block.setUsage s.request u, pc := .umountBinds }
  | slaveError {u : Usage} (hPc : s.pc = .readUsage)
      (hError : (s.block.setUsage s.request u).error = true) :
    Moves s (.readUsage u) { s with block := s.block.setUsage s.request u, pc := .died }
  | fail (hPc : s.pc ≠ .exited) : Moves s .fail { s with pc := .died }
  | process {m : Move} {procs : Namespace} (hMove : s.procs.move m = some procs) :
    Moves s (.process m) { s with procs }
  | write {block : Block}
      (hWriter : s.pc = .taskBarrier ∨ ∃ q ∈ s.procs.procs, q.life = .running) :
    Moves s (.write block) { s with block }

theorem step_moves {s s' : Jail} {a : JailAct} (h : s.step a = some s') : s.Moves a s' := by
  cases a with
  | serve => exact .serve h
  | process m =>
    obtain ⟨procs, hMove, rfl⟩ := Option.map_eq_some_iff.mp h
    exact .process hMove
  | fork child =>
    simp only [step, Option.ite_none_right_eq_some, Option.dite_none_right_eq_some,
      Option.some.injEq] at h
    obtain ⟨hPc, hFresh, rfl⟩ := h
    exact .fork hPc hFresh
  | tick cpuMs wallMs =>
    simp only [step, Option.ite_none_right_eq_some, Option.some.injEq] at h
    obtain ⟨hPc, rfl⟩ := h
    exact .tick hPc
  | reaped status =>
    simp only [step, Option.ite_none_right_eq_some, Option.dite_none_right_eq_some,
      Option.some.injEq] at h
    obtain ⟨hPc, hReapable, rfl⟩ := h
    exact .reaped hPc hReapable
  | kill left =>
    simp only [step] at h
    split at h
    · rename_i e hPc
      cases h
      exact .kill hPc
    · cases h
  | wait child =>
    simp only [step] at h
    split at h
    · rename_i e hPc
      simp only [Option.dite_none_right_eq_some, Option.some.injEq] at h
      obtain ⟨hReapable, rfl⟩ := h
      exact .wait hPc hReapable
    · cases h
  | readUsage u =>
    simp only [step, Option.ite_none_right_eq_some, Option.some.injEq] at h
    obtain ⟨hPc, rfl⟩ := h
    cases hError : (s.block.setUsage s.request u).error with
    | true => exact .slaveError hPc hError
    | false => exact .readUsage hPc hError
  | fail =>
    simp only [step, Option.ite_none_left_eq_some, Option.some.injEq] at h
    obtain ⟨hPc, rfl⟩ := h
    exact .fail hPc
  | write block =>
    simp only [step, Option.ite_none_right_eq_some, Option.some.injEq] at h
    obtain ⟨hWriter, rfl⟩ := h
    exact .write hWriter

-- ---------------------------------------------------------------------------
-- What there is at each place
-- ---------------------------------------------------------------------------

/-- The processes at the places behind a `kill` and behind the loop that follows it. -/
structure Ok (s : Jail) : Prop where
  doomed : s.pc.Killed → s.procs.Doomed
  nobody : s.pc.Quiet → s.procs.procs = []

variable {s s' : Jail}

theorem ok_initial (permanent : Bool) : (initial permanent).Ok where
  doomed h := h.elim
  nobody _ := rfl

/-- A step that leaves the processes as they are. -/
theorem Ok.of_procs (hOk : s.Ok) (hProcs : s'.procs = s.procs) (hKilled : s'.pc.Killed → s.pc.Killed)
    (hQuiet : s'.pc.Quiet → s.pc.Quiet) : s'.Ok where
  doomed h := hProcs ▸ hOk.doomed (hKilled h)
  nobody h := hProcs ▸ hOk.nobody (hQuiet h)

/-- A step to a place where there may be processes of any kind. -/
theorem ok_of_not (hKilled : ¬ s.pc.Killed) (hQuiet : ¬ s.pc.Quiet) : s.Ok where
  doomed h := absurd h hKilled
  nobody h := absurd h hQuiet

/-- The loop of `kill_all` ends where nobody is left; the other calls that have but one
result have nothing to do with the processes. -/
theorem serve_cases (h : s.serve = some s') :
    s'.procs = s.procs ∧
      ((s'.pc.Killed → s.pc.Killed) ∧ (s'.pc.Quiet → s.pc.Quiet) ∨
        ∃ e, s.pc = .wait e ∧ s'.pc = .noRestart e ∧ s.procs.procs = []) := by
  cases hPc : s.pc
  case wait e =>
    simp only [Jail.serve, hPc] at h
    split at h
    · rename_i hNone
      obtain rfl := Option.some.inj h
      exact ⟨rfl, .inr ⟨e, rfl, rfl, Namespace.procs_eq_nil hNone⟩⟩
    · cases h
  case setStatus e =>
    cases e
    all_goals
      simp only [Jail.serve, hPc] at h
      obtain rfl := Option.some.inj h
      exact ⟨rfl, .inl ⟨False.elim, fun _ => trivial⟩⟩
  case resultsBarrier =>
    simp only [Jail.serve, hPc] at h
    obtain rfl := Option.some.inj h
    refine ⟨rfl, .inl ⟨fun hKilled => ?_, fun _ => trivial⟩⟩
    dsimp only at hKilled
    split at hKilled <;> exact hKilled.elim
  case fork | waitpid | kill | readUsage | exited | died =>
    simp only [Jail.serve, hPc] at h
    cases h
  case startBarrier | stopTimer | restart =>
    simp only [Jail.serve, hPc] at h
    obtain rfl := Option.some.inj h
    exact ⟨rfl, .inl ⟨by simp [JailAt.Killed], False.elim⟩⟩
  all_goals
    simp only [Jail.serve, hPc] at h
    obtain rfl := Option.some.inj h
    exact ⟨rfl, .inl ⟨False.elim, fun _ => trivial⟩⟩

theorem Ok.serve (hOk : s.Ok) (h : s.serve = some s') : s'.Ok := by
  obtain ⟨hProcs, ⟨hKilled, hQuiet⟩ | ⟨e, -, hPc, hNil⟩⟩ := serve_cases h
  · exact hOk.of_procs hProcs hKilled hQuiet
  · refine ⟨fun hKilled => ?_, fun _ => by rw [hProcs, hNil]⟩
    rw [hPc] at hKilled
    exact hKilled.elim

/-- The processes move without the container. -/
theorem Ok.process (hOk : s.Ok) {m : Move} {procs : Namespace} (h : s.procs.move m = some procs) :
    ({ s with procs } : Jail).Ok where
  doomed hKilled := (Namespace.move_weight (hOk.doomed hKilled) h).1
  nobody hQuiet := by
    have hNil := hOk.nobody hQuiet
    -- nobody is there to move
    rw [Namespace.move_eq_none hNil m] at h
    cases h

/-- **Every step keeps the invariant.** -/
theorem Ok.step (hOk : s.Ok) {a : JailAct} (h : s.step a = some s') : s'.Ok := by
  cases step_moves h with
  | serve hServe => exact hOk.serve hServe
  | fork | reaped | fail | slaveError => exact ok_of_not (fun h => h) fun h => h
  | tick hPc =>
    unfold Jail.tick
    dsimp only
    split
    · exact ok_of_not (fun h => h) fun h => h
    · split
      · exact ok_of_not (fun h => h) fun h => h
      · exact hOk
  | kill => exact ⟨fun _ => Namespace.doomed_killAll _, False.elim⟩
  | wait hPc hReapable =>
    have hDoomed := hOk.doomed (by rw [hPc]; trivial)
    refine ⟨fun _ => (Namespace.reap_weight hDoomed hReapable).1, fun hQuiet => ?_⟩
    dsimp only at hQuiet
    rw [hPc] at hQuiet
    exact hQuiet.elim
  | readUsage hPc => exact ⟨False.elim, fun _ => hOk.nobody (by rw [hPc]; trivial)⟩
  | process hMove => exact hOk.process hMove
  | write => exact hOk.of_procs rfl (fun h => h) fun h => h

theorem reachable_ok {permanent : Bool} (hReach : Reachable step (initial permanent) s) : s.Ok :=
  invariant_of_reachable (I := Ok) (fun _ _ _ hOk hStep => hOk.step hStep) (ok_initial permanent)
    hReach

-- ---------------------------------------------------------------------------
-- The loop of kill_all
-- ---------------------------------------------------------------------------

/-- **A step inside the loop** brings its end nearer. -/
theorem loop_weight (hOk : s.Ok) (hLoop : s.pc.InLoop) {a : JailAct} (h : s.step a = some s')
    (hLoop' : s'.pc.InLoop) : s'.procs.weight < s.procs.weight := by
  obtain ⟨e, hPc⟩ := hLoop.eq_wait
  have hDoomed := hOk.doomed (by rw [hPc]; trivial)
  cases step_moves h with
  | serve hServe =>
    simp only [Jail.serve, hPc] at hServe
    split at hServe
    · obtain rfl := Option.some.inj hServe
      exact hLoop'.elim
    · cases hServe
  | wait hWait hReapable => exact (Namespace.reap_weight hDoomed hReapable).2
  | process hMove => exact (Namespace.move_weight hDoomed hMove).2
  | fail | slaveError | readUsage => exact hLoop'.elim
  | write hWriter =>
    obtain ⟨q, hq, hRunning⟩ := hWriter.resolve_left (by rw [hPc]; nofun)
    exact absurd hRunning (hDoomed q hq)
  | fork hOther | tick hOther | reaped hOther | kill hOther =>
    rw [hPc] at hOther
    cases hOther

/-- The loop is never stuck: a process or the container can go on. -/
theorem loop_progress (hOk : s.Ok) (hLoop : s.pc.InLoop) :
    ∃ a s', a ≠ .fail ∧ s.step a = some s' := by
  obtain ⟨e, hPc⟩ := hLoop.eq_wait
  by_cases hNil : s.procs.procs = []
  · refine ⟨.serve, { s with pc := .noRestart e }, (fun h => by cases h), ?_⟩
    simp only [Jail.step, Jail.serve, hPc, hNil]
    exact if_pos fun q hq => absurd hq List.not_mem_nil
  · rcases Namespace.exists_move (hOk.doomed (by rw [hPc]; trivial)) hNil with
      ⟨c, hReapable⟩ | ⟨m, procs, hMove⟩
    · refine ⟨.wait c, { s with procs := s.procs.reap init c hReapable }, (fun h => by cases h), ?_⟩
      simp only [Jail.step, hPc]
      exact dif_pos hReapable
    · refine ⟨.process m, { s with procs }, (fun h => by cases h), ?_⟩
      simp only [Jail.step, hMove]
      rfl

/-- A run that stays inside the loop is not longer than what the processes have still to
do. -/
theorem loop_length (hOk : s.Ok) {acts : List JailAct} (hRun : run step s acts = some s')
    (hLoop : Throughout step (fun s => s.pc.InLoop) s acts) :
    acts.length ≤ s.procs.weight := by
  induction acts generalizing s with
  | nil => exact Nat.zero_le _
  | cons a acts ih =>
    obtain ⟨m, hFirst, hRest⟩ := run_cons_eq_some.mp hRun
    have hNext := hLoop.2 m hFirst
    have hLess := loop_weight hOk hLoop.1 hFirst hNext.head
    have hBound := ih (hOk.step hFirst) hRest hNext
    rw [List.length_cons]
    omega

/-- **No survivors.** Wherever `wait_for_slave` has returned, up to the end of the task,
there is no process besides the container. Inside the loop of `kill_all` some step is
possible, and there are only so many of them: the loop ends. -/
theorem no_survivors {permanent : Bool} (hReach : Reachable step (initial permanent) s) :
    (s.pc.Returned → s.procs.procs = []) ∧
      (s.pc.InLoop →
        (∃ a s', a ≠ .fail ∧ s.step a = some s') ∧
        ∃ bound, ∀ acts s', run step s acts = some s' →
          Throughout step (fun s => s.pc.InLoop) s acts → acts.length ≤ bound) := by
  have hOk := reachable_ok hReach
  refine ⟨fun hReturned => hOk.nobody hReturned.quiet, fun hLoop => ⟨loop_progress hOk hLoop, ?_⟩⟩
  exact ⟨s.procs.weight, fun acts s' hRun hThrough => loop_length hOk hRun hThrough⟩

/-- The slave forks a child and ends, which leaves the child to the container. It is
killed and waited for. -/
def orphanRun : List JailAct :=
  [.serve, .serve, .serve, .fork 2, .serve, .process (.fork 2 3 false), .process (.exit 2 false),
    .reaped (.exited 0), .serve, .kill fun _ => 0, .serve, .process (.exit 3 false), .wait 3, .serve,
    .serve, .serve, .serve, .readUsage ⟨0, 0, 0, 0, 0, false, false⟩]

theorem no_survivors_orphan :
    ∃ s, run step (initial false) orphanRun = some s ∧ s.pc = .umountBinds ∧ s.procs.procs = [] := by
  obtain ⟨s, hRun, hPc⟩ : ∃ s, run step (initial false) orphanRun = some s ∧ s.pc = .umountBinds :=
    ⟨_, rfl, rfl⟩
  exact ⟨s, hRun, hPc, (no_survivors ⟨_, hRun⟩).1 (by rw [hPc]; trivial)⟩

-- ---------------------------------------------------------------------------
-- The same loop in the system
-- ---------------------------------------------------------------------------

/-- The container of the system at the same place in `wait_for_slave`. It takes `kill_all`
and the status of the slave in one step. -/
def Shows (s : Jail) (b : Box) : Prop :=
  s.request = b.serving ∧ s.block = b.block ∧
    match s.pc with
    | .waitpid => b.pc = .waitForSlave
    | .stopTimer e | .kill e | .restart e | .wait e | .noRestart e | .setStatus e =>
      b.pc = .waitForSlave ∧ e.Open b
    | .stopTimerAgain | .readUsage => b.pc = .readUsage ∧ b.slave = none
    | _ => False

/-- What `kill_all` is in the system. -/
theorem killAll_fields (b : Box) :
    b.killAll.slave = none ∧ b.killAll.serving = b.serving ∧ b.killAll.block = b.block := by
  unfold Box.killAll
  split
  · exact ⟨by assumption, rfl, rfl⟩
  · exact ⟨rfl, rfl, rfl⟩
  · exact ⟨rfl, rfl, rfl⟩

/-- The end of the loop behind `kill_all`. -/
theorem setStatus_shows {pathEnv : Option CMemory.Str} {sys : Sys} {c : BoxId} {e : LoopExit}
    (hPc : s.pc = .setStatus e) (hShows : s.Shows (sys.box c)) (h : s.serve = some s') :
    ∃ act sys', Sys.step pathEnv sys act = some sys' ∧ s'.Shows (sys'.box c) := by
  obtain ⟨hRequest, hBlock, hAt⟩ := hShows
  rw [hPc] at hAt
  obtain ⟨hBoxPc, hOpen⟩ := hAt
  obtain ⟨hNone, hServing, hKept⟩ := killAll_fields (sys.box c)
  have hTick : ∀ cpuMs wallMs, (sys.box c).block.limitExceeded cpuMs wallMs = true →
      s' = { s with pc := .stopTimerAgain } →
      ∃ act sys', Sys.step pathEnv sys act = some sys' ∧ s'.Shows (sys'.box c) := by
    rintro cpuMs wallMs hExceeded rfl
    refine ⟨.tick c cpuMs wallMs, sys.setBox c { (sys.box c).killAll with pc := .readUsage }, ?_, ?_⟩
    · show sys.tick c cpuMs wallMs = _
      simp only [Sys.tick]
      rw [if_pos hBoxPc, if_pos hExceeded]
    · rw [Sys.setBox_box_self]
      exact ⟨hRequest.trans hServing.symm, hBlock.trans hKept.symm, rfl, hNone⟩
  cases e with
  | timeLimit =>
    simp only [Jail.serve, hPc] at h
    obtain ⟨cpuMs, wallMs, hExceeded⟩ := hOpen
    exact hTick cpuMs wallMs hExceeded (Option.some.inj h).symm
  | wallTimeLimit =>
    simp only [Jail.serve, hPc] at h
    obtain ⟨cpuMs, wallMs, hExceeded⟩ := hOpen
    exact hTick cpuMs wallMs hExceeded (Option.some.inj h).symm
  | reaped status =>
    simp only [Jail.serve, hPc] at h
    obtain rfl := Option.some.inj h
    obtain ⟨request, hSlave⟩ := hOpen
    refine ⟨.container c, sys.setBox c { (sys.box c).killAll with
      block := (sys.box c).block.setStatus (sys.box c).serving status, pc := .readUsage }, ?_, ?_⟩
    · show sys.containerStep c = _
      simp only [Sys.containerStep, hBoxPc, hSlave]
    · rw [Sys.setBox_box_self]
      refine ⟨hRequest.trans hServing.symm, ?_, rfl, hNone⟩
      show s.block.setStatus s.request status = _
      rw [hBlock, hRequest]

/-- A call of the container from `waitpid` to the readings. -/
theorem serve_shows {pathEnv : Option CMemory.Str} {sys : Sys} {c : BoxId}
    (hShows : s.Shows (sys.box c)) (h : s.serve = some s') :
    s'.Shows (sys.box c) ∨
      ∃ act sys', Sys.step pathEnv sys act = some sys' ∧ s'.Shows (sys'.box c) := by
  cases hPc : s.pc
  case setStatus e => exact .inr (setStatus_shows hPc hShows h)
  case stopTimer | restart | noRestart | stopTimerAgain =>
    simp only [Jail.serve, hPc] at h
    obtain rfl := Option.some.inj h
    obtain ⟨hRequest, hBlock, hAt⟩ := hShows
    rw [hPc] at hAt
    exact .inl ⟨hRequest, hBlock, hAt⟩
  case wait e =>
    simp only [Jail.serve, hPc] at h
    split at h
    · obtain rfl := Option.some.inj h
      obtain ⟨hRequest, hBlock, hAt⟩ := hShows
      rw [hPc] at hAt
      exact .inl ⟨hRequest, hBlock, hAt⟩
    · cases h
  case waitpid | kill | readUsage =>
    simp only [Jail.serve, hPc] at h
    cases h
  all_goals
    obtain ⟨-, -, hAt⟩ := hShows
    rw [hPc] at hAt
    exact hAt.elim

/-- A tick leaves the loop where the one of the system does. -/
theorem tick_shows {b : Box} (hPc : s.pc = .waitpid) (hShows : s.Shows b) (cpuMs wallMs : Int64) :
    (s.tick cpuMs wallMs).Shows b := by
  have hOld := hShows
  obtain ⟨hRequest, hBlock, hAt⟩ := hShows
  rw [hPc] at hAt
  unfold Jail.tick
  dsimp only
  split
  · rename_i hTime
    refine ⟨hRequest, hBlock, hAt, cpuMs, wallMs, ?_⟩
    rw [← hBlock]
    simp [Block.limitExceeded, hTime.1, hTime.2]
  · split
    · rename_i hWall
      refine ⟨hRequest, hBlock, hAt, cpuMs, wallMs, ?_⟩
      rw [← hBlock]
      simp [Block.limitExceeded, hWall.1, hWall.2]
    · exact hOld

/-- **The loop of the system is this one.** A step of the container from `waitpid` to the
readings is none in the system, or the one that ends the loop there. What `waitpid`
returns is the status of the slave. -/
theorem step_shows {pathEnv : Option CMemory.Str} {sys : Sys} {c : BoxId} {a : JailAct}
    (hShows : s.Shows (sys.box c)) (h : s.step a = some s') (hWrite : ∀ block, a ≠ .write block)
    (hStatus : ∀ status, a = .reaped status →
      ∃ request, (sys.box c).slave = some ⟨.zombie status, request⟩)
    (hDied : s'.pc ≠ .died) (hBack : s'.pc ≠ .umountBinds) :
    s'.Shows (sys.box c) ∨
      ∃ act sys', Sys.step pathEnv sys act = some sys' ∧ s'.Shows (sys'.box c) := by
  cases step_moves h with
  | serve hServe => exact serve_shows hShows hServe
  | tick hPc => exact .inl (tick_shows hPc hShows _ _)
  | reaped hPc hReapable =>
    obtain ⟨hRequest, hBlock, hAt⟩ := hShows
    rw [hPc] at hAt
    exact .inl ⟨hRequest, hBlock, hAt, hStatus _ rfl⟩
  | kill hPc =>
    obtain ⟨hRequest, hBlock, hAt⟩ := hShows
    rw [hPc] at hAt
    exact .inl ⟨hRequest, hBlock, hAt⟩
  | wait | process => exact .inl hShows
  | fork hPc =>
    obtain ⟨-, -, hAt⟩ := hShows
    rw [hPc] at hAt
    exact hAt.elim
  | readUsage => exact absurd rfl hBack
  | slaveError | fail => exact absurd rfl hDied
  | write => exact absurd rfl (hWrite _)

end Jail

end Libsbox
