import Libsbox.Marshalling.Reuse

/-!
# libsbox — the task block at two levels

The model of the protocol keeps a block as the parameters and the results of a task with the
flag `error`, and `set_task` there refuses what is too large and otherwise replaces the
whole. `TaskData` is the block as it lies in memory. Here the two meet: `d.Shows b` says
that what is read of `d` is what `b` has.

## Results

* `setTask_returns_iff` — over memory, too, `set_task` refuses what is too large, and
  otherwise only fails where `get_pipe` does;
* `setTask_shows` — it leaves the block that the protocol has then;
* `Shows.putResults` — `put_results` hands out the same.
-/

namespace Libsbox

open CMemory

/-- A block of the protocol with the descriptors that `get_pipe` has returned, as it is to
be read. -/
def Block.observed (b : Block) (fds : StdStream → Option (Fd × Fd)) : Observed where
  timeLimitMs := b.task.timeLimitMs
  wallTimeLimitMs := b.task.wallTimeLimitMs
  memoryLimitKb := b.task.memoryLimitKb
  fsizeLimitKb := b.task.fsizeLimitKb
  maxFiles := b.task.maxFiles
  maxThreads := b.task.maxThreads
  needIpc := b.task.needIpc
  useStandardBinds := b.task.useStandardBinds
  stdinDesc := b.task.streamView .stdin (fds .stdin)
  stdoutDesc := b.task.streamView .stdout (fds .stdout)
  stderrDesc := b.task.streamView .stderr (fds .stderr)
  argv := .of b.task.argv
  env := .of b.task.env
  binds := ⟨b.task.binds.length, b.task.binds.map BindView.of⟩
  timeUsageMs := b.task.timeUsageMs
  timeUsageSysMs := b.task.timeUsageSysMs
  timeUsageUserMs := b.task.timeUsageUserMs
  wallTimeUsageMs := b.task.wallTimeUsageMs
  memoryUsageKb := b.task.memoryUsageKb
  timeLimitExceeded := b.task.timeLimitExceeded
  wallTimeLimitExceeded := b.task.wallTimeLimitExceeded
  exited := b.task.exited
  exitCode := b.task.exitCode
  signaled := b.task.signaled
  termSignal := b.task.termSignal
  oomKilled := b.task.oomKilled
  memoryLimitHit := b.task.memoryLimitHit
  error := b.error

/-- The block in memory reads as the block of the protocol. -/
def TaskData.Shows (d : TaskData) (b : Block) : Prop := ∃ fds, d.observe = b.observed fds

/-- `Container::put_results`, from memory. -/
def TaskData.putResults (d : TaskData) (task : Task) : Task :=
  { task with
    timeUsageMs := d.timeUsageMs
    timeUsageSysMs := d.timeUsageSysMs
    timeUsageUserMs := d.timeUsageUserMs
    wallTimeUsageMs := d.wallTimeUsageMs
    memoryUsageKb := d.memoryUsageKb
    timeLimitExceeded := d.timeLimitExceeded
    wallTimeLimitExceeded := d.wallTimeLimitExceeded
    exited := d.exited
    exitCode := d.exitCode
    signaled := d.signaled
    termSignal := d.termSignal
    oomKilled := d.oomKilled
    memoryLimitHit := d.memoryLimitHit }

/-- The sizes that the arrays of a block have room for. -/
structure Task.Fits (task : Task) : Prop where
  streams : ∀ st, (task.filename st).head? = some 64 ∨ (task.filename st).length ≤ pathMax
  argv : PlainStringVector.Fits argcMax argvMax task.argv
  env : PlainStringVector.Fits (envcMax + 1) (envMax + 1024) task.env
  binds : task.binds.length ≤ bindsMax
  paths : ∀ rule ∈ task.binds, rule.inside.length ≤ pathMax ∧ rule.outside.length ≤ pathMax

variable {task : Task} {d d' : TaskData} {pipes pipes' : Pipes}

theorem Block.refuses_eq_false_iff : Block.refuses task = false ↔ task.Fits := by
  have hName : ∀ filename : Str,
      (filename.head? ≠ some 64 && decide (filename.length > pathMax)) = false ↔
        filename.head? = some 64 ∨ filename.length ≤ pathMax := by
    intro filename
    rw [Bool.and_eq_false_iff, decide_eq_false_iff_not, decide_eq_false_iff_not, not_not, not_lt]
  have hPaths : (task.binds.any fun rule =>
      rule.inside.length > pathMax || rule.outside.length > pathMax) = false ↔
        ∀ rule ∈ task.binds, rule.inside.length ≤ pathMax ∧ rule.outside.length ≤ pathMax := by
    simp [List.any_eq_false]
  unfold Block.refuses
  simp only [Bool.or_eq_false_iff, hName, hPaths, decide_eq_false_iff_not, not_lt]
  constructor
  · rintro ⟨⟨⟨⟨⟨⟨⟨⟨hStdin, hStdout⟩, hStderr⟩, hArgc⟩, hArgv⟩, hEnvc⟩, hEnv⟩, hBinds⟩, hPaths⟩
    refine ⟨fun st => ?_, ⟨hArgc, hArgv⟩, ⟨hEnvc, hEnv⟩, hBinds, hPaths⟩
    cases st with
    | stdin => exact hStdin
    | stdout => exact hStdout
    | stderr => exact hStderr
  · rintro ⟨hStreams, ⟨hArgc, hArgv⟩, ⟨hEnvc, hEnv⟩, hBinds, hPaths⟩
    exact ⟨⟨⟨⟨⟨⟨⟨⟨hStreams .stdin, hStreams .stdout⟩, hStreams .stderr⟩, hArgc⟩, hArgv⟩, hEnvc⟩,
      hEnv⟩, hBinds⟩, hPaths⟩

-- ---------------------------------------------------------------------------
-- What set_task refuses
-- ---------------------------------------------------------------------------

theorem setStream_returns_iff (what : String) (st : StdStream) (desc : IOStream) :
    Returns (setStream what st.pipeEnd.fd (st = .stderr) (task.filename st) desc pipes) ↔
      ((task.filename st).head? = some 64 ∨ (task.filename st).length ≤ pathMax) ∧
        Returns (task.askPipe st pipes) := by
  obtain ⟨name, hEq⟩ :=
    setStream_eq what st.pipeEnd.fd (st = .stderr) (task.filename st) desc pipes
  unfold Task.askPipe Task.asks
  by_cases hAt : (task.filename st).head? = some 64
  · rw [if_pos hAt] at hEq ⊢
    rw [hEq.2, and_iff_right (.inl hAt)]
    split
    · rename_i hStdout
      rw [if_pos (by simpa using hStdout)]
      exact iff_of_true (returns_ok _) (returns_ok _)
    · rename_i hPipe
      rw [if_neg (by simpa using hPipe)]
      exact returns_bind_pure.trans returns_bind_pure.symm
  · rw [if_neg hAt] at hEq ⊢
    split at hEq
    · rename_i hLong
      rw [hEq]
      exact iff_of_false (not_returns_error _) fun h =>
        Nat.not_le.mpr hLong (h.1.resolve_left hAt)
    · rename_i hLong
      rw [hEq.2]
      exact iff_of_true (returns_ok _) ⟨.inr (Nat.not_lt.mp hLong), returns_ok _⟩

/-- A stream block hands on the pipes that the call of `get_pipe` has left. -/
theorem setStream_of_askPipe (what : String) {st : StdStream} (desc : IOStream)
    {fds : Option (Fd × Fd)}
    (hFits : (task.filename st).head? = some 64 ∨ (task.filename st).length ≤ pathMax)
    (hAsk : task.askPipe st pipes = .ok (fds, pipes')) :
    ∃ desc', setStream what st.pipeEnd.fd (st = .stderr) (task.filename st) desc pipes =
      .ok (desc', pipes') := by
  obtain ⟨⟨desc', after⟩, hSet⟩ := (setStream_returns_iff what st desc).mpr ⟨hFits, _, hAsk⟩
  obtain ⟨fds', hAsk', -⟩ := setStream_view task st hSet
  rw [hAsk] at hAsk'
  cases hAsk'
  exact ⟨desc', hSet⟩

theorem setStrings_returns_iff {maxItems maxTotalSize : Nat} (what : String)
    (v : PlainStringVector maxItems maxTotalSize) (strs : List Str) :
    Returns (setStrings what v strs) ↔ PlainStringVector.Fits maxItems maxTotalSize strs := by
  by_cases hFits : PlainStringVector.Fits maxItems maxTotalSize strs
  · obtain ⟨w, hOk, -⟩ := setStrings_holds what v hFits.1 hFits.2
    rw [hOk]
    exact iff_of_true (returns_ok w) hFits
  · obtain ⟨msg, hDie⟩ := setStrings_refuses what hFits
    rw [hDie]
    exact iff_of_false (not_returns_error _) hFits

theorem bindData_new_returns_iff (rule : BindRule) :
    Returns (BindData.new rule) ↔ rule.inside.length ≤ pathMax ∧ rule.outside.length ≤ pathMax := by
  rcases bindData_new_cases rule with ⟨hLong, msg, hDie⟩ | ⟨hFits, b, hOk, -⟩
  · rw [hDie]
    exact iff_of_false (not_returns_error _) hLong
  · rw [hOk]
    exact iff_of_true (returns_ok b) hFits

theorem setBinds_returns_iff (v : PlainVector BindData bindsMax) (rules : List BindRule) :
    Returns (setBinds v rules) ↔ rules.length ≤ bindsMax ∧
      ∀ rule ∈ rules, rule.inside.length ≤ pathMax ∧ rule.outside.length ≤ pathMax := by
  have hBuilt : Returns (rules.mapM BindData.new) ↔
      ∀ rule ∈ rules, rule.inside.length ≤ pathMax ∧ rule.outside.length ≤ pathMax := by
    simp only [returns_mapM, bindData_new_returns_iff]
  rw [← hBuilt]
  rcases setBinds_cases rules v with
    ⟨hCount, hDie⟩ | ⟨hCount, ⟨e, hMap, hSet⟩ | ⟨binds, w, hMap, hSet, -⟩⟩
  · rw [hDie]
    exact iff_of_false (not_returns_error _) fun h => absurd h.1 (Nat.not_le.mpr hCount)
  · rw [hSet, hMap]
    exact iff_of_false (not_returns_error _) fun h => not_returns_error _ h.2
  · rw [hSet, hMap]
    exact iff_of_true (returns_ok w) ⟨hCount, returns_ok binds⟩

/-- The part of `set_task` that describes the streams. -/
theorem streams_set_returns_iff (task : Task) (d : Streams) (pipes : Pipes) :
    Returns (d.set task pipes) ↔
      (∀ st, (task.filename st).head? = some 64 ∨ (task.filename st).length ≤ pathMax) ∧
        Returns (task.askPipes pipes) := by
  constructor
  · rintro ⟨r, h⟩
    obtain ⟨⟨stdin, pipes1⟩, hStdin, hRest⟩ := bind_eq_ok h
    obtain ⟨⟨stdout, pipes2⟩, hStdout, hRest⟩ := bind_eq_ok hRest
    obtain ⟨⟨stderr, pipes3⟩, hStderr, -⟩ := bind_eq_ok hRest
    constructor
    · intro st
      cases st with
      | stdin => exact ((setStream_returns_iff "stdin" .stdin _).mp ⟨_, hStdin⟩).1
      | stdout => exact ((setStream_returns_iff "stdout" .stdout _).mp ⟨_, hStdout⟩).1
      | stderr => exact ((setStream_returns_iff "stderr" .stderr _).mp ⟨_, hStderr⟩).1
    · obtain ⟨fds1, hAsk1, -⟩ := setStream_view task .stdin hStdin
      obtain ⟨fds2, hAsk2, -⟩ := setStream_view task .stdout hStdout
      obtain ⟨fds3, hAsk3, -⟩ := setStream_view task .stderr hStderr
      exact returns_bind.mpr ⟨_, hAsk1, returns_bind.mpr ⟨_, hAsk2, returns_bind.mpr
        ⟨_, hAsk3, returns_pure _⟩⟩⟩
  · rintro ⟨hFits, r, hAsks⟩
    obtain ⟨⟨stdin, pipes1⟩, hAsk1, hRest⟩ := bind_eq_ok hAsks
    obtain ⟨⟨stdout, pipes2⟩, hAsk2, hRest⟩ := bind_eq_ok hRest
    obtain ⟨⟨stderr, pipes3⟩, hAsk3, -⟩ := bind_eq_ok hRest
    obtain ⟨_, hStdin⟩ := setStream_of_askPipe "stdin" d.stdinDesc (hFits .stdin) hAsk1
    obtain ⟨_, hStdout⟩ := setStream_of_askPipe "stdout" d.stdoutDesc (hFits .stdout) hAsk2
    obtain ⟨_, hStderr⟩ := setStream_of_askPipe "stderr" d.stderrDesc (hFits .stderr) hAsk3
    exact returns_bind.mpr ⟨_, hStdin, returns_bind.mpr ⟨_, hStdout, returns_bind.mpr
      ⟨_, hStderr, returns_pure _⟩⟩⟩

/-- **What `set_task` refuses** over memory is what it refuses in the protocol. Besides that
it fails only where a call of `get_pipe` does. -/
theorem setTask_returns_iff (task : Task) (d : TaskData) (pipes : Pipes) :
    Returns (setTask task d pipes) ↔
      Block.refuses task = false ∧ Returns (task.askPipes pipes) := by
  rw [Block.refuses_eq_false_iff]
  constructor
  · rintro ⟨⟨d', pipes'⟩, h⟩
    obtain ⟨fds, hAsks, -⟩ := setTask_observe h
    refine ⟨?_, _, hAsks⟩
    obtain ⟨pipes1, pipes2, hCalls⟩ := setTask_calls h
    have hRules := (setBinds_returns_iff d.binds task.binds).mp ⟨_, hCalls.binds⟩
    refine ⟨fun st => ?_, (setStrings_returns_iff _ _ _).mp ⟨_, hCalls.argv⟩,
      (setStrings_returns_iff _ _ _).mp ⟨_, hCalls.env⟩, hRules.1, hRules.2⟩
    cases st with
    | stdin => exact ((setStream_returns_iff "stdin" .stdin _).mp ⟨_, hCalls.stdin⟩).1
    | stdout => exact ((setStream_returns_iff "stdout" .stdout _).mp ⟨_, hCalls.stdout⟩).1
    | stderr => exact ((setStream_returns_iff "stderr" .stderr _).mp ⟨_, hCalls.stderr⟩).1
  · rintro ⟨hFits, ⟨fds, pipes'⟩, hAsks⟩
    obtain ⟨⟨stdin, pipes1⟩, hAsk1, hRest⟩ := bind_eq_ok hAsks
    obtain ⟨⟨stdout, pipes2⟩, hAsk2, hRest⟩ := bind_eq_ok hRest
    obtain ⟨⟨stderr, pipes3⟩, hAsk3, -⟩ := bind_eq_ok hRest
    obtain ⟨stdinDesc, hStdin⟩ := setStream_of_askPipe "stdin" d.stdinDesc (hFits.streams .stdin) hAsk1
    obtain ⟨stdoutDesc, hStdout⟩ := setStream_of_askPipe "stdout" d.stdoutDesc (hFits.streams .stdout) hAsk2
    obtain ⟨stderrDesc, hStderr⟩ := setStream_of_askPipe "stderr" d.stderrDesc (hFits.streams .stderr) hAsk3
    obtain ⟨argv, hArgv⟩ := (setStrings_returns_iff "argv" d.argv task.argv).mpr hFits.argv
    obtain ⟨env, hEnv⟩ := (setStrings_returns_iff "env" d.env task.env).mpr hFits.env
    obtain ⟨binds, hBinds⟩ :=
      (setBinds_returns_iff d.binds task.binds).mpr ⟨hFits.binds, hFits.paths⟩
    refine returns_bind.mpr ⟨_, hStdin, returns_bind.mpr ⟨_, hStdout, returns_bind.mpr
      ⟨_, hStderr, ?_⟩⟩⟩
    exact returns_bind.mpr ⟨_, hArgv, returns_bind.mpr ⟨_, hEnv, returns_bind.mpr
      ⟨_, hBinds, returns_pure _⟩⟩⟩

-- ---------------------------------------------------------------------------
-- What it leaves
-- ---------------------------------------------------------------------------

/-- **`set_task` over memory** leaves what `set_task` of the protocol leaves. -/
theorem setTask_shows (h : setTask task d pipes = .ok (d', pipes')) (request : Nat) :
    d'.Shows (Block.setTask request task) := by
  obtain ⟨fds, -, hObserve⟩ := setTask_observe h
  exact ⟨fds, hObserve⟩

/-- The results that are handed out are the same. -/
theorem TaskData.Shows.putResults {b : Block} (h : d.Shows b) (client : Task) :
    d.putResults client = b.putResults client := by
  obtain ⟨fds, hObserve⟩ := h
  simp only [observe, Block.observed, Observed.mk.injEq] at hObserve
  simp only [TaskData.putResults, Block.putResults, hObserve]

end Libsbox
