import Libsbox.Lib.TwoRuns
import Libsbox.Marshalling.StringVector
import Libsbox.Pipes.Streams

/-!
# libsbox — reused task blocks

The block that a worker and a container share lives as long as the container, and one task
after another is written into it. Most of its bytes outlast a task: the characters behind
the end of a shorter name, the pointers and strings behind the sentinel of a shorter
vector, the binds behind a smaller count, the descriptors and the `PATH` entry that the
last slave has added, the results of the last run.

`TaskData.observe` is what the container and the slave can read of a block. `set_task` on
two blocks with any contents ends the same way, and where it returns the two are the same
to them. `Task.observed` says what they then read: it is a function of the task and of the
descriptors that the calls of `get_pipe` have returned.

## Results

* `setTask_alike` — `set_task` over two blocks;
* `setTask_observe` — what is read of the block it has written;
* `launch_alike` — the same up to `execvpe`, with the slave's `PATH` entry.
-/

namespace Libsbox

open CMemory TwoRuns

-- ---------------------------------------------------------------------------
-- What is read of a block
-- ---------------------------------------------------------------------------

/-- A `PlainString`: `size()` and the C string. -/
structure StringView where
  size : Nat
  str : Str
  deriving DecidableEq

/-- An `IOStream`. -/
structure StreamView where
  fd : Fd
  filename : StringView
  deriving DecidableEq

/-- A `PlainStringVector`: `count()` and the C strings that `get()` leads to, the null
pointer at their end among them. -/
structure StringsView where
  count : Nat
  strings : List (Option Str)
  deriving DecidableEq

/-- A `BindData`. -/
structure BindView where
  inside : StringView
  outside : StringView
  flags : Int32
  deriving DecidableEq

/-- The vector of binds: `size()` and the binds. -/
structure BindsView where
  size : Nat
  binds : List BindView
  deriving DecidableEq

/-- A `TaskData`. -/
structure Observed where
  timeLimitMs : Int64
  wallTimeLimitMs : Int64
  memoryLimitKb : Int64
  fsizeLimitKb : Int64
  maxFiles : Int32
  maxThreads : Int32
  needIpc : Bool
  useStandardBinds : Bool
  stdinDesc : StreamView
  stdoutDesc : StreamView
  stderrDesc : StreamView
  argv : StringsView
  env : StringsView
  binds : BindsView
  timeUsageMs : Int64
  timeUsageSysMs : Int64
  timeUsageUserMs : Int64
  wallTimeUsageMs : Int64
  memoryUsageKb : Int64
  timeLimitExceeded : Bool
  wallTimeLimitExceeded : Bool
  exited : Bool
  exitCode : Int32
  signaled : Bool
  termSignal : Int32
  oomKilled : Bool
  memoryLimitHit : Bool
  error : Bool
  deriving DecidableEq

def PlainString.view {maxSize : Nat} (s : PlainString maxSize) : StringView := ⟨s.size, s.cStr⟩

def IOStream.view (desc : IOStream) : StreamView := ⟨desc.fd, desc.filename.view⟩

def PlainStringVector.view {maxItems maxTotalSize : Nat}
    (v : PlainStringVector maxItems maxTotalSize) : StringsView where
  count := v.count
  strings := (v.get.take (v.count + 1)).map (Option.map fun p => cstr (v.bytes.drop p))

def BindData.view (b : BindData) : BindView := ⟨b.inside.view, b.outside.view, b.flags⟩

/-- The binds that are read are those before `size()`. -/
def bindsView (v : PlainVector BindData bindsMax) : BindsView where
  size := v.size
  binds := (v.data.toList.take v.size).map BindData.view

def TaskData.observe (d : TaskData) : Observed where
  timeLimitMs := d.timeLimitMs
  wallTimeLimitMs := d.wallTimeLimitMs
  memoryLimitKb := d.memoryLimitKb
  fsizeLimitKb := d.fsizeLimitKb
  maxFiles := d.maxFiles
  maxThreads := d.maxThreads
  needIpc := d.needIpc
  useStandardBinds := d.useStandardBinds
  stdinDesc := d.stdinDesc.view
  stdoutDesc := d.stdoutDesc.view
  stderrDesc := d.stderrDesc.view
  argv := d.argv.view
  env := d.env.view
  binds := bindsView d.binds
  timeUsageMs := d.timeUsageMs
  timeUsageSysMs := d.timeUsageSysMs
  timeUsageUserMs := d.timeUsageUserMs
  wallTimeUsageMs := d.wallTimeUsageMs
  memoryUsageKb := d.memoryUsageKb
  timeLimitExceeded := d.timeLimitExceeded
  wallTimeLimitExceeded := d.wallTimeLimitExceeded
  exited := d.exited
  exitCode := d.exitCode
  signaled := d.signaled
  termSignal := d.termSignal
  oomKilled := d.oomKilled
  memoryLimitHit := d.memoryLimitHit
  error := d.error

-- ---------------------------------------------------------------------------
-- What a task makes readable
-- ---------------------------------------------------------------------------

def StringView.of (str : Str) : StringView := ⟨str.length, cstr str⟩

def StringsView.of (strs : List Str) : StringsView where
  count := strs.length
  strings := strs.map (fun str => some (cstr str)) ++ [none]

def BindView.of (rule : BindRule) : BindView := ⟨.of rule.inside, .of rule.outside, rule.flags⟩

/-- The call of `get_pipe` that `set_task` makes for a stream, if it makes one. -/
def Task.askPipe (task : Task) (st : StdStream) (pipes : Pipes) :
    Except Halt (Option (Fd × Fd) × Pipes) :=
  match task.asks st with
  | .pipe name => do
    let (fds, pipes) ← pipes.getPipe name
    return (some fds, pipes)
  | _ => .ok (none, pipes)

/-- What the calls of `get_pipe` in `set_task` return for the streams, one after another. -/
def Task.askPipes (task : Task) (pipes : Pipes) :
    Except Halt ((StdStream → Option (Fd × Fd)) × Pipes) := do
  let (stdin, pipes) ← task.askPipe .stdin pipes
  let (stdout, pipes) ← task.askPipe .stdout pipes
  let (stderr, pipes) ← task.askPipe .stderr pipes
  return (fun
    | .stdin => stdin
    | .stdout => stdout
    | .stderr => stderr, pipes)

/-- The description of a stream for which `get_pipe` has returned `fds`. -/
def Task.streamView (task : Task) (st : StdStream) (fds : Option (Fd × Fd)) : StreamView :=
  match task.asks st with
  | .file => ⟨-1, .of (fileName (task.filename st))⟩
  | .pipe _ => ⟨(fds.map st.pipeEnd.fd).getD (-1), .of []⟩
  | .stdout => ⟨stdoutFileno, .of []⟩

/-- What is read of a block with a new task. -/
def Task.observed (task : Task) (fds : StdStream → Option (Fd × Fd)) : Observed where
  timeLimitMs := task.timeLimitMs
  wallTimeLimitMs := task.wallTimeLimitMs
  memoryLimitKb := task.memoryLimitKb
  fsizeLimitKb := task.fsizeLimitKb
  maxFiles := task.maxFiles
  maxThreads := task.maxThreads
  needIpc := task.needIpc
  useStandardBinds := task.useStandardBinds
  stdinDesc := task.streamView .stdin (fds .stdin)
  stdoutDesc := task.streamView .stdout (fds .stdout)
  stderrDesc := task.streamView .stderr (fds .stderr)
  argv := .of task.argv
  env := .of task.env
  binds := ⟨task.binds.length, task.binds.map BindView.of⟩
  timeUsageMs := -1
  timeUsageSysMs := -1
  timeUsageUserMs := -1
  wallTimeUsageMs := -1
  memoryUsageKb := -1
  timeLimitExceeded := false
  wallTimeLimitExceeded := false
  exited := false
  exitCode := -1
  signaled := false
  termSignal := -1
  oomKilled := false
  memoryLimitHit := false
  error := true

-- ---------------------------------------------------------------------------
-- Containers are read through what they hold
-- ---------------------------------------------------------------------------

theorem PlainString.Holds.view_eq {maxSize : Nat} {s : PlainString maxSize} {str : Str}
    (h : s.Holds str) : s.view = .of str := by
  rw [PlainString.view, cStr_of_holds h, h.1]
  rfl

theorem bindsView_of_holds {v : PlainVector BindData bindsMax} {binds : List BindData}
    (h : v.Holds binds) : bindsView v = ⟨binds.length, binds.map BindData.view⟩ := by
  obtain ⟨hSize, rest, hData⟩ := h
  rw [bindsView, hData, hSize, List.take_left]

section Vectors

variable {maxItems maxTotalSize : Nat} {v : PlainStringVector maxItems maxTotalSize}
  {strs : List Str}

theorem PlainStringVector.Holds.view_eq (h : v.Holds strs) : v.view = .of strs := by
  obtain ⟨-, rest, hItems⟩ := h.items
  have hTake : v.get.take (v.count + 1) = (offsets 0 strs).map some ++ [none] := by
    rw [get, hItems, h.count_eq]
    exact List.take_left' (by simp)
  have hStrings := congrArg (List.map some) h.cstr_offsets
  rw [List.map_map, List.map_map] at hStrings
  rw [view, hTake, h.count_eq, List.map_append, List.map_map]
  exact congrArg (fun strings => StringsView.mk strs.length (strings ++ [none])) hStrings

end Vectors

-- ---------------------------------------------------------------------------
-- What set_task writes
-- ---------------------------------------------------------------------------

theorem setStream_view {what : String} (task : Task) (st : StdStream) {desc desc' : IOStream}
    {pipes pipes' : Pipes}
    (h : setStream what st.pipeEnd.fd (st = .stderr) (task.filename st) desc pipes =
      .ok (desc', pipes')) :
    ∃ fds, task.askPipe st pipes = .ok (fds, pipes') ∧ desc'.view = task.streamView st fds := by
  have hCases := setStream_cases h
  unfold Task.askPipe Task.streamView Task.asks IOStream.view
  split at hCases
  · rename_i hAt
    rw [if_pos hAt]
    obtain ⟨hHolds, hFd⟩ := hCases
    rw [hHolds.view_eq]
    split at hFd
    · rename_i hStdout
      rw [if_pos (by simpa using hStdout)]
      obtain ⟨hFd, rfl⟩ := hFd
      exact ⟨none, rfl, by rw [hFd]⟩
    · rename_i hPipe
      rw [if_neg (by simpa using hPipe)]
      obtain ⟨fds, hGet, hFd⟩ := hFd
      refine ⟨some fds, ?_, by rw [hFd]; rfl⟩
      show (pipes.getPipe ((task.filename st).drop 1) >>= _) = _
      rw [hGet]
      rfl
  · rename_i hFile
    rw [if_neg hFile]
    obtain ⟨hHolds, hFd, rfl⟩ := hCases
    exact ⟨none, rfl, by rw [hHolds.view_eq, hFd]⟩

theorem bindData_new_view {rule : BindRule} {b : BindData} (h : BindData.new rule = .ok b) :
    b.view = .of rule := by
  rcases bindData_new_cases rule with ⟨-, msg, hDie⟩ | ⟨-, b', hOk, hInside, hOutside, hFlags⟩
  · rw [hDie] at h
    cases h
  · rw [hOk] at h
    cases h
    rw [BindData.view, hInside.view_eq, hOutside.view_eq, hFlags]
    rfl

theorem setBinds_view {v w : PlainVector BindData bindsMax} {rules : List BindRule}
    (h : setBinds v rules = .ok w) : bindsView w = ⟨rules.length, rules.map BindView.of⟩ := by
  rcases setBinds_cases rules v with
    ⟨-, hDie⟩ | ⟨-, ⟨e, -, hSet⟩ | ⟨binds, w', hMap, hSet, hHolds⟩⟩
  · rw [hDie] at h
    cases h
  · rw [hSet] at h
    cases h
  · rw [hSet] at h
    cases h
    have hViews := map_eq_of_mapM (fun _ _ => bindData_new_view) hMap
    have hLength := congrArg List.length hViews
    rw [List.length_map, List.length_map] at hLength
    rw [bindsView_of_holds hHolds, hViews, hLength]

/-- **What is read of the block** that `set_task` has written depends on the task and on
what the calls of `get_pipe` have returned. -/
theorem setTask_observe {task : Task} {d d' : TaskData} {pipes pipes' : Pipes}
    (h : setTask task d pipes = .ok (d', pipes')) :
    ∃ fds, task.askPipes pipes = .ok (fds, pipes') ∧ d'.observe = task.observed fds := by
  obtain ⟨pipes1, pipes2, hCalls⟩ := setTask_calls h
  obtain ⟨stdin, hAsk1, hView1⟩ := setStream_view task .stdin hCalls.stdin
  obtain ⟨stdout, hAsk2, hView2⟩ := setStream_view task .stdout hCalls.stdout
  obtain ⟨stderr, hAsk3, hView3⟩ := setStream_view task .stderr hCalls.stderr
  refine ⟨fun
    | .stdin => stdin
    | .stdout => stdout
    | .stderr => stderr, ?_, ?_⟩
  · show (task.askPipe .stdin pipes >>= _) = _
    rw [hAsk1]
    show (task.askPipe .stdout pipes1 >>= _) = _
    rw [hAsk2]
    show (task.askPipe .stderr pipes2 >>= _) = _
    rw [hAsk3]
    rfl
  · have hArgv := (setStrings_ok_holds hCalls.argv).view_eq
    have hEnv := (setStrings_ok_holds hCalls.env).view_eq
    have hBinds := setBinds_view hCalls.binds
    rw [hCalls.fields]
    simp only [TaskData.observe, Task.observed, hView1, hView2, hView3, hArgv, hEnv, hBinds]

-- ---------------------------------------------------------------------------
-- Two blocks
-- ---------------------------------------------------------------------------

theorem setStream_alike (what : String) (pipeEnd : Fd × Fd → Fd) (stdoutAllowed : Bool)
    (filename : Str) (desc₁ desc₂ : IOStream) (pipes : Pipes) :
    Alike (fun r₁ r₂ => r₁.1.view = r₂.1.view ∧ r₁.2 = r₂.2)
      (setStream what pipeEnd stdoutAllowed filename desc₁ pipes)
      (setStream what pipeEnd stdoutAllowed filename desc₂ pipes) := by
  have hSame : ∀ (fd : Fd) {name₁ name₂ : PlainString pathMax} {str : Str}, name₁.Holds str →
      name₂.Holds str → IOStream.view ⟨fd, name₁⟩ = IOStream.view ⟨fd, name₂⟩ := by
    intro fd name₁ name₂ str h₁ h₂
    rw [IOStream.view, IOStream.view, h₁.view_eq, h₂.view_eq]
  obtain ⟨name₁, h₁⟩ := setStream_eq what pipeEnd stdoutAllowed filename desc₁ pipes
  obtain ⟨name₂, h₂⟩ := setStream_eq what pipeEnd stdoutAllowed filename desc₂ pipes
  by_cases hAt : filename.head? = some 64
  · rw [if_pos hAt] at h₁ h₂
    rw [h₁.2, h₂.2]
    split
    · exact alike_ok ⟨hSame stdoutFileno h₁.1 h₂.1, rfl⟩
    · refine (alike_self (R := Eq) (fun _ => rfl) (pipes.getPipe (filename.drop 1))).bind ?_
      rintro ⟨fds, pipes'⟩ - rfl
      exact alike_ok ⟨hSame (pipeEnd fds) h₁.1 h₂.1, rfl⟩
  · rw [if_neg hAt] at h₁ h₂
    by_cases hLong : filename.length > pathMax
    · rw [if_pos hLong] at h₁ h₂
      rw [h₁, h₂]
      exact alike_error _
    · rw [if_neg hLong] at h₁ h₂
      rw [h₁.2, h₂.2]
      exact alike_ok ⟨hSame (-1) h₁.1 h₂.1, rfl⟩

theorem setStrings_alike {maxItems maxTotalSize : Nat} (what : String)
    (v₁ v₂ : PlainStringVector maxItems maxTotalSize) (strs : List Str) :
    Alike (fun w₁ w₂ => w₁.Holds strs ∧ w₂.Holds strs)
      (setStrings what v₁ strs) (setStrings what v₂ strs) := by
  by_cases hFits : strs.length ≤ maxItems ∧ (strs.map List.length).sum ≤ maxTotalSize
  · obtain ⟨w₁, hOk₁, hHolds₁⟩ := setStrings_holds what v₁ hFits.1 hFits.2
    obtain ⟨w₂, hOk₂, hHolds₂⟩ := setStrings_holds what v₂ hFits.1 hFits.2
    rw [hOk₁, hOk₂]
    exact alike_ok ⟨hHolds₁, hHolds₂⟩
  · obtain ⟨msg, hDie⟩ := setStrings_refuses what hFits
    rw [hDie, hDie]
    exact alike_error _

theorem setBinds_alike (v₁ v₂ : PlainVector BindData bindsMax) (rules : List BindRule) :
    Alike (fun w₁ w₂ => bindsView w₁ = bindsView w₂) (setBinds v₁ rules) (setBinds v₂ rules) := by
  rcases setBinds_cases rules v₁ with
    ⟨hCount, hDie₁⟩ | ⟨hCount, ⟨e, hMap, hSet₁⟩ | ⟨binds, w₁, hMap, hSet₁, hHolds₁⟩⟩
  · rcases setBinds_cases rules v₂ with ⟨-, hDie₂⟩ | ⟨hCount', -⟩
    · rw [hDie₁, hDie₂]
      exact alike_error _
    · omega
  · rcases setBinds_cases rules v₂ with
      ⟨hCount', -⟩ | ⟨-, ⟨e', hMap', hSet₂⟩ | ⟨binds', w₂, hMap', -, -⟩⟩
    · omega
    · rw [hMap] at hMap'
      cases hMap'
      rw [hSet₁, hSet₂]
      exact alike_error _
    · rw [hMap] at hMap'
      cases hMap'
  · rcases setBinds_cases rules v₂ with
      ⟨hCount', -⟩ | ⟨-, ⟨e', hMap', -⟩ | ⟨binds', w₂, hMap', hSet₂, hHolds₂⟩⟩
    · omega
    · rw [hMap] at hMap'
      cases hMap'
    · rw [hMap] at hMap'
      cases hMap'
      rw [hSet₁, hSet₂]
      refine alike_ok ?_
      rw [bindsView_of_holds hHolds₁, bindsView_of_holds hHolds₂]

/-- **`set_task` over two blocks** ends the same way, and where it returns it leaves blocks
that read the same. -/
theorem setTask_alike (task : Task) (d₁ d₂ : TaskData) (pipes : Pipes) :
    Alike (fun r₁ r₂ => r₁.1.observe = r₂.1.observe ∧ r₁.2 = r₂.2)
      (setTask task d₁ pipes) (setTask task d₂ pipes) := by
  refine (setStream_alike _ _ _ _ _ _ _).bind ?_
  rintro ⟨stdin₁, pipes1⟩ ⟨stdin₂, -⟩ ⟨hStdin, rfl⟩
  refine (setStream_alike _ _ _ _ _ _ _).bind ?_
  rintro ⟨stdout₁, pipes2⟩ ⟨stdout₂, -⟩ ⟨hStdout, rfl⟩
  refine (setStream_alike _ _ _ _ _ _ _).bind ?_
  rintro ⟨stderr₁, pipes3⟩ ⟨stderr₂, -⟩ ⟨hStderr, rfl⟩
  refine (setStrings_alike _ _ _ _).bind ?_
  rintro argv₁ argv₂ ⟨hArgv₁, hArgv₂⟩
  refine (setStrings_alike _ _ _ _).bind ?_
  rintro env₁ env₂ ⟨hEnv₁, hEnv₂⟩
  refine (setBinds_alike _ _ _).bind ?_
  intro binds₁ binds₂ hBinds
  refine alike_ok ⟨?_, rfl⟩
  simp only [TaskData.observe, hStdin, hStdout, hStderr, hArgv₁.view_eq, hArgv₂.view_eq,
    hEnv₁.view_eq, hEnv₂.view_eq, hBinds]

-- ---------------------------------------------------------------------------
-- The slave's PATH entry
-- ---------------------------------------------------------------------------

theorem addPath_alike {d₁ d₂ : TaskData} {env : List Str} (pathEnv : Option Str)
    (h₁ : d₁.env.Holds env) (h₂ : d₂.env.Holds env) (hSame : d₁.observe = d₂.observe) :
    Alike (fun d₁' d₂' => d₁'.observe = d₂'.observe) (addPath pathEnv d₁) (addPath pathEnv d₂) := by
  have hHas : hasPath d₁.env = hasPath d₂.env := by
    rw [Bool.eq_iff_iff, hasPath_iff h₁, hasPath_iff h₂]
  unfold addPath
  rw [hHas]
  split
  · exact alike_ok hSame
  cases pathEnv with
  | none => exact alike_ok hSame
  | some path =>
    have hRoom := (PlainStringVector.add_eq_some_iff h₁ (pathEntry path)).trans
      (PlainStringVector.add_eq_some_iff h₂ (pathEntry path)).symm
    rcases PlainStringVector.add_cases h₁ (pathEntry path) with ⟨-, hNone₁⟩ | ⟨w₁, hSome₁, hHolds₁⟩
    · have hNone₂ : d₂.env.add (pathEntry path) = none := by
        rw [Option.eq_none_iff_forall_ne_some]
        intro w hSome
        obtain ⟨w', hSome'⟩ := hRoom.mpr ⟨w, hSome⟩
        rw [hNone₁] at hSome'
        cases hSome'
      dsimp only
      rw [hNone₁, hNone₂]
      exact alike_error _
    · rcases PlainStringVector.add_cases h₂ (pathEntry path) with ⟨-, hNone₂⟩ | ⟨w₂, hSome₂, hHolds₂⟩
      · obtain ⟨w, hSome⟩ := hRoom.mp ⟨w₁, hSome₁⟩
        rw [hNone₂] at hSome
        cases hSome
      · dsimp only
        rw [hSome₁, hSome₂]
        refine alike_ok ?_
        show { d₁.observe with env := w₁.view } = { d₂.observe with env := w₂.view }
        rw [hSame, hHolds₁.view_eq, hHolds₂.view_eq]

/-- Nor does anything else carry over to what `execvpe` is given. -/
theorem launch_alike (task : Task) (d₁ d₂ : TaskData) (pipes : Pipes) (pathEnv : Option Str) :
    Alike (fun d₁' d₂' => d₁'.observe = d₂'.observe)
      (launch task d₁ pipes pathEnv) (launch task d₂ pipes pathEnv) := by
  have hSet := (setTask_alike task d₁ d₂ pipes).mono fun r₁ r₂ hOk₁ hOk₂ hSame =>
    And.intro hSame.1 (And.intro (setTask_holds hOk₁).2 (setTask_holds hOk₂).2)
  refine hSet.bind ?_
  rintro ⟨d₁', pipes₁⟩ ⟨d₂', pipes₂⟩ ⟨hSame, hEnv₁, hEnv₂⟩
  exact addPath_alike pathEnv hEnv₁ hEnv₂ hSame

-- ---------------------------------------------------------------------------
-- Nothing is carried over
-- ---------------------------------------------------------------------------

/--
**Reused blocks carry nothing over.** Whatever two blocks contain, `set_task` refuses a task
with the same message over both or accepts it over both, with the same pipes, and then the
two read the same in every field. What is read of a block is a function of the task and of
the descriptors that `get_pipe` has returned.
-/
theorem setTask_carries_nothing_over (task : Task) :
    (∀ (d₁ d₂ : TaskData) (pipes : Pipes),
      (setTask task d₁ pipes).map (Prod.map TaskData.observe id) =
        (setTask task d₂ pipes).map (Prod.map TaskData.observe id)) ∧
    ∀ (d d' : TaskData) (pipes pipes' : Pipes), setTask task d pipes = .ok (d', pipes') →
      ∃ fds, task.askPipes pipes = .ok (fds, pipes') ∧ d'.observe = task.observed fds := by
  refine ⟨fun d₁ d₂ pipes => ?_, fun d d' pipes pipes' hSet => setTask_observe hSet⟩
  refine alike_iff_map_eq.mp ((setTask_alike task d₁ d₂ pipes).mono ?_)
  rintro r₁ r₂ - - ⟨hBlock, hPipes⟩
  exact Prod.ext hBlock hPipes

/-- A block after a task that has failed, with the descriptor of its standard input and the
`PATH` of its slave still in it. -/
def usedData : TaskData :=
  { TaskData.new with
    stdinDesc := { fd := 9 }
    env := (PlainStringVector.new.add (lit "PATH=/bin")).getD PlainStringVector.new
    exited := true
    exitCode := 3
    timeUsageMs := 100 }

/-- Its standard input comes from a pipe. -/
def readerTask : Task := { argv := [lit "cat"], stdin := { filename := lit "@in" } }

theorem setTask_carries_nothing_over_reader :
    ∃ d₁ d₂ pipes', setTask readerTask TaskData.new ⟨[], [5, 6]⟩ = .ok (d₁, pipes') ∧
      setTask readerTask usedData ⟨[], [5, 6]⟩ = .ok (d₂, pipes') ∧ d₁.observe = d₂.observe ∧
      ∃ fds, readerTask.askPipes ⟨[], [5, 6]⟩ = .ok (fds, pipes') ∧
        d₂.observe = readerTask.observed fds := by
  let made : Pipes := ⟨[(lit "in", 5, 6)], []⟩
  obtain ⟨stdin, hStdin⟩ : ∃ stdin,
      setStdin readerTask.stdin.filename TaskData.new.stdinDesc ⟨[], [5, 6]⟩ =
        .ok (stdin, made) :=
    setStream_pipe "stdin" Prod.fst {} rfl rfl
  obtain ⟨stdout, hStdout⟩ : ∃ stdout,
      setStdout readerTask.stdout.filename TaskData.new.stdoutDesc made = .ok (stdout, made) :=
    setStream_disabled "stdout" Prod.snd false {} made
  obtain ⟨stderr, hStderr⟩ : ∃ stderr,
      setStderr readerTask.stderr.filename TaskData.new.stderrDesc made = .ok (stderr, made) :=
    setStream_disabled "stderr" Prod.snd true {} made
  obtain ⟨d₁, hSet₁⟩ := setTask_of_streams hStdin hStdout hStderr rfl (by decide) (by decide)
  obtain ⟨hSame, hReads⟩ := setTask_carries_nothing_over readerTask
  have hAlike := alike_iff_map_eq.mpr (hSame TaskData.new usedData ⟨[], [5, 6]⟩)
  rw [hSet₁] at hAlike
  obtain ⟨⟨d₂, pipes'⟩, hSet₂, hBoth⟩ := hAlike.ok_left
  obtain ⟨hBlock, hPipes⟩ := Prod.mk.inj hBoth
  obtain rfl : made = pipes' := hPipes
  exact ⟨d₁, d₂, made, hSet₁, hSet₂, hBlock, hReads usedData d₂ _ made hSet₂⟩

end Libsbox
