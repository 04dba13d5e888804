import Libsbox.Model.TaskData

/-!
# libsbox — capacity of the task block

`set_task` checks the strings of a request against the capacity of the vectors
they go to, and these checks are enough for everything `set_task` itself stores
(`setTask_inBounds`).

They are not enough for the `PATH` entry that the slave adds to `env` later.
That vector is declared with one entry and 1024 bytes to spare for it, but
`set_task` asks the vector for its capacity, so a request may use up the spare
room as well. `addPath_inBounds_iff` says when the slave's `add` then still
stays inside the arrays.

## Results

* `setTask_holds` — what `set_task` leaves in `argv` and `env`.
* `setTask_inBounds` — no store of `set_task` leaves its array.
* `launch_inBounds_iff` — the same with the slave's `PATH` entry.
-/

namespace Libsbox

open CMemory

-- ---------------------------------------------------------------------------
-- set_task stays inside the arrays
-- ---------------------------------------------------------------------------

theorem assign_holds (s : PlainString pathMax) (str : Str) (h : str.length ≤ pathMax) :
    ∃ t, s.assign str = some t ∧ t.Holds (cstr str) := by
  apply PlainString.set_holds
  have hCut : (cstr str).length ≤ str.length := (List.takeWhile_sublist _).length_le
  exact le_trans hCut h

theorem getPipe_inBounds (pipes : Pipes) (pipeName : Str) : InBounds (pipes.getPipe pipeName) := by
  unfold Pipes.getPipe
  split
  · exact inBounds_ok _
  · split
    · exact inBounds_ok _
    · exact inBounds_die _

/-- The file that a name asks for. -/
def fileName (filename : Str) : Str := if filename.isEmpty then lit "/dev/null" else filename

theorem fileName_isEmpty (filename : Str) : (fileName filename).isEmpty = false := by
  unfold fileName
  split
  · rfl
  · rename_i hSome
    exact Bool.eq_false_iff.mpr hSome

/-- **What a stream block of `set_task` does.** The name it leaves is empty or that of the
file, whatever was there before. -/
theorem setStream_eq (what : String) (pipeEnd : Fd × Fd → Fd) (stdoutAllowed : Bool)
    (filename : Str) (desc : IOStream) (pipes : Pipes) :
    ∃ name : PlainString pathMax,
      if filename.head? = some 64 then
        name.Holds [] ∧ setStream what pipeEnd stdoutAllowed filename desc pipes =
          if (stdoutAllowed && filename.drop 1 == lit "_stdout") = true then
            .ok (⟨stdoutFileno, name⟩, pipes)
          else do
            let (fds, pipes) ← pipes.getPipe (filename.drop 1)
            return (⟨pipeEnd fds, name⟩, pipes)
      else if filename.length > pathMax then
        setStream what pipeEnd stdoutAllowed filename desc pipes =
          .error (largerThanMaximum (what ++ " filename") filename.length pathMax)
      else
        name.Holds (fileName filename) ∧
          setStream what pipeEnd stdoutAllowed filename desc pipes = .ok (⟨-1, name⟩, pipes) := by
  obtain ⟨empty, hAssign, hEmpty⟩ := assign_holds desc.filename [] (Nat.zero_le _)
  unfold setStream
  rw [hAssign]
  by_cases hNone : filename.isEmpty = true
  · obtain ⟨devNull, hNull, hHolds⟩ := assign_holds empty (lit "/dev/null") (by decide)
    have hNil : filename = [] := List.isEmpty_iff.mp hNone
    have hAt : ¬ filename.head? = some 64 := by simp [hNil]
    have hShort : ¬ filename.length > pathMax := by simp [hNil]
    refine ⟨devNull, ?_⟩
    rw [if_neg hAt, if_neg hShort, fileName, if_pos hNone]
    refine ⟨hHolds, ?_⟩
    show (if filename.isEmpty = true then _ else _) = _
    rw [if_pos hNone, hNull]
    rfl
  · by_cases hAt : filename.head? = some 64
    · refine ⟨empty, ?_⟩
      rw [if_pos hAt]
      refine ⟨hEmpty, ?_⟩
      show (if filename.isEmpty = true then _ else _) = _
      rw [if_neg hNone, if_pos hAt]
      rfl
    · by_cases hLong : filename.length > pathMax
      · refine ⟨empty, ?_⟩
        rw [if_neg hAt, if_pos hLong]
        show (if filename.isEmpty = true then _ else _) = _
        rw [if_neg hNone, if_neg hAt, if_pos hLong]
        rfl
      · obtain ⟨name, hSet, hHolds⟩ := PlainString.set_holds empty (Nat.not_lt.mp hLong)
        refine ⟨name, ?_⟩
        rw [if_neg hAt, if_neg hLong, fileName, if_neg hNone]
        refine ⟨hHolds, ?_⟩
        show (if filename.isEmpty = true then _ else _) = _
        rw [if_neg hNone, if_neg hAt, if_neg hLong, hSet]
        rfl

theorem setStream_inBounds (what : String) (pipeEnd : Fd × Fd → Fd) (stdoutAllowed : Bool)
    (filename : Str) (desc : IOStream) (pipes : Pipes) :
    InBounds (setStream what pipeEnd stdoutAllowed filename desc pipes) := by
  obtain ⟨name, h⟩ := setStream_eq what pipeEnd stdoutAllowed filename desc pipes
  split at h
  · rw [h.2]
    split
    · exact inBounds_ok _
    · exact (getPipe_inBounds _ _).bind fun _ _ => inBounds_ok _
  · split at h
    · rw [h]
      exact inBounds_die _
    · rw [h.2]
      exact inBounds_ok _

/-- A disabled stream becomes `/dev/null`. -/
theorem setStream_disabled (what : String) (pipeEnd : Fd × Fd → Fd) (stdoutAllowed : Bool)
    (desc : IOStream) (pipes : Pipes) :
    ∃ desc', setStream what pipeEnd stdoutAllowed [] desc pipes = .ok (desc', pipes) := by
  obtain ⟨name, -, h⟩ := setStream_eq what pipeEnd stdoutAllowed [] desc pipes
  exact ⟨_, h⟩

/-- The strings of a request that pass the checks are copied. -/
theorem setStrings_holds {maxItems maxTotalSize : Nat} (what : String)
    (v : PlainStringVector maxItems maxTotalSize) {strs : List Str}
    (hCount : strs.length ≤ maxItems) (hTotal : (strs.map List.length).sum ≤ maxTotalSize) :
    ∃ w, setStrings what v strs = .ok w ∧ w.Holds strs := by
  obtain ⟨cleared, hClear, hHolds⟩ := PlainStringVector.clear_holds v
  have hBytes : (packed ([] ++ strs)).length ≤ maxTotalSize + maxItems := by
    rw [List.nil_append, packed_length]
    omega
  obtain ⟨w, hAdd, hw⟩ := PlainStringVector.addAll_holds hHolds strs (by simpa using hCount) hBytes
  refine ⟨w, ?_, hw⟩
  have hCount' : ¬ strs.length > v.maxCount := Nat.not_lt.mpr hCount
  have hTotal' : ¬ (strs.map List.length).sum > v.maxSize := Nat.not_lt.mpr hTotal
  simp only [setStrings, hCount', hTotal', if_false, hClear]
  simp [checked, hAdd, Bind.bind, Except.bind]

/-- Strings that do not fit are refused, whatever was there before. -/
theorem setStrings_refuses {maxItems maxTotalSize : Nat} (what : String) {strs : List Str}
    (hLarge : ¬ (strs.length ≤ maxItems ∧ (strs.map List.length).sum ≤ maxTotalSize)) :
    ∃ msg, ∀ v : PlainStringVector maxItems maxTotalSize,
      setStrings what v strs = .error (.die msg) := by
  unfold setStrings PlainStringVector.maxCount PlainStringVector.maxSize
  dsimp only
  by_cases hCount : strs.length > maxItems
  · exact ⟨_, fun v => if_pos hCount⟩
  · have hTotal : (strs.map List.length).sum > maxTotalSize := by omega
    exact ⟨_, fun v => (if_neg hCount).trans (if_pos hTotal)⟩

/-- The strings that `set_task` accepts for a vector fit into it. -/
theorem setStrings_cases {maxItems maxTotalSize : Nat} (what : String)
    (v : PlainStringVector maxItems maxTotalSize) (strs : List Str) :
    (∃ msg, setStrings what v strs = .error (.die msg)) ∨
      ∃ w, setStrings what v strs = .ok w ∧ w.Holds strs := by
  by_cases hFits : strs.length ≤ maxItems ∧ (strs.map List.length).sum ≤ maxTotalSize
  · exact .inr (setStrings_holds what v hFits.1 hFits.2)
  · obtain ⟨msg, hDie⟩ := setStrings_refuses what hFits
    exact .inl ⟨msg, hDie v⟩

theorem setStrings_inBounds {maxItems maxTotalSize : Nat} (what : String)
    (v : PlainStringVector maxItems maxTotalSize) (strs : List Str) :
    InBounds (setStrings what v strs) := by
  rcases setStrings_cases what v strs with ⟨msg, h⟩ | ⟨w, h, -⟩
  · rw [h]
    exact inBounds_die msg
  · rw [h]
    exact inBounds_ok w

/-- A bind with paths that are not too long is built with these. -/
theorem bindData_new_cases (rule : BindRule) :
    (¬ (rule.inside.length ≤ pathMax ∧ rule.outside.length ≤ pathMax) ∧
        ∃ msg, BindData.new rule = .error (.die msg)) ∨
      (rule.inside.length ≤ pathMax ∧ rule.outside.length ≤ pathMax) ∧
        ∃ b, BindData.new rule = .ok b ∧ b.inside.Holds rule.inside ∧
          b.outside.Holds rule.outside ∧ b.flags = rule.flags := by
  unfold BindData.new
  split
  · rename_i hInside
    exact .inl ⟨fun h => Nat.not_le.mpr hInside h.1, _, rfl⟩
  · rename_i hInside
    split
    · rename_i hOutside
      exact .inl ⟨fun h => Nat.not_le.mpr hOutside h.2, _, rfl⟩
    · rename_i hOutside
      obtain ⟨inside, hSet, hHolds⟩ :=
        PlainString.set_holds (PlainString.new : PlainString pathMax) (Nat.not_lt.mp hInside)
      obtain ⟨outside, hSet', hHolds'⟩ :=
        PlainString.set_holds (PlainString.new : PlainString pathMax) (Nat.not_lt.mp hOutside)
      rw [hSet, hSet']
      exact .inr ⟨⟨Nat.not_lt.mp hInside, Nat.not_lt.mp hOutside⟩, ⟨inside, outside, rule.flags⟩,
        rfl, hHolds, hHolds', rfl⟩

theorem bindData_new_inBounds (rule : BindRule) : InBounds (BindData.new rule) := by
  rcases bindData_new_cases rule with ⟨-, msg, hDie⟩ | ⟨-, b, hOk, -⟩
  · rw [hDie]
    exact inBounds_die msg
  · rw [hOk]
    exact inBounds_ok b

/-- Where there is room, the binds are built one after another and go behind those that are
there. -/
theorem addBinds_cases (rules : List BindRule) {v : PlainVector BindData bindsMax}
    {before : List BindData} (hHolds : v.Holds before)
    (hRoom : before.length + rules.length ≤ bindsMax) :
    (∃ e, rules.mapM BindData.new = .error e ∧ addBinds v rules = .error e) ∨
      ∃ binds w, rules.mapM BindData.new = .ok binds ∧ addBinds v rules = .ok w ∧
        w.Holds (before ++ binds) := by
  induction rules generalizing v before with
  | nil => exact .inr ⟨[], v, rfl, rfl, by rwa [List.append_nil]⟩
  | cons rule rules ih =>
    rw [List.length_cons] at hRoom
    cases hNew : BindData.new rule with
    | error e =>
      have hMap : (rule :: rules).mapM BindData.new = .error e := by
        rw [List.mapM_cons, hNew]
        rfl
      have hAdd : addBinds v (rule :: rules) = .error e := by
        rw [addBinds, hNew]
        rfl
      exact .inl ⟨e, hMap, hAdd⟩
    | ok b =>
      rcases PlainVector.pushBack_cases hHolds b with ⟨hFull, -⟩ | ⟨m, hPush, hMore⟩
      · omega
      have hMapCons : (rule :: rules).mapM BindData.new =
          rules.mapM BindData.new >>= fun binds => .ok (b :: binds) := by
        rw [List.mapM_cons, hNew]
        rfl
      have hAddCons : addBinds v (rule :: rules) = addBinds m rules := by
        rw [addBinds, hNew]
        show (checked (v.pushBack b) >>= fun v => addBinds v rules) = _
        rw [hPush]
        rfl
      have hRoom' : (before ++ [b]).length + rules.length ≤ bindsMax := by
        rw [List.length_append, List.length_singleton]
        omega
      rw [hMapCons, hAddCons]
      rcases ih hMore hRoom' with ⟨e, hMap, hAdd⟩ | ⟨binds, w, hMap, hAdd, hEnd⟩
      · rw [hMap]
        exact .inl ⟨e, rfl, hAdd⟩
      · rw [List.append_assoc, List.singleton_append] at hEnd
        rw [hMap]
        exact .inr ⟨b :: binds, w, rfl, hAdd, hEnd⟩

/-- **What the `binds` block of `set_task` does**, whatever was there before. -/
theorem setBinds_cases (rules : List BindRule) (v : PlainVector BindData bindsMax) :
    (bindsMax < rules.length ∧ setBinds v rules =
        .error (.die (lit "binds count is larger that maximum (" ++ decimal rules.length ++
          lit " > " ++ decimal bindsMax ++ lit ")"))) ∨
      rules.length ≤ bindsMax ∧
        ((∃ e, rules.mapM BindData.new = .error e ∧ setBinds v rules = .error e) ∨
          ∃ binds w, rules.mapM BindData.new = .ok binds ∧ setBinds v rules = .ok w ∧
            w.Holds binds) := by
  unfold setBinds
  by_cases hCount : rules.length > bindsMax
  · exact .inl ⟨hCount, if_pos hCount⟩
  · have hRoom : ([] : List BindData).length + rules.length ≤ bindsMax := by
      rw [List.length_nil, Nat.zero_add]
      exact Nat.not_lt.mp hCount
    rw [if_neg hCount]
    exact .inr ⟨Nat.not_lt.mp hCount, addBinds_cases rules (PlainVector.holds_clear v) hRoom⟩

theorem setBinds_inBounds (v : PlainVector BindData bindsMax) (rules : List BindRule) :
    InBounds (setBinds v rules) := by
  have hBuilt := inBounds_mapM fun rule (_ : rule ∈ rules) => bindData_new_inBounds rule
  rcases setBinds_cases rules v with ⟨-, hDie⟩ | ⟨-, ⟨e, hMap, hSet⟩ | ⟨binds, w, -, hSet, -⟩⟩
  · rw [hDie]
    exact inBounds_die _
  · rw [hMap] at hBuilt
    rw [hSet]
    intro hOut
    cases hOut
    exact hBuilt rfl
  · rw [hSet]
    exact inBounds_ok w

/-- Nothing `set_task` stores leaves its array. -/
theorem setTask_inBounds (task : Task) (d : TaskData) (pipes : Pipes) :
    InBounds (setTask task d pipes) := by
  refine (setStream_inBounds _ _ _ _ _ _).bind fun ⟨_, _⟩ _ => ?_
  refine (setStream_inBounds _ _ _ _ _ _).bind fun ⟨_, _⟩ _ => ?_
  refine (setStream_inBounds _ _ _ _ _ _).bind fun ⟨_, _⟩ _ => ?_
  refine (setStrings_inBounds _ _ _).bind fun _ _ => ?_
  refine (setStrings_inBounds _ _ _).bind fun _ _ => ?_
  exact (setBinds_inBounds _ _).bind fun _ _ => inBounds_ok _

/-- A task that `set_task` does not refuse is set. -/
theorem setTask_returns {task : Task} {d : TaskData} {pipes : Pipes}
    (hAccepts : ∀ msg, setTask task d pipes ≠ .error (.die msg)) :
    ∃ d' pipes', setTask task d pipes = .ok (d', pipes') := by
  cases hSet : setTask task d pipes with
  | error e =>
    cases e with
    | die msg => exact absurd hSet (hAccepts msg)
    | outOfBounds => exact absurd hSet (setTask_inBounds task d pipes)
  | ok r => exact ⟨r.1, r.2, rfl⟩

/-- The calls that a `set_task` has made that returns, and the fields that it sets besides
what they leave. -/
structure SetTaskCalls (task : Task) (d d' : TaskData) (pipes pipes₁ pipes₂ pipes' : Pipes) :
    Prop where
  stdin : setStdin task.stdin.filename d.stdinDesc pipes = .ok (d'.stdinDesc, pipes₁)
  stdout : setStdout task.stdout.filename d.stdoutDesc pipes₁ = .ok (d'.stdoutDesc, pipes₂)
  stderr : setStderr task.stderr.filename d.stderrDesc pipes₂ = .ok (d'.stderrDesc, pipes')
  argv : setStrings "argv" d.argv task.argv = .ok d'.argv
  env : setStrings "env" d.env task.env = .ok d'.env
  binds : setBinds d.binds task.binds = .ok d'.binds
  fields : d' = { d' with
    timeLimitMs := task.timeLimitMs
    wallTimeLimitMs := task.wallTimeLimitMs
    memoryLimitKb := task.memoryLimitKb
    fsizeLimitKb := task.fsizeLimitKb
    maxFiles := task.maxFiles
    maxThreads := task.maxThreads
    needIpc := task.needIpc
    useStandardBinds := task.useStandardBinds
    timeUsageMs := -1
    timeUsageSysMs := -1
    timeUsageUserMs := -1
    wallTimeUsageMs := -1
    memoryUsageKb := -1
    timeLimitExceeded := false
    wallTimeLimitExceeded := false
    exited := false
    exitCode := -1
    signaled := false
    termSignal := -1
    oomKilled := false
    memoryLimitHit := false
    error := true }

/-- **What `set_task` does.** -/
theorem setTask_calls {task : Task} {d d' : TaskData} {pipes pipes' : Pipes}
    (h : setTask task d pipes = .ok (d', pipes')) :
    ∃ pipes₁ pipes₂, SetTaskCalls task d d' pipes pipes₁ pipes₂ pipes' := by
  obtain ⟨⟨stdinDesc, pipes₁⟩, hStdin, hRest⟩ := bind_eq_ok h
  obtain ⟨⟨stdoutDesc, pipes₂⟩, hStdout, hRest⟩ := bind_eq_ok hRest
  obtain ⟨⟨stderrDesc, pipes₃⟩, hStderr, hRest⟩ := bind_eq_ok hRest
  obtain ⟨argv, hArgv, hRest⟩ := bind_eq_ok hRest
  obtain ⟨env, hEnv, hRest⟩ := bind_eq_ok hRest
  obtain ⟨binds, hBinds, hRest⟩ := bind_eq_ok hRest
  cases hRest
  exact ⟨pipes₁, pipes₂, hStdin, hStdout, hStderr, hArgv, hEnv, hBinds, rfl⟩

theorem setStrings_ok_holds {maxItems maxTotalSize : Nat} {what : String}
    {v w : PlainStringVector maxItems maxTotalSize} {strs : List Str}
    (h : setStrings what v strs = .ok w) : w.Holds strs := by
  rcases setStrings_cases what v strs with ⟨msg, hDie⟩ | ⟨w', hOk, hHolds⟩
  · rw [hDie] at h
    cases h
  · rw [hOk] at h
    cases h
    exact hHolds

/-- What an accepted task leaves in the two string vectors. -/
theorem setTask_holds {task : Task} {d d' : TaskData} {pipes pipes' : Pipes}
    (h : setTask task d pipes = .ok (d', pipes')) :
    d'.argv.Holds task.argv ∧ d'.env.Holds task.env := by
  obtain ⟨_, _, hCalls⟩ := setTask_calls h
  exact ⟨setStrings_ok_holds hCalls.argv, setStrings_ok_holds hCalls.env⟩

-- ---------------------------------------------------------------------------
-- The slave's PATH entry
-- ---------------------------------------------------------------------------

/-- The slave finds a `PATH` when some entry reads `PATH=` and nothing more. -/
theorem hasPath_iff {maxItems maxTotalSize : Nat} {env : PlainStringVector maxItems maxTotalSize}
    {strs : List Str} (h : env.Holds strs) :
    hasPath env = true ↔ ∃ str ∈ strs, cstr str = lit "PATH=" := by
  have hLit : cstr (lit "PATH=") = lit "PATH=" := by decide
  have hCut : ∀ str : Str, cstr (cstr str) = cstr str := fun str =>
    cstr_of_nul_free (nul_notMem_cstr str)
  rw [hasPath, List.any_eq_true]
  constructor
  · rintro ⟨i, hi, hEq⟩
    rw [List.mem_range, h.count_eq] at hi
    rw [h.str?_eq i hi] at hEq
    refine ⟨strs[i], List.getElem_mem hi, ?_⟩
    simpa [strcmpEq_iff, hLit, hCut] using hEq
  · rintro ⟨str, hMem, hEq⟩
    obtain ⟨i, hi, rfl⟩ := List.mem_iff_getElem.mp hMem
    refine ⟨i, by rw [List.mem_range, h.count_eq]; exact hi, ?_⟩
    rw [h.str?_eq i hi]
    simpa [strcmpEq_iff, hLit, hCut] using hEq

/-- When the slave's `PATH` has its room in the environment: nothing is added, or
the entry fits behind the `strs` of the request. -/
def PathFits (strs : List Str) (pathEnv : Option Str) : Prop :=
  ∀ path ∈ pathEnv, (∃ str ∈ strs, cstr str = lit "PATH=") ∨
    (strs.length ≤ envcMax ∧
      (strs.map List.length).sum + strs.length + (pathEntry path).length ≤
        envMax + 1024 + envcMax)

instance (strs : List Str) (pathEnv : Option Str) : Decidable (PathFits strs pathEnv) :=
  inferInstanceAs (Decidable (∀ path ∈ pathEnv, _))

theorem addPath_inBounds_iff {d : TaskData} {strs : List Str} (h : d.env.Holds strs)
    (pathEnv : Option Str) : InBounds (addPath pathEnv d) ↔ PathFits strs pathEnv := by
  unfold addPath
  by_cases hHas : hasPath d.env = true
  · have hFits : PathFits strs pathEnv := fun _ _ => .inl ((hasPath_iff h).mp hHas)
    simp [hHas, hFits, inBounds_ok]
  · have hNone : ¬ ∃ str ∈ strs, cstr str = lit "PATH=" := fun hEx => hHas ((hasPath_iff h).mpr hEx)
    cases pathEnv with
    | none => simp [hHas, PathFits, inBounds_ok]
    | some path =>
      have hRoom := PlainStringVector.add_eq_some_iff h (pathEntry path)
      rw [packed_length] at hRoom
      simp only [hHas, Bool.false_eq_true, if_false]
      rw [inBounds_checked_iff, hRoom, PathFits]
      simp only [Option.mem_def, Option.some.injEq, forall_eq', hNone, false_or]
      omega

-- ---------------------------------------------------------------------------
-- From the worker to execvpe
-- ---------------------------------------------------------------------------

theorem launch_inBounds_iff_of_accepted {task : Task} {d : TaskData} {pipes : Pipes}
    (hAccepts : ∀ msg, setTask task d pipes ≠ .error (.die msg)) (pathEnv : Option Str) :
    InBounds (launch task d pipes pathEnv) ↔ PathFits task.env pathEnv := by
  obtain ⟨d', pipes', hSet⟩ := setTask_returns hAccepts
  unfold launch
  rw [hSet]
  exact addPath_inBounds_iff (setTask_holds hSet).2 pathEnv

/-- A task whose streams can be set and that has no binds is accepted when its strings are. -/
theorem setTask_of_streams {task : Task} {d : TaskData} {pipes pipes₁ pipes₂ pipes₃ : Pipes}
    {stdin stdout stderr : IOStream}
    (hStdin : setStdin task.stdin.filename d.stdinDesc pipes = .ok (stdin, pipes₁))
    (hStdout : setStdout task.stdout.filename d.stdoutDesc pipes₁ = .ok (stdout, pipes₂))
    (hStderr : setStderr task.stderr.filename d.stderrDesc pipes₂ = .ok (stderr, pipes₃))
    (hBinds : task.binds = [])
    (hArgv : task.argv.length ≤ argcMax ∧ (task.argv.map List.length).sum ≤ argvMax)
    (hEnv : task.env.length ≤ envcMax + 1 ∧ (task.env.map List.length).sum ≤ envMax + 1024) :
    ∃ d', setTask task d pipes = .ok (d', pipes₃) := by
  obtain ⟨argv, hArgv', -⟩ := setStrings_holds "argv" d.argv hArgv.1 hArgv.2
  obtain ⟨env, hEnv', -⟩ := setStrings_holds "env" d.env hEnv.1 hEnv.2
  simp [setTask, hStdin, hStdout, hStderr, hArgv', hEnv', hBinds, setBinds, addBinds, Bind.bind,
    Except.bind, Pure.pure, Except.pure]

/-- A task with disabled streams and no binds is accepted when its strings are. -/
theorem setTask_accepts {task : Task} (d : TaskData) (pipes : Pipes)
    (hStdin : task.stdin.filename = []) (hStdout : task.stdout.filename = [])
    (hStderr : task.stderr.filename = []) (hBinds : task.binds = [])
    (hArgv : task.argv.length ≤ argcMax ∧ (task.argv.map List.length).sum ≤ argvMax)
    (hEnv : task.env.length ≤ envcMax + 1 ∧ (task.env.map List.length).sum ≤ envMax + 1024) :
    ∀ msg, setTask task d pipes ≠ .error (.die msg) := by
  obtain ⟨stdin, hIn⟩ := setStream_disabled "stdin" Prod.fst false d.stdinDesc pipes
  obtain ⟨stdout, hOut⟩ := setStream_disabled "stdout" Prod.snd false d.stdoutDesc pipes
  obtain ⟨stderr, hErr⟩ := setStream_disabled "stderr" Prod.snd true d.stderrDesc pipes
  rw [← hStdin] at hIn
  rw [← hStdout] at hOut
  rw [← hStderr] at hErr
  obtain ⟨d', hSet⟩ := setTask_of_streams hIn hOut hErr hBinds hArgv hEnv
  intro msg hDies
  rw [hSet] at hDies
  cases hDies

/--
**Capacity of the launch.** For a task that `set_task` accepts, every store of
`set_task` and of the slave's `PATH` entry stays inside its array if and only if
the entry still has its room: the process has no `PATH`, or some string of `env`
is exactly `PATH=`, or `env` has at most 128 strings and at most
`4096 + 1024 + 128` bytes together with their number and the entry.
-/
theorem launch_inBounds_iff (task : Task) (d : TaskData) (pipes : Pipes) (pathEnv : Option Str)
    (hAccepts : ∀ msg, setTask task d pipes ≠ .error (.die msg)) :
    InBounds (launch task d pipes pathEnv) ↔ PathFits task.env pathEnv :=
  launch_inBounds_iff_of_accepted hAccepts pathEnv

/-- The largest environment that leaves the `PATH` of a usual system its room. -/
theorem launch_inBounds_iff_full :
    InBounds (launch { argv := [lit "a"], env := List.replicate 128 (lit "A=1") } TaskData.new
      ⟨[], []⟩ (some (lit "/usr/bin:/bin"))) ↔
    PathFits (List.replicate 128 (lit "A=1")) (some (lit "/usr/bin:/bin")) :=
  launch_inBounds_iff { argv := [lit "a"], env := List.replicate 128 (lit "A=1") } TaskData.new
    ⟨[], []⟩ (some (lit "/usr/bin:/bin"))
    (setTask_accepts _ _ rfl rfl rfl rfl (by decide) (by simp [envcMax, envMax, lit]))

/-- One string more is accepted as well, and the `PATH` entry overruns `items_`. -/
theorem launch_overruns :
    ¬ ∀ (task : Task) (d : TaskData) (pipes : Pipes) (pathEnv : Option Str),
      (∀ msg, setTask task d pipes ≠ .error (.die msg)) →
      (∀ path ∈ pathEnv, (pathEntry path).length ≤ 1024) →
      InBounds (launch task d pipes pathEnv) := by
  intro h
  have hAccepts : ∀ msg, setTask { argv := [lit "a"], env := List.replicate 129 (lit "A=1") }
      TaskData.new ⟨[], []⟩ ≠ .error (.die msg) :=
    setTask_accepts _ _ rfl rfl rfl rfl (by decide) (by simp [envcMax, envMax, lit])
  have hIn := h _ _ _ (some (lit "/usr/bin:/bin")) hAccepts (by decide)
  rw [launch_inBounds_iff_of_accepted hAccepts] at hIn
  have hNoPath : cstr (lit "A=1") ≠ lit "PATH=" := by decide
  rcases hIn (lit "/usr/bin:/bin") rfl with ⟨str, hMem, hEq⟩ | ⟨hCount, -⟩
  · rw [List.eq_of_mem_replicate hMem] at hEq
    exact hNoPath hEq
  · simp [envcMax] at hCount

end Libsbox
