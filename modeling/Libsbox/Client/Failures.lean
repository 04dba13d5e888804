import Libsbox.Lib.Writes
import Libsbox.Messages.RoundTrips

/-!
# libsbox — what a failed call does to the tasks

`run_together` checks the whole response before it reads any of it: that it is JSON, that it
satisfies the schema, that it reports no error and has a result for each task. Then
`deserialize_response` reads a task's members one by one into its fields. The schema asks for
integers of any size, the reader for ones that fit into the field; so a call can still fail
there, with what came before the number already written.

## Results

* `deserializeResponse_tasks_iff` — when the reader leaves a task as it was;
* `failure_leaves_tasks_iff` — when a failed call leaves all of them so;
* `unreadable_out_of_range` — the only members that the reader refuses behind the schema.
-/

namespace Libsbox

open CMemory JsonDoc Writes

-- ---------------------------------------------------------------------------
-- One task
-- ---------------------------------------------------------------------------

/-- A member of a response's task, and the field that it sets. -/
abbrev ResponseMember := String × (Task → Json → Option Task)

/-- What `GET_MEMBER` makes of the task. -/
def readMember (value : Json) (m : ResponseMember) : PartialWrite Task := fun task =>
  (value.member? m.1).bind (m.2 task)

theorem readMembers_run (value : Json) (members : List ResponseMember) : ∀ task : Task,
    readMembers value members task =
      ((if (run (members.map (readMember value)) task).1 then responseIncorrect else {}),
        (run (members.map (readMember value)) task).2) := by
  induction members with
  | nil => exact fun _ => rfl
  | cons m members ih =>
    intro task
    have hRead : (value.member? m.1).bind (m.2 task) = readMember value m task := rfl
    rw [readMembers, List.map_cons, run, hRead]
    cases readMember value m task with
    | none => rfl
    | some next => exact ih next

/-- A value that is no object has no members. -/
theorem deserializeResponse_run (task : Task) (value : Json) :
    task.deserializeResponse value = readMembers value responseMembers task := by
  unfold Task.deserializeResponse
  split
  · rfl
  · next hObject =>
    cases value with
    | object members => exact absurd rfl hObject
    | _ => rfl

theorem responseMembers_steady :
    ∀ m ∈ responseMembers, ∀ v, Steady fun task => m.2 task v := by
  simp only [responseMembers, List.forall_mem_cons]
  refine ⟨?_, ?_, ?_, ?_, ?_, ?_, ?_, ?_, ?_, ?_, ?_, ?_, ?_, by simp⟩
  all_goals
    intro v
    refine steady_map ?_ _
    intro _ _
    rfl

theorem responseMembers_apart :
    responseMembers.Pairwise fun m m' =>
      ∀ v v', Apart (fun task => m.2 task v) fun task => m'.2 task v' := by
  simp only [responseMembers, List.pairwise_cons, List.forall_mem_cons]
  repeat' apply And.intro
  all_goals first
    | intro v v'
      refine apart_map ?_ _ _
      intro _ _ _
      rfl
    | simp

theorem readMember_steady (value : Json) :
    ∀ w ∈ responseMembers.map (readMember value), Steady w := by
  intro w hMem
  obtain ⟨m, hMember, rfl⟩ := List.mem_map.mp hMem
  exact Steady.bind (responseMembers_steady m hMember) _

theorem readMember_apart (value : Json) :
    (responseMembers.map (readMember value)).Pairwise Apart := by
  refine List.pairwise_map.mpr (responseMembers_apart.imp ?_)
  intro m m' hApart
  exact Apart.bind hApart _ _

/-- A member as it is met by the reader, with the task as it was before the call. -/
structure Reading where
  task : Task
  value : Json
  member : ResponseMember

def Reading.result (r : Reading) : Option Task := readMember r.value r.member r.task

/-- All members of a task, in the order they are read. -/
def Reading.ofTask (task : Task) (value : Json) : List Reading :=
  responseMembers.map fun m => ⟨task, value, m⟩

theorem deserializeResponse_isError_iff (task : Task) (value : Json) :
    (task.deserializeResponse value).1.isError = true ↔
      ∃ r ∈ Reading.ofTask task value, r.result = none := by
  have hFails := run_fails_iff (readMember_steady value) task task
  rw [deserializeResponse_run, readMembers_run]
  simp only [Reading.ofTask, List.mem_map, exists_exists_and_eq_and] at hFails ⊢
  refine Iff.trans ?_ hFails
  split
  · next hTrue => exact iff_of_true rfl hTrue
  · next hFalse => exact iff_of_false (by simp [Error.isError]) hFalse

/-- **A task is left as it was** if and only if every member before the first unreadable one
is what the task has already. -/
theorem deserializeResponse_tasks_iff (task : Task) (value : Json) :
    (task.deserializeResponse value).2 = task ↔
      ∀ r ∈ (Reading.ofTask task value).takeWhile fun r => r.result.isSome,
        r.result = some r.task := by
  have hSelf := run_eq_self_iff (readMember_steady value)
    (readMember_apart value) task
  rw [List.takeWhile_map, List.forall_mem_map] at hSelf
  rw [deserializeResponse_run, readMembers_run, Reading.ofTask, List.takeWhile_map,
    List.forall_mem_map]
  exact hSelf

/-! ## Behind the schema -/

theorem int64?_eq_none {v : Json} (hType : Schema.type .integer v = true) (h : v.int64? = none) :
    ∃ n, v = .int n ∧ 2 ^ 63 ≤ n.val := by
  cases v with
  | int n =>
    refine ⟨n, rfl, ?_⟩
    by_contra hLess
    obtain ⟨x, hx⟩ := (int64?_isSome_iff n).mpr (not_le.mp hLess)
    rw [h] at hx
    cases hx
  | _ => cases hType

theorem int32?_eq_none {v : Json} (hType : Schema.type .integer v = true) (h : v.int32? = none) :
    ∃ n, v = .int n ∧ ¬ (-(2 ^ 31) ≤ n.val ∧ n.val < 2 ^ 31) := by
  cases v with
  | int n =>
    refine ⟨n, rfl, fun hFits => ?_⟩
    obtain ⟨x, hx⟩ := (int32?_isSome_iff n).mpr hFits
    rw [h] at hx
    cases hx
  | _ => cases hType

theorem bool?_ne_none {v : Json} (hType : Schema.type .boolean v = true) : v.bool? ≠ none := by
  cases v with
  | bool b => exact Option.some_ne_none b
  | _ => cases hType

/-- In a result that satisfies the schema the reader refuses only numbers, and only ones that
do not fit. -/
theorem unreadable_out_of_range {value : Json} {m : ResponseMember} {task : Task}
    (hSchema : responseTaskSchema value = true) (hMem : m ∈ responseMembers)
    (h : readMember value m task = none) :
    ∃ n, value.member? m.1 = some (.int n) ∧
      (2 ^ 63 ≤ n.val ∨
        m.1 ∈ ["exit_code", "term_signal"] ∧ ¬ (-(2 ^ 31) ≤ n.val ∧ n.val < 2 ^ 31)) := by
  simp only [responseTaskSchema, Schema.allOf, List.all_cons, List.all_nil, Bool.and_true,
    Bool.and_eq_true] at hSchema
  obtain ⟨hObject, hRequired, hProperties⟩ := hSchema
  simp only [responseMembers, List.mem_cons, List.not_mem_nil, or_false] at hMem
  obtain ⟨v, hFind⟩ : ∃ v, value.member? m.1 = some v := by
    refine required_member hRequired hObject ?_
    rcases hMem with
      rfl | rfl | rfl | rfl | rfl | rfl | rfl | rfl | rfl | rfl | rfl | rfl | rfl <;> simp
  rw [readMember, hFind, Option.bind_some] at h
  rcases hMem with rfl | rfl | rfl | rfl | rfl | rfl | rfl | rfl | rfl | rfl | rfl | rfl | rfl
  all_goals first
    | have hType : Schema.type .integer v = true := properties_member hProperties (by simp) hFind
      obtain ⟨n, rfl, hBig⟩ := int64?_eq_none hType (Option.map_eq_none_iff.mp h)
      exact ⟨n, hFind, .inl hBig⟩
    | have hType : Schema.type .integer v = true := properties_member hProperties (by simp) hFind
      obtain ⟨n, rfl, hOut⟩ := int32?_eq_none hType (Option.map_eq_none_iff.mp h)
      exact ⟨n, hFind, .inr ⟨by simp, hOut⟩⟩
    | have hType : Schema.type .boolean v = true := properties_member hProperties (by simp) hFind
      exact absurd (Option.map_eq_none_iff.mp h) (bool?_ne_none hType)

-- ---------------------------------------------------------------------------
-- All tasks
-- ---------------------------------------------------------------------------

/-- All members of a response, in the order they are read. -/
def readings (tasks : List Task) (values : List Json) : List Reading :=
  (tasks.zip values).flatMap fun p => Reading.ofTask p.1 p.2

theorem takeWhile_append_of_exists {α : Type*} {p : α → Bool} {xs : List α}
    (h : ∃ x ∈ xs, p x = false) (ys : List α) :
    (xs ++ ys).takeWhile p = xs.takeWhile p := by
  induction xs with
  | nil => simp at h
  | cons x xs ih =>
    by_cases hx : p x = true
    · rw [List.cons_append, List.takeWhile_cons_of_pos hx, List.takeWhile_cons_of_pos hx, ih]
      simpa [hx] using h
    · rw [List.cons_append, List.takeWhile_cons_of_neg hx, List.takeWhile_cons_of_neg hx]

theorem deserializeResponses_isError_iff (tasks : List Task) : ∀ values : List Json,
    (deserializeResponses tasks values).error.isError = true ↔
      ∃ r ∈ readings tasks values, r.result = none := by
  induction tasks with
  | nil =>
    intro values
    simp [deserializeResponses, readings, Error.isError]
  | cons task tasks ih =>
    intro values
    cases values with
    | nil => simp [deserializeResponses, readings, Error.isError]
    | cons value values =>
      have hFirst := deserializeResponse_isError_iff task value
      have hReadings : readings (task :: tasks) (value :: values) =
        Reading.ofTask task value ++ readings tasks values := rfl
      simp only [hReadings, List.mem_append, or_and_right, exists_or, ← hFirst, ← ih values]
      rw [deserializeResponses]
      by_cases hError : (task.deserializeResponse value).1.isError = true
      · simp [hError]
      · simp [hError]

theorem deserializeResponses_tasks_iff (tasks : List Task) : ∀ values : List Json,
    (deserializeResponses tasks values).tasks = tasks ↔
      ∀ r ∈ (readings tasks values).takeWhile fun r => r.result.isSome,
        r.result = some r.task := by
  induction tasks with
  | nil =>
    intro values
    simp [deserializeResponses, readings]
  | cons task tasks ih =>
    intro values
    cases values with
    | nil => simp [deserializeResponses, readings]
    | cons value values =>
      have hFirst := deserializeResponse_tasks_iff task value
      have hFails := deserializeResponse_isError_iff task value
      have hReadings : readings (task :: tasks) (value :: values) =
        Reading.ofTask task value ++ readings tasks values := rfl
      rw [deserializeResponses, hReadings]
      by_cases hError : (task.deserializeResponse value).1.isError = true
      · -- The loop ends here, and so do the members that have been read.
        have hStop : ∃ r ∈ Reading.ofTask task value, r.result.isSome = false := by
          simpa using hFails.mp hError
        rw [takeWhile_append_of_exists hStop]
        simp only [hError, if_true, List.cons.injEq, and_true]
        exact hFirst
      · have hAll : ∀ r ∈ Reading.ofTask task value, r.result.isSome = true := by
          intro r hMem
          exact Option.isSome_iff_ne_none.mpr fun hNone => hError (hFails.mpr ⟨r, hMem, hNone⟩)
        rw [List.takeWhile_append_of_pos hAll, List.forall_mem_append]
        rw [List.takeWhile_eq_self_iff.mpr hAll] at hFirst
        simp only [hError, Bool.false_eq_true, if_false, List.cons.injEq]
        rw [hFirst, ih values]

-- ---------------------------------------------------------------------------
-- The call
-- ---------------------------------------------------------------------------

/-- The results are all readable, or those before the first unreadable member are what the
tasks have already. -/
def Settled (tasks : List Task) (values : List Json) : Prop :=
  (∀ r ∈ readings tasks values, r.result ≠ none) ∨
    ∀ r ∈ (readings tasks values).takeWhile fun r => r.result.isSome, r.result = some r.task

/-- The results in a response that passes all checks but the one on their number. -/
def resultsOf (rj : Rapidjson) (res : Str) : Option (List Json) :=
  match rj.parse res with
  | .error _ => none
  | .ok document =>
    if responseSchema document = true ∧ (document.member? "error").bind Json.cString? = none then
      (document.member? "tasks").bind Json.array?
    else none

/-- A failed call has changed no task. -/
def Outcome.LeavesTasks (outcome : Outcome) (tasks : List Task) : Prop :=
  outcome.error.isError = true → outcome.tasks = tasks

theorem deserializeResponses_leavesTasks_iff (tasks : List Task) (values : List Json) :
    (deserializeResponses tasks values).LeavesTasks tasks ↔ Settled tasks values := by
  rw [Outcome.LeavesTasks, deserializeResponses_isError_iff, deserializeResponses_tasks_iff,
    imp_iff_not_or, Settled]
  simp only [not_exists, not_and, ne_eq]

theorem readDocument_leavesTasks_iff (tasks : List Task) {document : Json}
    (hSchema : responseSchema document = true) :
    (readDocument tasks document).LeavesTasks tasks ↔
      ((document.member? "error").bind Json.cString? = none →
        ∀ values ∈ (document.member? "tasks").bind Json.array?,
          values.length = tasks.length → Settled tasks values) := by
  unfold readDocument
  cases hError : (document.member? "error").bind Json.cString? with
  | some message => simp [Outcome.LeavesTasks]
  | none =>
    obtain ⟨msg, hMsg⟩ | ⟨values, hValues⟩ := responseSchema_cases hSchema
    · rw [hError] at hMsg
      cases hMsg
    · rw [hValues]
      dsimp only [Option.getD_some]
      split
      · next hLength => simp [Outcome.LeavesTasks, hLength]
      · next hLength =>
        rw [deserializeResponses_leavesTasks_iff]
        simp [not_not.mp hLength]

theorem readResponse_leavesTasks_iff (rj : Rapidjson) (tasks : List Task) (res : Str) :
    (readResponse rj tasks res { schema := responseSchema }).1.LeavesTasks tasks ↔
      ∀ values ∈ resultsOf rj res, values.length = tasks.length → Settled tasks values := by
  unfold readResponse resultsOf
  cases rj.parse res with
  | error e => simp [Outcome.LeavesTasks]
  | ok document =>
    by_cases hSchema : responseSchema document = true
    · have hDocument := readDocument_leavesTasks_iff tasks hSchema
      simp only [List.isEmpty_nil, Bool.not_true, Bool.false_eq_true, if_false,
        SchemaValidator.validate, hSchema, if_true, true_and]
      rw [hDocument]
      by_cases hError : (document.member? "error").bind Json.cString? = none
      · simp [hError]
      · simp [hError]
    · simp [SchemaValidator.validate, hSchema, Outcome.LeavesTasks]

/-- The response of the call, if there is one, does not spoil its tasks; an old message of the
validator keeps it from being looked at. -/
def Call.Settles (rj : Rapidjson) (c : Call) (msg : Str) : Prop :=
  msg = [] → ∀ res ∈ c.response?, ∀ values ∈ resultsOf rj res,
    values.length = c.tasks.length → Settled c.tasks values

/-- **A failed call leaves the tasks alone** if and only if its response comes with no results
for them, or with results that can all be read, or with ones that are what the tasks have
already up to the first unreadable member. -/
theorem failure_leaves_tasks_iff (rj : Rapidjson) (c : Call) {validator : Option SchemaValidator}
    {msg : Str} (hHolds : HoldsMessage validator msg) :
    (runTogether rj c.tasks c.exchange validator).1.LeavesTasks c.tasks ↔ c.Settles rj msg := by
  cases hExchange : c.exchange with
  | received chunks =>
    have hResponse : c.response? = some (chunks.flatMap cstr) := by
      simp [Call.response?, hExchange]
    rw [Call.Settles, hResponse]
    unfold HoldsMessage at hHolds
    simp only [runTogether, hHolds]
    by_cases hMsg : msg = []
    · subst hMsg
      have hRead := readResponse_leavesTasks_iff rj c.tasks (chunks.flatMap cstr)
      simpa [Outcome.LeavesTasks] using hRead
    · rw [readResponse_stale rj c.tasks _ hMsg]
      simp [Outcome.LeavesTasks, hMsg]
  | _ => simp [runTogether, Outcome.LeavesTasks, Call.Settles, Call.response?, hExchange]

/-- One result, with an exit code that no `int` holds. -/
def largeExitCode : Json :=
  .object [(lit "tasks", .array [.object [
    (lit "time_usage_ms", int64 5), (lit "time_usage_sys_ms", int64 0),
    (lit "time_usage_user_ms", int64 0), (lit "wall_time_usage_ms", int64 0),
    (lit "memory_usage_kb", int64 0), (lit "time_limit_exceeded", .bool false),
    (lit "wall_time_limit_exceeded", .bool false), (lit "exited", .bool true),
    (lit "exit_code", .int ⟨2147483648, by decide, by decide⟩), (lit "signaled", .bool false),
    (lit "term_signal", int32 (-1)), (lit "oom_killed", .bool false),
    (lit "memory_limit_hit", .bool false)]])]

def largeExitCodeText : Str :=
  lit "\x7b\"tasks\":[\x7b\"time_usage_ms\":5,\"time_usage_sys_ms\":0," ++
  lit "\"time_usage_user_ms\":0,\"wall_time_usage_ms\":0,\"memory_usage_kb\":0," ++
  lit "\"time_limit_exceeded\":false,\"wall_time_limit_exceeded\":false,\"exited\":true," ++
  lit "\"exit_code\":2147483648,\"signaled\":false,\"term_signal\":-1," ++
  lit "\"oom_killed\":false,\"memory_limit_hit\":false\x7d]\x7d"

theorem nul_notMem_largeExitCodeText : (0 : UInt8) ∉ largeExitCodeText := by
  unfold largeExitCodeText
  simp only [List.mem_append, not_or]
  refine ⟨⟨⟨⟨?_, ?_⟩, ?_⟩, ?_⟩, ?_⟩ <;> simp [lit]

/-- The call fails, and the time of its task is already there. -/
theorem largeExitCode_writes :
    ¬ (runTogether (.on largeExitCodeText largeExitCode) [{}] (.received [largeExitCodeText])
      none).1.LeavesTasks [{}] := by
  have hText := nul_notMem_largeExitCodeText
  have hChunks : [largeExitCodeText].flatten = cstr largeExitCodeText := by
    rw [List.flatten_singleton, cstr_of_nul_free hText]
  intro hLeaves
  rw [Outcome.LeavesTasks, runTogether_document [{}] (Rapidjson.on_readsBack hText)
    (by decide +kernel) hChunks] at hLeaves
  have hTasks := hLeaves (by decide +kernel)
  revert hTasks
  decide +kernel

theorem failure_leaves_tasks_iff_largeExitCode :
    ¬ Call.Settles (.on largeExitCodeText largeExitCode)
      ⟨[{}], .received [largeExitCodeText]⟩ [] := fun hSettles =>
  largeExitCode_writes
    ((failure_leaves_tasks_iff (.on largeExitCodeText largeExitCode)
      ⟨[{}], .received [largeExitCodeText]⟩ holdsMessage_none).mpr hSettles)

theorem failure_changes_tasks :
    ¬ ∀ (rj : Rapidjson) (tasks : List Task) (exchange : Exchange),
      (runTogether rj tasks exchange none).1.LeavesTasks tasks := fun hClaim =>
  largeExitCode_writes (hClaim _ _ _)

end Libsbox
