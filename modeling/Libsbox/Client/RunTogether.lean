import Libsbox.Model.Messages

/-!
# libsbox — the client call and its static validator

`run_together` sends the tasks to the daemon and reads the results back. All
calls of a process share one static `SchemaValidator`, and its `error_` is both
what the constructor reports and what the last invalid document left behind:
once a response has violated the schema, every later call that gets that far
returns the old message and looks at nothing else.

## Results

* `runTogether_received` — what a call returns, by what the validator held.
* `runCalls_eq_fresh_iff` — when a sequence of calls returns what each of them
  would return in a process of its own.
-/

namespace Libsbox

open CMemory JsonDoc

/-- What the socket calls of one `run_together` come to. A `reason` is the text
of `errno`; `chunks` are the bytes the single `recv` calls deliver. -/
inductive Exchange where
  | socketFailed (reason : Str)
  | connectFailed (reason : Str)
  | sendFailed (reason : Str)
  | recvFailed (reason : Str)
  | received (chunks : List Str)

/-- What a call leaves behind: its result, the caller's tasks, and what it has
handed to `send`. -/
@[ext]
structure Outcome where
  error : Error
  tasks : List Task
  sent : Str := []
  deriving DecidableEq

/-- `message` and the NUL that is sent with it. -/
def requestMessage (rj : Rapidjson) (tasks : List Task) : Str :=
  cstr (rj.write (.object [(lit "tasks", .array (tasks.map Task.serializeRequest))])) ++ [0]

/-- The loop over `tasks`; it ends at the first task that cannot be read. -/
def deserializeResponses : List Task → List Json → Outcome
  | task :: tasks, value :: values =>
    let (error, task) := task.deserializeResponse value
    if error.isError then { error, tasks := task :: tasks }
    else
      let rest := deserializeResponses tasks values
      { rest with tasks := task :: rest.tasks }
  | tasks, _ => { error := {}, tasks }

/-- A document that satisfies the schema. -/
def readDocument (tasks : List Task) (document : Json) : Outcome :=
  match (document.member? "error").bind Json.cString? with
  | some message => { error := ⟨lit "[remote] " ++ message⟩, tasks }
  | none =>
    let values := ((document.member? "tasks").bind Json.array?).getD []
    if values.length ≠ tasks.length then
      { error := ⟨lit "Response JSON object 'tasks' array size is not equal to tasks count"⟩
        tasks }
    else deserializeResponses tasks values

/-- `Cannot parse response (offset %zi): %s`. -/
def parseError (text : Str) (offset : Nat) : Error :=
  ⟨lit "Cannot parse response (offset " ++ decimal offset ++ lit "): " ++ cstr text⟩

/-- `run_together` from the construction of `response_validator` on. -/
def readResponse (rj : Rapidjson) (tasks : List Task) (res : Str) (validator : SchemaValidator) :
    Outcome × SchemaValidator :=
  if !validator.error.isEmpty then ({ error := ⟨validator.error⟩, tasks }, validator)
  else
    match rj.parse res with
    | .error (text, offset) => ({ error := parseError text offset, tasks }, validator)
    | .ok document =>
      let (valid, validator) := validator.validate rj document
      if valid then (readDocument tasks document, validator)
      else ({ error := ⟨validator.error⟩, tasks }, validator)

/-- `run_together`. `validator` is the static `response_validator`, which the
first call to get there constructs. -/
def runTogether (rj : Rapidjson) (tasks : List Task) (exchange : Exchange)
    (validator : Option SchemaValidator) : Outcome × Option SchemaValidator :=
  match exchange with
  | .socketFailed reason =>
    ({ error := ⟨lit "Cannot create socket: " ++ cstr reason⟩, tasks }, validator)
  | .connectFailed reason =>
    ({ error := ⟨lit "Cannot connect to socket: " ++ cstr reason⟩, tasks }, validator)
  | .sendFailed reason =>
    ({ error := ⟨lit "Cannot send request: " ++ cstr reason⟩, tasks
       sent := requestMessage rj tasks }, validator)
  | .recvFailed reason =>
    ({ error := ⟨lit "Cannot receive response: " ++ cstr reason⟩, tasks
       sent := requestMessage rj tasks }, validator)
  | .received chunks =>
    let (outcome, validator) :=
      readResponse rj tasks (chunks.flatMap cstr) (validator.getD { schema := responseSchema })
    ({ outcome with sent := requestMessage rj tasks }, some validator)

-- ---------------------------------------------------------------------------
-- Sequences of calls
-- ---------------------------------------------------------------------------

/-- One call: its tasks and what happens on its connection. -/
structure Call where
  tasks : List Task
  exchange : Exchange

/-- The calls of one process, one after the other. -/
def runCalls (rj : Rapidjson) : Option SchemaValidator → List Call → List Outcome
  | _, [] => []
  | validator, c :: calls =>
    let (outcome, validator) := runTogether rj c.tasks c.exchange validator
    outcome :: runCalls rj validator calls

/-- The call in a process of its own. -/
def fresh (rj : Rapidjson) (c : Call) : Outcome := (runTogether rj c.tasks c.exchange none).1

/-- The response of a call, if one arrived. -/
def Call.response? (c : Call) : Option Str :=
  match c.exchange with
  | .received chunks => some (chunks.flatMap cstr)
  | _ => none

/-- What the validator reports about a response that is JSON and violates the schema. -/
def violation (rj : Rapidjson) (res : Str) : Option Str :=
  match rj.parse res with
  | .ok document =>
    if responseSchema document then none
    else some (lit "Invalid document: " ++ cstr (rj.schemaError responseSchema document))
  | .error _ => none

/-- `c'` does not notice that `c` came before it: the response of `c` violates no
schema, or `c'` gets no response, or one with the very same violation. -/
def Compatible (rj : Rapidjson) (c c' : Call) : Prop :=
  ∀ msg ∈ c.response?.bind (violation rj), ∀ res ∈ c'.response?, violation rj res = some msg

/-! ## One call -/

section

variable (rj : Rapidjson)

/-- The validator that a process holds: the message `msg` of the last violation,
if there was one. -/
def HoldsMessage (validator : Option SchemaValidator) (msg : Str) : Prop :=
  validator.getD { schema := responseSchema } = { schema := responseSchema, error := msg }

theorem holdsMessage_none : HoldsMessage none [] := rfl

/-- What a violation reports is no other message of `run_together`. -/
theorem violation_head {res msg : Str} (h : violation rj res = some msg) :
    msg.head? = some 73 := by -- 'I'
  unfold violation at h
  split at h
  · split at h
    · cases h
    · obtain rfl := Option.some.inj h
      rfl
  · cases h

theorem readMembers_error (value : Json)
    (members : List (String × (Task → Json → Option Task))) (task : Task) :
    (readMembers value members task).1 = {} ∨
      (readMembers value members task).1 = responseIncorrect := by
  induction members generalizing task with
  | nil => exact .inl rfl
  | cons m members ih =>
    obtain ⟨key, set⟩ := m
    rw [readMembers]
    cases (value.member? key).bind (set task) with
    | none => exact .inr rfl
    | some task => exact ih task

theorem deserializeResponse_error (task : Task) (value : Json) :
    (task.deserializeResponse value).1 = {} ∨
      (task.deserializeResponse value).1 = responseIncorrect := by
  unfold Task.deserializeResponse
  split
  · exact readMembers_error _ _ _
  · exact .inr rfl

theorem deserializeResponses_error (tasks : List Task) (values : List Json) :
    (deserializeResponses tasks values).error = {} ∨
      (deserializeResponses tasks values).error = responseIncorrect := by
  induction tasks generalizing values with
  | nil => exact .inl (by simp [deserializeResponses])
  | cons task tasks ih =>
    cases values with
    | nil => exact .inl (by simp [deserializeResponses])
    | cons value values =>
      have hRead := deserializeResponse_error task value
      simp only [deserializeResponses]
      by_cases hError : (task.deserializeResponse value).1.isError = true
      · rw [if_pos hError]
        exact hRead
      · rw [if_neg hError]
        exact ih values

/-- No document that satisfies the schema yields a message of a violation. -/
theorem readDocument_error_head (tasks : List Task) (document : Json) :
    (readDocument tasks document).error.msg.head? ≠ some 73 := by
  unfold readDocument
  split
  · simp [lit]
  · dsimp only
    split
    · simp [lit]
    · rcases deserializeResponses_error tasks
        (((document.member? "tasks").bind Json.array?).getD []) with h | h
      · simp [h]
      · simp [h, responseIncorrect, lit]

/-- With an old message the call returns it and looks at nothing. -/
theorem readResponse_stale (tasks : List Task) (res : Str) {schema : Schema} {msg : Str}
    (hMsg : msg ≠ []) :
    readResponse rj tasks res { schema, error := msg } =
      ({ error := ⟨msg⟩, tasks }, { schema, error := msg }) := by
  simp [readResponse, hMsg]

/-- Without one it leaves the message of its own response. -/
theorem readResponse_clean (tasks : List Task) (res : Str) :
    (readResponse rj tasks res { schema := responseSchema }).2 =
      { schema := responseSchema, error := (violation rj res).getD [] } := by
  unfold readResponse violation
  cases rj.parse res with
  | error e => rfl
  | ok document =>
    by_cases hValid : responseSchema document = true
    · simp [SchemaValidator.validate, hValid]
    · simp [SchemaValidator.validate, hValid]

/-- A response without a readable error has the results: the schema promises them. -/
theorem responseSchema_cases {document : Json} (h : responseSchema document = true) :
    (∃ msg, (document.member? "error").bind Json.cString? = some msg) ∨
      ∃ values, (document.member? "tasks").bind Json.array? = some values := by
  have hOne : errorSchema document = true ∨ resultsSchema document = true := by
    by_contra hNone
    simp only [not_or, Bool.not_eq_true] at hNone
    simp [responseSchema, Schema.oneOf, hNone.1, hNone.2] at h
  rcases hOne with hError | hResults
  · obtain ⟨v, hv⟩ := required_member (allOf_mem hError (by simp)) (allOf_mem hError (by simp))
      (List.mem_singleton_self "error")
    obtain ⟨s, rfl⟩ := type_string
      (properties_member (allOf_mem hError (by simp)) (List.mem_singleton_self _) hv)
    exact .inl ⟨cstr s, by simp [hv, Json.cString?]⟩
  · obtain ⟨v, hv⟩ := required_member (allOf_mem hResults (by simp)) (allOf_mem hResults (by simp))
      (List.mem_singleton_self "tasks")
    have hProperties : Schema.properties
        [("tasks", Schema.allOf [Schema.type .array, Schema.items responseTaskSchema])] document =
          true := allOf_mem hResults (by simp)
    have hTasks := properties_member hProperties (List.mem_singleton_self _) hv
    obtain ⟨values, rfl⟩ := type_array (allOf_mem hTasks (by simp))
    exact .inr ⟨values, by simp [hv, Json.array?]⟩

/-- A fresh validator reports exactly the violation of the response. -/
theorem readResponse_error_iff (tasks : List Task) (res : Str) {msg : Str}
    (hMsg : msg.head? = some 73) :
    (readResponse rj tasks res { schema := responseSchema }).1.error = ⟨msg⟩ ↔
      violation rj res = some msg := by
  unfold readResponse violation
  cases rj.parse res with
  | error e =>
    simp only [List.isEmpty_nil, Bool.not_true, Bool.false_eq_true, if_false, reduceCtorEq,
      iff_false]
    intro h
    have hHead := congrArg (fun e : Error => e.msg.head?) h
    simp [parseError, hMsg, lit] at hHead
  | ok document =>
    by_cases hValid : responseSchema document = true
    · simp only [List.isEmpty_nil, Bool.not_true, Bool.false_eq_true, if_false,
        SchemaValidator.validate, hValid, if_true, reduceCtorEq, iff_false]
      intro h
      exact readDocument_error_head tasks document (by rw [h, hMsg])
    · simp [SchemaValidator.validate, hValid]

theorem readResponse_violation_tasks (tasks : List Task) {res msg : Str}
    (h : violation rj res = some msg) :
    (readResponse rj tasks res { schema := responseSchema }).1.tasks = tasks := by
  unfold violation at h
  unfold readResponse
  cases hParse : rj.parse res with
  | error e => rfl
  | ok document =>
    have hInvalid : responseSchema document ≠ true := by
      intro hValid
      simp [hParse, hValid] at h
    simp [SchemaValidator.validate, hInvalid]

end

-- ---------------------------------------------------------------------------
-- A sequence of calls
-- ---------------------------------------------------------------------------

section

variable (rj : Rapidjson)

/-- A call that gets no response does not touch the validator. -/
theorem runTogether_of_no_response (c : Call) (validator : Option SchemaValidator)
    (h : c.response? = none) :
    runTogether rj c.tasks c.exchange validator = (fresh rj c, validator) := by
  unfold fresh
  cases hExchange : c.exchange with
  | received chunks => simp [Call.response?, hExchange] at h
  | _ => rfl

/-- What a call returns and leaves in the validator, by what it finds there. -/
theorem runTogether_received (c : Call) {validator : Option SchemaValidator} {msg res : Str}
    (hHolds : HoldsMessage validator msg) (hRes : c.response? = some res) :
    (msg = [] → (runTogether rj c.tasks c.exchange validator).1 = fresh rj c ∧
      HoldsMessage (runTogether rj c.tasks c.exchange validator).2
        ((violation rj res).getD [])) ∧
    (msg ≠ [] → (runTogether rj c.tasks c.exchange validator).1 =
        { error := ⟨msg⟩, tasks := c.tasks, sent := requestMessage rj c.tasks } ∧
      HoldsMessage (runTogether rj c.tasks c.exchange validator).2 msg) := by
  cases hExchange : c.exchange with
  | received chunks =>
    obtain rfl : chunks.flatMap cstr = res := by simpa [Call.response?, hExchange] using hRes
    simp only [runTogether, HoldsMessage] at hHolds ⊢
    rw [hHolds]
    constructor
    · rintro rfl
      refine ⟨?_, by simpa using readResponse_clean rj c.tasks _⟩
      simp [fresh, runTogether, hExchange]
    · intro hMsg
      rw [readResponse_stale rj c.tasks _ hMsg]
      simp
  | _ => simp [Call.response?, hExchange] at hRes

/-- A stale call returns what a fresh one does only for the same violation. -/
theorem stale_eq_fresh_iff (c : Call) {msg res : Str} (hMsg : msg.head? = some 73)
    (hRes : c.response? = some res) :
    { error := ⟨msg⟩, tasks := c.tasks, sent := requestMessage rj c.tasks } = fresh rj c ↔
      violation rj res = some msg := by
  have hFresh : fresh rj c =
      { (readResponse rj c.tasks res { schema := responseSchema }).1 with
        sent := requestMessage rj c.tasks } := by
    cases hExchange : c.exchange with
    | received chunks =>
      obtain rfl : chunks.flatMap cstr = res := by simpa [Call.response?, hExchange] using hRes
      simp [fresh, runTogether, hExchange]
    | _ => simp [Call.response?, hExchange] at hRes
  rw [hFresh]
  constructor
  · intro h
    exact (readResponse_error_iff rj c.tasks res hMsg).mp (congrArg Outcome.error h).symm
  · intro h
    have hError := (readResponse_error_iff rj c.tasks res hMsg).mpr h
    exact Outcome.ext hError.symm (readResponse_violation_tasks rj c.tasks h).symm rfl

/-- After a violation only the same violation looks fresh. -/
theorem runCalls_stale_iff {msg : Str} (hMsg : msg.head? = some 73) :
    ∀ (calls : List Call) {validator : Option SchemaValidator}, HoldsMessage validator msg →
      (runCalls rj validator calls = calls.map (fresh rj) ↔
        ∀ c ∈ calls, ∀ res ∈ c.response?, violation rj res = some msg)
  | [], _, _ => by simp [runCalls]
  | c :: calls, validator, hHolds => by
    have hNonempty : msg ≠ [] := by
      rintro rfl
      simp at hMsg
    rw [runCalls, List.map_cons, List.cons.injEq, List.forall_mem_cons]
    cases hRes : c.response? with
    | none =>
      rw [runTogether_of_no_response rj c validator hRes,
        runCalls_stale_iff hMsg calls hHolds]
      simp
    | some res =>
      have hStep := (runTogether_received rj c hHolds hRes).2 hNonempty
      rw [hStep.1, stale_eq_fresh_iff rj c hMsg hRes, runCalls_stale_iff hMsg calls hStep.2]
      simp

theorem runCalls_clean_iff :
    ∀ (calls : List Call) {validator : Option SchemaValidator}, HoldsMessage validator [] →
      (runCalls rj validator calls = calls.map (fresh rj) ↔ calls.Pairwise (Compatible rj))
  | [], _, _ => by simp [runCalls]
  | c :: calls, validator, hHolds => by
    rw [runCalls, List.map_cons, List.cons.injEq, List.pairwise_cons]
    cases hRes : c.response? with
    | none =>
      rw [runTogether_of_no_response rj c validator hRes, runCalls_clean_iff calls hHolds]
      simp [Compatible, hRes]
    | some res =>
      obtain ⟨hFresh, hNext⟩ := (runTogether_received rj c hHolds hRes).1 rfl
      rw [hFresh]
      cases hViolation : violation rj res with
      | none =>
        rw [hViolation] at hNext
        rw [runCalls_clean_iff calls hNext]
        simp [Compatible, hRes, hViolation]
      | some msg =>
        rw [hViolation] at hNext
        have hMsg := violation_head rj hViolation
        have hAll : (∀ c' ∈ calls, Compatible rj c c') ↔
            ∀ c' ∈ calls, ∀ res ∈ c'.response?, violation rj res = some msg := by
          simp [Compatible, hRes, hViolation]
        rw [runCalls_stale_iff rj hMsg calls hNext, hAll]
        refine ⟨fun h => ⟨h.2, List.pairwise_of_forall_mem_list fun a ha b hb => ?_⟩,
          fun h => ⟨rfl, h.1⟩⟩
        -- any two of the calls behind `c` have its violation
        intro msg' hMsg' res' hRes'
        obtain ⟨res'', hRes'', hViolation'⟩ := Option.bind_eq_some_iff.mp hMsg'
        rw [h.2 a ha res'' hRes''] at hViolation'
        rw [h.2 b hb res' hRes', hViolation']

/--
**History independence.** Every call of a process returns what it would return
in a process of its own if and only if no call whose response violates the
schema comes before one that gets a response, other than one with the same
violation.
-/
theorem runCalls_eq_fresh_iff (calls : List Call) :
    runCalls rj none calls = calls.map (fresh rj) ↔ calls.Pairwise (Compatible rj) :=
  runCalls_clean_iff rj calls holdsMessage_none

end

/-- The response `{}` violates the schema, and the valid one behind it is refused. -/
theorem runCalls_depends_on_history :
    ¬ ∀ (rj : Rapidjson) (calls : List Call), runCalls rj none calls = calls.map (fresh rj) := by
  let noMembers := lit "\x7b\x7d"
  let noTasks := lit "\x7b\"tasks\":[]\x7d"
  let rj : Rapidjson := {
    parse := fun s =>
      if s = noMembers then .ok (.object [])
      else if s = noTasks then .ok (.object [(lit "tasks", .array [])])
      else .error (lit "Invalid value.", 0)
    write := fun _ => noTasks
    schemaError := fun _ _ =>
      lit "\x7b\"oneOf\":\x7b\"instanceRef\":\"#\",\"schemaRef\":\"#\"\x7d\x7d" }
  intro h
  have hRun := h rj [⟨[], .received [noMembers]⟩, ⟨[], .received [noTasks]⟩]
  revert hRun
  decide

end Libsbox
