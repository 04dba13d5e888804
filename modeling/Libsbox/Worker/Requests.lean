import Libsbox.Model.Messages

/-!
# libsbox — requests on the worker's side

`Worker::parse_and_validate_json_request` checks a request against the schema
and only then lets `Task::deserialize_request` read it, whose every failed check
is a `die`. The schema and the reader were written apart: the schema constrains
`ipc` and `standard_binds` where the reader reads `need_ipc` and
`use_standard_binds`, does not know `env`, and accepts integers of any width.

## Results

* `deserializeRequest_returns_iff` — what the reader asks of a task beyond the
  schema.
* `parseAndValidateJsonRequest_iff` — when every accepted request is read.
-/

namespace Libsbox

open CMemory JsonDoc

/-- `Request JSON incorrect: %s (at %zi)`. -/
def requestIncorrect (text : Str) (offset : Nat) : Error :=
  ⟨lit "Request JSON incorrect: " ++ cstr text ++ lit " (at " ++ decimal offset ++ lit ")"⟩

/-- `document["tasks"].GetArray()`. -/
def requestTasks (document : Json) : List Json :=
  ((document.member? "tasks").bind Json.array?).getD []

def deserializeTasks (document : Json) : Except Halt (List Task) :=
  (requestTasks document).mapM Task.deserializeRequest

/-- `Worker::parse_and_validate_json_request`: the error, the tasks and the
validator after the call. -/
def parseAndValidateJsonRequest (rj : Rapidjson) (validator : SchemaValidator) (request : Str) :
    Except Halt (Error × List Task × SchemaValidator) :=
  match rj.parse (cstr request) with
  | .error (text, offset) => .ok (requestIncorrect text offset, [], validator)
  | .ok document =>
    let (valid, validator) := validator.validate rj document
    if valid then do
      let tasks ← deserializeTasks document
      return ({}, tasks, validator)
    else .ok (⟨validator.error⟩, [], validator)

/-- `Worker::process`. `run` stands for the containers, which fill in the results. -/
def process (rj : Rapidjson) (run : List Task → Except Halt (List Task))
    (validator : SchemaValidator) (request : Str) : Except Halt (Str × SchemaValidator) := do
  let (error, tasks, validator) ← parseAndValidateJsonRequest rj validator request
  if error.isError then
    return (cstr (rj.write (.object [(lit "error", .string (cstr error.msg))])), validator)
  else
    let tasks ← run tasks
    let results := Json.array (tasks.map Task.serializeResponse)
    return (cstr (rj.write (.object [(lit "tasks", results)])), validator)

-- ---------------------------------------------------------------------------
-- What the reader asks for
-- ---------------------------------------------------------------------------

/-- The first member with that name satisfies `p`. -/
def FirstMember (value : Json) (key : String) (p : Json → Prop) : Prop :=
  ∃ v, value.member? key = some v ∧ p v

def FitsInt64 (value : Json) : Prop := ∃ n, value = .int n ∧ n.val < 2 ^ 63

def FitsInt32 (value : Json) : Prop := ∃ n, value = .int n ∧ -(2 ^ 31) ≤ n.val ∧ n.val < 2 ^ 31

def IsBool (value : Json) : Prop := ∃ b, value = .bool b

def IsStrings (value : Json) : Prop :=
  ∃ elements, value = .array elements ∧ ∀ element ∈ elements, ∃ s, element = .string s

/-- What a task that satisfies the schema must satisfy besides: its numbers fit
into the types they are read into, and the three members the schema misses have
their types. -/
structure BeyondSchema (value : Json) : Prop where
  timeLimitMs : FirstMember value "time_limit_ms" FitsInt64
  wallTimeLimitMs : FirstMember value "wall_time_limit_ms" FitsInt64
  memoryLimitKb : FirstMember value "memory_limit_kb" FitsInt64
  fsizeLimitKb : FirstMember value "fsize_limit_kb" FitsInt64
  maxFiles : FirstMember value "max_files" FitsInt32
  maxThreads : FirstMember value "max_threads" FitsInt32
  needIpc : FirstMember value "need_ipc" IsBool
  useStandardBinds : FirstMember value "use_standard_binds" IsBool
  env : FirstMember value "env" IsStrings
  flags : FirstMember value "binds" fun binds =>
    ∀ elements, binds = .array elements → ∀ bind ∈ elements, FirstMember bind "flags" FitsInt32

section

variable {value : Json} {key : String}

theorem firstMember_congr {p q : Json → Prop} (h : ∀ v, p v ↔ q v) :
    FirstMember value key p ↔ FirstMember value key q := by
  simp only [FirstMember, h]

theorem returns_orDie {α : Type} {o : Option α} : Returns (orDie o) ↔ ∃ a, o = some a := by
  cases o with
  | none => exact iff_of_false (not_returns_error _) (by simp)
  | some a => exact iff_of_true (returns_ok a) ⟨a, rfl⟩

theorem returns_getMember {α : Type} {get : Json → Option α} :
    Returns (getMember get value key) ↔ FirstMember value key fun v => ∃ a, get v = some a := by
  rw [getMember, returns_orDie, FirstMember]
  cases value.member? key <;> simp

theorem int64?_iff (v : Json) : (∃ x, v.int64? = some x) ↔ FitsInt64 v := by
  cases v with
  | int n => simpa [FitsInt64] using int64?_isSome_iff n
  | _ => simp [Json.int64?, FitsInt64]

theorem int32?_iff (v : Json) : (∃ x, v.int32? = some x) ↔ FitsInt32 v := by
  cases v with
  | int n => simpa [FitsInt32] using int32?_isSome_iff n
  | _ => simp [Json.int32?, FitsInt32]

theorem bool?_iff (v : Json) : (∃ b, v.bool? = some b) ↔ IsBool v := by
  cases v <;> simp [Json.bool?, IsBool]

theorem cString?_iff (v : Json) : (∃ s, v.cString? = some s) ↔ ∃ s, v = .string s := by
  cases v <;> simp [Json.cString?]

/-- A `GET_MEMBER` of an array and the loop over it. -/
theorem returns_getArray {α : Type} {f : Json → Except Halt α} :
    Returns (getMember Json.array? value key >>= fun elements => elements.mapM f) ↔
      FirstMember value key fun v =>
        ∃ elements, v = .array elements ∧ ∀ element ∈ elements, Returns (f element) := by
  rw [returns_bind]
  simp only [returns_mapM, getMember, FirstMember]
  cases value.member? key with
  | none => simp [orDie]
  | some v => cases v <;> simp [orDie, Json.array?]

theorem deserializeStrings_returns_iff :
    Returns (deserializeStrings value key) ↔ FirstMember value key IsStrings := by
  rw [deserializeStrings, returns_getArray]
  simp only [returns_orDie, cString?_iff]
  rfl

def IsStream (value : Json) : Prop := value = .null ∨ ∃ s, value = .string s

theorem deserializeStream_returns_iff :
    Returns (deserializeStream value key) ↔ FirstMember value key IsStream := by
  have hOne : ∀ v, Returns (Stream.deserializeRequest v) ↔ IsStream v := by
    intro v
    cases v <;> simp [Stream.deserializeRequest, IsStream, returns_ok, returns_map,
      returns_orDie, cString?_iff]
  rw [deserializeStream, returns_bind, FirstMember, getMember]
  cases value.member? key with
  | none => simp [orDie]
  | some v => simp [orDie, hOne]

theorem deserializeBinds_returns_iff :
    Returns (deserializeBinds value key) ↔ FirstMember value key fun v =>
      ∃ elements, v = .array elements ∧
        ∀ element ∈ elements, Returns (BindRule.ofJson element) :=
  returns_getArray

theorem returns_checkObject :
    Returns (orDie (if value.isObject then some () else none)) ↔ value.isObject = true := by
  rw [returns_orDie]
  split <;> simp_all

theorem bindRule_returns_iff :
    Returns (BindRule.ofJson value) ↔
      value.isObject = true ∧
      (FirstMember value "inside" fun v => ∃ s, v = .string s) ∧
      (FirstMember value "outside" fun v => ∃ s, v = .string s) ∧
      FirstMember value "flags" FitsInt32 := by
  have hString : ∀ key, Returns (getMember Json.cString? value key) ↔
      FirstMember value key fun v => ∃ s, v = .string s :=
    fun key => returns_getMember.trans (firstMember_congr cString?_iff)
  have hFlags : Returns (getMember Json.int32? value "flags") ↔
      FirstMember value "flags" FitsInt32 :=
    returns_getMember.trans (firstMember_congr int32?_iff)
  exact returns_bind_iff returns_checkObject fun _ => returns_bind_iff (hString _) fun _ =>
    returns_bind_iff (hString _) fun _ => returns_bind_pure.trans hFlags

/-- Everything `Task::deserialize_request` checks. -/
theorem deserializeRequest_returns_iff :
    Returns (Task.deserializeRequest value) ↔
      value.isObject = true ∧
      FirstMember value "time_limit_ms" FitsInt64 ∧
      FirstMember value "wall_time_limit_ms" FitsInt64 ∧
      FirstMember value "memory_limit_kb" FitsInt64 ∧
      FirstMember value "fsize_limit_kb" FitsInt64 ∧
      FirstMember value "max_files" FitsInt32 ∧
      FirstMember value "max_threads" FitsInt32 ∧
      FirstMember value "need_ipc" IsBool ∧
      FirstMember value "use_standard_binds" IsBool ∧
      FirstMember value "stdin" IsStream ∧
      FirstMember value "stdout" IsStream ∧
      FirstMember value "stderr" IsStream ∧
      FirstMember value "argv" IsStrings ∧
      FirstMember value "env" IsStrings ∧
      FirstMember value "binds" fun v =>
        ∃ elements, v = .array elements ∧
          ∀ element ∈ elements, Returns (BindRule.ofJson element) := by
  have hInt64 : ∀ key, Returns (getMember Json.int64? value key) ↔
      FirstMember value key FitsInt64 :=
    fun key => returns_getMember.trans (firstMember_congr int64?_iff)
  have hInt32 : ∀ key, Returns (getMember Json.int32? value key) ↔
      FirstMember value key FitsInt32 :=
    fun key => returns_getMember.trans (firstMember_congr int32?_iff)
  have hBool : ∀ key, Returns (getMember Json.bool? value key) ↔ FirstMember value key IsBool :=
    fun key => returns_getMember.trans (firstMember_congr bool?_iff)
  exact returns_bind_iff returns_checkObject fun _ =>
    returns_bind_iff (hInt64 _) fun _ => returns_bind_iff (hInt64 _) fun _ =>
    returns_bind_iff (hInt64 _) fun _ => returns_bind_iff (hInt64 _) fun _ =>
    returns_bind_iff (hInt32 _) fun _ => returns_bind_iff (hInt32 _) fun _ =>
    returns_bind_iff (hBool _) fun _ => returns_bind_iff (hBool _) fun _ =>
    returns_bind_iff deserializeStream_returns_iff fun _ =>
    returns_bind_iff deserializeStream_returns_iff fun _ =>
    returns_bind_iff deserializeStream_returns_iff fun _ =>
    returns_bind_iff deserializeStrings_returns_iff fun _ =>
    returns_bind_iff deserializeStrings_returns_iff fun _ =>
    returns_bind_pure.trans deserializeBinds_returns_iff

end

-- ---------------------------------------------------------------------------
-- What the schema promises
-- ---------------------------------------------------------------------------

/-- A member that is required and constrained is there and as constrained. -/
theorem firstMember_of_schema {names : List String} {schemas : List (String × Schema)}
    {value : Json} (h : Schema.allOf [Schema.type .object, Schema.required names,
      Schema.properties schemas] value = true)
    {key : String} {schema : Schema} (hRequired : key ∈ names) (hProperty : (key, schema) ∈ schemas)
    {p : Json → Prop} (hp : ∀ v, schema v = true → p v) : FirstMember value key p := by
  obtain ⟨v, hv⟩ := required_member (allOf_mem h (by simp)) (allOf_mem h (by simp)) hRequired
  exact ⟨v, hv, hp v (properties_member (allOf_mem h (by simp)) hProperty hv)⟩

theorem isObject_of_schema {schemas : List Schema} {value : Json}
    (h : Schema.allOf (Schema.type .object :: schemas) value = true) : value.isObject = true := by
  obtain ⟨members, rfl⟩ := type_object (allOf_mem h List.mem_cons_self)
  rfl

theorem isStream_of_schema {value : Json} (h : streamSchema value = true) : IsStream value := by
  cases value with
  | null => exact .inl rfl
  | string s => exact .inr ⟨s, rfl⟩
  | _ => simp [streamSchema, Schema.oneOf, Schema.type] at h

/-- An array whose elements satisfy a schema. -/
theorem array_of_schema {schema : Schema} {value : Json}
    (h : Schema.allOf [Schema.type .array, Schema.items schema] value = true) :
    ∃ elements, value = .array elements ∧ ∀ element ∈ elements, schema element = true := by
  obtain ⟨elements, rfl⟩ := type_array (allOf_mem h (by simp))
  exact ⟨elements, rfl, fun element hMem => items_mem (allOf_mem h (by simp)) hMem⟩

theorem isStrings_of_schema {value : Json}
    (h : Schema.allOf [Schema.type .array, Schema.items (Schema.type .string)] value = true) :
    IsStrings value := by
  obtain ⟨elements, rfl, hAll⟩ := array_of_schema h
  exact ⟨elements, rfl, fun element hMem => type_string (hAll element hMem)⟩

theorem bindRule_returns_iff_of_schema {value : Json} (h : bindSchema value = true) :
    Returns (BindRule.ofJson value) ↔ FirstMember value "flags" FitsInt32 := by
  have hInside : FirstMember value "inside" fun v => ∃ s, v = .string s :=
    firstMember_of_schema h (by simp) (by simp) fun _ => type_string
  have hOutside : FirstMember value "outside" fun v => ∃ s, v = .string s :=
    firstMember_of_schema h (by simp) (by simp) fun _ => type_string
  rw [bindRule_returns_iff]
  exact ⟨fun hAll => hAll.2.2.2, fun hFlags => ⟨isObject_of_schema h, hInside, hOutside, hFlags⟩⟩

/-- The reader accepts a task of the schema exactly when it is `BeyondSchema`. -/
theorem deserializeRequest_returns_iff_of_schema {value : Json}
    (h : requestTaskSchema value = true) :
    Returns (Task.deserializeRequest value) ↔ BeyondSchema value := by
  have hStdin : FirstMember value "stdin" IsStream :=
    firstMember_of_schema h (by simp) (by simp) fun _ => isStream_of_schema
  have hStdout : FirstMember value "stdout" IsStream :=
    firstMember_of_schema h (by simp) (by simp) fun _ => isStream_of_schema
  have hStderr : FirstMember value "stderr" IsStream :=
    firstMember_of_schema h (by simp) (by simp) fun _ => isStream_of_schema
  have hArgv : FirstMember value "argv" IsStrings :=
    firstMember_of_schema h (by simp) (by simp) fun _ => isStrings_of_schema
  obtain ⟨binds, hFind, elements, rfl, hElements⟩ :
      FirstMember value "binds" fun v =>
        ∃ elements, v = .array elements ∧ ∀ element ∈ elements, bindSchema element = true :=
    firstMember_of_schema h (by simp) (by simp) fun _ => array_of_schema
  rw [deserializeRequest_returns_iff]
  constructor
  · rintro ⟨-, h1, h2, h3, h4, h5, h6, h7, h8, -, -, -, -, hEnv, binds', hFind', elements', rfl,
      hAll⟩
    obtain rfl : elements = elements' := by simpa [hFind] using hFind'
    refine ⟨h1, h2, h3, h4, h5, h6, h7, h8, hEnv, _, hFind, ?_⟩
    rintro _ ⟨⟩ element hMem
    exact (bindRule_returns_iff_of_schema (hElements element hMem)).mp (hAll element hMem)
  · rintro ⟨h1, h2, h3, h4, h5, h6, h7, h8, hEnv, binds', hFind', hFlags⟩
    obtain rfl : Json.array elements = binds' := by simpa [hFind] using hFind'
    refine ⟨isObject_of_schema h, h1, h2, h3, h4, h5, h6, h7, h8, hStdin, hStdout, hStderr, hArgv,
      hEnv, _, hFind, elements, rfl, fun element hMem => ?_⟩
    exact (bindRule_returns_iff_of_schema (hElements element hMem)).mpr
      (hFlags elements rfl element hMem)

theorem requestTasks_of_schema {document : Json} (h : requestSchema document = true) :
    ∀ task ∈ requestTasks document, requestTaskSchema task = true := by
  obtain ⟨tasks, hFind, elements, rfl, hAll⟩ :
      FirstMember document "tasks" fun v =>
        ∃ elements, v = .array elements ∧ ∀ element ∈ elements, requestTaskSchema element = true :=
    firstMember_of_schema h (by simp) (by simp) fun _ => array_of_schema
  simpa [requestTasks, hFind, Json.array?] using hAll

theorem deserializeTasks_returns_iff {document : Json} (h : requestSchema document = true) :
    Returns (deserializeTasks document) ↔ ∀ task ∈ requestTasks document, BeyondSchema task := by
  rw [deserializeTasks, returns_mapM]
  exact forall₂_congr fun task hMem =>
    deserializeRequest_returns_iff_of_schema (requestTasks_of_schema h task hMem)

-- ---------------------------------------------------------------------------
-- Requests
-- ---------------------------------------------------------------------------

section

variable (rj : Rapidjson) (error request : Str)

/-- The request is handled without a `die`, and with an error when it is JSON
that cannot be read as tasks. -/
def Handled : Prop :=
  Returns (parseAndValidateJsonRequest rj { schema := requestSchema, error } request) ∧
  ∀ document, rj.parse (cstr request) = .ok document → ¬ Returns (deserializeTasks document) →
    ∃ e tasks validator,
      parseAndValidateJsonRequest rj { schema := requestSchema, error } request =
        .ok (e, tasks, validator) ∧ e.isError = true

/-- Every task of an accepted request is what the reader wants. -/
def TasksBeyondSchema : Prop :=
  ∀ document, rj.parse (cstr request) = .ok document → requestSchema document = true →
    ∀ task ∈ requestTasks document, BeyondSchema task

/-- When the reader does not die. -/
theorem returns_reader_iff :
    Returns (parseAndValidateJsonRequest rj { schema := requestSchema, error } request) ↔
      TasksBeyondSchema rj request := by
  unfold TasksBeyondSchema parseAndValidateJsonRequest
  cases hParse : rj.parse (cstr request) with
  | error e => simp [returns_ok]
  | ok document =>
    by_cases hValid : requestSchema document = true
    · simp only [SchemaValidator.validate, hValid, if_true, returns_bind_pure, Except.ok.injEq,
        forall_eq', forall_const, deserializeTasks_returns_iff hValid]
    · simp [SchemaValidator.validate, hValid, returns_ok]

/-- Whether the reader dies can be evaluated. -/
instance : Decidable (TasksBeyondSchema rj request) :=
  decidable_of_iff _ (returns_reader_iff rj [] request)

theorem handled_iff : Handled rj error request ↔ TasksBeyondSchema rj request := by
  rw [Handled, returns_reader_iff, and_iff_left_iff_imp]
  unfold TasksBeyondSchema parseAndValidateJsonRequest
  intro hRead document hParse hNot
  rw [hParse]
  by_cases hValid : requestSchema document = true
  · exact absurd ((deserializeTasks_returns_iff hValid).mpr (hRead document hParse hValid)) hNot
  · simp [SchemaValidator.validate, hValid, Error.isError, lit]

/--
**Requests are handled.** A request never makes the worker die in the reader,
and one that cannot be read gets an error, if and only if every task of it, once
the schema accepts it, also is `BeyondSchema`: its limits fit into 64 bits
signed, its `max_files`, `max_threads` and bind flags into 32, `need_ipc` and
`use_standard_binds` are booleans, and `env` is an array of strings.
-/
theorem parseAndValidateJsonRequest_iff :
    Handled rj error request ↔ TasksBeyondSchema rj request :=
  handled_iff rj error request

end

/-- The task of request.json, which has no `env`. -/
def exampleTask : Json :=
  .object [
    (lit "argv", .array [.string (lit "test")]),
    (lit "time_limit_ms", int64 1000),
    (lit "wall_time_limit_ms", int64 1000),
    (lit "memory_limit_kb", int64 262144),
    (lit "fsize_limit_kb", int64 262144),
    (lit "max_files", int64 16),
    (lit "max_threads", int64 1),
    (lit "stdin", .null),
    (lit "stdout", .string (lit "@pipe_name")),
    (lit "stderr", .string (lit "@stderr")),
    (lit "need_ipc", .bool false),
    (lit "use_standard_binds", .bool true),
    (lit "binds", .array [.object [
      (lit "inside", .string (lit "input.txt")),
      (lit "outside", .string (lit "/var/problems/0001/tests/01")),
      (lit "flags", int64 0)]])]

def exampleRequest : Json := .object [(lit "tasks", .array [exampleTask])]

def exampleText : Str :=
  lit "\x7b\"tasks\":[\x7b\"argv\":[\"test\"],\"time_limit_ms\":1000," ++
  lit "\"wall_time_limit_ms\":1000,\"memory_limit_kb\":262144,\"fsize_limit_kb\":262144," ++
  lit "\"max_files\":16,\"max_threads\":1,\"stdin\":null,\"stdout\":\"@pipe_name\"," ++
  lit "\"stderr\":\"@stderr\",\"need_ipc\":false,\"use_standard_binds\":true," ++
  lit "\"binds\":[\x7b\"inside\":\"input.txt\"," ++
  lit "\"outside\":\"/var/problems/0001/tests/01\",\"flags\":0\x7d]\x7d]\x7d"

/-- The worker dies of the documented example. -/
theorem exampleRequest_not_handled :
    ¬ ∀ (rj : Rapidjson) (error request : Str), Handled rj error request := by
  let rj : Rapidjson := {
    parse := fun _ => .ok exampleRequest
    write := fun _ => exampleText
    schemaError := fun _ _ => lit "\x7b\x7d" }
  intro h
  have hBeyond := (handled_iff rj [] exampleText).mp (h rj [] exampleText) exampleRequest rfl
    (by decide) exampleTask List.mem_cons_self
  obtain ⟨env, hEnv, -⟩ := hBeyond.env
  have hNone : exampleTask.member? "env" = none := by rfl
  rw [hNone] at hEnv
  cases hEnv

end Libsbox
