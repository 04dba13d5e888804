import Libsbox.Client.RunTogether
import Libsbox.Worker.Requests

/-!
# libsbox — round trips of the two messages

A request is written by `Task::serialize_request` and read by
`Task::deserialize_request`, a response is written by `Worker::process` and read
by `run_together`. What rapidjson contributes is one assumption about the
document at hand, `Rapidjson.ReadsBack`; everything else is the agreement of
three lists of members, the writer's, the schema's and the reader's.

Strings are written with their length and read through a `const char *`, so a
request comes back as `Task.cut` leaves it.

## Results

* `requestMessage_roundTrips_iff` — when a request comes back as it was sent.
* `process_roundTrips` — every response comes back as it was sent.
-/

namespace Libsbox

open CMemory JsonDoc

/-- rapidjson parses what it has written, and writes no NUL: in strings it
escapes all control characters. -/
structure Rapidjson.ReadsBack (rj : Rapidjson) (document : Json) : Prop where
  parse_write : rj.parse (rj.write document) = .ok document
  nul_notMem : (0 : UInt8) ∉ rj.write document

theorem Rapidjson.ReadsBack.parse_cstr {rj : Rapidjson} {document : Json}
    (h : rj.ReadsBack document) : rj.parse (cstr (rj.write document)) = .ok document := by
  rw [cstr_of_nul_free h.nul_notMem]
  exact h.parse_write

/-- What rapidjson does with one document and its text. -/
def Rapidjson.on (text : Str) (document : Json) : Rapidjson where
  parse s := if s = text then .ok document else .error (lit "Invalid value.", 0)
  write _ := text
  schemaError _ _ := lit "\x7b\x7d"

theorem Rapidjson.on_readsBack {text : Str} {document : Json} (h : (0 : UInt8) ∉ text) :
    (Rapidjson.on text document).ReadsBack document :=
  ⟨if_pos rfl, h⟩

theorem int64?_int64 (x : Int64) : (int64 x).int64? = some x := by
  show (if x.toInt < 2 ^ 63 then some (Int64.ofInt x.toInt) else none) = some x
  rw [if_pos (Int64.toInt_lt x), Int64.ofInt_toInt]

theorem int32?_int32 (x : Int32) : (int32 x).int32? = some x := by
  show (if -(2 ^ 31) ≤ x.toInt ∧ x.toInt < 2 ^ 31 then some (Int32.ofInt x.toInt) else none) =
    some x
  rw [if_pos ⟨Int32.le_toInt x, Int32.toInt_lt x⟩, Int32.ofInt_toInt]

theorem items_map {α : Type} {schema : Schema} {f : α → Json} (h : ∀ a, schema (f a) = true)
    (xs : List α) : Schema.items schema (.array (xs.map f)) = true := by
  show (xs.map f).all schema = true
  rw [List.all_map, List.all_eq_true]
  exact fun a _ => h a

-- ---------------------------------------------------------------------------
-- Requests
-- ---------------------------------------------------------------------------

def BindRule.cut (rule : BindRule) : BindRule :=
  { rule with inside := cstr rule.inside, outside := cstr rule.outside }

/-- The parameters with every string cut at its first NUL. -/
def Task.cut (task : Task) : Task :=
  { task.parameters with
    stdin := ⟨cstr task.stdin.filename⟩
    stdout := ⟨cstr task.stdout.filename⟩
    stderr := ⟨cstr task.stderr.filename⟩
    argv := task.argv.map cstr
    env := task.env.map cstr
    binds := task.binds.map BindRule.cut }

/-- All strings of a request. -/
def Task.strings (task : Task) : List Str :=
  [task.stdin.filename, task.stdout.filename, task.stderr.filename] ++ task.argv ++ task.env ++
    task.binds.flatMap fun rule => [rule.inside, rule.outside]

def requestDocument (tasks : List Task) : Json :=
  .object [(lit "tasks", .array (tasks.map Task.serializeRequest))]

theorem mapM_map {α β : Type} {f : Json → Except Halt β} {g : α → Json} {k : α → β}
    (h : ∀ a, f (g a) = .ok (k a)) (xs : List α) : (xs.map g).mapM f = .ok (xs.map k) := by
  induction xs with
  | nil => rfl
  | cons x xs ih =>
    rw [List.map_cons, List.mapM_cons, h, ih]
    rfl

theorem bindRule_ofJson_serializeRequest (rule : BindRule) :
    BindRule.ofJson rule.serializeRequest = .ok rule.cut := by
  have hFlags : getMember Json.int32? rule.serializeRequest "flags" = .ok rule.flags := by
    show orDie (int32 rule.flags).int32? = .ok rule.flags
    rw [int32?_int32]
    rfl
  simp only [BindRule.ofJson, hFlags]
  rfl

/-- **The reader reads what the writer writes**, up to the first NUL of each string. -/
theorem deserializeRequest_serializeRequest (task : Task) :
    Task.deserializeRequest task.serializeRequest = .ok task.cut := by
  have hInt64 : ∀ (key : String) (x : Int64), task.serializeRequest.member? key = some (int64 x) →
      getMember Json.int64? task.serializeRequest key = .ok x := by
    intro key x hKey
    rw [getMember, hKey]
    show orDie (int64 x).int64? = .ok x
    rw [int64?_int64]
    rfl
  have hInt32 : ∀ (key : String) (x : Int32), task.serializeRequest.member? key = some (int32 x) →
      getMember Json.int32? task.serializeRequest key = .ok x := by
    intro key x hKey
    rw [getMember, hKey]
    show orDie (int32 x).int32? = .ok x
    rw [int32?_int32]
    rfl
  have hStrings : ∀ (key : String) (strs : List Str),
      task.serializeRequest.member? key = some (.array (strs.map .string)) →
      deserializeStrings task.serializeRequest key = .ok (strs.map cstr) := by
    intro key strs hKey
    rw [deserializeStrings, getMember, hKey]
    exact mapM_map (f := fun element => orDie element.cString?) (k := cstr) (fun s => rfl) strs
  have hBinds : deserializeBinds task.serializeRequest "binds" =
      .ok (task.binds.map BindRule.cut) :=
    mapM_map bindRule_ofJson_serializeRequest task.binds
  simp only [Task.deserializeRequest, hInt64 "time_limit_ms" _ rfl,
    hInt64 "wall_time_limit_ms" _ rfl, hInt64 "memory_limit_kb" _ rfl,
    hInt64 "fsize_limit_kb" _ rfl, hInt32 "max_files" _ rfl, hInt32 "max_threads" _ rfl,
    hStrings "argv" _ rfl, hStrings "env" _ rfl, hBinds]
  rfl

theorem bindSchema_serializeRequest (rule : BindRule) :
    bindSchema rule.serializeRequest = true := rfl

theorem arraySchema_map {α : Type} {schema : Schema} {f : α → Json} (h : ∀ a, schema (f a) = true)
    (xs : List α) :
    Schema.allOf [Schema.type .array, Schema.items schema] (.array (xs.map f)) = true := by
  show (true && (Schema.items schema (.array (xs.map f)) && true)) = true
  rw [items_map h xs]
  rfl

/-- A property of the member that a lookup finds. -/
theorem property_of_member {value v : Json} {key : String} {schema : Schema}
    (hFind : value.member? key = some v) (h : schema v = true) :
    ∀ v', value.member? key = some v' → schema v' = true := by
  intro v' hFind'
  obtain rfl : v = v' := Option.some.inj (hFind.symm.trans hFind')
  exact h

theorem requestTaskSchema_serializeRequest (task : Task) :
    requestTaskSchema task.serializeRequest = true := by
  have hRequired : Schema.required ["argv", "time_limit_ms", "wall_time_limit_ms",
      "memory_limit_kb", "fsize_limit_kb", "max_files", "max_threads", "stdin", "stdout",
      "stderr", "need_ipc", "use_standard_binds", "binds"] task.serializeRequest = true := rfl
  have hDistinct : (["time_limit_ms", "wall_time_limit_ms", "memory_limit_kb", "fsize_limit_kb",
      "max_files", "max_threads", "need_ipc", "use_standard_binds", "stdin", "stdout", "stderr",
      "argv", "env", "binds"].map lit).Nodup := by decide
  have hArgv : Schema.allOf [Schema.type .array, Schema.items (Schema.type .string)]
      (.array (task.argv.map .string)) = true := arraySchema_map (fun s => rfl) task.argv
  have hBinds := arraySchema_map bindSchema_serializeRequest task.binds
  refine List.all_eq_true.mpr fun schema hMem => ?_
  simp only [List.mem_cons, List.not_mem_nil, or_false] at hMem
  rcases hMem with rfl | rfl | rfl
  · rfl
  · exact hRequired
  · refine properties_of_member hDistinct ?_
    simp only [List.forall_mem_cons, List.not_mem_nil, false_imp_iff, implies_true, and_true]
    exact ⟨property_of_member rfl hArgv, property_of_member rfl rfl, property_of_member rfl rfl,
      property_of_member rfl rfl, property_of_member rfl rfl, property_of_member rfl rfl,
      property_of_member rfl rfl, property_of_member rfl rfl, property_of_member rfl rfl,
      property_of_member rfl rfl, fun v h => absurd h (Option.some_ne_none v).symm,
      fun v h => absurd h (Option.some_ne_none v).symm, property_of_member rfl hBinds⟩

theorem requestSchema_requestDocument (tasks : List Task) :
    requestSchema (requestDocument tasks) = true := by
  have hTasks := arraySchema_map requestTaskSchema_serializeRequest tasks
  have hProperties : Schema.properties
      [("tasks", Schema.allOf [Schema.type .array, Schema.items requestTaskSchema])]
      (requestDocument tasks) = true := by
    refine properties_of_member (List.pairwise_singleton _ _) ?_
    rw [List.forall_mem_singleton]
    exact property_of_member rfl hTasks
  show (true && (true && (Schema.properties _ (requestDocument tasks) && true))) = true
  rw [hProperties]
  rfl

/-- The worker accepts every request of the client. -/
theorem parseAndValidateJsonRequest_requestMessage {rj : Rapidjson} {tasks : List Task}
    (error : Str) (hRj : rj.ReadsBack (requestDocument tasks)) :
    parseAndValidateJsonRequest rj { schema := requestSchema, error } (requestMessage rj tasks) =
      .ok ({}, tasks.map Task.cut, { schema := requestSchema }) := by
  have hText : cstr (requestMessage rj tasks) = cstr (rj.write (requestDocument tasks)) := by
    show cstr (cstr (rj.write (requestDocument tasks)) ++ 0 :: []) = _
    rw [cstr_append_nul, cstr_of_nul_free (nul_notMem_cstr _)]
  have hRead : deserializeTasks (requestDocument tasks) = .ok (tasks.map Task.cut) :=
    mapM_map deserializeRequest_serializeRequest tasks
  simp only [parseAndValidateJsonRequest, hText, hRj.parse_cstr, SchemaValidator.validate,
    requestSchema_requestDocument, if_true, hRead]
  rfl

theorem cstr_eq_self_iff {s : Str} : cstr s = s ↔ (0 : UInt8) ∉ s := by
  constructor
  · intro h
    rw [← h]
    exact nul_notMem_cstr s
  · exact cstr_of_nul_free

theorem map_eq_self_iff {α : Type} {f : α → α} {xs : List α} :
    xs.map f = xs ↔ ∀ x ∈ xs, f x = x := by
  conv_lhs => rhs; rw [← List.map_id xs]
  exact List.map_inj_left

theorem bindRule_cut_eq_iff {rule : BindRule} :
    rule.cut = rule ↔ (0 : UInt8) ∉ rule.inside ∧ (0 : UInt8) ∉ rule.outside := by
  rw [BindRule.cut, ← cstr_eq_self_iff, ← cstr_eq_self_iff]
  constructor
  · intro h
    exact ⟨congrArg BindRule.inside h, congrArg BindRule.outside h⟩
  · rintro ⟨hInside, hOutside⟩
    rw [hInside, hOutside]

/-- Cutting changes nothing exactly when there is nothing to cut. -/
theorem parameters_cut_eq_iff {task : Task} :
    task.cut.parameters = task.parameters ↔ ∀ s ∈ task.strings, (0 : UInt8) ∉ s := by
  have hStream : ∀ stream : Stream, (⟨cstr stream.filename⟩ : Stream) = stream ↔
      (0 : UInt8) ∉ stream.filename := by
    intro stream
    rw [← cstr_eq_self_iff]
    exact ⟨congrArg Stream.filename, fun h => by rw [h]⟩
  have hStrs : ∀ strs : List Str, strs.map cstr = strs ↔ ∀ s ∈ strs, (0 : UInt8) ∉ s := by
    intro strs
    simp only [map_eq_self_iff, cstr_eq_self_iff]
  have hBinds : task.binds.map BindRule.cut = task.binds ↔
      ∀ rule ∈ task.binds, (0 : UInt8) ∉ rule.inside ∧ (0 : UInt8) ∉ rule.outside := by
    simp only [map_eq_self_iff, bindRule_cut_eq_iff]
  simp only [Task.cut, Task.parameters, Task.strings, Task.mk.injEq, hStream, hStrs, hBinds,
    List.forall_mem_append, List.forall_mem_cons, List.forall_mem_flatMap, List.not_mem_nil,
    false_imp_iff, implies_true, and_true, true_and, and_assoc]

/-- The worker accepts the message that `run_together` builds and reads the
request fields of each task as the client has them. -/
def RequestRoundTrips (rj : Rapidjson) (error : Str) (tasks : List Task) : Prop :=
  ∃ tasks' validator,
    parseAndValidateJsonRequest rj { schema := requestSchema, error } (requestMessage rj tasks) =
      .ok ({}, tasks', validator) ∧
    tasks'.map Task.parameters = tasks.map Task.parameters

theorem requestRoundTrips_iff_cut {rj : Rapidjson} {tasks : List Task} (error : Str)
    (hRj : rj.ReadsBack (requestDocument tasks)) :
    RequestRoundTrips rj error tasks ↔
      ∀ task ∈ tasks, task.cut.parameters = task.parameters := by
  have hRead := parseAndValidateJsonRequest_requestMessage error hRj
  have hMap : (tasks.map Task.cut).map Task.parameters = tasks.map Task.parameters ↔
      ∀ task ∈ tasks, task.cut.parameters = task.parameters := by
    rw [List.map_map]
    exact List.map_inj_left
  rw [← hMap]
  constructor
  · rintro ⟨tasks', validator, hRead', hSame⟩
    obtain rfl : tasks.map Task.cut = tasks' := by
      rw [hRead] at hRead'
      simp only [Except.ok.injEq, Prod.mk.injEq] at hRead'
      exact hRead'.2.1
    exact hSame
  · intro hSame
    exact ⟨_, _, hRead, hSame⟩

/-- **A request comes back as it was sent** if and only if no string in it has a
NUL byte. -/
theorem requestMessage_roundTrips_iff (rj : Rapidjson) (error : Str) (tasks : List Task)
    (hRj : rj.ReadsBack (requestDocument tasks)) :
    RequestRoundTrips rj error tasks ↔ ∀ task ∈ tasks, ∀ s ∈ task.strings, (0 : UInt8) ∉ s := by
  rw [requestRoundTrips_iff_cut error hRj]
  exact forall₂_congr fun _ _ => parameters_cut_eq_iff

/-- The text of a request with one new task and one argument, which is given as
it stands in JSON. -/
def oneArgumentText (argument : String) : Str :=
  lit "\x7b\"tasks\":[\x7b\"time_limit_ms\":-1,\"wall_time_limit_ms\":-1," ++
  lit "\"memory_limit_kb\":-1,\"fsize_limit_kb\":-1,\"max_files\":16,\"max_threads\":1," ++
  lit "\"need_ipc\":false,\"use_standard_binds\":true,\"stdin\":\"\",\"stdout\":\"\"," ++
  lit "\"stderr\":\"\",\"argv\":[\"" ++ lit argument ++ lit "\"],\"env\":[],\"binds\":[]\x7d]\x7d"

/-- A task that sets every field of a request, and a new one. -/
def sampleTasks : List Task := [
  { timeLimitMs := 1000
    wallTimeLimitMs := 2000
    memoryLimitKb := 65536
    fsizeLimitKb := 1024
    maxFiles := 32
    maxThreads := 4
    needIpc := true
    useStandardBinds := false
    stdin := ⟨lit "/input"⟩
    stdout := ⟨lit "/output"⟩
    stderr := ⟨lit "@_stdout"⟩
    argv := [lit "/data/run", lit "-v"]
    env := [lit "HOME=/"]
    binds := [⟨lit "/data", lit "/srv/data", 1⟩] },
  { argv := [lit "true"] }]

/-- The text of their request. -/
def sampleRequestText : Str :=
  lit "\x7b\"tasks\":[\x7b\"time_limit_ms\":1000,\"wall_time_limit_ms\":2000," ++
  lit "\"memory_limit_kb\":65536,\"fsize_limit_kb\":1024,\"max_files\":32,\"max_threads\":4," ++
  lit "\"need_ipc\":true,\"use_standard_binds\":false,\"stdin\":\"/input\"," ++
  lit "\"stdout\":\"/output\",\"stderr\":\"@_stdout\",\"argv\":[\"/data/run\",\"-v\"]," ++
  lit "\"env\":[\"HOME=/\"],\"binds\":[\x7b\"inside\":\"/data\",\"outside\":\"/srv/data\"," ++
  lit "\"flags\":1\x7d]\x7d,\x7b\"time_limit_ms\":-1,\"wall_time_limit_ms\":-1," ++
  lit "\"memory_limit_kb\":-1,\"fsize_limit_kb\":-1,\"max_files\":16,\"max_threads\":1," ++
  lit "\"need_ipc\":false,\"use_standard_binds\":true,\"stdin\":\"\",\"stdout\":\"\"," ++
  lit "\"stderr\":\"\",\"argv\":[\"true\"],\"env\":[],\"binds\":[]\x7d]\x7d"

theorem nul_notMem_sampleRequestText : (0 : UInt8) ∉ sampleRequestText := by
  decide +kernel

/-- Every field of the two comes back. -/
theorem requestMessage_roundTrips_sample :
    RequestRoundTrips (.on sampleRequestText (requestDocument sampleTasks)) [] sampleTasks := by
  refine (requestMessage_roundTrips_iff _ _ _
    (Rapidjson.on_readsBack nul_notMem_sampleRequestText)).mpr ?_
  decide +kernel

/-- Of the argument `a\0b` the worker reads `a`. -/
theorem requestMessage_cuts_argument :
    ¬ ∀ (rj : Rapidjson) (error : Str) (tasks : List Task),
      rj.ReadsBack (requestDocument tasks) → RequestRoundTrips rj error tasks := by
  intro hClaim
  let task : Task := { argv := [[97, 0, 98]] }
  have hRj : (Rapidjson.on (oneArgumentText "a\\u0000b") (requestDocument [task])).ReadsBack
      (requestDocument [task]) := Rapidjson.on_readsBack (by decide)
  have hSame := (requestRoundTrips_iff_cut [] hRj).mp (hClaim _ [] [task] hRj) task
    List.mem_cons_self
  have hArgv : ([[97]] : List Str) = [[97, 0, 98]] := congrArg Task.argv hSame
  exact absurd hArgv (by decide)

-- ---------------------------------------------------------------------------
-- Responses
-- ---------------------------------------------------------------------------

/-- A task with the results of a record. -/
def Task.withResults (task record : Task) : Task :=
  { task with
    timeUsageMs := record.timeUsageMs
    timeUsageSysMs := record.timeUsageSysMs
    timeUsageUserMs := record.timeUsageUserMs
    wallTimeUsageMs := record.wallTimeUsageMs
    memoryUsageKb := record.memoryUsageKb
    timeLimitExceeded := record.timeLimitExceeded
    wallTimeLimitExceeded := record.wallTimeLimitExceeded
    exited := record.exited
    exitCode := record.exitCode
    signaled := record.signaled
    termSignal := record.termSignal
    oomKilled := record.oomKilled
    memoryLimitHit := record.memoryLimitHit }

def resultsDocument (records : List Task) : Json :=
  .object [(lit "tasks", .array (records.map Task.serializeResponse))]

def errorDocument (msg : Str) : Json := .object [(lit "error", .string (cstr msg))]

/-- What `Worker::process` returns: the error that the reader has found, or the records
that the containers have made of the tasks it has read. -/
theorem process_eq_ok_iff {rj : Rapidjson} {run : List Task → Except Halt (List Task)}
    {validator validator' : SchemaValidator} {request response : Str} :
    process rj run validator request = .ok (response, validator') ↔
      ∃ error tasks,
        parseAndValidateJsonRequest rj validator request = .ok (error, tasks, validator') ∧
        (error.isError = true ∧ response = cstr (rj.write (errorDocument (cstr error.msg))) ∨
          error.isError = false ∧ ∃ records, run tasks = .ok records ∧
            response = cstr (rj.write (resultsDocument records))) := by
  constructor
  · intro h
    obtain ⟨⟨error, tasks, validator₁⟩, hParse, h⟩ := bind_eq_ok h
    dsimp only at h
    split at h
    · rename_i hError
      obtain ⟨rfl, rfl⟩ := Prod.mk.inj (Except.ok.inj h)
      refine ⟨error, tasks, hParse, .inl ⟨hError, ?_⟩⟩
      rw [errorDocument, cstr_of_nul_free (nul_notMem_cstr _)]
    · rename_i hNone
      obtain ⟨records, hRun, h⟩ := bind_eq_ok h
      obtain ⟨rfl, rfl⟩ := Prod.mk.inj (Except.ok.inj h)
      exact ⟨error, tasks, hParse, .inr ⟨by simpa using hNone, records, hRun, rfl⟩⟩
  · rintro ⟨error, tasks, hParse, ⟨hError, rfl⟩ | ⟨hNone, records, hRun, rfl⟩⟩
    · rw [process, hParse, errorDocument, cstr_of_nul_free (nul_notMem_cstr _)]
      exact if_pos hError
    · rw [process, hParse]
      show (if error.isError = true then _ else _) = _
      rw [if_neg (by rw [hNone]; simp), hRun]
      rfl

theorem flatMap_cstr {chunks : List Str} (h : (0 : UInt8) ∉ chunks.flatten) :
    chunks.flatMap cstr = chunks.flatten := by
  rw [List.flatMap_def]
  congr 1
  rw [map_eq_self_iff]
  intro chunk hMem
  exact cstr_of_nul_free fun hNul => h (List.mem_flatten.mpr ⟨chunk, hMem, hNul⟩)

/-- A call of a process of its own that receives the text of a document. -/
theorem runTogether_document {rj : Rapidjson} {document : Json} {chunks : List Str}
    (tasks : List Task) (hRj : rj.ReadsBack document) (hSchema : responseSchema document = true)
    (hChunks : chunks.flatten = cstr (rj.write document)) :
    (runTogether rj tasks (.received chunks) none).1 =
      { readDocument tasks document with sent := requestMessage rj tasks } := by
  have hText : chunks.flatMap cstr = cstr (rj.write document) := by
    rw [flatMap_cstr (hChunks ▸ nul_notMem_cstr _), hChunks]
  have hRead : readResponse rj tasks (chunks.flatMap cstr) { schema := responseSchema } =
      (readDocument tasks document, { schema := responseSchema }) := by
    simp [readResponse, hText, hRj.parse_cstr, SchemaValidator.validate, hSchema]
  simp only [runTogether, Option.getD_none, hRead]

theorem deserializeResponse_serializeResponse (task record : Task) :
    task.deserializeResponse record.serializeResponse = ({}, task.withResults record) := by
  have hInt64 : ∀ (key : String) (x : Int64), record.serializeResponse.member? key = some (int64 x) →
      ∀ f : Int64 → Task, (record.serializeResponse.member? key).bind (fun v => v.int64?.map f) =
        some (f x) := by
    intro key x hKey f
    rw [hKey, Option.bind_some, int64?_int64]
    rfl
  have hInt32 : ∀ (key : String) (x : Int32), record.serializeResponse.member? key = some (int32 x) →
      ∀ f : Int32 → Task, (record.serializeResponse.member? key).bind (fun v => v.int32?.map f) =
        some (f x) := by
    intro key x hKey f
    rw [hKey, Option.bind_some, int32?_int32]
    rfl
  have hBool : ∀ (key : String) (x : Bool), record.serializeResponse.member? key = some (.bool x) →
      ∀ f : Bool → Task, (record.serializeResponse.member? key).bind (fun v => v.bool?.map f) =
        some (f x) := by
    intro key x hKey f
    rw [hKey]
    rfl
  show readMembers record.serializeResponse responseMembers task = _
  simp only [responseMembers, readMembers,
    hInt64 "time_usage_ms" _ rfl, hInt64 "time_usage_sys_ms" _ rfl,
    hInt64 "time_usage_user_ms" _ rfl, hInt64 "wall_time_usage_ms" _ rfl,
    hInt64 "memory_usage_kb" _ rfl, hBool "time_limit_exceeded" _ rfl,
    hBool "wall_time_limit_exceeded" _ rfl, hBool "exited" _ rfl, hInt32 "exit_code" _ rfl,
    hBool "signaled" _ rfl, hInt32 "term_signal" _ rfl, hBool "oom_killed" _ rfl,
    hBool "memory_limit_hit" _ rfl, Task.withResults]

theorem deserializeResponses_serializeResponse (tasks : List Task) : ∀ records : List Task,
    records.length = tasks.length →
    deserializeResponses tasks (records.map Task.serializeResponse) =
      { error := {}, tasks := List.zipWith Task.withResults tasks records } := by
  induction tasks with
  | nil =>
    intro records hLength
    obtain rfl := List.length_eq_zero_iff.mp hLength
    rfl
  | cons task tasks ih =>
    rintro (_ | ⟨record, records⟩) hLength
    · cases hLength
    · have hRest := ih records (Nat.succ.inj hLength)
      simp only [List.map_cons, deserializeResponses, deserializeResponse_serializeResponse, hRest]
      rfl

theorem responseTaskSchema_serializeResponse (record : Task) :
    responseTaskSchema record.serializeResponse = true := rfl

/-- The two alternatives of the schema: each kind of document satisfies its own only. -/
theorem responseSchema_resultsDocument (records : List Task) :
    errorSchema (resultsDocument records) = false ∧
      resultsSchema (resultsDocument records) = true ∧
      responseSchema (resultsDocument records) = true := by
  have hTasks := arraySchema_map responseTaskSchema_serializeResponse records
  have hProperties : Schema.properties
      [("tasks", Schema.allOf [Schema.type .array, Schema.items responseTaskSchema])]
      (resultsDocument records) = true := by
    refine properties_of_member (List.pairwise_singleton _ _) ?_
    rw [List.forall_mem_singleton]
    exact property_of_member rfl hTasks
  have hResults : resultsSchema (resultsDocument records) = true := by
    show (true && (true && (Schema.properties _ (resultsDocument records) && true))) = true
    rw [hProperties]
    rfl
  have hError : errorSchema (resultsDocument records) = false := rfl
  refine ⟨hError, hResults, ?_⟩
  simp only [responseSchema, Schema.oneOf, List.filter_cons, hError, hResults]
  rfl

theorem responseSchema_errorDocument (msg : Str) :
    errorSchema (errorDocument msg) = true ∧ resultsSchema (errorDocument msg) = false ∧
      responseSchema (errorDocument msg) = true :=
  ⟨rfl, rfl, rfl⟩

theorem readDocument_resultsDocument {tasks records : List Task}
    (hLength : records.length = tasks.length) :
    readDocument tasks (resultsDocument records) =
      { error := {}, tasks := List.zipWith Task.withResults tasks records } := by
  show (if (records.map Task.serializeResponse).length ≠ tasks.length then _
    else deserializeResponses tasks (records.map Task.serializeResponse)) = _
  rw [List.length_map, if_neg (not_not.mpr hLength)]
  exact deserializeResponses_serializeResponse tasks records hLength

/-- What the client makes of the text of results, a record for each of its tasks. -/
theorem runTogether_resultsDocument {rj : Rapidjson} {records tasks : List Task}
    {chunks : List Str} (hLength : records.length = tasks.length)
    (hRj : rj.ReadsBack (resultsDocument records))
    (hChunks : chunks.flatten = cstr (rj.write (resultsDocument records))) :
    (runTogether rj tasks (.received chunks) none).1 =
      { error := {}, tasks := List.zipWith Task.withResults tasks records
        sent := requestMessage rj tasks } := by
  rw [runTogether_document tasks hRj (responseSchema_resultsDocument records).2.2 hChunks,
    readDocument_resultsDocument hLength]

theorem readDocument_errorDocument (tasks : List Task) {msg : Str} (hMsg : (0 : UInt8) ∉ msg) :
    readDocument tasks (errorDocument msg) = { error := ⟨lit "[remote] " ++ msg⟩, tasks } := by
  show ({ error := ⟨lit "[remote] " ++ cstr (cstr msg)⟩, tasks } : Outcome) = _
  rw [cstr_of_nul_free hMsg, cstr_of_nul_free hMsg]

/-- **Every response comes back as it was sent**, whatever the pieces in which it
arrives: what `process` returns is the text of the records that the containers have made,
or of the error that the reader has found; of the former the client reads the results of
the `i`-th record into the `i`-th task, of the latter the message. -/
theorem process_roundTrips (rj : Rapidjson) :
    (∀ run validator request response validator',
      process rj run validator request = .ok (response, validator') ↔
        ∃ error tasks,
          parseAndValidateJsonRequest rj validator request = .ok (error, tasks, validator') ∧
          (error.isError = true ∧ response = cstr (rj.write (errorDocument (cstr error.msg))) ∨
            error.isError = false ∧ ∃ records, run tasks = .ok records ∧
              response = cstr (rj.write (resultsDocument records)))) ∧
    (∀ (records tasks : List Task) (chunks : List Str), records.length = tasks.length →
      rj.ReadsBack (resultsDocument records) →
      chunks.flatten = cstr (rj.write (resultsDocument records)) →
        responseSchema (resultsDocument records) = true ∧
        (runTogether rj tasks (.received chunks) none).1 =
          { error := {}, tasks := List.zipWith Task.withResults tasks records
            sent := requestMessage rj tasks }) ∧
    (∀ (msg : Str) (tasks : List Task) (chunks : List Str), (0 : UInt8) ∉ msg →
      rj.ReadsBack (errorDocument msg) →
      chunks.flatten = cstr (rj.write (errorDocument msg)) →
        errorSchema (errorDocument msg) = true ∧ responseSchema (errorDocument msg) = true ∧
        (runTogether rj tasks (.received chunks) none).1 =
          { error := ⟨lit "[remote] " ++ msg⟩, tasks, sent := requestMessage rj tasks }) := by
  refine ⟨fun _ _ _ _ _ => process_eq_ok_iff, ?_, ?_⟩
  · intro records tasks chunks hLength hRj hChunks
    exact ⟨(responseSchema_resultsDocument records).2.2,
      runTogether_resultsDocument hLength hRj hChunks⟩
  · intro msg tasks chunks hMsg hRj hChunks
    obtain ⟨hError, -, hSchema⟩ := responseSchema_errorDocument msg
    refine ⟨hError, hSchema, ?_⟩
    rw [runTogether_document tasks hRj hSchema hChunks, readDocument_errorDocument tasks hMsg]

/-- What the containers make of the two tasks: one runs into its time limit, the other
exits with 1. -/
def sampleRecords : List Task :=
  List.zipWith Task.withResults sampleTasks [
    { timeUsageMs := 1010, timeUsageSysMs := 10, timeUsageUserMs := 1000, wallTimeUsageMs := 1100
      memoryUsageKb := 2048, timeLimitExceeded := true },
    { timeUsageMs := 1, timeUsageUserMs := 1, wallTimeUsageMs := 2, memoryUsageKb := 300
      exited := true, exitCode := 1 }]

/-- The text of their response. -/
def sampleResponseText : Str :=
  lit "\x7b\"tasks\":[\x7b\"time_usage_ms\":1010,\"time_usage_sys_ms\":10," ++
  lit "\"time_usage_user_ms\":1000,\"wall_time_usage_ms\":1100,\"memory_usage_kb\":2048," ++
  lit "\"time_limit_exceeded\":true,\"wall_time_limit_exceeded\":false,\"exited\":false," ++
  lit "\"exit_code\":-1,\"signaled\":false,\"term_signal\":-1,\"oom_killed\":false," ++
  lit "\"memory_limit_hit\":false\x7d,\x7b\"time_usage_ms\":1,\"time_usage_sys_ms\":0," ++
  lit "\"time_usage_user_ms\":1,\"wall_time_usage_ms\":2,\"memory_usage_kb\":300," ++
  lit "\"time_limit_exceeded\":false,\"wall_time_limit_exceeded\":false,\"exited\":true," ++
  lit "\"exit_code\":1,\"signaled\":false,\"term_signal\":-1,\"oom_killed\":false," ++
  lit "\"memory_limit_hit\":false\x7d]\x7d"

/-- What the worker says to an empty request, and its text. -/
def emptyRequest : Str := lit "Request JSON incorrect: The document is empty. (at 0)"

def emptyRequestText : Str :=
  lit "\x7b\"error\":\"Request JSON incorrect: The document is empty. (at 0)\"\x7d"

/-- What rapidjson does with these three documents and their texts. -/
def sampleRapidjson : Rapidjson where
  parse text :=
    if text = sampleRequestText then .ok (requestDocument sampleTasks)
    else if text = sampleResponseText then .ok (resultsDocument sampleRecords)
    else if text = emptyRequestText then .ok (errorDocument emptyRequest)
    else .error (lit "The document is empty.", 0)
  write document :=
    if errorSchema document then emptyRequestText
    else if resultsSchema document then sampleResponseText
    else sampleRequestText
  schemaError _ _ := lit "\x7b\x7d"

theorem sampleRapidjson_parse (text : Str) : sampleRapidjson.parse text =
    if text = sampleRequestText then .ok (requestDocument sampleTasks)
    else if text = sampleResponseText then .ok (resultsDocument sampleRecords)
    else if text = emptyRequestText then .ok (errorDocument emptyRequest)
    else .error (lit "The document is empty.", 0) := rfl

theorem sampleRapidjson_request : sampleRapidjson.ReadsBack (requestDocument sampleTasks) := by
  have hWrite : sampleRapidjson.write (requestDocument sampleTasks) = sampleRequestText := rfl
  constructor
  · rw [hWrite, sampleRapidjson_parse, if_pos rfl]
  · rw [hWrite]
    exact nul_notMem_sampleRequestText

theorem sampleRapidjson_response : sampleRapidjson.ReadsBack (resultsDocument sampleRecords) := by
  have hWrite : sampleRapidjson.write (resultsDocument sampleRecords) = sampleResponseText := rfl
  have hOther : sampleResponseText ≠ sampleRequestText := by decide +kernel
  constructor
  · rw [hWrite, sampleRapidjson_parse, if_neg hOther, if_pos rfl]
  · rw [hWrite]
    decide +kernel

theorem sampleRapidjson_error : sampleRapidjson.ReadsBack (errorDocument emptyRequest) := by
  have hWrite : sampleRapidjson.write (errorDocument emptyRequest) = emptyRequestText := rfl
  have hOther : emptyRequestText ≠ sampleRequestText ∧ emptyRequestText ≠ sampleResponseText := by
    decide +kernel
  constructor
  · rw [hWrite, sampleRapidjson_parse, if_neg hOther.1, if_neg hOther.2, if_pos rfl]
  · rw [hWrite]
    decide +kernel

theorem parseAndValidateJsonRequest_empty (validator : SchemaValidator) :
    parseAndValidateJsonRequest sampleRapidjson validator [] = .ok (⟨emptyRequest⟩, [], validator) := by
  have hOther : ([] : Str) ≠ sampleRequestText ∧ ([] : Str) ≠ sampleResponseText ∧
      ([] : Str) ≠ emptyRequestText := by decide +kernel
  have hText : requestIncorrect (lit "The document is empty.") 0 = ⟨emptyRequest⟩ := by
    decide +kernel
  rw [parseAndValidateJsonRequest, show cstr [] = [] from rfl, sampleRapidjson_parse,
    if_neg hOther.1, if_neg hOther.2.1, if_neg hOther.2.2, ← hText]

/-- Two tasks whose response arrives in two pieces, and an empty request. -/
theorem process_roundTrips_sample :
    (∃ response validator',
      process sampleRapidjson (fun _ => .ok sampleRecords) { schema := requestSchema }
        (requestMessage sampleRapidjson sampleTasks) = .ok (response, validator') ∧
      (runTogether sampleRapidjson sampleTasks
        (.received [response.take 100, response.drop 100]) none).1.tasks = sampleRecords) ∧
    (∃ response validator',
      process sampleRapidjson (fun _ => .ok sampleRecords) { schema := requestSchema } [] =
        .ok (response, validator') ∧
      (runTogether sampleRapidjson sampleTasks (.received [response]) none).1.error =
        ⟨lit "[remote] Request JSON incorrect: The document is empty. (at 0)"⟩) := by
  obtain ⟨hProcess, hResults, hError⟩ := process_roundTrips sampleRapidjson
  constructor
  · have hParse := parseAndValidateJsonRequest_requestMessage [] sampleRapidjson_request
    let response := cstr (sampleRapidjson.write (resultsDocument sampleRecords))
    have hChunks : [response.take 100, response.drop 100].flatten = response := by
      rw [List.flatten_cons, List.flatten_singleton, List.take_append_drop]
    refine ⟨response, _, (hProcess _ _ _ _ _).mpr ⟨_, _, hParse, .inr ⟨rfl, _, rfl, rfl⟩⟩, ?_⟩
    rw [(hResults sampleRecords sampleTasks _ rfl sampleRapidjson_response hChunks).2]
    rfl
  · have hParse := parseAndValidateJsonRequest_empty { schema := requestSchema }
    have hFree : cstr emptyRequest = emptyRequest := by decide +kernel
    let response := cstr (sampleRapidjson.write (errorDocument (cstr emptyRequest)))
    have hChunks : [response].flatten = cstr (sampleRapidjson.write (errorDocument emptyRequest)) := by
      rw [List.flatten_singleton, ← hFree]
    refine ⟨response, _, (hProcess _ _ _ _ _).mpr ⟨_, _, hParse, .inl ⟨rfl, rfl⟩⟩, ?_⟩
    rw [(hError emptyRequest sampleTasks _ (by decide +kernel) sampleRapidjson_error hChunks).2.2]
    rfl

end Libsbox
