import Libsbox.Lib.Json
import Libsbox.Model.Halt
import Libsbox.Model.Task

/-!
# libsbox — messages between client and worker

The JSON documents of a request and of its response: how each side writes and
reads them (libsbox.cpp) and the two schemas that are checked before a document
is read (schema/request.json, schema/response.json).

Both readers are written with the same macros and differ in `ERR`: the worker
dies, the client returns an error and keeps what it has read so far.
-/

namespace Libsbox

open CMemory JsonDoc

/-- What the code uses of rapidjson: `Document::Parse`, which yields a document
or the text and the offset of an error, `Writer`, and the text a validator's
`GetError` is written as. -/
structure Rapidjson where
  parse : Str → Except (Str × Nat) Json
  write : Json → Str
  schemaError : Schema → Json → Str

/-- `Error`; the empty message is no error. -/
structure Error where
  msg : Str := []
  deriving DecidableEq

def Error.isError (e : Error) : Bool := !e.msg.isEmpty

-- ---------------------------------------------------------------------------
-- Writers
-- ---------------------------------------------------------------------------

def int64 (x : Int64) : Json := .int (StoredInt.ofInt64 x)

def int32 (x : Int32) : Json := .int (StoredInt.ofInt32 x)

def BindRule.serializeRequest (rule : BindRule) : Json :=
  .object [
    (lit "inside", .string rule.inside),
    (lit "outside", .string rule.outside),
    (lit "flags", int32 rule.flags)]

def Stream.serializeRequest (stream : Stream) : Json := .string stream.filename

def Task.serializeRequest (task : Task) : Json :=
  .object [
    (lit "time_limit_ms", int64 task.timeLimitMs),
    (lit "wall_time_limit_ms", int64 task.wallTimeLimitMs),
    (lit "memory_limit_kb", int64 task.memoryLimitKb),
    (lit "fsize_limit_kb", int64 task.fsizeLimitKb),
    (lit "max_files", int32 task.maxFiles),
    (lit "max_threads", int32 task.maxThreads),
    (lit "need_ipc", .bool task.needIpc),
    (lit "use_standard_binds", .bool task.useStandardBinds),
    (lit "stdin", task.stdin.serializeRequest),
    (lit "stdout", task.stdout.serializeRequest),
    (lit "stderr", task.stderr.serializeRequest),
    (lit "argv", .array (task.argv.map .string)),
    (lit "env", .array (task.env.map .string)),
    (lit "binds", .array (task.binds.map BindRule.serializeRequest))]

def Task.serializeResponse (task : Task) : Json :=
  .object [
    (lit "time_usage_ms", int64 task.timeUsageMs),
    (lit "time_usage_sys_ms", int64 task.timeUsageSysMs),
    (lit "time_usage_user_ms", int64 task.timeUsageUserMs),
    (lit "wall_time_usage_ms", int64 task.wallTimeUsageMs),
    (lit "memory_usage_kb", int64 task.memoryUsageKb),
    (lit "time_limit_exceeded", .bool task.timeLimitExceeded),
    (lit "wall_time_limit_exceeded", .bool task.wallTimeLimitExceeded),
    (lit "exited", .bool task.exited),
    (lit "exit_code", int32 task.exitCode),
    (lit "signaled", .bool task.signaled),
    (lit "term_signal", int32 task.termSignal),
    (lit "oom_killed", .bool task.oomKilled),
    (lit "memory_limit_hit", .bool task.memoryLimitHit)]

-- ---------------------------------------------------------------------------
-- The worker's reader
-- ---------------------------------------------------------------------------

/-- `ERR()` on a failed check. -/
def orDie {α : Type} : Option α → Except Halt α
  | some a => .ok a
  | none => .error (.die (lit "JSON is incorrect"))

/-- `GET_MEMBER` with the `Is`/`Get` pair `get`. -/
def getMember {α : Type} (get : Json → Option α) (obj : Json) (key : String) : Except Halt α :=
  orDie ((obj.member? key).bind get)

/-- The constructor of `BindRule` that reads JSON. -/
def BindRule.ofJson (value : Json) : Except Halt BindRule := do
  orDie (if value.isObject then some () else none)
  let inside ← getMember Json.cString? value "inside"
  let outside ← getMember Json.cString? value "outside"
  let flags ← getMember Json.int32? value "flags"
  return { inside, outside, flags }

def Stream.deserializeRequest (value : Json) : Except Halt Stream :=
  match value with
  | .null => .ok { filename := [] }
  | value => (orDie value.cString?).map Stream.mk

/-- The loops over `argv` and `env`. -/
def deserializeStrings (value : Json) (key : String) : Except Halt (List Str) := do
  let elements ← getMember Json.array? value key
  elements.mapM fun element => orDie element.cString?

def deserializeStream (value : Json) (key : String) : Except Halt Stream := do
  let member ← getMember some value key
  Stream.deserializeRequest member

/-- The loop over `binds`. -/
def deserializeBinds (value : Json) (key : String) : Except Halt (List BindRule) := do
  let elements ← getMember Json.array? value key
  elements.mapM BindRule.ofJson

/-- `Task::deserialize_request` on a new task. -/
def Task.deserializeRequest (value : Json) : Except Halt Task := do
  orDie (if value.isObject then some () else none)
  let timeLimitMs ← getMember Json.int64? value "time_limit_ms"
  let wallTimeLimitMs ← getMember Json.int64? value "wall_time_limit_ms"
  let memoryLimitKb ← getMember Json.int64? value "memory_limit_kb"
  let fsizeLimitKb ← getMember Json.int64? value "fsize_limit_kb"
  let maxFiles ← getMember Json.int32? value "max_files"
  let maxThreads ← getMember Json.int32? value "max_threads"
  let needIpc ← getMember Json.bool? value "need_ipc"
  let useStandardBinds ← getMember Json.bool? value "use_standard_binds"
  let stdin ← deserializeStream value "stdin"
  let stdout ← deserializeStream value "stdout"
  let stderr ← deserializeStream value "stderr"
  let argv ← deserializeStrings value "argv"
  let env ← deserializeStrings value "env"
  let binds ← deserializeBinds value "binds"
  return {
    timeLimitMs, wallTimeLimitMs, memoryLimitKb, fsizeLimitKb, maxFiles, maxThreads, needIpc
    useStandardBinds, stdin, stdout, stderr, argv, env, binds }

-- ---------------------------------------------------------------------------
-- The client's reader
-- ---------------------------------------------------------------------------

/-- The members of a response's task, in the order they are read, and the field
each of them sets. -/
def responseMembers : List (String × (Task → Json → Option Task)) := [
  ("time_usage_ms", fun task v => v.int64?.map fun x => { task with timeUsageMs := x }),
  ("time_usage_sys_ms", fun task v => v.int64?.map fun x => { task with timeUsageSysMs := x }),
  ("time_usage_user_ms", fun task v => v.int64?.map fun x => { task with timeUsageUserMs := x }),
  ("wall_time_usage_ms", fun task v => v.int64?.map fun x => { task with wallTimeUsageMs := x }),
  ("memory_usage_kb", fun task v => v.int64?.map fun x => { task with memoryUsageKb := x }),
  ("time_limit_exceeded", fun task v => v.bool?.map fun x => { task with timeLimitExceeded := x }),
  ("wall_time_limit_exceeded",
    fun task v => v.bool?.map fun x => { task with wallTimeLimitExceeded := x }),
  ("exited", fun task v => v.bool?.map fun x => { task with exited := x }),
  ("exit_code", fun task v => v.int32?.map fun x => { task with exitCode := x }),
  ("signaled", fun task v => v.bool?.map fun x => { task with signaled := x }),
  ("term_signal", fun task v => v.int32?.map fun x => { task with termSignal := x }),
  ("oom_killed", fun task v => v.bool?.map fun x => { task with oomKilled := x }),
  ("memory_limit_hit", fun task v => v.bool?.map fun x => { task with memoryLimitHit := x })]

def responseIncorrect : Error := ⟨lit "Response JSON is incorrect"⟩

/-- A sequence of `GET_MEMBER`s; the fields before a failed one stay set. -/
def readMembers (value : Json) : List (String × (Task → Json → Option Task)) → Task → Error × Task
  | [], task => ({}, task)
  | (key, set) :: members, task =>
    match (value.member? key).bind (set task) with
    | none => (responseIncorrect, task)
    | some task => readMembers value members task

def Task.deserializeResponse (task : Task) (value : Json) : Error × Task :=
  if value.isObject then readMembers value responseMembers task
  else (responseIncorrect, task)

-- ---------------------------------------------------------------------------
-- Schemas
-- ---------------------------------------------------------------------------

section

open Schema

/-! ### schema/request.json -/

/-- `#/definitions/stream`. -/
def streamSchema : Schema := oneOf [type .null, type .string]

def bindSchema : Schema := allOf [
  type .object,
  required ["inside", "outside", "flags"],
  properties [
    ("inside", type .string),
    ("outside", type .string),
    ("flags", type .integer)]]

def requestTaskSchema : Schema := allOf [
  type .object,
  required ["argv", "time_limit_ms", "wall_time_limit_ms", "memory_limit_kb", "fsize_limit_kb",
    "max_files", "max_threads", "stdin", "stdout", "stderr", "need_ipc", "use_standard_binds",
    "binds"],
  properties [
    ("argv", allOf [type .array, items (type .string)]),
    ("time_limit_ms", type .integer),
    ("wall_time_limit_ms", type .integer),
    ("memory_limit_kb", type .integer),
    ("fsize_limit_kb", type .integer),
    ("max_files", type .integer),
    ("max_threads", type .integer),
    ("stdin", streamSchema),
    ("stdout", streamSchema),
    ("stderr", streamSchema),
    ("ipc", type .boolean),
    ("standard_binds", type .boolean),
    ("binds", allOf [type .array, items bindSchema])]]

def requestSchema : Schema := allOf [
  type .object,
  required ["tasks"],
  properties [("tasks", allOf [type .array, items requestTaskSchema])]]

/-! ### schema/response.json -/

def responseTaskSchema : Schema := allOf [
  type .object,
  required ["time_usage_ms", "time_usage_sys_ms", "time_usage_user_ms", "wall_time_usage_ms",
    "memory_usage_kb", "time_limit_exceeded", "wall_time_limit_exceeded", "exited", "exit_code",
    "signaled", "term_signal", "oom_killed", "memory_limit_hit"],
  properties [
    ("time_usage_ms", type .integer),
    ("time_usage_sys_ms", type .integer),
    ("time_usage_user_ms", type .integer),
    ("wall_time_usage_ms", type .integer),
    ("memory_usage_kb", type .integer),
    ("time_limit_exceeded", type .boolean),
    ("wall_time_limit_exceeded", type .boolean),
    ("exited", type .boolean),
    ("exit_code", type .integer),
    ("signaled", type .boolean),
    ("term_signal", type .integer),
    ("oom_killed", type .boolean),
    ("memory_limit_hit", type .boolean)]]

def errorSchema : Schema := allOf [
  type .object,
  required ["error"],
  properties [("error", type .string)]]

def resultsSchema : Schema := allOf [
  type .object,
  required ["tasks"],
  properties [("tasks", allOf [type .array, items responseTaskSchema])]]

def responseSchema : Schema := oneOf [errorSchema, resultsSchema]

end

/-- `SchemaValidator`, constructed from a schema text that compiles (the two
generated ones do). -/
structure SchemaValidator where
  schema : Schema
  error : Str := []

/-- `SchemaValidator::validate`. -/
def SchemaValidator.validate (rj : Rapidjson) (validator : SchemaValidator) (document : Json) :
    Bool × SchemaValidator :=
  let validator := { validator with error := [] }
  if validator.schema document then (true, validator)
  else
    let error := lit "Invalid document: " ++ cstr (rj.schemaError validator.schema document)
    (false, { validator with error })

end Libsbox
