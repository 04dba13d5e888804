import Libsbox.Model.Descriptors
import Libsbox.Worker.Requests

/-!
# libsbox — a worker and its requests

The world of a worker together with the texts that come in and go out:
`Worker::process` as a call that takes a request, lets the containers run and returns
a response. Every interleaving of the processes and every sequence of requests is one
run.
-/

namespace Libsbox

open CMemory

/-- The response to a request that is not valid. -/
def errorReply (rj : Rapidjson) (error : Error) : Str :=
  cstr (rj.write (.object [(lit "error", .string (cstr error.msg))]))

/-- The response of `collect_results`. -/
def tasksReply (rj : Rapidjson) (tasks : List Task) : Str :=
  cstr (rj.write (.object [(lit "tasks", .array (tasks.map Task.serializeResponse))]))

/-- A worker. `valid` are the requests found valid so far, `replies` what `process` has
returned. -/
structure Worker where
  world : World
  validator : SchemaValidator
  valid : List (List Task) := []
  replies : List Str := []

namespace Worker

/-- A worker that has just begun to serve. -/
def initial (firstUid : Uid) : Worker where
  world := .initial firstUid
  validator := { schema := requestSchema }

inductive Move where
  /-- `process` is called. -/
  | process (request : Str)
  /-- A step of the processes. -/
  | world (wa : WorldAct)

/-- `process` up to the first step of `prepare_containers`, or to the error response. -/
def process (rj : Rapidjson) (pathEnv : Option Str) (v : Worker) (request : Str) : Option Worker :=
  if v.world.sys.alive ∧ v.world.sys.worker = .accept then
    match parseAndValidateJsonRequest rj v.validator request with
    | .error _ => (v.world.step pathEnv (.sys (.fail .worker) [])).map fun world => { v with world }
    | .ok (error, tasks, validator) =>
      if error.isError then
        some { v with validator, replies := v.replies ++ [errorReply rj error] }
      else (v.world.step pathEnv (.sys (.accept tasks) [])).map fun world =>
        { v with world, validator, valid := v.valid ++ [tasks] }
  else none

/-- The responses that a step of the world sends. -/
def newReplies (rj : Rapidjson) (s s' : Sys) : List Str :=
  (s'.responses.drop s.responses.length).map (tasksReply rj)

def step (rj : Rapidjson) (pathEnv : Option Str) (v : Worker) : Move → Option Worker
  | .process request => v.process rj pathEnv request
  | .world (.sys (.accept _) _) => none
  | .world wa => (v.world.step pathEnv wa).map fun world =>
    { v with world, replies := v.replies ++ newReplies rj v.world.sys world.sys }

end Worker

end Libsbox
