import Libsbox.Lib.CMemory

/-!
# libsbox — tasks

The `Task` of the client library (libsbox.h): the parameters of one run and the
results the worker fills in. `std::string` is `Str`, `int64_t` and `int32_t` are
`Int64` and `Int32`; `int` has the width of `int32_t` (libsbox_internal.h
asserts it).
-/

namespace Libsbox

open CMemory

def argcMax : Nat := 128
def envcMax : Nat := 128
def bindsMax : Nat := 10
def argvMax : Nat := 4096
def envMax : Nat := 4096

/-- `BindRule`. -/
structure BindRule where
  inside : Str
  outside : Str
  flags : Int32 := 0
  deriving DecidableEq

/-- `Stream` and `StderrStream`: the empty name is a disabled stream, `@name` a
pipe, `@_stdout` on stderr the standard output, anything else a file. -/
structure Stream where
  filename : Str := []
  deriving DecidableEq

/-- `Task`. -/
structure Task where
  -- parameters
  timeLimitMs : Int64 := -1
  wallTimeLimitMs : Int64 := -1
  memoryLimitKb : Int64 := -1
  fsizeLimitKb : Int64 := -1
  maxFiles : Int32 := 16
  maxThreads : Int32 := 1
  needIpc : Bool := false
  useStandardBinds : Bool := true
  stdin : Stream := {}
  stdout : Stream := {}
  stderr : Stream := {}
  argv : List Str := []
  env : List Str := []
  binds : List BindRule := []
  -- results
  timeUsageMs : Int64 := 0
  timeUsageSysMs : Int64 := 0
  timeUsageUserMs : Int64 := 0
  wallTimeUsageMs : Int64 := 0
  memoryUsageKb : Int64 := 0
  timeLimitExceeded : Bool := false
  wallTimeLimitExceeded : Bool := false
  exited : Bool := false
  exitCode : Int32 := -1
  signaled : Bool := false
  termSignal : Int32 := -1
  oomKilled : Bool := false
  memoryLimitHit : Bool := false
  deriving DecidableEq

/-- The parameters of a task, with the results of a new one. -/
def Task.parameters (task : Task) : Task where
  timeLimitMs := task.timeLimitMs
  wallTimeLimitMs := task.wallTimeLimitMs
  memoryLimitKb := task.memoryLimitKb
  fsizeLimitKb := task.fsizeLimitKb
  maxFiles := task.maxFiles
  maxThreads := task.maxThreads
  needIpc := task.needIpc
  useStandardBinds := task.useStandardBinds
  stdin := task.stdin
  stdout := task.stdout
  stderr := task.stderr
  argv := task.argv
  env := task.env
  binds := task.binds

end Libsbox
