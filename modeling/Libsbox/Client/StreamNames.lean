import Libsbox.Lib.Decimal
import Libsbox.Messages.RoundTrips
import Libsbox.Slave.Descriptors

/-!
# libsbox — the settings of a stream and their names

The client library packs four settings of a stream into one string: the empty name is a
disabled stream, `@` and the name of a pipe is that pipe, `@_stdout` on stderr is the standard
output, and anything else the file of that name. The string goes through the request, where it
ends at its first NUL, and `set_task` takes it apart again.

## Results

* `Pipe.name_injective` — pipes of different counters have different names;
* `lastCall_meant_iff` — when a stream gets what the last call on it asked for.
-/

namespace Libsbox

open CMemory

-- ---------------------------------------------------------------------------
-- The client's side
-- ---------------------------------------------------------------------------

/-- `Pipe`, by the value of the static counter at its construction. -/
structure Pipe where
  counter : Int32

namespace Pipe

/-- `Pipe::Pipe`; the counter is not to overflow. -/
def new (counter : Int32) : Pipe × Int32 := (⟨counter⟩, counter + 1)

/-- `name_`. -/
def name (pipe : Pipe) : Str := lit "pipe-" ++ decimalInt pipe.counter.toInt

theorem name_injective : Function.Injective name := by
  intro p q h
  have hCounter := Int32.toInt_inj.mp (decimalInt_injective (List.append_cancel_left h))
  cases p
  cases q
  exact congrArg Pipe.mk hCounter

theorem nul_notMem_name (pipe : Pipe) : (0 : UInt8) ∉ pipe.name := by
  intro hMem
  rcases List.mem_append.mp hMem with hLit | hNumber
  · exact absurd hLit (by decide)
  · exact nul_notMem_decimalInt _ hNumber

/-- No pipe has the reserved name. -/
theorem name_ne_stdout (pipe : Pipe) : pipe.name ≠ lit "_stdout" := by
  intro hEq
  have hFirst := congrArg List.head? hEq
  exact absurd hFirst (by simp [name, lit])

end Pipe

namespace Stream

/-- `Stream::disable`. -/
def disable (stream : Stream) : Stream := { stream with filename := [] }

/-- `Stream::use_pipe`. -/
def usePipe (stream : Stream) (pipe : Pipe) : Stream :=
  { stream with filename := lit "@" ++ pipe.name }

/-- `Stream::use_file`. -/
def useFile (stream : Stream) (filename : Str) : Stream := { stream with filename }

/-- `StderrStream::use_stdout`. -/
def useStdout (stream : Stream) : Stream := { stream with filename := lit "@_stdout" }

end Stream

/-- A call on a stream of a task. Only stderr is a `StderrStream`. -/
inductive StreamCall : StdStream → Type where
  | disable (st : StdStream) : StreamCall st
  | usePipe (st : StdStream) (pipe : Pipe) : StreamCall st
  | useFile (st : StdStream) (filename : Str) : StreamCall st
  | useStdout : StreamCall .stderr

namespace StreamCall

variable {st : StdStream}

def on (stream : Stream) : StreamCall st → Stream
  | .disable _ => stream.disable
  | .usePipe _ pipe => stream.usePipe pipe
  | .useFile _ filename => stream.useFile filename
  | .useStdout => stream.useStdout

/-- The stream behind a sequence of calls. -/
def run (calls : List (StreamCall st)) : Stream := calls.foldl (fun stream c => c.on stream) {}

/-- Nothing of the calls before is left. -/
theorem on_eq (c : StreamCall st) (stream : Stream) : c.on stream = c.on {} := by
  cases c <;> rfl

theorem run_last {calls : List (StreamCall st)} {last : StreamCall st}
    (h : calls.getLast? = some last) : run calls = last.on {} := by
  obtain ⟨before, rfl⟩ := List.getLast?_eq_some_iff.mp h
  rw [run, List.foldl_append]
  exact on_eq last _

/-- What the description of the stream is to say, with these pipes of the worker: `open_files`
opens the file that it names, or takes its descriptor. -/
def Meant (pipes : List (Str × Fd × Fd)) (desc : IOStream) : StreamCall st → Prop
  | .disable _ => desc.filename.empty = false ∧ desc.filename.cStr = lit "/dev/null"
  | .usePipe st pipe => desc.filename.empty = true ∧
      (∃ fds, pipes.lookup pipe.name = some fds ∧ desc.fd = st.pipeEnd.fd fds) ∧
        ∀ other : Pipe, other.name = pipe.name → other = pipe
  | .useFile _ filename => desc.filename.empty = false ∧ desc.filename.cStr = filename
  | .useStdout => desc.filename.empty = true ∧ desc.fd = stdoutFileno

/-- The call asks for a file only by a name that is no other setting and has no NUL. -/
def Plain : StreamCall st → Prop
  | .useFile _ filename => filename ≠ [] ∧ filename.head? ≠ some 64 ∧ (0 : UInt8) ∉ filename
  | _ => True

instance : (c : StreamCall st) → Decidable c.Plain
  | .useFile _ _ => inferInstanceAs (Decidable (_ ∧ _))
  | .disable _ | .usePipe _ _ | .useStdout => .isTrue trivial

end StreamCall

-- ---------------------------------------------------------------------------
-- The request
-- ---------------------------------------------------------------------------

/-- A name on its way through the request. -/
theorem received_filename {client received : Task}
    (h : Task.deserializeRequest client.serializeRequest = .ok received) (st : StdStream) :
    received.filename st = cstr (client.filename st) := by
  rw [deserializeRequest_serializeRequest] at h
  obtain rfl := Except.ok.inj h
  cases st <;> rfl

section

variable {st : StdStream} {task : Task}

theorem Task.asks_file_iff : task.asks st = .file ↔ (task.filename st).head? ≠ some 64 := by
  unfold Task.asks
  split
  · next hAt =>
    refine iff_of_false ?_ (not_not.mpr hAt)
    split <;> simp
  · next hPlain => exact iff_of_true rfl hPlain

theorem Task.asks_usePipe {pipe : Pipe} (h : task.filename st = cstr (lit "@" ++ pipe.name)) :
    task.asks st = .pipe pipe.name := by
  have hName : task.filename st = 64 :: pipe.name := by
    rw [h, cstr_of_nul_free]
    · rfl
    · intro hMem
      rcases List.mem_cons.mp hMem with hAt | hRest
      · exact absurd hAt (by decide)
      · exact pipe.nul_notMem_name hRest
  rw [Task.asks, hName, List.head?_cons, if_pos rfl]
  exact if_neg fun hStdout => pipe.name_ne_stdout hStdout.2

theorem Task.asks_useStdout (h : task.filename .stderr = cstr (lit "@_stdout")) :
    task.asks .stderr = .stdout := by
  rw [Task.asks, h]
  rfl

/-- A description that names a file. -/
theorem Described.empty_iff {pipes : List (Str × Fd × Fd)} {desc : IOStream} {asked : Asked}
    (h : Described pipes st desc asked) : desc.filename.empty = false ↔ asked = .file := by
  cases asked with
  | file => exact iff_of_true h rfl
  | pipe name =>
    rw [h.1]
    simp
  | stdout =>
    rw [h.1]
    simp

/-- The file of a name is that of its C string only for a name that is one. -/
theorem cstr_fileName_eq_iff {filename : Str} (h : (cstr filename).head? ≠ some 64) :
    cstr (fileName (cstr filename)) = filename ↔
      filename ≠ [] ∧ filename.head? ≠ some 64 ∧ (0 : UInt8) ∉ filename := by
  by_cases hNul : (0 : UInt8) ∈ filename
  · refine iff_of_false (fun hEq => ?_) fun hPlain => hPlain.2.2 hNul
    rw [← hEq] at hNul
    exact nul_notMem_cstr _ hNul
  · rw [cstr_of_nul_free hNul] at h ⊢
    rcases filename with - | ⟨c, filename⟩
    · refine iff_of_false ?_ fun hPlain => hPlain.1 rfl
      decide
    · have hName : fileName (c :: filename) = c :: filename := rfl
      rw [hName, cstr_of_nul_free hNul]
      exact iff_of_true rfl ⟨List.cons_ne_nil c filename, h, hNul⟩

/-- The description that `set_task` writes is the one meant if and only if a file is asked for
by a plain name. -/
theorem StreamCall.described_meant_iff {pipes : List (Str × Fd × Fd)} {desc : IOStream}
    (c : StreamCall st) (h : task.filename st = cstr (c.on {}).filename)
    (hDescribed : Described pipes st desc (task.asks st))
    (hFile : task.asks st = .file → desc.filename.cStr = cstr (fileName (task.filename st))) :
    c.Meant pipes desc ↔ c.Plain := by
  cases c with
  | disable =>
    have hAsks : task.asks st = .file := by
      rw [Task.asks_file_iff, h]
      show (cstr []).head? ≠ some 64
      decide
    refine iff_of_true ⟨hDescribed.empty_iff.mpr hAsks, ?_⟩ trivial
    rw [hFile hAsks, h]
    rfl
  | usePipe _ pipe =>
    rw [Task.asks_usePipe h] at hDescribed
    exact iff_of_true ⟨hDescribed.1, hDescribed.2, fun _ hSame => Pipe.name_injective hSame⟩ trivial
  | useStdout =>
    rw [Task.asks_useStdout h] at hDescribed
    exact iff_of_true hDescribed trivial
  | useFile _ filename =>
    have hName : task.filename st = cstr filename := h
    show (desc.filename.empty = false ∧ desc.filename.cStr = filename) ↔ _
    rw [hDescribed.empty_iff]
    by_cases hAt : (cstr filename).head? = some 64
    · have hAsks : task.asks st ≠ .file := by
        rw [ne_eq, Task.asks_file_iff, hName]
        exact not_not.mpr hAt
      refine iff_of_false (fun hMeant => hAsks hMeant.1) ?_
      rintro ⟨-, hHead, hNul⟩
      rw [cstr_of_nul_free hNul] at hAt
      exact hHead hAt
    · have hAsks : task.asks st = .file := Task.asks_file_iff.mpr (by rw [hName]; exact hAt)
      rw [hFile hAsks, hName, cstr_fileName_eq_iff hAt]
      exact and_iff_right hAsks

end

-- ---------------------------------------------------------------------------
-- The way of a setting
-- ---------------------------------------------------------------------------

/-- The descriptions that `set_task` has written into the shared block. -/
def TaskData.streams (d : TaskData) : Streams := ⟨d.stdinDesc, d.stdoutDesc, d.stderrDesc⟩

/-- **The description of a stream is that of the last call on it** if and only if the call
asks for no file, or for one by a name that is not empty, does not begin with `@` and has no
NUL. -/
theorem lastCall_meant_iff (calls : (st : StdStream) → List (StreamCall st))
    {client received : Task} {d d' : TaskData} {pipes pipes' : Pipes}
    (hCalls : ∀ st, client.filename st = (StreamCall.run (calls st)).filename)
    (hRequest : Task.deserializeRequest client.serializeRequest = .ok received)
    (hSet : setTask received d pipes = .ok (d', pipes')) {st : StdStream} {last : StreamCall st}
    (hLast : (calls st).getLast? = some last) :
    last.Meant pipes'.pipes (d'.streams.desc st) ↔ last.Plain := by
  have hStreams := setTask_streams hSet
  obtain ⟨new, -, -, hDescribed⟩ := set_described hStreams
  refine last.described_meant_iff ?_ (hDescribed st) fun hAsks => Slave.set_fileName hStreams hAsks
  rw [received_filename hRequest, hCalls, StreamCall.run_last hLast]

/-- The standard output goes to a file `@log`. -/
def logCalls : (st : StdStream) → List (StreamCall st)
  | .stdin => [.disable .stdin]
  | .stdout => [.usePipe .stdout ⟨0⟩, .useFile .stdout (lit "@log")]
  | .stderr => [.disable .stderr]

def logTask : Task := { stdout := { filename := lit "@log" } }

theorem logTask_set : ∃ d' pipes', setTask logTask TaskData.new ⟨[], [5, 6]⟩ = .ok (d', pipes') := by
  let made : Pipes := ⟨[(lit "log", 5, 6)], []⟩
  obtain ⟨stdin, hStdin⟩ : ∃ stdin,
      setStdin logTask.stdin.filename TaskData.new.stdinDesc ⟨[], [5, 6]⟩ =
        .ok (stdin, ⟨[], [5, 6]⟩) :=
    setStream_disabled "stdin" Prod.fst false {} ⟨[], [5, 6]⟩
  obtain ⟨stdout, hStdout⟩ : ∃ stdout,
      setStdout logTask.stdout.filename TaskData.new.stdoutDesc ⟨[], [5, 6]⟩ =
        .ok (stdout, made) :=
    setStream_pipe "stdout" Prod.snd {} rfl rfl
  obtain ⟨stderr, hStderr⟩ : ∃ stderr,
      setStderr logTask.stderr.filename TaskData.new.stderrDesc made = .ok (stderr, made) :=
    setStream_disabled "stderr" Prod.snd true {} made
  obtain ⟨d', hSet⟩ := setTask_of_streams hStdin hStdout hStderr rfl (by decide) (by decide)
  exact ⟨d', made, hSet⟩

theorem lastCall_meant_iff_log :
    ∃ d' pipes', setTask logTask TaskData.new ⟨[], [5, 6]⟩ = .ok (d', pipes') ∧
      ¬ (StreamCall.useFile .stdout (lit "@log")).Meant pipes'.pipes (d'.streams.desc .stdout) := by
  obtain ⟨d', pipes', hSet⟩ := logTask_set
  refine ⟨d', pipes', hSet, fun hMeant => ?_⟩
  have hPlain := (lastCall_meant_iff logCalls (fun st => by cases st <;> rfl)
    (deserializeRequest_serializeRequest logTask) hSet rfl).mp hMeant
  exact absurd hPlain (by decide)

/-- It is connected to a pipe `log`. -/
theorem setting_confused :
    ¬ ∀ (calls : (st : StdStream) → List (StreamCall st)) (client received : Task)
      (d d' : TaskData) (pipes pipes' : Pipes),
      (∀ st, client.filename st = (StreamCall.run (calls st)).filename) →
      Task.deserializeRequest client.serializeRequest = .ok received →
      setTask received d pipes = .ok (d', pipes') →
      ∀ st, ∀ last ∈ (calls st).getLast?, last.Meant pipes'.pipes (d'.streams.desc st) := by
  intro hClaim
  obtain ⟨d', pipes', hSet⟩ := logTask_set
  have hMeant := hClaim logCalls logTask logTask TaskData.new d' _ pipes'
    (fun st => by cases st <;> rfl) (deserializeRequest_serializeRequest logTask) hSet .stdout
    (.useFile .stdout (lit "@log")) rfl
  obtain ⟨new, -, -, hDescribed⟩ := set_described (setTask_streams hSet)
  have hAsks : logTask.asks .stdout = .file := (hDescribed .stdout).empty_iff.mp hMeant.1
  exact absurd (Task.asks_file_iff.mp hAsks) (by decide)

end Libsbox
