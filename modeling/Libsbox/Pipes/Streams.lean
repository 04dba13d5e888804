import Libsbox.Marshalling.Capacity
import Libsbox.Pipes.Pipework

/-!
# libsbox — the streams of a task

The way of a stream from its name in the request to descriptor 0, 1 or 2 of the
target. `set_task` writes a description of it, `open_files` completes that in the
slave, `dup2_fds` moves the descriptor to its place and `close_all_fds` closes
whatever else the slave got from `fork`.

`Forked`, `Opened`, `Placed` and `Closed` are what holds of the slave's table between
these calls.

## Results

* `set_described` — what `set_task` writes;
* `Forked.openFiles`, `Opened.dup2Fds`, `Placed.closeAllFds` — what the slave makes of it;
* `Closed.leave`, `Closed.exec` — what it closes after that.
-/

namespace Libsbox

open CMemory

-- ---------------------------------------------------------------------------
-- Names of streams
-- ---------------------------------------------------------------------------

/-- What the name of a stream asks for. -/
inductive Asked where
  | file
  | pipe (name : Str)
  | stdout

/-- How `set_task` reads the name of a stream. -/
def Task.asks (task : Task) (st : StdStream) : Asked :=
  if (task.filename st).head? = some 64 then
    if st = .stderr ∧ (task.filename st).drop 1 = lit "_stdout" then .stdout
    else .pipe ((task.filename st).drop 1)
  else .file

/-- The name of the pipe that a stream is to be connected to. -/
def Task.named (task : Task) (st : StdStream) : Option Str :=
  match task.asks st with
  | .file => none
  | .pipe name => some name
  | .stdout =>
    match task.asks .stdout with
    | .pipe name => some name
    | _ => none

theorem Task.asks_stdout {task : Task} {st : StdStream} (h : task.asks st = .stdout) :
    st = .stderr := by
  unfold asks at h
  split at h
  · split at h
    · rename_i hSpecial
      exact hSpecial.1
    · cases h
  · cases h

/-- The names are parameters. -/
theorem Task.asks_parameters (task : Task) : task.parameters.asks = task.asks := by
  funext st
  have hName : task.parameters.filename st = task.filename st := by cases st <;> rfl
  rw [asks, asks, hName]

theorem Task.named_parameters (task : Task) : task.parameters.named = task.named := by
  funext st
  rw [named, named, asks_parameters]

-- ---------------------------------------------------------------------------
-- set_task
-- ---------------------------------------------------------------------------

/-- The description that `set_task` writes for a stream, with these pipes. -/
def Described (pipes : List (Str × Fd × Fd)) (st : StdStream) (desc : IOStream) : Asked → Prop
  | .file => desc.filename.empty = false
  | .pipe name => desc.filename.empty = true ∧
      ∃ fds, pipes.lookup name = some fds ∧ desc.fd = st.pipeEnd.fd fds
  | .stdout => desc.filename.empty = true ∧ desc.fd = stdoutFileno

theorem Described.adds {pipes new : List (Str × Fd × Fd)} {st : StdStream} {desc : IOStream}
    {asked : Asked} (h : Described pipes st desc asked) (hAdds : Pipes.Adds pipes new) :
    Described (new ++ pipes) st desc asked := by
  cases asked with
  | file => exact h
  | pipe name =>
    obtain ⟨hEmpty, fds, hLookup, hFd⟩ := h
    exact ⟨hEmpty, fds, hAdds.lookup hLookup, hFd⟩
  | stdout => exact h

theorem getPipe_cases {pipes pipes' : Pipes} {name : Str} {fds : Fd × Fd}
    (h : pipes.getPipe name = .ok (fds, pipes')) :
    ∃ new, pipes'.pipes = new ++ pipes.pipes ∧ Pipes.Adds pipes.pipes new ∧
      pipes'.pipes.lookup name = some fds := by
  unfold Pipes.getPipe at h
  split at h
  · rename_i fds' hLookup
    cases h
    exact ⟨[], rfl, .nil, hLookup⟩
  · rename_i hNone
    split at h
    · cases h
      exact ⟨[_], rfl, .cons .nil hNone, List.lookup_cons_self⟩
    · cases h

theorem empty_of_holds {maxSize : Nat} {s : PlainString maxSize} {str : Str} (h : s.Holds str) :
    s.empty = str.isEmpty := by
  rw [PlainString.empty, h.1]
  cases str <;> rfl

theorem cStr_of_holds {maxSize : Nat} {s : PlainString maxSize} {str : Str} (h : s.Holds str) :
    s.cStr = cstr str := by
  obtain ⟨-, rest, hData⟩ := h
  rw [PlainString.cStr, hData, cstr_append_nul]

/-- What a stream block of `set_task` writes. -/
theorem setStream_cases {what : String} {pipeEnd : Fd × Fd → Fd} {stdoutAllowed : Bool}
    {filename : Str} {desc desc' : IOStream} {pipes pipes' : Pipes}
    (h : setStream what pipeEnd stdoutAllowed filename desc pipes = .ok (desc', pipes')) :
    if filename.head? = some 64 then
      desc'.filename.Holds [] ∧
        if (stdoutAllowed && filename.drop 1 == lit "_stdout") = true then
          desc'.fd = stdoutFileno ∧ pipes' = pipes
        else ∃ fds, pipes.getPipe (filename.drop 1) = .ok (fds, pipes') ∧ desc'.fd = pipeEnd fds
    else
      desc'.filename.Holds (fileName filename) ∧ desc'.fd = -1 ∧ pipes' = pipes := by
  obtain ⟨name, hEq⟩ := setStream_eq what pipeEnd stdoutAllowed filename desc pipes
  split at hEq
  · rename_i hAt
    obtain ⟨hHolds, hEq⟩ := hEq
    rw [hEq] at h
    rw [if_pos hAt]
    split at h
    · rename_i hStdout
      cases h
      rw [if_pos hStdout]
      exact ⟨hHolds, rfl, rfl⟩
    · rename_i hPipe
      obtain ⟨⟨fds, pipes''⟩, hGet, hDesc⟩ := bind_eq_ok h
      cases hDesc
      rw [if_neg hPipe]
      exact ⟨hHolds, fds, hGet, rfl⟩
  · rename_i hFile
    rw [if_neg hFile]
    split at hEq
    · rw [hEq] at h
      cases h
    · rw [hEq.2] at h
      cases h
      exact ⟨hEq.1, rfl, rfl⟩

/-- A new pipe for a name. -/
theorem setStream_pipe (what : String) (pipeEnd : Fd × Fd → Fd) (desc : IOStream) {filename : Str}
    {pipes pipes' : Pipes} {fds : Fd × Fd} (hAt : filename.head? = some 64)
    (hGet : pipes.getPipe (filename.drop 1) = .ok (fds, pipes')) :
    ∃ desc', setStream what pipeEnd false filename desc pipes = .ok (desc', pipes') := by
  obtain ⟨name, hEq⟩ := setStream_eq what pipeEnd false filename desc pipes
  rw [if_pos hAt] at hEq
  obtain ⟨-, hEq⟩ := hEq
  rw [Bool.false_and, if_neg Bool.false_ne_true, hGet] at hEq
  exact ⟨_, hEq⟩

theorem setStream_described {what : String} (task : Task) (st : StdStream) {desc desc' : IOStream}
    {pipes pipes' : Pipes}
    (h : setStream what st.pipeEnd.fd (st = .stderr) (task.filename st) desc pipes =
      .ok (desc', pipes')) :
    ∃ new, pipes'.pipes = new ++ pipes.pipes ∧ Pipes.Adds pipes.pipes new ∧
      Described pipes'.pipes st desc' (task.asks st) := by
  have hCases := setStream_cases h
  unfold Task.asks
  split at hCases
  · rename_i hAt
    rw [if_pos hAt]
    obtain ⟨hHolds, hFd⟩ := hCases
    have hEmpty : desc'.filename.empty = true := empty_of_holds hHolds
    split at hFd
    · rename_i hStdout
      rw [if_pos (by simpa using hStdout)]
      obtain ⟨hFd, rfl⟩ := hFd
      exact ⟨[], rfl, .nil, hEmpty, hFd⟩
    · rename_i hPipe
      rw [if_neg (by simpa using hPipe)]
      obtain ⟨fds, hGet, hFd⟩ := hFd
      obtain ⟨new, hPipes, hAdds, hLookup⟩ := getPipe_cases hGet
      exact ⟨new, hPipes, hAdds, hEmpty, fds, hLookup, hFd⟩
  · rename_i hFile
    rw [if_neg hFile]
    obtain ⟨hHolds, -, rfl⟩ := hCases
    exact ⟨[], rfl, .nil, (empty_of_holds hHolds).trans (fileName_isEmpty _)⟩

/-- **What `set_task` writes.** -/
theorem set_described {task : Task} {d d' : Streams} {pipes pipes' : Pipes}
    (h : d.set task pipes = .ok (d', pipes')) :
    ∃ new, pipes'.pipes = new ++ pipes.pipes ∧ Pipes.Adds pipes.pipes new ∧
      ∀ st, Described pipes'.pipes st (d'.desc st) (task.asks st) := by
  obtain ⟨⟨stdinDesc, pipes1⟩, hStdin, hRest⟩ := bind_eq_ok h
  obtain ⟨⟨stdoutDesc, pipes2⟩, hStdout, hRest⟩ := bind_eq_ok hRest
  obtain ⟨⟨stderrDesc, pipes3⟩, hStderr, hRest⟩ := bind_eq_ok hRest
  cases hRest
  obtain ⟨new1, hPipes1, hAdds1, hDesc1⟩ := setStream_described task .stdin hStdin
  obtain ⟨new2, hPipes2, hAdds2, hDesc2⟩ := setStream_described task .stdout hStdout
  obtain ⟨new3, hPipes3, hAdds3, hDesc3⟩ := setStream_described task .stderr hStderr
  refine ⟨new3 ++ (new2 ++ new1), ?_, ?_, fun st => ?_⟩
  · rw [hPipes3, hPipes2, hPipes1, List.append_assoc, List.append_assoc]
  · rw [hPipes1] at hAdds2
    rw [hPipes2, hPipes1, ← List.append_assoc] at hAdds3
    exact (hAdds1.trans hAdds2).trans hAdds3
  · cases st with
    | stdin =>
      have hLater := hDesc1.adds hAdds2
      rw [← hPipes2] at hLater
      have hLast := hLater.adds hAdds3
      rwa [← hPipes3] at hLast
    | stdout =>
      have hLast := hDesc2.adds hAdds3
      rwa [← hPipes3] at hLast
    | stderr => exact hDesc3

/-- The streams of a block are those that `set_task` as a whole writes. -/
theorem setTask_streams {task : Task} {d d' : TaskData} {pipes pipes' : Pipes}
    (h : setTask task d pipes = .ok (d', pipes')) :
    Streams.set task ⟨d.stdinDesc, d.stdoutDesc, d.stderrDesc⟩ pipes =
      .ok (⟨d'.stdinDesc, d'.stdoutDesc, d'.stderrDesc⟩, pipes') := by
  obtain ⟨pipes1, pipes2, hCalls⟩ := setTask_calls h
  show (setStdin task.stdin.filename d.stdinDesc pipes >>= _) = _
  rw [hCalls.stdin]
  show (setStdout task.stdout.filename d.stdoutDesc pipes1 >>= _) = _
  rw [hCalls.stdout]
  show (setStderr task.stderr.filename d.stderrDesc pipes2 >>= _) = _
  rw [hCalls.stderr]
  rfl

-- ---------------------------------------------------------------------------
-- The table of a slave
-- ---------------------------------------------------------------------------

/-- `f` is the end of the pipe of that name, as `made` has it, or not a pipe where there
is no name. -/
def Meant (made : List (Nat × Str)) (request : Nat) (st : StdStream) : Option Str → File → Prop
  | none, f => f = .other
  | some name, f => ∃ p, made[p]? = some (request, name) ∧ f = .pipe p st.pipeEnd

theorem Meant.mono {made made' : List (Nat × Str)} {request : Nat} {st : StdStream}
    {name : Option Str} {f : File} (h : Meant made request st name f) (hPrefix : made <+: made') :
    Meant made' request st name f := by
  cases name with
  | none => exact h
  | some name =>
    obtain ⟨p, hp, hFile⟩ := h
    refine ⟨p, ?_, hFile⟩
    obtain ⟨later, rfl⟩ := hPrefix
    rw [List.getElem?_append_left (List.getElem?_eq_some_iff.mp hp).1]
    exact hp

/-- A stream between `set_task` and `open_files`. -/
def Pending (made : List (Nat × Str)) (request : Nat) (t : FdTable File) (st : StdStream)
    (desc : IOStream) : Asked → Prop
  | .file => desc.filename.empty = false
  | .pipe name => desc.filename.empty = true ∧
      ∃ f, t desc.fd = some f ∧ Meant made request st (some name) f
  | .stdout => desc.filename.empty = true ∧ desc.fd = stdoutFileno

/-- The table behind `fork`, and already the worker's from `set_task` on. -/
structure Forked (made : List (Nat × Str)) (request : Nat) (task : Task) (d : Streams)
    (t : FdTable File) : Prop where
  nonneg : ∀ fd f, t fd = some f → 0 ≤ fd
  standing : ∀ fd, standing fd = true → t fd = some .other
  streams : ∀ st, Pending made request t st (d.desc st) (task.asks st)

/-- The table behind `open_files`; `enterFds` are open by then. -/
structure Opened (made : List (Nat × Str)) (request : Nat) (task : Task) (d : Streams)
    (enterFds : Fd × Fd) (t : FdTable File) : Prop where
  standing : ∀ fd, standing fd = true → t fd = some .other
  enter : t enterFds.1 = some .other ∧ t enterFds.2 = some .other
  away : Libsbox.standing enterFds.1 = false ∧ Libsbox.standing enterFds.2 = false
  streams : ∀ st, match task.asks st with
    | .stdout => (d.desc st).fd = stdoutFileno
    | _ => 0 ≤ (d.desc st).fd ∧ Libsbox.standing (d.desc st).fd = false ∧
        ∃ f, t (d.desc st).fd = some f ∧ Meant made request st (task.named st) f

/-- The table behind `dup2_fds`. -/
structure Placed (made : List (Nat × Str)) (request : Nat) (task : Task) (enterFds : Fd × Fd)
    (t : FdTable File) : Prop where
  logger : t loggerFd = some .other
  enter : t enterFds.1 = some .other ∧ t enterFds.2 = some .other
  away : Libsbox.standing enterFds.1 = false ∧ Libsbox.standing enterFds.2 = false
  streams : ∀ st, ∃ f, t st.fileno = some f ∧ Meant made request st (task.named st) f

/-- The table from `close_all_fds` on: no end of a pipe is open but on the streams. -/
structure Closed (made : List (Nat × Str)) (request : Nat) (task : Task) (enterFds : Fd × Fd)
    (t : FdTable File) : Prop where
  away : Libsbox.standing enterFds.1 = false ∧ Libsbox.standing enterFds.2 = false
  streams : ∀ st, ∃ f, t st.fileno = some f ∧ Meant made request st (task.named st) f
  ends : ∀ fd p e, t fd = some (.pipe p e) → ∃ st : StdStream, fd = st.fileno

theorem standing_fileno (st : StdStream) : standing st.fileno = true := by
  cases st <;> rfl

theorem Task.named_of_pipe {task : Task} {st : StdStream} {name : Str}
    (h : task.asks st = .pipe name) : task.named st = some name := by
  rw [named, h]

theorem Task.named_of_file {task : Task} {st : StdStream} (h : task.asks st = .file) :
    task.named st = none := by
  rw [named, h]

/-- `@_stdout` names what the standard output names. -/
theorem Task.named_of_stdout {task : Task} {st : StdStream} (h : task.asks st = .stdout) :
    task.named st = task.named .stdout := by
  rw [named, named, h]
  cases hOut : task.asks .stdout with
  | file | pipe => rfl
  | stdout => cases task.asks_stdout hOut

section Slaves

variable {made made' : List (Nat × Str)} {request : Nat} {task : Task} {d d' : Streams}
variable {enterFds : Fd × Fd} {t t' : FdTable File} {st : StdStream}

/-- The descriptions that `set_task` has written, with the pipes that it has made. -/
theorem Described.pending {k : Pipework} {desc : IOStream} {asked : Asked} (hOk : k.Ok request)
    (h : Described k.pipes st desc asked) : Pending k.made request k.table st desc asked := by
  cases asked with
  | file => exact h
  | pipe name =>
    obtain ⟨hEmpty, fds, hLookup, hFd⟩ := h
    obtain ⟨p, hp, hOpen⟩ := hOk.wired name fds hLookup
    exact ⟨hEmpty, .pipe p st.pipeEnd, hFd ▸ hOpen st.pipeEnd, p, hp, rfl⟩
  | stdout => exact h

theorem Pending.mono {desc : IOStream} {asked : Asked} (h : Pending made request t st desc asked)
    (hMade : made <+: made')
    (hEnds : ∀ fd p e, t fd = some (.pipe p e) → t' fd = some (.pipe p e)) :
    Pending made' request t' st desc asked := by
  cases asked with
  | file => exact h
  | pipe name =>
    obtain ⟨hEmpty, f, hOpen, hMeant⟩ := h
    refine ⟨hEmpty, f, ?_, hMeant.mono hMade⟩
    obtain ⟨p, -, rfl⟩ := hMeant
    exact hEnds _ _ _ hOpen
  | stdout => exact h

theorem Forked.mono (h : Forked made request task d t) (hMade : made <+: made') :
    Forked made' request task d t :=
  ⟨h.nonneg, h.standing, fun st => (h.streams st).mono hMade fun _ _ _ hOpen => hOpen⟩

theorem Opened.mono (h : Opened made request task d enterFds t) (hMade : made <+: made') :
    Opened made' request task d enterFds t := by
  refine ⟨h.standing, h.enter, h.away, fun st => ?_⟩
  have hStream := h.streams st
  cases hAsks : task.asks st <;> rw [hAsks] at hStream
  case stdout => exact hStream
  all_goals
    obtain ⟨hNonneg, hAway, f, hOpen, hMeant⟩ := hStream
    exact ⟨hNonneg, hAway, f, hOpen, hMeant.mono hMade⟩

theorem Placed.mono (h : Placed made request task enterFds t) (hMade : made <+: made') :
    Placed made' request task enterFds t := by
  refine ⟨h.logger, h.enter, h.away, fun st => ?_⟩
  obtain ⟨f, hOpen, hMeant⟩ := h.streams st
  exact ⟨f, hOpen, hMeant.mono hMade⟩

theorem Closed.mono (h : Closed made request task enterFds t) (hMade : made <+: made') :
    Closed made' request task enterFds t := by
  refine ⟨h.away, fun st => ?_, h.ends⟩
  obtain ⟨f, hOpen, hMeant⟩ := h.streams st
  exact ⟨f, hOpen, hMeant.mono hMade⟩

-- ---------------------------------------------------------------------------
-- open_files
-- ---------------------------------------------------------------------------

/-- A descriptor that a call has opened. -/
structure New (t : FdTable File) (fd : Fd) (t' : FdTable File) : Prop where
  nonneg : 0 ≤ fd
  free : t fd = none
  opened : t' fd = some .other

theorem New.after {t0 : FdTable File} {fd : Fd} (h : New t fd t') (hExtends : t0.Extends t) :
    New t0 fd t' := by
  refine ⟨h.nonneg, ?_, h.opened⟩
  cases hOld : t0 fd with
  | none => rfl
  | some f => cases (hExtends fd f hOld).symm.trans h.free

theorem New.before {t1 : FdTable File} {fd : Fd} (h : New t fd t') (hExtends : t'.Extends t1) :
    New t fd t1 :=
  ⟨h.nonneg, h.free, hExtends _ _ h.opened⟩

theorem New.away {fd : Fd} (h : New t fd t')
    (hStanding : ∀ fd, standing fd = true → t fd = some .other) : standing fd = false := by
  rw [Bool.eq_false_iff]
  intro hTrue
  cases (hStanding fd hTrue).symm.trans h.free

theorem New.of_opened {fd : Fd} (h : t.Opened .other fd t') : New t fd t' :=
  ⟨h.nonneg, h.free, h.self⟩

/-- A block of `open_files`. -/
theorem IOStream.openFile_cases {desc desc' : IOStream} {fresh rest : List Fd}
    (h : desc.openFile t fresh = some (desc', t', rest)) :
    t.Extends t' ∧ (desc.filename.empty = true → desc' = desc) ∧
      (desc.filename.empty = false → New t desc'.fd t' ∧ desc'.filename = desc.filename) := by
  unfold IOStream.openFile at h
  split at h
  · rename_i hEmpty
    cases h
    refine ⟨.refl t, fun _ => rfl, fun hName => ?_⟩
    rw [hEmpty] at hName
    cases hName
  · rename_i hName
    obtain ⟨⟨fd, t1, fresh1⟩, hOpen, hEq⟩ := Option.map_eq_some_iff.mp h
    cases hEq
    obtain ⟨hOpened, -⟩ := FdTable.openFile_cases hOpen
    exact ⟨hOpened.extends, fun hEmpty => absurd hEmpty hName, fun _ => ⟨.of_opened hOpened, rfl⟩⟩

theorem Streams.openFiles_cases {fresh rest : List Fd}
    (h : d.openFiles t fresh = some (d', t', rest)) :
    t.Extends t' ∧ ∀ st, ((d.desc st).filename.empty = true → d'.desc st = d.desc st) ∧
      ((d.desc st).filename.empty = false →
        New t (d'.desc st).fd t' ∧ (d'.desc st).filename = (d.desc st).filename) := by
  simp only [Streams.openFiles, Option.bind_eq_bind, Option.bind_eq_some_iff, Prod.exists] at h
  obtain ⟨stdinDesc, t1, fresh1, hStdin, stdoutDesc, t2, fresh2, hStdout, stderrDesc, t3, fresh3,
    hStderr, hEq⟩ := h
  cases hEq
  obtain ⟨hExtends1, hKept1, hNew1⟩ := IOStream.openFile_cases hStdin
  obtain ⟨hExtends2, hKept2, hNew2⟩ := IOStream.openFile_cases hStdout
  obtain ⟨hExtends3, hKept3, hNew3⟩ := IOStream.openFile_cases hStderr
  refine ⟨(hExtends1.trans hExtends2).trans hExtends3, fun st => ?_⟩
  cases st with
  | stdin =>
    refine ⟨hKept1, fun hName => ?_⟩
    obtain ⟨hNew, hSame⟩ := hNew1 hName
    exact ⟨hNew.before (hExtends2.trans hExtends3), hSame⟩
  | stdout =>
    refine ⟨hKept2, fun hName => ?_⟩
    obtain ⟨hNew, hSame⟩ := hNew2 hName
    exact ⟨(hNew.after hExtends1).before hExtends3, hSame⟩
  | stderr =>
    refine ⟨hKept3, fun hName => ?_⟩
    obtain ⟨hNew, hSame⟩ := hNew3 hName
    exact ⟨hNew.after (hExtends1.trans hExtends2), hSame⟩

/-- `open_files` leaves what `set_task` has written of the pipes. -/
theorem Pending.openFiles {t0 : FdTable File} {asked : Asked} {fresh rest : List Fd}
    (h : Pending made request t0 st (d.desc st) asked)
    (hFiles : d.openFiles t fresh = some (d', t', rest)) :
    Pending made request t0 st (d'.desc st) asked := by
  obtain ⟨hKept, hNew⟩ := (Streams.openFiles_cases hFiles).2 st
  cases asked with
  | file =>
    show (d'.desc st).filename.empty = false
    rw [(hNew h).2]
    exact h
  | pipe name =>
    rw [hKept h.1]
    exact h
  | stdout =>
    rw [hKept h.1]
    exact h

/-- **`open_files`**, behind the two controllers' `delay_enter`. -/
theorem Forked.openFiles (h : Forked made request task d t) {t1 t2 : FdTable File}
    (hMemory : t.Opened .other enterFds.1 t1) (hCpuacct : t1.Opened .other enterFds.2 t2)
    {fresh rest : List Fd} (hFiles : d.openFiles t2 fresh = some (d', t', rest)) :
    Opened made request task d' enterFds t' := by
  obtain ⟨hExtends, hStreams⟩ := Streams.openFiles_cases hFiles
  have hEnter := hMemory.extends.trans hCpuacct.extends
  have hAll := hEnter.trans hExtends
  refine ⟨fun fd hStanding => hAll _ _ (h.standing fd hStanding),
    ⟨hExtends _ _ (hCpuacct.extends _ _ hMemory.self), hExtends _ _ hCpuacct.self⟩,
    ⟨(New.of_opened hMemory).away h.standing,
      ((New.of_opened hCpuacct).after hMemory.extends).away h.standing⟩,
    fun st => ?_⟩
  obtain ⟨hKept, hNew⟩ := hStreams st
  have hStream := h.streams st
  cases hAsks : task.asks st with
  | file =>
    rw [hAsks] at hStream
    have hOpened := (hNew hStream).1.after hEnter
    rw [task.named_of_file hAsks]
    exact ⟨hOpened.nonneg, hOpened.away h.standing, .other, hOpened.opened, rfl⟩
  | pipe name =>
    rw [hAsks] at hStream
    obtain ⟨hEmpty, f, hOpen, hMeant⟩ := hStream
    rw [hKept hEmpty, task.named_of_pipe hAsks]
    refine ⟨h.nonneg _ _ hOpen, ?_, f, hAll _ _ hOpen, hMeant⟩
    rw [Bool.eq_false_iff]
    intro hStanding
    obtain ⟨p, -, rfl⟩ := hMeant
    cases (h.standing _ hStanding).symm.trans hOpen
  | stdout =>
    rw [hAsks] at hStream
    obtain ⟨hEmpty, hFd⟩ := hStream
    show (d'.desc st).fd = stdoutFileno
    rw [hKept hEmpty, hFd]

-- ---------------------------------------------------------------------------
-- dup2_fds, close_all_fds and exec
-- ---------------------------------------------------------------------------

/-- A block of `dup2_fds`, for a description that has a descriptor. -/
theorem IOStream.dup2_cases {desc : IOStream} {fileno : Fd} {f : File} (hNonneg : 0 ≤ desc.fd)
    (hOpen : t desc.fd = some f) (h : desc.dup2 fileno t = some t') :
    t' = Function.update t fileno (some f) := by
  have hSome : desc.fd ≠ -1 := by
    intro hEq
    rw [hEq] at hNonneg
    exact absurd hNonneg (by decide)
  rw [IOStream.dup2, if_pos hSome] at h
  obtain ⟨g, hg, rfl⟩ := FdTable.dup2_cases h
  rw [Option.some.inj (hg.symm.trans hOpen)]

theorem ne_of_standing {fd n : Fd} (hFd : standing fd = false) (hn : standing n = true) :
    fd ≠ n := by
  rintro rfl
  rw [hFd] at hn
  cases hn

/-- The table with these files on the standard descriptors. -/
def place (t : FdTable File) (f : StdStream → File) : FdTable File :=
  Function.update (Function.update (Function.update t StdStream.stdin.fileno (some (f .stdin)))
    StdStream.stdout.fileno (some (f .stdout))) StdStream.stderr.fileno (some (f .stderr))

theorem place_fileno (t : FdTable File) (f : StdStream → File) (st : StdStream) :
    place t f st.fileno = some (f st) := by
  unfold place
  cases st with
  | stdin =>
    rw [Function.update_of_ne (by decide), Function.update_of_ne (by decide)]
    exact Function.update_self _ _ _
  | stdout =>
    rw [Function.update_of_ne (by decide)]
    exact Function.update_self _ _ _
  | stderr => exact Function.update_self _ _ _

theorem place_other {f : StdStream → File} {fd : Fd} (h : ∀ st : StdStream, fd ≠ st.fileno) :
    place t f fd = t fd := by
  unfold place
  rw [Function.update_of_ne (h .stderr), Function.update_of_ne (h .stdout),
    Function.update_of_ne (h .stdin)]

/-- **`dup2_fds`.** -/
theorem Opened.dup2Fds (h : Opened made request task d enterFds t) (hDup : d.dup2Fds t = some t') :
    Placed made request task enterFds t' := by
  simp only [Streams.dup2Fds, Option.bind_eq_bind, Option.bind_eq_some_iff] at hDup
  obtain ⟨t1, hStdin, t2, hStdout, hStderr⟩ := hDup
  -- the first two have descriptors of their own
  have hOwn : ∀ st, task.asks st ≠ .stdout → 0 ≤ (d.desc st).fd ∧
      Libsbox.standing (d.desc st).fd = false ∧
        ∃ f, t (d.desc st).fd = some f ∧ Meant made request st (task.named st) f := by
    intro st hNot
    have hStream := h.streams st
    cases hAsks : task.asks st <;> rw [hAsks] at hStream
    case stdout => exact absurd hAsks hNot
    all_goals exact hStream
  obtain ⟨hNonneg0, hAway0, f0, hOpen0, hMeant0⟩ :=
    hOwn .stdin fun hAsks => by cases task.asks_stdout hAsks
  obtain ⟨hNonneg1, hAway1, f1, hOpen1, hMeant1⟩ :=
    hOwn .stdout fun hAsks => by cases task.asks_stdout hAsks
  obtain rfl := IOStream.dup2_cases hNonneg0 hOpen0 hStdin
  have hOpen1' : Function.update t StdStream.stdin.fileno (some f0) (d.desc .stdout).fd = some f1 := by
    rw [Function.update_of_ne (ne_of_standing hAway1 (standing_fileno .stdin))]
    exact hOpen1
  obtain rfl := IOStream.dup2_cases hNonneg1 hOpen1' hStdout
  -- stderr has its own, too, or follows stdout
  obtain ⟨f2, hMeant2, hNonneg2, hOpen2⟩ : ∃ f2,
      Meant made request .stderr (task.named .stderr) f2 ∧ 0 ≤ (d.desc .stderr).fd ∧
        Function.update (Function.update t StdStream.stdin.fileno (some f0))
          StdStream.stdout.fileno (some f1) (d.desc .stderr).fd = some f2 := by
    by_cases hAsks : task.asks .stderr = .stdout
    · have hFd := h.streams .stderr
      rw [hAsks] at hFd
      rw [hFd, task.named_of_stdout hAsks]
      exact ⟨f1, hMeant1, by decide, Function.update_self _ _ _⟩
    · obtain ⟨hNonneg2, hAway2, f2, hOpen2, hMeant2⟩ := hOwn .stderr hAsks
      refine ⟨f2, hMeant2, hNonneg2, ?_⟩
      rw [Function.update_of_ne (ne_of_standing hAway2 (standing_fileno .stdout)),
        Function.update_of_ne (ne_of_standing hAway2 (standing_fileno .stdin))]
      exact hOpen2
  obtain rfl := IOStream.dup2_cases hNonneg2 hOpen2 hStderr
  have hOther : ∀ fd, Libsbox.standing fd = false → ∀ st : StdStream, fd ≠ st.fileno :=
    fun fd hFd st => ne_of_standing hFd (standing_fileno st)
  let f : StdStream → File := fun st => st.casesOn f0 f1 f2
  show Placed made request task enterFds (place t f)
  refine ⟨?_, ⟨?_, ?_⟩, h.away, fun st => ⟨f st, place_fileno t f st, ?_⟩⟩
  · rw [place_other fun st => by cases st <;> decide]
    exact h.standing loggerFd rfl
  · rw [place_other (hOther _ h.away.1)]
    exact h.enter.1
  · rw [place_other (hOther _ h.away.2)]
    exact h.enter.2
  · cases st with
    | stdin => exact hMeant0
    | stdout => exact hMeant1
    | stderr => exact hMeant2

/-- **`close_all_fds`.** -/
theorem Placed.closeAllFds (h : Placed made request task enterFds t) :
    Closed made request task enterFds (closeAllFds enterFds t) := by
  refine ⟨h.away, fun st => ?_, fun fd p e hEnd => ?_⟩
  · obtain ⟨f, hOpen, hMeant⟩ := h.streams st
    refine ⟨f, FdTable.keepOnly_open.mpr ⟨?_, hOpen⟩, hMeant⟩
    rw [standing_fileno, Bool.true_or, Bool.true_or]
  · obtain ⟨hKept, hOpen⟩ := FdTable.keepOnly_open.mp hEnd
    simp only [standing, Bool.or_eq_true, decide_eq_true_eq] at hKept
    rcases hKept with ((((h0 | h1) | h2) | hLogger) | hMemory) | hCpuacct
    · exact ⟨.stdin, h0⟩
    · exact ⟨.stdout, h1⟩
    · exact ⟨.stderr, h2⟩
    · rw [hLogger] at hOpen
      cases hOpen.symm.trans h.logger
    · rw [hMemory] at hOpen
      cases hOpen.symm.trans h.enter.1
    · rw [hCpuacct] at hOpen
      cases hOpen.symm.trans h.enter.2

/-- A table with the same streams and no more ends. -/
theorem Closed.shrink (h : Closed made request task enterFds t)
    (hStreams : ∀ st : StdStream, t' st.fileno = t st.fileno)
    (hEnds : ∀ fd f, t' fd = some f → t fd = some f) : Closed made request task enterFds t' := by
  refine ⟨h.away, fun st => ?_, fun fd p e hEnd => h.ends fd p e (hEnds _ _ hEnd)⟩
  rw [hStreams st]
  exact h.streams st

theorem Closed.close (h : Closed made request task enterFds t) {fd : Fd}
    (hAway : standing fd = false) (hClose : t.close fd = some t') :
    Closed made request task enterFds t' := by
  refine h.shrink (fun st => ?_) fun n f hOpen => ((FdTable.close_open hClose).mp hOpen).2
  obtain ⟨f, -, rfl⟩ := FdTable.close_cases hClose
  exact Function.update_of_ne (ne_of_standing hAway (standing_fileno st)).symm _ _

/-- `enter` of the two controllers. -/
theorem Closed.leave (h : Closed made request task enterFds t) {t1 : FdTable File}
    (hMemory : t.close enterFds.1 = some t1) (hCpuacct : t1.close enterFds.2 = some t') :
    Closed made request task enterFds t' :=
  (h.close h.away.1 hMemory).close h.away.2 hCpuacct

/-- `exec` closes the logger's descriptor. -/
theorem Closed.exec (h : Closed made request task enterFds t) :
    Closed made request task enterFds (Function.update t loggerFd none) := by
  refine h.shrink (fun st => ?_) fun n f hOpen => ?_
  · exact Function.update_of_ne (by cases st <;> decide) _ _
  · rcases eq_or_ne n loggerFd with rfl | hNe
    · rw [Function.update_self] at hOpen
      cases hOpen
    · rwa [Function.update_of_ne hNe] at hOpen

-- ---------------------------------------------------------------------------
-- The way of a slave
-- ---------------------------------------------------------------------------

/-- What holds of the table of a slave, by its place. -/
def SlaveAt.Holds (made : List (Nat × Str)) (request : Nat) (task : Task) (d : Streams)
    (enterFds : Fd × Fd) (t : FdTable File) : SlaveAt → Prop
  | .startBarrier | .awaitStart | .openFiles => Forked made request task d t
  | .dup2Fds => Opened made request task d enterFds t
  | .closeAllFds => Placed made request task enterFds t
  | .setupRlimits | .addPath | .exec | .running => Closed made request task enterFds t
  | .setError | .exitFailure | .zombie _ => True

theorem SlaveAt.Holds.mono {pc : SlaveAt} (h : pc.Holds made request task d enterFds t)
    (hMade : made <+: made') : pc.Holds made' request task d enterFds t := by
  cases pc with
  | startBarrier | awaitStart | openFiles => exact Forked.mono h hMade
  | dup2Fds => exact Opened.mono h hMade
  | closeAllFds => exact Placed.mono h hMade
  | setupRlimits | addPath | exec | running => exact Closed.mono h hMade
  | setError | exitFailure | zombie => trivial

end Slaves

end Libsbox
