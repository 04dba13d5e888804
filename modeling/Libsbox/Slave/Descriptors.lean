import Libsbox.Pipes.Streams

/-!
# libsbox — the descriptors of the target

`Container::slave` from `delay_enter` to `execvpe` over a table of descriptors with their
close-on-exec flags: `open_files`, `dup2_fds`, the loop of `close_all_fds` over
`/proc/self/fd`, the two calls of `CgroupController::enter`, and `exec`. Here open files are
told apart: two descriptors refer to the same open file if and only if they refer to equal
values.

The slave inherits any table with 0, 1 and 2 open and the pipes of the request in it.
Descriptor 107 is the logger's, which `Logger::Logger` has made close-on-exec.

## Results

* `prepare_spec`, `finish_open` — the table before the loop and at the end;
* `target_fds` — what the target starts with;
* `target_seen` — the slave of `World` does the same.
-/

namespace Libsbox

open CMemory

/-- The flags that `open_files` opens with. -/
inductive OpenFlags where
  | rdonly
  | wronlyTrunc
  deriving DecidableEq

def StdStream.openFlags : StdStream → OpenFlags
  | .stdin => .rdonly
  | .stdout | .stderr => .wronlyTrunc

/-- The two controllers of a slave. -/
inductive Controller where
  | memory
  | cpuacct
  deriving DecidableEq

/-- An open file, by where it comes from. -/
inductive OpenFile (ι : Type) where
  /-- What the slave has got from `fork`. -/
  | pipe (name : Str) (e : PipeEnd)
  | inherited (x : ι)
  /-- What it opens itself. -/
  | stream (st : StdStream) (path : Str) (flags : OpenFlags)
  | tasks (controller : Controller)
  | procSelfFd
  deriving DecidableEq

structure Descriptor (ι : Type) where
  file : OpenFile ι
  closeOnExec : Bool

namespace Slave

variable {ι : Type}

/-- `dup2`. The new descriptor is not close-on-exec, unless it is the old one. -/
def dup2 (t : FdTable (Descriptor ι)) (fd newFd : Fd) : Option (FdTable (Descriptor ι)) :=
  (t fd).map fun d =>
    if fd = newFd then t else Function.update t newFd (some { d with closeOnExec := false })

/-- The close-on-exec of `exec`. -/
def exec (t : FdTable (Descriptor ι)) : FdTable (Descriptor ι) := fun fd =>
  match t fd with
  | some d => if d.closeOnExec then none else some d
  | none => none

/-- `Logger::Logger`, of which the slave inherits the descriptor. -/
def withLogger (t : FdTable (Descriptor ι)) (log : OpenFile ι) : FdTable (Descriptor ι) :=
  Function.update t loggerFd (some ⟨log, true⟩)

/-- `CgroupController::delay_enter` on a new controller. -/
def delayEnter (controller : Controller) (t : FdTable (Descriptor ι)) (fresh : List Fd) :
    Option (Fd × FdTable (Descriptor ι) × List Fd) :=
  t.openFile ⟨.tasks controller, true⟩ fresh

/-- One of the three blocks of `Container::open_files`. -/
def openFile (st : StdStream) (desc : IOStream) (t : FdTable (Descriptor ι)) (fresh : List Fd) :
    Option (IOStream × FdTable (Descriptor ι) × List Fd) :=
  if desc.filename.empty then some (desc, t, fresh)
  else (t.openFile ⟨.stream st desc.filename.cStr st.openFlags, false⟩ fresh).map
    fun (fd, t, fresh) => ({ desc with fd }, t, fresh)

/-- `Container::open_files`. -/
def openFiles (d : Streams) (t : FdTable (Descriptor ι)) (fresh : List Fd) :
    Option (Streams × FdTable (Descriptor ι) × List Fd) := do
  let (stdinDesc, t, fresh) ← openFile .stdin d.stdinDesc t fresh
  let (stdoutDesc, t, fresh) ← openFile .stdout d.stdoutDesc t fresh
  let (stderrDesc, t, fresh) ← openFile .stderr d.stderrDesc t fresh
  return ({ stdinDesc, stdoutDesc, stderrDesc }, t, fresh)

/-- One of the three blocks of `Container::dup2_fds`. -/
def place (st : StdStream) (desc : IOStream) (t : FdTable (Descriptor ι)) :
    Option (FdTable (Descriptor ι)) :=
  if desc.fd ≠ -1 then dup2 t desc.fd st.fileno else some t

/-- `Container::dup2_fds`. -/
def dup2Fds (d : Streams) (t : FdTable (Descriptor ι)) : Option (FdTable (Descriptor ι)) := do
  let t ← place .stdin d.stdinDesc t
  let t ← place .stdout d.stdoutDesc t
  place .stderr d.stderrDesc t

/-- A slave inside `close_all_fds`, behind `opendir`. -/
structure Listing (ι : Type) where
  table : FdTable (Descriptor ι)
  dirFd : Fd
  enterFds : Fd × Fd

/-- `Container::slave` up to the loop of `close_all_fds`. `opendir` opens close-on-exec. -/
def prepare (d : Streams) (t : FdTable (Descriptor ι)) (fresh : List Fd) : Option (Listing ι) := do
  let (memory, t, fresh) ← delayEnter .memory t fresh
  let (cpuacct, t, fresh) ← delayEnter .cpuacct t fresh
  let (d, t, fresh) ← openFiles d t fresh
  let t ← dup2Fds d t
  let (dirFd, t, _) ← t.openFile ⟨.procSelfFd, true⟩ fresh
  return ⟨t, dirFd, (memory, cpuacct)⟩

/-- The descriptors that the loop leaves alone. -/
def Listing.exempt (s : Listing ι) (fd : Fd) : Bool :=
  fd = StdStream.stdin.fileno || fd = StdStream.stdout.fileno || fd = StdStream.stderr.fileno ||
    fd = s.dirFd || fd = loggerFd || fd = s.enterFds.1 || fd = s.enterFds.2

/-- The loop, over the descriptors that `/proc/self/fd` lists. -/
def closeListed (exempt : Fd → Bool) : List Fd → FdTable (Descriptor ι) →
    Option (FdTable (Descriptor ι))
  | [], t => some t
  | fd :: fds, t =>
    if exempt fd then closeListed exempt fds t
    else (t.close fd).bind (closeListed exempt fds)

/-- The rest of `Container::slave`: `closedir`, `enter` of both controllers and `exec`. -/
def finish (listed : List Fd) (s : Listing ι) : Option (FdTable (Descriptor ι)) := do
  let t ← closeListed s.exempt listed s.table
  let t ← t.close s.dirFd
  let t ← t.close s.enterFds.1
  let t ← t.close s.enterFds.2
  return exec t

/-- The pipes of the request are open in the table, away from the streams: `pipe` hands out
numbers that are not in use. -/
def HasPipes (t : FdTable (Descriptor ι)) (pipes : List (Str × Fd × Fd)) : Prop :=
  ∀ name fds, pipes.lookup name = some fds → ∀ e : PipeEnd,
    0 ≤ e.fd fds ∧ (∀ st : StdStream, e.fd fds ≠ st.fileno) ∧
      ∃ flag, t (e.fd fds) = some ⟨.pipe name e, flag⟩

/-- What a stream of a task is to be. -/
def meant (ι : Type) (task : Task) (st : StdStream) : OpenFile ι :=
  match task.asks st with
  | .file => .stream st (cstr (fileName (task.filename st))) st.openFlags
  | .pipe name => .pipe name st.pipeEnd
  | .stdout =>
    match task.asks .stdout with
    | .pipe name => .pipe name StdStream.stdout.pipeEnd
    | _ => .stream .stdout (cstr (fileName (task.filename .stdout))) StdStream.stdout.openFlags

-- ---------------------------------------------------------------------------
-- set_task
-- ---------------------------------------------------------------------------

variable {task : Task} {d d' : Streams} {pipes pipes' : Pipes} {st : StdStream}

theorem setStream_fileName {what : String} {pipeEnd : Fd × Fd → Fd} {stdoutAllowed : Bool}
    {filename : Str} {desc desc' : IOStream}
    (h : setStream what pipeEnd stdoutAllowed filename desc pipes = .ok (desc', pipes'))
    (hPlain : filename.head? ≠ some 64) : desc'.filename.cStr = cstr (fileName filename) := by
  have hCases := setStream_cases h
  rw [if_neg hPlain] at hCases
  exact cStr_of_holds hCases.1

/-- The file that `set_task` writes down for a stream. -/
theorem set_fileName (hSet : d.set task pipes = .ok (d', pipes')) (hAsks : task.asks st = .file) :
    (d'.desc st).filename.cStr = cstr (fileName (task.filename st)) := by
  obtain ⟨⟨stdinDesc, pipes1⟩, hStdin, hRest⟩ := bind_eq_ok hSet
  obtain ⟨⟨stdoutDesc, pipes2⟩, hStdout, hRest⟩ := bind_eq_ok hRest
  obtain ⟨⟨stderrDesc, pipes3⟩, hStderr, hRest⟩ := bind_eq_ok hRest
  cases hRest
  have hPlain : (task.filename st).head? ≠ some 64 := by
    intro hAt
    rw [Task.asks, if_pos hAt] at hAsks
    split at hAsks <;> cases hAsks
  cases st with
  | stdin => exact setStream_fileName hStdin hPlain
  | stdout => exact setStream_fileName hStdout hPlain
  | stderr => exact setStream_fileName hStderr hPlain

/-- What `@_stdout` means is what the standard output means. -/
theorem meant_stdout (hAsks : task.asks st = .stdout) : meant ι task st = meant ι task .stdout := by
  unfold meant
  rw [hAsks]
  cases hOut : task.asks .stdout with
  | file | pipe => rfl
  | stdout => cases task.asks_stdout hOut

-- ---------------------------------------------------------------------------
-- open_files and dup2_fds
-- ---------------------------------------------------------------------------

variable {t t' : FdTable (Descriptor ι)} {fresh rest : List Fd} {fd newFd : Fd}

theorem openFile_cases {desc desc' : IOStream}
    (h : openFile st desc t fresh = some (desc', t', rest)) :
    t.Extends t' ∧ (desc.filename.empty = true → desc' = desc) ∧
      (desc.filename.empty = false →
        t.Opened ⟨.stream st desc.filename.cStr st.openFlags, false⟩ desc'.fd t') := by
  unfold openFile at h
  split at h
  · rename_i hEmpty
    cases h
    refine ⟨.refl t, fun _ => rfl, fun hName => ?_⟩
    rw [hEmpty] at hName
    cases hName
  · rename_i hName
    obtain ⟨⟨fd, t1, fresh1⟩, hOpen, hEq⟩ := Option.map_eq_some_iff.mp h
    cases hEq
    obtain ⟨hOpened, -⟩ := FdTable.openFile_cases hOpen
    exact ⟨hOpened.extends, fun hEmpty => absurd hEmpty hName, fun _ => hOpened⟩

/-- `open_files` gives a stream with a name a number that was not in use. -/
theorem openFiles_cases (h : openFiles d t fresh = some (d', t', rest)) :
    t.Extends t' ∧ ∀ st, ((d.desc st).filename.empty = true → d'.desc st = d.desc st) ∧
      ((d.desc st).filename.empty = false →
        0 ≤ (d'.desc st).fd ∧ t (d'.desc st).fd = none ∧
          t' (d'.desc st).fd =
            some ⟨.stream st (d.desc st).filename.cStr st.openFlags, false⟩) := by
  simp only [openFiles, Option.bind_eq_bind, Option.bind_eq_some_iff, Prod.exists] at h
  obtain ⟨stdinDesc, t1, fresh1, hStdin, stdoutDesc, t2, fresh2, hStdout, stderrDesc, t3, fresh3,
    hStderr, hEq⟩ := h
  cases hEq
  obtain ⟨hExtends1, hKept1, hNew1⟩ := openFile_cases hStdin
  obtain ⟨hExtends2, hKept2, hNew2⟩ := openFile_cases hStdout
  obtain ⟨hExtends3, hKept3, hNew3⟩ := openFile_cases hStderr
  refine ⟨(hExtends1.trans hExtends2).trans hExtends3, fun st => ?_⟩
  cases st with
  | stdin =>
    refine ⟨hKept1, fun hName => ?_⟩
    have hNew := hNew1 hName
    exact ⟨hNew.nonneg, hNew.free, hExtends3 _ _ (hExtends2 _ _ hNew.self)⟩
  | stdout =>
    refine ⟨hKept2, fun hName => ?_⟩
    have hNew := hNew2 hName
    exact ⟨hNew.nonneg, hExtends1.free hNew.free, hExtends3 _ _ hNew.self⟩
  | stderr =>
    refine ⟨hKept3, fun hName => ?_⟩
    have hNew := hNew3 hName
    exact ⟨hNew.nonneg, (hExtends1.trans hExtends2).free hNew.free, hNew.self⟩

theorem dup2_cases (h : dup2 t fd newFd = some t') (hNe : fd ≠ newFd) :
    ∃ x, t fd = some x ∧ t' = Function.update t newFd (some { x with closeOnExec := false }) := by
  obtain ⟨x, hOpen, hEq⟩ := Option.map_eq_some_iff.mp h
  rw [if_neg hNe] at hEq
  exact ⟨x, hOpen, hEq.symm⟩

/-- A stream on its way from its own number to its place. -/
theorem place_cases {desc : IOStream} {x : Descriptor ι} (h : place st desc t = some t')
    (hNonneg : 0 ≤ desc.fd) (hNe : desc.fd ≠ st.fileno) (hOpen : t desc.fd = some x) :
    t' = Function.update t st.fileno (some { x with closeOnExec := false }) := by
  have hSome : desc.fd ≠ -1 := by
    intro hMinus
    rw [hMinus] at hNonneg
    exact absurd hNonneg (by decide)
  rw [place, if_pos hSome] at h
  obtain ⟨y, hy, rfl⟩ := dup2_cases h hNe
  rw [Option.some.inj (hOpen.symm.trans hy)]

/-- A stream behind `open_files`: its file is open, away from the places of the streams, or
it is to be the standard output's. -/
def Ready (task : Task) (t : FdTable (Descriptor ι)) (st : StdStream) (desc : IOStream) : Prop :=
  if st = .stderr ∧ desc.fd = stdoutFileno then meant ι task .stderr = meant ι task .stdout
  else 0 ≤ desc.fd ∧ (∀ st' : StdStream, desc.fd ≠ st'.fileno) ∧
    ∃ flag, t desc.fd = some ⟨meant ι task st, flag⟩

/-- **`open_files`.** -/
theorem ready_of_openFiles {d₀ : Streams} (hSet : d₀.set task pipes = .ok (d, pipes'))
    (hStd : ∀ st : StdStream, t st.fileno ≠ none) (hPipes : HasPipes t pipes'.pipes)
    (h : openFiles d t fresh = some (d', t', rest)) (st : StdStream) :
    Ready task t' st (d'.desc st) := by
  obtain ⟨hExtends, hStreams⟩ := openFiles_cases h
  obtain ⟨hKept, hNew⟩ := hStreams st
  obtain ⟨new, -, -, hDescribed⟩ := set_described hSet
  have hDesc := hDescribed st
  unfold Ready
  cases hAsks : task.asks st with
  | file =>
    rw [hAsks] at hDesc
    obtain ⟨hNonneg, hFree, hOpen⟩ := hNew hDesc
    have hAway : ∀ st' : StdStream, (d'.desc st).fd ≠ st'.fileno :=
      fun st' hEq => hStd st' (hEq ▸ hFree)
    rw [if_neg fun hOut => hAway .stdout hOut.2]
    refine ⟨hNonneg, hAway, false, ?_⟩
    rw [hOpen, set_fileName hSet hAsks, meant, hAsks]
  | pipe name =>
    rw [hAsks] at hDesc
    obtain ⟨hEmpty, fds, hLookup, hFd⟩ := hDesc
    obtain ⟨hNonneg, hAway, flag, hOpen⟩ := hPipes name fds hLookup st.pipeEnd
    rw [hKept hEmpty, hFd, if_neg fun hOut => hAway .stdout hOut.2]
    refine ⟨hNonneg, hAway, flag, ?_⟩
    rw [hExtends _ _ hOpen, meant, hAsks]
  | stdout =>
    rw [hAsks] at hDesc
    obtain rfl := task.asks_stdout hAsks
    rw [hKept hDesc.1, if_pos ⟨rfl, hDesc.2⟩]
    exact meant_stdout hAsks

/-- **`dup2_fds`.** -/
theorem dup2Fds_spec (hReady : ∀ st, Ready task t st (d.desc st)) (h : dup2Fds d t = some t') :
    (∀ st : StdStream, t' st.fileno = some ⟨meant ι task st, false⟩) ∧
      ∀ fd, (∀ st : StdStream, fd ≠ st.fileno) → t' fd = t fd := by
  simp only [dup2Fds, Option.bind_eq_bind, Option.bind_eq_some_iff] at h
  obtain ⟨t1, hStdin, t2, hStdout, hStderr⟩ := h
  have hIn : Ready task t .stdin d.stdinDesc := hReady .stdin
  have hOut : Ready task t .stdout d.stdoutDesc := hReady .stdout
  have hErr : Ready task t .stderr d.stderrDesc := hReady .stderr
  rw [Ready, if_neg (by simp)] at hIn hOut
  obtain ⟨hNonneg1, hAway1, flag1, hOpen1⟩ := hIn
  obtain ⟨hNonneg2, hAway2, flag2, hOpen2⟩ := hOut
  obtain rfl := place_cases hStdin hNonneg1 (hAway1 .stdin) hOpen1
  rw [← Function.update_of_ne (hAway2 .stdin) (some ⟨meant ι task .stdin, false⟩) t] at hOpen2
  obtain rfl := place_cases hStdout hNonneg2 (hAway2 .stdout) hOpen2
  have hLast : t' = Function.update
      (Function.update (Function.update t StdStream.stdin.fileno (some ⟨meant ι task .stdin, false⟩))
        StdStream.stdout.fileno (some ⟨meant ι task .stdout, false⟩))
      StdStream.stderr.fileno (some ⟨meant ι task .stderr, false⟩) := by
    unfold Ready at hErr
    split at hErr
    · rename_i hSame
      have hFd : d.stderrDesc.fd = StdStream.stdout.fileno := hSame.2
      rw [hErr]
      refine place_cases hStderr (by rw [hFd]; decide) (by rw [hFd]; decide)
        (x := ⟨meant ι task .stdout, false⟩) ?_
      rw [hFd, Function.update_self]
    · obtain ⟨hNonneg3, hAway3, flag3, hOpen3⟩ := hErr
      refine place_cases hStderr hNonneg3 (hAway3 .stderr) (x := ⟨meant ι task .stderr, flag3⟩) ?_
      rw [Function.update_of_ne (hAway3 .stdout), Function.update_of_ne (hAway3 .stdin)]
      exact hOpen3
  refine ⟨fun st => ?_, fun fd hAway => ?_⟩
  · rw [hLast]
    cases st with
    | stdin =>
      rw [Function.update_of_ne (by decide), Function.update_of_ne (by decide), Function.update_self]
    | stdout => rw [Function.update_of_ne (by decide), Function.update_self]
    | stderr => rw [Function.update_self]
  · rw [hLast, Function.update_of_ne (hAway .stderr), Function.update_of_ne (hAway .stdout),
      Function.update_of_ne (hAway .stdin)]

-- ---------------------------------------------------------------------------
-- close_all_fds, enter and exec
-- ---------------------------------------------------------------------------

/-- **Up to the loop of `close_all_fds`.** The streams are in place, and what else is open
and exempt is the logger's descriptor or one that was opened on the way. -/
theorem prepare_spec {d₀ : Streams} {s : Listing ι} (hSet : d₀.set task pipes = .ok (d, pipes'))
    (hStd : ∀ st : StdStream, t st.fileno ≠ none) (hPipes : HasPipes t pipes'.pipes)
    (h : prepare d t fresh = some s) :
    (∀ st : StdStream, s.table st.fileno = some ⟨meant ι task st, false⟩) ∧
      (t loggerFd ≠ none → s.table loggerFd = t loggerFd) ∧
      ∀ st : StdStream, s.dirFd ≠ st.fileno ∧ s.enterFds.1 ≠ st.fileno ∧
        s.enterFds.2 ≠ st.fileno := by
  simp only [prepare, delayEnter, Option.bind_eq_bind, Option.bind_eq_some_iff, Prod.exists] at h
  obtain ⟨memory, t1, fresh1, hMemory, cpuacct, t2, fresh2, hCpuacct, d', t3, fresh3, hFiles, t4,
    hDup, dirFd, t5, fresh4, hDir, hEq⟩ := h
  cases hEq
  obtain ⟨hOpened1, -⟩ := FdTable.openFile_cases hMemory
  obtain ⟨hOpened2, -⟩ := FdTable.openFile_cases hCpuacct
  obtain ⟨hOpened5, -⟩ := FdTable.openFile_cases hDir
  have hEnter : t.Extends t2 := hOpened1.extends.trans hOpened2.extends
  obtain ⟨hExtends, -⟩ := openFiles_cases hFiles
  have hStd2 : ∀ st : StdStream, t2 st.fileno ≠ none := fun st hNone =>
    hStd st (hEnter.free hNone)
  have hPipes2 : HasPipes t2 pipes'.pipes := by
    intro name fds hLookup e
    obtain ⟨hNonneg, hAway, flag, hOpen⟩ := hPipes name fds hLookup e
    exact ⟨hNonneg, hAway, flag, hEnter _ _ hOpen⟩
  obtain ⟨hPlaced, hKept⟩ := dup2Fds_spec (ready_of_openFiles hSet hStd2 hPipes2 hFiles) hDup
  refine ⟨fun st => hOpened5.extends _ _ (hPlaced st), fun hLogger => ?_, fun st => ⟨?_, ?_, ?_⟩⟩
  · obtain ⟨x, hx⟩ := Option.ne_none_iff_exists'.mp hLogger
    have hOpen : t4 loggerFd = some x := by
      rw [hKept loggerFd (by intro st; cases st <;> decide)]
      exact hExtends _ _ (hEnter _ _ hx)
    rw [hx]
    exact hOpened5.extends _ _ hOpen
  · rintro rfl
    cases (hPlaced st).symm.trans hOpened5.free
  · intro hEq
    exact hStd st (hEq ▸ hOpened1.free)
  · intro hEq
    exact hStd st (hOpened1.extends.free (hEq ▸ hOpened2.free))

/-- The loop leaves open what is exempt or not listed. -/
theorem closeListed_open {exempt : Fd → Bool} {fds : List Fd} {x : Descriptor ι}
    (h : closeListed exempt fds t = some t') :
    t' fd = some x ↔ (exempt fd = true ∨ fd ∉ fds) ∧ t fd = some x := by
  induction fds generalizing t with
  | nil =>
    obtain rfl := Option.some.inj h
    simp
  | cons first fds ih =>
    rw [closeListed] at h
    split at h
    · rename_i hExempt
      rw [ih h]
      rcases eq_or_ne fd first with rfl | hNe
      · simp [hExempt]
      · simp [hNe]
    · rename_i hClosed
      obtain ⟨t1, hClose, hRest⟩ := Option.bind_eq_some_iff.mp h
      rw [ih hRest, FdTable.close_open hClose]
      rcases eq_or_ne fd first with rfl | hNe
      · simp [hClosed]
      · simp [hNe]

theorem exec_open {x : Descriptor ι} :
    exec t fd = some x ↔ t fd = some x ∧ x.closeOnExec = false := by
  unfold exec
  split
  · rename_i y hOpen
    rw [hOpen]
    split
    · rename_i hFlag
      constructor
      · nofun
      · rintro ⟨hEq, hClear⟩
        rw [Option.some.inj hEq, hClear] at hFlag
        cases hFlag
    · rename_i hFlag
      constructor
      · intro hEq
        exact ⟨hEq, Option.some.inj hEq ▸ Bool.eq_false_iff.mpr hFlag⟩
      · exact And.left
  · rename_i hNone
    rw [hNone]
    simp

/-- **From the loop to `exec`.** What is left open is exempt, is closed by none of the
calls behind the loop, and is not close-on-exec. -/
theorem finish_open {s : Listing ι} {listed : List Fd} {x : Descriptor ι}
    (hListed : ∀ fd, fd ∈ listed ↔ s.table fd ≠ none) (h : finish listed s = some t') :
    t' fd = some x ↔
      fd ≠ s.enterFds.2 ∧ fd ≠ s.enterFds.1 ∧ fd ≠ s.dirFd ∧ s.exempt fd = true ∧
        s.table fd = some x ∧ x.closeOnExec = false := by
  simp only [finish, Option.bind_eq_bind, Option.bind_eq_some_iff] at h
  obtain ⟨t1, hLoop, t2, hDir, t3, hMemory, t4, hCpuacct, hEq⟩ := h
  obtain rfl := Option.some.inj hEq
  rw [exec_open, FdTable.close_open hCpuacct, FdTable.close_open hMemory, FdTable.close_open hDir,
    closeListed_open hLoop]
  constructor
  · rintro ⟨⟨hNe2, hNe1, hNeDir, hExempt | hUnlisted, hOpen⟩, hClear⟩
    · exact ⟨hNe2, hNe1, hNeDir, hExempt, hOpen, hClear⟩
    · -- everything that is open is listed
      refine absurd ((hListed fd).mpr ?_) hUnlisted
      rw [hOpen]
      exact Option.some_ne_none x
  · rintro ⟨hNe2, hNe1, hNeDir, hExempt, hOpen, hClear⟩
    exact ⟨⟨hNe2, hNe1, hNeDir, .inl hExempt, hOpen⟩, hClear⟩

theorem withLogger_streams {t₀ : FdTable (Descriptor ι)} {log : OpenFile ι}
    (hStd : ∀ st : StdStream, t₀ st.fileno ≠ none) (st : StdStream) :
    withLogger t₀ log st.fileno ≠ none := by
  rw [withLogger, Function.update_of_ne (by cases st <;> decide)]
  exact hStd st

/-- **What the target starts with.** Whatever the slave has inherited and whatever the
streams of the task are, the open descriptors are 0, 1 and 2, and each refers to what the
stream is to be. -/
theorem target_fds {t₀ : FdTable (Descriptor ι)} {log : OpenFile ι} {d₀ : Streams} {s : Listing ι}
    {listed : List Fd} (hStd : ∀ st : StdStream, t₀ st.fileno ≠ none)
    (hSet : d₀.set task pipes = .ok (d, pipes'))
    (hPipes : HasPipes (withLogger t₀ log) pipes'.pipes)
    (hPrepare : prepare d (withLogger t₀ log) fresh = some s)
    (hListed : ∀ fd, fd ∈ listed ↔ s.table fd ≠ none) (hFinish : finish listed s = some t') :
    (∀ fd, t' fd ≠ none ↔ fd = 0 ∨ fd = 1 ∨ fd = 2) ∧
      (∀ st : StdStream, t' st.fileno = some ⟨meant ι task st, false⟩) ∧
      (task.asks .stderr = .stdout →
        (t' 2).map Descriptor.file = (t' 1).map Descriptor.file) := by
  have hStd' : ∀ st : StdStream, withLogger t₀ log st.fileno ≠ none := withLogger_streams hStd
  obtain ⟨hPlaced, hLogger, hAway⟩ := prepare_spec hSet hStd' hPipes hPrepare
  have hStreams : ∀ st : StdStream, t' st.fileno = some ⟨meant ι task st, false⟩ := by
    intro st
    obtain ⟨hDir, hMemory, hCpuacct⟩ := hAway st
    refine (finish_open hListed hFinish).mpr
      ⟨hCpuacct.symm, hMemory.symm, hDir.symm, ?_, hPlaced st, rfl⟩
    cases st <;> simp [Listing.exempt]
  refine ⟨fun fd => ⟨fun hOpen => ?_, fun hFd => ?_⟩, hStreams, fun hAsks => ?_⟩
  · obtain ⟨x, hx⟩ := Option.ne_none_iff_exists'.mp hOpen
    obtain ⟨hNe2, hNe1, hNeDir, hExempt, hTable, hClear⟩ := (finish_open hListed hFinish).mp hx
    simp only [Listing.exempt, Bool.or_eq_true, decide_eq_true_eq] at hExempt
    rcases hExempt with (((((hFd | hFd) | hFd) | hFd) | hFd) | hFd) | hFd
    · exact .inl hFd
    · exact .inr (.inl hFd)
    · exact .inr (.inr hFd)
    · exact absurd hFd hNeDir
    · -- the logger's descriptor is close-on-exec
      have hLog : withLogger t₀ log loggerFd = some ⟨log, true⟩ := Function.update_self _ _ _
      rw [hFd, hLogger (by rw [hLog]; exact Option.some_ne_none _), hLog] at hTable
      rw [← Option.some.inj hTable] at hClear
      cases hClear
    · exact absurd hFd hNe1
    · exact absurd hFd hNe2
  · rcases hFd with rfl | rfl | rfl
    · exact Option.ne_none_iff_exists'.mpr ⟨_, hStreams .stdin⟩
    · exact Option.ne_none_iff_exists'.mpr ⟨_, hStreams .stdout⟩
    · exact Option.ne_none_iff_exists'.mpr ⟨_, hStreams .stderr⟩
  · have hErr : t' 2 = _ := hStreams .stderr
    have hOut : t' 1 = _ := hStreams .stdout
    rw [hErr, hOut, meant_stdout hAsks]

/-- A task whose standard input and output are one pipe. -/
def loopTask : Task := { stdin := ⟨lit "@p"⟩, stdout := ⟨lit "@p"⟩, stderr := ⟨lit "@_stdout"⟩ }

/-- The table of its slave, which has the worker's socket at 5 and the pipe at 10 and 11. -/
def loopTable : FdTable (Descriptor Unit) := fun fd =>
  if fd = 0 ∨ fd = 1 ∨ fd = 2 ∨ fd = 5 then some ⟨.inherited (), false⟩
  else if fd = 10 then some ⟨.pipe (lit "p") .read, false⟩
  else if fd = 11 then some ⟨.pipe (lit "p") .write, false⟩
  else none

theorem loopTable_ne_none (fd : Fd) :
    loopTable fd ≠ none ↔ fd = 0 ∨ fd = 1 ∨ fd = 2 ∨ fd = 5 ∨ fd = 10 ∨ fd = 11 := by
  unfold loopTable
  split
  · next h => exact iff_of_true (Option.some_ne_none _) (by tauto)
  · split
    · next h => exact iff_of_true (Option.some_ne_none _) (by tauto)
    · split
      · next h => exact iff_of_true (Option.some_ne_none _) (by tauto)
      · exact iff_of_false (fun hNone => hNone rfl) (by tauto)

/-- What `close_all_fds` finds. -/
def loopListing : Listing Unit where
  table :=
    let t := Function.update (withLogger loopTable (.inherited ())) 3 (some ⟨.tasks .memory, true⟩)
    let t := Function.update t 4 (some ⟨.tasks .cpuacct, true⟩)
    let t := Function.update t 0 (some ⟨.pipe (lit "p") .read, false⟩)
    let t := Function.update t 1 (some ⟨.pipe (lit "p") .write, false⟩)
    let t := Function.update t 2 (some ⟨.pipe (lit "p") .write, false⟩)
    Function.update t 6 (some ⟨.procSelfFd, true⟩)
  dirFd := 6
  enterFds := (3, 4)

theorem target_fds_loop :
    ∃ d pipes' s t', Streams.set loopTask {} ⟨[], [10, 11]⟩ = .ok (d, pipes') ∧
      prepare d (withLogger loopTable (.inherited ())) [3, 4, 6] = some s ∧
      finish [0, 1, 2, 3, 4, 5, 6, 10, 11, 107] s = some t' ∧
      ∀ fd, t' fd ≠ none ↔ fd = 0 ∨ fd = 1 ∨ fd = 2 := by
  obtain ⟨e, hAssign, hHolds⟩ := assign_holds (PlainString.new : PlainString pathMax) [] (Nat.zero_le _)
  have hEmpty : e.empty = true := empty_of_holds hHolds
  let d : Streams := ⟨⟨10, e⟩, ⟨11, e⟩, ⟨1, e⟩⟩
  have hSet : Streams.set loopTask {} ⟨[], [10, 11]⟩ = .ok (d, ⟨[(lit "p", 10, 11)], []⟩) := by
    simp only [Streams.set, setStdin, setStdout, setStderr, setStream, hAssign]
    rfl
  have hPrepare : prepare d (withLogger loopTable (.inherited ())) [3, 4, 6] = some loopListing := by
    simp only [prepare, delayEnter, openFiles, openFile, d, hEmpty]
    rfl
  have hListed : ∀ fd, fd ∈ ([0, 1, 2, 3, 4, 5, 6, 10, 11, 107] : List Fd) ↔
      loopListing.table fd ≠ none := by
    intro fd
    simp only [loopListing, withLogger, FdTable.update_ne_none, loopTable_ne_none, loggerFd,
      List.mem_cons, List.not_mem_nil, or_false]
    tauto
  obtain ⟨t', hFinish⟩ : ∃ t', finish [0, 1, 2, 3, 4, 5, 6, 10, 11, 107] loopListing = some t' :=
    ⟨_, rfl⟩
  have hStd : ∀ st : StdStream, loopTable st.fileno ≠ none := by
    intro st hNone
    cases st <;> cases hNone
  have hPipes : HasPipes (withLogger loopTable (.inherited ())) [(lit "p", 10, 11)] := by
    intro name fds hLookup e
    obtain ⟨rfl, rfl⟩ : name = lit "p" ∧ fds = (10, 11) := by
      rw [List.lookup_cons] at hLookup
      split at hLookup
      · rename_i hName
        exact ⟨eq_of_beq hName, (Option.some.inj hLookup).symm⟩
      · cases hLookup
    cases e with
    | read => exact ⟨by decide, by intro st; cases st <;> decide, false, rfl⟩
    | write => exact ⟨by decide, by intro st; cases st <;> decide, false, rfl⟩
  exact ⟨d, _, loopListing, t', hSet, hPrepare, hFinish,
    (target_fds hStd hSet hPipes hPrepare hListed hFinish).1⟩

-- ---------------------------------------------------------------------------
-- The slave of the world
-- ---------------------------------------------------------------------------

theorem standing_iff : standing fd = true ↔ (∃ st : StdStream, fd = st.fileno) ∨ fd = loggerFd := by
  simp only [standing, Bool.or_eq_true, decide_eq_true_eq]
  constructor
  · rintro (((rfl | rfl) | rfl) | rfl)
    · exact .inl ⟨.stdin, rfl⟩
    · exact .inl ⟨.stdout, rfl⟩
    · exact .inl ⟨.stderr, rfl⟩
    · exact .inr rfl
  · rintro (⟨st, rfl⟩ | rfl)
    · cases st <;> decide
    · decide

/-- What the world tells of an open file, the pipes being numbered there. -/
def seen (number : Str → Nat) (x : Descriptor ι) : File :=
  match x.file with
  | .pipe name e => .pipe (number name) e
  | _ => .other

variable {number : Str → Nat}

theorem openFile_seen {desc desc' : IOStream}
    (h : openFile st desc t fresh = some (desc', t', rest)) :
    desc.openFile (t.map (seen number)) fresh = some (desc', t'.map (seen number), rest) := by
  unfold openFile at h
  unfold IOStream.openFile
  split at h
  · rename_i hEmpty
    cases h
    rw [if_pos hEmpty]
  · rename_i hName
    obtain ⟨⟨fd, t1, fresh1⟩, hOpen, hEq⟩ := Option.map_eq_some_iff.mp h
    cases hEq
    have hSeen : (t.map (seen number)).openFile .other fresh =
        some (fd, t'.map (seen number), rest) := FdTable.map_openFile (seen number) hOpen
    rw [if_neg hName, hSeen]
    rfl

theorem openFiles_seen (h : openFiles d t fresh = some (d', t', rest)) :
    d.openFiles (t.map (seen number)) fresh = some (d', t'.map (seen number), rest) := by
  simp only [openFiles, Option.bind_eq_bind, Option.bind_eq_some_iff, Prod.exists] at h
  obtain ⟨stdinDesc, t1, fresh1, hStdin, stdoutDesc, t2, fresh2, hStdout, stderrDesc, t3, fresh3,
    hStderr, hEq⟩ := h
  cases hEq
  simp only [Streams.openFiles, openFile_seen hStdin, openFile_seen hStdout, openFile_seen hStderr,
    Option.bind_eq_bind, Option.bind_some]
  rfl

theorem place_seen {desc : IOStream} (h : place st desc t = some t') :
    desc.dup2 st.fileno (t.map (seen number)) = some (t'.map (seen number)) := by
  unfold place at h
  unfold IOStream.dup2
  split at h
  · rename_i hFd
    rw [if_pos hFd]
    obtain ⟨x, hOpen, hEq⟩ := Option.map_eq_some_iff.mp h
    have hMap : t.map (seen number) desc.fd = some (seen number x) := by
      rw [FdTable.map, hOpen]
      rfl
    rw [FdTable.dup2, hMap]
    split at hEq
    · rename_i hSame
      have hSelf : Function.update (t.map (seen number)) desc.fd (some (seen number x)) =
          t.map (seen number) := by
        rw [← hMap]
        exact Function.update_eq_self _ _
      rw [← hEq, ← hSame]
      exact congrArg some hSelf
    · rw [← hEq, FdTable.map_update]
      rfl
  · rename_i hFd
    cases h
    rw [if_neg hFd]

theorem dup2Fds_seen (h : dup2Fds d t = some t') :
    d.dup2Fds (t.map (seen number)) = some (t'.map (seen number)) := by
  simp only [dup2Fds, Option.bind_eq_bind, Option.bind_eq_some_iff] at h
  obtain ⟨t1, hStdin, t2, hStdout, hStderr⟩ := h
  simp only [Streams.dup2Fds, place_seen hStdin, place_seen hStdout, place_seen hStderr,
    Option.bind_eq_bind, Option.bind_some]

/-- **The slave of the world up to `close_all_fds`** does what this one does. -/
theorem prepare_seen {s : Listing ι} (h : prepare d t fresh = some s) :
    ∃ t1 fresh1 t2 fresh2 d' t3 fresh3 t4,
      (t.map (seen number)).openFile .other fresh = some (s.enterFds.1, t1, fresh1) ∧
      t1.openFile .other fresh1 = some (s.enterFds.2, t2, fresh2) ∧
      d.openFiles t2 fresh2 = some (d', t3, fresh3) ∧ d'.dup2Fds t3 = some t4 ∧
      t4 s.dirFd = none ∧ ∀ fd, fd ≠ s.dirFd → t4 fd = s.table.map (seen number) fd := by
  simp only [prepare, delayEnter, Option.bind_eq_bind, Option.bind_eq_some_iff, Prod.exists] at h
  obtain ⟨memory, t1, fresh1, hMemory, cpuacct, t2, fresh2, hCpuacct, d', t3, fresh3, hFiles, t4,
    hDup, dirFd, t5, fresh4, hDir, hEq⟩ := h
  cases hEq
  obtain ⟨hOpened, -⟩ := FdTable.openFile_cases hDir
  refine ⟨_, _, _, _, d', _, _, _, FdTable.map_openFile (seen number) hMemory,
    FdTable.map_openFile (seen number) hCpuacct, openFiles_seen hFiles, dup2Fds_seen hDup, ?_,
    fun fd hNe => ?_⟩
  · rw [FdTable.map, hOpened.free]
    rfl
  · show (t4 fd).map _ = (t5 fd).map _
    rw [hOpened.other fd hNe]

/-- The descriptors of the files `tasks` are open in the world as well. -/
theorem leave_seen {s : Listing ι} {listed : List Fd} {t4 : FdTable File}
    (hSame : ∀ fd, fd ≠ s.dirFd → t4 fd = s.table.map (seen number) fd)
    (h : finish listed s = some t') :
    (closeAllFds s.enterFds t4).close s.enterFds.1 =
        some (Function.update (closeAllFds s.enterFds t4) s.enterFds.1 none) ∧
      FdTable.close (Function.update (closeAllFds s.enterFds t4) s.enterFds.1 none) s.enterFds.2 =
        some (Function.update (Function.update (closeAllFds s.enterFds t4) s.enterFds.1 none)
          s.enterFds.2 none) := by
  simp only [finish, Option.bind_eq_bind, Option.bind_eq_some_iff] at h
  obtain ⟨t1, hLoop, t2, hDir, t3, hMemory, t4', hCpuacct, -⟩ := h
  have hEnter : ∀ fd x, t2 fd = some x → (fd = s.enterFds.1 ∨ fd = s.enterFds.2) →
      closeAllFds s.enterFds t4 fd = some (seen number x) := by
    intro fd x hx hFd
    obtain ⟨hNeDir, hx1⟩ := (FdTable.close_open hDir).mp hx
    have hTable := ((closeListed_open hLoop).mp hx1).2
    refine FdTable.keepOnly_open.mpr ⟨by rcases hFd with rfl | rfl <;> simp, ?_⟩
    rw [hSame fd hNeDir, FdTable.map, hTable]
    rfl
  obtain ⟨x1, hx1, -⟩ := FdTable.close_cases hMemory
  obtain ⟨x2, hx2, -⟩ := FdTable.close_cases hCpuacct
  obtain ⟨hNe, hx2⟩ := (FdTable.close_open hMemory).mp hx2
  have hOpen1 := hEnter _ _ hx1 (.inl rfl)
  have hOpen2 := hEnter _ _ hx2 (.inr rfl)
  rw [← Function.update_of_ne hNe none (closeAllFds s.enterFds t4)] at hOpen2
  exact ⟨FdTable.close_of_open hOpen1, FdTable.close_of_open hOpen2⟩

/-- No descriptor but the logger's that is exempt and stays open is close-on-exec. -/
theorem finish_table {s : Listing ι} {listed : List Fd} {t4 : FdTable File}
    (hFree : t4 s.dirFd = none) (hSame : ∀ fd, fd ≠ s.dirFd → t4 fd = s.table.map (seen number) fd)
    (hStreams : ∀ st : StdStream, ∃ file, s.table st.fileno = some ⟨file, false⟩)
    (hLogger : ∃ file, s.table loggerFd = some ⟨file, true⟩)
    (hListed : ∀ fd, fd ∈ listed ↔ s.table fd ≠ none) (h : finish listed s = some t') :
    t'.map (seen number) = Function.update (Function.update (Function.update
      (closeAllFds s.enterFds t4) s.enterFds.1 none) s.enterFds.2 none) loggerFd none := by
  have hLeft : ∀ fd (x : Descriptor ι), t' fd = some x ↔ _ := fun _ _ => finish_open hListed h
  funext fd
  have hClosed : (∀ x, t' fd ≠ some x) → t'.map (seen number) fd = none := by
    intro hNot
    rw [FdTable.map, Option.eq_none_iff_forall_ne_some.mpr hNot]
    rfl
  rcases eq_or_ne fd loggerFd with rfl | hNeLogger
  · rw [Function.update_self]
    refine hClosed fun x hx => ?_
    obtain ⟨file, hTable⟩ := hLogger
    obtain ⟨-, -, -, -, hOpen, hClear⟩ := (hLeft _ x).mp hx
    rw [← Option.some.inj (hTable.symm.trans hOpen)] at hClear
    cases hClear
  rw [Function.update_of_ne hNeLogger]
  rcases eq_or_ne fd s.enterFds.2 with rfl | hNe2
  · rw [Function.update_self]
    exact hClosed fun x hx => ((hLeft _ x).mp hx).1 rfl
  rw [Function.update_of_ne hNe2]
  rcases eq_or_ne fd s.enterFds.1 with rfl | hNe1
  · rw [Function.update_self]
    exact hClosed fun x hx => ((hLeft _ x).mp hx).2.1 rfl
  rw [Function.update_of_ne hNe1, closeAllFds, FdTable.keepOnly]
  rcases eq_or_ne fd s.dirFd with rfl | hNeDir
  · rw [hFree, ite_self]
    exact hClosed fun x hx => ((hLeft _ x).mp hx).2.2.1 rfl
  by_cases hStream : ∃ st : StdStream, fd = st.fileno
  · obtain ⟨st, rfl⟩ := hStream
    obtain ⟨file, hOpen⟩ := hStreams st
    have hExempt : s.exempt st.fileno = true := by cases st <;> simp [Listing.exempt]
    rw [if_pos (by rw [standing_fileno]; rfl), hSame _ hNeDir, FdTable.map, FdTable.map, hOpen,
      (hLeft _ _).mpr ⟨hNe2, hNe1, hNeDir, hExempt, hOpen, rfl⟩]
  · have hAway : ∀ st : StdStream, fd ≠ st.fileno := fun st hEq => hStream ⟨st, hEq⟩
    have hOther : standing fd = false := by
      rw [Bool.eq_false_iff, ne_eq, standing_iff]
      exact fun h => h.elim hStream hNeLogger
    have hNot : ¬ (standing fd || decide (fd = s.enterFds.1) || decide (fd = s.enterFds.2)) = true := by
      simp [hOther, hNe1, hNe2]
    rw [if_neg hNot]
    refine hClosed fun x hx => ?_
    obtain ⟨-, -, -, hExempt, -, -⟩ := (hLeft _ x).mp hx
    simp only [Listing.exempt, Bool.or_eq_true, decide_eq_true_eq, hAway .stdin, hAway .stdout,
      hAway .stderr, hNeDir, hNeLogger, hNe1, hNe2, or_false] at hExempt

/-- **And from there to `exec`.** -/
theorem finish_seen {s : Listing ι} {listed : List Fd} {t4 : FdTable File}
    (hFree : t4 s.dirFd = none) (hSame : ∀ fd, fd ≠ s.dirFd → t4 fd = s.table.map (seen number) fd)
    (hStreams : ∀ st : StdStream, ∃ file, s.table st.fileno = some ⟨file, false⟩)
    (hLogger : ∃ file, s.table loggerFd = some ⟨file, true⟩)
    (hListed : ∀ fd, fd ∈ listed ↔ s.table fd ≠ none) (h : finish listed s = some t') :
    ∃ t5 t6, (closeAllFds s.enterFds t4).close s.enterFds.1 = some t5 ∧
      t5.close s.enterFds.2 = some t6 ∧
      t'.map (seen number) = Function.update t6 loggerFd none := by
  obtain ⟨hLeave1, hLeave2⟩ := leave_seen hSame h
  exact ⟨_, _, hLeave1, hLeave2, finish_table hFree hSame hStreams hLogger hListed h⟩

/-- **The slave of the world** takes its table through the same calls to the same end. -/
theorem target_seen {t₀ : FdTable (Descriptor ι)} {log : OpenFile ι} {d₀ : Streams} {s : Listing ι}
    {listed : List Fd} (hStd : ∀ st : StdStream, t₀ st.fileno ≠ none)
    (hSet : d₀.set task pipes = .ok (d, pipes'))
    (hPipes : HasPipes (withLogger t₀ log) pipes'.pipes)
    (hPrepare : prepare d (withLogger t₀ log) fresh = some s)
    (hListed : ∀ fd, fd ∈ listed ↔ s.table fd ≠ none) (hFinish : finish listed s = some t') :
    ∃ t1 fresh1 t2 fresh2 d' t3 fresh3 t4 t5 t6,
      ((withLogger t₀ log).map (seen number)).openFile .other fresh =
        some (s.enterFds.1, t1, fresh1) ∧
      t1.openFile .other fresh1 = some (s.enterFds.2, t2, fresh2) ∧
      d.openFiles t2 fresh2 = some (d', t3, fresh3) ∧ d'.dup2Fds t3 = some t4 ∧
      (closeAllFds s.enterFds t4).close s.enterFds.1 = some t5 ∧
      t5.close s.enterFds.2 = some t6 ∧ t'.map (seen number) = Function.update t6 loggerFd none := by
  have hStd' : ∀ st : StdStream, withLogger t₀ log st.fileno ≠ none := withLogger_streams hStd
  have hLog : withLogger t₀ log loggerFd = some ⟨log, true⟩ := Function.update_self _ _ _
  obtain ⟨hPlaced, hLogger, -⟩ := prepare_spec hSet hStd' hPipes hPrepare
  obtain ⟨t1, fresh1, t2, fresh2, d', t3, fresh3, t4, hMemory, hCpuacct, hFiles, hDup, hFree,
    hSame⟩ := prepare_seen hPrepare
  obtain ⟨t5, t6, hLeave1, hLeave2, hEq⟩ := finish_seen hFree hSame (fun st => ⟨_, hPlaced st⟩)
    ⟨log, (hLogger (by rw [hLog]; exact Option.some_ne_none _)).trans hLog⟩ hListed hFinish
  exact ⟨t1, fresh1, t2, fresh2, d', t3, fresh3, t4, t5, t6, hMemory, hCpuacct, hFiles, hDup,
    hLeave1, hLeave2, hEq⟩

end Slave

end Libsbox
