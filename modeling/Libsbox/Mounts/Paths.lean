import Libsbox.Lib.Moves
import Libsbox.Mounts.Root

/-!
# libsbox — the inside path of a bind

A bind has two readers for its inside path. The worker puts it behind `root_` or `work_dir_`
and mounts there, as a process of the host. The program of the slave looks it up behind
`chdir(work_dir_)` and `chroot(root_)`, where `..` at the root stays at the root.

Without symbolic links a path leads where its names say. That is how an `FsView` resolves it,
and `Unlinked` connects this with the lookups of the kernel.

## Results

* `Bind.targetFound_iff` — for which inside paths the two readers mean one location;
* `Bind.mount_at`, `Kernel.Unlinked.lookupFrom_found` — where a bind is mounted, and what the
  slave finds, in a tree without links.
-/

namespace Libsbox

open CMemory Kernel Moves

-- ---------------------------------------------------------------------------
-- Paths without links
-- ---------------------------------------------------------------------------

def move (name : Str) : Move Str :=
  if name = [] ∨ name = lit "." then .stay
  else if name = lit ".." then .up
  else .down name

/-- The names of a path as moves. -/
def FsPath.way (p : FsPath) : List (Move Str) := p.names.map move

/-- What a process resolves paths from. -/
structure FsView where
  root : Location
  cwd : Location

namespace FsView

/-- A process of the host, such as the worker. -/
def host (cwd : Location) : FsView := ⟨[], cwd⟩

def resolve (v : FsView) (p : FsPath) : Location :=
  Moves.resolve v.root (if p.absolute then v.root else v.cwd) p.way

/-- `chdir(2)`. -/
def chdir (v : FsView) (p : FsPath) : FsView := { v with cwd := v.resolve p }

/-- `chroot(2)`, which does not change the working directory. -/
def chroot (v : FsView) (p : FsPath) : FsView := { v with root := v.resolve p }

end FsView

/-- `Container::slave` on its way to `open_files`. -/
def slaveView (v : FsView) (root : FsPath) : FsView := (v.chdir (workDir root)).chroot root

section

variable {p q : FsPath} {root top place : Location}

theorem FsPath.way_base (p : FsPath) (root place : Location) :
    Moves.resolve root place (p.base.map move) = Moves.resolve root place p.way := by
  unfold FsPath.base FsPath.way
  split
  · next hSlash =>
    have hNames : p.names.dropLast ++ [[]] = p.names := List.dropLast_append_getLast? [] hSlash
    rw [← congrArg (List.map move) hNames, List.map_append, resolve_append_way]
    rfl
  · rfl

theorem FsPath.resolve_way_append (h : q.absolute = false) :
    Moves.resolve root place (p / q).way =
      Moves.resolve root (Moves.resolve root place p.way) q.way := by
  have hNames : (p / q).names =
      p.base ++ if q.names.isEmpty && !p.names.isEmpty then [[]] else q.names := by
    show (FsPath.append p q).names = _
    simp only [FsPath.append, FsPath.base, h, Bool.false_eq_true, if_false]
  rw [FsPath.way, hNames, List.map_append, resolve_append_way, FsPath.way_base]
  split
  · next hSlash =>
    have hEmpty : q.names = [] := by
      rw [Bool.and_eq_true] at hSlash
      exact List.isEmpty_iff.mp hSlash.1
    rw [FsPath.way, FsPath.way, hEmpty]
    rfl
  · rfl

/-- The slashes before the first name lead nowhere. -/
theorem FsPath.resolve_relativePath (p : FsPath) (root place : Location) :
    Moves.resolve root place p.relativePath.way = Moves.resolve root place p.way := by
  show Moves.resolve root place ((p.names.dropWhile List.isEmpty).map move) =
    Moves.resolve root place (p.names.map move)
  induction p.names with
  | nil => rfl
  | cons name names ih =>
    cases name with
    | nil =>
      rw [List.dropWhile_cons_of_pos rfl]
      exact ih
    | cons c name => rw [List.dropWhile_cons_of_neg Bool.false_ne_true]

/-- A relative path is resolved from where the path before it leads. -/
theorem FsView.resolve_append (v : FsView) (h : q.absolute = false) :
    v.resolve (p / q) = Moves.resolve v.root (v.resolve p) q.way := by
  have hAbsolute : (p / q).absolute = p.absolute := by
    show (FsPath.append p q).absolute = _
    simp [FsPath.append, h]
  rw [FsView.resolve, hAbsolute, FsPath.resolve_way_append h]
  rfl

end

-- ---------------------------------------------------------------------------
-- The two readers
-- ---------------------------------------------------------------------------

section

variable {cwd : Location} {root : FsPath} {b b' : Bind}

/-- Behind `chdir(work_dir_)`, `root_` is still the box. -/
def EntersBox (cwd : Location) (root : FsPath) : Prop :=
  ((FsView.host cwd).chdir (workDir root)).resolve root = (FsView.host cwd).resolve root

theorem entersBox_of_absolute (h : root.absolute = true) (cwd : Location) : EntersBox cwd root := by
  simp [EntersBox, FsView.resolve, FsView.chdir, FsView.host, h]

theorem workDir_location (cwd : Location) (root : FsPath) :
    (FsView.host cwd).resolve (workDir root) = (FsView.host cwd).resolve root ++ [lit "work"] :=
  FsView.resolve_append _ rfl

/-- Where the slave begins with a path, below its root. -/
def FsPath.start (p : FsPath) : Location := if p.absolute then [] else [lit "work"]

/-- No `..` of the path is met at the root of the slave. -/
def FsPath.StaysInside (p : FsPath) : Prop := Stays p.start.length p.way

instance (p : FsPath) : Decidable p.StaysInside := inferInstanceAs (Decidable (Stays _ _))

/-- With a slave whose root is not the box: the names that the `..` of the path take off the
location of the box come back first, and without them it is the slave's root, or, from the
working directory, no `..` is met at that root. -/
def FsPath.FoundFrom (box slaveRoot : Location) (p : FsPath) : Prop :=
  let left := box.length - climbs p.start.length p.way
  box.drop left <+: Moves.resolve [] p.start p.way ∧
    if p.absolute then box.take left = slaveRoot
    else slaveRoot = [] ∨ ¬ Meets slaveRoot (box ++ [lit "work"]) p.way

theorem slaveView_resolve (cwd : Location) (root p : FsPath) :
    (slaveView (FsView.host cwd) root).resolve p =
      Moves.resolve (slaveView (FsView.host cwd) root).root
        (if p.absolute then (slaveView (FsView.host cwd) root).root
        else (FsView.host cwd).resolve root ++ [lit "work"]) p.way := by
  rw [← workDir_location]
  rfl

/-- In the box, that is what it comes to. -/
theorem FsPath.foundFrom_self (box : Location) (p : FsPath) :
    p.FoundFrom box box ↔ box = [] ∨ p.StaysInside := by
  have hTaken : box.take (box.length - climbs p.start.length p.way) = box ↔
      box = [] ∨ p.StaysInside := by
    rw [List.take_eq_self_iff, FsPath.StaysInside, stays_iff_climbs, ← List.length_eq_zero_iff]
    omega
  have hWay : (if p.absolute then box.take (box.length - climbs p.start.length p.way) = box
      else box = [] ∨ ¬ Meets box (box ++ [lit "work"]) p.way) ↔ box = [] ∨ p.StaysInside := by
    split
    · exact hTaken
    · next hRelative =>
      rw [← resolve_eq_iff_meets, resolve_eq_iff, FsPath.StaysInside, FsPath.start,
        if_neg hRelative]
  rw [FsPath.FoundFrom, hWay]
  refine and_iff_right_of_imp fun h => ?_
  rw [← hTaken, List.take_eq_self_iff] at h
  rw [List.drop_eq_nil_of_le h]
  exact List.nil_prefix

/-- The mount point as a process of the host finds it. -/
theorem Bind.setPaths_toPath (h : b.setPaths root (workDir root) = .ok b') :
    (FsView.host cwd).resolve b'.toPath =
      Moves.resolve [] ((FsView.host cwd).resolve root ++ b.inside.start) b.inside.way := by
  unfold Bind.setPaths at h
  split at h
  · cases h
  · obtain rfl := Except.ok.inj h
    show (FsView.host cwd).resolve
      (if b.inside.absolute then root / b.inside.relativePath else workDir root / b.inside) = _
    unfold FsPath.start
    split
    · rw [List.append_nil, FsView.resolve_append _ rfl, FsPath.resolve_relativePath]
      rfl
    · next hRelative =>
      rw [← workDir_location]
      exact FsView.resolve_append _ (by simpa using hRelative)

/-- The mount point is what the slave finds at the inside path, and lies in the box. -/
def Bind.TargetFound (host : FsView) (root : FsPath) (b b' : Bind) : Prop :=
  host.resolve b'.toPath = (slaveView host root).resolve b.inside ∧
    host.resolve root <+: host.resolve b'.toPath

theorem Bind.targetFound_foundFrom (hPaths : b.setPaths root (workDir root) = .ok b') :
    b.TargetFound (FsView.host cwd) root b' ↔
      b.inside.FoundFrom ((FsView.host cwd).resolve root) (slaveView (FsView.host cwd) root).root := by
  unfold Bind.TargetFound
  rw [Bind.setPaths_toPath hPaths, slaveView_resolve]
  generalize (FsView.host cwd).resolve root = box
  generalize (slaveView (FsView.host cwd) root).root = slaveRoot
  have hInside : box <+: Moves.resolve [] (box ++ b.inside.start) b.inside.way ↔
      box.drop (box.length - climbs b.inside.start.length b.inside.way) <+:
        Moves.resolve [] b.inside.start b.inside.way := by
    rw [resolve_append]
    generalize box.length - climbs b.inside.start.length b.inside.way = left
    nth_rewrite 1 [← List.take_append_drop left box]
    exact List.prefix_append_right_inj _
  rw [FsPath.FoundFrom, hInside, and_comm]
  refine and_congr_right fun _ => ?_
  by_cases hAbsolute : b.inside.absolute = true
  · have hStart : b.inside.start = [] := if_pos hAbsolute
    have hSlave := resolve_below slaveRoot b.inside.way []
    rw [List.append_nil] at hSlave
    rw [if_pos hAbsolute, if_pos hAbsolute, resolve_append, hStart, hSlave,
      List.append_cancel_right_eq]
  · have hStart : b.inside.start = [lit "work"] := if_neg hAbsolute
    rw [if_neg hAbsolute, if_neg hAbsolute, hStart]
    exact resolve_eq_iff_meets slaveRoot b.inside.way _

/-- **The mount point is where the program looks** if and only if the box is the root of the
host or no `..` of the inside path is met at the root of the box. A `root_` that is another
directory behind `chdir(work_dir_)` is not that root; then it is a coincidence. -/
theorem Bind.targetFound_iff (hPaths : b.setPaths root (workDir root) = .ok b') :
    b.TargetFound (FsView.host cwd) root b' ↔
      EntersBox cwd root ∧ ((FsView.host cwd).resolve root = [] ∨ b.inside.StaysInside) ∨
        ¬ EntersBox cwd root ∧ b.inside.FoundFrom ((FsView.host cwd).resolve root)
          (slaveView (FsView.host cwd) root).root := by
  rw [Bind.targetFound_foundFrom hPaths]
  by_cases hBox : EntersBox cwd root
  · have hRoot : (slaveView (FsView.host cwd) root).root = (FsView.host cwd).resolve root := hBox
    rw [hRoot, FsPath.foundFrom_self]
    simp only [hBox, true_and, not_true_eq_false, false_and, or_false]
  · simp only [hBox, false_and, not_false_eq_true, true_and, false_or]

end

theorem Bind.targetFound_iff_up_and_down :
    Bind.TargetFound (FsView.host []) smallRoot
      { inside := ⟨false, [lit "..", lit "tmp", lit "."]⟩, outside := smallRoot, flags := 0 }
      { inside := ⟨false, [lit "..", lit "tmp", lit "."]⟩, outside := smallRoot, flags := 0
        fromPath := smallRoot
        toPath := ⟨true, [lit "box", lit "work", lit "..", lit "tmp", lit "."]⟩ } :=
  (Bind.targetFound_iff rfl).mpr (.inl ⟨entersBox_of_absolute rfl [], .inr (by decide)⟩)

/-- One `..` more, and the mount point is in another directory of the host. -/
theorem Bind.target_escapes :
    ¬ ∀ (cwd : Location) (root : FsPath) (b b' : Bind),
      b.setPaths root (workDir root) = .ok b' →
      EntersBox cwd root → b.TargetFound (FsView.host cwd) root b' := by
  intro hClaim
  have hFound := hClaim [] smallRoot
    { inside := ⟨true, [lit "..", lit "etc"]⟩, outside := smallRoot, flags := 0 } _ rfl
    (entersBox_of_absolute rfl [])
  exact absurd hFound.1 (by decide)

-- ---------------------------------------------------------------------------
-- In the kernel
-- ---------------------------------------------------------------------------

namespace Kernel

variable {k : Kernel} {c c' : Location}

/-- There is no symbolic link. -/
def Unlinked (k : Kernel) : Prop := ∀ p target, k.nodes p ≠ some (.symlink target)

/-- One name for a process with the root at `root`. -/
def stepBelow (k : Kernel) (root c : Location) (name : Str) : Lookup :=
  if name = lit ".." ∧ c = root then .found c else k.step c name

/-- The lookup of a process, as `walk` for one with the root of the host; the targets of links
are not resolved below `root`. -/
def walkBelow (k : Kernel) (root : Location) : Location → List Str → Lookup
  | c, [] => .found c
  | c, name :: rest =>
    match k.stepBelow root c name with
    | .found c' => walkBelow k root c' rest
    | .absent c' _ => .absent c' rest
    | .dangling c' => if rest = [] then .dangling c' else .fail .noEntry
    | .fail e => .fail e

def lookupFrom (k : Kernel) (v : FsView) (p : FsPath) : Lookup :=
  k.walkBelow v.root (if p.absolute then v.root else v.cwd) p.names

namespace Unlinked

theorem stepWith_found (h : k.Unlinked) {follow : Location → List Str → Lookup} {name : Str}
    (hStep : k.stepWith follow c name = .found c') : c' = enter [] c (move name) := by
  unfold stepWith at hStep
  unfold move
  split_ifs at hStep with hDir hStay hUp
  · rw [if_pos hStay]
    exact (Lookup.found.inj hStep).symm
  · rw [if_neg hStay, if_pos hUp]
    obtain rfl := Lookup.found.inj hStep
    show c.dropLast = if c = [] then c else c.dropLast
    split
    · next hRoot => rw [hRoot, List.dropLast_nil]
    · rfl
  · rw [if_neg hStay, if_neg hUp]
    split at hStep
    · cases hStep
    · next target hLink =>
      obtain ⟨p, -, hNode⟩ := Option.bind_eq_some_iff.mp hLink
      exact absurd hNode (h p target)
    · exact (Lookup.found.inj hStep).symm

theorem walkWith_found (h : k.Unlinked) {follow : Location → List Str → Lookup}
    {names : List Str} : ∀ {c : Location}, k.walkWith follow c names = .found c' →
      c' = Moves.resolve [] c (names.map move) := by
  induction names with
  | nil => exact fun hWalk => (Lookup.found.inj hWalk).symm
  | cons name rest ih =>
    intro c hWalk
    obtain ⟨mid, hStep, hRest⟩ := walkWith_cons_found.mp hWalk
    rw [ih hRest, h.stepWith_found hStep]
    rfl

theorem lookup_found (h : k.Unlinked) {p : FsPath} (hLookup : k.lookup p = .found c) :
    c = Moves.resolve [] [] p.way :=
  h.walkWith_found hLookup

theorem stepBelow_found (h : k.Unlinked) {root : Location} {name : Str}
    (hStep : k.stepBelow root c name = .found c') : c' = enter root c (move name) := by
  unfold stepBelow at hStep
  split at hStep
  · next hUp =>
    obtain rfl := Lookup.found.inj hStep
    rw [hUp.1, ← hUp.2]
    exact (if_pos rfl).symm
  · next hUp =>
    rw [h.stepWith_found hStep]
    unfold move
    split
    · rfl
    · split
      · next hName =>
        have hRoot : c ≠ root := fun hEq => hUp ⟨hName, hEq⟩
        simp only [enter, if_neg hRoot]
        split
        · next hNil => rw [hNil, List.dropLast_nil]
        · rfl
      · rfl

theorem walkBelow_found (h : k.Unlinked) {root : Location} {names : List Str} :
    ∀ {c : Location}, k.walkBelow root c names = .found c' →
      c' = Moves.resolve root c (names.map move) := by
  induction names with
  | nil => exact fun hWalk => (Lookup.found.inj hWalk).symm
  | cons name rest ih =>
    intro c hWalk
    unfold walkBelow at hWalk
    split at hWalk
    · next mid hStep =>
      rw [ih hWalk, h.stepBelow_found hStep]
      rfl
    · cases hWalk
    · split at hWalk <;> cases hWalk
    · cases hWalk

/-- What a process finds is what its view says. -/
theorem lookupFrom_found (h : k.Unlinked) {v : FsView} {p : FsPath}
    (hLookup : k.lookupFrom v p = .found c) : c = v.resolve p :=
  h.walkBelow_found hLookup

end Unlinked

end Kernel

/-- A mounted bind is at the location of its mount point. -/
theorem Bind.mount_at {k k' : Kernel} {root work : FsPath} {b b' : Bind} {cwd : Location}
    (hUnlinked : k'.Unlinked) (hAbsolute : b'.toPath.absolute = true)
    (hNew : b.mounted = false) (h : b.mount root work k = (k', .ok b'))
    (hMounted : b'.mounted = true) :
    ∃ m ∈ k'.mounts, m.target = (FsView.host cwd).resolve b'.toPath := by
  rcases Bind.mount_outcome root work b k with ⟨e, hDied⟩ | ⟨b₁, hPaths, hOutcome⟩
  · rw [hDied] at h
    cases h
  · rw [h] at hOutcome
    cases hOutcome with
    | skipped =>
      unfold Bind.setPaths at hPaths
      split at hPaths
      · cases hPaths
      · obtain rfl := Except.ok.inj hPaths
        rw [hNew] at hMounted
        cases hMounted
    | @mounted mid _ _ _ hAt =>
      have hNodes : k'.nodes = mid.nodes := by rw [hAt.result]
      have hMid : mid.Unlinked := by
        rw [Unlinked, ← hNodes]
        exact hUnlinked
      have hMounts : k'.mounts = hAt.new ++ mid.mounts := congrArg Kernel.mounts hAt.result_eq
      refine ⟨topMount hAt.sourceMount hAt.source hAt.target, ?_, ?_⟩
      · rw [hMounts]
        simp [Bind.Mounted.new]
      · show hAt.target = _
        rw [hMid.lookup_found hAt.target_found, FsView.resolve]
        have hSame : b₁.toPath.absolute = true := hAbsolute
        simp [hSame, FsView.host]

end Libsbox
