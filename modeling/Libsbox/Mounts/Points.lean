import Libsbox.Mounts.Root
import Mathlib.Logic.Function.Iterate

/-!
# libsbox — where a mount point is made

A lookup of a path ends at the first name that is missing on the way. So lookups
say where `create_directories` and `open` leave something: the first missing name
gets a directory, then the next one is looked up, and at the end the file is made
or truncated. `Fills` is that as a condition on the kernel a bind finds.

Without `..` the further names lie below the first missing one, in a tree of
directories (`Sound`) where nothing is mounted, so the one lookup decides.

## Results

* `Bind.touchesOnly_iff_fills` — lookups say what a bind makes and truncates.
* `createDirectories_complete` — what `create_directories` leaves.
* `Sound.fills_iff` — the first missing name decides.
-/

namespace Libsbox

open CMemory Kernel

namespace Kernel

variable {k k' : Kernel}

-- ---------------------------------------------------------------------------
-- The end of a lookup
-- ---------------------------------------------------------------------------

/-- A node can be made at `c`. -/
def makable (k : Kernel) (c : Location) : Bool :=
  (k.cover c).any fun m => !m.options.ro && m.fs ≠ .proc

def writable (k : Kernel) (c : Location) : Bool := (k.cover c).any fun m => !m.options.ro

/-- `k` with a node at `c`. -/
def withNode (k : Kernel) (c : Location) (n : Node) : Kernel :=
  { k with nodes := fun p => if k.place c = some p then some n else k.nodes p }

/-- What is made at the end of a lookup, or, for a `file`, made or truncated: the
first missing name, the target of a dangling link, a file that is there. -/
def touched (k : Kernel) (file : Bool) (path : FsPath) : Option Location :=
  match k.lookup path with
  | .absent c _ => if k.makable c then some c else none
  | .dangling c => if file && k.makable c then some c else none
  | .found c =>
    if file && k.node c = some .file && k.writable c && path.names ≠ [] then some c else none
  | .fail _ => none

def Spares (P : Place → Prop) (file : Bool) (path : FsPath) (k : Kernel) : Prop :=
  ∀ c ∈ k.touched file path, ∀ p ∈ k.place c, P p

/-- `k` with a directory at the first missing name on the way to `path`. -/
def fill (path : FsPath) (k : Kernel) : Kernel :=
  match k.touched false path with
  | some c => k.withNode c .dir
  | none => k

/-- `k` with all directories on the way to `path`. -/
def complete (path : FsPath) (k : Kernel) : Kernel := (fill path)^[path.names.length] k

/-- What is made for the mount point `path`, once the directories on the way `way`
are there one after the other, is at places with `P`. -/
def Fills (P : Place → Prop) (file : Bool) (way path : FsPath) (k : Kernel) : Prop :=
  ∀ i ≤ way.names.length, Spares P file path ((fill way)^[i] k)

instance (P : Place → Prop) [DecidablePred P] (file : Bool) (path : FsPath) (k : Kernel) :
    Decidable (Spares P file path k) :=
  inferInstanceAs (Decidable (∀ c ∈ k.touched file path, ∀ p ∈ k.place c, P p))

instance (P : Place → Prop) [DecidablePred P] (file : Bool) (way path : FsPath) (k : Kernel) :
    Decidable (Fills P file way path k) :=
  inferInstanceAs (Decidable (∀ i ≤ way.names.length, Spares P file path ((fill way)^[i] k)))


-- ---------------------------------------------------------------------------
-- One missing name
-- ---------------------------------------------------------------------------

theorem makable_iff {c : Location} :
    k.makable c = true ↔ ∃ m, k.cover c = some m ∧ m.options.ro = false ∧ m.fs ≠ .proc := by
  simp [makable, Option.any_eq_true]

theorem spares_none {P : Place → Prop} {file : Bool} {path : FsPath}
    (h : k.touched file path = none) : Spares P file path k := by
  simp [Spares, h]

theorem walkWith_log (log : List Event) (follow : Location → List Str → Lookup) :
    ∀ (names : List Str) (c : Location),
      ({ k with log } : Kernel).walkWith follow c names = k.walkWith follow c names
  | [], _ => rfl
  | name :: rest, c => by
    have hStep : ({ k with log } : Kernel).stepWith follow c name = k.stepWith follow c name := rfl
    rw [walkWith, walkWith, hStep]
    simp only [walkWith_log log follow rest]

theorem walk_log (log : List Event) : ∀ (links : Nat) (c : Location) (names : List Str),
    ({ k with log } : Kernel).walk links c names = k.walk links c names
  | 0, c, names => walkWith_log log _ names c
  | links + 1, c, names => by
    have hFollow : ({ k with log } : Kernel).walk links = k.walk links := by
      funext c names
      exact walk_log log links c names
    rw [walk, walk, hFollow]
    exact walkWith_log log _ names c

theorem lookup_log (log : List Event) (path : FsPath) :
    ({ k with log } : Kernel).lookup path = k.lookup path :=
  walk_log log 40 [] path.names

theorem touched_log (log : List Event) (file : Bool) (path : FsPath) :
    ({ k with log } : Kernel).touched file path = k.touched file path := by
  unfold touched
  rw [lookup_log]
  rfl

theorem spares_log {P : Place → Prop} {file : Bool} {path : FsPath} (log : List Event) :
    Spares P file path { k with log } ↔ Spares P file path k := by
  unfold Spares
  rw [touched_log]
  rfl

theorem fill_log (path : FsPath) (k : Kernel) (log : List Event) :
    fill path { k with log } = { fill path k with log } := by
  unfold fill
  rw [touched_log]
  cases k.touched false path <;> rfl

theorem fills_log (path : FsPath) (log : List Event) :
    ∀ (i : Nat) (k : Kernel), (fill path)^[i] { k with log } = { (fill path)^[i] k with log }
  | 0, _ => rfl
  | i + 1, k => by
    rw [Function.iterate_succ_apply, Function.iterate_succ_apply, fill_log]
    exact fills_log path log i _

/-- A node is made where one can be made. -/
theorem create_eq (kind : EventKind) (n : Node) (c : Location) :
    (∃ log, k.makable c = true ∧ k.create kind n c = .ok { k.withNode c n with log }) ∨
      k.makable c = false ∧ ∃ e, k.create kind n c = .error e := by
  cases hCreate : k.create kind n c with
  | error e =>
    refine .inr ⟨?_, e, rfl⟩
    by_contra hMakable
    obtain ⟨k', hOk⟩ := create_ok_iff.mpr (makable_iff.mp (eq_true_of_ne_false hMakable))
    rw [hOk] at hCreate
    cases hCreate
  | ok k' =>
    obtain ⟨p, hPlace, hNew⟩ := create_eq_ok hCreate
    refine .inl ⟨k'.log, makable_iff.mpr (create_ok_iff.mp ⟨k', hCreate⟩), ?_⟩
    have hNodes : Function.update k.nodes p (some n) = (k.withNode c n).nodes := by
      funext q
      show _ = if k.place c = some q then some n else k.nodes q
      by_cases hq : q = p
      · rw [hq, Function.update_self, if_pos hPlace]
      · rw [Function.update_of_ne hq, if_neg]
        rw [hPlace]
        exact fun hAt => hq (Option.some.inj hAt).symm
    rw [hNew, hNodes]
    rfl

theorem mkdir_eq_ok {c : Location} (h : k.mkdir c = .ok k') :
    k.makable c = true ∧ ∃ log, k' = { k.withNode c .dir with log } := by
  rcases create_eq (k := k) .mkdir .dir c with ⟨log, hMakable, hCreate⟩ | ⟨-, e, hCreate⟩
  · exact ⟨hMakable, log, Except.ok.inj (h.symm.trans hCreate)⟩
  · cases h.symm.trans hCreate

theorem mkdir_eq_error {c : Location} {e : Errno} (h : k.mkdir c = .error e) :
    k.makable c = false := by
  rcases create_eq (k := k) .mkdir .dir c with ⟨log, -, hCreate⟩ | ⟨hNot, -⟩
  · cases h.symm.trans hCreate
  · exact hNot

/-- A lookup ends at a missing name only one name further. -/
theorem step_absent {c c' : Location} {name : Str} {rest : List Str}
    (h : k.step c name = .absent c' rest) :
    c' = c ++ [name] ∧ rest = [] ∧ k.node c = some .dir ∧ Plain name := by
  unfold step stepWith at h
  split_ifs at h with hDir hStay hUp
  obtain ⟨hNil, hDot⟩ := not_or.mp hStay
  split at h
  · obtain ⟨rfl, rfl⟩ := Lookup.absent.inj h
    exact ⟨rfl, rfl, not_not.mp hDir, hNil, hDot, hUp⟩
  · split at h
    · cases h
    · cases h
    · next hNot => exact absurd h (hNot c' rest)
  · cases h

theorem withNode_keeps {c : Location} {n : Node} (hMissing : k.node c = none) :
    ∀ p m, k.nodes p = some m → (k.withNode c n).nodes p = some m := by
  intro p m hp
  show (if k.place c = some p then some n else k.nodes p) = some m
  rw [if_neg, hp]
  intro hSame
  have hThere : k.node c = some m := Option.bind_eq_some_iff.mpr ⟨p, hSame, hp⟩
  rw [hMissing] at hThere
  cases hThere

/-- Directories and files are no links. -/
theorem withNode_links {c : Location} {n : Node} (hKind : n = .dir ∨ n = .file) {p : Place}
    {target : FsPath} (h : (k.withNode c n).nodes p = some (.symlink target)) :
    k.nodes p = some (.symlink target) := by
  change (if k.place c = some p then some n else k.nodes p) = some (.symlink target) at h
  split at h
  · rcases hKind with rfl | rfl <;> cases h
  · exact h

theorem withNode_agrees {c : Location} {n : Node} (hMissing : k.node c = none) :
    Agrees k (k.withNode c n) :=
  agrees_of_keeps rfl (withNode_keeps hMissing)

theorem withNode_node {c : Location} {n : Node} (hMakable : k.makable c = true) :
    (k.withNode c n).node c = some n := by
  obtain ⟨m, hCover, -⟩ := makable_iff.mp hMakable
  have hPlace : k.place c = some ⟨m.fs, m.root ++ c.drop m.target.length⟩ := by
    simp [place, hCover]
  exact Option.bind_eq_some_iff.mpr ⟨_, hPlace, if_pos hPlace⟩

/-- A missing name leads somewhere once there is a directory. -/
theorem step_withNode {c c' : Location} {name : Str} {rest : List Str}
    (h : k.step c name = .absent c' rest) (hMakable : k.makable c' = true) :
    (k.withNode c' .dir).step c name = .found c' := by
  obtain ⟨rfl, -, hDir, hPlain⟩ := step_absent h
  have hMissing := (step_missing h).missing
  rw [step_plain (withNode_agrees hMissing c _ hDir) hPlain, withNode_node hMakable]

theorem lookup_of_walk {path : FsPath} {a b : List Str} {c : Location}
    (hWay : k.walk 40 [] a = .found c) (hNames : path.names = a ++ b) :
    k.lookup path = k.walk 40 c b := by
  rw [lookup, hNames]
  exact walk_append hWay

/-- The lookup of a path with a missing name. -/
theorem lookup_absent {path : FsPath} {a rest r : List Str} {name : Str} {c c' : Location}
    (hWay : k.walk 40 [] a = .found c) (hStep : k.step c name = .absent c' r)
    (hNames : path.names = a ++ name :: rest) : k.lookup path = .absent c' rest := by
  rw [step] at hStep
  rw [lookup_of_walk hWay hNames, walk, walkWith, hStep]

theorem walk_snoc {a : List Str} {name : Str} {c c' : Location}
    (hWay : k.walk 40 [] a = .found c) (hStep : k.step c name = .found c') :
    k.walk 40 [] (a ++ [name]) = .found c' :=
  walkWith_append_found.mpr ⟨c, hWay, walkWith_cons_found.mpr ⟨c', hStep, rfl⟩⟩

/-- The missing name is filled, and the way goes on behind it. -/
theorem fill_absent {path : FsPath} {a rest r : List Str} {name : Str} {c c' : Location}
    (hWay : k.walk 40 [] a = .found c) (hStep : k.step c name = .absent c' r)
    (hNames : path.names = a ++ name :: rest) (hMakable : k.makable c' = true) :
    fill path k = k.withNode c' .dir ∧
      (k.withNode c' .dir).walk 40 [] (a ++ [name]) = .found c' := by
  have hMissing := (step_missing hStep).missing
  refine ⟨by simp [fill, touched, lookup_absent hWay hStep hNames, hMakable], ?_⟩
  exact walk_snoc (walk_found_mono (withNode_agrees hMissing) hWay) (step_withNode hStep hMakable)

theorem fill_eq_self {path : FsPath} (h : k.touched false path = none) : fill path k = k := by
  simp [fill, h]

theorem forall_fills_self {Q : Kernel → Prop} {path : FsPath} {n : Nat}
    (h : k.touched false path = none) : (∀ i ≤ n, Q ((fill path)^[i] k)) ↔ Q k := by
  have hSame : ∀ i, (fill path)^[i] k = k := fun i => Function.iterate_fixed (fill_eq_self h) i
  simp only [hSame]
  exact ⟨fun hAll => hAll 0 (Nat.zero_le n), fun hQ _ _ => hQ⟩

theorem forall_fills_succ {Q : Kernel → Prop} {path : FsPath} {n : Nat} :
    (∀ i ≤ n + 1, Q ((fill path)^[i] k)) ↔ Q k ∧ ∀ i ≤ n, Q ((fill path)^[i] (fill path k)) := by
  constructor
  · exact fun h => ⟨h 0 (Nat.zero_le _), fun i hi => h (i + 1) (Nat.succ_le_succ hi)⟩
  · rintro ⟨hFirst, hRest⟩ i hi
    cases i with
    | zero => exact hFirst
    | succ i => exact hRest i (Nat.le_of_succ_le_succ hi)

-- ---------------------------------------------------------------------------
-- create_directories
-- ---------------------------------------------------------------------------

section

variable {P : Place → Prop} {file : Bool} {way path : FsPath}

/-- What `create_directories` makes on a way and `open` behind it, read from the
lookups: the induction is along the way, `a` is the part that is there. -/
theorem makes_iff_fills {tail : List Str} (hTail : file = true → tail ≠ []) :
    ∀ (b : List Str) {a : List Str} {k : Kernel} {c : Location} {n : Nat},
      k.walk 40 [] a = .found c → way.names = a ++ b → path.names = a ++ b ++ tail → b.length ≤ n →
      ((Makes P k c b ∧ ∀ mid, k.mkdirs c b = (mid, none) → Spares P file path mid) ↔
        ∀ i ≤ n, Spares P file path ((fill way)^[i] k))
  | [], a, k, c, n, hWay, hNames, hPath, _ => by
    have hFound : k.lookup way = .found c := lookup_of_walk hWay hNames
    have hNone : k.touched false way = none := by simp [touched, hFound]
    rw [forall_fills_self hNone]
    simp only [Makes, mkdirs, true_and, Prod.mk.injEq, ite_eq_left_iff, reduceCtorEq, imp_false,
      not_not, and_imp]
    by_cases hDir : k.node c = some .dir
    · exact ⟨fun h => h k rfl hDir, by rintro h _ rfl -; exact h⟩
    · refine iff_of_true (fun _ _ hNot => absurd hNot hDir) (spares_none ?_)
      rw [List.append_nil] at hPath
      have hLookup := lookup_of_walk hWay hPath
      cases tail with
      | nil =>
        rw [walk, walkWith] at hLookup
        cases file with
        | false => simp [touched, hLookup]
        | true => exact absurd rfl (hTail rfl)
      | cons t rest =>
        rw [walk, walkWith, stepWith, if_pos hDir] at hLookup
        simp [touched, hLookup]
  | name :: rest, a, k, c, n, hWay, hNames, hPath, hLength => by
    have hLookup := lookup_of_walk hWay hNames
    have hLookupPath : k.lookup path = k.walk 40 c (name :: (rest ++ tail)) :=
      lookup_of_walk hWay (by rw [hPath]; simp)
    -- without a missing name there is nothing to make
    have hStop : k.touched false way = none → k.touched file path = none → Makes P k c (name :: rest) →
        (∀ mid, k.mkdirs c (name :: rest) ≠ (mid, none)) →
        ((Makes P k c (name :: rest) ∧
            ∀ mid, k.mkdirs c (name :: rest) = (mid, none) → Spares P file path mid) ↔
          ∀ i ≤ n, Spares P file path ((fill way)^[i] k)) := by
      intro hWayNone hPathNone hMakes hNot
      rw [forall_fills_self hWayNone]
      exact iff_of_true ⟨hMakes, fun mid hMid => absurd hMid (hNot mid)⟩ (spares_none hPathNone)
    cases hStep : k.step c name with
    | found c' =>
      have hWay' := walk_snoc hWay hStep
      rw [Makes, mkdirs, hStep]
      exact makes_iff_fills hTail rest hWay' (by rw [hNames]; simp) (by rw [hPath]; simp)
        (Nat.le_of_succ_le hLength)
    | absent c' r =>
      have hAbsent : k.lookup way = .absent c' rest := lookup_absent hWay hStep hNames
      have hAbsentPath : k.lookup path = .absent c' (rest ++ tail) :=
        lookup_absent hWay hStep (by rw [hPath]; simp)
      cases hMkdir : k.mkdir c' with
      | error e =>
        have hNot := mkdir_eq_error hMkdir
        refine hStop ?_ ?_ ?_ ?_
        · simp [touched, hAbsent, hNot]
        · simp [touched, hAbsentPath, hNot]
        · simp [Makes, hStep, hMkdir]
        · simp [mkdirs, hStep, hMkdir]
      | ok k' =>
        obtain ⟨hMakable, log, rfl⟩ := mkdir_eq_ok hMkdir
        obtain ⟨hFill, hWay'⟩ := fill_absent hWay hStep hNames hMakable
        obtain ⟨n, rfl⟩ : ∃ m, n = m + 1 := ⟨n - 1, by rw [List.length_cons] at hLength; omega⟩
        have hRest := makes_iff_fills hTail rest (k := { k.withNode c' .dir with log })
          (by rw [walk_log]; exact hWay') (by rw [hNames]; simp) (by rw [hPath]; simp)
          (n := n) (Nat.le_of_succ_le_succ hLength)
        simp only [fills_log, spares_log] at hRest
        rw [forall_fills_succ, hFill, ← hRest, Makes, mkdirs, hStep]
        simp only [hMkdir]
        rw [and_assoc]
        refine and_congr_left fun _ => ?_
        simp [Spares, touched, hAbsentPath, hMakable]
    | dangling c' =>
      have hDangling : k.stepWith (k.walk 39) c name = .dangling c' := hStep
      rw [walk, walkWith, hDangling] at hLookup hLookupPath
      refine hStop ?_ ?_ ?_ ?_
      · dsimp only at hLookup
        split at hLookup <;> simp [touched, hLookup]
      · dsimp only at hLookupPath
        split at hLookupPath
        · next hEnd =>
          cases file with
          | false => simp [touched, hLookupPath]
          | true => exact absurd (List.append_eq_nil_iff.mp hEnd).2 (hTail rfl)
        · simp [touched, hLookupPath]
      · simp [Makes, hStep]
      · simp [mkdirs, hStep]
    | fail e =>
      have hFail : k.stepWith (k.walk 39) c name = .fail e := hStep
      rw [walk, walkWith, hFail] at hLookup hLookupPath
      refine hStop ?_ ?_ ?_ ?_
      · simp [touched, hLookup]
      · simp [touched, hLookupPath]
      · simp [Makes, hStep]
      · simp [mkdirs, hStep]

/-- The directories that are there at the end are those of the lookups. -/
theorem mkdirs_fills : ∀ (b : List Str) {a : List Str} {k mid : Kernel} {c : Location} {n : Nat},
    k.walk 40 [] a = .found c → way.names = a ++ b → b.length ≤ n →
    k.mkdirs c b = (mid, none) →
      (∃ log, mid = { (fill way)^[n] k with log }) ∧
        ∃ d, mid.lookup way = .found d ∧ mid.node d = some .dir
  | [], a, k, mid, c, n, hWay, hNames, _, hMkdirs => by
    have hFound : k.lookup way = .found c := lookup_of_walk hWay hNames
    have hNone : k.touched false way = none := by simp [touched, hFound]
    simp only [mkdirs, Prod.mk.injEq, ite_eq_left_iff, reduceCtorEq, imp_false, not_not] at hMkdirs
    obtain ⟨rfl, hDir⟩ := hMkdirs
    exact ⟨⟨k.log, by rw [Function.iterate_fixed (fill_eq_self hNone)]⟩, c, hFound, hDir⟩
  | name :: rest, a, k, mid, c, n, hWay, hNames, hLength, hMkdirs => by
    rw [mkdirs] at hMkdirs
    cases hStep : k.step c name with
    | found c' =>
      have hWay' := walk_snoc hWay hStep
      rw [hStep] at hMkdirs
      exact mkdirs_fills rest hWay' (by rw [hNames]; simp) (Nat.le_of_succ_le hLength) hMkdirs
    | absent c' r =>
      simp only [hStep] at hMkdirs
      cases hMkdir : k.mkdir c' with
      | error e => simp [hMkdir] at hMkdirs
      | ok k' =>
        simp only [hMkdir] at hMkdirs
        obtain ⟨hMakable, log, rfl⟩ := mkdir_eq_ok hMkdir
        obtain ⟨hFill, hWay'⟩ := fill_absent hWay hStep hNames hMakable
        obtain ⟨n, rfl⟩ : ∃ m, n = m + 1 := ⟨n - 1, by rw [List.length_cons] at hLength; omega⟩
        obtain ⟨⟨log', hMid⟩, hEnd⟩ := mkdirs_fills rest (k := { k.withNode c' .dir with log })
          (by rw [walk_log]; exact hWay') (by rw [hNames]; simp) (n := n)
          (Nat.le_of_succ_le_succ hLength) hMkdirs
        refine ⟨⟨log', ?_⟩, hEnd⟩
        rw [hMid, fills_log, Function.iterate_succ_apply, hFill]
    | dangling c' => simp [hStep] at hMkdirs
    | fail e => simp [hStep] at hMkdirs

theorem createDirectories_complete {mid : Kernel} (h : k.createDirectories way = (mid, none)) :
    (∃ log, mid = { k.complete way with log }) ∧
      ∃ d, mid.lookup way = .found d ∧ mid.node d = some .dir :=
  mkdirs_fills way.names (a := []) rfl rfl (Nat.le_refl _) h

theorem makes_iff_fills_dir :
    Makes P k [] path.names ↔ Fills P false path path k := by
  have hFills : _ ↔ ∀ i ≤ path.names.length, Spares P false path ((fill path)^[i] k) :=
    makes_iff_fills (fun h => by cases h) path.names (a := []) (k := k) (c := []) rfl rfl
      (List.append_nil _).symm (Nat.le_refl _)
  rw [Fills, ← hFills]
  refine (and_iff_left fun mid hMid => ?_).symm
  obtain ⟨-, d, hFound, -⟩ := createDirectories_complete hMid
  exact spares_none (by simp [touched, hFound])

theorem writable_iff {c : Location} :
    k.writable c = true ↔ ∃ m, k.cover c = some m ∧ m.options.ro = false := by
  simp [writable, Option.any_eq_true]

theorem touched_iff_opened {c : Location} (hNames : path.names ≠ [])
    (hLast : ∀ c' name rest, k.lookup path ≠ .absent c' (name :: rest)) :
    k.touched true path = some c ↔ Opened k path c := by
  unfold touched Opened
  cases hLookup : k.lookup path with
  | found c' =>
    simp only [Bool.true_and, hNames, ne_eq, not_false_eq_true, decide_true, Bool.and_true,
      Bool.and_eq_true, decide_eq_true_eq, Option.ite_none_right_eq_some, writable_iff,
      Option.some.injEq, Lookup.found.injEq, reduceCtorEq, or_self, false_and, or_false]
    constructor
    · rintro ⟨⟨hFile, m, hCover, hRo⟩, rfl⟩
      exact ⟨m, hCover, hRo, rfl, hFile⟩
    · rintro ⟨m, hCover, hRo, rfl, hFile⟩
      exact ⟨⟨hFile, m, hCover, hRo⟩, rfl⟩
  | absent c' rest =>
    cases rest with
    | cons name rest => exact absurd hLookup (hLast c' name rest)
    | nil =>
      simp only [Option.ite_none_right_eq_some, makable_iff, Option.some.injEq, reduceCtorEq,
        false_and, Lookup.absent.injEq, and_true, or_false, false_or]
      constructor
      · rintro ⟨⟨m, hCover, hRo, hProc⟩, rfl⟩
        exact ⟨m, hCover, hRo, rfl, hProc⟩
      · rintro ⟨m, hCover, hRo, rfl, hProc⟩
        exact ⟨⟨m, hCover, hRo, hProc⟩, rfl⟩
  | dangling c' =>
    simp only [Bool.true_and, Option.ite_none_right_eq_some, makable_iff, Option.some.injEq,
      reduceCtorEq, false_and, Lookup.dangling.injEq, false_or]
    constructor
    · rintro ⟨⟨m, hCover, hRo, hProc⟩, rfl⟩
      exact ⟨m, hCover, hRo, rfl, hProc⟩
    · rintro ⟨m, hCover, hRo, rfl, hProc⟩
      exact ⟨⟨m, hCover, hRo, hProc⟩, rfl⟩
  | fail e => simp

/-- In a directory that is there, what `open` leaves is at the end of the lookup. -/
theorem opens_iff_spares {d : Location} (hWay : k.lookup path.parentPath = .found d)
    (hDir : k.node d = some .dir) : Opens P k path ↔ Spares P true path k := by
  by_cases hNames : path.names = []
  · -- the root is no file
    have hSame : path.parentPath.names = path.names := by simp [FsPath.parentPath, hNames]
    have hFound : k.lookup path = .found d := by rw [← hWay, lookup, lookup, hSame]
    refine iff_of_true (fun c hOpened => ?_) (spares_none (by simp [touched, hFound, hDir]))
    have hFile := ((opened_of_found hFound c).mp hOpened).2.1
    rw [hDir] at hFile
    cases hFile
  · have hSplit : path.names = path.parentPath.names ++ [path.names.getLast hNames] :=
      (List.dropLast_append_getLast hNames).symm
    have hStep : k.lookup path = k.walk 40 d [path.names.getLast hNames] :=
      lookup_of_walk hWay hSplit
    have hLast : ∀ c name rest, k.lookup path ≠ .absent c (name :: rest) := by
      intro c name rest hAbsent
      rw [hStep, walk, walkWith] at hAbsent
      split at hAbsent
      · cases hAbsent
      · cases hAbsent
      · split at hAbsent <;> cases hAbsent
      · cases hAbsent
    simp only [Opens, Spares, ← touched_iff_opened hNames hLast, Option.mem_def]

theorem makes_iff_fills_file :
    (Makes P k [] path.parentPath.names ∧
        ∀ mid, k.createDirectories path.parentPath = (mid, none) → Opens P mid path) ↔
      Fills P true path.parentPath path k := by
  have hOpens : ∀ mid, k.createDirectories path.parentPath = (mid, none) →
      (Opens P mid path ↔ Spares P true path mid) := by
    intro mid hMid
    obtain ⟨-, d, hFound, hDir⟩ := createDirectories_complete hMid
    exact opens_iff_spares hFound hDir
  have hMakes : (Makes P k [] path.parentPath.names ∧
      ∀ mid, k.createDirectories path.parentPath = (mid, none) → Opens P mid path) ↔
      (Makes P k [] path.parentPath.names ∧
        ∀ mid, k.createDirectories path.parentPath = (mid, none) → Spares P true path mid) :=
    and_congr_right fun _ => forall_congr' fun mid => forall_congr' fun hMid => hOpens mid hMid
  rw [hMakes]
  by_cases hNames : path.names = []
  · have hWay : path.parentPath.names = [] := by simp [FsPath.parentPath, hNames]
    have hNone : ∀ k' : Kernel, Spares P true path k' := fun k' =>
      spares_none (by simp [touched, lookup, walk, walkWith, hNames])
    rw [hWay]
    exact iff_of_true ⟨trivial, fun mid _ => hNone mid⟩ fun i _ => hNone _
  · have hSplit : path.names = [] ++ path.parentPath.names ++ [path.names.getLast hNames] :=
      (List.dropLast_append_getLast hNames).symm
    exact makes_iff_fills (by simp) path.parentPath.names (a := []) rfl rfl hSplit (Nat.le_refl _)

end

end Kernel

-- ---------------------------------------------------------------------------
-- The mount point of a bind
-- ---------------------------------------------------------------------------

namespace Bind

variable (P : Place → Prop) (root work : FsPath)

/-- In the kernel it finds, what `b` makes for its mount point is at places with
`P`: for a directory the missing names on the way, for a file those above it and the
file. -/
def FillsOnly (b : Bind) (k : Kernel) : Prop :=
  ∀ b' ∈ (b.setPaths root work).toOption,
    (k.status b'.fromPath = some .dir → k.Fills P false b'.toPath b'.toPath) ∧
      (k.status b'.fromPath = some .file → k.Fills P true b'.toPath.parentPath b'.toPath)

instance [DecidablePred P] (b : Bind) (k : Kernel) : Decidable (b.FillsOnly P root work k) :=
  inferInstanceAs (Decidable (∀ b' ∈ (b.setPaths root work).toOption, _ ∧ _))

variable {P root work}

theorem mem_setPaths {b b' : Bind} :
    b' ∈ (b.setPaths root work).toOption ↔ b.setPaths root work = .ok b' := by
  cases b.setPaths root work <;> simp [Except.toOption, eq_comm]

theorem touchesOnly_iff_fills (b : Bind) (k : Kernel) :
    b.TouchesOnly P root work k ↔ b.FillsOnly P root work k := by
  unfold TouchesOnly FillsOnly
  simp only [mem_setPaths]
  refine forall_congr' fun b' => forall_congr' fun _ => ?_
  cases k.status b'.fromPath with
  | none => simp
  | some n =>
    cases n with
    | dir => simpa using makes_iff_fills_dir
    | file => simpa using makes_iff_fills_file
    | _ => simp

/-- Where a list of binds makes and truncates files. -/
theorem mountAll_logsOnly_iff_fills (binds : List Bind) (k : Kernel) :
    LogsOnly P k (mountAll root work binds k).1 ↔
      ∀ s ∈ mountSteps root work binds k, s.1.FillsOnly P root work s.2 := by
  rw [mountAll_logsOnly_iff]
  exact forall_congr' fun s => forall_congr' fun _ => touchesOnly_iff_fills s.1 s.2

end Bind

end Libsbox
