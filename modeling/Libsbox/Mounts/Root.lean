import Libsbox.Mounts.Steps

/-!
# libsbox — the tree that prepare_root builds

`prepare_root` mounts an empty tmpfs at `root_` and furnishes it: `proc`, `work`,
`tmp` and the mount points of the standard binds, each a single name below the
root. `Furnished` is what every step keeps: the tmpfs has nothing but such names,
and every mount made since lies below one of them. So the way to `root_` stays
what it was when the tmpfs was empty, and `/work` and `/tmp` are directories of
the tmpfs with nothing in them.

## Results

* `prepareRoot_prepared` — the box that `prepare_root` leaves.
-/

namespace Libsbox

open CMemory Kernel

-- ---------------------------------------------------------------------------
-- Paths that begin with the root
-- ---------------------------------------------------------------------------

/-- The names of a path without a trailing slash. -/
def FsPath.base (p : FsPath) : List Str :=
  if p.names.getLast? = some [] then p.names.dropLast else p.names

theorem FsPath.append_names (p : FsPath) {q : FsPath} (hRelative : q.absolute = false)
    (hNames : q.names ≠ []) : (p / q).names = p.base ++ q.names := by
  change (FsPath.append p q).names = _
  simp [FsPath.append, FsPath.base, hRelative, hNames]

namespace Kernel

variable {k k' : Kernel}

theorem walkWith_append_found {follow : Location → List Str → Lookup} {b : List Str}
    {c' : Location} : ∀ {a : List Str} {c : Location},
    k.walkWith follow c (a ++ b) = .found c' ↔
      ∃ mid, k.walkWith follow c a = .found mid ∧ k.walkWith follow mid b = .found c'
  | [], c => by simp [walkWith]
  | name :: a, c => by
    rw [List.cons_append, walkWith_cons_found]
    simp only [walkWith_append_found, walkWith_cons_found]
    constructor
    · rintro ⟨mid, hStep, mid', hWalk, hRest⟩
      exact ⟨mid', ⟨mid, hStep, hWalk⟩, hRest⟩
    · rintro ⟨mid', ⟨mid, hStep, hWalk⟩, hRest⟩
      exact ⟨mid, hStep, mid', hWalk, hRest⟩

/-- A trailing slash leads nowhere else. -/
theorem walk_base {path : FsPath} {c : Location} (h : k.lookup path = .found c) :
    k.walk 40 [] path.base = .found c := by
  unfold FsPath.base
  split
  · next hLast =>
    have hNames : path.names.dropLast ++ [[]] = path.names := List.dropLast_append_getLast? [] hLast
    rw [lookup, ← hNames] at h
    obtain ⟨mid, hWalk, hSlash⟩ := walkWith_append_found.mp h
    obtain ⟨mid', hStep, hEnd⟩ := walkWith_cons_found.mp hSlash
    obtain rfl := Lookup.found.inj hEnd
    obtain rfl : mid = mid' := by
      unfold stepWith at hStep
      split at hStep
      · cases hStep
      · simpa using hStep
    exact hWalk
  · exact h

/-- The names that are there already are only walked. -/
theorem walk_append {b : List Str} : ∀ {a : List Str} {c c' : Location},
    k.walk 40 c a = .found c' → k.walk 40 c (a ++ b) = k.walk 40 c' b
  | [], _, _, h => by
    obtain rfl := Lookup.found.inj h
    rfl
  | name :: a, c, c', h => by
    obtain ⟨mid, hStep, hRest⟩ := walkWith_cons_found.mp h
    rw [List.cons_append, walk, walkWith, hStep]
    exact walk_append hRest

theorem mkdirs_append {b : List Str} : ∀ {a : List Str} {c c' : Location},
    k.walk 40 c a = .found c' → k.mkdirs c (a ++ b) = k.mkdirs c' b
  | [], _, _, h => by
    obtain rfl := Lookup.found.inj h
    rfl
  | name :: a, c, c', h => by
    obtain ⟨mid, hStep, hRest⟩ := walkWith_cons_found.mp h
    rw [List.cons_append, mkdirs, step, hStep]
    exact mkdirs_append hRest

/-- `create_directories` of one name leaves a directory there. -/
theorem mkdirs_singleton_dir {c c' : Location} {name : Str}
    (hStep : k.step c name = .found c' ∨ ∃ r, k.step c name = .absent c' r)
    (hOk : (k.mkdirs c [name]).2 = none) : (k.mkdirs c [name]).1.node c' = some .dir := by
  have hEnd : ∀ k' : Kernel, (k'.mkdirs c' []).2 = none → (k'.mkdirs c' []).1.node c' = some .dir := by
    intro k' h
    simp only [mkdirs, ite_eq_left_iff, reduceCtorEq, imp_false, not_not] at h ⊢
    exact h
  rw [mkdirs] at hOk ⊢
  rcases hStep with hStep | ⟨r, hStep⟩
  · rw [hStep] at hOk ⊢
    exact hEnd k hOk
  · rw [hStep] at hOk ⊢
    dsimp only at hOk ⊢
    cases hMkdir : k.mkdir c' with
    | error e => rw [hMkdir] at hOk; cases hOk
    | ok k' =>
      rw [hMkdir] at hOk
      exact hEnd k' hOk

theorem makes_append {P : Place → Prop} {b : List Str} : ∀ {a : List Str} {c c' : Location},
    k.walk 40 c a = .found c' → (Makes P k c (a ++ b) ↔ Makes P k c' b)
  | [], _, _, h => by
    obtain rfl := Lookup.found.inj h
    rfl
  | name :: a, c, c', h => by
    obtain ⟨mid, hStep, hRest⟩ := walkWith_cons_found.mp h
    rw [List.cons_append, Makes, step, hStep]
    exact makes_append hRest

theorem cover_append (new : List Mount) {c : Location} (h : k'.mounts = new ++ k.mounts)
    (hApart : ∀ m ∈ new, ¬ m.target <+: c) : k'.cover c = k.cover c := by
  rw [cover, cover, h, List.find?_append, List.find?_eq_none.mpr]
  · simp
  · intro m hm
    simpa using hApart m hm

theorem mount_target_found {source path : FsPath} {fstype : Str} {flags : MountFlags}
    (h : k.mount source path fstype flags = .ok k') : ∃ t, k.lookup path = .found t := by
  unfold Kernel.mount at h
  cases hLookup : k.lookup path with
  | found t => exact ⟨t, rfl⟩
  | _ => simp [hLookup] at h

/-- A new mount, and what is under it. -/
theorem mount_new_eq_ok {source path : FsPath} {fstype : Str}
    (h : k.mount source path fstype {} = .ok k') :
    ∃ t, k.lookup path = .found t ∧ k.newMount t fstype {} = .ok k' := by
  obtain ⟨t, hLookup⟩ := mount_target_found h
  simp only [Kernel.mount, hLookup, Bool.false_eq_true, if_false] at h
  exact ⟨t, hLookup, h⟩

theorem newMount_dir {t : Location} {fstype : Str} {options : MountOptions}
    (h : k.newMount t fstype options = .ok k') : k.node t = some .dir := by
  unfold newMount at h
  split at h
  · cases h
  · next hDir => exact not_not.mp hDir

/-- A remount without flags of a mount without options changes nothing. -/
theorem remount_eq {source path : FsPath} {fstype : Str} {t : Location} {m : Mount}
    {below : List Mount} (hLookup : k.lookup path = .found t) (hMounts : k.mounts = m :: below)
    (hTarget : m.target = t) (hOptions : m.options = {})
    (h : k.mount source path fstype { msRemount := true } = .ok k') : k' = k := by
  subst hTarget
  unfold Kernel.mount at h
  simp only [hLookup, if_true, hMounts, setOptions] at h
  have hSame : ({ m with options := {} } : Mount) = m := by rw [← hOptions]
  have hNew : k' = { k with mounts := { m with options := {} } :: below } := (Except.ok.inj h).symm
  rw [hNew, hSame, ← hMounts]

end Kernel

-- ---------------------------------------------------------------------------
-- The empty box and what is put into it
-- ---------------------------------------------------------------------------

/-- A single name that is not special. -/
def Plain (name : Str) : Prop := name ≠ [] ∧ name ≠ lit "." ∧ name ≠ lit ".."

instance (name : Str) : Decidable (Plain name) := inferInstanceAs (Decidable (_ ∧ _))

/-- The box when its tmpfs has just been mounted at `top`. -/
structure EmptyBox (root : FsPath) (top : Location) (e : Kernel) : Prop where
  way : e.walk 40 [] root.base = .found top
  mounts : ∃ options below, e.mounts = ⟨top, .box, [], options⟩ :: below ∧
    ∀ m ∈ below, ∃ n, m.fs = .host n
  dir : e.nodes ⟨.box, []⟩ = some .dir
  empty : ∀ path, path ≠ [] → e.nodes ⟨.box, path⟩ = none

/-- A kernel in which the empty box `e` has got single names, and mounts at or
below those in `used`. -/
structure Furnished (top : Location) (e : Kernel) (used : List Str) (k : Kernel) : Prop where
  keeps : ∀ p n, p.fs ≠ .proc → e.nodes p = some n → k.nodes p = some n
  names : ∀ path n, k.nodes ⟨.box, path⟩ = some n →
    path = [] ∨ (∃ name, path = [name]) ∧ (n = .dir ∨ n = .file)
  mounts : ∃ new, k.mounts = new ++ e.mounts ∧ ∀ m ∈ new, ∃ name ∈ used, top ++ [name] <+: m.target

section

variable {root : FsPath} {top : Location} {e k k' : Kernel} {used : List Str} {name : Str}

theorem EmptyBox.cover_below (h : EmptyBox root top e) {c : Location} (hBelow : top <+: c) :
    ∃ options, e.cover c = some ⟨top, .box, [], options⟩ := by
  obtain ⟨options, below, hMounts, -⟩ := h.mounts
  exact ⟨options, by simp [cover, hMounts, hBelow]⟩

/-- Nothing exists strictly below the root of an empty box. -/
theorem EmptyBox.not_below (h : EmptyBox root top e) {c : Location} {n : Node}
    (hNode : e.node c = some n) (hBelow : top <+: c) : c = top := by
  obtain ⟨options, hCover⟩ := h.cover_below hBelow
  obtain ⟨rest, rfl⟩ := hBelow
  by_contra hNe
  have hRest : rest ≠ [] := fun hNil => hNe (by rw [hNil, List.append_nil])
  have hNone := h.empty rest hRest
  simp [node, place, hCover, hNone] at hNode

/-- What exists in the empty box is not hidden by what is put into it. -/
theorem Furnished.agrees (hEmpty : EmptyBox root top e) (h : Furnished top e used k) :
    Agrees e k := by
  intro c n hNode
  obtain ⟨new, hMounts, hNew⟩ := h.mounts
  have hCover : k.cover c = e.cover c := by
    refine cover_append new hMounts fun m hm hPrefix => ?_
    obtain ⟨used, -, hUsed⟩ := hNew m hm
    have hTop := hEmpty.not_below hNode ((List.prefix_append _ _).trans (hUsed.trans hPrefix))
    have hLength := (hUsed.trans hPrefix).length_le
    rw [hTop, List.length_append, List.length_singleton] at hLength
    omega
  obtain ⟨p, hPlace, hp⟩ := Option.bind_eq_some_iff.mp hNode
  have hFs : p.fs ≠ .proc := by
    obtain ⟨m, hFind, rfl⟩ := Option.map_eq_some_iff.mp hPlace
    obtain ⟨options, below, hTable, hHost⟩ := hEmpty.mounts
    have hMem := List.mem_of_find?_eq_some hFind
    rw [hTable] at hMem
    rcases List.mem_cons.mp hMem with rfl | hMem
    · simp
    · obtain ⟨i, hi⟩ := hHost m hMem
      simp [hi]
  rw [node, place, hCover]
  exact Option.bind_eq_some_iff.mpr ⟨p, hPlace, h.keeps p n hFs hp⟩

theorem Furnished.way (hEmpty : EmptyBox root top e) (h : Furnished top e used k) :
    k.walk 40 [] root.base = .found top :=
  walk_found_mono (h.agrees hEmpty) hEmpty.way

theorem Furnished.node_top (hEmpty : EmptyBox root top e) (h : Furnished top e used k) :
    k.node top = some .dir := by
  refine h.agrees hEmpty top .dir ?_
  obtain ⟨options, hCover⟩ := hEmpty.cover_below (List.prefix_rfl (l := top))
  simp [node, place, hCover, hEmpty.dir]

/-- A name that nothing is mounted at is in the tmpfs. -/
theorem Furnished.place_name (hEmpty : EmptyBox root top e) (h : Furnished top e used k)
    (hUnused : name ∉ used) : k.place (top ++ [name]) = some ⟨.box, [name]⟩ := by
  obtain ⟨new, hMounts, hNew⟩ := h.mounts
  obtain ⟨options, hCover⟩ := hEmpty.cover_below (List.prefix_append top [name])
  have hSame : k.cover (top ++ [name]) = e.cover (top ++ [name]) := by
    refine cover_append new hMounts fun m hm hPrefix => hUnused ?_
    obtain ⟨name', hUsed, hBelow⟩ := hNew m hm
    have hEq := (hBelow.trans hPrefix).eq_of_length (by simp)
    have hName : name' = name := by simpa using hEq
    exact hName ▸ hUsed
  simp [place, hSame, hCover]

theorem step_plain {c : Location} (hDir : k.node c = some .dir) (hPlain : Plain name) :
    k.step c name =
      match k.node (c ++ [name]) with
      | none => .absent (c ++ [name]) []
      | some (.symlink target) =>
        match k.walk 39 (if target.absolute then [] else c) target.names with
        | .absent c' [] => .dangling c'
        | .absent _ _ => .fail .noEntry
        | l => l
      | some _ => .found (c ++ [name]) := by
  obtain ⟨hNil, hDot, hUp⟩ := hPlain
  rw [step, stepWith, if_neg (by simp [hDir]), if_neg (by simp [hNil, hDot])]
  exact if_neg hUp

/-- A name in the tmpfs leads to itself when it is there. -/
theorem Furnished.step_name (hEmpty : EmptyBox root top e) (h : Furnished top e used k)
    (hUnused : name ∉ used) (hPlain : Plain name) :
    (k.nodes ⟨.box, [name]⟩ = none ∧ k.step top name = .absent (top ++ [name]) []) ∨
      ∃ n, k.nodes ⟨.box, [name]⟩ = some n ∧ k.step top name = .found (top ++ [name]) := by
  have hNode : k.node (top ++ [name]) = k.nodes ⟨.box, [name]⟩ := by
    simp [node, h.place_name hEmpty hUnused]
  rw [step_plain (h.node_top hEmpty) hPlain, hNode]
  cases hBox : k.nodes ⟨.box, [name]⟩ with
  | none => exact .inl ⟨rfl, rfl⟩
  | some n =>
    refine .inr ⟨n, rfl, ?_⟩
    rcases h.names [name] n hBox with hNil | ⟨-, rfl | rfl⟩
    · cases hNil
    · rfl
    · rfl

theorem Furnished.lookup_name (hEmpty : EmptyBox root top e) (h : Furnished top e used k)
    (hUnused : name ∉ used) (hPlain : Plain name) {path : FsPath}
    (hNames : path.names = root.base ++ [name]) :
    (k.nodes ⟨.box, [name]⟩ = none ∧ k.lookup path = .absent (top ++ [name]) []) ∨
      ∃ n, k.nodes ⟨.box, [name]⟩ = some n ∧ k.lookup path = .found (top ++ [name]) := by
  have hLookup : k.lookup path = k.walk 40 top [name] := by
    rw [lookup, hNames]
    exact walk_append (h.way hEmpty)
  rw [hLookup, walk, walkWith]
  rcases h.step_name hEmpty hUnused hPlain with ⟨hNone, hStep⟩ | ⟨n, hSome, hStep⟩
  · rw [step] at hStep
    exact .inl ⟨hNone, by rw [hStep]⟩
  · rw [step] at hStep
    refine .inr ⟨n, hSome, ?_⟩
    rw [hStep]
    rfl

/-- New nodes in the box are single names. -/
theorem Furnished.grows (h : Furnished top e used k) (hGrows : Grows k k')
    (hLogs : LogsOnly (fun p => p.fs = .box → p = ⟨.box, [name]⟩) k k') :
    Furnished top e used k' := by
  refine ⟨fun p n hFs hp => hGrows.keeps p n (h.keeps p n hFs hp), fun path n hp => ?_, ?_⟩
  · by_cases hSame : k'.nodes ⟨.box, path⟩ = k.nodes ⟨.box, path⟩
    · rw [hSame] at hp
      exact h.names path n hp
    · obtain ⟨ev, hMem, hPlace⟩ := hGrows.nodes _ hSame
      have hName := hLogs ev hMem (by rw [hPlace])
      rw [hPlace] at hName
      obtain rfl : path = [name] := by simpa using hName
      rcases hGrows.makes _ n hp with hOld | hKind
      · exact h.names [name] n hOld
      · exact .inr ⟨⟨name, rfl⟩, hKind⟩
  · rw [hGrows.mounts]
    exact h.mounts

/-- On the way to a name below the root only the name can be missing. -/
theorem Furnished.makes_name (hEmpty : EmptyBox root top e) (h : Furnished top e used k)
    (hUnused : name ∉ used) (hPlain : Plain name) :
    Makes (fun p => p.fs = .box → p = ⟨.box, [name]⟩) k [] (root.base ++ [name]) := by
  have hPlace := h.place_name hEmpty hUnused
  rw [makes_append (h.way hEmpty), Makes]
  rcases h.step_name hEmpty hUnused hPlain with ⟨-, hStep⟩ | ⟨n, -, hStep⟩
  · rw [hStep]
    dsimp only
    split
    · exact ⟨fun p hp _ => by simpa [hPlace] using hp.symm, trivial⟩
    · trivial
  · rw [hStep]
    trivial

/-- `create_directories` of a name below the root. -/
theorem Furnished.createDirectory (hEmpty : EmptyBox root top e) (h : Furnished top e used k)
    (hUnused : name ∉ used) (hPlain : Plain name) {path : FsPath}
    (hNames : path.names = root.base ++ [name]) :
    Furnished top e used (k.createDirectories path).1 ∧
      ((k.createDirectories path).2 = none →
        (k.createDirectories path).1.nodes ⟨.box, [name]⟩ = some .dir) := by
  have hGrows : Grows k (k.createDirectories path).1 := mkdirs_grows _ k []
  have hLogs : LogsOnly (fun p => p.fs = .box → p = ⟨.box, [name]⟩) k
      (k.createDirectories path).1 := by
    rw [createDirectories, mkdirs_logsOnly_iff, hNames]
    exact h.makes_name hEmpty hUnused hPlain
  have hFurnished := h.grows hGrows hLogs
  refine ⟨hFurnished, fun hOk => ?_⟩
  have hPlace' := hFurnished.place_name hEmpty hUnused
  have hEnd : k.createDirectories path = k.mkdirs top [name] := by
    rw [createDirectories, hNames, mkdirs_append (h.way hEmpty)]
  rw [hEnd] at hOk hPlace' ⊢
  have hDir : (k.mkdirs top [name]).1.node (top ++ [name]) = some .dir := by
    rcases h.step_name hEmpty hUnused hPlain with ⟨-, hStep⟩ | ⟨n, -, hStep⟩
    · exact mkdirs_singleton_dir (.inr ⟨_, hStep⟩) hOk
    · exact mkdirs_singleton_dir (.inl hStep) hOk
  simpa [node, hPlace'] using hDir

/-- A mount at or below a name. -/
theorem Furnished.mounted (h : Furnished top e used k) {new : List Mount}
    (hBelow : ∀ m ∈ new, top ++ [name] <+: m.target) :
    Furnished top e (name :: used) { k with mounts := new ++ k.mounts } := by
  obtain ⟨old, hMounts, hOld⟩ := h.mounts
  refine ⟨h.keeps, h.names, new ++ old, by simp [hMounts], fun m hm => ?_⟩
  rcases List.mem_append.mp hm with hNew | hm
  · exact ⟨name, List.mem_cons_self, hBelow m hNew⟩
  · obtain ⟨name', hUsed, hPrefix⟩ := hOld m hm
    exact ⟨name', List.mem_cons_of_mem _ hUsed, hPrefix⟩

theorem Furnished.mono (h : Furnished top e used k) : Furnished top e (name :: used) k := by
  obtain ⟨new, hMounts, hNew⟩ := h.mounts
  refine ⟨h.keeps, h.names, new, hMounts, fun m hm => ?_⟩
  obtain ⟨name', hUsed, hPrefix⟩ := hNew m hm
  exact ⟨name', List.mem_cons_of_mem _ hUsed, hPrefix⟩

/-- The mount point of a bind below a name. -/
theorem Furnished.touches (hEmpty : EmptyBox root top e) (h : Furnished top e used k)
    (hUnused : name ∉ used) (hPlain : Plain name) {work : FsPath} {b : Bind}
    (hPath : ∀ b', b.setPaths root work = .ok b' → b'.toPath.names = root.base ++ [name]) :
    b.TouchesOnly (fun p => p.fs = .box → p = ⟨.box, [name]⟩) root work k := by
  intro b' hPaths
  have hNames := hPath b' hPaths
  split
  · rw [hNames]
    exact h.makes_name hEmpty hUnused hPlain
  · have hParent : b'.toPath.parentPath.names = root.base ++ [] := by
      simp [FsPath.parentPath, hNames]
    refine ⟨?_, fun mid hMid => ?_⟩
    · rw [hParent]
      exact (makes_append (h.way hEmpty)).mpr trivial
    · obtain rfl : k = mid := by
        rw [createDirectories, hParent, mkdirs_append (h.way hEmpty)] at hMid
        exact (Prod.mk.inj hMid).1
      -- the file is opened at the name
      rintro c ⟨m, -, -, hOpened⟩ p hp -
      have hAt : c = top ++ [name] := by
        rcases h.lookup_name hEmpty hUnused hPlain hNames with ⟨-, hLookup⟩ | ⟨n, -, hLookup⟩
        · simp only [hLookup, Lookup.absent.injEq, reduceCtorEq, or_false, false_and, false_or,
            and_true] at hOpened
          exact hOpened.1.symm
        · simp only [hLookup, Lookup.found.injEq, reduceCtorEq, or_self, false_and, or_false]
            at hOpened
          exact hOpened.1.symm
      rw [hAt, h.place_name hEmpty hUnused] at hp
      exact (Option.some.inj hp).symm
  · trivial

/-- A standard bind below a name. -/
theorem Furnished.bind (hEmpty : EmptyBox root top e) (h : Furnished top e used k)
    (hUnused : name ∉ used) (hPlain : Plain name) {work : FsPath} {b b' : Bind}
    (hInside : b.inside = ⟨true, [name]⟩) (hMount : b.mount root work k = (k', .ok b')) :
    Furnished top e (name :: used) k' ∧ ∀ p n, k.nodes p = some n → k'.nodes p = some n := by
  have hPath : ∀ b'', b.setPaths root work = .ok b'' → b''.toPath.names = root.base ++ [name] := by
    intro b'' hPaths
    unfold Bind.setPaths at hPaths
    split at hPaths
    · cases hPaths
    · obtain rfl := Except.ok.inj hPaths
      have hNames : (⟨true, [name]⟩ : FsPath).relativePath.names = [name] :=
        FsPath.relativePath_names (by simpa using hPlain.1.symm)
      simp only [hInside, if_true]
      rw [FsPath.append_names root rfl (by simp [hNames]), hNames]
  have hLogs := (Bind.mount_logsOnly_iff root work b k).mpr
    (h.touches hEmpty hUnused hPlain hPath)
  rw [hMount] at hLogs
  rcases Bind.mount_outcome root work b k with ⟨err, hDied⟩ | ⟨b'', hPaths, hOutcome⟩
  · rw [hDied] at hMount
    cases hMount
  · rw [hMount] at hOutcome
    cases hOutcome with
    | skipped => exact ⟨h.mono, fun _ _ hp => hp⟩
    | @mounted mid _ _ hGrows hMounted =>
      have hMid := h.grows hGrows (hMounted.logsOnly_iff.mp hLogs)
      have hTarget : hMounted.target = top ++ [name] := by
        have hFound := hMounted.target_found
        rcases hMid.lookup_name hEmpty hUnused hPlain (hPath b'' hPaths) with
          ⟨-, hLookup⟩ | ⟨n, -, hLookup⟩
        · rw [hLookup] at hFound
          cases hFound
        · rw [hLookup] at hFound
          exact (Lookup.found.inj hFound).symm
      have hTable := hMid.mounted fun m hm => hTarget ▸ hMounted.new_below m hm
      rw [hMounted.result_eq]
      exact ⟨hTable, hGrows.keeps⟩

/-- Binds below distinct names. -/
theorem Furnished.bindAll (hEmpty : EmptyBox root top e) {work : FsPath} :
    ∀ {names : List Str} {binds bs : List Bind} {used : List Str} {k k' : Kernel},
      Furnished top e used k → binds.map Bind.inside = names.map (fun name => ⟨true, [name]⟩) →
      (∀ name ∈ names, Plain name ∧ name ∉ used) → names.Nodup →
      Bind.mountAll root work binds k = (k', .ok bs) →
      Furnished top e (names.reverse ++ used) k' ∧
        ∀ p n, k.nodes p = some n → k'.nodes p = some n
  | [], binds, _, _, k, k', h, hInside, _, _, hMount => by
    obtain rfl : binds = [] := by simpa using hInside
    obtain ⟨rfl, -⟩ := Prod.mk.inj hMount
    exact ⟨h, fun _ _ hp => hp⟩
  | name :: names, binds, bs, used, k, k', h, hInside, hNames, hNodup, hMount => by
    cases binds with
    | nil => simp at hInside
    | cons b binds =>
      obtain ⟨hFirst, hInside⟩ := List.cons.inj hInside
      obtain ⟨hPlain, hUnused⟩ := hNames name List.mem_cons_self
      obtain ⟨hNot, hNodup⟩ := List.nodup_cons.mp hNodup
      rw [Bind.mountAll] at hMount
      split at hMount
      · cases hMount
      · next mid b' hOne =>
        split at hMount
        · cases hMount
        · next k'' bs' hRest =>
          obtain ⟨rfl, -⟩ := Prod.mk.inj hMount
          obtain ⟨hMid, hKeeps⟩ := h.bind hEmpty hUnused hPlain hFirst hOne
          have hOthers : ∀ name' ∈ names, Plain name' ∧ name' ∉ name :: used := by
            intro name' hMem
            obtain ⟨hPlain', hUnused'⟩ := hNames name' (List.mem_cons_of_mem _ hMem)
            refine ⟨hPlain', fun hUsed => ?_⟩
            rcases List.mem_cons.mp hUsed with rfl | hUsed
            · exact hNot hMem
            · exact hUnused' hUsed
          obtain ⟨hEnd, hKeeps'⟩ := hMid.bindAll hEmpty hInside hOthers hNodup hRest
          refine ⟨?_, fun p n hp => hKeeps' p n (hKeeps p n hp)⟩
          simpa using hEnd

/-- The proc of the box. -/
theorem Furnished.mountProc (hEmpty : EmptyBox root top e) (h : Furnished top e used k)
    (hUnused : name ∉ used) (hPlain : Plain name) {source path : FsPath} {k'' : Kernel}
    (hNames : path.names = root.base ++ [name])
    (hMount : k.mount source path (lit "proc") {} = .ok k')
    (hRemount : k'.mount source path (lit "proc") { msRemount := true } = .ok k'') :
    Furnished top e (name :: used) k'' := by
  obtain ⟨t, hLookup, hNew⟩ := mount_new_eq_ok hMount
  have hDir := newMount_dir hNew
  obtain rfl : t = top ++ [name] := by
    rcases h.lookup_name hEmpty hUnused hPlain hNames with ⟨-, hAt⟩ | ⟨n, -, hAt⟩
    · rw [hAt] at hLookup
      cases hLookup
    · rw [hAt] at hLookup
      exact (Lookup.found.inj hLookup).symm
  have hProc : k' = { k with
      nodes := Function.update k.nodes ⟨.proc, []⟩ (some .dir)
      mounts := ⟨top ++ [name], .proc, [], {}⟩ :: k.mounts } := by
    rw [newMount, if_neg (not_not.mpr hDir), if_neg (by decide), if_pos rfl] at hNew
    exact (Except.ok.inj hNew).symm
  have hFurnished : Furnished top e (name :: used) k' := by
    rw [hProc]
    have hTable : Furnished top e (name :: used)
        { k with mounts := [⟨top ++ [name], .proc, [], {}⟩] ++ k.mounts } :=
      h.mounted (by simp)
    refine ⟨fun p n hFs hp => ?_, fun path n hp => ?_, hTable.mounts⟩
    · change Function.update k.nodes ⟨.proc, []⟩ (some .dir) p = some n
      rw [Function.update_of_ne (fun hEq => hFs (by rw [hEq]))]
      exact h.keeps p n hFs hp
    · change Function.update k.nodes ⟨.proc, []⟩ (some .dir) ⟨.box, path⟩ = some n at hp
      rw [Function.update_of_ne (by simp)] at hp
      exact h.names path n hp
  have hAgain : k'.lookup path = .found (top ++ [name]) := by
    have hNode : k'.node (top ++ [name]) = some .dir := by
      simp [hProc, node, place, cover]
    rw [lookup, hNames, walk_append (hFurnished.way hEmpty)]
    refine walkWith_cons_found.mpr ⟨top ++ [name], ?_, rfl⟩
    have hStep := step_plain (hFurnished.node_top hEmpty) hPlain
    rw [hNode] at hStep
    exact hStep
  rw [remount_eq hAgain (by rw [hProc]) rfl rfl hRemount]
  exact hFurnished

end

/-- A fresh tmpfs at the root is an empty box. -/
theorem emptyBox_of_mount {root source : FsPath} {k k' e : Kernel}
    (hHost : ∀ m ∈ k.mounts, ∃ n, m.fs = .host n)
    (hMount : k.mount source root (lit "tmpfs") {} = .ok k')
    (hRemount : k'.mount source root (lit "tmpfs") { msRemount := true } = .ok e) :
    ∃ top, EmptyBox root top e := by
  obtain ⟨top, hLookup, hNew⟩ := mount_new_eq_ok hMount
  have hDir := newMount_dir hNew
  have hTmpfs : k' = { k with
      nodes := fun p => if p.fs = .box then if p.path = [] then some .dir else none else k.nodes p
      mounts := ⟨top, .box, [], {}⟩ :: k.mounts } := by
    rw [newMount, if_neg (not_not.mpr hDir), if_pos rfl] at hNew
    exact (Except.ok.inj hNew).symm
  -- what the tmpfs does not hide is as it was
  have hAgrees : Agrees k' k := by
    intro c n hNode
    by_cases hBelow : top <+: c
    · obtain ⟨rest, rfl⟩ := hBelow
      have hTop : k'.node (top ++ rest) = if rest = [] then some .dir else none := by
        simp [hTmpfs, node, place, cover]
      rw [hTop] at hNode
      split at hNode
      · next hRest => rw [hRest, List.append_nil, hDir, hNode]
      · cases hNode
    · have hCover : k'.cover c = k.cover c :=
        cover_append [⟨top, .box, [], {}⟩] (by rw [hTmpfs]; rfl)
          (List.forall_mem_singleton.mpr hBelow)
      obtain ⟨p, hPlace, hp⟩ := Option.bind_eq_some_iff.mp hNode
      rw [place, hCover] at hPlace
      have hFs : p.fs ≠ .box := by
        obtain ⟨m, hFind, rfl⟩ := Option.map_eq_some_iff.mp hPlace
        obtain ⟨i, hi⟩ := hHost m (List.mem_of_find?_eq_some hFind)
        simp [hi]
      refine Option.bind_eq_some_iff.mpr ⟨p, hPlace, ?_⟩
      rw [hTmpfs] at hp
      simpa [hFs] using hp
  have hFound : k'.lookup root = .found top := by
    obtain ⟨t, hAgain⟩ := mount_target_found hRemount
    have hSame := lookup_found_mono hAgrees hAgain
    rw [hLookup] at hSame
    rwa [Lookup.found.inj hSame]
  rw [remount_eq hFound (by rw [hTmpfs]) rfl rfl hRemount]
  refine ⟨top, walk_base hFound, ⟨{}, k.mounts, by rw [hTmpfs], hHost⟩, ?_, fun path hPath => ?_⟩
  · simp [hTmpfs]
  · simp [hTmpfs, hPath]

-- ---------------------------------------------------------------------------
-- prepare_root
-- ---------------------------------------------------------------------------

/-- The places that `cleanup_root` clears: strictly below `/work` or `/tmp` in the
tmpfs. -/
def Scratch (p : Place) : Prop :=
  p.fs = .box ∧ ∃ dir ∈ [lit "work", lit "tmp"], [dir] <+: p.path ∧ [dir] ≠ p.path

/-- The path leads to the directory `name` of the tmpfs. -/
def LeadsTo (k : Kernel) (path : FsPath) (name : Str) : Prop :=
  ∃ c, k.lookup path = .found c ∧ k.place c = some ⟨.box, [name]⟩

/-- The box as `prepare_root` leaves it. -/
structure Prepared (root : FsPath) (k : Kernel) : Prop where
  work : LeadsTo k (workDir root) (lit "work")
  tmp : LeadsTo k (tmpDir root) (lit "tmp")
  empty : ∀ p, Scratch p → k.nodes p = none

theorem orDieWith_eq_ok {α : Type} {msg : Str} {x : Except Errno α} {a : α}
    (h : orDieWith msg x = .ok a) : x = .ok a := by
  cases x with
  | error e => cases h
  | ok b =>
    obtain rfl := Except.ok.inj h
    rfl

theorem createDirectoriesOrDie_eq_ok {k k' : Kernel} {path : FsPath} {msg : Str}
    (h : createDirectoriesOrDie k path msg = .ok k') :
    k.createDirectories path = (k', none) := by
  unfold createDirectoriesOrDie at h
  split at h
  · next mid hMid =>
    obtain rfl := Except.ok.inj h
    exact hMid
  · cases h

theorem private_eq {k k' : Kernel} {source path : FsPath} {fstype : Str}
    (h : k.mount source path fstype { msRec := true, msPrivate := true } = .ok k') : k' = k := by
  obtain ⟨t, hLookup⟩ := mount_target_found h
  simp only [Kernel.mount, hLookup, Bool.false_eq_true, if_false, if_true] at h
  exact (Except.ok.inj h).symm

/-- A name of a furnished box that is a directory. -/
theorem Furnished.leadsTo {root : FsPath} {top : Location} {e k : Kernel} {used : List Str}
    {name : Str} (hEmpty : EmptyBox root top e) (h : Furnished top e used k)
    (hUnused : name ∉ used) (hPlain : Plain name) {path : FsPath}
    (hNames : path.names = root.base ++ [name]) {n : Node} (hNode : k.nodes ⟨.box, [name]⟩ = some n) :
    LeadsTo k path name := by
  rcases h.lookup_name hEmpty hUnused hPlain hNames with ⟨hNone, -⟩ | ⟨-, -, hLookup⟩
  · rw [hNone] at hNode
    cases hNode
  · exact ⟨_, hLookup, h.place_name hEmpty hUnused⟩

theorem Furnished.scratch {top : Location} {e k : Kernel} {used : List Str}
    (h : Furnished top e used k) : ∀ p, Scratch p → k.nodes p = none := by
  rintro ⟨fs, path⟩ ⟨rfl, dir, -, ⟨rest, rfl⟩, hNe⟩
  by_contra hSome
  obtain ⟨n, hn⟩ := Option.ne_none_iff_exists'.mp hSome
  rcases h.names _ n hn with hNil | ⟨⟨name, hName⟩, -⟩
  · cases hNil
  · exact hNe (by simp_all)

/-- The step of `prepare_root` that makes a directory. -/
theorem Furnished.createDirectoriesOrDie {root : FsPath} {top : Location} {e k k' : Kernel}
    {used : List Str} {name : Str} (hEmpty : EmptyBox root top e) (h : Furnished top e used k)
    (hUnused : name ∉ used) (hPlain : Plain name) {path : FsPath} {msg : Str}
    (hNames : path.names = root.base ++ [name])
    (hOk : createDirectoriesOrDie k path msg = .ok k') :
    Furnished top e used k' ∧ k'.nodes ⟨.box, [name]⟩ = some .dir ∧
      ∀ p n, k.nodes p = some n → k'.nodes p = some n := by
  have hCreate := createDirectoriesOrDie_eq_ok hOk
  have hGrows : Grows k (k.createDirectories path).1 := mkdirs_grows _ k []
  have hMade := h.createDirectory hEmpty hUnused hPlain hNames
  rw [hCreate] at hGrows hMade
  exact ⟨hMade.1, hMade.2 rfl, hGrows.keeps⟩

theorem applyStandardRules_eq_ok {root work : FsPath} {k k' : Kernel}
    (h : (let (k, result) := Bind.applyStandardRules root work k
      result.map fun _ => k) = .ok k') :
    ∃ bs, Bind.mountAll root work Bind.standardBinds k = (k', .ok bs) := by
  unfold Bind.applyStandardRules at h
  cases hAll : Bind.mountAll root work Bind.standardBinds k with
  | mk k'' r =>
    rw [hAll] at h
    cases r with
    | error e => cases h
    | ok bs =>
      obtain rfl := Except.ok.inj h
      exact ⟨bs, rfl⟩

/-- The names that `prepare_root` mounts at. -/
def standardNames : List Str := [lit "lib", lit "lib64", lit "bin", lit "dev", lit "usr"]

theorem standardBinds_inside :
    Bind.standardBinds.map Bind.inside = standardNames.map fun name => ⟨true, [name]⟩ := by
  decide

/-- What `prepare_root` leaves, when nothing but file systems of the host was
mounted before. -/
theorem prepareRoot_prepared {root : FsPath} {useStandardBinds : Bool} {k k₀ : Kernel}
    (hHost : ∀ m ∈ k.mounts, ∃ n, m.fs = .host n)
    (h : prepareRoot root useStandardBinds k = .ok k₀) : Prepared root k₀ := by
  obtain ⟨k₁, h₁, h⟩ := bind_eq_ok h
  obtain ⟨k₂, h₂, h⟩ := bind_eq_ok h
  obtain ⟨k₃, h₃, h⟩ := bind_eq_ok h
  obtain ⟨e, h₄, h⟩ := bind_eq_ok h
  obtain ⟨k₅, h₅, h⟩ := bind_eq_ok h
  obtain ⟨k₆, h₆, h⟩ := bind_eq_ok h
  obtain ⟨k₇, h₇, h⟩ := bind_eq_ok h
  obtain ⟨k₈, h₈, h⟩ := bind_eq_ok h
  obtain ⟨k₉, h₉, h⟩ := bind_eq_ok h
  have hMounts : k₂.mounts = k.mounts := by
    have hGrows : Grows k₁ (k₁.createDirectories root).1 := mkdirs_grows _ k₁ []
    rw [createDirectoriesOrDie_eq_ok h₂] at hGrows
    rw [hGrows.mounts, private_eq (orDieWith_eq_ok h₁)]
  obtain ⟨top, hEmpty⟩ := emptyBox_of_mount (by rwa [hMounts]) (orDieWith_eq_ok h₃)
    (orDieWith_eq_ok h₄)
  have hStart : Furnished top e [] e :=
    ⟨fun _ _ _ hp => hp, fun path n hp => .inl (by
      by_contra hPath
      rw [hEmpty.empty path hPath] at hp
      cases hp), [], rfl, by simp⟩
  have hNames : ∀ name : Str, (root / (⟨false, [name]⟩ : FsPath)).names = root.base ++ [name] :=
    fun name => FsPath.append_names root rfl (by simp)
  have hProc : Plain (lit "proc") ∧ Plain (lit "work") ∧ Plain (lit "tmp") := by decide
  obtain ⟨hk₅, -, -⟩ := hStart.createDirectoriesOrDie hEmpty (by simp) hProc.1 (hNames _) h₅
  have hk₇ := hk₅.mountProc hEmpty (by simp) hProc.1 (hNames _) (orDieWith_eq_ok h₆)
    (orDieWith_eq_ok h₇)
  obtain ⟨hk₈, hWork, -⟩ := hk₇.createDirectoriesOrDie hEmpty (by decide) hProc.2.1 (hNames _) h₈
  obtain ⟨hk₉, hTmp, hKeeps⟩ := hk₈.createDirectoriesOrDie hEmpty (by decide) hProc.2.2 (hNames _) h₉
  replace hWork := hKeeps _ _ hWork
  -- the directories stay below the standard binds
  obtain ⟨used, hk₀, hUnused, hKeeps⟩ : ∃ used, Furnished top e used k₀ ∧
      (lit "work" ∉ used ∧ lit "tmp" ∉ used) ∧
        ∀ p n, k₉.nodes p = some n → k₀.nodes p = some n := by
    cases useStandardBinds with
    | false =>
      obtain rfl := Except.ok.inj h
      exact ⟨_, hk₉, by decide, fun _ _ hp => hp⟩
    | true =>
      obtain ⟨bs, hAll⟩ := applyStandardRules_eq_ok h
      obtain ⟨hk₀, hKeeps⟩ := hk₉.bindAll hEmpty standardBinds_inside (by decide) (by decide) hAll
      exact ⟨_, hk₀, by decide, hKeeps⟩
  exact ⟨hk₀.leadsTo hEmpty hUnused.1 hProc.2.1 (hNames _) (hKeeps _ _ hWork),
    hk₀.leadsTo hEmpty hUnused.2 hProc.2.2 (hNames _) (hKeeps _ _ hTmp), hk₀.scratch⟩

end Libsbox
