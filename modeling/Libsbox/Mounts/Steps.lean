import Libsbox.Model.Bind

/-!
# libsbox — what a bind does to the kernel

A bind first makes its mount point, which only adds nodes (`Grows`), and then
adds mounts on top of the table. `Bind.mount_cases` says all a `Bind::mount` can
do; the modules on binds derive what they need from it.

`Places` is the condition the modules on mount points share: every name that is
missing on the way to a mount point, and the file that is opened there, is at a
place that satisfies a predicate. `mount_events_iff` says that the log then has
nothing else.

## Results

* `walk_found_mono` — new nodes do not change where a path leads.
* `Bind.mount_cases` — the outcomes of `Bind::mount`.
* `mount_events_iff` — where `Bind::mount` makes and truncates files.
-/

namespace Libsbox

open CMemory Kernel

namespace Kernel

variable {k k' k'' : Kernel}

/-- What the log of `k'` has beyond that of `k`. -/
def since (k k' : Kernel) : List Event := k'.log.drop k.log.length

theorem since_self (k : Kernel) : since k k = [] := by simp [since]

theorem since_append {new : List Event} (h : k'.log = k.log ++ new) : since k k' = new := by
  simp [since, h]

theorem since_trans (h : k.log <+: k'.log) (h' : k'.log <+: k''.log) :
    since k k'' = since k k' ++ since k' k'' := by
  obtain ⟨new, hNew⟩ := h
  obtain ⟨new', hNew'⟩ := h'
  rw [since_append hNew.symm, since_append hNew'.symm, since_append]
  rw [← hNew', ← hNew, List.append_assoc]

/-- The log only grows, and every change of a node is in it. -/
structure Logged (k k' : Kernel) : Prop where
  log : k.log <+: k'.log
  nodes : ∀ p, k'.nodes p ≠ k.nodes p → ∃ e ∈ since k k', e.place = p

theorem Logged.refl (k : Kernel) : Logged k k := ⟨List.prefix_rfl, fun _ h => absurd rfl h⟩

theorem Logged.trans (h : Logged k k') (h' : Logged k' k'') : Logged k k'' := by
  refine ⟨h.log.trans h'.log, fun p hp => ?_⟩
  rw [since_trans h.log h'.log]
  by_cases hSame : k'.nodes p = k.nodes p
  · obtain ⟨e, he, hPlace⟩ := h'.nodes p (by rwa [hSame])
    exact ⟨e, List.mem_append_right _ he, hPlace⟩
  · obtain ⟨e, he, hPlace⟩ := h.nodes p hSame
    exact ⟨e, List.mem_append_left _ he, hPlace⟩

/-- `k'` has the nodes and mounts of `k`, and further directories and files that
are in its log. -/
structure Grows (k k' : Kernel) : Prop extends Logged k k' where
  mounts : k'.mounts = k.mounts
  keeps : ∀ p n, k.nodes p = some n → k'.nodes p = some n
  makes : ∀ p n, k'.nodes p = some n → k.nodes p = some n ∨ n = .dir ∨ n = .file

theorem Grows.refl (k : Kernel) : Grows k k :=
  ⟨Logged.refl k, rfl, fun _ _ h => h, fun _ _ h => .inl h⟩

theorem Grows.trans (h : Grows k k') (h' : Grows k' k'') : Grows k k'' :=
  ⟨h.toLogged.trans h'.toLogged, h'.mounts.trans h.mounts,
    fun p n hp => h'.keeps p n (h.keeps p n hp),
    fun p n hp => (h'.makes p n hp).elim (h.makes p n) .inr⟩

theorem Grows.cover_eq (h : Grows k k') (c : Location) : k'.cover c = k.cover c := by
  rw [cover, cover, h.mounts]

theorem Grows.place_eq (h : Grows k k') (c : Location) : k'.place c = k.place c := by
  rw [place, place, h.cover_eq]

theorem Grows.node_eq (h : Grows k k') {c : Location} {n : Node} (hNode : k.node c = some n) :
    k'.node c = some n := by
  rw [node, h.place_eq]
  obtain ⟨p, hPlace, hp⟩ := Option.bind_eq_some_iff.mp hNode
  exact Option.bind_eq_some_iff.mpr ⟨p, hPlace, h.keeps p n hp⟩

theorem isPrefixOf_eq_false_iff {a b : Location} : a.isPrefixOf b = false ↔ ¬ a <+: b := by
  rw [← Bool.not_eq_true, List.isPrefixOf_iff_prefix]

/-- The mount a location is in is the newest at or above it. -/
theorem cover_eq_some_iff {c : Location} {m : Mount} :
    k.cover c = some m ↔ m.target <+: c ∧
      ∃ newer older, k.mounts = newer ++ m :: older ∧ ∀ x ∈ newer, ¬ x.target <+: c := by
  simp [cover, List.find?_eq_some_iff_append, List.isPrefixOf_iff_prefix, isPrefixOf_eq_false_iff]

theorem cover_eq_none_iff {c : Location} :
    k.cover c = none ↔ ∀ m ∈ k.mounts, ¬ m.target <+: c := by
  simp [cover, List.isPrefixOf_iff_prefix]

theorem cover_isPrefix {c : Location} {m : Mount} (h : k.cover c = some m) : m.target <+: c :=
  (cover_eq_some_iff.mp h).1

theorem place_eq_some {c : Location} {m : Mount} (h : k.cover c = some m) :
    k.place c = some ⟨m.fs, m.root ++ c.drop m.target.length⟩ := by
  rw [place, h, Option.map_some]

theorem place_none {c : Location} (h : k.cover c = none) : k.place c = none := by
  rw [place, h, Option.map_none]

-- ---------------------------------------------------------------------------
-- Path resolution
-- ---------------------------------------------------------------------------

/-- What exists in `k` is the same in `k'`. -/
def Agrees (k k' : Kernel) : Prop := ∀ c n, k.node c = some n → k'.node c = some n

theorem agrees_of_keeps (hMounts : k'.mounts = k.mounts)
    (hKeeps : ∀ p n, k.nodes p = some n → k'.nodes p = some n) : Agrees k k' := by
  intro c n hNode
  obtain ⟨p, hPlace, hp⟩ := Option.bind_eq_some_iff.mp hNode
  refine Option.bind_eq_some_iff.mpr ⟨p, ?_, hKeeps p n hp⟩
  rw [← hPlace, place, place, cover, cover, hMounts]

theorem Grows.agrees (h : Grows k k') : Agrees k k' := fun _ _ => h.node_eq

theorem stepWith_found_mono (h : Agrees k k') {follow follow' : Location → List Str → Lookup}
    (hFollow : ∀ c names c', follow c names = .found c' → follow' c names = .found c')
    {c c' : Location} {name : Str} (hStep : k.stepWith follow c name = .found c') :
    k'.stepWith follow' c name = .found c' := by
  unfold stepWith at hStep ⊢
  by_cases hDir : k.node c = some .dir
  · rw [if_neg (not_not.mpr hDir)] at hStep
    rw [if_neg (not_not.mpr (h c _ hDir))]
    split_ifs at hStep ⊢ with hDot hUp
    · exact hStep
    · exact hStep
    · cases hNode : k.node (c ++ [name]) with
      | none => simp [hNode] at hStep
      | some n =>
        rw [h _ _ hNode]
        rw [hNode] at hStep
        cases n with
        | symlink target =>
          dsimp only at hStep ⊢
          cases hTo : follow (if target.absolute then [] else c) target.names with
          | found c'' => rw [hFollow _ _ _ hTo]; rwa [hTo] at hStep
          | absent c'' rest => rw [hTo] at hStep; cases rest <;> cases hStep
          | dangling c'' => rw [hTo] at hStep; cases hStep
          | fail e => rw [hTo] at hStep; cases hStep
        | _ => exact hStep
  · rw [if_pos hDir] at hStep
    cases hStep

/-- A path leads somewhere name by name. -/
theorem walkWith_cons_found {follow : Location → List Str → Lookup} {c c' : Location} {name : Str}
    {rest : List Str} : k.walkWith follow c (name :: rest) = .found c' ↔
      ∃ mid, k.stepWith follow c name = .found mid ∧ k.walkWith follow mid rest = .found c' := by
  rw [walkWith]
  cases k.stepWith follow c name with
  | found mid => simp
  | dangling mid =>
    dsimp only
    split <;> simp
  | _ => simp

theorem walkWith_found_mono (h : Agrees k k') {follow follow' : Location → List Str → Lookup}
    (hFollow : ∀ c names c', follow c names = .found c' → follow' c names = .found c') :
    ∀ {names : List Str} {c c' : Location}, k.walkWith follow c names = .found c' →
      k'.walkWith follow' c names = .found c'
  | [], _, _, hWalk => hWalk
  | name :: rest, c, c', hWalk => by
    obtain ⟨mid, hStep, hRest⟩ := walkWith_cons_found.mp hWalk
    exact walkWith_cons_found.mpr
      ⟨mid, stepWith_found_mono h hFollow hStep, walkWith_found_mono h hFollow hRest⟩

/-- A path that leads somewhere still leads there when nodes are added. -/
theorem walk_found_mono (h : Agrees k k') : ∀ {links : Nat} {names : List Str}
    {c c' : Location}, k.walk links c names = .found c' → k'.walk links c names = .found c'
  | 0, _, _, _, hWalk => walkWith_found_mono h (fun _ _ _ hFail => by cases hFail) hWalk
  | _ + 1, _, _, _, hWalk => walkWith_found_mono h (fun _ _ _ => walk_found_mono h) hWalk

theorem lookup_found_mono (h : Agrees k k') {path : FsPath} {c : Location}
    (hLookup : k.lookup path = .found c) : k'.lookup path = .found c :=
  walk_found_mono h hLookup

theorem lookup_of_status {path : FsPath} (h : k.status path ≠ none) :
    ∃ c, k.lookup path = .found c := by
  unfold status at h
  split at h
  · next c hLookup => exact ⟨c, hLookup⟩
  · exact absurd rfl h

/-- A name that is missing in a directory. -/
structure Vacant (k : Kernel) (c : Location) : Prop where
  missing : k.node c = none
  parent : ∃ d name, c = d ++ [name] ∧ k.node d = some .dir

/-- A lookup ends at a missing name only in a directory that has no such node. -/
def Lookup.Missing (k : Kernel) : Lookup → Prop
  | .absent c _ => k.Vacant c
  | .dangling c => k.Vacant c
  | _ => True

theorem stepWith_missing {follow : Location → List Str → Lookup}
    (hFollow : ∀ c names, (follow c names).Missing k) (c : Location) (name : Str) :
    (k.stepWith follow c name).Missing k := by
  unfold stepWith
  split_ifs with hDir
  · trivial
  · trivial
  · trivial
  · cases hNode : k.node (c ++ [name]) with
    | none => exact ⟨hNode, c, name, rfl, not_not.mp hDir⟩
    | some n =>
      cases n with
      | symlink target =>
        dsimp only
        have hTo := hFollow (if target.absolute then [] else c) target.names
        cases hWalk : follow (if target.absolute then [] else c) target.names with
        | absent c' rest =>
          rw [hWalk] at hTo
          cases rest with
          | nil => exact hTo
          | cons => trivial
        | dangling c' => rw [hWalk] at hTo; exact hTo
        | _ => trivial
      | _ => trivial

theorem walkWith_missing {follow : Location → List Str → Lookup}
    (hFollow : ∀ c names, (follow c names).Missing k) :
    ∀ (c : Location) (names : List Str), (k.walkWith follow c names).Missing k
  | _, [] => trivial
  | c, name :: rest => by
    rw [walkWith]
    have hStep := stepWith_missing hFollow c name
    cases hOne : k.stepWith follow c name with
    | found c' => exact walkWith_missing hFollow c' rest
    | absent c' r => rw [hOne] at hStep; exact hStep
    | dangling c' =>
      rw [hOne] at hStep
      dsimp only
      split
      · exact hStep
      · trivial
    | fail e => trivial

theorem walk_missing : ∀ (links : Nat) (c : Location) (names : List Str),
    (k.walk links c names).Missing k
  | 0, c, names => by
    refine walkWith_missing ?_ c names
    exact fun _ _ => trivial
  | links + 1, c, names => walkWith_missing (walk_missing links) c names

theorem step_missing {c c' : Location} {name : Str} {rest : List Str}
    (h : k.step c name = .absent c' rest) : k.Vacant c' := by
  have hMissing : (k.step c name).Missing k := stepWith_missing (walk_missing 39) c name
  rw [h] at hMissing
  exact hMissing

theorem lookup_missing {path : FsPath} {c : Location}
    (h : (∃ rest, k.lookup path = .absent c rest) ∨ k.lookup path = .dangling c) :
    k.Vacant c := by
  have hMissing : (k.lookup path).Missing k := walk_missing 40 [] path.names
  rcases h with ⟨rest, h⟩ | h
  · rw [h] at hMissing
    exact hMissing
  · rw [h] at hMissing
    exact hMissing

-- ---------------------------------------------------------------------------
-- Directories and files
-- ---------------------------------------------------------------------------

theorem create_eq_ok {kind : EventKind} {n : Node} {c : Location}
    (h : k.create kind n c = .ok k') : ∃ p, k.place c = some p ∧
      k' = { k with nodes := Function.update k.nodes p (some n), log := k.log ++ [⟨kind, p⟩] } := by
  unfold create at h
  cases hCover : k.cover c with
  | none => rw [hCover] at h; cases h
  | some m =>
    rw [hCover] at h
    dsimp only at h
    split_ifs at h
    exact ⟨_, by simp [place, hCover], (Except.ok.inj h).symm⟩

theorem create_grows {kind : EventKind} {n : Node} {c : Location} (hMissing : k.node c = none)
    (hKind : n = .dir ∨ n = .file) (h : k.create kind n c = .ok k') : Grows k k' := by
  obtain ⟨p, hPlace, rfl⟩ := create_eq_ok h
  have hNone : k.nodes p = none := by simpa [node, hPlace] using hMissing
  refine ⟨⟨⟨_, rfl⟩, fun q hq => ?_⟩, rfl, fun q m hq => ?_, fun q m hq => ?_⟩
  · rw [since_append rfl]
    by_cases hqp : q = p
    · exact ⟨_, List.mem_singleton_self _, hqp.symm⟩
    · exact absurd (Function.update_of_ne hqp _ _) hq
  · have hNe : q ≠ p := by
      rintro rfl
      rw [hNone] at hq
      cases hq
    simpa [Function.update_of_ne hNe] using hq
  · by_cases hqp : q = p
    · rw [hqp] at hq
      have hSame : n = m := by simpa using hq
      exact .inr (hSame ▸ hKind)
    · exact .inl (by simpa [Function.update_of_ne hqp] using hq)

theorem mkdirs_grows : ∀ (names : List Str) (k : Kernel) (c : Location),
    Grows k (k.mkdirs c names).1
  | [], k, _ => Grows.refl k
  | name :: rest, k, c => by
    rw [mkdirs]
    cases hStep : k.step c name with
    | found c' => exact mkdirs_grows rest k c'
    | absent c' r =>
      dsimp only
      cases hMkdir : k.mkdir c' with
      | error e => exact Grows.refl k
      | ok k' =>
        exact (create_grows (step_missing hStep).missing (.inl rfl) hMkdir).trans (mkdirs_grows rest k' c')
    | dangling c' => exact Grows.refl k
    | fail e => exact Grows.refl k

theorem openTruncate_grows {path : FsPath} (h : k.openTruncate path = .ok k') : Grows k k' := by
  unfold openTruncate at h
  cases hLookup : k.lookup path with
  | found c =>
    simp only [hLookup] at h
    split at h
    · split at h
      · cases h
      · obtain rfl := Except.ok.inj h
        exact ⟨⟨⟨_, rfl⟩, fun _ hp => absurd rfl hp⟩, rfl, fun _ _ hp => hp, fun _ _ hp => .inl hp⟩
    · cases h
    · obtain rfl := Except.ok.inj h
      exact Grows.refl k
  | absent c rest =>
    have hVacant := lookup_missing (.inl ⟨rest, hLookup⟩)
    cases rest with
    | nil => simp only [hLookup] at h; exact create_grows hVacant.missing (.inr rfl) h
    | cons => simp only [hLookup] at h; cases h
  | dangling c =>
    have hVacant := lookup_missing (.inr hLookup)
    simp only [hLookup] at h
    exact create_grows hVacant.missing (.inr rfl) h
  | fail e => simp only [hLookup] at h; cases h

-- ---------------------------------------------------------------------------
-- mount(2)
-- ---------------------------------------------------------------------------

/-- The mount that a bind of `s` puts at `t`. -/
def topMount (m : Mount) (s t : Location) : Mount :=
  { m with target := t, root := m.root ++ s.drop m.target.length }

theorem submounts_below {s t : Location} {m : Mount} (h : m ∈ k.submounts s t) :
    t <+: m.target ∧ m.target ≠ t := by
  obtain ⟨below, hMem, rfl⟩ := List.mem_map.mp h
  obtain ⟨hNewer, hBelow⟩ := List.mem_filter.mp hMem
  obtain ⟨rest, hRest⟩ := List.isPrefixOf_iff_prefix.mp hBelow
  have hNot : ¬ below.target <+: s := by
    have hStop := List.mem_takeWhile_imp hNewer
    rwa [Bool.not_eq_true', ← Bool.not_eq_true, List.isPrefixOf_iff_prefix] at hStop
  refine ⟨List.prefix_append _ _, fun hEq => hNot ?_⟩
  have hDrop : below.target.drop s.length = [] := List.append_right_eq_self.mp hEq
  rw [← hRest, List.drop_left] at hDrop
  rw [← hRest, hDrop, List.append_nil]

/-- What `MS_BIND` adds to the table: the mount at the target, which shows the
source under the options of its mount, and copies of mounts further below. -/
theorem mount_bind_eq_ok {source target : FsPath} {fstype : Str} {flags : MountFlags}
    (hRemount : flags.msRemount = false) (hBind : flags.msBind = true)
    (h : k.mount source target fstype flags = .ok k') :
    ∃ s t m copies, k.lookup source = .found s ∧ k.lookup target = .found t ∧
      k.cover s = some m ∧ (∀ c ∈ copies, t <+: c.target ∧ c.target ≠ t) ∧
      k' = { k with mounts := copies ++ topMount m s t :: k.mounts } := by
  unfold Kernel.mount at h
  cases hTarget : k.lookup target with
  | found t =>
    simp only [hTarget, hRemount, hBind, Bool.false_eq_true, if_false, if_true] at h
    cases hSource : k.lookup source with
    | found s =>
      simp only [hSource, bindMount] at h
      cases hCover : k.cover s with
      | none => simp [hCover] at h
      | some m =>
        simp only [hCover] at h
        by_cases hKinds : (k.node s = some .dir) ≠ (k.node t = some .dir)
        · rw [if_pos hKinds] at h
          cases h
        · rw [if_neg hKinds] at h
          refine ⟨s, t, m, _, rfl, rfl, hCover, ?_, (Except.ok.inj h).symm⟩
          intro c hc
          split at hc
          · exact submounts_below hc
          · cases hc
    | _ => simp [hSource] at h
  | _ => simp [hTarget] at h

end Kernel

-- ---------------------------------------------------------------------------
-- Bind::mount
-- ---------------------------------------------------------------------------

namespace Bind

variable {root work : FsPath} {b : Bind} {k k' : Kernel}

/-- A successful call mounted the source of `b` over `mid`. -/
structure Mounted (b : Bind) (mid k' : Kernel) where
  source : Location
  target : Location
  sourceMount : Mount
  copies : List Mount
  source_found : mid.lookup b.fromPath = .found source
  target_found : mid.lookup b.toPath = .found target
  source_cover : mid.cover source = some sourceMount
  copies_below : ∀ c ∈ copies, target <+: c.target ∧ c.target ≠ target
  result : k' = { mid with mounts := copies ++ topMount sourceMount source target :: mid.mounts }

/-- The mounts that are added, newest first. -/
def Mounted.new {mid : Kernel} (h : Mounted b mid k') : List Mount :=
  h.copies ++ [topMount h.sourceMount h.source h.target]

theorem Mounted.result_eq {mid : Kernel} (h : Mounted b mid k') :
    k' = { mid with mounts := h.new ++ mid.mounts } :=
  h.result.trans (by simp [Mounted.new])

theorem Mounted.new_below {mid : Kernel} (h : Mounted b mid k') :
    ∀ m ∈ h.new, h.target <+: m.target := by
  intro m hm
  rcases List.mem_append.mp hm with hCopy | hTop
  · exact (h.copies_below m hCopy).1
  · rw [List.mem_singleton.mp hTop]
    exact List.prefix_rfl

theorem callMount_cases (b : Bind) (k : Kernel) :
    (∃ e, b.callMount k = (k, .error e)) ∨
      ∃ k', b.callMount k = (k', .ok { b with mounted := true }) ∧ Nonempty (Mounted b k k') := by
  unfold callMount
  cases h : k.mount b.fromPath b.toPath (lit "none") b.mountFlags with
  | error e => exact .inl ⟨_, rfl⟩
  | ok k' =>
    obtain ⟨s, t, m, copies, h1, h2, h3, h4, h5⟩ := mount_bind_eq_ok rfl rfl h
    exact .inr ⟨k', rfl, ⟨s, t, m, copies, h1, h2, h3, h4, h5⟩⟩

/-- All that `Bind::mount` can do once the paths of `b` are set: it dies, having
at most made nodes; it skips an optional bind whose source is missing; or it
makes the mount point and mounts a source that was there before. -/
inductive Outcome (b : Bind) (k : Kernel) : Kernel × Except Halt Bind → Prop where
  | died {mid : Kernel} {e : Halt} (grows : Grows k mid) : Outcome b k (mid, .error e)
  | skipped (missing : k.status b.fromPath = none) : Outcome b k (k, .ok b)
  | mounted {mid k' : Kernel} (present : k.status b.fromPath ≠ none) (grows : Grows k mid)
      (mounted : Mounted b mid k') :
      Outcome b k (k', .ok { b with mounted := true })

theorem callMount_outcome {mid : Kernel} (hPresent : k.status b.fromPath ≠ none)
    (hGrows : Grows k mid) : Outcome b k (b.callMount mid) := by
  rcases callMount_cases b mid with ⟨e, h⟩ | ⟨k', h, ⟨hMounted⟩⟩
  · rw [h]
    exact .died hGrows
  · rw [h]
    exact .mounted hPresent hGrows hMounted

theorem mountDirectory_outcome (hPresent : k.status b.fromPath ≠ none) :
    Outcome b k (b.mountDirectory k) := by
  have hGrows : Grows k (k.createDirectories b.toPath).1 := mkdirs_grows _ k []
  unfold mountDirectory
  split
  · next mid e h =>
    rw [h] at hGrows
    exact .died hGrows
  · next mid h =>
    rw [h] at hGrows
    exact callMount_outcome hPresent hGrows

theorem mountFile_outcome (hPresent : k.status b.fromPath ≠ none) :
    Outcome b k (b.mountFile k) := by
  have hGrows : Grows k (k.createDirectories b.toPath.parentPath).1 := mkdirs_grows _ k []
  unfold mountFile
  split
  · next mid e h =>
    rw [h] at hGrows
    exact .died hGrows
  · next mid h =>
    rw [h] at hGrows
    split
    · exact .died hGrows
    · next mid' hOpen => exact callMount_outcome hPresent (hGrows.trans (openTruncate_grows hOpen))

theorem mount_outcome (root work : FsPath) (b : Bind) (k : Kernel) :
    (∃ e, b.mount root work k = (k, .error e)) ∨
      ∃ b', b.setPaths root work = .ok b' ∧ Outcome b' k (b.mount root work k) := by
  unfold mount
  cases hPaths : b.setPaths root work with
  | error e => exact .inl ⟨e, rfl⟩
  | ok b' =>
    refine .inr ⟨b', rfl, ?_⟩
    dsimp only
    cases hStatus : k.status b'.fromPath with
    | none =>
      dsimp only
      split
      · exact .skipped hStatus
      · exact .died (Grows.refl k)
    | some n =>
      have hPresent : k.status b'.fromPath ≠ none := by simp [hStatus]
      cases n with
      | dir => exact mountDirectory_outcome hPresent
      | file => exact mountFile_outcome hPresent
      | _ => exact .died (Grows.refl k)

end Bind

-- ---------------------------------------------------------------------------
-- What is made and truncated on the way
-- ---------------------------------------------------------------------------

namespace Kernel

variable {k k' k'' : Kernel} (P : Place → Prop)

/-- Everything new in the log is at a place with `P`. -/
def LogsOnly (k k' : Kernel) : Prop := ∀ e ∈ since k k', P e.place

instance [DecidablePred P] (k k' : Kernel) : Decidable (LogsOnly P k k') :=
  inferInstanceAs (Decidable (∀ e ∈ since k k', P e.place))

variable {P}

theorem logsOnly_self (k : Kernel) : LogsOnly P k k := by simp [LogsOnly, since_self]

theorem logsOnly_singleton {e : Event} (h : k'.log = k.log ++ [e]) :
    LogsOnly P k k' ↔ P e.place := by
  simp [LogsOnly, since_append h]

theorem logsOnly_trans (h : k.log <+: k'.log) (h' : k'.log <+: k''.log) :
    LogsOnly P k k'' ↔ LogsOnly P k k' ∧ LogsOnly P k' k'' := by
  rw [LogsOnly, since_trans h h', List.forall_mem_append]
  rfl

variable (P)

/-- Every name that is missing from `c` on, and can be made, is at a place with
`P`. -/
def Makes (k : Kernel) (c : Location) : List Str → Prop
  | [] => True
  | name :: rest =>
    match k.step c name with
    | .found c' => Makes k c' rest
    | .absent c' _ =>
      match k.mkdir c' with
      | .ok k' => (∀ p ∈ k.place c', P p) ∧ Makes k' c' rest
      | .error _ => True
    | _ => True

/-- The path leads to a file that can be written, or to a missing name where a
file can be made. -/
def Opened (k : Kernel) (path : FsPath) (c : Location) : Prop :=
  ∃ m, k.cover c = some m ∧ m.options.ro = false ∧
    ((k.lookup path = .found c ∧ k.node c = some .file) ∨
      ((k.lookup path = .absent c [] ∨ k.lookup path = .dangling c) ∧ m.fs ≠ .proc))

def Opens (k : Kernel) (path : FsPath) : Prop :=
  ∀ c, Opened k path c → ∀ p ∈ k.place c, P p

variable {P}

theorem create_logsOnly_iff {kind : EventKind} {n : Node} {c : Location}
    (h : k.create kind n c = .ok k') : LogsOnly P k k' ↔ ∀ p ∈ k.place c, P p := by
  obtain ⟨p, hPlace, hNew⟩ := create_eq_ok h
  have hLog : k'.log = k.log ++ [⟨kind, p⟩] := by rw [hNew]
  simp [logsOnly_singleton hLog, hPlace]

theorem mkdirs_logsOnly_iff : ∀ (names : List Str) (k : Kernel) (c : Location),
    LogsOnly P k (k.mkdirs c names).1 ↔ Makes P k c names
  | [], k, _ => iff_of_true (logsOnly_self k) trivial
  | name :: rest, k, c => by
    rw [mkdirs, Makes]
    cases hStep : k.step c name with
    | found c' => exact mkdirs_logsOnly_iff rest k c'
    | absent c' r =>
      dsimp only
      cases hMkdir : k.mkdir c' with
      | error e => exact iff_of_true (logsOnly_self k) trivial
      | ok k' =>
        have hGrows := create_grows (step_missing hStep).missing (.inl rfl) hMkdir
        dsimp only
        rw [logsOnly_trans hGrows.log (mkdirs_grows rest k' c').log,
          create_logsOnly_iff hMkdir, mkdirs_logsOnly_iff rest k' c']
    | dangling c' => exact iff_of_true (logsOnly_self k) trivial
    | fail e => exact iff_of_true (logsOnly_self k) trivial

theorem create_ok_iff {kind : EventKind} {n : Node} {c : Location} :
    (∃ k', k.create kind n c = .ok k') ↔
      ∃ m, k.cover c = some m ∧ m.options.ro = false ∧ m.fs ≠ .proc := by
  unfold create
  cases k.cover c with
  | none => simp
  | some m =>
    dsimp only
    split_ifs <;> simp_all

/-- Nothing is opened that could be logged. -/
theorem logsOnly_iff_of_not_opened {path : FsPath} (h : ∀ k', k.openTruncate path = .ok k' → k' = k)
    (hNot : ∀ c, ¬ Opened k path c) :
    (∀ k', k.openTruncate path = .ok k' → LogsOnly P k k') ↔ Opens P k path := by
  refine iff_of_true (fun k' hOpen => ?_) fun c hOpened => absurd hOpened (hNot c)
  rw [h k' hOpen]
  exact logsOnly_self k

/-- The name at the end of the path is missing. -/
theorem logsOnly_iff_of_missing {path : FsPath} {c : Location}
    (hLookup : k.lookup path = .absent c [] ∨ k.lookup path = .dangling c)
    (hOpen : k.openTruncate path = k.create .create .file c) :
    (∀ k', k.openTruncate path = .ok k' → LogsOnly P k k') ↔ Opens P k path := by
  have hAt : ∀ c', Opened k path c' ↔ c' = c ∧ ∃ k', k.create .create .file c = .ok k' := by
    intro c'
    rw [create_ok_iff, Opened]
    rcases hLookup with h | h
    · simp only [h, reduceCtorEq, false_and, false_or, Lookup.absent.injEq, and_true, or_false]
      constructor
      · rintro ⟨m, hCover, hRo, rfl, hProc⟩
        exact ⟨rfl, m, hCover, hRo, hProc⟩
      · rintro ⟨rfl, m, hCover, hRo, hProc⟩
        exact ⟨m, hCover, hRo, rfl, hProc⟩
    · simp only [h, reduceCtorEq, false_and, false_or, Lookup.dangling.injEq]
      constructor
      · rintro ⟨m, hCover, hRo, rfl, hProc⟩
        exact ⟨rfl, m, hCover, hRo, hProc⟩
      · rintro ⟨rfl, m, hCover, hRo, hProc⟩
        exact ⟨m, hCover, hRo, rfl, hProc⟩
  rw [hOpen, Opens]
  simp only [hAt]
  constructor
  · rintro h c' ⟨rfl, k', hCreate⟩
    exact (create_logsOnly_iff hCreate).mp (h k' hCreate)
  · intro h k' hCreate
    exact (create_logsOnly_iff hCreate).mpr (h c ⟨rfl, k', hCreate⟩)

theorem opened_of_found {path : FsPath} {c : Location} (hLookup : k.lookup path = .found c)
    (c' : Location) : Opened k path c' ↔
      c' = c ∧ k.node c = some .file ∧ ∃ m, k.cover c = some m ∧ m.options.ro = false := by
  simp only [Opened, hLookup, Lookup.found.injEq, reduceCtorEq, false_and, or_false]
  constructor
  · rintro ⟨m, hCover, hRo, rfl, hFile⟩
    exact ⟨rfl, hFile, m, hCover, hRo⟩
  · rintro ⟨rfl, hFile, m, hCover, hRo⟩
    exact ⟨m, hCover, hRo, rfl, hFile⟩

theorem openTruncate_logsOnly_iff (k : Kernel) (path : FsPath) :
    (∀ k', k.openTruncate path = .ok k' → LogsOnly P k k') ↔ Opens P k path := by
  cases hLookup : k.lookup path with
  | absent c rest =>
    cases rest with
    | nil => exact logsOnly_iff_of_missing (.inl hLookup) (by simp [openTruncate, hLookup])
    | cons name rest =>
      exact logsOnly_iff_of_not_opened (by simp [openTruncate, hLookup]) (by simp [Opened, hLookup])
  | dangling c => exact logsOnly_iff_of_missing (.inr hLookup) (by simp [openTruncate, hLookup])
  | fail e =>
    exact logsOnly_iff_of_not_opened (by simp [openTruncate, hLookup]) (by simp [Opened, hLookup])
  | found c =>
    by_cases hFile : k.node c = some .file
    · obtain ⟨m, hCover⟩ : ∃ m, k.cover c = some m := by
        cases hCover : k.cover c with
        | none => simp [node, place, hCover] at hFile
        | some m => exact ⟨m, rfl⟩
      by_cases hRo : m.options.ro = true
      · refine logsOnly_iff_of_not_opened
          (by simp [openTruncate, hLookup, hCover, hFile, hRo]) fun c' hOpened => ?_
        obtain ⟨-, -, m', hCover', hRo'⟩ := (opened_of_found hLookup c').mp hOpened
        simp_all
      · have hOpen : openTruncate k path = .ok { k with
            log := k.log ++ [⟨.truncate, ⟨m.fs, m.root ++ c.drop m.target.length⟩⟩] } := by
          simp [openTruncate, hLookup, hCover, hFile, hRo]
        have hPlace : k.place c = some ⟨m.fs, m.root ++ c.drop m.target.length⟩ := by
          simp [place, hCover]
        rw [hOpen, Opens]
        simp only [Except.ok.injEq, forall_eq', opened_of_found hLookup]
        refine (logsOnly_singleton rfl).trans ?_
        constructor
        · rintro h c' ⟨rfl, -⟩ p hp
          rw [hPlace] at hp
          exact Option.some.inj hp ▸ h
        · intro h
          exact h c ⟨rfl, hFile, m, hCover, by simpa using hRo⟩ _ hPlace
    · refine logsOnly_iff_of_not_opened (fun k' hOpen => ?_) fun c' hOpened =>
        hFile ((opened_of_found hLookup c').mp hOpened).2.1
      simp only [openTruncate, hLookup] at hOpen
      split at hOpen
      · contradiction
      · cases hOpen
      · exact (Except.ok.inj hOpen).symm

end Kernel

-- ---------------------------------------------------------------------------
-- The log of a list of binds
-- ---------------------------------------------------------------------------

namespace Bind

variable (P : Place → Prop) (root work : FsPath)

/-- What `b` makes and truncates for its mount point is at places with `P`: the
names that are missing on the way to it and, for a file, once the directories
are there, the file itself. -/
def TouchesOnly (b : Bind) (k : Kernel) : Prop :=
  ∀ b', b.setPaths root work = .ok b' →
    match k.status b'.fromPath with
    | some .dir => Makes P k [] b'.toPath.names
    | some .file =>
      Makes P k [] b'.toPath.parentPath.names ∧
        ∀ mid, k.createDirectories b'.toPath.parentPath = (mid, none) → Opens P mid b'.toPath
    | _ => True

/-- The binds that are mounted one after the other, each with the kernel it finds;
none after one that dies. -/
def mountSteps : List Bind → Kernel → List (Bind × Kernel)
  | [], _ => []
  | b :: binds, k =>
    (b, k) ::
      match b.mount root work k with
      | (_, .error _) => []
      | (k, .ok _) => mountSteps binds k

variable {P} {k : Kernel}

theorem Mounted.logsOnly_iff {b : Bind} {mid k' : Kernel} (h : Mounted b mid k') :
    LogsOnly P k k' ↔ LogsOnly P k mid := by
  have hLog := congrArg Kernel.log h.result_eq
  rw [LogsOnly, LogsOnly, since, since, hLog]

theorem callMount_log (b : Bind) (k : Kernel) : (b.callMount k).1.log = k.log := by
  rcases callMount_cases b k with ⟨e, h⟩ | ⟨k', h, ⟨hMounted⟩⟩
  · rw [h]
  · rw [h, hMounted.result]

theorem logsOnly_callMount_iff (b : Bind) {mid : Kernel} :
    LogsOnly P k (b.callMount mid).1 ↔ LogsOnly P k mid := by
  rw [LogsOnly, LogsOnly, since, since, callMount_log]

theorem mountDirectory_logsOnly_iff (b : Bind) (k : Kernel) :
    LogsOnly P k (b.mountDirectory k).1 ↔ Makes P k [] b.toPath.names := by
  rw [← mkdirs_logsOnly_iff]
  unfold mountDirectory createDirectories
  split
  · next mid e h => rw [h]
  · next mid h => rw [h, logsOnly_callMount_iff]

theorem mountFile_logsOnly_iff (b : Bind) (k : Kernel) :
    LogsOnly P k (b.mountFile k).1 ↔ Makes P k [] b.toPath.parentPath.names ∧
      ∀ mid, k.createDirectories b.toPath.parentPath = (mid, none) → Opens P mid b.toPath := by
  have hGrows : Grows k (k.createDirectories b.toPath.parentPath).1 := mkdirs_grows _ k []
  rw [← mkdirs_logsOnly_iff]
  unfold mountFile
  change _ ↔ LogsOnly P k (k.createDirectories b.toPath.parentPath).1 ∧ _
  split
  · next mid e h => simp [h]
  · next mid h =>
    rw [h] at hGrows ⊢
    simp only [Prod.mk.injEq, and_true, forall_eq']
    rw [← openTruncate_logsOnly_iff]
    cases hOpen : mid.openTruncate b.toPath with
    | error e => simp
    | ok mid' =>
      have hGrows' := openTruncate_grows hOpen
      simp only [Except.ok.injEq, forall_eq']
      rw [logsOnly_callMount_iff, logsOnly_trans hGrows.log hGrows'.log]

/-- Where a bind makes and truncates files. -/
theorem mount_logsOnly_iff (b : Bind) (k : Kernel) :
    LogsOnly P k (b.mount root work k).1 ↔ b.TouchesOnly P root work k := by
  unfold mount TouchesOnly
  cases b.setPaths root work with
  | error e => simp [logsOnly_self]
  | ok b' =>
    simp only [Except.ok.injEq, forall_eq']
    cases k.status b'.fromPath with
    | none =>
      dsimp only
      split <;> exact iff_of_true (logsOnly_self k) trivial
    | some n =>
      cases n with
      | dir => exact mountDirectory_logsOnly_iff b' k
      | file => exact mountFile_logsOnly_iff b' k
      | _ => exact iff_of_true (logsOnly_self k) trivial

theorem Outcome.logged {b : Bind} {r : Kernel × Except Halt Bind} (h : Outcome b k r) :
    Logged k r.1 := by
  cases h with
  | died hGrows => exact hGrows.toLogged
  | skipped => exact Logged.refl k
  | mounted _ hGrows hMounted =>
    rw [hMounted.result]
    exact ⟨hGrows.log, hGrows.nodes⟩

theorem mount_logged (b : Bind) (k : Kernel) : Logged k (b.mount root work k).1 := by
  rcases mount_outcome root work b k with ⟨e, h⟩ | ⟨b', -, hOutcome⟩
  · rw [h]
    exact Logged.refl k
  · exact hOutcome.logged

theorem mountAll_logged : ∀ (binds : List Bind) (k : Kernel),
    Logged k (mountAll root work binds k).1
  | [], k => Logged.refl k
  | b :: binds, k => by
    have hOne := mount_logged root work b k
    rw [mountAll]
    cases hMount : b.mount root work k with
    | mk k' r =>
      rw [hMount] at hOne
      cases r with
      | error e => exact hOne
      | ok b' =>
        have hRest := mountAll_logged binds k'
        dsimp only
        cases hAll : mountAll root work binds k' with
        | mk k'' r =>
          rw [hAll] at hRest
          cases r <;> exact hOne.trans hRest

theorem mount_keeps {b : Bind} {k' : Kernel} {r : Except Halt Bind}
    (h : b.mount root work k = (k', r)) : ∀ p n, k.nodes p = some n → k'.nodes p = some n := by
  rcases mount_outcome root work b k with ⟨e, hDied⟩ | ⟨b', -, hOutcome⟩
  · rw [h] at hDied
    obtain ⟨rfl, -⟩ := Prod.mk.inj hDied
    exact fun _ _ hp => hp
  · rw [h] at hOutcome
    cases hOutcome with
    | died hGrows => exact hGrows.keeps
    | skipped => exact fun _ _ hp => hp
    | mounted _ hGrows hMounted =>
      rw [hMounted.result]
      exact hGrows.keeps

/-- Binds remove nothing. -/
theorem mountAll_keeps : ∀ {binds bs : List Bind} {k k' : Kernel},
    mountAll root work binds k = (k', .ok bs) → ∀ p n, k.nodes p = some n → k'.nodes p = some n
  | [], _, _, _, h => by
    obtain ⟨rfl, -⟩ := Prod.mk.inj h
    exact fun _ _ hp => hp
  | b :: binds, bs, k, k', h => by
    rw [mountAll] at h
    split at h
    · cases h
    · next mid b' hMount =>
      split at h
      · cases h
      · next k'' bs' hAll =>
        obtain ⟨rfl, -⟩ := Prod.mk.inj h
        exact fun p n hp => mountAll_keeps hAll p n (mount_keeps root work hMount p n hp)

/-- Where a list of binds makes and truncates files: each bind in the kernel it finds. -/
theorem mountAll_logsOnly_iff : ∀ (binds : List Bind) (k : Kernel),
    LogsOnly P k (mountAll root work binds k).1 ↔
      ∀ s ∈ mountSteps root work binds k, s.1.TouchesOnly P root work s.2
  | [], k => by simp [mountAll, mountSteps, logsOnly_self]
  | b :: binds, k => by
    have hOne := mount_logged root work b k
    rw [mountSteps, List.forall_mem_cons, ← mount_logsOnly_iff root work b k, mountAll]
    cases hMount : b.mount root work k with
    | mk k' r =>
      rw [hMount] at hOne
      cases r with
      | error e => simp
      | ok b' =>
        have hRest := mountAll_logged root work binds k'
        dsimp only
        rw [← mountAll_logsOnly_iff binds k', ← logsOnly_trans hOne.log hRest.log]
        cases mountAll root work binds k' with
        | mk k'' r => cases r <;> rfl

theorem mount_mounts_suffix {b b' : Bind} {k' : Kernel}
    (h : b.mount root work k = (k', .ok b')) : k.mounts <:+ k'.mounts := by
  rcases mount_outcome root work b k with ⟨e, hDied⟩ | ⟨b'', -, hOutcome⟩
  · rw [hDied] at h
    cases h
  · rw [h] at hOutcome
    cases hOutcome with
    | skipped => exact List.suffix_rfl
    | @mounted mid _ _ hGrows hMounted =>
      have hMounts : k'.mounts = hMounted.new ++ mid.mounts :=
        congrArg Kernel.mounts hMounted.result_eq
      rw [hMounts, hGrows.mounts]
      exact List.suffix_append _ _

theorem mountAll_mounts_suffix : ∀ {binds bs : List Bind} {k k' : Kernel},
    mountAll root work binds k = (k', .ok bs) → k.mounts <:+ k'.mounts
  | [], _, _, _, h => by
    obtain ⟨rfl, -⟩ := Prod.mk.inj h
    exact List.suffix_rfl
  | b :: binds, bs, k, k', h => by
    rw [mountAll] at h
    split at h
    · cases h
    · next mid b' hMount =>
      split at h
      · cases h
      · next k'' bs' hAll =>
        obtain ⟨rfl, -⟩ := Prod.mk.inj h
        exact (mount_mounts_suffix root work hMount).trans (mountAll_mounts_suffix hAll)

end Bind

/-- What `k'` has on top of the mount table of `k`, newest first. -/
def newMounts (k k' : Kernel) : List Mount :=
  k'.mounts.take (k'.mounts.length - k.mounts.length)

theorem newMounts_eq {k k' : Kernel} {new : List Mount} (h : k'.mounts = new ++ k.mounts) :
    newMounts k k' = new := by
  simp [newMounts, h]

/-- The directories of the standard binds, and `/src` and `/src/b` to bind. -/
def smallPlaces : List Place := [
  ⟨.host 0, []⟩, ⟨.host 0, [lit "lib"]⟩, ⟨.host 0, [lit "bin"]⟩, ⟨.host 0, [lit "dev"]⟩,
  ⟨.host 0, [lit "usr"]⟩, ⟨.host 0, [lit "src"]⟩, ⟨.host 0, [lit "src", lit "b"]⟩]

/-- A small host. -/
def smallHost : Kernel where
  nodes p := if p ∈ smallPlaces then some .dir else none
  mounts := [⟨[], .host 0, [], {}⟩]
  log := []

def smallRoot : FsPath := ⟨true, [lit "box"]⟩

/-- The box at `/box` of the small host. -/
def smallBox : Kernel := (prepareRoot smallRoot true smallHost).toOption.getD smallHost

end Libsbox
