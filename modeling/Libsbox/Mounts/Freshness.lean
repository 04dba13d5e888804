import Libsbox.Mounts.Cancel
import Libsbox.Mounts.Trees

/-!
# libsbox — what a task leaves in the box

A permanent container runs task after task in one box. Between two tasks it
unmounts the binds and `cleanup_root` empties `/work`, `/tmp` and `/work` again.
Mount points that a bind has made elsewhere in the box stay: the third loop of
`cleanup_root` repeats the first, and nothing removes them. So the rules of a task
leave nothing when they make their mount points strictly below `/work` and `/tmp`
and cancel.

## Results

* `TaskRun.same` — what one task leaves.
* `served_same` — when the box is the same before every task.
-/

namespace Libsbox

open CMemory Kernel

/-- The path leads to the directory `name` of the tmpfs whatever is in the
scratch directories. -/
def LeadsAnyway (k : Kernel) (path : FsPath) (name : Str) : Prop :=
  ∀ nodes, (∀ p, ¬ Scratch p → nodes p = k.nodes p) → LeadsTo { k with nodes } path name

/-- The directories that are cleared. -/
def scratchDirs (root : FsPath) : List (FsPath × Str) :=
  [(workDir root, lit "work"), (tmpDir root, lit "tmp")]

/-- What the programs of a task may do: anything strictly below `/work` and `/tmp`
of the tmpfs and anything to the host that leaves the ways to the binds and to the
scratch directories, nothing to the other nodes of the tmpfs and to the mounts. -/
structure ProgramRun (root : FsPath) (spots : List Spot) (k k' : Kernel) : Prop where
  kept : Spot.Kept spots k k'
  box : ∀ p, p.fs = .box → ¬ Scratch p → k'.nodes p = k.nodes p
  way : ∀ mounts, ∀ d ∈ scratchDirs root, LeadsAnyway { k with mounts } d.1 d.2 →
    LeadsAnyway { k' with mounts } d.1 d.2

/-- The binds of a task in the kernel it finds. -/
def taskSpots (root : FsPath) (rules : List BindRule) (k : Kernel) : List Spot :=
  Bind.spots root (workDir root) (rules.map Bind.ofRule) k

/-- One turn of the loop of `Container::serve` in a permanent container, from one
wait for a task to the next. -/
structure TaskRun (root : FsPath) (rules : List BindRule) (k k' : Kernel) where
  mounted : Kernel
  bound : List Bind
  ran : Kernel
  unmounted : Kernel
  mount : Bind.mountAll root (workDir root) (rules.map Bind.ofRule) k = (mounted, .ok bound)
  run : ProgramRun root (taskSpots root rules k) mounted ran
  umount : Bind.umountAll bound ran = .ok unmounted
  cleanup : cleanupRoot root unmounted = .ok k'

/-- In the tmpfs only strictly below `/work` and `/tmp`. -/
def OnlyScratch (p : Place) : Prop := p.fs = .box → Scratch p

/-- Rules that leave nothing in the box they find: each name that is missing on the
way to a mount point, if it lies in the tmpfs, lies strictly below `/work` or `/tmp`,
and so does a file that is made there; and the binds cancel. -/
structure LeavesNothing (root : FsPath) (rules : List BindRule) (k : Kernel) : Prop where
  mountPoints : ∀ s ∈ Bind.mountSteps root (workDir root) (rules.map Bind.ofRule) k,
    s.1.FillsOnly OnlyScratch root (workDir root) s.2
  cancel : Spot.Cancel (taskSpots root rules k)

theorem onlyScratch_downward : Downward OnlyScratch := by
  intro p hp r hBox
  obtain ⟨-, dir, hDir, hPrefix, hNe⟩ := hp hBox
  refine ⟨hBox, dir, hDir, hPrefix.trans (List.prefix_append _ _), fun hEq => hNe ?_⟩
  refine hPrefix.eq_of_length_le ?_
  rw [hEq, List.length_append]
  exact Nat.le_add_right _ _

/-- Where no path has a `..`, in a tree without loose ends, the first missing name
on the way to each mount point decides. -/
theorem leavesNothing_iff_first {root : FsPath} {rules : List BindRule} {k : Kernel}
    (hSound : k.Sound) (hRoot : lit ".." ∉ root.names)
    (hInside : ∀ rule ∈ rules, lit ".." ∉ (Bind.ofRule rule).inside.names) :
    LeavesNothing root rules k ↔
      (∀ s ∈ Bind.mountSteps root (workDir root) (rules.map Bind.ofRule) k,
        s.1.FirstOnly OnlyScratch root (workDir root) s.2) ∧
      Spot.Cancel (taskSpots root rules k) := by
  have hWork : lit ".." ∉ (workDir root).names := Bind.append_no_up hRoot (by decide)
  have hEach : ∀ s ∈ Bind.mountSteps root (workDir root) (rules.map Bind.ofRule) k,
      (s.1.FillsOnly OnlyScratch root (workDir root) s.2 ↔
        s.1.FirstOnly OnlyScratch root (workDir root) s.2) := by
    intro s hs
    obtain ⟨rule, hRule, hBind⟩ := List.mem_map.mp (Bind.mountSteps_binds s hs)
    exact Bind.fillsOnly_iff_firstOnly (Bind.sound_of_mountSteps hSound s hs) onlyScratch_downward
      hRoot hWork (hBind ▸ hInside rule hRule)
  constructor
  · exact fun h => ⟨fun s hs => (hEach s hs).mp (h.mountPoints s hs), h.cancel⟩
  · exact fun h => ⟨fun s hs => (hEach s hs).mpr (h.1 s hs), h.2⟩

/-- The same box: the nodes of the tmpfs and the mount table. -/
structure SameBox (k₀ k : Kernel) : Prop where
  nodes : ∀ p, p.fs = .box → k.nodes p = k₀.nodes p
  mounts : k.mounts = k₀.mounts

section

variable {root : FsPath} {k k' : Kernel} {path : FsPath} {name : Str}

theorem LeadsAnyway.leadsTo (h : LeadsAnyway k path name) : LeadsTo k path name :=
  h k.nodes fun _ _ => rfl

theorem leadsTo_mono (h : LeadsTo k path name) (hAgrees : Agrees k k')
    (hMounts : k'.mounts = k.mounts) : LeadsTo k' path name := by
  obtain ⟨c, hLookup, hPlace⟩ := h
  refine ⟨c, lookup_found_mono hAgrees hLookup, ?_⟩
  rw [← hPlace, place, place, cover, cover, hMounts]

/-- In a prepared box the scratch directories are empty, so filling them hides nothing. -/
theorem Prepared.leadsAnyway (h : Prepared root k) :
    ∀ d ∈ scratchDirs root, LeadsAnyway k d.1 d.2 := by
  intro d hd nodes hNodes
  have hTo : LeadsTo k d.1 d.2 := by
    rcases List.mem_pair.mp hd with rfl | rfl
    · exact h.work
    · exact h.tmp
  refine leadsTo_mono hTo (agrees_of_keeps rfl fun p n hp => ?_) rfl
  by_cases hScratch : Scratch p
  · rw [h.empty p hScratch] at hp
    cases hp
  · rw [← hp]
    exact hNodes p hScratch

open Classical in
theorem LeadsAnyway.keeps (h : LeadsAnyway k path name)
    (hKeeps : ∀ p n, k.nodes p = some n → k'.nodes p = some n) :
    LeadsAnyway { k' with mounts := k.mounts } path name := by
  intro nodes hNodes
  -- the nodes of `k` with the scratch directories of `nodes`
  have hTo := h (fun p => if Scratch p then nodes p else k.nodes p) fun p hp => if_neg hp
  refine leadsTo_mono hTo (agrees_of_keeps rfl fun p n hp => ?_) rfl
  dsimp only at hp ⊢
  split at hp
  · exact hp
  · next hScratch => rw [hNodes p hScratch]; exact hKeeps p n hp

/-- Strictly below the directory `name` of the tmpfs. -/
def Under (name : Str) (p : Place) : Prop := p.fs = .box ∧ [name] <+: p.path ∧ [name] ≠ p.path

theorem scratch_iff (p : Place) : Scratch p ↔ Under (lit "work") p ∨ Under (lit "tmp") p := by
  simp only [Scratch, Under, List.mem_cons, List.not_mem_nil, or_false, exists_eq_or_imp,
    exists_eq_left]
  tauto

/-- What a loop of `cleanup_root` does. -/
theorem clearOrDie_eq_ok (h : LeadsTo k path name) (hClear : clearOrDie k path = .ok k') :
    k'.mounts = k.mounts ∧ (∀ p, Under name p → k'.nodes p = none) ∧
      ∀ p, ¬ Under name p → k'.nodes p = k.nodes p := by
  obtain ⟨c, hLookup, hPlace⟩ := h
  have hOk := orDieWith_eq_ok hClear
  obtain ⟨m, hCover, hHere⟩ := Option.map_eq_some_iff.mp hPlace
  obtain ⟨hFs, hPath⟩ := Place.mk.inj hHere
  simp only [clearDirectory, hLookup, hCover, hFs, hPath] at hOk
  split_ifs at hOk
  obtain rfl := Except.ok.inj hOk
  exact ⟨rfl, fun p hp => if_pos hp, fun p hp => if_neg hp⟩

theorem LeadsAnyway.of_same (h : LeadsAnyway k path name) (hMounts : k'.mounts = k.mounts)
    (hNodes : ∀ p, ¬ Scratch p → k'.nodes p = k.nodes p) : LeadsAnyway k' path name := by
  intro nodes hSame
  have hTo := h nodes fun p hp => (hSame p hp).trans (hNodes p hp)
  exact leadsTo_mono hTo (agrees_of_keeps hMounts fun _ _ hp => hp) hMounts

/-- All of `cleanup_root`. -/
theorem cleanupRoot_eq_ok (h : ∀ d ∈ scratchDirs root, LeadsAnyway k d.1 d.2)
    (hCleanup : cleanupRoot root k = .ok k') :
    k'.mounts = k.mounts ∧ (∀ p, Scratch p → k'.nodes p = none) ∧
      ∀ p, ¬ Scratch p → k'.nodes p = k.nodes p := by
  obtain ⟨k₁, hWork, hCleanup⟩ := bind_eq_ok hCleanup
  obtain ⟨k₂, hTmp, hAgain⟩ := bind_eq_ok hCleanup
  have hWay := h (workDir root, lit "work") (by simp [scratchDirs])
  have hWayTmp := h (tmpDir root, lit "tmp") (by simp [scratchDirs])
  obtain ⟨hMounts₁, hGone₁, hSame₁⟩ := clearOrDie_eq_ok hWay.leadsTo hWork
  have hNot : ∀ p, ¬ Scratch p → ¬ Under (lit "work") p ∧ ¬ Under (lit "tmp") p := fun p hp =>
    not_or.mp (mt (scratch_iff p).mpr hp)
  have hOutside₁ : ∀ p, ¬ Scratch p → k₁.nodes p = k.nodes p := fun p hp => hSame₁ p (hNot p hp).1
  obtain ⟨hMounts₂, hGone₂, hSame₂⟩ :=
    clearOrDie_eq_ok (hWayTmp.of_same hMounts₁ hOutside₁).leadsTo hTmp
  have hOutside₂ : ∀ p, ¬ Scratch p → k₂.nodes p = k.nodes p := fun p hp =>
    (hSame₂ p (hNot p hp).2).trans (hOutside₁ p hp)
  obtain ⟨hMounts₃, hGone₃, hSame₃⟩ :=
    clearOrDie_eq_ok (hWay.of_same (hMounts₂.trans hMounts₁) hOutside₂).leadsTo hAgain
  refine ⟨hMounts₃.trans (hMounts₂.trans hMounts₁), fun p hp => ?_, fun p hp => ?_⟩
  · by_cases hUnder : Under (lit "work") p
    · exact hGone₃ p hUnder
    · rw [hSame₃ p hUnder]
      exact hGone₂ p (((scratch_iff p).mp hp).resolve_left hUnder)
  · exact (hSame₃ p (hNot p hp).1).trans (hOutside₂ p hp)

end

-- ---------------------------------------------------------------------------
-- One task
-- ---------------------------------------------------------------------------

section

variable {root : FsPath} {rules : List BindRule} {k₀ k k' : Kernel}

/-- The unmount loop puts the mounts back and touches no node. -/
theorem TaskRun.unmounted_eq (t : TaskRun root rules k k') (h : LeavesNothing root rules k) :
    t.unmounted = { t.ran with mounts := k.mounts } := by
  have hNew : ∀ b ∈ rules.map Bind.ofRule, b.mounted = false := by
    intro b hb
    obtain ⟨rule, -, rfl⟩ := List.mem_map.mp hb
    rfl
  obtain ⟨hLaid, hPaths⟩ := Bind.mountAll_eq_ok t.mount hNew
  have hUmount := hLaid.restores h.cancel t.run.kept hPaths
  exact Except.ok.inj (t.umount.symm.trans hUmount)

/-- What the mount points of a task change in the tmpfs. -/
theorem TaskRun.mounted_nodes (t : TaskRun root rules k k') (h : LeavesNothing root rules k)
    (p : Place) (hBox : p.fs = .box) (hScratch : ¬ Scratch p) : t.mounted.nodes p = k.nodes p := by
  by_contra hChanged
  have hLogged := Bind.mountAll_logged root (workDir root) (rules.map Bind.ofRule) k
  have hOnly := (Bind.mountAll_logsOnly_iff_fills (rules.map Bind.ofRule) k).mpr h.mountPoints
  rw [t.mount] at hLogged hOnly
  obtain ⟨e, he, rfl⟩ := hLogged.nodes p hChanged
  exact hScratch (hOnly e he hBox)

/-- A task that leaves nothing leaves the box as it found it. -/
theorem TaskRun.same (t : TaskRun root rules k k') (h : LeavesNothing root rules k)
    (hEmpty : ∀ p, Scratch p → k.nodes p = none)
    (hWay : ∀ d ∈ scratchDirs root, LeadsAnyway k d.1 d.2) :
    SameBox k k' ∧ ∀ d ∈ scratchDirs root, LeadsAnyway k' d.1 d.2 := by
  have hWay' : ∀ d ∈ scratchDirs root, LeadsAnyway t.unmounted d.1 d.2 := by
    intro d hd
    rw [t.unmounted_eq h]
    exact t.run.way k.mounts d hd ((hWay d hd).keeps (Bind.mountAll_keeps root _ t.mount))
  obtain ⟨hMounts, hGone, hSame⟩ := cleanupRoot_eq_ok hWay' t.cleanup
  have hTable : t.unmounted.mounts = k.mounts := by rw [t.unmounted_eq h]
  refine ⟨⟨fun p hBox => ?_, hMounts.trans hTable⟩, fun d hd => (hWay' d hd).of_same hMounts hSame⟩
  by_cases hScratch : Scratch p
  · rw [hGone p hScratch, hEmpty p hScratch]
  · calc k'.nodes p = t.unmounted.nodes p := hSame p hScratch
      _ = t.ran.nodes p := by rw [t.unmounted_eq h]
      _ = t.mounted.nodes p := t.run.box p hBox hScratch
      _ = k.nodes p := t.mounted_nodes h p hBox hScratch

end

-- ---------------------------------------------------------------------------
-- Any number of tasks
-- ---------------------------------------------------------------------------

/-- Tasks that leave nothing, one after the other. -/
inductive Served (root : FsPath) (k₀ : Kernel) : Kernel → Prop
  | start : Served root k₀ k₀
  | task {rules : List BindRule} {k k' : Kernel} (before : Served root k₀ k)
      (t : TaskRun root rules k k') (leaves : LeavesNothing root rules k) : Served root k₀ k'

theorem Prepared.served {root : FsPath} {k₀ k : Kernel} (hPrepared : Prepared root k₀)
    (h : Served root k₀ k) :
    SameBox k₀ k ∧ ∀ d ∈ scratchDirs root, LeadsAnyway k d.1 d.2 := by
  induction h with
  | start => exact ⟨⟨fun _ _ => rfl, rfl⟩, hPrepared.leadsAnyway⟩
  | task before t leaves ih =>
    obtain ⟨hSame, hWay⟩ := ih
    have hEmpty : ∀ p, Scratch p → _ = none := fun p hp =>
      (hSame.nodes p hp.1).trans (hPrepared.empty p hp)
    obtain ⟨hTask, hWay'⟩ := t.same leaves hEmpty hWay
    exact ⟨⟨fun p hp => (hTask.nodes p hp).trans (hSame.nodes p hp),
      hTask.mounts.trans hSame.mounts⟩, hWay'⟩

section

instance (p : Place) : Decidable (Scratch p) := inferInstanceAs (Decidable (_ ∧ _))

instance (p : Place) : Decidable (OnlyScratch p) := inferInstanceAs (Decidable (_ → _))

/-- A program that makes these files. -/
def makeFiles (files : List Location) (k : Kernel) : Kernel :=
  files.foldl (fun k c => k.withNode c .file) k

theorem makeFiles_eq {files : List Location} : ∀ {k : Kernel},
    (∀ c ∈ files, ∀ p ∈ k.place c, Scratch p) → (makeFiles files k).mounts = k.mounts ∧
      ∀ p, ¬ Scratch p → (makeFiles files k).nodes p = k.nodes p := by
  induction files with
  | nil => exact fun _ => ⟨rfl, fun _ _ => rfl⟩
  | cons c files ih =>
    intro k hFiles
    obtain ⟨hFirst, hRest⟩ := List.forall_mem_cons.mp hFiles
    obtain ⟨hMounts, hNodes⟩ := ih (k := k.withNode c .file) hRest
    refine ⟨hMounts, fun p hp => (hNodes p hp).trans (if_neg fun hPlace => hp ?_)⟩
    exact hFirst p hPlace

/-- What is made in the scratch directories is what a program may do. -/
theorem programRun_makeFiles {root : FsPath} {spots : List Spot} {k : Kernel}
    {files : List Location} (hKept : Spot.Kept spots k (makeFiles files k))
    (hFiles : ∀ c ∈ files, ∀ p ∈ k.place c, Scratch p) :
    ProgramRun root spots k (makeFiles files k) := by
  obtain ⟨-, hNodes⟩ := makeFiles_eq hFiles
  exact ⟨hKept, fun p _ hp => hNodes p hp, fun mounts d _ hWay => hWay.of_same rfl hNodes⟩

/-- A task in the small box: its rules and the files that its program makes. -/
structure SmallTask where
  rules : List BindRule
  files : List Location

namespace SmallTask

variable (t : SmallTask) (k : Kernel)

def mounted : Kernel × Except Halt (List Bind) :=
  Bind.mountAll smallRoot (workDir smallRoot) (t.rules.map Bind.ofRule) k

def bound : List Bind := (t.mounted k).2.toOption.getD []

def ran : Kernel := makeFiles t.files (t.mounted k).1

def unmounted : Except Halt Kernel := Bind.umountAll (t.bound k) (t.ran k)

def cleaned : Except Halt Kernel := t.unmounted k >>= cleanupRoot smallRoot

def next : Kernel := (t.cleaned k).toOption.getD k

variable {t k}

theorem eq_ok_getD {α : Type} {x : Except Halt α} {a : α} (h : x.toOption.isSome = true) :
    x = .ok (x.toOption.getD a) := by
  cases x with
  | error e => cases h
  | ok b => rfl

/-- The turn of the task, when no call of it dies. -/
def turn (hMount : (t.mounted k).2.toOption.isSome = true)
    (hRun : ProgramRun smallRoot (taskSpots smallRoot t.rules k) (t.mounted k).1 (t.ran k))
    (hUmount : (t.unmounted k).toOption.isSome = true)
    (hCleanup : (t.cleaned k).toOption.isSome = true) :
    TaskRun smallRoot t.rules k (t.next k) where
  mounted := (t.mounted k).1
  bound := t.bound k
  ran := t.ran k
  unmounted := (t.unmounted k).toOption.getD k
  mount := Prod.ext rfl (eq_ok_getD hMount)
  run := hRun
  umount := eq_ok_getD hUmount
  cleanup := by
    have hCleaned : (t.unmounted k >>= cleanupRoot smallRoot) = .ok (t.next k) :=
      eq_ok_getD hCleanup
    rw [eq_ok_getD (a := k) hUmount] at hCleaned
    exact hCleaned

end SmallTask

/-- A directory of the host twice with another below it in between, and a program
that leaves files. -/
def firstTask : SmallTask where
  rules := [
    { inside := lit "a", outside := lit "/src" },
    { inside := lit "a/b", outside := lit "/src/b" },
    { inside := lit "a", outside := lit "/src" }]
  files := [[lit "box", lit "work", lit "out"], [lit "box", lit "tmp", lit "log"]]

/-- A directory below one that is made for it, a missing source, and a program that
leaves a file beside it. -/
def secondTask : SmallTask where
  rules := [
    { inside := lit "x/y", outside := lit "/src/b" },
    { inside := lit "/data", outside := lit "/gone", flags := Rules.opt },
    { inside := lit "/tmp/z", outside := lit "/usr" }]
  files := [[lit "box", lit "work", lit "x", lit "out"]]

/-- A bind at `/data`. -/
def dataTask : SmallTask where
  rules := [{ inside := lit "/data", outside := lit "/src" }]
  files := []

end

end Libsbox
