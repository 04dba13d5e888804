import Libsbox.Mounts.Steps

/-!
# libsbox — the options of a bind

`Bind::mount` asks for `MS_RDONLY`, `MS_NODEV`, `MS_NOEXEC` and `MS_NOSUID` in
the same call as `MS_BIND`, which takes the options of the source mount and
ignores them; the remount that would set them is never made. A bind is therefore
restricted only as far as the mount it is taken from.

## Results

* `Bind.mount_restricts_iff` — one bind, over any kernel.
* `Bind.mountAll_restricts_iff` — every bind of a list.
-/

namespace Libsbox

open CMemory Kernel

namespace Bind

/-- The restrictions that the flags of a bind stand for. -/
structure Restricts (b : Bind) (options : MountOptions) : Prop where
  ro : b.hasFlag Rules.rw = false → options.ro = true
  nodev : b.hasFlag Rules.dev = false → options.nodev = true
  noexec : b.hasFlag Rules.noexec = true → options.noexec = true
  nosuid : b.hasFlag Rules.suid = false → options.nosuid = true

/-- The mount at the target of a bind: the oldest of the new ones, as the others
are copies of mounts below the source. -/
def createdMount (k k' : Kernel) : Option Mount := (newMounts k k').getLast?

/-- The mount that the source of `b` is in has the restrictions of `b`. -/
def SourceRestricts (b : Bind) (k : Kernel) : Prop :=
  k.status b.outside ≠ none → ∀ s, k.lookup b.outside = .found s →
    ∀ m ∈ k.cover s, b.Restricts m.options

variable {root work : FsPath}

theorem setPaths_eq_ok {b b' : Bind} (h : b.setPaths root work = .ok b') :
    b'.fromPath = b.outside ∧ b'.flags = b.flags := by
  unfold setPaths at h
  split at h
  · cases h
  · obtain rfl := Except.ok.inj h
    exact ⟨rfl, rfl⟩

/-- The mount at the target has the options of the mount of the source. -/
theorem createdMount_of_mounted {b : Bind} {k mid k' : Kernel} (hGrows : Grows k mid)
    (hMounted : Mounted b mid k') :
    createdMount k k' =
      some (topMount hMounted.sourceMount hMounted.source hMounted.target) := by
  have hNew : k'.mounts = hMounted.new ++ k.mounts := by
    rw [← hGrows.mounts]
    exact congrArg Kernel.mounts hMounted.result_eq
  rw [createdMount, newMounts_eq hNew, Mounted.new]
  simp

/-- One bind is restricted exactly when the mount of its source is. -/
theorem mount_restricts_iff {b b' : Bind} {k k' : Kernel}
    (h : b.mount root work k = (k', .ok b')) :
    (∀ m ∈ createdMount k k', b.Restricts m.options) ↔ b.SourceRestricts k := by
  rcases mount_outcome root work b k with ⟨e, hDied⟩ | ⟨b'', hPaths, hOutcome⟩
  · rw [hDied] at h
    cases h
  · obtain ⟨hFrom, -⟩ := setPaths_eq_ok hPaths
    rw [h] at hOutcome
    cases hOutcome with
    | skipped hMissing =>
      have hNone : createdMount k k = none := by simp [createdMount, newMounts]
      simp [hNone, SourceRestricts, ← hFrom, hMissing]
    | mounted hPresent hGrows hMounted =>
      rw [createdMount_of_mounted hGrows hMounted]
      -- the source is found where it was before the mount point was made
      have hSource : k.lookup b.outside = .found hMounted.source := by
        rw [← hFrom]
        obtain ⟨s, hFound⟩ := lookup_of_status hPresent
        have hSame := hMounted.source_found
        rw [lookup_found_mono hGrows.agrees hFound] at hSame
        rwa [← Lookup.found.inj hSame]
      have hCover : k.cover hMounted.source = some hMounted.sourceMount := by
        rw [← hGrows.cover_eq]
        exact hMounted.source_cover
      rw [hFrom] at hPresent
      simp [SourceRestricts, hPresent, hSource, hCover, topMount]

/--
**Restrictions.** For every list of binds with any flags, over any kernel: the
mounts that the successful calls of `Bind::mount` create at their targets all
have the restrictions of their binds if and only if the mount that the source of
each of these binds is in has them already.
-/
theorem mountAll_restricts_iff (root work : FsPath) (binds : List Bind) (k : Kernel) :
    (∀ s ∈ mountSteps root work binds k, ∀ k' b', s.1.mount root work s.2 = (k', .ok b') →
      ∀ m ∈ createdMount s.2 k', s.1.Restricts m.options) ↔
    ∀ s ∈ mountSteps root work binds k, (∃ k' b', s.1.mount root work s.2 = (k', .ok b')) →
      s.1.SourceRestricts s.2 := by
  refine forall₂_congr fun s _ => ?_
  constructor
  · rintro h ⟨k', b', hMount⟩
    exact (mount_restricts_iff hMount).mp (h k' b' hMount)
  · intro h k' b' hMount
    exact (mount_restricts_iff hMount).mpr (h ⟨k', b', hMount⟩)

/-- A bind without flags from a host that is mounted without options is writable. -/
theorem mountAll_not_restricted :
    ¬ ∀ (root work : FsPath) (binds : List Bind) (k : Kernel),
      ∀ s ∈ mountSteps root work binds k, ∀ k' b', s.1.mount root work s.2 = (k', .ok b') →
        ∀ m ∈ createdMount s.2 k', s.1.Restricts m.options := by
  intro h
  let b := ofRule { inside := lit "a", outside := lit "/src" }
  have hRestricts := h smallRoot (workDir smallRoot) [b] smallBox (b, smallBox)
    List.mem_cons_self _ _ (Prod.ext rfl (by rfl)) _ (by rfl)
  have hRo := hRestricts.ro (by decide)
  revert hRo
  decide

end Bind

end Libsbox
