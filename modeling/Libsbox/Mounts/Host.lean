import Libsbox.Mounts.Trees

/-!
# libsbox — mount points on the host

`Bind::mount` makes its mount point with `create_directories` and, for a file,
`open(O_CREAT | O_TRUNC)`. Both follow the path into whatever is mounted on the
way, so a mount point below an earlier bind, or below a standard one, is made in
the tree of the host.

Without `..` in the paths, and in a tree without loose ends, it is the first name
that is missing on the way that must lie in the tmpfs. Behind a `..` there can be
further ones elsewhere.

## Results

* `Bind.mountAll_hostUntouched_iff` — when a list of binds leaves the host alone.
-/

namespace Libsbox

open CMemory Kernel

/-- Files and directories are made and truncated only in the tmpfs of the box, and
nothing else has changed. -/
structure HostUntouched (k k' : Kernel) : Prop where
  log : LogsOnly (fun p => p.fs = .box) k k'
  nodes : ∀ p, p.fs ≠ .box → k'.nodes p = k.nodes p

theorem hostUntouched_iff {k k' : Kernel} (h : Logged k k') :
    HostUntouched k k' ↔ LogsOnly (fun p => p.fs = .box) k k' := by
  refine ⟨HostUntouched.log, fun hLog => ⟨hLog, fun p hp => ?_⟩⟩
  by_contra hChanged
  obtain ⟨e, he, rfl⟩ := h.nodes p hChanged
  exact hp (hLog e he)

/-- In the tmpfs of the box. -/
def InBox (p : Place) : Prop := p.fs = .box

theorem inBox_downward : Downward InBox := fun _ hp _ => hp

namespace Bind

/--
**The host is left alone.** Mounting a list of binds makes and truncates files
only in the tmpfs of the box if and only if, for each bind in the kernel it finds,
each name that is missing on the way to its mount point lies in that tmpfs, once
those before it are there, and so does the file that is made or truncated at the
end. Where no path has a `..` and nothing hangs loose, this comes to one lookup in
the kernel the bind finds: the first missing name lies in the tmpfs, or the file
that is there.
-/
theorem mountAll_hostUntouched_iff (root work : FsPath) (binds : List Bind) (k : Kernel) :
    (HostUntouched k (mountAll root work binds k).1 ↔
      ∀ s ∈ mountSteps root work binds k, s.1.FillsOnly InBox root work s.2) ∧
    (k.Sound → lit ".." ∉ root.names → lit ".." ∉ work.names →
      (∀ b ∈ binds, lit ".." ∉ b.inside.names) →
      (HostUntouched k (mountAll root work binds k).1 ↔
        ∀ s ∈ mountSteps root work binds k, s.1.FirstOnly InBox root work s.2)) := by
  have hFills : HostUntouched k (mountAll root work binds k).1 ↔
      ∀ s ∈ mountSteps root work binds k, s.1.FillsOnly InBox root work s.2 :=
    (hostUntouched_iff (mountAll_logged root work binds k)).trans
      (mountAll_logsOnly_iff_fills binds k)
  refine ⟨hFills, fun hSound hRoot hWork hInside => hFills.trans ?_⟩
  refine forall_congr' fun s => forall_congr' fun hs => ?_
  exact fillsOnly_iff_firstOnly (sound_of_mountSteps hSound s hs) inBox_downward hRoot hWork
    (hInside s.1 (mountSteps_binds s hs))

instance (p : Place) : Decidable (InBox p) := inferInstanceAs (Decidable (_ = _))

/-- Mount points side by side, one of them in a directory that is made for it, and
one that is there below an earlier bind. -/
theorem mountAll_hostUntouched_iff_apart :
    HostUntouched smallBox (mountAll smallRoot (workDir smallRoot) [
      ofRule { inside := lit "a", outside := lit "/src" },
      ofRule { inside := lit "c/d", outside := lit "/src/b" },
      ofRule { inside := lit "a/b", outside := lit "/usr" }] smallBox).1 := by
  refine ((mountAll_hostUntouched_iff smallRoot (workDir smallRoot) _ smallBox).2 smallBox_sound
    ?_ ?_ ?_).mpr ?_
  · decide
  · decide
  · decide
  · decide +kernel

/-- A mount point below an earlier bind is made on the host. -/
theorem mountAll_touches_host :
    ¬ ∀ (root work : FsPath) (binds : List Bind) (k : Kernel),
      HostUntouched k (mountAll root work binds k).1 := by
  intro h
  have hUntouched := h smallRoot (workDir smallRoot)
    [ofRule { inside := lit "a", outside := lit "/src" },
      ofRule { inside := lit "a/c", outside := lit "/src/b" }] smallBox
  have hNode := hUntouched.nodes ⟨.host 0, [lit "src", lit "c"]⟩ (by decide)
  revert hNode
  decide

end Bind

end Libsbox
