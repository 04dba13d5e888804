import Libsbox.Mounts.Points
import Libsbox.Mounts.Ways

/-!
# libsbox — where a bind is mounted

A `Spot` is a bind that is mounted: the kernel with its mount point, where source
and mount point are there, and the mount the source is in. It is read from the
rule and the kernel the bind finds by lookups alone; `Bind.mount_eq_ok` says that
`Bind::mount` mounts there and adds just the mounts of the spot.

## Results

* `Bind.mount_eq_ok`, `Bind.mountAll_eq_ok` — what binds that do not die add to the kernel.
-/

namespace Libsbox

open CMemory Kernel

/-- A bind in the kernel with its mount point. -/
structure Spot where
  path : FsPath
  ready : Kernel
  source : Location
  site : Location
  shown : Mount

namespace Spot

/-- The mounts of the bind, newest first. -/
def added (s : Spot) : List Mount :=
  s.ready.submounts s.source s.site ++ [topMount s.shown s.source s.site]

end Spot

namespace Kernel

/-- `k` with a file where `path` leads to a missing name. -/
def withFile (path : FsPath) (k : Kernel) : Kernel :=
  match k.lookup path with
  | .absent c _ => k.withNode c .file
  | .dangling c => k.withNode c .file
  | _ => k

variable {k k' : Kernel}

/-- A kernel with the mounts of `k`, all its nodes and no further links. -/
structure Extends (k k' : Kernel) : Prop where
  mounts : k'.mounts = k.mounts
  keeps : ∀ p n, k.nodes p = some n → k'.nodes p = some n
  links : ∀ p target, k'.nodes p = some (.symlink target) → k.nodes p = some (.symlink target)

theorem Extends.refl (k : Kernel) : Extends k k := ⟨rfl, fun _ _ hp => hp, fun _ _ hp => hp⟩

theorem Extends.trans {k'' : Kernel} (h : Extends k k') (h' : Extends k' k'') : Extends k k'' :=
  ⟨h'.mounts.trans h.mounts, fun p n hp => h'.keeps p n (h.keeps p n hp),
    fun p target hp => h.links p target (h'.links p target hp)⟩

theorem Vacant.extends {c : Location} {n : Node} (h : k.Vacant c) (hKind : n = .dir ∨ n = .file) :
    Extends k (k.withNode c n) :=
  ⟨rfl, withNode_keeps h.missing, fun _ _ => withNode_links hKind⟩

theorem touched_false_vacant {path : FsPath} {c : Location} (h : k.touched false path = some c) :
    k.Vacant c ∧ k.makable c = true := by
  unfold touched at h
  cases hLookup : k.lookup path with
  | absent c' rest =>
    rw [hLookup] at h
    obtain ⟨hMakable, hAt⟩ := Option.ite_none_right_eq_some.mp h
    obtain rfl := Option.some.inj hAt
    exact ⟨lookup_missing (.inl ⟨rest, hLookup⟩), hMakable⟩
  | _ => simp [hLookup] at h

theorem fill_extends (path : FsPath) (k : Kernel) : Extends k (fill path k) := by
  unfold fill
  cases hTouched : k.touched false path with
  | none => exact Extends.refl k
  | some c => exact (touched_false_vacant hTouched).1.extends (.inl rfl)

theorem complete_extends (path : FsPath) (k : Kernel) : Extends k (k.complete path) := by
  unfold complete
  induction path.names.length with
  | zero => exact Extends.refl k
  | succ n ih =>
    rw [Function.iterate_succ_apply']
    exact ih.trans (fill_extends path _)

theorem withFile_extends (path : FsPath) (k : Kernel) : Extends k (k.withFile path) := by
  unfold withFile
  cases hLookup : k.lookup path with
  | absent c rest => exact (lookup_missing (.inl ⟨rest, hLookup⟩)).extends (.inr rfl)
  | dangling c => exact (lookup_missing (.inr hLookup)).extends (.inr rfl)
  | _ => exact Extends.refl k

theorem withFile_log (path : FsPath) (log : List Event) :
    withFile path { k with log } = { k.withFile path with log } := by
  unfold withFile
  rw [lookup_log]
  cases k.lookup path <;> rfl

theorem create_eq_withNode {kind : EventKind} {n : Node} {c : Location}
    (h : k.create kind n c = .ok k') : ∃ log, k' = { k.withNode c n with log } := by
  rcases create_eq kind n c with ⟨log, -, hCreate⟩ | ⟨-, e, hCreate⟩
  · exact ⟨log, Except.ok.inj (h.symm.trans hCreate)⟩
  · cases h.symm.trans hCreate

/-- What `open` leaves is a file at the end of the lookup. -/
theorem openTruncate_withFile {path : FsPath} (h : k.openTruncate path = .ok k') :
    ∃ log, k' = { k.withFile path with log } := by
  unfold openTruncate at h
  unfold withFile
  cases hLookup : k.lookup path with
  | found c =>
    simp only [hLookup] at h
    split at h
    · split at h
      · cases h
      · exact ⟨_, (Except.ok.inj h).symm⟩
    · cases h
    · exact ⟨k.log, (Except.ok.inj h).symm⟩
  | absent c rest =>
    simp only [hLookup] at h
    cases rest with
    | nil => exact create_eq_withNode h
    | cons => cases h
  | dangling c =>
    simp only [hLookup] at h
    exact create_eq_withNode h
  | fail e =>
    simp only [hLookup] at h
    cases h

end Kernel

namespace Bind

def spotIn (b : Bind) (ready : Kernel) : Option Spot :=
  match ready.lookup b.fromPath, ready.lookup b.toPath with
  | .found source, .found site =>
    (ready.cover source).map fun shown => ⟨b.toPath, ready, source, site, shown⟩
  | _, _ => none

/-- Where `b` is mounted in the kernel it finds; not when it is skipped. -/
def spot (root work : FsPath) (b : Bind) (k : Kernel) : Option Spot :=
  match b.setPaths root work with
  | .error _ => none
  | .ok b =>
    match k.status b.fromPath with
    | some .dir => b.spotIn (k.complete b.toPath)
    | some .file => b.spotIn ((k.complete b.toPath.parentPath).withFile b.toPath)
    | _ => none

/-- The binds that are mounted, oldest first. -/
def spots (root work : FsPath) (binds : List Bind) (k : Kernel) : List Spot :=
  (mountSteps root work binds k).filterMap fun s => s.1.spot root work s.2

end Bind

/-- What holds of the spot of a bind that found `k`. -/
structure Spot.Stands (k : Kernel) (s : Spot) : Prop where
  extend : Extends k s.ready
  found : s.ready.lookup s.path = .found s.site
  shown : s.ready.cover s.source = some s.shown
  solid : s.ready.node s.source = some .dir ∨ s.ready.node s.source = some .file
  kind : s.ready.node s.source = some .dir ↔ s.ready.node s.site = some .dir

namespace Bind

variable {root work : FsPath} {b b' : Bind} {k k' : Kernel}

/-- A call of `::mount` that succeeds. -/
theorem callMount_eq_ok (h : b.callMount k = (k', .ok b')) :
    ∃ source site shown, k.lookup b.fromPath = .found source ∧ k.lookup b.toPath = .found site ∧
      k.cover source = some shown ∧ (k.node source = some .dir ↔ k.node site = some .dir) ∧
      b' = { b with mounted := true } ∧
      k' = { k with
        mounts := k.submounts source site ++ topMount shown source site :: k.mounts } := by
  unfold callMount Kernel.mount at h
  cases hTarget : k.lookup b.toPath with
  | found site =>
    cases hSource : k.lookup b.fromPath with
    | found source =>
      cases hCover : k.cover source with
      | none => simp [hTarget, hSource, mountFlags, bindMount, hCover] at h
      | some shown =>
        by_cases hKind : (k.node source = some .dir) ≠ (k.node site = some .dir)
        · simp [hTarget, hSource, mountFlags, bindMount, hCover, hKind] at h
        · simp only [hTarget, hSource, mountFlags, bindMount, hCover, hKind, Bool.false_eq_true,
            if_false, if_true, Prod.mk.injEq, Except.ok.injEq] at h
          obtain ⟨rfl, rfl⟩ := h
          exact ⟨source, site, shown, rfl, rfl, hCover, iff_of_eq (not_not.mp hKind), rfl, rfl⟩
    | _ => simp [hTarget, hSource, mountFlags] at h
  | _ => simp [hTarget] at h

/-- A bind whose mount point is there up to the log. -/
theorem spotIn_of_callMount {ready : Kernel} {log : List Event} {n : Node}
    (hExtends : Extends k ready) (hStatus : k.status b.fromPath = some n) (hKind : n = .dir ∨ n = .file)
    (h : b.callMount { ready with log } = (k', .ok b')) :
    ∃ s, b.spotIn ready = some s ∧ s.Stands k ∧ b'.mounted = true ∧ b'.toPath = s.path ∧
      k'.nodes = s.ready.nodes ∧ k'.mounts = s.added ++ k.mounts := by
  obtain ⟨source, site, shown, hSource, hSite, hCover, hSame, rfl, rfl⟩ := callMount_eq_ok h
  rw [lookup_log] at hSource hSite
  have hAgrees : Agrees k ready := agrees_of_keeps hExtends.mounts hExtends.keeps
  have hSolid : ready.node source = some n := by
    obtain ⟨c, hLookup⟩ := lookup_of_status (by simp [hStatus] : k.status b.fromPath ≠ none)
    have hThere : k.node c = some n := by simpa [status, hLookup] using hStatus
    have hStill := lookup_found_mono hAgrees hLookup
    rw [hSource] at hStill
    rw [Lookup.found.inj hStill]
    exact hAgrees c n hThere
  refine ⟨⟨b.toPath, ready, source, site, shown⟩, ?_, ⟨hExtends, hSite, hCover, ?_, hSame⟩,
    rfl, rfl, rfl, ?_⟩
  · have hCover' : ready.cover source = some shown := hCover
    simp [spotIn, hSource, hSite, hCover']
  · rcases hKind with rfl | rfl
    · exact .inl hSolid
    · exact .inr hSolid
  · show ready.submounts source site ++ topMount shown source site :: ready.mounts = _
    simp [Spot.added, hExtends.mounts]

theorem setPaths_mounted (h : b.setPaths root work = .ok b') : b'.mounted = b.mounted := by
  unfold setPaths at h
  split at h
  · cases h
  · obtain rfl := Except.ok.inj h
    rfl

/-- **What a bind adds.** A bind that does not die is skipped, or it is mounted at its spot. -/
theorem mount_eq_ok (h : b.mount root work k = (k', .ok b')) :
    (b.spot root work k = none ∧ k' = k ∧ b'.mounted = b.mounted) ∨
      ∃ s, b.spot root work k = some s ∧ s.Stands k ∧ b'.mounted = true ∧ b'.toPath = s.path ∧
        k'.nodes = s.ready.nodes ∧ k'.mounts = s.added ++ k.mounts := by
  unfold mount at h
  cases hPaths : b.setPaths root work with
  | error e => simp [hPaths] at h
  | ok b₁ =>
    simp only [hPaths] at h
    cases hStatus : k.status b₁.fromPath with
    | none =>
      simp only [hStatus] at h
      split at h
      · obtain ⟨rfl, hBind⟩ := Prod.mk.inj h
        obtain rfl := Except.ok.inj hBind
        exact .inl ⟨by simp [spot, hPaths, hStatus], rfl, setPaths_mounted hPaths⟩
      · cases (Prod.mk.inj h).2
    | some n =>
      cases n with
      | dir =>
        simp only [hStatus, mountDirectory] at h
        split at h
        · cases (Prod.mk.inj h).2
        · next mid hMid =>
          obtain ⟨⟨log, rfl⟩, -⟩ := createDirectories_complete hMid
          obtain ⟨s, hSpot, hRest⟩ :=
            spotIn_of_callMount (complete_extends b₁.toPath k) hStatus (.inl rfl) h
          exact .inr ⟨s, by simp [spot, hPaths, hStatus, hSpot], hRest⟩
      | file =>
        simp only [hStatus, mountFile] at h
        split at h
        · cases (Prod.mk.inj h).2
        · next mid hMid =>
          split at h
          · cases (Prod.mk.inj h).2
          · next mid' hOpen =>
            obtain ⟨⟨log, rfl⟩, -⟩ := createDirectories_complete hMid
            obtain ⟨log', rfl⟩ := openTruncate_withFile hOpen
            rw [withFile_log] at h
            have hExtends := (complete_extends b₁.toPath.parentPath k).trans
              (withFile_extends b₁.toPath _)
            obtain ⟨s, hSpot, hRest⟩ := spotIn_of_callMount hExtends hStatus (.inr rfl) h
            exact .inr ⟨s, by simp [spot, hPaths, hStatus, hSpot], hRest⟩
      | _ => simp [hStatus] at h

-- ---------------------------------------------------------------------------
-- A list of binds
-- ---------------------------------------------------------------------------

/-- The targets of the binds that are mounted. -/
def mountedPaths (binds : List Bind) : List FsPath :=
  (binds.filter fun b => b.mounted).map fun b => b.toPath

/-- The spots of binds that were mounted one after the other. -/
inductive Laid : Kernel → List Spot → Kernel → Prop
  | nil (k : Kernel) : Laid k [] k
  | cons {k k₁ k' : Kernel} {s : Spot} {spots : List Spot} (stands : s.Stands k)
      (nodes : k₁.nodes = s.ready.nodes) (mounts : k₁.mounts = s.added ++ k.mounts)
      (rest : Laid k₁ spots k') : Laid k (s :: spots) k'

theorem mountSteps_binds : ∀ {binds : List Bind} {k : Kernel},
    ∀ s ∈ mountSteps root work binds k, s.1 ∈ binds
  | [], _ => by simp [mountSteps]
  | b :: binds, k => by
    rw [mountSteps, List.forall_mem_cons]
    refine ⟨List.mem_cons_self, fun s hs => List.mem_cons_of_mem _ ?_⟩
    split at hs
    · cases hs
    · exact mountSteps_binds s hs

theorem spots_cons_none (h : b.spot root work k = none) (hMount : b.mount root work k = (k', .ok b'))
    (binds : List Bind) : spots root work (b :: binds) k = spots root work binds k' := by
  simp [spots, mountSteps, hMount, h]

theorem spots_cons_some {s : Spot} (h : b.spot root work k = some s)
    (hMount : b.mount root work k = (k', .ok b')) (binds : List Bind) :
    spots root work (b :: binds) k = s :: spots root work binds k' := by
  simp [spots, mountSteps, hMount, h]

/-- **What a list of binds adds.** Binds of which none dies are laid at their spots. -/
theorem mountAll_eq_ok : ∀ {binds bs : List Bind} {k k' : Kernel},
    mountAll root work binds k = (k', .ok bs) → (∀ b ∈ binds, b.mounted = false) →
      Laid k (spots root work binds k) k' ∧
        mountedPaths bs = (spots root work binds k).map Spot.path
  | [], bs, k, k', h, _ => by
    obtain ⟨rfl, hBinds⟩ := Prod.mk.inj h
    obtain rfl := Except.ok.inj hBinds
    exact ⟨.nil _, rfl⟩
  | b :: binds, bs, k, k', h, hNew => by
    obtain ⟨hFirst, hNew⟩ := List.forall_mem_cons.mp hNew
    rw [mountAll] at h
    split at h
    · cases h
    · next mid b' hMount =>
      split at h
      · cases h
      · next k'' bs' hAll =>
        obtain ⟨rfl, hBinds⟩ := Prod.mk.inj h
        obtain rfl := Except.ok.inj hBinds
        obtain ⟨hLaid, hPaths⟩ := mountAll_eq_ok hAll hNew
        rcases mount_eq_ok hMount with ⟨hNone, rfl, hMounted⟩ |
          ⟨s, hSpot, hStands, hMounted, hPath, hNodes, hMounts⟩
        · rw [spots_cons_none hNone hMount]
          exact ⟨hLaid, by simp [mountedPaths, hMounted, hFirst, ← hPaths]⟩
        · rw [spots_cons_some hSpot hMount]
          exact ⟨.cons hStands hNodes hMounts hLaid, by simp [mountedPaths, hMounted, hPath, ← hPaths]⟩

namespace Laid

variable {spots before after : List Spot} {s : Spot}

theorem extends_nodes (h : Laid k spots k') : ∀ p n, k.nodes p = some n → k'.nodes p = some n := by
  induction h with
  | nil => exact fun _ _ hp => hp
  | cons stands nodes _ _ ih =>
    intro p n hp
    refine ih p n ?_
    rw [nodes]
    exact stands.extend.keeps p n hp

theorem mounts_eq (h : Laid k spots k') :
    k'.mounts = spots.reverse.flatMap Spot.added ++ k.mounts := by
  induction h with
  | nil => rfl
  | cons _ _ mounts _ ih => simp [ih, mounts, List.flatMap_append]

/-- One of the binds finds the mounts of those before it, and its nodes stay. -/
theorem split : ∀ {before : List Spot} {k : Kernel}, Laid k (before ++ s :: after) k' →
    ∃ mid, s.Stands mid ∧ s.ready.mounts = before.reverse.flatMap Spot.added ++ k.mounts ∧
      ∀ p n, s.ready.nodes p = some n → k'.nodes p = some n
  | [], k, h => by
    cases h with
    | cons stands nodes _ rest =>
      exact ⟨k, stands, stands.extend.mounts, by rw [← nodes]; exact rest.extends_nodes⟩
  | first :: before, k, h => by
    cases h with
    | cons _ _ mounts rest =>
      obtain ⟨mid, hStands, hMounts, hKeeps⟩ := split rest
      exact ⟨mid, hStands, by simp [hMounts, mounts, List.flatMap_append], hKeeps⟩

theorem stands (h : Laid k spots k') (hs : s ∈ spots) : ∃ mid, s.Stands mid := by
  obtain ⟨before, after, rfl⟩ := List.append_of_mem hs
  obtain ⟨mid, hStands, -⟩ := h.split
  exact ⟨mid, hStands⟩

end Laid

end Bind

end Libsbox
