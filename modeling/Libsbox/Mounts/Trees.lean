import Libsbox.Mounts.Spots
import Mathlib.Data.List.Find

/-!
# libsbox — trees without loose ends

In the tree of a running system a node lies in a directory, a mount shows a node
that is there, and nothing is mounted below a missing name (`Sound`). Binds keep
this. So below the first missing name of a path there is nothing, and without
`..` all that is made for a mount point is made there.

## Results

* `Bind.sound_of_mountSteps` — every bind finds a sound kernel.
* `Sound.fills_iff` — the first missing name decides.
-/

namespace Libsbox

open CMemory Kernel

namespace Kernel

variable {k k' : Kernel}

/-- No loose ends. -/
structure Sound (k : Kernel) : Prop where
  tree : ∀ fs path name, k.nodes ⟨fs, path ++ [name]⟩ ≠ none → k.nodes ⟨fs, path⟩ = some .dir
  roots : ∀ m ∈ k.mounts, k.nodes ⟨m.fs, m.root⟩ ≠ none
  under : ∀ c, k.node c = none → ∀ r, k.cover (c ++ r) = k.cover c

/-- What a mount shows further below. -/
theorem place_append {c r : Location} {m : Mount} (h : k.cover c = some m)
    (hSame : k.cover (c ++ r) = k.cover c) :
    k.place (c ++ r) = some ⟨m.fs, m.root ++ c.drop m.target.length ++ r⟩ := by
  have hLength := (cover_isPrefix h).length_le
  rw [place, hSame, h, Option.map_some, List.drop_append_of_le_length hLength, List.append_assoc]

-- ---------------------------------------------------------------------------
-- Below a missing name
-- ---------------------------------------------------------------------------

theorem Sound.congr (h : k.Sound) (hNodes : k'.nodes = k.nodes) (hMounts : k'.mounts = k.mounts) :
    k'.Sound := by
  have hCover : ∀ c, k'.cover c = k.cover c := fun c => by rw [cover, cover, hMounts]
  have hNode : ∀ c, k'.node c = k.node c := fun c => by rw [node, node, place, place, hCover, hNodes]
  refine ⟨fun fs path name => ?_, fun m hm => ?_, fun c hc r => ?_⟩
  · rw [hNodes]
    exact h.tree fs path name
  · rw [hNodes]
    exact h.roots m (hMounts ▸ hm)
  · rw [hCover, hCover]
    exact h.under c (hNode c ▸ hc) r

theorem Sound.nodes_below (h : k.Sound) {fs : FsId} {path : List Str}
    (hNone : k.nodes ⟨fs, path⟩ = none) (r : List Str) : k.nodes ⟨fs, path ++ r⟩ = none := by
  induction r using List.reverseRecOn with
  | nil => rwa [List.append_nil]
  | append_singleton r name ih =>
    by_contra hSome
    rw [← List.append_assoc] at hSome
    have hDir := h.tree fs (path ++ r) name hSome
    rw [ih] at hDir
    cases hDir

theorem Sound.node_below (h : k.Sound) {c : Location} (hNone : k.node c = none) (r : List Str) :
    k.node (c ++ r) = none := by
  have hSame := h.under c hNone r
  cases hCover : k.cover c with
  | none => rw [node, place_none (hSame.trans hCover), Option.bind_none]
  | some m =>
    rw [node, place_append hCover hSame, Option.bind_some]
    refine h.nodes_below ?_ r
    simpa [node, place_eq_some hCover] using hNone

/-- A missing name is in the mount of its directory. -/
theorem Sound.cover_vacant (h : k.Sound) {d : Location} {name : Str}
    (hNone : k.node (d ++ [name]) = none) : k.cover (d ++ [name]) = k.cover d := by
  cases hCover : k.cover (d ++ [name]) with
  | none =>
    refine (cover_eq_none_iff.mpr fun m hm hAt => ?_).symm
    exact cover_eq_none_iff.mp hCover m hm (hAt.trans (List.prefix_append _ _))
  | some m =>
    obtain ⟨hAt, newer, older, hMounts, hNewer⟩ := cover_eq_some_iff.mp hCover
    rcases List.prefix_concat_iff.mp hAt with hTarget | hBelow
    · -- a mount at the name would show a node
      have hRoot := h.roots m (by rw [hMounts]; simp)
      have hPlace := place_eq_some hCover
      rw [hTarget, List.drop_length, List.append_nil] at hPlace
      rw [node, hPlace, Option.bind_some] at hNone
      exact absurd hNone hRoot
    · refine (cover_eq_some_iff.mpr ⟨hBelow, newer, older, hMounts, fun x hx hPrefix => ?_⟩).symm
      exact hNewer x hx (hPrefix.trans (List.prefix_append _ _))

theorem Sound.withNode (h : k.Sound) {c : Location} (hVacant : k.Vacant c) (n : Node) :
    (k.withNode c n).Sound := by
  obtain ⟨hNone, d, name, rfl, hDir⟩ := hVacant
  have hKeeps := withNode_keeps (k := k) (n := n) hNone
  refine ⟨fun fs path x hSome => ?_, fun m hm hNot => ?_, fun e hMissing r => ?_⟩
  · by_cases hAt : k.place (d ++ [name]) = some ⟨fs, path ++ [x]⟩
    · -- the directory of the new node
      have hCover := h.cover_vacant hNone
      obtain ⟨m, hm⟩ : ∃ m, k.cover d = some m := by
        cases hd : k.cover d with
        | none => simp [node, place_none hd] at hDir
        | some m => exact ⟨m, rfl⟩
      rw [place_append hm hCover] at hAt
      obtain ⟨rfl, hPath⟩ := Place.mk.inj (Option.some.inj hAt)
      obtain ⟨rfl, -⟩ := List.append_inj' hPath rfl
      refine hKeeps _ _ ?_
      simpa [node, place_eq_some hm] using hDir
    · have hOld : k.nodes ⟨fs, path ++ [x]⟩ ≠ none := by
        intro hNone'
        refine hSome ?_
        show (if k.place (d ++ [name]) = some ⟨fs, path ++ [x]⟩ then some n
          else k.nodes ⟨fs, path ++ [x]⟩) = none
        rw [if_neg hAt, hNone']
      exact hKeeps _ _ (h.tree fs path x hOld)
  · obtain ⟨n', hn'⟩ := Option.ne_none_iff_exists'.mp (h.roots m hm)
    rw [hKeeps _ _ hn'] at hNot
    cases hNot
  · refine h.under e ?_ r
    cases hNode : k.node e with
    | none => rfl
    | some n' =>
      rw [withNode_agrees hNone e n' hNode] at hMissing
      cases hMissing

theorem Sound.fill (h : k.Sound) (path : FsPath) : (fill path k).Sound := by
  unfold Kernel.fill
  cases hTouched : k.touched false path with
  | none => exact h
  | some c => exact h.withNode (touched_false_vacant hTouched).1 .dir

theorem Sound.complete (h : k.Sound) (path : FsPath) : (k.complete path).Sound := by
  unfold Kernel.complete
  induction path.names.length with
  | zero => exact h
  | succ n ih =>
    rw [Function.iterate_succ_apply']
    exact ih.fill path

theorem Sound.withFile (h : k.Sound) (path : FsPath) : (k.withFile path).Sound := by
  unfold Kernel.withFile
  cases hLookup : k.lookup path with
  | absent c rest => exact h.withNode (lookup_missing (.inl ⟨rest, hLookup⟩)) .file
  | dangling c => exact h.withNode (lookup_missing (.inr hLookup)) .file
  | _ => exact h

-- ---------------------------------------------------------------------------
-- Below a bind
-- ---------------------------------------------------------------------------

/-- What a recursive bind of `s` at `t` makes of a mount that shows something at or
below `s`. -/
def rebase (s t : Location) (m : Mount) : Mount :=
  if m.target <+: s then topMount m s t else { m with target := t ++ m.target.drop s.length }

section

variable {s t : Location} {m : Mount}

/-- The kernel after a recursive bind. -/
def bound (k : Kernel) (s t : Location) (m : Mount) : Kernel :=
  { k with mounts := k.submounts s t ++ topMount m s t :: k.mounts }

theorem bound_cover (hCover : k.cover s = some m) (d : Location) :
    (k.bound s t m).cover (t ++ d) = (k.cover (s ++ d)).map (rebase s t) := by
  obtain ⟨hAt, newer, older, hMounts, hNewer⟩ := cover_eq_some_iff.mp hCover
  have hTake : (k.mounts.takeWhile fun x => !x.target.isPrefixOf s) = newer := by
    rw [hMounts, List.takeWhile_append_of_pos]
    · simp [hAt]
    · intro x hx
      simpa [isPrefixOf_eq_false_iff] using hNewer x hx
  have hBelow : ∀ x ∈ newer, (s.isPrefixOf x.target = true ∧
      (t ++ x.target.drop s.length).isPrefixOf (t ++ d) = true) ↔
        x.target.isPrefixOf (s ++ d) = true := by
    intro x hx
    simp only [List.isPrefixOf_iff_prefix, List.prefix_append_right_inj]
    constructor
    · rintro ⟨⟨e, he⟩, hPrefix⟩
      rw [← he, List.drop_left] at hPrefix
      rw [← he]
      exact (List.prefix_append_right_inj s).mpr hPrefix
    · intro hPrefix
      obtain ⟨e, he⟩ := (List.prefix_or_prefix_of_prefix hPrefix (List.prefix_append s d)).resolve_left
        (hNewer x hx)
      rw [← he] at hPrefix ⊢
      rw [List.drop_left]
      exact ⟨List.prefix_append _ _, (List.prefix_append_right_inj s).mp hPrefix⟩
  have hCopies : (k.submounts s t).find? (fun x => x.target.isPrefixOf (t ++ d)) =
      (newer.find? fun x => x.target.isPrefixOf (s ++ d)).map
        fun x => { x with target := t ++ x.target.drop s.length } := by
    rw [submounts, hTake, List.find?_map, List.find?_filter]
    congr 1
    refine List.find?_congr fun x hx => ?_
    rw [Bool.eq_iff_iff, decide_eq_true_iff]
    exact hBelow x hx
  have hRest : ∀ x, newer.find? (fun x => x.target.isPrefixOf (s ++ d)) = some x →
      rebase s t x = { x with target := t ++ x.target.drop s.length } :=
    fun x hx => if_neg (hNewer x (List.mem_of_find?_eq_some hx))
  rw [cover, cover, bound, hMounts, List.find?_append, List.find?_append, hCopies]
  cases hFind : newer.find? fun x => x.target.isPrefixOf (s ++ d) with
  | some x => simp [hRest x hFind]
  | none =>
    have hTop : m.target.isPrefixOf (s ++ d) = true :=
      List.isPrefixOf_iff_prefix.mpr (hAt.trans (List.prefix_append _ _))
    simp [hTop, topMount, rebase, hAt]

theorem bound_place (hCover : k.cover s = some m) (d : Location) :
    (k.bound s t m).place (t ++ d) = k.place (s ++ d) := by
  rw [place, place, bound_cover hCover]
  cases hAt : k.cover (s ++ d) with
  | none => rfl
  | some x =>
    simp only [Option.map_some, Option.some.injEq]
    have hPrefix := cover_isPrefix hAt
    unfold rebase
    split
    · next hAbove =>
      obtain ⟨e, rfl⟩ := hAbove
      simp [topMount, List.append_assoc]
    · next hNot =>
      obtain ⟨e, he⟩ := (List.prefix_or_prefix_of_prefix hPrefix (List.prefix_append s d)).resolve_left
        hNot
      rw [← he] at hPrefix ⊢
      obtain ⟨f, rfl⟩ := (List.prefix_append_right_inj s).mp hPrefix
      simp [← List.append_assoc]

theorem bound_node (hCover : k.cover s = some m) (d : Location) :
    (k.bound s t m).node (t ++ d) = k.node (s ++ d) := by
  rw [node, node, bound_place hCover]
  rfl

theorem bound_cover_apart {c : Location} (hApart : ¬ t <+: c) :
    (k.bound s t m).cover c = k.cover c := by
  refine cover_append (k.submounts s t ++ [topMount m s t]) (by simp [bound]) fun x hx hPrefix => ?_
  rcases List.mem_append.mp hx with hCopy | hTop
  · exact hApart ((submounts_below hCopy).1.trans hPrefix)
  · rw [List.mem_singleton.mp hTop] at hPrefix
    exact hApart hPrefix

/-- A bind at a location in directories leaves no loose ends. -/
theorem Sound.bound (h : k.Sound) (hCover : k.cover s = some m) (hSource : k.node s ≠ none)
    (hAbove : ∀ p, Above p t → k.node p ≠ none) : (k.bound s t m).Sound := by
  refine ⟨h.tree, fun x hx => ?_, fun c hNone r => ?_⟩
  · show k.nodes ⟨x.fs, x.root⟩ ≠ none
    rcases List.mem_append.mp hx with hCopy | hOld
    · obtain ⟨y, hy, rfl⟩ := List.mem_map.mp hCopy
      exact h.roots y ((List.takeWhile_sublist _).subset (List.mem_filter.mp hy).1)
    · rcases List.mem_cons.mp hOld with rfl | hOld
      · simpa [node, place_eq_some hCover, topMount] using hSource
      · exact h.roots x hOld
  · by_cases hBelow : t <+: c
    · obtain ⟨d, rfl⟩ := hBelow
      rw [bound_node hCover] at hNone
      rw [List.append_assoc, bound_cover hCover, bound_cover hCover, ← List.append_assoc,
        h.under _ hNone]
    · have hNode : (k.bound s t m).node c = k.node c := by
        rw [node, node, place, place, bound_cover_apart hBelow]
        rfl
      rw [hNode] at hNone
      have hFurther : ¬ t <+: c ++ r := by
        intro hPrefix
        have hUp := (List.prefix_or_prefix_of_prefix hPrefix (List.prefix_append c r)).resolve_left
          hBelow
        exact hAbove c ⟨hUp, fun hEq => hBelow (hEq ▸ List.prefix_rfl)⟩ hNone
      rw [bound_cover_apart hBelow, bound_cover_apart hFurther, h.under c hNone]

end

end Kernel

-- ---------------------------------------------------------------------------
-- The first missing name
-- ---------------------------------------------------------------------------

namespace Kernel

variable {k k' : Kernel} {P : Place → Prop} {file : Bool} {way path : FsPath}

/-- A new directory: there is nothing in it, and nothing is mounted below it. -/
structure Bare (k : Kernel) (c : Location) : Prop where
  dir : k.node c = some .dir
  empty : ∀ r, r ≠ [] → k.node (c ++ r) = none
  under : ∀ r, k.cover (c ++ r) = k.cover c

theorem bare_withNode {c : Location} (hEmpty : ∀ r, k.node (c ++ r) = none)
    (hUnder : ∀ r, k.cover (c ++ r) = k.cover c) (hMakable : k.makable c = true) :
    (k.withNode c .dir).Bare c := by
  refine ⟨withNode_node hMakable, fun r hr => ?_, hUnder⟩
  obtain ⟨m, hCover, -⟩ := makable_iff.mp hMakable
  have hPlace : (k.withNode c .dir).place (c ++ r) = k.place (c ++ r) := rfl
  have hNone := hEmpty r
  rw [node, place_append hCover (hUnder r), Option.bind_some] at hNone
  rw [node, hPlace, place_append hCover (hUnder r), Option.bind_some]
  show (if k.place c = some _ then _ else k.nodes _) = none
  rw [if_neg, hNone]
  rw [place_eq_some hCover]
  simpa using hr

theorem Sound.bare (h : k.Sound) {c : Location} (hNone : k.node c = none)
    (hMakable : k.makable c = true) : (k.withNode c .dir).Bare c :=
  bare_withNode (h.node_below hNone) (h.under c hNone) hMakable

/-- The next directory below a new one. -/
theorem Bare.withNode {c : Location} (h : k.Bare c) {name : Str}
    (hMakable : k.makable (c ++ [name]) = true) : (k.withNode (c ++ [name]) .dir).Bare (c ++ [name]) := by
  refine bare_withNode (fun r => ?_) (fun r => ?_) hMakable
  · rw [List.append_assoc]
    exact h.empty _ (by simp)
  · rw [List.append_assoc, h.under, h.under]

theorem Bare.step {c : Location} (h : k.Bare c) {name : Str} (hUp : name ≠ lit "..") :
    k.step c name = .found c ∨ k.step c name = .absent (c ++ [name]) [] := by
  by_cases hStay : name = [] ∨ name = lit "."
  · exact .inl (by rw [Kernel.step, stepWith, if_neg (not_not.mpr h.dir), if_pos hStay])
  · obtain ⟨hNil, hDot⟩ := not_or.mp hStay
    exact .inr (by rw [step_plain h.dir ⟨hNil, hDot, hUp⟩, h.empty [name] (by simp)])

/-- Without `..` a way from a new directory ends there or at the next name. -/
theorem Bare.walk {c : Location} (h : k.Bare c) : ∀ {names : List Str}, lit ".." ∉ names →
    k.walk 40 c names = .found c ∨ ∃ name rest, k.walk 40 c names = .absent (c ++ [name]) rest
  | [], _ => .inl rfl
  | name :: rest, hUp => by
    obtain ⟨hName, hRest⟩ := not_or.mp (mt List.mem_cons.mpr hUp)
    rcases h.step (Ne.symm hName) with hStep | hStep
    · rw [Kernel.step] at hStep
      rcases h.walk hRest with hFound | ⟨next, further, hAbsent⟩
      · exact .inl (walkWith_cons_found.mpr ⟨c, hStep, hFound⟩)
      · refine .inr ⟨next, further, ?_⟩
        rw [Kernel.walk, walkWith, hStep]
        exact hAbsent
    · rw [Kernel.step] at hStep
      exact .inr ⟨name, rest, by rw [Kernel.walk, walkWith, hStep]⟩

theorem Bare.spares {a names : List Str} {c : Location} (h : k.Bare c)
    (hWay : k.walk 40 [] a = .found c) (hPath : path.names = a ++ names) (hUp : lit ".." ∉ names)
    (hPlaces : ∀ r, ∀ p ∈ k.place (c ++ r), P p) : Spares P file path k := by
  have hLookup := lookup_of_walk hWay hPath
  rcases h.walk hUp with hFound | ⟨name, rest, hAbsent⟩
  · rw [hFound] at hLookup
    exact spares_none (by simp [touched, hLookup, h.dir])
  · rw [hAbsent] at hLookup
    intro c' hTouched
    simp only [touched, hLookup, Option.mem_def] at hTouched
    obtain ⟨-, hAt⟩ := Option.ite_none_right_eq_some.mp hTouched
    rw [← Option.some.inj hAt]
    exact hPlaces [name]

/-- From a new directory on, what is made is below it. -/
theorem Bare.fills {tail : List Str} : ∀ (b : List Str) {a : List Str} {k : Kernel} {c : Location},
    k.Bare c → k.walk 40 [] a = .found c → way.names = a ++ b → path.names = a ++ b ++ tail →
    lit ".." ∉ b ++ tail → (∀ r, ∀ p ∈ k.place (c ++ r), P p) →
    ∀ i, Spares P file path ((fill way)^[i] k)
  | [], a, k, c, h, hWay, hNames, hPath, hUp, hPlaces, i => by
    have hFound : k.lookup way = .found c := lookup_of_walk hWay hNames
    rw [Function.iterate_fixed (fill_eq_self (by simp [touched, hFound]))]
    exact h.spares hWay (by rw [hPath]; simp) hUp hPlaces
  | name :: rest, a, k, c, h, hWay, hNames, hPath, hUp, hPlaces, i => by
    have hHere : Spares P file path k := h.spares hWay (by rw [hPath]; simp) hUp hPlaces
    obtain ⟨hName, hRest⟩ := not_or.mp (mt List.mem_cons.mpr hUp)
    rcases h.step (Ne.symm hName) with hStep | hStep
    · have hWay' : k.walk 40 [] (a ++ [name]) = .found c :=
        walkWith_append_found.mpr ⟨c, hWay, walkWith_cons_found.mpr ⟨c, hStep, rfl⟩⟩
      exact h.fills rest hWay' (by rw [hNames]; simp) (by rw [hPath]; simp) hRest hPlaces i
    · have hAbsent : k.lookup way = .absent (c ++ [name]) rest := lookup_absent hWay hStep hNames
      by_cases hMakable : k.makable (c ++ [name]) = true
      · cases i with
        | zero => exact hHere
        | succ i =>
          have hFill : fill way k = k.withNode (c ++ [name]) .dir := by
            simp [fill, touched, hAbsent, hMakable]
          have hWay' : (k.withNode (c ++ [name]) .dir).walk 40 [] (a ++ [name]) =
              .found (c ++ [name]) :=
            walkWith_append_found.mpr
              ⟨c, walk_found_mono (withNode_agrees (step_missing hStep).missing) hWay,
                walkWith_cons_found.mpr ⟨c ++ [name], step_withNode hStep hMakable, rfl⟩⟩
          rw [Function.iterate_succ_apply, hFill]
          refine (h.withNode hMakable).fills rest hWay' (by rw [hNames]; simp) (by rw [hPath]; simp)
            hRest (fun r => ?_) i
          rw [List.append_assoc]
          exact hPlaces ([name] ++ r)
      · rw [Function.iterate_fixed (fill_eq_self (by simp [touched, hAbsent, hMakable]))]
        exact hHere

/-- A lookup that ends at a missing name, name by name. -/
theorem walk_absent_split : ∀ {names : List Str} {c c' : Location} {rest : List Str},
    k.walk 40 c names = .absent c' rest → ∃ a d name, names = a ++ name :: rest ∧
      k.walk 40 c a = .found d ∧ k.step d name = .absent c' []
  | [], _, _, _, h => by cases h
  | name :: names, c, c', rest, h => by
    rw [walk, walkWith] at h
    cases hStep : k.stepWith (k.walk 39) c name with
    | found mid =>
      rw [hStep] at h
      obtain ⟨a, d, last, rfl, hWalk, hLast⟩ := walk_absent_split (c := mid) h
      exact ⟨name :: a, d, last, rfl, walkWith_cons_found.mpr ⟨mid, hStep, hWalk⟩, hLast⟩
    | absent c'' r =>
      rw [hStep] at h
      obtain ⟨rfl, rfl⟩ := Lookup.absent.inj h
      obtain ⟨-, rfl, -⟩ := step_absent hStep
      exact ⟨[], c, name, rfl, rfl, hStep⟩
    | dangling c'' =>
      rw [hStep] at h
      dsimp only at h
      split at h <;> cases h
    | fail e =>
      rw [hStep] at h
      cases h

/-- Places of which those further below are too. -/
def Downward (P : Place → Prop) : Prop := ∀ p, P p → ∀ r, P ⟨p.fs, p.path ++ r⟩

/-- **The first missing name decides** where a mount point is made. -/
theorem Sound.fills_iff (h : k.Sound) (hDown : Downward P) {tail : List Str}
    (hPath : path.names = way.names ++ tail) (hUp : lit ".." ∉ path.names) :
    Fills P file way path k ↔ Spares P file path k := by
  refine ⟨fun hFills => hFills 0 (Nat.zero_le _), fun hHere i _ => ?_⟩
  cases hTouched : k.touched false way with
  | none =>
    rw [Function.iterate_fixed (fill_eq_self hTouched)]
    exact hHere
  | some c =>
    obtain ⟨hVacant, hMakable⟩ := touched_false_vacant hTouched
    obtain ⟨rest, hAbsent⟩ : ∃ rest, k.lookup way = .absent c rest := by
      unfold touched at hTouched
      cases hLookup : k.lookup way with
      | absent c' rest =>
        rw [hLookup] at hTouched
        obtain ⟨-, hAt⟩ := Option.ite_none_right_eq_some.mp hTouched
        exact ⟨rest, by rw [Option.some.inj hAt]⟩
      | _ => simp [hLookup] at hTouched
    obtain ⟨a, d, name, hNames, hWay, hStep⟩ := walk_absent_split hAbsent
    have hEnd : k.lookup path = .absent c (rest ++ tail) :=
      lookup_absent hWay hStep (by rw [hPath, hNames]; simp)
    cases i with
    | zero => exact hHere
    | succ i =>
      have hFill : Kernel.fill way k = k.withNode c .dir := by simp [Kernel.fill, hTouched]
      have hWay' : (k.withNode c .dir).walk 40 [] (a ++ [name]) = .found c :=
        walkWith_append_found.mpr ⟨d, walk_found_mono (withNode_agrees hVacant.missing) hWay,
          walkWith_cons_found.mpr ⟨c, step_withNode hStep hMakable, rfl⟩⟩
      have hPath' : path.names = a ++ [name] ++ rest ++ tail := by rw [hPath, hNames]; simp
      rw [Function.iterate_succ_apply, hFill]
      refine (h.bare hVacant.missing hMakable).fills rest hWay' (by rw [hNames]; simp) hPath'
        (fun hMem => hUp ?_) (fun r p hp => ?_) i
      · rw [hPath, hNames]
        simp only [List.mem_append, List.mem_cons] at hMem ⊢
        tauto
      · obtain ⟨m, hCover, -⟩ := makable_iff.mp hMakable
        have hPlace := hHere c (by simp [touched, hEnd, hMakable]) _ (place_eq_some hCover)
        have hBelow : k.place (c ++ r) = some p := hp
        rw [place_append hCover (h.under c hVacant.missing r)] at hBelow
        rw [← Option.some.inj hBelow]
        exact hDown _ hPlace r

end Kernel

-- ---------------------------------------------------------------------------
-- Binds
-- ---------------------------------------------------------------------------

namespace Bind

variable {root work : FsPath} {b b' : Bind} {k k' : Kernel}

theorem spot_sound {s : Spot} (h : k.Sound) (hSpot : b.spot root work k = some s) :
    s.ready.Sound := by
  have hIn : ∀ {b : Bind} {ready : Kernel}, ready.Sound → b.spotIn ready = some s →
      s.ready.Sound := by
    intro b ready hReady hSpot
    unfold spotIn at hSpot
    split at hSpot
    · obtain ⟨shown, -, rfl⟩ := Option.map_eq_some_iff.mp hSpot
      exact hReady
    · cases hSpot
  unfold spot at hSpot
  split at hSpot
  · cases hSpot
  · split at hSpot
    · exact hIn (h.complete _) hSpot
    · exact hIn ((h.complete _).withFile _) hSpot
    · cases hSpot

theorem mount_sound (h : k.Sound) (hMount : b.mount root work k = (k', .ok b')) : k'.Sound := by
  rcases mount_eq_ok hMount with ⟨-, rfl, -⟩ | ⟨s, hSpot, hStands, -, -, hNodes, hMounts⟩
  · exact h
  · have hSource : s.ready.node s.source ≠ none := by
      rcases hStands.solid with hDir | hFile
      · simp [hDir]
      · simp [hFile]
    have hBound := (spot_sound h hSpot).bound hStands.shown hSource fun p hp =>
      Option.ne_none_iff_exists'.mpr ⟨_, dir_above_found hStands.found hp⟩
    refine hBound.congr hNodes ?_
    rw [hMounts, Spot.added, ← hStands.extend.mounts]
    simp [Kernel.bound]

/-- Every bind finds a sound kernel. -/
theorem sound_of_mountSteps : ∀ {binds : List Bind} {k : Kernel}, k.Sound →
    ∀ s ∈ mountSteps root work binds k, s.2.Sound
  | [], _, _ => by simp [mountSteps]
  | b :: binds, k, h => by
    rw [mountSteps, List.forall_mem_cons]
    refine ⟨h, ?_⟩
    cases hMount : b.mount root work k with
    | mk k' r =>
      cases r with
      | error e => simp
      | ok b' => exact sound_of_mountSteps (mount_sound h hMount)

/-- In the kernel it finds, what `b` makes first for its mount point, or opens there,
is at a place with `P`. -/
def FirstOnly (P : Place → Prop) (root work : FsPath) (b : Bind) (k : Kernel) : Prop :=
  ∀ b' ∈ (b.setPaths root work).toOption,
    (k.status b'.fromPath = some .dir → k.Spares P false b'.toPath) ∧
      (k.status b'.fromPath = some .file → k.Spares P true b'.toPath)

instance (P : Place → Prop) [DecidablePred P] (root work : FsPath) (b : Bind) (k : Kernel) :
    Decidable (b.FirstOnly P root work k) :=
  inferInstanceAs (Decidable (∀ b' ∈ (b.setPaths root work).toOption, _ ∧ _))

theorem append_no_up {p q : FsPath} (hp : lit ".." ∉ p.names) (hq : lit ".." ∉ q.names) :
    lit ".." ∉ (p / q).names := by
  show lit ".." ∉ (FsPath.append p q).names
  unfold FsPath.append
  split
  · exact hq
  · rw [List.mem_append, not_or]
    constructor
    · split
      · exact fun hMem => hp (List.dropLast_subset _ hMem)
      · exact hp
    · split
      · decide
      · exact hq

theorem setPaths_no_up (hRoot : lit ".." ∉ root.names) (hWork : lit ".." ∉ work.names)
    (hInside : lit ".." ∉ b.inside.names) (h : b.setPaths root work = .ok b') :
    lit ".." ∉ b'.toPath.names := by
  unfold setPaths at h
  split at h
  · cases h
  · obtain rfl := Except.ok.inj h
    dsimp only
    split
    · exact append_no_up hRoot fun hMem => hInside (List.dropWhile_subset _ hMem)
    · exact append_no_up hWork hInside

theorem fillsOnly_iff_firstOnly {P : Place → Prop} (hSound : k.Sound) (hDown : Downward P)
    (hRoot : lit ".." ∉ root.names) (hWork : lit ".." ∉ work.names)
    (hInside : lit ".." ∉ b.inside.names) :
    b.FillsOnly P root work k ↔ b.FirstOnly P root work k := by
  unfold FillsOnly FirstOnly
  refine forall_congr' fun b' => forall_congr' fun hPaths => ?_
  have hUp := setPaths_no_up hRoot hWork hInside (mem_setPaths.mp hPaths)
  obtain ⟨tail, hTail⟩ := List.dropLast_prefix b'.toPath.names
  have hNames : b'.toPath.names = b'.toPath.parentPath.names ++ tail := hTail.symm
  exact and_congr
    (imp_congr_right fun _ => hSound.fills_iff hDown (List.append_nil _).symm hUp)
    (imp_congr_right fun _ => hSound.fills_iff hDown hNames hUp)

end Bind

-- ---------------------------------------------------------------------------
-- The box of prepare_root
-- ---------------------------------------------------------------------------

namespace Kernel

variable {k k' : Kernel} {t : Location}

/-- A new file system at a location in directories leaves no loose ends. -/
theorem Sound.newTop (h : k.Sound) {fs : FsId} {options : MountOptions}
    {nodes : Place → Option Node}
    (hTree : ∀ fs path name, nodes ⟨fs, path ++ [name]⟩ ≠ none → nodes ⟨fs, path⟩ = some .dir)
    (hRoots : ∀ m ∈ k.mounts, nodes ⟨m.fs, m.root⟩ ≠ none) (hRoot : nodes ⟨fs, []⟩ ≠ none)
    (hKeeps : ∀ c, k.node c ≠ none → (k.place c).bind nodes ≠ none)
    (hAbove : ∀ p, Above p t → k.node p ≠ none) :
    ({ k with nodes, mounts := ⟨t, fs, [], options⟩ :: k.mounts } : Kernel).Sound := by
  have hApart : ∀ c, ¬ t <+: c →
      ({ k with nodes, mounts := ⟨t, fs, [], options⟩ :: k.mounts } : Kernel).cover c = k.cover c :=
    fun c hc => cover_append [⟨t, fs, [], options⟩] rfl (List.forall_mem_singleton.mpr hc)
  have hBelow : ∀ c, t <+: c →
      ({ k with nodes, mounts := ⟨t, fs, [], options⟩ :: k.mounts } : Kernel).cover c =
        some ⟨t, fs, [], options⟩ := by
    intro c hc
    simp [cover, hc]
  refine ⟨hTree, List.forall_mem_cons.mpr ⟨hRoot, hRoots⟩, fun c hNone r => ?_⟩
  by_cases hc : t <+: c
  · rw [hBelow c hc, hBelow _ (hc.trans (List.prefix_append _ _))]
  · have hMissing : k.node c = none := by
      by_contra hSome
      rw [node, place, hApart c hc] at hNone
      exact hKeeps c hSome hNone
    have hFurther : ¬ t <+: c ++ r := by
      intro hPrefix
      have hUp := (List.prefix_or_prefix_of_prefix hPrefix (List.prefix_append c r)).resolve_left hc
      exact hAbove c ⟨hUp, fun hEq => hc (hEq ▸ List.prefix_rfl)⟩ hMissing
    rw [hApart c hc, hApart _ hFurther, h.under c hMissing]

/-- What a remount makes of a mount. -/
def reoption (options : MountOptions) (t : Location) (m : Mount) : Mount :=
  if m.target = t then { m with options } else m

theorem reoption_place (options : MountOptions) (t : Location) (m : Mount) :
    (reoption options t m).target = m.target ∧ (reoption options t m).fs = m.fs ∧
      (reoption options t m).root = m.root := by
  unfold reoption
  split <;> exact ⟨rfl, rfl, rfl⟩

theorem setOptions_find {options : MountOptions} (c : Location) : ∀ {mounts mounts' : List Mount},
    setOptions options t mounts = some mounts' →
      (mounts'.find? fun m => m.target.isPrefixOf c) =
        (mounts.find? fun m => m.target.isPrefixOf c).map (reoption options t)
  | [], _, h => by cases h
  | m :: mounts, mounts', h => by
    rw [setOptions] at h
    split at h
    · next hTarget =>
      obtain rfl := Option.some.inj h
      by_cases hc : m.target.isPrefixOf c = true
      · have hHere : reoption options t m = { m with options } := if_pos hTarget
        rw [List.find?_cons_of_pos (by exact hc), List.find?_cons_of_pos (by exact hc),
          Option.map_some, hHere]
      · -- the mounts further below are at other locations
        have hOther : ∀ x, mounts.find? (fun m => m.target.isPrefixOf c) = some x →
            reoption options t x = x := by
          intro x hx
          refine if_neg fun hEq => hc ?_
          rw [hTarget, ← hEq]
          exact List.find?_some (p := fun m : Mount => m.target.isPrefixOf c) hx
        cases hFind : mounts.find? fun m => m.target.isPrefixOf c with
        | none => simp [hc, hFind]
        | some x => simp [hc, hFind, hOther x hFind]
    · next hTarget =>
      split at h
      · cases h
      · obtain ⟨rest, hRest, rfl⟩ := Option.map_eq_some_iff.mp h
        by_cases hc : m.target.isPrefixOf c = true
        · simp [hc, reoption, hTarget]
        · simp [hc, setOptions_find c hRest]

theorem setOptions_roots {options : MountOptions} : ∀ {mounts mounts' : List Mount},
    setOptions options t mounts = some mounts' →
      ∀ m ∈ mounts', ∃ m₀ ∈ mounts, m.fs = m₀.fs ∧ m.root = m₀.root
  | [], _, h => by cases h
  | m :: mounts, mounts', h => by
    rw [setOptions] at h
    split at h
    · obtain rfl := Option.some.inj h
      refine List.forall_mem_cons.mpr ⟨⟨m, by simp, rfl, rfl⟩, fun x hx => ⟨x, by simp [hx], rfl, rfl⟩⟩
    · split at h
      · cases h
      · obtain ⟨rest, hRest, rfl⟩ := Option.map_eq_some_iff.mp h
        refine List.forall_mem_cons.mpr ⟨⟨m, by simp, rfl, rfl⟩, fun x hx => ?_⟩
        obtain ⟨m₀, hMem, hSame⟩ := setOptions_roots hRest x hx
        exact ⟨m₀, List.mem_cons_of_mem _ hMem, hSame⟩

theorem Sound.setOptions (h : k.Sound) {options : MountOptions} {mounts : List Mount}
    (hSet : setOptions options t k.mounts = some mounts) : ({ k with mounts } : Kernel).Sound := by
  have hCover : ∀ c, ({ k with mounts } : Kernel).cover c =
      (k.cover c).map (reoption options t) := fun c => setOptions_find c hSet
  refine ⟨h.tree, fun m hm => ?_, fun c hNone r => ?_⟩
  · obtain ⟨m₀, hMem, hFs, hRoot⟩ := setOptions_roots hSet m hm
    show k.nodes ⟨m.fs, m.root⟩ ≠ none
    rw [hFs, hRoot]
    exact h.roots m₀ hMem
  · have hMissing : k.node c = none := by
      rw [node, place, hCover] at hNone
      rw [node, place]
      cases hAt : k.cover c with
      | none => rfl
      | some m =>
        obtain ⟨hTarget, hFs, hRoot⟩ := reoption_place options t m
        simpa [hAt, hTarget, hFs, hRoot] using hNone
    rw [hCover, hCover, h.under c hMissing]

end Kernel

section

variable {k k' : Kernel} {source path root : FsPath}

theorem Kernel.Sound.createDirectories (h : k.Sound) (hOk : k.createDirectories path = (k', none)) :
    k'.Sound := by
  obtain ⟨⟨log, rfl⟩, -⟩ := createDirectories_complete hOk
  exact (h.complete path).congr rfl rfl

theorem Kernel.Sound.remount (h : k.Sound) {fstype : Str}
    (hOk : k.mount source path fstype { msRemount := true } = .ok k') : k'.Sound := by
  obtain ⟨t, hLookup⟩ := mount_target_found hOk
  simp only [Kernel.mount, hLookup, if_true] at hOk
  split at hOk
  · next mounts hSet =>
    obtain rfl := Except.ok.inj hOk
    exact h.setOptions hSet
  · cases hOk

/-- The tmpfs of the box. -/
theorem Kernel.Sound.mountTmpfs (h : k.Sound) (hHost : ∀ m ∈ k.mounts, ∃ n, m.fs = .host n)
    (hOk : k.mount source path (lit "tmpfs") {} = .ok k') : k'.Sound := by
  obtain ⟨t, hLookup, hNew⟩ := mount_new_eq_ok hOk
  have hDir := newMount_dir hNew
  rw [newMount, if_neg (not_not.mpr hDir), if_pos rfl] at hNew
  obtain rfl := Except.ok.inj hNew
  refine h.newTop (fun fs path name => ?_) (fun m hm => ?_) (by simp) (fun c hNode => ?_)
    fun p hp => by simp [dir_above_found hLookup hp]
  · by_cases hBox : fs = .box
    · simp [hBox]
    · simpa [hBox] using h.tree fs path name
  · obtain ⟨n, hn⟩ := hHost m hm
    simpa [hn] using h.roots m hm
  · obtain ⟨m, hm⟩ : ∃ m, k.cover c = some m := by
      cases hAt : k.cover c with
      | none => simp [node, place_none hAt] at hNode
      | some m => exact ⟨m, rfl⟩
    obtain ⟨-, newer, older, hMounts, -⟩ := cover_eq_some_iff.mp hm
    obtain ⟨n, hn⟩ := hHost m (by rw [hMounts]; simp)
    rw [node, place_eq_some hm, Option.bind_some] at hNode
    simpa [place_eq_some hm, hn] using hNode

theorem Kernel.Sound.mountProc (h : k.Sound) (hOk : k.mount source path (lit "proc") {} = .ok k') :
    k'.Sound := by
  obtain ⟨t, hLookup, hNew⟩ := mount_new_eq_ok hOk
  have hDir := newMount_dir hNew
  rw [newMount, if_neg (not_not.mpr hDir), if_neg (by decide), if_pos rfl] at hNew
  obtain rfl := Except.ok.inj hNew
  have hKeeps : ∀ p, k.nodes p ≠ none →
      Function.update k.nodes ⟨.proc, []⟩ (some .dir) p ≠ none := by
    intro p hp
    by_cases hAt : p = ⟨.proc, []⟩
    · simp [hAt]
    · rwa [Function.update_of_ne hAt]
  refine h.newTop (fun fs path name hSome => ?_) (fun m hm => hKeeps _ (h.roots m hm)) (by simp)
    (fun c hNode => ?_) fun p hp => by simp [dir_above_found hLookup hp]
  · rw [Function.update_of_ne (by simp)] at hSome
    by_cases hAt : (⟨fs, path⟩ : Place) = ⟨.proc, []⟩
    · rw [hAt, Function.update_self]
    · rw [Function.update_of_ne hAt]
      exact h.tree fs path name hSome
  · cases hPlace : k.place c with
    | none => simp [node, hPlace] at hNode
    | some p =>
      rw [node, hPlace] at hNode
      exact hKeeps p hNode

theorem Bind.mountAll_sound {work : FsPath} : ∀ {binds bs : List Bind} {k k' : Kernel}, k.Sound →
    mountAll root work binds k = (k', .ok bs) → k'.Sound
  | [], _, _, _, h, hMount => by
    obtain ⟨rfl, -⟩ := Prod.mk.inj hMount
    exact h
  | b :: binds, bs, k, k', h, hMount => by
    rw [mountAll] at hMount
    split at hMount
    · cases hMount
    · next mid b' hOne =>
      split at hMount
      · cases hMount
      · next k'' bs' hRest =>
        obtain ⟨rfl, -⟩ := Prod.mk.inj hMount
        exact mountAll_sound (mount_sound h hOne) hRest

/-- **The box is sound.** On a sound host `prepare_root` leaves no loose ends. -/
theorem prepareRoot_sound {useStandardBinds : Bool} {k₀ : Kernel} (hSound : k.Sound)
    (hHost : ∀ m ∈ k.mounts, ∃ n, m.fs = .host n)
    (h : prepareRoot root useStandardBinds k = .ok k₀) : k₀.Sound := by
  obtain ⟨k₁, h₁, h⟩ := bind_eq_ok h
  obtain ⟨k₂, h₂, h⟩ := bind_eq_ok h
  obtain ⟨k₃, h₃, h⟩ := bind_eq_ok h
  obtain ⟨k₄, h₄, h⟩ := bind_eq_ok h
  obtain ⟨k₅, h₅, h⟩ := bind_eq_ok h
  obtain ⟨k₆, h₆, h⟩ := bind_eq_ok h
  obtain ⟨k₇, h₇, h⟩ := bind_eq_ok h
  obtain ⟨k₈, h₈, h⟩ := bind_eq_ok h
  obtain ⟨k₉, h₉, h⟩ := bind_eq_ok h
  have hCreate₂ := createDirectoriesOrDie_eq_ok h₂
  rw [private_eq (orDieWith_eq_ok h₁)] at hCreate₂
  have hMounts : k₂.mounts = k.mounts := by
    have hGrows : Grows k (k.createDirectories root).1 := mkdirs_grows _ k []
    rw [hCreate₂] at hGrows
    exact hGrows.mounts
  have hTmpfs := (hSound.createDirectories hCreate₂).mountTmpfs (by rwa [hMounts])
    (orDieWith_eq_ok h₃)
  have hProc := (((hTmpfs.remount (orDieWith_eq_ok h₄)).createDirectories
    (createDirectoriesOrDie_eq_ok h₅)).mountProc (orDieWith_eq_ok h₆)).remount (orDieWith_eq_ok h₇)
  have hDirs := (hProc.createDirectories (createDirectoriesOrDie_eq_ok h₈)).createDirectories
    (createDirectoriesOrDie_eq_ok h₉)
  cases useStandardBinds with
  | false =>
    obtain rfl := Except.ok.inj h
    exact hDirs
  | true =>
    obtain ⟨bs, hAll⟩ := applyStandardRules_eq_ok h
    exact Bind.mountAll_sound hDirs hAll

end

-- ---------------------------------------------------------------------------
-- The small box
-- ---------------------------------------------------------------------------

theorem smallHost_host : ∀ m ∈ smallHost.mounts, ∃ n, m.fs = .host n := by
  simp [smallHost]

theorem smallBox_prepared : prepareRoot smallRoot true smallHost = .ok smallBox := by rfl

theorem smallHost_sound : smallHost.Sound := by
  have hParents : ∀ p ∈ smallPlaces, p.path ≠ [] → (⟨p.fs, p.path.dropLast⟩ : Place) ∈ smallPlaces := by
    decide
  refine ⟨fun fs path name hSome => ?_, by decide, fun c _ r => ?_⟩
  · have hMem : (⟨fs, path ++ [name]⟩ : Place) ∈ smallPlaces := by
      by_contra hNot
      exact hSome (if_neg hNot)
    have hParent := hParents _ hMem (by simp)
    rw [List.dropLast_concat] at hParent
    exact if_pos hParent
  · simp [cover, smallHost]

theorem smallBox_sound : smallBox.Sound :=
  prepareRoot_sound smallHost_sound smallHost_host smallBox_prepared

end Libsbox
