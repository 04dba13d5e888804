import Libsbox.Mounts.Paths
import Libsbox.Mounts.Spots
import Mathlib.Data.List.Find

/-!
# libsbox — unmounting the binds of a task

After a run the container unmounts the binds in the order in which it mounted
them. `umount(2)` takes only the topmost mount of a path, and only when no other
mount is attached below it. So any two sites, of which one lies above the other,
must come in an order that reads the same from both ends, and a bind may bring
no mounts along (`Spot.Cancel`). Then a site is taken when the locations above it are
again what they were when its mount was made, so its way is still there.

## Results

* `umountAll_eq_pops` — the loop as pops from the pile of mounts.
* `umountAll_restores_iff` — when the loop succeeds and restores the table.
-/

namespace Libsbox

open CMemory Kernel

theorem comparable_refl (a : Location) : Comparable a a := .inl List.prefix_rfl

theorem comparable_symm (a b : Location) (h : Comparable a b) : Comparable b a := h.symm

instance (us vs : List Location) : Decidable (Pile.SameVisits Comparable us vs) :=
  decidable_of_iff _ (Pile.sameVisits_iff comparable_refl).symm

-- ---------------------------------------------------------------------------
-- The condition
-- ---------------------------------------------------------------------------

namespace Spot

/-- What the way to the mount point rests on. -/
def needs (s : Spot) : List Need := s.ready.needs 40 [] s.path.names

/-- No bind is mounted at `c` or above it. -/
def Free (spots : List Spot) (c : Location) : Prop := ∀ s ∈ spots, ¬ s.site <+: c

/-- No mount on the way to `s` is in the way: a need is above the site, or at the
site, where a directory is needed only when all binds there are directories, or
where nothing is mounted. -/
def Firm (spots : List Spot) (s : Spot) : Need → Prop
  | .dir c => Above c s.site ∨ Free spots c ∨
      (c = s.site ∧ ∀ s' ∈ spots, s'.site = c → s'.ready.node s'.source = some .dir)
  | .link c _ => Free spots c
  | .solid c => c <+: s.site ∨ Free spots c

/-- The binds cancel: none brings mounts along, any two sites of which one lies
above the other are mounted in an order that reads the same from both ends, and
the way to each site is firm. -/
structure Cancel (spots : List Spot) : Prop where
  alone : ∀ s ∈ spots, s.ready.submounts s.source s.site = []
  turns : Pile.SameVisits Comparable (spots.map site) (spots.map site).reverse
  firm : ∀ s ∈ spots, ∀ need ∈ s.needs, Firm spots s need

instance (spots : List Spot) (c : Location) : Decidable (Free spots c) :=
  inferInstanceAs (Decidable (∀ s ∈ spots, ¬ s.site <+: c))

instance (spots : List Spot) (s : Spot) : DecidablePred (Firm spots s)
  | .dir c => inferInstanceAs (Decidable (Above c s.site ∨ Free spots c ∨
      (c = s.site ∧ ∀ s' ∈ spots, s'.site = c → s'.ready.node s'.source = some .dir)))
  | .link c _ => inferInstanceAs (Decidable (Free spots c))
  | .solid c => inferInstanceAs (Decidable (c <+: s.site ∨ Free spots c))

instance (spots : List Spot) : Decidable (Cancel spots) :=
  decidable_of_iff ((∀ s ∈ spots, s.ready.submounts s.source s.site = []) ∧
      Pile.SameVisits Comparable (spots.map site) (spots.map site).reverse ∧
      ∀ s ∈ spots, ∀ need ∈ s.needs, Firm spots s need)
    ⟨fun ⟨hAlone, hTurns, hFirm⟩ => ⟨hAlone, hTurns, hFirm⟩,
      fun h => ⟨h.alone, h.turns, h.firm⟩⟩

/-- A run between `k₁` and `k₂` leaves the mounts, the ways to them and what they
show. -/
structure Kept (spots : List Spot) (k₁ k₂ : Kernel) : Prop where
  mounts : k₂.mounts = k₁.mounts
  ways : ∀ s ∈ spots, ∀ need ∈ s.needs, ∀ p ∈ s.ready.place need.location,
    k₂.nodes p = k₁.nodes p
  sources : ∀ s ∈ spots, ∀ p ∈ s.ready.place s.source, k₂.nodes p = k₁.nodes p

theorem Kept.refl (spots : List Spot) (k : Kernel) : Kept spots k k :=
  ⟨rfl, fun _ _ _ _ _ _ => rfl, fun _ _ _ _ => rfl⟩

end Spot

namespace Bind

/-- `umount` finds the paths, one after the other and with the mounts at the
earlier ones gone, at these locations. -/
def FoundInTurn (k : Kernel) : List FsPath → List Location → Prop
  | [], [] => True
  | path :: paths, u :: us =>
    k.lookup path = .found u ∧
      FoundInTurn { k with mounts := k.mounts.eraseP fun m => m.target = u } paths us
  | _, _ => False

theorem pop_eq_eraseP {u : Location} {mounts rest : List Mount}
    (h : Pile.pop Mount.target Comparable u mounts = some rest) :
    rest = mounts.eraseP fun m => m.target = u := by
  obtain ⟨above, m, below, rfl, rfl, hTarget, hAbove⟩ := Pile.pop_eq_some_iff.mp h
  rw [List.eraseP_append_right _ fun x hx => by simpa using (hAbove x hx).1]
  simp [hTarget]

theorem umountIfMounted_mounted {b : Bind} {k k' : Kernel} (hMounted : b.mounted = true) :
    b.umountIfMounted k = .ok k' ↔ ∃ u mounts, k.lookup b.toPath = .found u ∧
      Pile.pop Mount.target Comparable u k.mounts = some mounts ∧ k' = { k with mounts } := by
  simp only [umountIfMounted, hMounted, Bool.not_true, Bool.false_eq_true, if_false, umount]
  cases k.lookup b.toPath with
  | found u =>
    dsimp only
    cases hPop : Pile.pop Mount.target Comparable u k.mounts with
    | none => simp [hPop]
    | some mounts =>
      simp only [Except.ok.injEq, Lookup.found.injEq, exists_and_left, exists_eq_left', hPop,
        Option.some.injEq]
      exact eq_comm
  | _ => simp

/-- The loop pops the locations where it finds the paths. -/
theorem umountAll_eq_pops : ∀ (binds : List Bind) (k k' : Kernel),
    umountAll binds k = .ok k' ↔ ∃ us mounts, FoundInTurn k (mountedPaths binds) us ∧
      Pile.popAll Mount.target Comparable us k.mounts = some mounts ∧ k' = { k with mounts }
  | [], k, k' => by
    constructor
    · rintro ⟨⟩
      exact ⟨[], k.mounts, trivial, rfl, rfl⟩
    · rintro ⟨us, mounts, hFound, hPop, rfl⟩
      cases us with
      | nil => cases hPop; rfl
      | cons => cases hFound
  | b :: binds, k, k' => by
    have hStep : umountAll (b :: binds) k = (b.umountIfMounted k >>= umountAll binds) := rfl
    rw [hStep]
    by_cases hMounted : b.mounted = true
    · have hPaths : mountedPaths (b :: binds) = b.toPath :: mountedPaths binds := by
        simp [mountedPaths, hMounted]
      rw [hPaths]
      constructor
      · intro h
        obtain ⟨mid, hOne, hRest⟩ := bind_eq_ok h
        obtain ⟨u, mounts, hLookup, hPop, rfl⟩ := (umountIfMounted_mounted hMounted).mp hOne
        obtain ⟨us, mounts', hFound, hPops, rfl⟩ := (umountAll_eq_pops binds _ k').mp hRest
        refine ⟨u :: us, mounts', ⟨hLookup, ?_⟩, ?_, rfl⟩
        · rwa [← pop_eq_eraseP hPop]
        · rw [Pile.popAll, hPop]
          exact hPops
      · rintro ⟨us, mounts', hFound, hPops, rfl⟩
        cases us with
        | nil => cases hFound
        | cons u us =>
          obtain ⟨hLookup, hFound⟩ := hFound
          obtain ⟨mounts, hPop, hPops⟩ := Option.bind_eq_some_iff.mp hPops
          rw [← pop_eq_eraseP hPop] at hFound
          have hOne := (umountIfMounted_mounted hMounted).mpr ⟨u, mounts, hLookup, hPop, rfl⟩
          rw [hOne]
          exact (umountAll_eq_pops binds _ _).mpr ⟨us, mounts', hFound, hPops, rfl⟩
    · have hPaths : mountedPaths (b :: binds) = mountedPaths binds := by
        simp [mountedPaths, hMounted]
      have hOne : b.umountIfMounted k = .ok k := by simp [umountIfMounted, hMounted]
      rw [hPaths, hOne]
      exact umountAll_eq_pops binds k k'

-- ---------------------------------------------------------------------------
-- The ways while the binds are taken down
-- ---------------------------------------------------------------------------

section

variable {spots : List Spot} {k k₁ k₂ : Kernel} {s : Spot}

/-- The mount of a spot. -/
def top (s : Spot) : Mount := topMount s.shown s.source s.site

theorem flatMap_added {spots : List Spot}
    (hAlone : ∀ s ∈ spots, s.ready.submounts s.source s.site = []) :
    spots.flatMap Spot.added = spots.map top := by
  induction spots with
  | nil => rfl
  | cons s spots ih =>
    obtain ⟨hFirst, hRest⟩ := List.forall_mem_cons.mp hAlone
    rw [List.flatMap_cons, ih hRest, List.map_cons, Spot.added, hFirst, top]
    rfl

/-- A search below a filter that keeps all it can find. -/
theorem find?_of_filter {α : Type} {p q : α → Bool} (h : ∀ a, q a = true → p a = true)
    (l : List α) : (l.filter p).find? q = l.find? q := by
  rw [List.find?_filter]
  refine List.find?_congr fun a _ => ?_
  rw [Bool.eq_iff_iff, decide_eq_true_iff, and_iff_right_iff_imp]
  exact h a

/-- Above a site, the mounts that are left when it is taken cover what those below
the mount that is taken have covered from the start. -/
theorem cover_above {k' : Kernel} {above below older base : List Mount} {x : Mount} {p : Location}
    (hMounts : k.mounts = above ++ x :: (below ++ base)) (hReady : k'.mounts = older ++ base)
    (hAbove : ∀ y ∈ above, ¬ Comparable y.target x.target)
    (hBelow : below.filter (fun y => Comparable y.target x.target) =
      older.filter fun y => Comparable y.target x.target) (hp : Above p x.target) :
    k.cover p = k'.cover p := by
  obtain ⟨hPrefix, hNe⟩ := hp
  have hApart : ∀ y ∈ above ++ [x], ¬ y.target <+: p := by
    intro y hy hCovers
    rcases List.mem_append.mp hy with hy | hy
    · exact hAbove y hy (.inl (hCovers.trans hPrefix))
    · rw [List.mem_singleton.mp hy] at hCovers
      exact hNe (hPrefix.eq_of_length_le hCovers.length_le)
  have hLeft : k.cover p = ({ k with mounts := below ++ base } : Kernel).cover p :=
    cover_append (above ++ [x]) (by simp [hMounts]) hApart
  have hDep : ∀ y : Mount, y.target.isPrefixOf p = true →
      decide (Comparable y.target x.target) = true := fun y hy =>
    decide_eq_true (.inl ((List.isPrefixOf_iff_prefix.mp hy).trans hPrefix))
  rw [hLeft, cover, cover, hReady, List.find?_append, List.find?_append,
    ← find?_of_filter hDep below, ← find?_of_filter hDep older, hBelow]

/-- The mounts that a spot finds. -/
theorem Laid.ready_mounts (hLaid : Laid k spots k₁)
    (hAlone : ∀ s ∈ spots, s.ready.submounts s.source s.site = []) {before after : List Spot}
    (hSplit : spots = before ++ s :: after) :
    s.ready.mounts = before.reverse.map top ++ k.mounts := by
  subst hSplit
  obtain ⟨mid, -, hMounts, -⟩ := hLaid.split
  rw [hMounts, flatMap_added]
  exact fun s' hs' => hAlone s' (List.mem_append_left _ (List.mem_reverse.mp hs'))

/-- What a spot needs, or shows, is there after the run. -/
theorem Laid.kept_nodes (hLaid : Laid k spots k₁) (hs : s ∈ spots) {p : Place} {n : Node}
    (hKept : k₂.nodes p = k₁.nodes p) (hp : s.ready.nodes p = some n) : k₂.nodes p = some n := by
  obtain ⟨before, after, rfl⟩ := List.append_of_mem hs
  obtain ⟨-, -, -, hKeeps⟩ := hLaid.split
  rw [hKept]
  exact hKeeps p n hp

/-- A kernel with the nodes of `k₂` that covers a location as a spot found it has the
same node there. -/
theorem Laid.node_eq (hLaid : Laid k spots k₁) (hs : s ∈ spots) {k' : Kernel} {c : Location}
    {n : Node} (hNodes : k'.nodes = k₂.nodes) (hCover : k'.cover c = s.ready.cover c)
    (hKept : ∀ p ∈ s.ready.place c, k₂.nodes p = k₁.nodes p) (hNode : s.ready.node c = some n) :
    k'.node c = some n := by
  obtain ⟨p, hPlace, hp⟩ := Option.bind_eq_some_iff.mp hNode
  have hSame : k'.place c = some p := by rw [place, hCover]; exact hPlace
  rw [node, hSame, Option.bind_some, hNodes]
  exact hLaid.kept_nodes hs (hKept p hPlace) hp

/-- What is left of the mounts of the binds. -/
theorem mem_spots_of_left {us : List Location} {left : List Mount} {m : Mount}
    (h : Pile.popAll Mount.target Comparable us (spots.reverse.map top) = some left)
    (hm : m ∈ left) : ∃ s ∈ spots, m = top s := by
  obtain ⟨above, below, hLeft⟩ := List.append_of_mem hm
  obtain ⟨above', below', hPile, -⟩ := Pile.below_of_popAll comparable_symm h hLeft
  have hMem : m ∈ spots.reverse.map top := by rw [hPile]; simp
  obtain ⟨s, hs, rfl⟩ := List.mem_map.mp hMem
  exact ⟨s, List.mem_reverse.mp hs, rfl⟩

/-- Where nothing is mounted, what is left of the binds covers nothing. -/
theorem cover_free {k' : Kernel} {left base : List Mount} {c : Location}
    (hMounts : k'.mounts = left ++ base) (hLeft : ∀ m ∈ left, ∃ s ∈ spots, m = top s)
    (hFree : Spot.Free spots c) : k'.cover c = ({ k with mounts := base } : Kernel).cover c := by
  refine cover_append (k := { k with mounts := base }) left hMounts fun m hm => ?_
  obtain ⟨s, hs, rfl⟩ := hLeft m hm
  exact hFree s hs

/-- A turn of the unmount loop takes the mount of a spot at this site, and above the site
it is as that spot has found it. -/
theorem Laid.turn (hLaid : Laid k spots k₁) (hCancel : Spot.Cancel spots) {done : List Location}
    {left rest : List Mount} {k' : Kernel} (hMounts : k'.mounts = left ++ k.mounts)
    (hDone : Pile.popAll Mount.target Comparable done (spots.reverse.map top) = some left)
    (hPop : Pile.pop Mount.target Comparable s.site left = some rest) :
    ∃ s' ∈ spots, s'.site = s.site ∧ k'.cover s.site = some (top s') ∧
      ∀ c, Above c s.site → k'.cover c = s'.ready.cover c := by
  obtain ⟨above, x, below, hLeft, -, hTarget, hAbove⟩ := Pile.pop_eq_some_iff.mp hPop
  obtain ⟨newer, older, hPile, hBelow⟩ := Pile.below_of_popAll comparable_symm hDone hLeft
  -- the spot whose mount is taken
  obtain ⟨after, rest', hReverse, -, hRest'⟩ := List.map_eq_append_iff.mp hPile
  obtain ⟨s', before, rfl, rfl, hBefore⟩ := List.map_eq_cons_iff.mp hRest'
  have hSplit : spots = before.reverse ++ s' :: after.reverse := by
    rw [← List.reverse_reverse spots, hReverse]
    simp
  have hReady : s'.ready.mounts = older ++ k.mounts := by
    rw [hLaid.ready_mounts hCancel.alone hSplit, List.reverse_reverse, hBefore]
  have hSite : s'.site = s.site := hTarget
  have hTable : k'.mounts = above ++ top s' :: (below ++ k.mounts) := by simp [hMounts, hLeft]
  refine ⟨s', by rw [hSplit]; simp, hSite, ?_, fun c hc => ?_⟩
  · exact cover_eq_some_iff.mpr ⟨hSite ▸ List.prefix_rfl, above, below ++ k.mounts, hTable,
      fun y hy hPrefix => (hAbove y hy).2 (.inl hPrefix)⟩
  · refine cover_above hTable hReady (fun y hy => ?_) hBelow (hTarget ▸ hc)
    rw [hTarget]
    exact (hAbove y hy).2

/-- Where nothing is mounted, it is as every spot has found it. -/
theorem Laid.cover_eq_ready (hLaid : Laid k spots k₁) (hCancel : Spot.Cancel spots)
    {done : List Location} {left : List Mount} {k' : Kernel} {c : Location}
    (hMounts : k'.mounts = left ++ k.mounts)
    (hDone : Pile.popAll Mount.target Comparable done (spots.reverse.map top) = some left)
    (hs : s ∈ spots) (hFree : Spot.Free spots c) : k'.cover c = s.ready.cover c := by
  obtain ⟨before, after, hAt⟩ := List.append_of_mem hs
  have hReady := hLaid.ready_mounts hCancel.alone hAt
  have hEarlier : ∀ m ∈ before.reverse.map top, ∃ s ∈ spots, m = top s := by
    intro m hm
    obtain ⟨s₀, hs₀, rfl⟩ := List.mem_map.mp hm
    exact ⟨s₀, by rw [hAt]; exact List.mem_append_left _ (List.mem_reverse.mp hs₀), rfl⟩
  rw [cover_free (k := k) hMounts (fun m hm => mem_spots_of_left hDone hm) hFree,
    cover_free (k := k) hReady hEarlier hFree]

/-- The node at a site is the one that the spot has shown there. -/
theorem Laid.node_at_site (hLaid : Laid k spots k₁) (hKept : Spot.Kept spots k₁ k₂)
    {k' : Kernel} (hNodes : k'.nodes = k₂.nodes) (hs : s ∈ spots)
    (hTop : k'.cover s.site = some (top s)) {n : Node} (hNode : s.ready.node s.source = some n) :
    k'.node s.site = some n := by
  obtain ⟨mid, hStands⟩ := hLaid.stands hs
  have hPlace : k'.place s.site = s.ready.place s.source := by
    rw [place_eq_some hTop, place_eq_some hStands.shown]
    simp [top, topMount]
  obtain ⟨p, hAt, hp⟩ := Option.bind_eq_some_iff.mp hNode
  rw [node, hPlace, hAt, Option.bind_some, hNodes]
  exact hLaid.kept_nodes hs (hKept.sources s hs p hAt) hp

/-- **The way back.** When the binds before it are taken down and its site can be
popped, the path of a spot leads to the site. -/
theorem Laid.site_found (hLaid : Laid k spots k₁) (hCancel : Spot.Cancel spots)
    (hKept : Spot.Kept spots k₁ k₂) {done : List Location} {left rest : List Mount} {k' : Kernel}
    (hNodes : k'.nodes = k₂.nodes) (hMounts : k'.mounts = left ++ k.mounts)
    (hDone : Pile.popAll Mount.target Comparable done (spots.reverse.map top) = some left)
    (hs : s ∈ spots) (hPop : Pile.pop Mount.target Comparable s.site left = some rest) :
    k'.lookup s.path = .found s.site := by
  obtain ⟨s', hs', hSite, hTop, hAbove⟩ := hLaid.turn hCancel hMounts hDone hPop
  obtain ⟨mid, hStands⟩ := hLaid.stands hs
  obtain ⟨mid', hStands'⟩ := hLaid.stands hs'
  have hDirAbove : ∀ p, Above p s.site → k'.node p = some .dir := by
    intro p hp
    have hp' : Above p s'.site := hSite ▸ hp
    have hNeed := lookup_above_needed hStands'.found hp'
    exact hLaid.node_eq hs' hNodes (hAbove p hp) (hKept.ways s' hs' _ hNeed)
      (dir_above_found hStands'.found hp')
  have hAtSite : ∀ n, s'.ready.node s'.source = some n → k'.node s.site = some n := fun n hNode =>
    hSite ▸ hLaid.node_at_site hKept hNodes hs' (hSite ▸ hTop) hNode
  have hAtFree : ∀ c n, Spot.Free spots c → (∀ p ∈ s.ready.place c, k₂.nodes p = k₁.nodes p) →
      s.ready.node c = some n → k'.node c = some n := fun c n hFree hWays hNode =>
    hLaid.node_eq hs hNodes (hLaid.cover_eq_ready hCancel hMounts hDone hs hFree) hWays hNode
  -- every need is met
  refine walk_of_meets hStands.found fun need hNeed => ?_
  have hMet := walk_meets hStands.found need hNeed
  have hFirm := hCancel.firm s hs need hNeed
  have hWays := hKept.ways s hs need hNeed
  cases need with
  | dir c =>
    rcases hFirm with hUp | hFree | ⟨rfl, hDirs⟩
    · exact hDirAbove c hUp
    · exact hAtFree c _ hFree hWays hMet
    · exact hAtSite _ (hDirs s' hs' hSite)
  | link c target => exact hAtFree c _ hFirm hWays hMet
  | solid c =>
    rcases hFirm with hPrefix | hFree
    · by_cases hEq : c = s.site
      · rw [hEq]
        rcases hStands'.solid with hDir | hFile
        · simp [Meets, hAtSite _ hDir]
        · simp [Meets, hAtSite _ hFile]
      · simp [Meets, hDirAbove c ⟨hPrefix, hEq⟩]
    · obtain ⟨hSome, hNot⟩ := hMet
      obtain ⟨n, hn⟩ := Option.ne_none_iff_exists'.mp hSome
      have hThere := hAtFree c n hFree hWays hn
      exact ⟨by simp [hThere], fun target hLink => hNot target (by rw [hn, ← hThere, hLink])⟩

/-- The paths of the binds that are still mounted are found at their sites. -/
theorem Laid.foundInTurn (hLaid : Laid k spots k₁) (hCancel : Spot.Cancel spots)
    (hKept : Spot.Kept spots k₁ k₂) : ∀ {todo : List Spot} {done : List Location}
    {left : List Mount}, (∀ s ∈ todo, s ∈ spots) →
      Pile.popAll Mount.target Comparable done (spots.reverse.map top) = some left →
      Pile.popAll Mount.target Comparable (todo.map Spot.site) left = some [] →
      FoundInTurn { k₂ with mounts := left ++ k.mounts } (todo.map Spot.path) (todo.map Spot.site)
  | [], _, _, _, _, _ => trivial
  | s :: todo, done, left, hTodo, hDone, hPops => by
    obtain ⟨hs, hTodo⟩ := List.forall_mem_cons.mp hTodo
    obtain ⟨rest, hPop, hRest⟩ := Option.bind_eq_some_iff.mp hPops
    have hDone' : Pile.popAll Mount.target Comparable (done ++ [s.site]) (spots.reverse.map top) =
        some rest := by
      rw [Pile.popAll_append, hDone]
      simp [Pile.popAll, hPop]
    refine ⟨hLaid.site_found hCancel hKept rfl rfl hDone hs hPop, ?_⟩
    have hErased := pop_eq_eraseP (Pile.pop_append hPop k.mounts)
    show FoundInTurn { k₂ with mounts := (left ++ k.mounts).eraseP fun m => m.target = s.site } _ _
    rw [← hErased]
    exact hLaid.foundInTurn hCancel hKept hTodo hDone' hRest

/-- Binds that cancel are taken down. -/
theorem Laid.restores (hLaid : Laid k spots k₁) (hCancel : Spot.Cancel spots)
    (hKept : Spot.Kept spots k₁ k₂) {bs : List Bind}
    (hPaths : mountedPaths bs = spots.map Spot.path) :
    umountAll bs k₂ = .ok { k₂ with mounts := k.mounts } := by
  have hTargets : (spots.reverse.map top).map Mount.target = (spots.map Spot.site).reverse := by
    rw [List.map_map, ← List.map_reverse]
    rfl
  have hPops : ∀ base, Pile.popAll Mount.target Comparable (spots.map Spot.site)
      (spots.reverse.map top ++ base) = some base := fun base =>
    (Pile.popAll_eq_some_iff comparable_refl comparable_symm _ _ base).mpr
      (hTargets ▸ hCancel.turns)
  have hTable : k₂.mounts = spots.reverse.map top ++ k.mounts := by
    rw [hKept.mounts, hLaid.mounts_eq, flatMap_added]
    exact fun s hs => hCancel.alone s (List.mem_reverse.mp hs)
  have hNone : Pile.popAll Mount.target Comparable [] (spots.reverse.map top) =
    some (spots.reverse.map top) := rfl
  have hFound : FoundInTurn { k₂ with mounts := spots.reverse.map top ++ k.mounts }
      (spots.map Spot.path) (spots.map Spot.site) :=
    hLaid.foundInTurn hCancel hKept (fun _ hs => hs) hNone (by simpa using hPops [])
  rw [← hTable, ← hPaths] at hFound
  exact (umountAll_eq_pops bs k₂ _).mpr ⟨_, _, hFound, hTable ▸ hPops k.mounts, rfl⟩

end

-- ---------------------------------------------------------------------------
-- Without links
-- ---------------------------------------------------------------------------

section

variable {spots : List Spot} {k k₁ k₂ : Kernel} {s : Spot}

/-- A need at or above the end of a way. -/
def Along (c' : Location) : Need → Prop
  | .dir c => Above c c'
  | .link _ _ => False
  | .solid c => c <+: c'

/-- Without links, plain names lead below each other. -/
theorem walkWith_plain (hUnlinked : k.Unlinked) {follow : Location → List Str → Lookup}
    {ahead : Location → List Str → List Need} : ∀ {names : List Str} {c c' : Location},
      (∀ name ∈ names, Plain name) → k.walkWith follow c names = .found c' →
      c' = c ++ names ∧ ∀ need ∈ needsWith follow ahead k c names, Along c' need
  | [], c, c', _, h => by
    obtain rfl := Lookup.found.inj h
    simp [needsWith]
  | name :: rest, c, c', hPlain, h => by
    obtain ⟨hName, hRest⟩ := List.forall_mem_cons.mp hPlain
    obtain ⟨mid, hStep, hWalk⟩ := walkWith_cons_found.mp h
    have hNoLink : ∀ target, k.node (c ++ [name]) ≠ some (.symlink target) := by
      intro target hLink
      obtain ⟨p, -, hp⟩ := Option.bind_eq_some_iff.mp hLink
      exact hUnlinked p target hp
    obtain rfl : mid = c ++ [name] := by
      obtain ⟨-, ⟨hStay, -⟩ | ⟨hUp, -⟩ | ⟨-, ⟨target, hLink, -⟩ | ⟨-, -, hMid⟩⟩⟩ :=
        stepWith_found_cases hStep
      · exact absurd hStay (by simp [hName.1, hName.2.1])
      · exact absurd hUp hName.2.2
      · exact absurd hLink (hNoLink target)
      · exact hMid
    obtain ⟨rfl, hNeeds⟩ := walkWith_plain hUnlinked hRest hWalk
    refine ⟨by simp, ?_⟩
    rw [needsWith, hStep, List.forall_mem_append]
    refine ⟨fun need hNeed => ?_, hNeeds⟩
    unfold stepNeeds at hNeed
    rw [if_neg (not_special hName)] at hNeed
    rcases List.mem_cons.mp hNeed with rfl | hNeed
    · exact ⟨by rw [List.append_assoc]; exact List.prefix_append _ _, by simp⟩
    · split at hNeed
      · next target hLink => exact absurd hLink (hNoLink target)
      · rw [List.mem_singleton.mp hNeed]
        exact List.prefix_append _ _

theorem lookup_plain {path : FsPath} {c : Location} (hUnlinked : k.Unlinked)
    (hPlain : ∀ name ∈ path.names, Plain name) (h : k.lookup path = .found c) :
    c = path.names ∧ ∀ need ∈ k.needs 40 [] path.names, Along c need :=
  walkWith_plain hUnlinked hPlain h

/-- Without links, plain paths are found where their names say. -/
theorem foundInTurn_plain (hUnlinked : k₂.Unlinked) : ∀ {paths : List FsPath} {us : List Location}
    {k' : Kernel}, k'.nodes = k₂.nodes → (∀ path ∈ paths, ∀ name ∈ path.names, Plain name) →
      FoundInTurn k' paths us → us = paths.map FsPath.names
  | [], [], _, _, _, _ => rfl
  | path :: paths, u :: us, k', hNodes, hPlain, h => by
    obtain ⟨hFound, hRest⟩ := h
    obtain ⟨hPath, hPaths⟩ := List.forall_mem_cons.mp hPlain
    have hHere : k'.Unlinked := by rwa [Unlinked, hNodes]
    have hTail : us = paths.map FsPath.names :=
      foundInTurn_plain hUnlinked (by exact hNodes) hPaths hRest
    rw [(lookup_plain hHere hPath hFound).1, hTail, List.map_cons]

theorem Laid.unlinked (hLaid : Laid k spots k₁) (hUnlinked : k.Unlinked) :
    ∀ s ∈ spots, s.ready.Unlinked := by
  induction hLaid with
  | nil => simp
  | @cons k k₁ k' s spots stands nodes _ _ ih =>
    have hReady : s.ready.Unlinked := fun p target hp =>
      hUnlinked p target (stands.extend.links p target hp)
    exact List.forall_mem_cons.mpr ⟨hReady, ih (by rwa [Unlinked, nodes])⟩

/-- As many mounts as binds: none brings others along. -/
theorem alone_of_length {spots : List Spot}
    (h : (spots.flatMap Spot.added).length = spots.length) :
    ∀ s ∈ spots, s.ready.submounts s.source s.site = [] := by
  have hLeast : ∀ spots : List Spot, spots.length ≤ (spots.flatMap Spot.added).length := by
    intro spots
    induction spots with
    | nil => simp
    | cons s spots ih =>
      simp only [List.flatMap_cons, List.length_append, List.length_cons, Spot.added,
        List.length_nil]
      omega
  induction spots with
  | nil => simp
  | cons s spots ih =>
    have hRest := hLeast spots
    simp only [List.flatMap_cons, List.length_append, List.length_cons, Spot.added,
      List.length_nil] at h
    refine List.forall_mem_cons.mpr ⟨List.length_eq_zero_iff.mp (by omega), ih (by omega)⟩

/-- Without links, binds with plain paths that are taken down cancel. -/
theorem Laid.cancel_of_restores (hLaid : Laid k spots k₁) (hUnlinked : k.Unlinked)
    (hUnlinked₂ : k₂.Unlinked) (hPlain : ∀ s ∈ spots, ∀ name ∈ s.path.names, Plain name)
    (hMounts : k₂.mounts = k₁.mounts) {bs : List Bind}
    (hPaths : mountedPaths bs = spots.map Spot.path) {k₃ : Kernel}
    (hUmount : umountAll bs k₂ = .ok k₃) (hRestored : k₃.mounts = k.mounts) :
    Spot.Cancel spots := by
  have hReady := hLaid.unlinked hUnlinked
  have hSite : ∀ s ∈ spots, s.site = s.path.names ∧ ∀ need ∈ s.needs, Along s.site need := by
    intro s hs
    obtain ⟨mid, hStands⟩ := hLaid.stands hs
    exact lookup_plain (hReady s hs) (hPlain s hs) hStands.found
  obtain ⟨us, mounts, hFound, hPops, rfl⟩ := (umountAll_eq_pops bs k₂ k₃).mp hUmount
  obtain rfl : mounts = k.mounts := hRestored
  -- the locations where the paths are found are the sites
  obtain rfl : us = spots.map Spot.site := by
    rw [hPaths] at hFound
    rw [foundInTurn_plain hUnlinked₂ rfl ?_ hFound, List.map_map]
    · exact List.map_congr_left fun s hs => ((hSite s hs).1).symm
    · intro path hPath
      obtain ⟨s, hs, rfl⟩ := List.mem_map.mp hPath
      exact hPlain s hs
  rw [hMounts, hLaid.mounts_eq] at hPops
  have hVisits := (Pile.popAll_eq_some_iff comparable_refl comparable_symm _ _ _).mp hPops
  have hLength := (hVisits.perm comparable_refl).length_eq
  have hAlone : ∀ s ∈ spots, s.ready.submounts s.source s.site = [] := fun s hs =>
    by
    have hReversed : (spots.reverse.flatMap Spot.added).length = spots.reverse.length := by
      simpa using hLength.symm
    exact alone_of_length hReversed s (List.mem_reverse.mpr hs)
  refine ⟨hAlone, ?_, fun s hs need hNeed => ?_⟩
  · rw [flatMap_added fun s hs => hAlone s (List.mem_reverse.mp hs), List.map_map] at hVisits
    rw [← List.map_reverse]
    exact hVisits
  · have hAlong := (hSite s hs).2 need hNeed
    cases need with
    | dir c => exact .inl hAlong
    | link c target => exact hAlong.elim
    | solid c => exact .inl hAlong

end

-- ---------------------------------------------------------------------------
-- The rules of a task
-- ---------------------------------------------------------------------------

/-- The paths of the rules have no `.`, no `..`, no slash behind another one and none at the
end. -/
structure PlainRules (root work : FsPath) (rules : List BindRule) : Prop where
  root : ∀ name ∈ root.names, Plain name
  work : ∀ name ∈ work.names, Plain name
  inside : ∀ rule ∈ rules, (ofRule rule).inside.names ≠ [] ∧
    ∀ name ∈ (ofRule rule).inside.names, Plain name

theorem append_plain {p q : FsPath} (hp : ∀ name ∈ p.names, Plain name)
    (hq : ∀ name ∈ q.names, Plain name) (hNames : q.names ≠ []) :
    ∀ name ∈ (p / q).names, Plain name := by
  by_cases hAbsolute : q.absolute = true
  · have hSame : p / q = q := if_pos hAbsolute
    rwa [hSame]
  · rw [FsPath.append_names p (by simpa using hAbsolute) hNames, List.forall_mem_append]
    refine ⟨fun name hName => hp name ?_, hq⟩
    unfold FsPath.base at hName
    split at hName
    · exact List.dropLast_subset _ hName
    · exact hName

theorem spot_path {root work : FsPath} {b : Bind} {k : Kernel} {s : Spot}
    (h : b.spot root work k = some s) :
    ∃ b', b.setPaths root work = .ok b' ∧ s.path = b'.toPath := by
  have hIn : ∀ {b : Bind} {ready : Kernel}, b.spotIn ready = some s → s.path = b.toPath := by
    intro b ready hSpot
    unfold spotIn at hSpot
    split at hSpot
    · obtain ⟨shown, -, rfl⟩ := Option.map_eq_some_iff.mp hSpot
      rfl
    · cases hSpot
  unfold spot at h
  split at h
  · cases h
  · next b' hPaths =>
    refine ⟨b', hPaths, ?_⟩
    split at h
    · exact hIn h
    · exact hIn h
    · cases h

theorem spots_plain {root work : FsPath} {rules : List BindRule} (k : Kernel)
    (h : PlainRules root work rules) :
    ∀ s ∈ spots root work (rules.map ofRule) k, ∀ name ∈ s.path.names, Plain name := by
  intro s hs
  obtain ⟨found, hFound, hSpot⟩ := List.mem_filterMap.mp hs
  obtain ⟨rule, hRule, hBind⟩ := List.mem_map.mp (mountSteps_binds found hFound)
  obtain ⟨b', hPaths, hPath⟩ := spot_path hSpot
  obtain ⟨hNames, hInside⟩ := h.inside rule hRule
  rw [← hBind] at hPaths
  rw [hPath]
  unfold setPaths at hPaths
  split at hPaths
  · cases hPaths
  · obtain rfl := Except.ok.inj hPaths
    have hRelative : (ofRule rule).inside.relativePath.names = (ofRule rule).inside.names :=
      FsPath.relativePath_names fun hMem => (hInside [] hMem).1 rfl
    dsimp only
    split
    · exact append_plain h.root (hRelative ▸ hInside) (hRelative ▸ hNames)
    · exact append_plain h.work hInside hNames

/--
**Binds cancel.** Let all binds of a list of rules be mounted, and let the run leave
the mounts and the ways to them. The unmount loop succeeds and leaves the table as it
was before the first bind when no bind brings mounts along, any two mount points of
which one lies above the other come in an order that reads the same from both ends,
and no bind hides the way to another's mount point. In a tree without links, and for
plain paths, it does so only then.
-/
theorem umountAll_restores_iff {root work : FsPath} {rules : List BindRule} {bs : List Bind}
    {k k₁ k₂ : Kernel} (hMount : mountAll root work (rules.map ofRule) k = (k₁, .ok bs))
    (hRun : Spot.Kept (spots root work (rules.map ofRule) k) k₁ k₂) :
    (Spot.Cancel (spots root work (rules.map ofRule) k) →
      ∃ k₃, umountAll bs k₂ = .ok k₃ ∧ k₃.mounts = k.mounts) ∧
    (k.Unlinked → k₂.Unlinked → PlainRules root work rules →
      ((∃ k₃, umountAll bs k₂ = .ok k₃ ∧ k₃.mounts = k.mounts) ↔
        Spot.Cancel (spots root work (rules.map ofRule) k))) := by
  have hNew : ∀ b ∈ rules.map ofRule, b.mounted = false := by
    intro b hb
    obtain ⟨rule, -, rfl⟩ := List.mem_map.mp hb
    rfl
  obtain ⟨hLaid, hPaths⟩ := mountAll_eq_ok hMount hNew
  have hDown : Spot.Cancel (spots root work (rules.map ofRule) k) →
      ∃ k₃, umountAll bs k₂ = .ok k₃ ∧ k₃.mounts = k.mounts := fun hCancel =>
    ⟨_, hLaid.restores hCancel hRun hPaths, rfl⟩
  refine ⟨hDown, fun hUnlinked hUnlinked₂ hPlain => ⟨?_, hDown⟩⟩
  rintro ⟨k₃, hUmount, hRestored⟩
  exact hLaid.cancel_of_restores hUnlinked hUnlinked₂ (spots_plain k hPlain) hRun.mounts hPaths
    hUmount hRestored

section

/-- A directory twice and another below it in between, a missing source, a file. -/
def mirroredRules : List BindRule := [
  { inside := lit "a", outside := lit "/src" },
  { inside := lit "/tmp/f", outside := lit "/src/f" },
  { inside := lit "gone", outside := lit "/gone", flags := Rules.opt },
  { inside := lit "a/b", outside := lit "/src/b" },
  { inside := lit "a", outside := lit "/src" }]

/-- The small box on a host with a file `/src/f`. -/
def fileBox : Kernel := smallBox.withNode [lit "src", lit "f"] .file

def mirroredRun : Kernel × List Bind :=
  let (k, result) := mountAll smallRoot (workDir smallRoot) (mirroredRules.map ofRule) fileBox
  (k, result.toOption.getD [])

/-- A program that leaves a file in `/work`. -/
def mirroredLeft : Kernel := mirroredRun.1.withNode [lit "box", lit "work", lit "out"] .file

/-- Four mounts, of which three lie above each other. -/
theorem umountAll_restores_iff_mirrored :
    ∃ k₃, umountAll mirroredRun.2 mirroredLeft = .ok k₃ ∧ k₃.mounts = fileBox.mounts := by
  have hMount : mountAll smallRoot (workDir smallRoot) (mirroredRules.map ofRule) fileBox =
      (mirroredRun.1, .ok mirroredRun.2) := by rfl
  have hRun : Spot.Kept (spots smallRoot (workDir smallRoot) (mirroredRules.map ofRule) fileBox)
      mirroredRun.1 mirroredLeft :=
    ⟨rfl, by decide +kernel, by decide +kernel⟩
  exact (umountAll_restores_iff hMount hRun).1 (by decide +kernel)

def nestedBinds : List Bind := [
  ofRule { inside := lit "a", outside := lit "/src" },
  ofRule { inside := lit "a/b", outside := lit "/src/b" }]

/-- The kernel and the binds after a list of binds has been mounted in the small box. -/
def smallRun (binds : List Bind) : Kernel × List Bind :=
  let (k, result) := mountAll smallRoot (workDir smallRoot) binds smallBox
  (k, result.toOption.getD [])

/-- A bind below an earlier one keeps the earlier one busy. -/
theorem umountAll_nested_dies :
    ¬ ∀ (root work : FsPath) (binds bs : List Bind) (k k₁ : Kernel),
      mountAll root work binds k = (k₁, .ok bs) →
        ∃ k₃, umountAll bs k₁ = .ok k₃ ∧ k₃.mounts = k.mounts := by
  intro h
  have hMount : mountAll smallRoot (workDir smallRoot) nestedBinds smallBox =
      ((smallRun nestedBinds).1, .ok (smallRun nestedBinds).2) := by rfl
  obtain ⟨k₃, hUmount, -⟩ := h _ _ _ _ _ _ hMount
  have hBusy : (umountAll (smallRun nestedBinds).2 (smallRun nestedBinds).1).toOption.isNone :=
    by rfl
  rw [hUmount] at hBusy
  cases hBusy

end

end Bind

end Libsbox
