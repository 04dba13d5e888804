import Libsbox.Lib.Runs
import Libsbox.Protocol.Phases
import Libsbox.Protocol.WorkerSteps
import Mathlib.Data.List.Nodup

/-!
# libsbox — the invariant of the protocol

`Sys.Inv` ties the place of the worker to the places of all containers: each of
them fits the view that the worker has of it, the containers of a request are
distinct, and the start barrier serves exactly the worker, these containers and
their slaves.

## Results

* `Inv.step` — every step keeps it, also when calls fail and processes die;
* `inv_of_reachable` — it holds in every reachable state.
-/

namespace Libsbox

open CMemory Runs

/-- The start barrier has been set for the request, and the request is before it. -/
def WorkerAt.Counts : WorkerAt → Prop
  | .writeTasks _ | .taskBarrier _ | .awaitTask _ | .startBarrier | .awaitStart => True
  | _ => False

/-- The number of ids that `collect_results` has put back. -/
def WorkerAt.returned : WorkerAt → Nat
  | .putId i => i
  | .waitpid i => i + 1
  | _ => 0

/-- The number of ids that no container has yet. -/
def WorkerAt.inHand : WorkerAt → Nat
  | .startContainer _ _ _ => 1
  | _ => 0

/-- The worker has the view `v` of `c`, where it has the view `view j` of `containers_[j]`. -/
inductive View.Of (containers permanent : List BoxId) (started : Nat) (view : Nat → View)
    (c : BoxId) : View → Prop where
  | used {j : Nat} (hUsed : containers[j]? = some c) : View.Of _ _ _ _ _ (view j)
  | spare (hPermanent : c ∈ permanent) (hFree : c ∉ containers) : View.Of _ _ _ _ _ (.free false)
  | gone (hStarted : c < started) (hTemporary : c ∉ permanent) (hFree : c ∉ containers) :
    View.Of _ _ _ _ _ .gone
  | unborn (hNew : started ≤ c) : View.Of _ _ _ _ _ .unborn

attribute [local simp] WorkerAt.Counts WorkerAt.returned WorkerAt.inHand

namespace Sys

/-- The worker is not held by the start barrier. -/
def released (s : Sys) : Bool := decide (s.workerParty ∉ s.start.waiting)

/-- The view that the worker has of `containers_[j]`. -/
def view (s : Sys) (j : Nat) : View := s.worker.view s.released j

abbrev Sees (s : Sys) (view : Nat → View) : BoxId → View → Prop :=
  View.Of s.containers s.permanent s.started view

/-- Who has to come to the start barrier in a request. -/
def parties (s : Sys) : List Party :=
  s.workerParty ::
    s.containers.flatMap fun c => [⟨.container c, s.request⟩, ⟨.slave c, s.request⟩]

/-- What holds at a place of the worker. -/
def PlaceOk (s : Sys) : Prop :=
  match s.worker with
  | .accept => s.containers = []
  | .prepareContainers i next =>
    s.containers.length = i ∧ i ≤ s.tasks.length ∧
      ∀ j c, next ≤ j → s.permanent[j]? = some c → c ∉ s.containers
  | .startContainer i next _ =>
    s.containers.length = i ∧ i < s.tasks.length ∧
      (∀ j c, next ≤ j → s.permanent[j]? = some c → c ∉ s.containers) ∧
      ∀ task, s.tasks[i]? = some task → permanentAllowed task = true → s.permanent.length ≤ next
  | .awaitTask i | .awaitResults i | .putResults i =>
    s.containers.length = s.tasks.length ∧ i < s.containers.length
  | .putId i =>
    s.containers.length = s.tasks.length ∧ i ≤ s.temporary.length ∧
      ∀ j c, j < i → s.temporary[j]? = some c → (s.box c).Ended
  | .waitpid i =>
    s.containers.length = s.tasks.length ∧ i < s.temporary.length ∧
      ∀ j c, j < i → s.temporary[j]? = some c → (s.box c).Ended
  | _ => s.containers.length = s.tasks.length

/-- The containers of a worker. -/
structure Roster (s : Sys) : Prop where
  nodup : (s.permanent ++ s.temporary).Nodup
  born : ∀ c ∈ s.permanent ++ s.temporary, c < s.started
  distinct : s.containers.Nodup
  within : ∀ c ∈ s.containers, c ∈ s.permanent ++ s.temporary
  temporaries : ∀ c ∈ s.temporary, c ∈ s.containers
  permanent : ∀ c ∈ s.permanent, (s.box c).permanent = true
  temporary : ∀ c ∈ s.temporary, (s.box c).permanent = false

/-- The start barrier. -/
structure StartOk (s : Sys) : Prop where
  serves : s.worker.Counts → s.start.Serves s.parties
  quiet : ¬ s.worker.Counts → s.start.waiting = []
  letGo : s.worker = .awaitStart → s.workerParty ∉ s.start.waiting → s.start.waiting = []
  worker : ∀ r, ⟨.worker, r⟩ ∈ s.start.waiting → s.worker = .awaitStart

/-- **The invariant.** -/
structure Inv (s : Sys) : Prop where
  roster : s.Roster
  place : s.PlaceOk
  ids : s.ids.stack.length + s.ids.elsewhere.length + s.permanent.length + s.temporary.length +
    s.worker.inHand = idCount + s.worker.returned
  boxes : ∀ c v, s.Sees s.view c v → (s.box c).Fits s.request s.start.waiting v c
  start : s.StartOk

variable {pathEnv : Option Str} {s s' : Sys} {c : BoxId} {b b' : Box} {v : View}

theorem mem_parties {p : Party} : p ∈ s.parties ↔
    p = s.workerParty ∨ ∃ c ∈ s.containers, p = ⟨.container c, s.request⟩ ∨
      p = ⟨.slave c, s.request⟩ := by
  simp [parties]

theorem parties_nodup (h : s.containers.Nodup) : s.parties.Nodup := by
  rw [parties, List.nodup_cons]
  constructor
  · simp [workerParty]
  · rw [List.nodup_flatMap]
    refine ⟨fun c _ => by simp, h.imp fun {c c'} hNe => ?_⟩
    simp [List.disjoint_left, hNe]

theorem parties_length (s : Sys) : s.parties.length = s.containers.length * 2 + 1 := by
  simp [parties, List.length_flatMap]

/-- The worker has a view of every container. -/
theorem sees_total (s : Sys) (view : Nat → View) (c : BoxId) : ∃ v, s.Sees view c v := by
  by_cases hUsed : c ∈ s.containers
  · obtain ⟨j, hj⟩ := List.mem_iff_getElem?.mp hUsed
    exact ⟨_, .used hj⟩
  · by_cases hPermanent : c ∈ s.permanent
    · exact ⟨_, .spare hPermanent hUsed⟩
    · rcases Nat.lt_or_ge c s.started with hStarted | hNew
      · exact ⟨_, .gone hStarted hPermanent hUsed⟩
      · exact ⟨_, .unborn hNew⟩

/-- Who is at the start barrier is a party of the request. -/
theorem Inv.party (h : s.Inv) {p : Party} (hIn : p ∈ s.start.waiting) : p ∈ s.parties := by
  by_cases hCounts : s.worker.Counts
  · exact (h.start.serves hCounts).within p hIn
  · simp [h.start.quiet hCounts] at hIn

theorem Inv.unheld (h : s.Inv) (hFree : c ∉ s.containers) (r : Nat) :
    (⟨.container c, r⟩ : Party) ∉ s.start.waiting ∧ (⟨.slave c, r⟩ : Party) ∉ s.start.waiting := by
  constructor <;> intro hIn <;> have hParty := mem_parties.mp (h.party hIn) <;>
    simp [workerParty] at hParty <;> exact hFree hParty.1

-- ---------------------------------------------------------------------------
-- The moves of a container
-- ---------------------------------------------------------------------------

theorem Roster.setBox (h : s.Roster) (hPermanent : b.permanent = (s.box c).permanent) :
    (s.setBox c b).Roster := by
  refine ⟨h.nodup, h.born, h.distinct, h.within, h.temporaries, fun c' hc' => ?_, fun c' hc' => ?_⟩
  all_goals rcases eq_or_ne c' c with rfl | hNe
  · rw [setBox_box_self, hPermanent, h.permanent c' hc']
  · rw [setBox_box_ne s b hNe, h.permanent c' hc']
  · rw [setBox_box_self, hPermanent, h.temporary c' hc']
  · rw [setBox_box_ne s b hNe, h.temporary c' hc']

theorem PlaceOk.setBox (h : s.PlaceOk) (hEnded : ¬ (s.box c).Ended) : (s.setBox c b).PlaceOk := by
  unfold PlaceOk at h ⊢
  rw [setBox_worker]
  have hKept : ∀ c', (s.box c').Ended → ((s.setBox c b).box c').Ended := fun c' hc' => by
    have hNe : c' ≠ c := by
      rintro rfl
      exact hEnded hc'
    rwa [setBox_box_ne s b hNe]
  cases hPlace : s.worker with
  | putId i | waitpid i =>
    simp only [hPlace] at h
    exact ⟨h.1, h.2.1, fun j c' hj hc' => hKept c' (h.2.2 j c' hj hc')⟩
  | _ =>
    simp only [hPlace] at h
    exact h

theorem Inv.setBox (h : s.Inv) (hPermanent : b.permanent = (s.box c).permanent)
    (hEnded : ¬ (s.box c).Ended)
    (hFits : ∀ v, s.Sees s.view c v → b.Fits s.request s.start.waiting v c) :
    (s.setBox c b).Inv where
  roster := h.roster.setBox hPermanent
  place := h.place.setBox hEnded
  ids := h.ids
  boxes := by
    intro c' v hSees
    rcases eq_or_ne c' c with rfl | hNe
    · rw [setBox_box_self]
      exact hFits v hSees
    · rw [setBox_box_ne s b hNe]
      exact h.boxes c' v hSees
  start := ⟨h.start.serves, h.start.quiet, h.start.letGo, h.start.worker⟩

/-- A container moves, and nobody comes to the start barrier. -/
theorem Inv.move (h : s.Inv) (hMoves : (s.box c).Moves pathEnv s c none b) :
    (s.setBox c b).Inv := by
  obtain ⟨v, hSees⟩ := s.sees_total s.view c
  exact h.setBox hMoves.permanent_eq (hMoves.not_ended (h.boxes c v hSees).slave)
    fun v hSees => (h.boxes c v hSees).move hMoves

-- ---------------------------------------------------------------------------
-- Arrivals at the start barrier
-- ---------------------------------------------------------------------------

/-- Only containers of the request have an open view, and only while the start
barrier is in use and holds. -/
theorem open_view (hSees : s.Sees s.view c v) (hOpen : v.Open) :
    c ∈ s.containers ∧ s.worker.Counts ∧
      (s.worker = .awaitStart → s.workerParty ∈ s.start.waiting) := by
  cases hSees with
  | used hUsed =>
    refine ⟨List.mem_of_getElem? hUsed, ?_⟩
    unfold view at hOpen
    cases hPlace : s.worker <;>
      grind [WorkerAt.view, View.Open, WorkerAt.Counts, released]
  | _ => simp [View.Open] at hOpen

theorem view_of_awaitStart (hPlace : s.worker = .awaitStart) :
    s.view = fun _ => .serving s.released := by
  funext j
  rw [view, hPlace, WorkerAt.view]

theorem view_congr (hWorker : s'.worker = s.worker) (hReleased : s'.released = s.released) :
    s'.view = s.view := by
  funext j
  rw [view, view, hWorker, hReleased]

/-- The start barrier lets go of the containers of the request when all its parties
are there. -/
theorem fits_released {box : BoxId → Box} {waiting : List Party}
    (hBoxes : ∀ c v, s.Sees (fun _ => .serving false) c v → (box c).Fits s.request waiting v c)
    (hAll : ∀ p ∈ s.parties, p ∈ waiting) :
    ∀ c v, s.Sees (fun _ => .serving true) c v → (box c).Fits s.request [] v c := by
  intro c v hSees
  cases hSees with
  | used hUsed =>
    have hMem := List.mem_of_getElem? hUsed
    refine (hBoxes c _ (.used hUsed)).released ?_ ?_
    · exact hAll _ (mem_parties.mpr (.inr ⟨c, hMem, .inl rfl⟩))
    · exact hAll _ (mem_parties.mpr (.inr ⟨c, hMem, .inr rfl⟩))
  | spare hPermanent hFree => exact (hBoxes c _ (.spare hPermanent hFree)).idle (by simp) (by simp)
  | gone hStarted hTemporary hFree =>
    exact (hBoxes c _ (.gone hStarted hTemporary hFree)).idle (by simp) (by simp)
  | unborn hNew => exact (hBoxes c _ (.unborn hNew)).idle (by simp) (by simp)

/-- What the arrival of `p` makes of the start barrier. -/
theorem StartOk.arrive_cases (h : s.StartOk) (hCounts : s.worker.Counts) {p : Party}
    (hParty : p ∈ s.parties) (hNew : p ∉ s.start.waiting) :
    (s.start.arrive p).waiting = s.start.waiting ++ [p] ∨
      (s.start.arrive p).waiting = [] ∧ ∀ q ∈ s.parties, q ∈ s.start.waiting ++ [p] := by
  rcases s.start.arrive_waiting_cases p with hEmpty | hHeld
  · refine .inr ⟨hEmpty, fun q hq => ?_⟩
    have hPerm := ((h.serves hCounts).releases_iff hParty hNew).mp hEmpty
    have := hPerm.symm.subset hq
    simpa [or_comm] using this
  · exact .inl hHeld

/-- A container or a slave comes to the start barrier. -/
theorem Inv.arrive (h : s.Inv) {p : Party} (hMoves : (s.box c).Moves pathEnv s c (some p) b) :
    (s.moveBox c (some p) b).Inv := by
  obtain ⟨v, hSees⟩ := s.sees_total s.view c
  have hFits := h.boxes c v hSees
  obtain ⟨hOpen, hNew, hWho, -⟩ := hFits.arrives hMoves
  obtain ⟨hUsed, hCounts, hHolds⟩ := open_view hSees hOpen
  have hParty : p ∈ s.parties := mem_parties.mpr (.inr ⟨c, hUsed, hWho⟩)
  have hProc : p.proc ≠ .worker := by rcases hWho with rfl | rfl <;> simp
  have hOther : s.workerParty ≠ p := fun hEq => hProc (by rw [← hEq, workerParty])
  have hBoxes : ∀ c' v, s.Sees s.view c' v →
      ((s.setBox c b).box c').Fits s.request (s.start.waiting ++ [p]) v c' := by
    intro c' v' hSees'
    rcases eq_or_ne c' c with rfl | hNe
    · rw [setBox_box_self]
      exact ((h.boxes c' v' hSees').arrives hMoves).2.2.2
    · rw [setBox_box_ne s b hNe]
      refine (h.boxes c' v' hSees').other_arrives ?_ ?_ <;> rcases hWho with rfl | rfl <;>
        simp [Ne.symm hNe]
  obtain ⟨h1, h2, h3, h4, h5, h6, h7⟩ := h.roster.setBox (c := c) (b := b) hMoves.permanent_eq
  have hEnded := hMoves.not_ended hFits.slave
  have hServes := (h.start.serves hCounts).arrive hParty hNew
  have hIn : ∀ r, ⟨.worker, r⟩ ∈ (s.start.arrive p).waiting → s.worker = .awaitStart := by
    intro r hr
    rcases Barrier.mem_waiting_of_arrive hr with hr | rfl
    · exact h.start.worker r hr
    · exact absurd rfl hProc
  rcases h.start.arrive_cases hCounts hParty hNew with hHeld | ⟨hEmpty, hAll⟩
  · have hView : (s.moveBox c (some p) b).view = s.view := by
      refine view_congr rfl (decide_eq_decide.mpr ?_)
      change s.workerParty ∉ (s.start.arrive p).waiting ↔ _
      simp [hHeld, hOther]
    refine ⟨⟨h1, h2, h3, h4, h5, h6, h7⟩, h.place.setBox hEnded, h.ids, ?_, fun _ => hServes,
      fun hNot => absurd hCounts hNot, fun hPlace hFree => absurd ?_ hFree, hIn⟩
    · intro c' v' hSees'
      rw [hView] at hSees'
      have hFits' := hBoxes c' v' hSees'
      rw [← hHeld] at hFits'
      exact hFits'
    · change s.workerParty ∈ (s.start.arrive p).waiting
      rw [hHeld]
      exact List.mem_append_left _ (hHolds hPlace)
  · have hWaits : s.workerParty ∈ s.start.waiting := by
      have := hAll _ (mem_parties.mpr (.inl rfl))
      simpa [hOther] using this
    have hPlace := h.start.worker _ hWaits
    have hHere : s.view = fun _ => .serving false := by
      rw [view_of_awaitStart hPlace, released, decide_eq_false (not_not.mpr hWaits)]
    have hView : (s.moveBox c (some p) b).view = fun _ => .serving true := by
      refine (view_of_awaitStart (s := s.moveBox c (some p) b) hPlace).trans ?_
      change (fun _ => View.serving (decide (s.workerParty ∉ (s.start.arrive p).waiting))) = _
      simp [hEmpty]
    rw [hHere] at hBoxes
    refine ⟨⟨h1, h2, h3, h4, h5, h6, h7⟩, h.place.setBox hEnded, h.ids, ?_, fun _ => hServes,
      fun hNot => absurd hCounts hNot, fun _ _ => hEmpty, hIn⟩
    intro c' v' hSees'
    rw [hView] at hSees'
    have hFits' := fits_released hBoxes hAll c' v' hSees'
    rw [← hEmpty] at hFits'
    exact hFits'

/-- **A step of the processes of a container.** -/
theorem Inv.moved (h : s.Inv) (hMoved : s.Moved pathEnv c s') : s'.Inv := by
  obtain ⟨p, b, hMoves, rfl⟩ := hMoved
  cases p with
  | none => exact h.move hMoves
  | some p => exact h.arrive hMoves

-- ---------------------------------------------------------------------------
-- The steps of the worker
-- ---------------------------------------------------------------------------

/-- The worker goes on, outside of the start barrier. -/
theorem Inv.goTo (h : s.Inv) {w : WorkerAt} {box : BoxId → Box} {tasks : List Task}
    {ids : SharedIdGetter} (hPermanent : ∀ c, (box c).permanent = (s.box c).permanent)
    (hPlace : { s with worker := w, box, tasks, ids : Sys }.PlaceOk)
    (hIds : ids.stack.length + ids.elsewhere.length + w.inHand + s.worker.returned =
      s.ids.stack.length + s.ids.elsewhere.length + s.worker.inHand + w.returned)
    (hCounts : w.Counts ↔ s.worker.Counts) (hStart : w = .awaitStart ↔ s.worker = .awaitStart)
    (hSpare : ∀ c, c ∉ s.containers → box c = s.box c)
    (hViews : ∀ j c, s.containers[j]? = some c →
      (s.box c).Fits s.request s.start.waiting (s.view j) c →
      (box c).Fits s.request s.start.waiting (w.view s.released j) c) :
    { s with worker := w, box, tasks, ids : Sys }.Inv := by
  obtain ⟨hNodup, hBorn, hDistinct, hWithin, hTemporaries, hFlag, hNoFlag⟩ := h.roster
  refine ⟨⟨hNodup, hBorn, hDistinct, hWithin, hTemporaries, ?_, ?_⟩, hPlace, ?_, ?_, ?_⟩
  · exact fun c hc => (hPermanent c).trans (hFlag c hc)
  · exact fun c hc => (hPermanent c).trans (hNoFlag c hc)
  · have := h.ids
    change ids.stack.length + ids.elsewhere.length + s.permanent.length + s.temporary.length +
      w.inHand = idCount + w.returned
    omega
  · intro c v hSees
    change (box c).Fits s.request s.start.waiting v c
    cases hSees with
    | used hUsed => exact hViews _ c hUsed (h.boxes c _ (.used hUsed))
    | spare hPermanent hFree =>
      rw [hSpare c hFree]
      exact h.boxes c _ (.spare hPermanent hFree)
    | gone hStarted hTemporary hFree =>
      rw [hSpare c hFree]
      exact h.boxes c _ (.gone hStarted hTemporary hFree)
    | unborn hNew =>
      rw [hSpare c fun hUsed => absurd (hBorn c (hWithin c hUsed)) (Nat.not_lt.mpr hNew)]
      exact h.boxes c _ (.unborn hNew)
  · exact ⟨fun hNew => h.start.serves (hCounts.mp hNew),
      fun hNew => h.start.quiet fun hOld => hNew (hCounts.mpr hOld),
      fun hNew => h.start.letGo (hStart.mp hNew), fun r hr => hStart.mpr (h.start.worker r hr)⟩

/-- The worker goes on to a place with the same views. -/
theorem Inv.goOn (h : s.Inv) {w : WorkerAt} {tasks : List Task} {ids : SharedIdGetter}
    (hPlace : { s with worker := w, tasks, ids : Sys }.PlaceOk)
    (hIds : ids.stack.length + ids.elsewhere.length + w.inHand + s.worker.returned =
      s.ids.stack.length + s.ids.elsewhere.length + s.worker.inHand + w.returned)
    (hCounts : w.Counts ↔ s.worker.Counts) (hStart : w = .awaitStart ↔ s.worker = .awaitStart)
    (hViews : ∀ j, j < s.containers.length → w.view s.released j = s.view j) :
    { s with worker := w, tasks, ids : Sys }.Inv := by
  refine h.goTo (fun _ => rfl) hPlace hIds hCounts hStart (fun _ _ => rfl) fun j c hj hFits => ?_
  rw [hViews j (List.getElem?_eq_some_iff.mp hj).1]
  exact hFits

/-- The worker goes on with the container `containers_[i]`. -/
theorem Inv.goWith (h : s.Inv) {w : WorkerAt} {i : Nat} (hi : s.containers[i]? = some c)
    (hPermanent : b.permanent = (s.box c).permanent)
    (hPlace : { s.setBox c b with worker := w : Sys }.PlaceOk)
    (hReturned : w.returned = s.worker.returned) (hInHand : w.inHand = s.worker.inHand)
    (hCounts : w.Counts ↔ s.worker.Counts)
    (hStart : w = .awaitStart ↔ s.worker = .awaitStart)
    (hViews : ∀ j, j ≠ i → w.view s.released j = s.view j)
    (hFits : (s.box c).Fits s.request s.start.waiting (s.view i) c →
      b.Fits s.request s.start.waiting (w.view s.released i) c) :
    { s.setBox c b with worker := w : Sys }.Inv := by
  refine h.goTo ?_ hPlace (by rw [setBox_ids, hReturned, hInHand]) hCounts hStart ?_ ?_
  · intro c'
    rcases eq_or_ne c' c with rfl | hNe
    · rwa [setBox_box_self]
    · rw [setBox_box_ne s b hNe]
  · intro c' hFree
    have hNe : c' ≠ c := by
      rintro rfl
      exact hFree (List.mem_of_getElem? hi)
    rw [setBox_box_ne s b hNe]
  · intro j c' hj hOld
    rcases eq_or_ne c' c with rfl | hNe
    · have hEq : j = i := by
        obtain ⟨hLt, hGet⟩ := List.getElem?_eq_some_iff.mp hj
        obtain ⟨hLt', hGet'⟩ := List.getElem?_eq_some_iff.mp hi
        exact (h.roster.distinct.getElem_inj_iff).mp (hGet.trans hGet'.symm)
      subst hEq
      rw [setBox_box_self]
      exact hFits hOld
    · have hEq : j ≠ i := by
        rintro rfl
        exact hNe (Option.some.inj (hj.symm.trans hi))
      rw [setBox_box_ne s b hNe, hViews j hEq]
      exact hOld

theorem Inv.die (h : s.Inv) : s.die.Inv := by
  obtain ⟨h1, h2, h3, h4, h5, h6, h7⟩ := h.roster
  exact ⟨⟨h1, h2, h3, h4, h5, h6, h7⟩, h.place, h.ids, h.boxes,
    ⟨h.start.serves, h.start.quiet, h.start.letGo, h.start.worker⟩⟩

/-- The containers that there are and one more. -/
theorem Inv.boxes_started (h : s.Inv) {i next : Nat} {id : Uid}
    (hWorker : s.worker = .startContainer i next id) {permanent' : List BoxId}
    (hOthers : ∀ c, c ≠ s.started → (c ∈ permanent' ↔ c ∈ s.permanent)) (task : Task) :
    ∀ c v, View.Of (s.containers ++ [s.started]) permanent' (s.started + 1)
      (fun _ => .free false) c v →
      ((s.newContainer id task).box c).Fits s.request s.start.waiting v c := by
  have hFree : s.started ∉ s.containers := fun hUsed =>
    absurd (h.roster.born _ (h.roster.within _ hUsed)) (lt_irrefl _)
  intro c v hSees
  rcases eq_or_ne c s.started with rfl | hNe
  · rw [newContainer_box_self]
    cases hSees with
    | used => exact Box.fits_started id (permanentAllowed task) task (h.unheld hFree)
    | spare _ hFree => simp at hFree
    | gone _ _ hFree => simp at hFree
    | unborn hNew => omega
  · rw [newContainer_box_ne s id task hNe]
    have hView : s.view = fun _ => .free false := by
      funext j
      simp [view, hWorker, WorkerAt.view]
    refine h.boxes c v ?_
    rw [hView]
    cases hSees with
    | used hUsed =>
      have hMem := List.mem_of_getElem? hUsed
      obtain ⟨j, hj⟩ := List.mem_iff_getElem?.mp
        ((List.mem_append.mp hMem).resolve_right (by simpa using hNe))
      exact (.used hj : s.Sees (fun _ => .free false) c (.free false))
    | spare hPermanent hFree =>
      exact .spare ((hOthers c hNe).mp hPermanent) fun hUsed => hFree (List.mem_append_left _ hUsed)
    | gone hStarted hTemporary hFree =>
      exact .gone (Nat.lt_of_le_of_ne (Nat.le_of_lt_succ hStarted) hNe) (fun hMem => hTemporary ((hOthers c hNe).mpr hMem))
        fun hUsed => hFree (List.mem_append_left _ hUsed)
    | unborn hNew => exact .unborn (Nat.le_of_succ_le hNew)

theorem Inv.view_preparing {i next : Nat} (hWorker : s.worker = .prepareContainers i next) :
    s.view = fun _ => .free false := by
  funext j
  simp [view, hWorker, WorkerAt.view]

/-- The worker uses a permanent container again. -/
theorem Inv.reuse (h : s.Inv) {i next : Nat} (hWorker : s.worker = .prepareContainers i next)
    (hTask : i < s.tasks.length) (hc : s.permanent[next]? = some c) :
    { s with
      containers := s.containers ++ [c]
      worker := .prepareContainers (i + 1) (next + 1) : Sys }.Inv := by
  have hPlace := h.place
  simp only [PlaceOk, hWorker] at hPlace
  obtain ⟨hLength, -, hAhead⟩ := hPlace
  have hFree : c ∉ s.containers := hAhead next c le_rfl hc
  have hPermanent : c ∈ s.permanent := List.mem_of_getElem? hc
  have hIds := h.ids
  rw [hWorker] at hIds
  have hQuiet := h.start.quiet (by simp [hWorker])
  obtain ⟨h1, h2, h3, h4, h5, h6, h7⟩ := h.roster
  refine ⟨⟨h1, h2, ?_, ?_, ?_, h6, h7⟩, ⟨?_, hTask, ?_⟩, hIds, ?_, False.elim, fun _ => hQuiet,
    nofun, fun r hr => ?_⟩
  · exact List.nodup_append_comm.mp (List.nodup_cons.mpr ⟨hFree, h3⟩)
  · intro c' hc'
    rcases List.mem_append.mp hc' with hUsed | hEq
    · exact h4 c' hUsed
    · rw [List.mem_singleton.mp hEq]
      exact List.mem_append_left _ hPermanent
  · exact fun c' hc' => List.mem_append_left _ (h5 c' hc')
  · simp [hLength]
  · intro j c' hj hc'
    have hNe : c' ≠ c := by
      rintro rfl
      obtain ⟨hLt, hGet⟩ := List.getElem?_eq_some_iff.mp hc
      obtain ⟨hLt', hGet'⟩ := List.getElem?_eq_some_iff.mp hc'
      have := (h1.of_append_left.getElem_inj_iff).mp (hGet.trans hGet'.symm)
      omega
    simp [hNe, hAhead j c' (by omega) hc']
  · intro c' v hSees
    refine h.boxes c' v ?_
    rw [Inv.view_preparing hWorker]
    by_cases hEq : c' = c
    · subst hEq
      cases hSees with
      | used => exact .spare hPermanent hFree
      | spare _ hNot => simp at hNot
      | gone _ hNot => exact absurd hPermanent hNot
      | unborn hNew =>
        exact absurd (h2 c' (List.mem_append_left _ hPermanent)) (Nat.not_lt.mpr hNew)
    · cases hSees with
      | used hUsed =>
        have hMem := List.mem_of_getElem? hUsed
        obtain ⟨j, hj⟩ := List.mem_iff_getElem?.mp
          ((List.mem_append.mp hMem).resolve_right (by simpa using hEq))
        exact (.used hj : s.Sees (fun _ => .free false) c' (.free false))
      | spare hOld hNot => exact .spare hOld fun hUsed => hNot (List.mem_append_left _ hUsed)
      | gone hStarted hOld hNot =>
        exact .gone hStarted hOld fun hUsed => hNot (List.mem_append_left _ hUsed)
      | unborn hNew => exact .unborn hNew
  · change _ ∈ s.start.waiting at hr
    simp [hQuiet] at hr

/-- The lists of the worker when it has started a container for a task. -/
def Enlists (s : Sys) (task : Task) (permanent temporary : List BoxId) : Prop :=
  permanentAllowed task = true ∧ permanent = s.permanent ++ [s.started] ∧ temporary = s.temporary ∨
    permanentAllowed task = false ∧ permanent = s.permanent ∧ temporary = s.temporary ++ [s.started]

section Enlists

variable {permanent temporary : List BoxId} {task : Task}

theorem Enlists.perm (h : s.Enlists task permanent temporary) :
    (permanent ++ temporary).Perm (s.started :: (s.permanent ++ s.temporary)) := by
  rcases h with ⟨-, rfl, rfl⟩ | ⟨-, rfl, rfl⟩
  · rw [List.append_assoc]
    exact List.perm_middle
  · rw [← List.append_assoc]
    exact List.perm_append_singleton _ _

theorem Enlists.others (h : s.Enlists task permanent temporary) (hNe : c ≠ s.started) :
    (c ∈ permanent ↔ c ∈ s.permanent) ∧ (c ∈ temporary ↔ c ∈ s.temporary) := by
  rcases h with ⟨-, rfl, rfl⟩ | ⟨-, rfl, rfl⟩ <;> simp [hNe]

theorem Roster.started_notMem (h : s.Roster) : s.started ∉ s.permanent ++ s.temporary :=
  fun hc => lt_irrefl _ (h.born _ hc)

/-- The new container is of the kind of its list. -/
theorem Enlists.kind (h : s.Enlists task permanent temporary)
    (hNew : s.started ∉ s.permanent ++ s.temporary) :
    (s.started ∈ permanent → permanentAllowed task = true) ∧
      (s.started ∈ temporary → permanentAllowed task = false) := by
  rw [List.mem_append, not_or] at hNew
  rcases h with ⟨hFlag, rfl, rfl⟩ | ⟨hFlag, rfl, rfl⟩
  · exact ⟨fun _ => hFlag, fun hc => absurd hc hNew.2⟩
  · exact ⟨fun hc => absurd hc hNew.1, fun _ => hFlag⟩

theorem Roster.newContainer (h : s.Roster) (hLists : s.Enlists task permanent temporary) (id : Uid)
    (worker : WorkerAt) :
    { s.newContainer id task with permanent, temporary, worker : Sys }.Roster := by
  obtain ⟨h1, h2, h3, h4, h5, h6, h7⟩ := h
  have hNew := Roster.started_notMem ⟨h1, h2, h3, h4, h5, h6, h7⟩
  have hPerm := hLists.perm
  have hMem : ∀ c, c ∈ permanent ++ temporary ↔ c = s.started ∨ c ∈ s.permanent ++ s.temporary :=
    fun c => by rw [hPerm.mem_iff, List.mem_cons]
  have hBoxNe : ∀ c, c ≠ s.started → (s.newContainer id task).box c = s.box c :=
    fun c hNe => newContainer_box_ne s id task hNe
  have hBox := congrArg Box.permanent (newContainer_box_self s id task)
  refine ⟨hPerm.nodup_iff.mpr (List.nodup_cons.mpr ⟨hNew, h1⟩), ?_, ?_, ?_, ?_, ?_, ?_⟩
  · intro c hc
    rcases (hMem c).mp hc with rfl | hOld
    · exact Nat.lt_succ_self _
    · exact Nat.lt_succ_of_lt (h2 c hOld)
  · exact List.nodup_append_comm.mp (List.nodup_cons.mpr ⟨fun hc => hNew (h4 _ hc), h3⟩)
  · intro c hc
    refine (hMem c).mpr ?_
    rcases List.mem_append.mp hc with hOld | hEq
    · exact .inr (h4 c hOld)
    · exact .inl (List.mem_singleton.mp hEq)
  · intro c hc
    by_cases hEq : c = s.started
    · exact List.mem_append_right _ (List.mem_singleton.mpr hEq)
    · exact List.mem_append_left _ (h5 c ((hLists.others hEq).2.mp hc))
  · intro c hc
    by_cases hEq : c = s.started
    · subst hEq
      exact hBox.trans ((hLists.kind hNew).1 hc)
    · exact (congrArg Box.permanent (hBoxNe c hEq)).trans (h6 c ((hLists.others hEq).1.mp hc))
  · intro c hc
    by_cases hEq : c = s.started
    · subst hEq
      exact hBox.trans ((hLists.kind hNew).2 hc)
    · exact (congrArg Box.permanent (hBoxNe c hEq)).trans (h7 c ((hLists.others hEq).2.mp hc))

/-- The worker starts a new container. -/
theorem Inv.newContainer (h : s.Inv) {i next next' : Nat} {id : Uid}
    (hWorker : s.worker = .startContainer i next id) (hLists : s.Enlists task permanent temporary)
    (hNext : permanentAllowed task = true ∧ next' = next + 1 ∧ s.permanent.length ≤ next ∨
      permanentAllowed task = false ∧ next' = next) :
    { s.newContainer id task with
      permanent, temporary, worker := .prepareContainers (i + 1) next' : Sys }.Inv := by
  have hPlace := h.place
  simp only [PlaceOk, hWorker] at hPlace
  obtain ⟨hLength, hTask, hAhead, -⟩ := hPlace
  have hCount := h.ids
  simp only [hWorker, WorkerAt.returned, WorkerAt.inHand] at hCount
  have hQuiet := h.start.quiet (by simp [hWorker])
  have hNew := h.roster.started_notMem
  have hBoxes := h.boxes_started hWorker (fun c hNe => (hLists.others hNe).1) task
  refine ⟨h.roster.newContainer hLists id _, ⟨?_, hTask, ?_⟩, ?_, hBoxes, False.elim,
    fun _ => hQuiet, nofun, fun r hr => ?_⟩
  · simp [Sys.newContainer, hLength]
  · intro j c hj hc
    change c ∉ s.containers ++ [s.started]
    rcases hLists with ⟨hFlag, rfl, -⟩ | ⟨hFlag, rfl, -⟩
    · have hBeyond := (List.getElem?_eq_some_iff.mp hc).1
      rw [List.length_append, List.length_singleton] at hBeyond
      rcases hNext with ⟨-, rfl, hEnd⟩ | ⟨hOther, -⟩
      · omega
      · simp [hFlag] at hOther
    · obtain rfl : next' = next := (hNext.resolve_left fun hOther => by simp [hFlag] at hOther).2
      have hNe : c ≠ s.started := by
        rintro rfl
        exact hNew (List.mem_append_left _ (List.mem_of_getElem? hc))
      simp [hNe, hAhead j c hj hc]
  · change s.ids.stack.length + s.ids.elsewhere.length + permanent.length + temporary.length + 0 =
      idCount + 0
    have hTotal := hLists.perm.length_eq
    simp only [List.length_append, List.length_cons] at hTotal
    omega
  · change _ ∈ s.start.waiting at hr
    simp [hQuiet] at hr

end Enlists

/-- The worker takes an id for a new container. -/
theorem Inv.takeId (h : s.Inv) {i next : Nat} {task : Task} {id : Uid} {stack : List Uid}
    (hWorker : s.worker = .prepareContainers i next) (hTask : s.tasks[i]? = some task)
    (hNone : permanentAllowed task = true → s.permanent[next]? = none)
    (hStack : s.ids.stack = id :: stack) :
    { s with ids := { s.ids with stack }, worker := .startContainer i next id : Sys }.Inv := by
  have hPlace := h.place
  simp only [PlaceOk, hWorker] at hPlace
  refine h.goOn ⟨hPlace.1, (List.getElem?_eq_some_iff.mp hTask).1,
    hPlace.2.2, fun task' hTask' hAllowed => ?_⟩ ?_ (by simp [hWorker]) (by simp [hWorker]) ?_
  · obtain rfl := Option.some.inj (hTask.symm.trans hTask')
    exact List.getElem?_eq_none_iff.mp (hNone hAllowed)
  · simp only [hWorker, hStack, WorkerAt.returned, WorkerAt.inHand, List.length_cons]
    omega
  · intro j _
    simp [view, hWorker, WorkerAt.view]

/-- The worker sets the start barrier. At most `idCount` ids are there, so the count
does not wrap. -/
theorem Inv.resetBarrier (h : s.Inv) (hWorker : s.worker = .resetBarrier) :
    { s with
      start := ⟨(UInt32.ofNat (s.containers.length * 2 + 1)).toNat, []⟩
      worker := .writeTasks 0 : Sys }.Inv := by
  have hEmpty : s.start.waiting = [] := h.start.quiet (by simp [hWorker])
  have hBound : s.containers.length ≤ idCount := by
    have hLe := (h.roster.distinct.subperm h.roster.within).length_le
    have hIds := h.ids
    rw [List.length_append] at hLe
    simp only [hWorker, WorkerAt.returned, WorkerAt.inHand] at hIds
    omega
  have hCount : (UInt32.ofNat (s.containers.length * 2 + 1)).toNat = s.parties.length := by
    have hSize : UInt32.size = 4294967296 := rfl
    rw [parties_length, UInt32.toNat_ofNat_of_lt']
    unfold idCount at hBound
    omega
  have hPlace := h.place
  simp only [PlaceOk, hWorker] at hPlace
  obtain ⟨h1, h2, h3, h4, h5, h6, h7⟩ := h.roster
  refine ⟨⟨h1, h2, h3, h4, h5, h6, h7⟩, hPlace, ?_, ?_, fun _ => ?_, absurd trivial, nofun, nofun⟩
  · have hIds := h.ids
    rw [hWorker] at hIds
    exact hIds
  · intro c v hSees
    change (s.box c).Fits s.request [] v c
    rw [← hEmpty]
    cases hSees with
    | used hUsed =>
      have hFits := h.boxes c _ (.used hUsed)
      simpa [view, hWorker, WorkerAt.view] using hFits
    | spare hPermanent hFree => exact h.boxes c _ (.spare hPermanent hFree)
    | gone hStarted hTemporary hFree => exact h.boxes c _ (.gone hStarted hTemporary hFree)
    | unborn hNew => exact h.boxes c _ (.unborn hNew)
  · rw [hCount]
    exact Barrier.serves_fresh (by simp [parties])

/-- The worker writes the task of `containers_[i]`. -/
theorem Inv.write (h : s.Inv) {i : Nat} (hWorker : s.worker = .writeTasks i)
    (hc : s.containers[i]? = some c) (task : Task) :
    { s.setBox c { s.box c with block := Block.setTask s.request task } with
      worker := .writeTasks (i + 1) : Sys }.Inv := by
  have hPlace := h.place
  simp only [PlaceOk, hWorker] at hPlace
  refine h.goWith hc rfl hPlace (by simp [hWorker]) (by simp [hWorker]) (by simp [hWorker])
    (by simp [hWorker]) ?_ ?_
  · intro j hj
    have hSame : j < i + 1 ↔ j < i := by omega
    simp [view, hWorker, WorkerAt.view, hSame]
  · intro hFits
    simp only [view, hWorker, WorkerAt.view, lt_irrefl, decide_false, Nat.lt_succ_self,
      decide_true] at hFits ⊢
    exact hFits.write task

/-- The worker calls `containers_[i]` to its task barrier. -/
theorem Inv.call (h : s.Inv) {i : Nat} (hWorker : s.worker = .taskBarrier i)
    (hc : s.containers[i]? = some c) :
    { s.callContainer c with worker := .awaitTask i : Sys }.Inv := by
  have hPlace := h.place
  simp only [PlaceOk, hWorker] at hPlace
  have hLt := (List.getElem?_eq_some_iff.mp hc).1
  refine h.goWith hc rfl ⟨hPlace, hLt⟩ (by simp [hWorker]) (by simp [hWorker])
    (by simp [hWorker]) (by simp [hWorker]) ?_ ?_
  · intro j hj
    simp [view, hWorker, WorkerAt.view, hj]
  · intro hFits
    simp only [view, hWorker, WorkerAt.view, lt_irrefl, if_false, if_true] at hFits ⊢
    exact hFits.call

theorem Inv.awaitTask (h : s.Inv) {i : Nat} (hWorker : s.worker = .awaitTask i)
    (hc : s.containers[i]? = some c) (hFree : .worker ∉ (s.box c).barrier.waiting) :
    { s with worker := .taskBarrier (i + 1) : Sys }.Inv := by
  have hPlace := h.place
  simp only [PlaceOk, hWorker] at hPlace
  refine h.goTo (fun _ => rfl) hPlace.1 (by simp [hWorker]) (by simp [hWorker])
    (by simp [hWorker]) (fun _ _ => rfl) fun j c' hc' hFits => ?_
  rcases Nat.lt_trichotomy j i with hLt | rfl | hGt
  · have hPassed : j < i + 1 := by omega
    simpa [view, hWorker, WorkerAt.view, hLt, hPassed] using hFits
  · obtain rfl := Option.some.inj (hc.symm.trans hc')
    simp only [view, hWorker, WorkerAt.view, lt_irrefl, if_false, if_true, Nat.lt_succ_self]
      at hFits ⊢
    exact hFits.answered hFree
  · have hAhead : ¬ j < i ∧ ¬ j < i + 1 ∧ j ≠ i := by omega
    simpa [view, hWorker, WorkerAt.view, hAhead] using hFits

/-- The worker comes to the start barrier. -/
theorem Inv.startBarrier (h : s.Inv) (hWorker : s.worker = .startBarrier) :
    { s with start := s.start.arrive s.workerParty, worker := .awaitStart : Sys }.Inv := by
  have hPlace := h.place
  simp only [PlaceOk, hWorker] at hPlace
  have hCounts : s.worker.Counts := by simp [hWorker]
  have hParty : s.workerParty ∈ s.parties := mem_parties.mpr (.inl rfl)
  have hNew : s.workerParty ∉ s.start.waiting := fun hIn => by
    simpa [hWorker] using h.start.worker _ hIn
  have hHere : s.view = fun _ => .serving false := by
    funext j
    simp [view, hWorker, WorkerAt.view]
  have hBoxes : ∀ c v, s.Sees (fun _ => .serving false) c v →
      (s.box c).Fits s.request (s.start.waiting ++ [s.workerParty]) v c := by
    intro c v hSees
    rw [← hHere] at hSees
    exact (h.boxes c v hSees).other_arrives (by simp [workerParty]) (by simp [workerParty])
  have hServes := (h.start.serves hCounts).arrive hParty hNew
  have hView : ∀ s₁ : Sys, s₁ = { s with
      start := s.start.arrive s.workerParty, worker := .awaitStart : Sys } →
      s₁.view = fun _ => .serving (decide (s.workerParty ∉ (s.start.arrive s.workerParty).waiting)) := by
    rintro _ rfl
    exact view_of_awaitStart rfl
  have hIds := h.ids
  rw [hWorker] at hIds
  obtain ⟨h1, h2, h3, h4, h5, h6, h7⟩ := h.roster
  have hArrived := h.start.arrive_cases hCounts hParty hNew
  refine ⟨⟨h1, h2, h3, h4, h5, h6, h7⟩, hPlace, hIds, ?_, fun _ => hServes, absurd trivial,
    fun _ hFree => ?_, fun _ _ => rfl⟩
  · intro c v hSees
    rw [hView _ rfl] at hSees
    change (s.box c).Fits s.request (s.start.arrive s.workerParty).waiting v c
    rcases hArrived with hHeld | ⟨hEmpty, hAll⟩
    · rw [hHeld] at hSees ⊢
      exact hBoxes c v (by simpa using hSees)
    · rw [hEmpty] at hSees ⊢
      exact fits_released hBoxes hAll c v (by simpa using hSees)
  · change s.workerParty ∉ (s.start.arrive s.workerParty).waiting at hFree
    rcases hArrived with hHeld | ⟨hEmpty, -⟩
    · simp [hHeld] at hFree
    · exact hEmpty

theorem Inv.closePipes (h : s.Inv) (hWorker : s.worker = .awaitStart)
    (hFree : s.workerParty ∉ s.start.waiting) : { s with worker := .closePipes : Sys }.Inv := by
  have hPlace := h.place
  simp only [PlaceOk, hWorker] at hPlace
  have hIds := h.ids
  rw [hWorker] at hIds
  have hEmpty := h.start.letGo hWorker hFree
  have hView : s.view = fun _ => .serving true := by
    rw [view_of_awaitStart hWorker, released, decide_eq_true hFree]
  obtain ⟨h1, h2, h3, h4, h5, h6, h7⟩ := h.roster
  refine ⟨⟨h1, h2, h3, h4, h5, h6, h7⟩, hPlace, hIds, ?_, False.elim, fun _ => hEmpty, nofun,
    fun r hr => ?_⟩
  · intro c v hSees
    refine h.boxes c v ?_
    rw [hView]
    exact hSees
  · change _ ∈ s.start.waiting at hr
    simp [hEmpty] at hr

/-- The worker calls `containers_[i]` to its results barrier. -/
theorem Inv.ask (h : s.Inv) {i : Nat} (hWorker : s.worker = .resultsBarrier i)
    (hc : s.containers[i]? = some c) :
    { s.callContainer c with worker := .awaitResults i : Sys }.Inv := by
  have hPlace := h.place
  simp only [PlaceOk, hWorker] at hPlace
  have hLt := (List.getElem?_eq_some_iff.mp hc).1
  refine h.goWith hc rfl ⟨hPlace, hLt⟩ (by simp [hWorker]) (by simp [hWorker])
    (by simp [hWorker]) (by simp [hWorker]) ?_ ?_
  · intro j hj
    simp [view, hWorker, WorkerAt.view, hj]
  · intro hFits
    simp only [view, hWorker, WorkerAt.view, lt_irrefl, if_false, if_true] at hFits ⊢
    exact hFits.ask

theorem Inv.awaitResults (h : s.Inv) {i : Nat} (hWorker : s.worker = .awaitResults i)
    (hc : s.containers[i]? = some c) (hFree : .worker ∉ (s.box c).barrier.waiting) :
    { s with worker := .putResults i : Sys }.Inv := by
  have hPlace := h.place
  simp only [PlaceOk, hWorker] at hPlace
  refine h.goTo (fun _ => rfl) hPlace (by simp [hWorker]) (by simp [hWorker])
    (by simp [hWorker]) (fun _ _ => rfl) fun j c' hc' hFits => ?_
  rcases Nat.lt_trichotomy j i with hLt | rfl | hGt
  · have hPassed : j ≤ i := by omega
    simpa [view, hWorker, WorkerAt.view, hLt, hPassed] using hFits
  · obtain rfl := Option.some.inj (hc.symm.trans hc')
    simp only [view, hWorker, WorkerAt.view, lt_irrefl, if_false, if_true, le_refl]
      at hFits ⊢
    exact hFits.told hFree
  · have hAhead : ¬ j < i ∧ ¬ j ≤ i ∧ j ≠ i := by omega
    simpa [view, hWorker, WorkerAt.view, hAhead] using hFits

theorem Inv.put (h : s.Inv) {i : Nat} (hWorker : s.worker = .putResults i) (task : Task) :
    { s with tasks := s.tasks.set i task, worker := .resultsBarrier (i + 1) : Sys }.Inv := by
  have hPlace := h.place
  simp only [PlaceOk, hWorker] at hPlace
  refine h.goOn ?_ (by simp [hWorker]) (by simp [hWorker]) (by simp [hWorker]) ?_
  · simpa [PlaceOk] using hPlace.1
  · intro j hj
    have hSame : j < i + 1 ↔ j ≤ i := by omega
    simp [view, hWorker, WorkerAt.view, hSame]

/-- **The worker is done with a request.** -/
theorem Inv.finish (h : s.Inv) {i : Nat} (hWorker : s.worker = .putId i)
    (hEnd : s.temporary[i]? = none) :
    { s with
      tasks := [], temporary := [], containers := [], worker := .accept
      responses := s.responses ++ [s.tasks] : Sys }.Inv := by
  have hPlace := h.place
  simp only [PlaceOk, hWorker] at hPlace
  have hLe := List.getElem?_eq_none_iff.mp hEnd
  have hIds := h.ids
  simp only [hWorker, WorkerAt.returned, WorkerAt.inHand] at hIds
  have hEmpty : s.start.waiting = [] := h.start.quiet (by simp [hWorker])
  have hView : s.view = fun _ => .done := by
    funext j
    simp [view, hWorker, WorkerAt.view]
  have hBoxes := h.boxes
  rw [hView] at hBoxes
  have hEnded : ∀ c ∈ s.temporary, (s.box c).Ended := by
    intro c hc
    obtain ⟨j, hj⟩ := List.mem_iff_getElem?.mp hc
    exact hPlace.2.2 j c (by have := (List.getElem?_eq_some_iff.mp hj).1; omega) hj
  obtain ⟨h1, h2, h3, h4, h5, h6, h7⟩ := h.roster
  have hDisjoint := List.disjoint_of_nodup_append h1
  refine ⟨⟨?_, ?_, List.nodup_nil, nofun, nofun, h6, nofun⟩, rfl, ?_, ?_, False.elim,
    fun _ => hEmpty, nofun, fun r hr => ?_⟩
  · simpa using h1.of_append_left
  · exact fun c hc => h2 c (List.mem_append_left _ (by simpa using hc))
  · change s.ids.stack.length + s.ids.elsewhere.length + s.permanent.length + 0 + 0 = idCount + 0
    omega
  · intro c v hSees
    change (s.box c).Fits s.request s.start.waiting v c
    cases hSees with
    | used hUsed => simp at hUsed
    | spare hPermanent hFree =>
      by_cases hUsed : c ∈ s.containers
      · obtain ⟨j, hj⟩ := List.mem_iff_getElem?.mp hUsed
        exact (hBoxes c _ (.used hj)).kept (h6 c hPermanent)
      · exact hBoxes c _ (.spare hPermanent hUsed)
    | gone hStarted hTemporary hFree =>
      by_cases hUsed : c ∈ s.containers
      · obtain ⟨j, hj⟩ := List.mem_iff_getElem?.mp hUsed
        have hOld := (List.mem_append.mp (h4 c hUsed)).resolve_left hTemporary
        exact (hBoxes c _ (.used hj)).reaped (hEnded c hOld)
      · exact hBoxes c _ (.gone hStarted hTemporary hUsed)
    | unborn hNew => exact hBoxes c _ (.unborn hNew)
  · change _ ∈ s.start.waiting at hr
    simp [hEmpty] at hr

theorem Inv.putId (h : s.Inv) {i : Nat} (hWorker : s.worker = .putId i)
    (hc : s.temporary[i]? = some c) (id : Uid) :
    { s with
      ids := { s.ids with stack := id :: s.ids.stack }
      worker := .waitpid i : Sys }.Inv := by
  have hPlace := h.place
  simp only [PlaceOk, hWorker] at hPlace
  have hLt := (List.getElem?_eq_some_iff.mp hc).1
  refine h.goOn ⟨hPlace.1, hLt, hPlace.2.2⟩ ?_ (by simp [hWorker]) (by simp [hWorker]) ?_
  · simp only [hWorker, WorkerAt.returned, WorkerAt.inHand, List.length_cons]
    omega
  · intro j hj
    simp [view, hWorker, WorkerAt.view]

theorem Inv.waitpid (h : s.Inv) {i : Nat} (hWorker : s.worker = .waitpid i)
    (hc : s.temporary[i]? = some c) (hEnded : (s.box c).Ended) :
    { s with worker := .putId (i + 1) : Sys }.Inv := by
  have hPlace := h.place
  simp only [PlaceOk, hWorker] at hPlace
  refine h.goOn ⟨hPlace.1, hPlace.2.1, fun j c' hj hc' => ?_⟩ (by simp [hWorker])
    (by simp [hWorker]) (by simp [hWorker]) ?_
  · rcases Nat.lt_or_ge j i with hLt | hGe
    · exact hPlace.2.2 j c' hLt hc'
    · obtain rfl : j = i := by omega
      exact Option.some.inj (hc.symm.trans hc') ▸ hEnded
  · intro j hj
    simp [view, hWorker, WorkerAt.view]

theorem Inv.accept (h : s.Inv) (hWorker : s.worker = .accept) (tasks : List Task) :
    { s with request := s.request + 1, tasks, worker := .prepareContainers 0 0 : Sys }.Inv := by
  have hPlace : s.containers = [] := by simpa [PlaceOk, hWorker] using h.place
  have hEmpty : s.start.waiting = [] := h.start.quiet (by simp [hWorker])
  have hIds := h.ids
  rw [hWorker] at hIds
  obtain ⟨h1, h2, h3, h4, h5, h6, h7⟩ := h.roster
  refine ⟨⟨h1, h2, h3, h4, h5, h6, h7⟩, ?_, hIds, ?_, False.elim, fun _ => hEmpty, nofun,
    fun r hr => ?_⟩
  · simp [PlaceOk, hPlace]
  · intro c v hSees
    change (s.box c).Fits (s.request + 1) s.start.waiting v c
    have hNone : ∀ r, (⟨.container c, r⟩ : Party) ∉ s.start.waiting ∧
        (⟨.slave c, r⟩ : Party) ∉ s.start.waiting := by simp [hEmpty]
    cases hSees with
    | used hUsed => simp [hPlace] at hUsed
    | spare hPermanent hFree => exact (h.boxes c _ (.spare hPermanent hFree)).idle (by simp) hNone
    | gone hStarted hTemporary hFree =>
      exact (h.boxes c _ (.gone hStarted hTemporary hFree)).idle (by simp) hNone
    | unborn hNew => exact (h.boxes c _ (.unborn hNew)).idle (by simp) hNone
  · change _ ∈ s.start.waiting at hr
    simp [hEmpty] at hr

theorem GoesOn.inv {w : WorkerAt} (hGoesOn : s.GoesOn s.worker w) (h : s.Inv) :
    { s with worker := w : Sys }.Inv := by
  have hPlace := h.place
  unfold PlaceOk at hPlace
  generalize hWorker : s.worker = w₀ at hGoesOn
  simp only [hWorker] at hPlace
  cases hGoesOn with
  | @prepared i next hTask =>
    have hLe := List.getElem?_eq_none_iff.mp hTask
    refine h.goOn ?_ (by simp [hWorker]) (by simp [hWorker]) (by simp [hWorker]) fun j _ => ?_
    · change s.containers.length = s.tasks.length
      omega
    · simp [view, hWorker, WorkerAt.view]
  | @written i hTask =>
    have hLe := List.getElem?_eq_none_iff.mp hTask
    refine h.goOn hPlace (by simp [hWorker]) (by simp [hWorker]) (by simp [hWorker]) fun j hj => ?_
    have hWritten : j < i := by omega
    simp [view, hWorker, WorkerAt.view, hWritten]
  | @called i hUsed =>
    have hLe := List.getElem?_eq_none_iff.mp hUsed
    refine h.goOn hPlace (by simp [hWorker]) (by simp [hWorker]) (by simp [hWorker]) fun j hj => ?_
    have hPassed : j < i := by omega
    simp [view, hWorker, WorkerAt.view, hPassed]
  | awaitTask hUsed hFree => exact h.awaitTask hWorker hUsed hFree
  | awaitStart hFree => exact h.closePipes hWorker hFree
  | closePipes =>
    refine h.goOn hPlace (by simp [hWorker]) (by simp [hWorker]) (by simp [hWorker]) fun j _ => ?_
    simp [view, hWorker, WorkerAt.view]
  | @asked i hTask =>
    have hLe := List.getElem?_eq_none_iff.mp hTask
    refine h.goOn ⟨hPlace, Nat.zero_le _, nofun⟩ (by simp [hWorker]) (by simp [hWorker])
      (by simp [hWorker]) fun j hj => ?_
    have hPassed : j < i := by omega
    simp [view, hWorker, WorkerAt.view, hPassed]
  | awaitResults hUsed hFree => exact h.awaitResults hWorker hUsed hFree
  | waitpid hTemporary hEnded => exact h.waitpid hWorker hTemporary hEnded

/-- **Every step of the worker keeps the invariant.** -/
theorem WorkerMoves.inv (hMoves : s.WorkerMoves s') (h : s.Inv) : s'.Inv := by
  cases hMoves with
  | dies => exact h.die
  | goesOn hGoesOn => exact hGoesOn.inv h
  | reuses hWorker hTask hAllowed hSpare =>
    exact h.reuse hWorker (List.getElem?_eq_some_iff.mp hTask).1 hSpare
  | getsId hWorker hTask hNone hStack => exact h.takeId hWorker hTask hNone hStack
  | startsPermanent hWorker hTask hAllowed =>
    have hPlace := h.place
    simp only [PlaceOk, hWorker] at hPlace
    have hEnd := hPlace.2.2.2 _ hTask hAllowed
    exact h.newContainer hWorker (.inl ⟨hAllowed, rfl, rfl⟩) (.inl ⟨hAllowed, rfl, hEnd⟩)
  | startsTemporary hWorker _ hAllowed =>
    exact h.newContainer hWorker (.inr ⟨hAllowed, rfl, rfl⟩) (.inr ⟨hAllowed, rfl⟩)
  | resets hWorker => exact h.resetBarrier hWorker
  | writes hWorker _ hUsed => exact h.write hWorker hUsed _
  | calls hWorker hUsed => exact h.call hWorker hUsed
  | arrives hWorker => exact h.startBarrier hWorker
  | asks hWorker _ hUsed => exact h.ask hWorker hUsed
  | puts hWorker => exact h.put hWorker _
  | putsId hWorker hTemporary => exact h.putId hWorker hTemporary _
  | answers hWorker hTemporary => exact h.finish hWorker hTemporary

/-- Other workers take ids from the getter and put them back. -/
theorem Inv.others (h : s.Inv) {ids : SharedIdGetter}
    (hIds : ids.stack.length + ids.elsewhere.length =
      s.ids.stack.length + s.ids.elsewhere.length) : { s with ids : Sys }.Inv := by
  have hOld := h.ids
  obtain ⟨h1, h2, h3, h4, h5, h6, h7⟩ := h.roster
  refine ⟨⟨h1, h2, h3, h4, h5, h6, h7⟩, h.place, ?_, h.boxes, ⟨h.start.serves, h.start.quiet,
    h.start.letGo, h.start.worker⟩⟩
  change ids.stack.length + ids.elsewhere.length + s.permanent.length + s.temporary.length +
    s.worker.inHand = idCount + s.worker.returned
  omega

/-- **Every step keeps the invariant.** -/
theorem Inv.step {a : Act} (h : s.Inv)
    (hStep : s.step pathEnv a = some s') : s'.Inv := by
  cases hBox : a.box? with
  | some c =>
    rcases step_of_box hBox hStep with rfl | hMoved
    · exact h
    · exact h.moved hMoved
  | none =>
    cases step_turns hBox hStep with
    | accepts _ hWorker => exact h.accept hWorker _
    | worker _ hMoves => exact hMoves.inv h
    | dies => exact h.die
    | othersGet hStack =>
      refine h.others ?_
      simp only [hStack, List.length_cons]
      omega
    | othersPut hElsewhere =>
      refine h.others ?_
      have hPos := List.length_pos_of_mem hElsewhere
      rw [List.length_cons, List.length_erase_of_mem hElsewhere]
      omega

theorem inv_initial (firstUid : Uid) : (initial firstUid).Inv where
  roster := ⟨List.nodup_nil, nofun, List.nodup_nil, nofun, nofun, nofun, nofun⟩
  place := rfl
  ids := by simp [initial, SharedIdGetter.new]
  boxes := by
    intro c v hSees
    cases hSees with
    | used hUsed => simp [initial] at hUsed
    | spare hPermanent => simp [initial] at hPermanent
    | gone hStarted => simp [initial] at hStarted
    | unborn => exact Box.fits_unborn _ c
  start := ⟨False.elim, fun _ => rfl, nofun, nofun⟩

/-- **The invariant holds in every reachable state.** -/
theorem inv_of_reachable {firstUid : Uid}
    (hReach : Reachable (step pathEnv) (initial firstUid) s) : s.Inv :=
  invariant_of_reachable (fun _ _ _ h hStep => h.step hStep) (inv_initial firstUid) hReach

end Sys

end Libsbox
