import Libsbox.Ids.Held
import Libsbox.Protocol.Rows

/-!
# libsbox — the books of a worker

What the lists of a worker say of the requests that it has had. `permanent_containers_`
only grows, by the containers that a request needs beyond those there are, so its
length is the largest number that one request has needed; and what the getter does not
have is held by the worker or by another one.

## Results

* `Books.step`, `Books.accept` — every step keeps the books.
-/

namespace Libsbox

open CMemory

/-- The number of permanent containers that a request needs. -/
def permanentCount (tasks : List Task) : Nat := tasks.countP Sys.permanentAllowed

/-- The largest number that one of the requests needs. -/
def peak (requests : List (List Task)) : Nat := (requests.map permanentCount).foldr max 0

theorem peak_concat (requests : List (List Task)) (tasks : List Task) :
    peak (requests ++ [tasks]) = max (peak requests) (permanentCount tasks) := by
  induction requests with
  | nil => exact Nat.max_comm _ _
  | cons first requests ih =>
    show max (permanentCount first) (peak (requests ++ [tasks])) =
      max (max (permanentCount first) (peak requests)) (permanentCount tasks)
    rw [ih, Nat.max_assoc]

/-- The place of `next_permanent_container`, while there is one. -/
def WorkerAt.next? : WorkerAt → Option (Nat × Nat)
  | .prepareContainers i next | .startContainer i next _ => some (i, next)
  | _ => none

namespace Sys

/-- The ids of the getter, and those that workers hold. -/
def allIds (s : Sys) : List Uid := s.ids.stack ++ s.ids.elsewhere ++ s.held

/-- What the lists say after the requests `before` and, during a request, `request`. -/
structure Books (ids : List Uid) (before : List (List Task)) (request : List Task) (s : Sys) :
    Prop where
  tasks : s.worker ≠ .accept → s.tasks.map Task.parameters = request.map Task.parameters
  idle : s.worker = .accept → s.tasks = []
  untouched : s.worker.next? ≠ none → s.tasks = request
  needed : ∀ i next, s.worker.next? = some (i, next) →
    next = permanentCount (request.take i) ∧ s.permanent.length = max (peak before) next
  grown : s.worker.next? = none → s.permanent.length = peak (before ++ [request])
  ids : s.allIds.Perm ids

variable {pathEnv : Option Str} {s s' : Sys} {a : Act} {ids : List Uid}
variable {before : List (List Task)} {request : List Task}

/-- No step makes an id or loses one. -/
theorem allIds_perm (hBorn : s.Born) (hStep : s.step pathEnv a = some s') :
    s'.allIds.Perm s.allIds := by
  by_cases hOwn : a ≠ .othersGet ∧ ∀ id, a ≠ .othersPut id
  · unfold allIds
    cases step_trades hBorn hOwn hStep with
    | keeps hIds hHeld =>
      rw [hIds]
      exact hHeld.append_left _
    | gets id hStack hElsewhere hHeld =>
      rw [hStack, hElsewhere]
      refine (hHeld.append_left _).trans ?_
      exact List.perm_middle
    | puts id hStack hElsewhere hHeld =>
      rw [hStack, hElsewhere]
      refine List.Perm.symm ((hHeld.append_left _).trans ?_)
      exact List.perm_middle
  · have hOthers : a = .othersGet ∨ ∃ id, a = .othersPut id := by
      by_contra hNone
      push Not at hNone
      exact hOwn hNone
    have hBox : a.box? = none := by rcases hOthers with rfl | ⟨id, rfl⟩ <;> rfl
    cases step_turns hBox hStep with
    | othersGet hStack =>
      unfold allIds
      rw [hStack]
      exact List.perm_middle.append_right _
    | othersPut hElsewhere =>
      refine List.Perm.append_right _ (List.Perm.symm ?_)
      refine (List.Perm.append_left _ (List.perm_cons_erase hElsewhere)).trans ?_
      exact List.perm_middle
    | dies => exact .refl _
    | accepts | worker => simp at hOthers

/-- A step that leaves the lists, outside of `prepare_containers`. -/
theorem Books.goTo (h : s.Books ids before request) (hIds : s'.allIds.Perm ids)
    (hAccept : s'.worker = .accept ↔ s.worker = .accept)
    (hNext : s'.worker.next? = s.worker.next?)
    (hTasks : s'.tasks = s.tasks) (hPermanent : s'.permanent = s.permanent) :
    s'.Books ids before request := by
  refine ⟨fun hBusy => ?_, fun hIdle => ?_, fun hPlace => ?_, fun i next hPlace => ?_,
    fun hPlace => ?_, hIds⟩
  · rw [hTasks]
    exact h.tasks fun hIdle => hBusy (hAccept.mpr hIdle)
  · rw [hTasks]
    exact h.idle (hAccept.mp hIdle)
  · rw [hTasks]
    exact h.untouched (hNext ▸ hPlace)
  · rw [hPermanent]
    exact h.needed i next (hNext ▸ hPlace)
  · rw [hPermanent]
    exact h.grown (hNext ▸ hPlace)

theorem permanentCount_take_succ {i : Nat} {task : Task} (hTask : request[i]? = some task) :
    permanentCount (request.take (i + 1)) =
      permanentCount (request.take i) + if permanentAllowed task then 1 else 0 := by
  unfold permanentCount
  rw [List.take_add_one, hTask, List.countP_append, Option.toList_some, List.countP_singleton]

/-- One round of `prepare_containers`. -/
theorem Books.prepare (h : s.Books ids before request) (hIds : s'.allIds.Perm ids) {i next : Nat}
    (hWorker : s.worker.next? = some (i, next)) {task : Task} (hTask : s.tasks[i]? = some task)
    (hTasks : s'.tasks = s.tasks)
    (hPlace : s'.worker = .prepareContainers (i + 1)
      (next + if permanentAllowed task then 1 else 0))
    (hPermanent : s'.permanent.length =
      max s.permanent.length (next + if permanentAllowed task then 1 else 0)) :
    s'.Books ids before request := by
  have hBusy : s.worker ≠ .accept := by
    rintro hIdle
    rw [hIdle] at hWorker
    cases hWorker
  have hRequest := h.untouched (by rw [hWorker]; exact Option.some_ne_none _)
  obtain ⟨hNext, hLength⟩ := h.needed i next hWorker
  refine ⟨fun _ => ?_, fun hIdle => ?_, fun _ => ?_, fun i' next' hPlace' => ?_, fun hNone => ?_, hIds⟩
  · rw [hTasks]
    exact h.tasks hBusy
  · rw [hPlace] at hIdle
    cases hIdle
  · rw [hTasks]
    exact hRequest
  · rw [hPlace] at hPlace'
    obtain ⟨rfl, rfl⟩ := Prod.mk.inj (Option.some.inj hPlace')
    rw [hRequest] at hTask
    refine ⟨?_, ?_⟩
    · rw [permanentCount_take_succ hTask, hNext]
    · rw [hPermanent, hLength]
      omega
  · rw [hPlace] at hNone
    cases hNone

/-- All tasks have a container. -/
theorem Books.prepared (h : s.Books ids before request) {i next : Nat}
    (hWorker : s.worker = .prepareContainers i next) (hNone : s.tasks[i]? = none)
    (hIds : { s with worker := .resetBarrier : Sys }.allIds.Perm ids) :
    { s with worker := .resetBarrier : Sys }.Books ids before request := by
  have hNext : s.worker.next? = some (i, next) := by
    rw [hWorker]
    rfl
  have hRequest := h.untouched (by rw [hNext]; exact Option.some_ne_none _)
  obtain ⟨hCount, hLength⟩ := h.needed i next hNext
  have hAll : request.take i = request := by
    rw [hRequest] at hNone
    exact List.take_of_length_le (List.getElem?_eq_none_iff.mp hNone)
  rw [hAll] at hCount
  refine ⟨fun _ => h.tasks (by rw [hWorker]; simp), by simp, fun hSome => absurd rfl hSome,
    by simp [WorkerAt.next?], fun _ => ?_, hIds⟩
  show s.permanent.length = _
  rw [hLength, peak_concat, hCount]

/-- `put_results` leaves the parameters of a task as they are. -/
theorem Books.puts (h : s.Books ids before request) {i : Nat} (hWorker : s.worker = .putResults i)
    {task : Task} (hTask : s.tasks[i]? = some task) (block : Block)
    (hTasks : s'.tasks = s.tasks.set i (block.putResults task))
    (hPermanent : s'.permanent = s.permanent) (hNext : s'.worker = .resultsBarrier (i + 1))
    (hIds : s'.allIds.Perm ids) : s'.Books ids before request := by
  have hBusy : s.worker ≠ .accept := by
    rw [hWorker]
    simp
  refine ⟨fun _ => ?_, by simp [hNext], fun hSome => absurd (by rw [hNext]; rfl) hSome,
    by simp [hNext, WorkerAt.next?], fun _ => ?_, hIds⟩
  · rw [hTasks, ← h.tasks hBusy, List.map_set]
    obtain ⟨hLt, hGet⟩ := List.getElem?_eq_some_iff.mp hTask
    have hLt' : i < (s.tasks.map Task.parameters).length := by rwa [List.length_map]
    have hSame : (block.putResults task).parameters = (s.tasks.map Task.parameters)[i] := by
      rw [List.getElem_map, hGet]
      rfl
    rw [hSame]
    exact List.set_getElem_self _
  · rw [hPermanent]
    exact h.grown (by rw [hWorker]; rfl)

theorem Books.workerMoves (h : s.Books ids before request) (hInv : s.Inv)
    (hIds : s'.allIds.Perm ids) (hMoves : s.WorkerMoves s') : s'.Books ids before request := by
  have hPlace := hInv.place
  cases hMoves with
  | dies => exact h.goTo hIds Iff.rfl rfl rfl rfl
  | goesOn hGoesOn =>
    generalize hWorker : s.worker = p at hGoesOn
    cases hGoesOn with
    | prepared hNone => exact h.prepared hWorker hNone hIds
    | _ =>
      refine h.goTo hIds ?_ ?_ rfl rfl
      · rw [hWorker]
        simp
      · rw [hWorker]
        rfl
  | @reuses i next task c hWorker hTask hAllowed hSpare =>
    have hNext : s.worker.next? = some (i, next) := by
      rw [hWorker]
      rfl
    refine h.prepare hIds hNext hTask rfl ?_ ?_
    · show WorkerAt.prepareContainers (i + 1) (next + 1) = _
      rw [if_pos hAllowed]
    · have hLt := (List.getElem?_eq_some_iff.mp hSpare).1
      rw [if_pos hAllowed]
      show s.permanent.length = _
      omega
  | getsId hWorker =>
    refine h.goTo hIds ?_ ?_ rfl rfl
    · rw [hWorker]
      simp
    · rw [hWorker]
      rfl
  | @startsPermanent i next task id hWorker hTask hAllowed =>
    simp only [PlaceOk, hWorker] at hPlace
    have hAll := hPlace.2.2.2 task hTask hAllowed
    have hNext : s.worker.next? = some (i, next) := by
      rw [hWorker]
      rfl
    obtain ⟨-, hLength⟩ := h.needed i next hNext
    refine h.prepare hIds hNext hTask rfl ?_ ?_
    · show WorkerAt.prepareContainers (i + 1) (next + 1) = _
      rw [if_pos hAllowed]
    · rw [if_pos hAllowed]
      show (s.permanent ++ [s.started]).length = _
      rw [List.length_append, List.length_singleton]
      omega
  | @startsTemporary i next task id hWorker hTask hAllowed =>
    have hNext : s.worker.next? = some (i, next) := by
      rw [hWorker]
      rfl
    obtain ⟨-, hLength⟩ := h.needed i next hNext
    refine h.prepare hIds hNext hTask rfl ?_ ?_
    · show WorkerAt.prepareContainers (i + 1) next = _
      rw [if_neg (by rw [hAllowed]; simp)]
      rfl
    · rw [if_neg (by rw [hAllowed]; simp), Nat.add_zero]
      show s.permanent.length = _
      omega
  | resets hWorker | writes hWorker | calls hWorker | arrives hWorker | asks hWorker | putsId hWorker =>
    refine h.goTo hIds ?_ ?_ rfl rfl
    · rw [hWorker]
      simp
    · rw [hWorker]
      rfl
  | @puts i task c hWorker hTask => exact h.puts hWorker hTask (s.box c).block rfl rfl rfl hIds
  | answers hWorker =>
    exact ⟨fun hBusy => absurd rfl hBusy, fun _ => rfl, fun hSome => absurd rfl hSome,
      by simp [WorkerAt.next?], fun _ => h.grown (by rw [hWorker]; rfl), hIds⟩

/-- **The steps inside a request, and those of the other processes.** -/
theorem Books.step (h : s.Books ids before request) (hInv : s.Inv) (hBorn : s.Born)
    (hOwn : ∀ tasks, a ≠ .accept tasks) (hStep : s.step pathEnv a = some s') :
    s'.Books ids before request := by
  have hIds := (allIds_perm hBorn hStep).trans h.ids
  cases hBox : a.box? with
  | some c =>
    rcases step_of_box hBox hStep with rfl | ⟨p, b, -, rfl⟩
    · exact h
    · exact h.goTo hIds Iff.rfl rfl rfl rfl
  | none =>
    cases step_turns hBox hStep with
    | accepts => exact absurd rfl (hOwn _)
    | worker hAlive hMoves => exact h.workerMoves hInv hIds hMoves
    | dies | othersGet | othersPut => exact h.goTo hIds Iff.rfl rfl rfl rfl

/-- **The next request.** -/
theorem Books.accept (h : s.Books ids before request) (hBorn : s.Born) {tasks : List Task}
    (hStep : s.step pathEnv (.accept tasks) = some s') :
    s'.Books ids (before ++ [request]) tasks := by
  have hIds := (allIds_perm hBorn hStep).trans h.ids
  cases step_turns rfl hStep with
  | accepts hAlive hWorker =>
    refine ⟨fun _ => rfl, by simp, fun _ => rfl, fun i next hPlace => ?_,
      fun hNone => absurd hNone (Option.some_ne_none _), hIds⟩
    obtain ⟨rfl, rfl⟩ := Prod.mk.inj (Option.some.inj hPlace)
    refine ⟨rfl, ?_⟩
    show s.permanent.length = _
    rw [h.grown (by rw [hWorker]; rfl), Nat.max_zero]
  | dies => simp [Sys.step, Sys.die] at hStep

end Sys

end Libsbox
