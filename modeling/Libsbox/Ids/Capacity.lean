import Libsbox.Ids.Workers
import Libsbox.Worker.Books
import Mathlib.Algebra.Order.BigOperators.Group.Finset

/-!
# libsbox — how many ids the workers need

A daemon has 256 ids for all its workers. A permanent container keeps its id for ever,
so what a worker holds grows with the largest number of permanent containers that one
of its requests has needed; the temporary ones of a request come on top until
`collect_results` puts their ids back. Nobody waits for an id: `SharedIdGetter::get`
dies when there is none. A call of the getter is one step here; that there is a mutex
matters only to those who come after somebody who has ended inside of it.

## Results

* `holds_of_run` — what each worker holds, from the requests that it has had;
* `lasts_of_demand` — the ids last if the requests do not need more of them.
-/

namespace Libsbox

open CMemory Runs Pool

/-- The number of temporary containers that a request needs. -/
def temporaryCount (tasks : List Task) : Nat := tasks.countP fun task => !Sys.permanentAllowed task

/-- The ids that a worker holds during the last of these requests. -/
def need (requests : List (List Task)) : Nat :=
  peak requests + temporaryCount (requests.getLast?.getD [])

/-- The tasks that have a container. -/
def WorkerAt.seen (request : List Task) : WorkerAt → List Task
  | .accept => []
  | .prepareContainers i _ | .startContainer i _ _ => request.take i
  | _ => request

theorem temporaryCount_take_succ {request : List Task} {i : Nat} {task : Task}
    (hTask : request[i]? = some task) : temporaryCount (request.take (i + 1)) =
      temporaryCount (request.take i) + if Sys.permanentAllowed task then 0 else 1 := by
  unfold temporaryCount
  rw [List.take_add_one, hTask, List.countP_append, Option.toList_some, List.countP_singleton]
  cases Sys.permanentAllowed task <;> rfl

theorem temporaryCount_take_le (request : List Task) (i : Nat) :
    temporaryCount (request.take i) ≤ temporaryCount request :=
  (List.take_sublist i request).countP_le

theorem permanentCount_take_le (request : List Task) (i : Nat) :
    permanentCount (request.take i) ≤ permanentCount request :=
  (List.take_sublist i request).countP_le

namespace Sys

variable {pathEnv : Option Str} {s s' : Sys} {a : Act} {ids : List Uid}
variable {before : List (List Task)} {request : List Task}

-- ---------------------------------------------------------------------------
-- The temporary containers
-- ---------------------------------------------------------------------------

/-- The temporary containers are those of the tasks that have one. -/
def Staffed (request : List Task) (s : Sys) : Prop :=
  s.temporary.length = temporaryCount (s.worker.seen request)

theorem Staffed.goTo (h : s.Staffed request) (hTemporary : s'.temporary = s.temporary)
    (hSeen : s'.worker.seen request = s.worker.seen request) : s'.Staffed request := by
  unfold Staffed
  rw [hTemporary, hSeen]
  exact h

/-- One more task has its container. -/
theorem Staffed.more (h : s.Staffed request) (hBooks : s.Books ids before request) {i next : Nat}
    (hNext : s.worker.next? = some (i, next)) {task : Task} (hTask : s.tasks[i]? = some task)
    {next' : Nat} (hWorker : s'.worker = .prepareContainers (i + 1) next')
    (hTemporary : s'.temporary.length = s.temporary.length + if permanentAllowed task then 0 else 1) :
    s'.Staffed request := by
  have hSeen : s.worker.seen request = request.take i := by
    unfold WorkerAt.next? at hNext
    unfold WorkerAt.seen
    split at hNext <;> simp_all
  have hRequest := hBooks.untouched (by rw [hNext]; exact Option.some_ne_none _)
  unfold Staffed at h ⊢
  rw [hTemporary, h, hSeen, hWorker]
  show _ = temporaryCount (request.take (i + 1))
  rw [temporaryCount_take_succ (hRequest ▸ hTask)]

theorem Staffed.workerMoves (h : s.Staffed request) (hBooks : s.Books ids before request)
    (hMoves : s.WorkerMoves s') : s'.Staffed request := by
  cases hMoves with
  | dies => exact h
  | goesOn hGoesOn =>
    generalize hWorker : s.worker = p at hGoesOn
    cases hGoesOn with
    | @prepared i next hNone =>
      have hRequest := hBooks.untouched (by rw [hWorker]; exact Option.some_ne_none _)
      have hAll : request.take i = request := by
        rw [hRequest] at hNone
        exact List.take_of_length_le (List.getElem?_eq_none_iff.mp hNone)
      refine h.goTo rfl ?_
      rw [hWorker]
      exact hAll.symm
    | _ =>
      refine h.goTo rfl ?_
      rw [hWorker]
      rfl
  | reuses hWorker hTask hAllowed hSpare =>
    refine h.more hBooks (by rw [hWorker]; rfl) hTask rfl ?_
    rw [if_pos hAllowed]
    rfl
  | startsPermanent hWorker hTask hAllowed =>
    refine h.more hBooks (by rw [hWorker]; rfl) hTask rfl ?_
    rw [if_pos hAllowed]
    rfl
  | startsTemporary hWorker hTask hAllowed =>
    refine h.more hBooks (by rw [hWorker]; rfl) hTask rfl ?_
    rw [if_neg (by rw [hAllowed]; simp)]
    exact List.length_append
  | answers hWorker => rfl
  | getsId hWorker | resets hWorker | writes hWorker | calls hWorker | arrives hWorker | asks hWorker
  | puts hWorker | putsId hWorker =>
    refine h.goTo rfl ?_
    rw [hWorker]
    rfl

theorem Staffed.step (h : s.Staffed request) (hBooks : s.Books ids before request)
    (hOwn : ∀ tasks, a ≠ .accept tasks) (hStep : s.step pathEnv a = some s') :
    s'.Staffed request := by
  cases hBox : a.box? with
  | some c =>
    rcases step_of_box hBox hStep with rfl | ⟨p, b, -, rfl⟩
    · exact h
    · exact h
  | none =>
    cases step_turns hBox hStep with
    | accepts => exact absurd rfl (hOwn _)
    | worker hAlive hMoves => exact h.workerMoves hBooks hMoves
    | dies | othersGet | othersPut => exact h

theorem Staffed.accept (h : s.Staffed request) {tasks : List Task}
    (hStep : s.step pathEnv (.accept tasks) = some s') : s'.Staffed tasks := by
  cases step_turns rfl hStep with
  | accepts hAlive hWorker =>
    unfold Staffed at h
    rw [hWorker] at h
    exact h
  | dies => simp [Sys.step, Sys.die] at hStep

-- ---------------------------------------------------------------------------
-- What a worker holds
-- ---------------------------------------------------------------------------

/-- The ids that a worker holds, after these requests. -/
structure Holds (requests : List (List Task)) (s : Sys) : Prop where
  idle : s.worker = .accept → s.held.length = peak requests
  serving : s.worker ≠ .accept → s.worker.next? = none →
    s.held.length + s.worker.returned = need requests
  most : s.held.length ≤ need requests
  gets : ∀ i next task, s.worker = .prepareContainers i next → s.tasks[i]? = some task →
    (permanentAllowed task = true → s.permanent[next]? = none) → s.held.length < need requests
  puts : ∀ i c, s.worker = .putId i → s.temporary[i]? = some c → 0 < s.held.length

theorem held_length (s : Sys) : s.held.length =
    s.permanent.length + (s.temporary.length - s.worker.returned) + s.worker.hand.length := by
  unfold held unreturned
  rw [List.length_append, List.length_map, List.length_append, List.length_drop]

/-- The worker has put back the ids of temporary containers only. -/
theorem PlaceOk.returned_le (h : s.PlaceOk) : s.worker.returned ≤ s.temporary.length := by
  unfold PlaceOk at h
  cases hWorker : s.worker with
  | putId i =>
    simp only [hWorker] at h
    exact h.2.1
  | waitpid i =>
    simp only [hWorker] at h
    exact h.2.1
  | _ => exact Nat.zero_le _

theorem need_of_last {requests : List (List Task)} (h : [] :: requests = before ++ [request]) :
    peak requests = max (peak before) (permanentCount request) ∧
      need requests = max (peak before) (permanentCount request) + temporaryCount request := by
  have hPeak : peak requests = max (peak before) (permanentCount request) := by
    rw [← peak_concat, ← h]
    exact (Nat.zero_max _).symm
  have hLast : requests.getLast?.getD [] = request := by
    have hEnd := congrArg List.getLast? h
    rw [List.getLast?_cons, List.getLast?_concat] at hEnd
    exact Option.some.inj hEnd
  refine ⟨hPeak, ?_⟩
  rw [need, hPeak, hLast]

/-- A worker that prepares containers holds the ids of those that it has, and the one in
its hand. -/
theorem preparing_held (hBooks : s.Books ids before request) (hStaffed : s.Staffed request)
    {i next : Nat} (hNext : s.worker.next? = some (i, next)) :
    s.held.length = max (peak before) (permanentCount (request.take i)) +
      temporaryCount (request.take i) + s.worker.hand.length := by
  obtain ⟨hCount, hLength⟩ := hBooks.needed i next hNext
  have hSeen : s.worker.seen request = request.take i ∧ s.worker.returned = 0 := by
    unfold WorkerAt.next? at hNext
    unfold WorkerAt.seen WorkerAt.returned
    split at hNext <;> simp_all
  have hTemporary : s.temporary.length = temporaryCount (request.take i) := by
    rw [← hSeen.1]
    exact hStaffed
  rw [held_length, hSeen.2, Nat.sub_zero, hLength, hTemporary, hCount]

/-- One more container does not make it more than the request needs. -/
theorem held_lt_need (before : List (List Task)) {i : Nat} {task : Task}
    (hTask : request[i]? = some task)
    (hNew : permanentAllowed task = true → peak before ≤ permanentCount (request.take i)) :
    max (peak before) (permanentCount (request.take i)) + temporaryCount (request.take i) <
      max (peak before) (permanentCount request) + temporaryCount request := by
  have hPermanent := permanentCount_take_le request (i + 1)
  have hTemporary := temporaryCount_take_le request (i + 1)
  rw [permanentCount_take_succ hTask] at hPermanent
  rw [temporaryCount_take_succ hTask] at hTemporary
  by_cases hAllowed : permanentAllowed task = true
  · rw [if_pos hAllowed] at hPermanent hTemporary
    have hOld := hNew hAllowed
    omega
  · rw [if_neg hAllowed] at hPermanent hTemporary
    omega

variable {requests : List (List Task)}

/-- Outside of `prepare_containers`, the permanent containers are those of all requests. -/
theorem settled_permanent (hBooks : s.Books ids before request)
    (hRequests : [] :: requests = before ++ [request]) (hNext : s.worker.next? = none) :
    s.permanent.length = peak requests ∧ s.worker.hand = [] := by
  constructor
  · rw [hBooks.grown hNext, peak_concat, (need_of_last hRequests).1]
  · unfold WorkerAt.next? at hNext
    unfold WorkerAt.hand
    split at hNext <;> simp_all

theorem idle_held (hBooks : s.Books ids before request) (hStaffed : s.Staffed request)
    (hRequests : [] :: requests = before ++ [request]) (hAccept : s.worker = .accept) :
    s.held.length = peak requests := by
  obtain ⟨hPermanent, hHand⟩ := settled_permanent hBooks hRequests (by rw [hAccept]; rfl)
  have hTemporary : s.temporary.length = 0 := by
    have hNone := hStaffed
    rwa [Staffed, hAccept] at hNone
  rw [held_length, hPermanent, hHand, hTemporary, Nat.zero_sub]
  rfl

theorem serving_held (hInv : s.Inv) (hBooks : s.Books ids before request)
    (hStaffed : s.Staffed request) (hRequests : [] :: requests = before ++ [request])
    (hBusy : s.worker ≠ .accept) (hNext : s.worker.next? = none) :
    s.held.length + s.worker.returned = need requests := by
  obtain ⟨hPermanent, hHand⟩ := settled_permanent hBooks hRequests hNext
  obtain ⟨hPeak, hNeed⟩ := need_of_last hRequests
  have hReturned := hInv.place.returned_le
  have hSeen : s.worker.seen request = request := by
    unfold WorkerAt.next? at hNext
    unfold WorkerAt.seen
    split at hNext <;> simp_all
  have hTemporary : s.temporary.length = temporaryCount request := by
    have hAll := hStaffed
    rwa [Staffed, hSeen] at hAll
  rw [held_length, hPermanent, hHand, List.length_nil, hNeed, hPeak, ← hTemporary]
  omega

/-- Before a container is started for a task, the worker holds less than the request needs. -/
theorem preparing_held_lt (hBooks : s.Books ids before request) (hStaffed : s.Staffed request)
    (hRequests : [] :: requests = before ++ [request]) {i next : Nat} {task : Task}
    (hNext : s.worker.next? = some (i, next)) (hTask : s.tasks[i]? = some task)
    (hNone : permanentAllowed task = true → s.permanent.length ≤ next) :
    s.held.length - s.worker.hand.length < need requests := by
  have hRequest := hBooks.untouched (by rw [hNext]; exact Option.some_ne_none _)
  obtain ⟨hCount, hLength⟩ := hBooks.needed i next hNext
  have hLess := held_lt_need before (hRequest ▸ hTask) fun hAllowed => by
    have hFew := hNone hAllowed
    omega
  rw [preparing_held hBooks hStaffed hNext, (need_of_last hRequests).2]
  omega

theorem held_le_need (hInv : s.Inv) (hBooks : s.Books ids before request)
    (hStaffed : s.Staffed request) (hRequests : [] :: requests = before ++ [request]) :
    s.held.length ≤ need requests := by
  cases hNext : s.worker.next? with
  | none =>
    by_cases hAccept : s.worker = .accept
    · have hHeld := idle_held hBooks hStaffed hRequests hAccept
      unfold need
      omega
    · have hHeld := serving_held hInv hBooks hStaffed hRequests hAccept hNext
      omega
  | some place =>
    obtain ⟨i, next⟩ := place
    have hPlace := hInv.place
    cases hWorker : s.worker with
    | prepareContainers j next' =>
      rw [preparing_held hBooks hStaffed hNext, (need_of_last hRequests).2, hWorker]
      have hPermanent := permanentCount_take_le request i
      have hTemporary := temporaryCount_take_le request i
      show _ + 0 ≤ _
      omega
    | startContainer j next' id =>
      simp only [PlaceOk, hWorker] at hPlace
      have hTask : s.tasks[j]? = some s.tasks[j] := List.getElem?_eq_getElem hPlace.2.1
      have hHere : s.worker.next? = some (j, next') := by
        rw [hWorker]
        rfl
      have hLess := preparing_held_lt hBooks hStaffed hRequests hHere hTask fun hAllowed =>
        hPlace.2.2.2 _ hTask hAllowed
      rw [hWorker] at hLess
      change s.held.length - 1 < _ at hLess
      omega
    | _ => simp [hWorker, WorkerAt.next?] at hNext

theorem holds_of_books (hInv : s.Inv) (hBooks : s.Books ids before request)
    (hStaffed : s.Staffed request) (hRequests : [] :: requests = before ++ [request]) :
    s.Holds requests where
  idle := idle_held hBooks hStaffed hRequests
  serving := serving_held hInv hBooks hStaffed hRequests
  most := held_le_need hInv hBooks hStaffed hRequests
  gets i next task hWorker hTask hNone := by
    have hLess := preparing_held_lt hBooks hStaffed hRequests (by rw [hWorker]; rfl) hTask
      fun hAllowed => List.getElem?_eq_none_iff.mp (hNone hAllowed)
    rw [hWorker] at hLess
    exact hLess
  puts i c hWorker hTemporary := by
    have hLess := (List.getElem?_eq_some_iff.mp hTemporary).1
    have hBack : s.worker.returned = i := by
      rw [hWorker]
      rfl
    rw [held_length, hBack]
    omega

end Sys

namespace Farm

variable {n : Nat} {pathEnv : Option Str} {f f' : Farm n} {wa : Fin n × Act} {w : Fin n}
variable {acts done : List (Fin n × Act)} {firstUid : Uid}

-- ---------------------------------------------------------------------------
-- The requests of each worker
-- ---------------------------------------------------------------------------

/-- The request that the worker `w` gets with an action. -/
def request? (w : Fin n) : Fin n × Act → Option (List Task)
  | (v, .accept tasks) => if v = w then some tasks else none
  | _ => none

/-- The requests of the worker `w` in a run. -/
def requests (w : Fin n) (acts : List (Fin n × Act)) : List (List Task) :=
  acts.filterMap (request? w)

theorem requests_concat (w : Fin n) (done : List (Fin n × Act)) (wa : Fin n × Act) :
    requests w (done ++ [wa]) = requests w done ++ (request? w wa).toList := by
  unfold requests
  rw [List.filterMap_append]
  cases hRequest : request? w wa with
  | none => rw [List.filterMap_cons_none hRequest, List.filterMap_nil, Option.toList_none]
  | some tasks => rw [List.filterMap_cons_some hRequest, List.filterMap_nil, Option.toList_some]

theorem request?_other (hNe : w ≠ wa.1) : request? w wa = none := by
  obtain ⟨v, a⟩ := wa
  cases a with
  | accept tasks => exact if_neg hNe.symm
  | _ => rfl

theorem request?_own (hOwn : ∀ tasks, wa.2 ≠ .accept tasks) : request? w wa = none := by
  obtain ⟨v, a⟩ := wa
  cases a with
  | accept tasks => exact absurd rfl (hOwn tasks)
  | _ => rfl

/-- The books of the worker `w` are those of its requests. -/
def Charged (univ : List Uid) (w : Fin n) (requests : List (List Task)) (f : Farm n) : Prop :=
  ∃ ids before request, f.Elsewhere w ids ∧ (f.among w ids).Inv ∧
    [] :: requests = before ++ [request] ∧ (f.among w ids).Books univ before request ∧
    (f.among w ids).Staffed request

theorem Charged.step {univ : List Uid} {requests : List (List Task)}
    (h : f.Charged univ w requests) (hOwned : f.Owned) (hStep : f.step pathEnv wa = some f') :
    f'.Charged univ w (requests ++ (request? w wa).toList) := by
  obtain ⟨ids, before, request, hElsewhere, hInv, hRequests, hBooks, hStaffed⟩ := h
  have hBorn : (f.among w ids).Born := ⟨(hOwned.born w).nodup, (hOwned.born w).started⟩
  rcases eq_or_ne w wa.1 with rfl | hNe
  · obtain ⟨hElsewhere', hOwn⟩ := hElsewhere.own hStep
    by_cases hAccept : ∃ tasks, wa.2 = .accept tasks
    · obtain ⟨tasks, hTasks⟩ := hAccept
      have hRequest : request? wa.1 wa = some tasks := by
        obtain ⟨v, a⟩ := wa
        obtain rfl : a = .accept tasks := hTasks
        exact if_pos rfl
      have hTaken := hOwn
      rw [hTasks] at hTaken
      refine ⟨ids, before ++ [request], tasks, hElsewhere', hInv.step hOwn, ?_,
        hBooks.accept hBorn hTaken, hStaffed.accept hTaken⟩
      rw [hRequest, Option.toList_some, ← List.cons_append, hRequests]
    · have hOther : ∀ tasks, wa.2 ≠ .accept tasks := fun tasks hTasks => hAccept ⟨tasks, hTasks⟩
      rw [request?_own hOther, Option.toList_none, List.append_nil]
      exact ⟨ids, before, request, hElsewhere', hInv.step hOwn, hRequests,
        hBooks.step hInv hBorn hOther hOwn, hStaffed.step hBooks hOther hOwn⟩
  · rw [request?_other hNe, Option.toList_none, List.append_nil]
    obtain ⟨ids', hElsewhere', hSame | ⟨a, hForeign, hOther⟩⟩ := hElsewhere.other hOwned hNe hStep
    · exact ⟨ids', before, request, hElsewhere', hSame ▸ hInv, hRequests, hSame ▸ hBooks,
        hSame ▸ hStaffed⟩
    · have hOwn : ∀ tasks, a ≠ .accept tasks := by
        rintro tasks rfl
        exact hForeign ⟨by simp, by simp⟩
      exact ⟨ids', before, request, hElsewhere', hInv.step hOther, hRequests,
        hBooks.step hInv hBorn hOwn hOther, hStaffed.step hBooks hOwn hOther⟩

theorem charged_initial (n : Nat) (firstUid : Uid) (w : Fin n) :
    (initial n firstUid).Charged (SharedIdGetter.new firstUid idCount).stack w [] := by
  refine ⟨[], [], [], elsewhere_initial n firstUid w, Sys.inv_initial firstUid, rfl, ?_, rfl⟩
  refine ⟨fun hBusy => absurd rfl hBusy, fun _ => rfl, fun hSome => absurd rfl hSome, ?_,
    fun _ => rfl, ?_⟩
  · intro i next hNext
    cases hNext
  · show (_ ++ [] ++ []).Perm _
    rw [List.append_nil, List.append_nil]
    exact List.Perm.refl _

-- ---------------------------------------------------------------------------
-- All ids
-- ---------------------------------------------------------------------------

/-- The number of ids, free or with a worker. -/
def total (f : Farm n) : Nat := size f.stack fun w => (f.worker w).held

theorem total_step (hOwned : f.Owned) (hStep : f.step pathEnv wa = some f') : f'.total = f.total := by
  obtain ⟨s, hOwn, hWorker, hStack, hSelf, hOthers⟩ := step_worker hStep
  have hBorn : (f.see wa.1).Born := ⟨(hOwned.born wa.1).nodup, (hOwned.born wa.1).started⟩
  have hHeld : ∀ v, v ≠ wa.1 → (f'.worker v).held = (f.worker v).held := fun v hNe => by
    rw [hOthers v hNe]
  unfold total
  rw [hStack]
  cases Sys.step_trades hBorn hOwn hWorker with
  | keeps hIds hKept =>
    rw [hIds]
    exact size_keep hHeld (hSelf ▸ hKept)
  | gets id hOld hElsewhere hTaken =>
    change f.stack = id :: s.ids.stack at hOld
    rw [hOld]
    exact size_take hHeld (hSelf ▸ hTaken)
  | puts id hNew hElsewhere hGiven =>
    rw [hNew]
    exact (size_take (fun v hNe => (hHeld v hNe).symm) (hSelf ▸ hGiven)).symm

theorem total_initial (n : Nat) (firstUid : Uid) : (initial n firstUid).total = idCount := by
  show ((SharedIdGetter.new firstUid idCount).stack).length + ∑ _w : Fin n, 0 = idCount
  rw [Finset.sum_const_zero, SharedIdGetter.new, List.length_map, List.length_range]
  rfl

/-- What is known of the ids after the steps `done`. -/
structure Ledger (firstUid : Uid) (done : List (Fin n × Act)) (f : Farm n) : Prop where
  owned : f.Owned
  total : f.total = idCount
  charged : ∀ w, f.Charged (SharedIdGetter.new firstUid idCount).stack w (requests w done)

theorem Ledger.step (h : f.Ledger firstUid done) (hStep : f.step pathEnv wa = some f') :
    f'.Ledger firstUid (done ++ [wa]) where
  owned := h.owned.step hStep
  total := (total_step h.owned hStep).trans h.total
  charged w := by
    rw [requests_concat]
    exact (h.charged w).step h.owned hStep

theorem ledger_initial (n : Nat) (firstUid : Uid) : (initial n firstUid).Ledger firstUid [] :=
  ⟨owned_initial n firstUid, total_initial n firstUid, charged_initial n firstUid⟩

theorem Ledger.holds (h : f.Ledger firstUid done) (w : Fin n) :
    (f.worker w).Holds (requests w done) := by
  obtain ⟨ids, before, request, -, hInv, hRequests, hBooks, hStaffed⟩ := h.charged w
  have hHolds := Sys.holds_of_books hInv hBooks hStaffed hRequests
  exact ⟨hHolds.idle, hHolds.serving, hHolds.most, hHolds.gets, hHolds.puts⟩

-- ---------------------------------------------------------------------------
-- Calls of the getter that die
-- ---------------------------------------------------------------------------

/-- The step needs an id. -/
def Gets (f : Farm n) (wa : Fin n × Act) : Prop :=
  wa.2 = .worker ∧ (f.worker wa.1).alive = true ∧ ∃ i next task,
    (f.worker wa.1).worker = .prepareContainers i next ∧ (f.worker wa.1).tasks[i]? = some task ∧
      (Sys.permanentAllowed task = true → (f.worker wa.1).permanent[next]? = none)

/-- The step puts an id back. -/
def Puts (f : Farm n) (wa : Fin n × Act) : Prop :=
  wa.2 = .worker ∧ (f.worker wa.1).alive = true ∧ ∃ i c, (f.worker wa.1).worker = .putId i ∧
    (f.worker wa.1).temporary[i]? = some c

/-- The step is a call of the getter, and the worker dies of it. -/
def DiesOfIds (pathEnv : Option Str) (f : Farm n) (wa : Fin n × Act) : Prop :=
  (f.Gets wa ∨ f.Puts wa) ∧ ∃ f', f.step pathEnv wa = some f' ∧ (f'.worker wa.1).alive = false

theorem own_worker : Own Act.worker := ⟨by simp, by simp⟩

/-- A step of a worker's own, from what the worker alone does. -/
theorem step_of_workerStep {s : Sys} (hActs : wa.2 = .worker)
    (hAlive : (f.worker wa.1).alive = true) (hStep : (f.see wa.1).workerStep = some s) :
    f.step pathEnv wa = some ⟨s.ids.stack, Function.update f.worker wa.1 s⟩ := by
  have hSee : (f.see wa.1).alive = true := hAlive
  unfold step
  rw [hActs, if_pos own_worker]
  show Option.map _ (if (f.see wa.1).alive then (f.see wa.1).workerStep else none) = _
  rw [if_pos hSee, hStep]
  rfl

theorem dies_iff_of_workerStep {s : Sys} (hActs : wa.2 = .worker)
    (hAlive : (f.worker wa.1).alive = true) (hStep : (f.see wa.1).workerStep = some s) :
    (∃ f', f.step pathEnv wa = some f' ∧ (f'.worker wa.1).alive = false) ↔ s.alive = false := by
  rw [step_of_workerStep hActs hAlive hStep]
  constructor
  · rintro ⟨f', hSome, hDead⟩
    obtain rfl := Option.some.inj hSome
    simpa using hDead
  · intro hDead
    exact ⟨_, rfl, by simpa using hDead⟩

/-- `get` dies if there is no id. -/
theorem gets_dies_iff (h : f.Gets wa) :
    (∃ f', f.step pathEnv wa = some f' ∧ (f'.worker wa.1).alive = false) ↔ f.stack = [] := by
  obtain ⟨hActs, hAlive, i, next, task, hWorker, hTask, hNone⟩ := h
  have hStep : (f.see wa.1).workerStep = some ((f.see wa.1).getId i next) := by
    have hPlace : (f.see wa.1).worker = .prepareContainers i next := hWorker
    have hSeen : (f.see wa.1).tasks[i]? = some task := hTask
    simp only [Sys.workerStep, hPlace, hSeen]
    unfold Sys.prepareContainer
    by_cases hAllowed : Sys.permanentAllowed task = true
    · have hSpare : (f.see wa.1).permanent[next]? = none := hNone hAllowed
      rw [if_pos hAllowed, hSpare]
    · rw [if_neg hAllowed]
  rw [dies_iff_of_workerStep hActs hAlive hStep]
  have hStack : (f.see wa.1).ids.stack = f.stack := rfl
  unfold Sys.getId
  rw [hStack]
  cases f.stack with
  | nil => exact iff_of_true rfl rfl
  | cons id stack =>
    refine iff_of_false (fun hDead => ?_) (List.cons_ne_nil id stack)
    exact absurd (hAlive.symm.trans hDead) (by simp)

/-- `put` dies if the getter has all ids. -/
theorem puts_dies_iff (h : f.Puts wa) :
    (∃ f', f.step pathEnv wa = some f' ∧ (f'.worker wa.1).alive = false) ↔
      f.stack.length = idCount := by
  obtain ⟨hActs, hAlive, i, c, hWorker, hTemporary⟩ := h
  have hPlace : (f.see wa.1).worker = .putId i := hWorker
  have hSeen : (f.see wa.1).temporary[i]? = some c := hTemporary
  by_cases hFull : f.stack.length = idCount
  · have hStep : (f.see wa.1).workerStep = some (f.see wa.1).die := by
      simp only [Sys.workerStep, hPlace, hSeen]
      exact if_pos hFull
    rw [dies_iff_of_workerStep hActs hAlive hStep]
    exact iff_of_true rfl hFull
  · have hStep : (f.see wa.1).workerStep = some { f.see wa.1 with
        ids := { (f.see wa.1).ids with stack := ((f.see wa.1).box c).id :: (f.see wa.1).ids.stack }
        worker := .waitpid i } := by
      simp only [Sys.workerStep, hPlace, hSeen]
      exact if_neg hFull
    rw [dies_iff_of_workerStep hActs hAlive hStep]
    exact iff_of_false (fun hDead => absurd (hAlive.symm.trans hDead) (by simp)) hFull

theorem Ledger.sum_held (h : f.Ledger firstUid done) :
    f.stack.length + ∑ w, (f.worker w).held.length = idCount := h.total

/-- A call of the getter is fatal exactly if it asks for an id when the workers have all
of them. -/
theorem Ledger.diesOfIds_iff (h : f.Ledger firstUid done) : f.DiesOfIds pathEnv wa ↔
    f.Gets wa ∧ ∑ w, (f.worker w).held.length = idCount := by
  have hSum := h.sum_held
  constructor
  · rintro ⟨hGets | hPuts, hDies⟩
    · refine ⟨hGets, ?_⟩
      rw [(gets_dies_iff hGets).mp hDies, List.length_nil] at hSum
      omega
    · exfalso
      have hFull := (puts_dies_iff hPuts).mp hDies
      obtain ⟨-, -, i, c, hWorker, hTemporary⟩ := hPuts
      have hHeld := (h.holds wa.1).puts i c hWorker hTemporary
      have hLe : (f.worker wa.1).held.length ≤ ∑ w, (f.worker w).held.length :=
        Finset.single_le_sum (f := fun w => (f.worker w).held.length) (fun w _ => Nat.zero_le _)
          (Finset.mem_univ wa.1)
      omega
  · rintro ⟨hGets, hAll⟩
    refine ⟨.inl hGets, (gets_dies_iff hGets).mpr ?_⟩
    exact List.length_eq_zero_iff.mp (by omega)

/-- The worker stands at a call of the getter. -/
def AtGetter (f : Farm n) (w : Fin n) : Prop :=
  match (f.worker w).worker with
  | .prepareContainers i next => ∃ task ∈ (f.worker w).tasks[i]?,
      Sys.permanentAllowed task = true → (f.worker w).permanent[next]? = none
  | .putId i => (f.worker w).temporary[i]?.isSome
  | _ => False

/-- A worker ends in the step, and it stands at a call of the getter. -/
def EndsInside (pathEnv : Option Str) (f : Farm n) (wa : Fin n × Act) : Prop :=
  f.AtGetter wa.1 ∧ (f.worker wa.1).alive = true ∧
    ∃ f' ∈ f.step pathEnv wa, (f'.worker wa.1).alive = false

instance (f : Farm n) (w : Fin n) : Decidable (f.AtGetter w) := by
  unfold AtGetter
  split <;> infer_instance

instance (f : Farm n) (wa : Fin n × Act) : Decidable (f.EndsInside pathEnv wa) :=
  inferInstanceAs (Decidable (_ ∧ _ ∧ _))

/-- **The ids that each worker holds**, after any run, and, while nobody has ended inside
of the getter, whose lock is not part of the model, when a call of it is fatal. -/
theorem holds_of_run (hRun : run (step pathEnv) (initial n firstUid) acts = some f) :
    f.stack.length + ∑ w, (f.worker w).held.length = idCount ∧
      (∀ w, (f.worker w).Holds (requests w acts)) ∧
      (AllSteps (step pathEnv) (fun f wa => ¬ f.EndsInside pathEnv wa) (initial n firstUid) acts →
        ∀ wa, f.DiesOfIds pathEnv wa ↔
          f.Gets wa ∧ ∑ w, (f.worker w).held.length = idCount) := by
  have hLedger : f.Ledger firstUid acts :=
    invariant_of_history (I := fun done (f : Farm n) => f.Ledger firstUid done)
      (fun _ _ _ _ h hStep => h.step hStep) (ledger_initial n firstUid) hRun
  exact ⟨hLedger.sum_held, hLedger.holds, fun _ wa => hLedger.diesOfIds_iff⟩

set_option maxRecDepth 4000 in
theorem holds_of_sharedRun : ∃ f, run (step none) (initial 2 1000) sharedRun = some f ∧
    f.stack.length + ∑ w, (f.worker w).held.length = idCount ∧
      (∀ w, (f.worker w).Holds (requests w sharedRun)) ∧
      ∀ wa, f.DiesOfIds none wa ↔ f.Gets wa ∧ ∑ w, (f.worker w).held.length = idCount := by
  obtain ⟨f, hRun⟩ : ∃ f, run (step none) (initial 2 1000) sharedRun = some f :=
    Option.isSome_iff_exists.mp rfl
  have hNobody : AllSteps (step none) (fun f wa => ¬ f.EndsInside none wa) (initial 2 1000)
      sharedRun := by decide +kernel
  obtain ⟨hSum, hHolds, hDies⟩ := holds_of_run hRun
  exact ⟨f, hRun, hSum, hHolds, hDies hNobody⟩

-- ---------------------------------------------------------------------------
-- Requests that the ids last for
-- ---------------------------------------------------------------------------

/-- The ids that the worker needs at most, whichever of the requests it has come to. -/
def demand (requests : List (List Task)) : Nat :=
  peak requests + (requests.map temporaryCount).foldr max 0

theorem temporaryCount_le {requests : List (List Task)} {tasks : List Task}
    (hMem : tasks ∈ requests) : temporaryCount tasks ≤ (requests.map temporaryCount).foldr max 0 := by
  induction requests with
  | nil => exact absurd hMem List.not_mem_nil
  | cons first requests ih =>
    show _ ≤ max (temporaryCount first) ((requests.map temporaryCount).foldr max 0)
    rcases List.mem_cons.mp hMem with rfl | hRest
    · exact Nat.le_max_left _ _
    · exact Nat.le_trans (ih hRest) (Nat.le_max_right _ _)

theorem peak_prefix {requests requests' : List (List Task)} (hPrefix : requests <+: requests') :
    peak requests ≤ peak requests' := by
  obtain ⟨rest, rfl⟩ := hPrefix
  induction requests with
  | nil => exact Nat.zero_le _
  | cons first requests ih =>
    show max (permanentCount first) (peak requests) ≤
      max (permanentCount first) (peak (requests ++ rest))
    omega

/-- What a worker holds during one of its requests is within its demand. -/
theorem need_le_demand {requests requests' : List (List Task)} (hPrefix : requests <+: requests') :
    need requests ≤ demand requests' := by
  have hPeak := peak_prefix hPrefix
  have hTemporary : temporaryCount (requests.getLast?.getD []) ≤
      (requests'.map temporaryCount).foldr max 0 := by
    cases hLast : requests.getLast? with
    | none => exact Nat.zero_le _
    | some tasks => exact temporaryCount_le (hPrefix.subset (List.mem_of_getLast? hLast))
  unfold need demand
  omega

/-- **The ids last** as long as the workers together do not need more of them than there
are. -/
theorem lasts_of_demand (hDemand : ∑ w, demand (requests w acts) ≤ idCount) :
    AllSteps (step pathEnv) (fun f wa => ¬ f.DiesOfIds pathEnv wa) (initial n firstUid) acts := by
  refine allSteps_of_history (I := fun done (f : Farm n) => f.Ledger firstUid done)
    (fun _ _ _ _ h hStep => h.step hStep) (ledger_initial n firstUid) ?_
  intro done wa f hPrefix hLedger hDies
  obtain ⟨⟨-, -, i, next, task, hWorker, hTask, hNone⟩, hAll⟩ := hLedger.diesOfIds_iff.mp hDies
  have hDone : ∀ w, requests w done <+: requests w acts := fun w =>
    ((List.prefix_append done [wa]).trans hPrefix).filterMap _
  have hMost : ∀ w, (f.worker w).held.length ≤ demand (requests w acts) := fun w =>
    Nat.le_trans (hLedger.holds w).most (need_le_demand (hDone w))
  have hLess : (f.worker wa.1).held.length < demand (requests wa.1 acts) :=
    Nat.lt_of_lt_of_le ((hLedger.holds wa.1).gets i next task hWorker hTask hNone)
      (need_le_demand (hDone wa.1))
  have hSum := Finset.sum_lt_sum (fun w _ => hMost w) ⟨wa.1, Finset.mem_univ _, hLess⟩
  omega

theorem lasts_of_sharedRun : AllSteps (step none) (fun f wa => ¬ f.DiesOfIds none wa)
    (initial 2 1000) sharedRun :=
  lasts_of_demand (by decide)

end Farm

end Libsbox
