import Libsbox.Messages.RoundTrips
import Libsbox.Model.Worker
import Libsbox.Pipes.Wiring
import Libsbox.Protocol.Handover
import Libsbox.Worker.Books

/-!
# libsbox — the bookkeeping of a worker

What `process` leaves behind and what it answers, for every sequence of requests and
every interleaving of the processes: between two calls nothing is left of a request but
the permanent containers, as many as the greediest request has needed, with their ids;
during a call each task has a container of its own and of the right kind; and the
response has the results of each task in its place.

## Results

* `bookkeeping_of_reachable` — the bookkeeping, in every reachable state.
-/

namespace Libsbox

open CMemory Runs

/-- The results of `t` are those of `t'`. -/
structure Task.SameResults (t t' : Task) : Prop where
  timeUsageMs : t.timeUsageMs = t'.timeUsageMs
  timeUsageSysMs : t.timeUsageSysMs = t'.timeUsageSysMs
  timeUsageUserMs : t.timeUsageUserMs = t'.timeUsageUserMs
  wallTimeUsageMs : t.wallTimeUsageMs = t'.wallTimeUsageMs
  memoryUsageKb : t.memoryUsageKb = t'.memoryUsageKb
  timeLimitExceeded : t.timeLimitExceeded = t'.timeLimitExceeded
  wallTimeLimitExceeded : t.wallTimeLimitExceeded = t'.wallTimeLimitExceeded
  exited : t.exited = t'.exited
  exitCode : t.exitCode = t'.exitCode
  signaled : t.signaled = t'.signaled
  termSignal : t.termSignal = t'.termSignal
  oomKilled : t.oomKilled = t'.oomKilled
  memoryLimitHit : t.memoryLimitHit = t'.memoryLimitHit

/-- `prepare_containers` is done, and `collect_results` is not. -/
def WorkerAt.Prepared : WorkerAt → Prop
  | .accept | .prepareContainers _ _ | .startContainer _ _ _ => False
  | _ => True

/-- `record` is `task` with the results in the shared task of the container of the `i`-th
row, which serves this task, and all of them are from this request. -/
def Sys.Carries (s : Sys) (i : Nat) (task record : Task) : Prop :=
  record.parameters = task.parameters ∧
    ∃ c, s.containers[i]? = some c ∧ (s.box c).block.task.parameters = task.parameters ∧
      record.SameResults (s.box c).block.task ∧
      ∀ f, Field.isResult f = true → (s.box c).block.last f = .waitForSlave s.request ∨
        (s.box c).block.last f = .setTask s.request

namespace Worker

/-- What is left between two calls; `ids` are those that the getter began with. -/
structure Between (ids : List Uid) (v : Worker) : Prop where
  tasks : v.world.sys.tasks = []
  containers : v.world.sys.containers = []
  temporary : v.world.sys.temporary = []
  pipes : v.world.work.pipes = []
  permanent : v.world.sys.permanent.length = peak v.valid
  ids : (v.world.sys.ids.stack ++ v.world.sys.ids.elsewhere ++
    v.world.sys.permanent.map fun c => (v.world.sys.box c).id).Perm ids

/-- The containers of a request. -/
structure During (request : List Task) (v : Worker) : Prop where
  length : v.world.sys.containers.length = request.length
  distinct : v.world.sys.containers.Nodup
  kinds : ∀ (i : Nat) (c : BoxId) (task : Task), v.world.sys.containers[i]? = some c → request[i]? = some task →
    ((v.world.sys.box c).permanent = true ↔ task.needIpc = false ∧ task.useStandardBinds = true)

/-- **The bookkeeping of a worker.** -/
structure Bookkeeping (rj : Rapidjson) (pathEnv : Option Str) (ids : List Uid) (v : Worker) :
    Prop where
  between : v.world.sys.worker = .accept → v.Between ids
  rejected : ∀ request error tasks validator v',
    parseAndValidateJsonRequest rj v.validator request = .ok (error, tasks, validator) →
    error.isError = true → v.step rj pathEnv (.process request) = some v' →
    v'.world = v.world ∧ v'.valid = v.valid ∧ v'.validator.schema = v.validator.schema ∧
      v'.replies = v.replies ++ [errorReply rj error]
  during : v.world.sys.worker.Prepared →
    ∃ request, v.valid.getLast? = some request ∧ v.During request
  answered : ∀ m v', v.step rj pathEnv m = some v' → v.world.sys.worker ≠ .accept →
    v'.world.sys.worker = .accept → ∃ request records, v.valid.getLast? = some request ∧
      v'.replies = v.replies ++ [tasksReply rj records] ∧ records.length = request.length ∧
      ∀ (i : Nat) task record, request[i]? = some task → records[i]? = some record →
        v.world.sys.Carries i task record

variable {rj : Rapidjson} {pathEnv : Option Str} {v v' : Worker} {m : Move} {ids : List Uid}

-- ---------------------------------------------------------------------------
-- Steps
-- ---------------------------------------------------------------------------

theorem step_world_eq {wa : WorldAct} (hStep : v.step rj pathEnv (.world wa) = some v') :
    (∀ tasks fresh, wa ≠ .sys (.accept tasks) fresh) ∧
      ∃ w, v.world.step pathEnv wa = some w ∧
        v' = { v with world := w, replies := v.replies ++ newReplies rj v.world.sys w.sys } := by
  unfold step at hStep
  split at hStep
  · rename_i hMove
    cases hMove
  · cases hStep
  · rename_i wa' hNot hMove
    cases hMove
    obtain ⟨w, hWorld, rfl⟩ := Option.map_eq_some_iff.mp hStep
    exact ⟨hNot, w, hWorld, rfl⟩

/-- A step of the processes that is not the next request. -/
theorem sys_step_of_world {w w' : World} {wa : WorldAct}
    (hNot : ∀ tasks fresh, wa ≠ .sys (.accept tasks) fresh)
    (hStep : w.step pathEnv wa = some w') :
    w'.sys = w.sys ∨ ∃ a, (∀ tasks, a ≠ .accept tasks) ∧ w.sys.step pathEnv a = some w'.sys := by
  rcases World.step_sys hStep with hSame | ⟨a, hIs, hSys⟩
  · exact .inl hSame
  · refine .inr ⟨a, ?_, hSys⟩
    rintro tasks rfl
    rcases hIs with hFail | ⟨fresh, rfl⟩
    · cases hFail
    · exact hNot tasks fresh rfl

/-- The world of a worker runs as the world does. -/
theorem step_world (hStep : v.step rj pathEnv m = some v') :
    v'.world = v.world ∨ ∃ wa, v.world.step pathEnv wa = some v'.world := by
  cases m with
  | process request =>
    simp only [step, Worker.process] at hStep
    split at hStep
    · split at hStep
      · obtain ⟨w, hWorld, rfl⟩ := Option.map_eq_some_iff.mp hStep
        exact .inr ⟨_, hWorld⟩
      · split at hStep
        · obtain rfl := Option.some.inj hStep
          exact .inl rfl
        · obtain ⟨w, hWorld, rfl⟩ := Option.map_eq_some_iff.mp hStep
          exact .inr ⟨_, hWorld⟩
    · cases hStep
  | world wa =>
    obtain ⟨-, w, hWorld, rfl⟩ := step_world_eq hStep
    exact .inr ⟨_, hWorld⟩

theorem reachable_world {firstUid : Uid}
    (hReach : Reachable (step rj pathEnv) (initial firstUid) v) :
    Reachable (World.step pathEnv) (World.initial firstUid) v.world :=
  reachable_of_view (f := Worker.world) (fun _ _ _ hStep => step_world hStep) hReach

/-- What a step does to the processes and to the list of requests. -/
inductive Does (pathEnv : Option Str) (v v' : Worker) : Prop where
  | nothing (hSys : v'.world.sys = v.world.sys) (hValid : v'.valid = v.valid)
  | goesOn {a : Act} (hStep : v.world.sys.step pathEnv a = some v'.world.sys)
    (hOwn : ∀ tasks, a ≠ .accept tasks) (hValid : v'.valid = v.valid)
  | accepts {tasks : List Task} (hStep : v.world.sys.step pathEnv (.accept tasks) = some v'.world.sys)
    (hValid : v'.valid = v.valid ++ [tasks])

theorem step_does (hStep : v.step rj pathEnv m = some v') : v.Does pathEnv v' := by
  cases m with
  | process request =>
    simp only [step, Worker.process] at hStep
    split at hStep
    · split at hStep
      · obtain ⟨w, hWorld, rfl⟩ := Option.map_eq_some_iff.mp hStep
        obtain ⟨s', hSys, rfl⟩ := World.sysStep_cases hWorld
        exact .goesOn hSys (by simp) rfl
      · split at hStep
        · obtain rfl := Option.some.inj hStep
          exact .nothing rfl rfl
        · obtain ⟨w, hWorld, rfl⟩ := Option.map_eq_some_iff.mp hStep
          obtain ⟨s', hSys, rfl⟩ := World.sysStep_cases hWorld
          exact .accepts hSys rfl
    · cases hStep
  | world wa =>
    obtain ⟨hNot, w, hWorld, rfl⟩ := step_world_eq hStep
    rcases sys_step_of_world hNot hWorld with hSame | ⟨a, hOwn, hSys⟩
    · exact .nothing hSame rfl
    · exact .goesOn hSys hOwn rfl

end Worker

namespace Sys

variable {pathEnv : Option Str} {s s' : Sys} {a : Act}

/-- What a step inside a request, or of another process, does to the responses. -/
inductive Responds (s s' : Sys) : Prop where
  | silent (hResponses : s'.responses = s.responses)
    (hPlace : s'.worker = .accept ↔ s.worker = .accept)
  | answers {i : Nat} (hWorker : s.worker = .putId i) (hAlive : s.alive = true)
    (hIdle : s'.worker = .accept) (hSame : s'.alive = true)
    (hResponses : s'.responses = s.responses ++ [s.tasks])

theorem WorkerMoves.responds (hAlive : s.alive = true) (h : s.WorkerMoves s') : s.Responds s' := by
  cases h with
  | answers hWorker => exact .answers hWorker hAlive rfl hAlive rfl
  | dies => exact .silent rfl Iff.rfl
  | goesOn hGoesOn =>
    refine .silent rfl ?_
    generalize s.worker = p at hGoesOn
    cases hGoesOn <;> simp
  | reuses hWorker | getsId hWorker | startsPermanent hWorker | startsTemporary hWorker
  | resets hWorker | writes hWorker | calls hWorker | arrives hWorker | asks hWorker | puts hWorker
  | putsId hWorker =>
    refine .silent rfl ?_
    rw [hWorker]
    simp

/-- Only a request takes the worker away from `accept`, and only with its response it
comes back. -/
theorem step_responds (hOwn : ∀ tasks, a ≠ .accept tasks) (hStep : s.step pathEnv a = some s') :
    s.Responds s' := by
  cases hBox : a.box? with
  | some c =>
    rcases step_of_box hBox hStep with rfl | ⟨p, b, -, rfl⟩ <;> exact .silent rfl Iff.rfl
  | none =>
    cases step_turns hBox hStep with
    | accepts => exact absurd rfl (hOwn _)
    | worker hAlive hMoves => exact hMoves.responds hAlive
    | dies | othersGet | othersPut => exact .silent rfl Iff.rfl

end Sys

namespace Worker

variable {rj : Rapidjson} {pathEnv : Option Str} {v v' : Worker} {m : Move} {ids : List Uid}

/-- The books of the requests that were valid. -/
structure Kept (ids : List Uid) (v : Worker) : Prop where
  inv : v.world.sys.Inv
  born : v.world.sys.Born
  books : ∃ before request, peak (before ++ [request]) = peak v.valid ∧
    (v.world.sys.worker ≠ .accept → v.valid.getLast? = some request) ∧
    v.world.sys.Books ids before request

theorem Kept.step (h : v.Kept ids) (hStep : v.step rj pathEnv m = some v') : v'.Kept ids := by
  obtain ⟨before, request, hPeak, hLast, hBooks⟩ := h.books
  cases step_does hStep with
  | nothing hSys hValid =>
    refine ⟨?_, ?_, before, request, ?_, ?_, ?_⟩ <;> simp only [hSys, hValid]
    exacts [h.inv, h.born, hPeak, hLast, hBooks]
  | goesOn hSys hOwn hValid =>
    refine ⟨h.inv.step hSys, h.born.step hSys, before, request, ?_, fun hBusy => ?_,
      hBooks.step h.inv h.born hOwn hSys⟩
    · rw [hValid]
      exact hPeak
    · rw [hValid]
      refine hLast fun hIdle => hBusy ?_
      cases Sys.step_responds hOwn hSys with
      | silent hResponses hPlace => exact hPlace.mpr hIdle
      | answers hWorker hAlive hIdle' => exact hIdle'
  | @accepts tasks hSys hValid =>
    refine ⟨h.inv.step hSys, h.born.step hSys, before ++ [request], tasks, ?_, fun _ => ?_,
      hBooks.accept h.born hSys⟩
    · rw [hValid, peak_concat, peak_concat v.valid, hPeak]
    · rw [hValid]
      exact List.getLast?_concat

theorem kept_initial (firstUid : Uid) :
    (initial firstUid).Kept (SharedIdGetter.new firstUid idCount).stack := by
  refine ⟨Sys.inv_initial firstUid, Sys.born_initial firstUid, [], [], rfl, ?_, ?_⟩
  · intro hBusy
    exact absurd rfl hBusy
  · refine ⟨fun hBusy => absurd rfl hBusy, fun _ => rfl, fun hSome => absurd rfl hSome, nofun,
      fun _ => rfl, ?_⟩
    show (_ ++ [] ++ []).Perm _
    rw [List.append_nil, List.append_nil]
    exact List.Perm.refl _

theorem kept_of_reachable {firstUid : Uid}
    (hReach : Reachable (step rj pathEnv) (initial firstUid) v) :
    v.Kept (SharedIdGetter.new firstUid idCount).stack :=
  invariant_of_reachable (I := fun v => v.Kept (SharedIdGetter.new firstUid idCount).stack)
    (fun _ _ _ h hStep => h.step hStep) (kept_initial firstUid) hReach

-- ---------------------------------------------------------------------------
-- Between two calls, and during one
-- ---------------------------------------------------------------------------

theorem Kept.between (h : v.Kept ids) (hWired : v.world.Wired)
    (hIdle : v.world.sys.worker = .accept) : v.Between ids := by
  obtain ⟨before, request, hPeak, -, hBooks⟩ := h.books
  have hContainers : v.world.sys.containers = [] := by
    have hPlace := h.inv.place
    rw [Sys.PlaceOk, hIdle] at hPlace
    exact hPlace
  have hTemporary : v.world.sys.temporary = [] := by
    rw [List.eq_nil_iff_forall_not_mem]
    intro c hc
    have hUsed := h.inv.roster.temporaries c hc
    rw [hContainers] at hUsed
    cases hUsed
  refine ⟨hBooks.idle hIdle, hContainers, hTemporary, hWired.closed ?_, ?_, ?_⟩
  · rw [hIdle]
    exact id
  · rw [hBooks.grown (by rw [hIdle]; rfl), hPeak]
  · have hIds := hBooks.ids
    simp only [Sys.allIds, Sys.held, Sys.unreturned, hIdle, hTemporary, WorkerAt.hand,
      List.drop_nil, List.append_nil] at hIds
    exact hIds

theorem permanentAllowed_parameters (task : Task) :
    Sys.permanentAllowed task.parameters = Sys.permanentAllowed task := rfl

theorem permanentAllowed_iff (task : Task) :
    Sys.permanentAllowed task = true ↔ task.needIpc = false ∧ task.useStandardBinds = true := by
  unfold Sys.permanentAllowed
  cases task.needIpc <;> cases task.useStandardBinds <;> simp

/-- The `i`-th entry of `tasks_` is the `i`-th task of the request, with other results. -/
theorem task_of_request {s : Sys} {request : List Task} {i : Nat} {task : Task}
    (h : s.tasks.map Task.parameters = request.map Task.parameters) (hTask : request[i]? = some task) :
    ∃ record, s.tasks[i]? = some record ∧ record.parameters = task.parameters := by
  have hEntry : (s.tasks.map Task.parameters)[i]? = some task.parameters := by
    rw [h, List.getElem?_map, hTask]
    rfl
  rw [List.getElem?_map] at hEntry
  exact Option.map_eq_some_iff.mp hEntry

theorem Kept.during (h : v.Kept ids) (hRows : v.world.sys.Rows)
    (hPrepared : v.world.sys.worker.Prepared) :
    ∃ request, v.valid.getLast? = some request ∧ v.During request := by
  obtain ⟨before, request, -, hLast, hBooks⟩ := h.books
  have hBusy : v.world.sys.worker ≠ .accept := by
    intro hIdle
    rw [hIdle] at hPrepared
    exact hPrepared
  have hTasks := hBooks.tasks hBusy
  have hLength : v.world.sys.containers.length = v.world.sys.tasks.length := by
    have hPlace := h.inv.place
    unfold Sys.PlaceOk at hPlace
    cases hWorker : v.world.sys.worker <;> simp only [hWorker, WorkerAt.Prepared] at hPlace hPrepared
    all_goals first
      | exact hPlace
      | exact hPlace.1
  have hSame : v.world.sys.tasks.length = request.length := by
    simpa using congrArg List.length hTasks
  refine ⟨request, hLast hBusy, hLength.trans hSame, h.inv.roster.distinct, ?_⟩
  intro i c task hUsed hTask
  obtain ⟨record, hRecord, hParameters⟩ := task_of_request hTasks hTask
  rw [hRows.chosen i c record ⟨hUsed, hRecord⟩, ← permanentAllowed_parameters, hParameters,
    permanentAllowed_parameters, permanentAllowed_iff]

/-- A call that answers at once. -/
theorem process_of_error {request : Str} {error : Error} {tasks : List Task}
    {validator : SchemaValidator}
    (hThere : v.world.sys.alive = true ∧ v.world.sys.worker = .accept)
    (hParse : parseAndValidateJsonRequest rj v.validator request = .ok (error, tasks, validator))
    (hError : error.isError = true) :
    v.step rj pathEnv (.process request) =
      some { v with validator, replies := v.replies ++ [errorReply rj error] } := by
  show v.process rj pathEnv request = _
  rw [Worker.process, if_pos hThere, hParse]
  exact if_pos hError

/-- A call whose tasks the containers get. -/
theorem process_of_tasks {request : Str} {error : Error} {tasks : List Task}
    {validator : SchemaValidator}
    (hThere : v.world.sys.alive = true ∧ v.world.sys.worker = .accept)
    (hParse : parseAndValidateJsonRequest rj v.validator request = .ok (error, tasks, validator))
    (hNone : error.isError = false) :
    v.step rj pathEnv (.process request) =
      (v.world.step pathEnv (.sys (.accept tasks) [])).map fun world =>
        { v with world, validator, valid := v.valid ++ [tasks] } := by
  show v.process rj pathEnv request = _
  rw [Worker.process, if_pos hThere, hParse]
  exact if_neg (by rw [hNone]; simp)

theorem process_rejected {request : Str} {error : Error} {tasks : List Task}
    {validator : SchemaValidator}
    (hParse : parseAndValidateJsonRequest rj v.validator request = .ok (error, tasks, validator))
    (hError : error.isError = true) (hStep : v.step rj pathEnv (.process request) = some v') :
    v'.world = v.world ∧ v'.valid = v.valid ∧ v'.validator = validator ∧
      v'.replies = v.replies ++ [errorReply rj error] := by
  have hThere : v.world.sys.alive = true ∧ v.world.sys.worker = .accept := by
    change v.process rj pathEnv request = some v' at hStep
    unfold Worker.process at hStep
    split at hStep
    · assumption
    · cases hStep
  rw [process_of_error hThere hParse hError] at hStep
  obtain rfl := Option.some.inj hStep
  exact ⟨rfl, rfl, rfl, rfl⟩

theorem schema_of_parse {validator validator' : SchemaValidator} {request : Str} {error : Error}
    {tasks : List Task}
    (h : parseAndValidateJsonRequest rj validator request = .ok (error, tasks, validator')) :
    validator'.schema = validator.schema := by
  have hValidate : ∀ document, (validator.validate rj document).2.schema = validator.schema := by
    intro document
    simp only [SchemaValidator.validate]
    split <;> rfl
  unfold parseAndValidateJsonRequest at h
  split at h
  · cases h
    rfl
  · rename_i document _
    specialize hValidate document
    generalize validator.validate rj document = r at h hValidate
    obtain ⟨valid, after⟩ := r
    have hAfter : after = validator' := by
      cases valid with
      | true =>
        obtain ⟨read, -, hRest⟩ := bind_eq_ok h
        cases hRest
        rfl
      | false =>
        cases h
        rfl
    rw [← hAfter]
    exact hValidate

-- ---------------------------------------------------------------------------
-- The response
-- ---------------------------------------------------------------------------

/-- What `put_results` copies. -/
theorem sameResults_putResults (b : Block) (task : Task) :
    (b.putResults task).SameResults b.task :=
  ⟨rfl, rfl, rfl, rfl, rfl, rfl, rfl, rfl, rfl, rfl, rfl, rfl, rfl⟩

/-- At the end of `collect_results` every task has the results of its container. -/
theorem carries_of_putId {firstUid : Uid} {s : Sys} {i j : Nat} {task record : Task}
    (hReach : Reachable (Sys.step pathEnv) (Sys.initial firstUid) s) (hAlive : s.alive = true)
    (hWorker : s.worker = .putId j) (hRecord : s.tasks[i]? = some record)
    (hParameters : record.parameters = task.parameters) : s.Carries i task record := by
  obtain ⟨hInv, hMarked⟩ := Sys.marked_of_reachable hReach
  have hRows := (Sys.rows_of_reachable hReach).2
  have hKilled : ∀ c, (s.box c).pc = .killed → s.alive = false :=
    invariant_of_reachable (I := fun s => ∀ c, (s.box c).pc = .killed → s.alive = false)
      (fun _ _ _ h hStep => Sys.step_killed h hStep) nofun hReach
  have hPlace := hInv.place
  rw [Sys.PlaceOk, hWorker] at hPlace
  have hLt := (List.getElem?_eq_some_iff.mp hRecord).1
  obtain ⟨c, hUsed⟩ : ∃ c, s.containers[i]? = some c :=
    ⟨_, List.getElem?_eq_getElem (hPlace.1 ▸ hLt)⟩
  have hPut : s.worker.Put i := by
    rw [hWorker]
    trivial
  have hWrote : s.worker.Wrote i := by
    rw [hWorker]
    trivial
  have hStamped := hMarked c _ (.used hUsed)
  rw [Sys.view_of_put hPut] at hStamped
  have hThere : (s.box c).pc ≠ .killed := fun hPc => by
    simp [hKilled c hPc] at hAlive
  have hReported := hStamped.reported ⟨hThere, by simp⟩
  have hPutResults := hRows.put i c record ⟨hUsed, hRecord⟩ hPut
  refine ⟨hParameters, c, hUsed,
    (hRows.written i c record ⟨hUsed, hRecord⟩ hWrote).trans hParameters, ?_, fun f hf => ?_⟩
  · rw [← hPutResults]
    exact sameResults_putResults _ record
  · have hLast := hReported f hf
    cases hReports : (s.box c).block.reports f with
    | true => exact .inl (by rw [hLast, hReports]; rfl)
    | false => exact .inr (by rw [hLast, hReports]; rfl)

/-- What a step outside of `process`'s beginning does to the replies. -/
inductive Replies (rj : Rapidjson) (v v' : Worker) : Prop where
  | silent (hReplies : v'.replies = v.replies)
    (hPlace : v'.world.sys.worker = .accept ↔ v.world.sys.worker = .accept)
  | answers {i : Nat} (hWorker : v.world.sys.worker = .putId i)
    (hAlive : v.world.sys.alive = true) (hIdle : v'.world.sys.worker = .accept)
    (hSame : v'.world.sys.alive = true)
    (hReplies : v'.replies = v.replies ++ [tasksReply rj v.world.sys.tasks])

theorem step_replies {wa : WorldAct} (hStep : v.step rj pathEnv (.world wa) = some v') :
    Replies rj v v' := by
  obtain ⟨hNot, w, hWorld, rfl⟩ := step_world_eq hStep
  have hSilent : w.sys.responses = v.world.sys.responses →
      v.replies ++ newReplies rj v.world.sys w.sys = v.replies := by
    intro hSame
    rw [newReplies, hSame, List.drop_length, List.map_nil, List.append_nil]
  rcases sys_step_of_world hNot hWorld with hSame | ⟨a, hOwn, hSys⟩
  · refine .silent (hSilent (by rw [hSame])) ?_
    show w.sys.worker = .accept ↔ _
    rw [hSame]
  · cases Sys.step_responds hOwn hSys with
    | silent hResponses hPlace => exact .silent (hSilent hResponses) hPlace
    | answers hWorker hAlive hIdle hSame hResponses =>
      refine .answers hWorker hAlive hIdle hSame ?_
      show v.replies ++ newReplies rj v.world.sys w.sys = _
      rw [newReplies, hResponses, List.drop_left]
      rfl

/-- How a call of `process` begins: it dies, it answers at once, or the containers have
their turn. -/
inductive Calls (v v' : Worker) : Prop where
  | dies (hDead : v'.world.sys.alive = false)
  | answers {reply : Str} (hAlive : v'.world.sys.alive = true) (hIdle : v'.world.sys.worker = .accept)
    (hReplies : v'.replies = v.replies ++ [reply])
  | begins (hAlive : v'.world.sys.alive = true) (hBusy : v'.world.sys.worker ≠ .accept)
    (hReplies : v'.replies = v.replies)

theorem process_calls {request : Str} (hStep : v.process rj pathEnv request = some v') :
    v.Calls v' := by
  unfold Worker.process at hStep
  split at hStep
  · rename_i hThere
    split at hStep
    · obtain ⟨w, hWorld, rfl⟩ := Option.map_eq_some_iff.mp hStep
      obtain ⟨s', hSys, rfl⟩ := World.sysStep_cases hWorld
      cases Sys.step_turns rfl hSys with
      | dies => exact .dies rfl
    · split at hStep
      · obtain rfl := Option.some.inj hStep
        exact .answers hThere.1 hThere.2 rfl
      · obtain ⟨w, hWorld, rfl⟩ := Option.map_eq_some_iff.mp hStep
        obtain ⟨s', hSys, rfl⟩ := World.sysStep_cases hWorld
        cases Sys.step_turns rfl hSys with
        | accepts hAlive => exact .begins hAlive (by simp) rfl
        | dies => exact .dies rfl
  · cases hStep

/-- **The step that ends a call answers it.** -/
theorem Kept.answered (h : v.Kept ids) {firstUid : Uid}
    (hReach : Reachable (Sys.step pathEnv) (Sys.initial firstUid) v.world.sys)
    (hStep : v.step rj pathEnv m = some v') (hBusy : v.world.sys.worker ≠ .accept)
    (hIdle : v'.world.sys.worker = .accept) :
    ∃ request records, v.valid.getLast? = some request ∧
      v'.replies = v.replies ++ [tasksReply rj records] ∧ records.length = request.length ∧
      ∀ (i : Nat) task record, request[i]? = some task → records[i]? = some record →
        v.world.sys.Carries i task record := by
  obtain ⟨before, request, -, hLast, hBooks⟩ := h.books
  have hTasks := hBooks.tasks hBusy
  cases m with
  | process text =>
    change v.process rj pathEnv text = some v' at hStep
    rw [Worker.process, if_neg fun hThere => hBusy hThere.2] at hStep
    cases hStep
  | world wa =>
    cases step_replies hStep with
    | silent hReplies hPlace => exact absurd (hPlace.mp hIdle) hBusy
    | answers hWorker hAlive hIdle hSame hReplies =>
      refine ⟨request, v.world.sys.tasks, hLast hBusy, hReplies, ?_, ?_⟩
      · simpa using congrArg List.length hTasks
      · intro i task record hTask hRecord
        obtain ⟨record', hRecord', hParameters⟩ := task_of_request hTasks hTask
        obtain rfl := Option.some.inj (hRecord.symm.trans hRecord')
        exact carries_of_putId hReach hAlive hWorker hRecord hParameters

/-- **The bookkeeping**, in every state that a worker can reach. -/
theorem bookkeeping_of_reachable {firstUid : Uid}
    (hReach : Reachable (step rj pathEnv) (initial firstUid) v) :
    v.Bookkeeping rj pathEnv (SharedIdGetter.new firstUid idCount).stack := by
  have hKept := kept_of_reachable hReach
  have hWorld := reachable_world hReach
  obtain ⟨-, hRows, hWired⟩ := World.wired_of_reachable hWorld
  refine ⟨hKept.between hWired, fun request error tasks validator v' hParse hError hStep => ?_,
    hKept.during hRows, fun m v' hStep => hKept.answered (World.reachable_sys hWorld) hStep⟩
  obtain ⟨hSame, hValid, hValidator, hReplies⟩ := process_rejected hParse hError hStep
  refine ⟨hSame, hValid, ?_, hReplies⟩
  rw [hValidator]
  exact schema_of_parse hParse

/-- The two tasks of `sampleTasks`: a temporary container, whose target runs into its
time limit, and a permanent one, whose target exits with 1. -/
def sampleRun : List Act :=
  List.flatten [
    -- prepare_containers(), write_tasks() and the containers up to the start barrier
    [.accept sampleTasks], List.replicate 10 .worker, List.replicate 3 (.container 0),
    [.worker, .worker], List.replicate 5 (.container 0), List.replicate 4 (.container 1),
    List.replicate 3 .worker, List.replicate 5 (.container 1),
    -- the start barrier and the slaves
    [.slave 0, .slave 1, .worker, .worker, .worker, .container 0, .container 1],
    List.replicate 7 (.slave 0), List.replicate 7 (.slave 1),
    -- the results of the first
    [.tick 0 1005 1050, .containerSigchld 0, .readUsage 0 ⟨1010, 10, 1000, 1100, 2048, false, false⟩,
      .container 0, .container 0, .worker, .worker, .worker, .container 0, .container 0],
    -- the results of the second
    [.exit 1 (.exited 1), .container 1, .containerSigchld 1,
      .readUsage 1 ⟨1, 0, 1, 2, 300, false, false⟩, .container 1, .container 1],
    List.replicate 6 .worker, List.replicate 3 (.container 1)]

/-- An empty request, and one of two tasks. -/
def servedRun : List Move :=
  .process [] :: .process (requestMessage sampleRapidjson sampleTasks) ::
    sampleRun.tail.map fun a => .world (.sys a [5, 6, 7, 8, 9])

/-- The worker behind the two calls of `process`, when the second has read its tasks. -/
def serving : Worker where
  world :=
    { World.initial 1000 with
      sys := { Sys.initial 1000 with
        request := 1, tasks := sampleTasks, worker := .prepareContainers 0 0 } }
  validator := { schema := requestSchema }
  valid := [sampleTasks]
  replies := [errorReply sampleRapidjson ⟨emptyRequest⟩]

theorem run_servedRun : run (step sampleRapidjson none) (initial 1000) servedRun =
    run (step sampleRapidjson none) serving
      (sampleRun.tail.map fun a => .world (.sys a [5, 6, 7, 8, 9])) := by
  have hCut : sampleTasks.map Task.cut = sampleTasks := by decide +kernel
  have hReads := parseAndValidateJsonRequest_requestMessage [] sampleRapidjson_request
  rw [hCut] at hReads
  let rejected : Worker :=
    { initial 1000 with replies := [errorReply sampleRapidjson ⟨emptyRequest⟩] }
  have hRejects : step sampleRapidjson none (initial 1000) (.process []) = some rejected :=
    process_of_error ⟨rfl, rfl⟩ (parseAndValidateJsonRequest_empty _) rfl
  have hAccepts : step sampleRapidjson none rejected
      (.process (requestMessage sampleRapidjson sampleTasks)) = some serving :=
    process_of_tasks ⟨rfl, rfl⟩ hReads rfl
  exact (run_cons_of_step hRejects).trans (run_cons_of_step hAccepts)

/-- The two tasks have different results. -/
theorem bookkeeping_of_servedRun :
    ∃ v, run (step sampleRapidjson none) (initial 1000) servedRun = some v ∧
      v.Bookkeeping sampleRapidjson none (SharedIdGetter.new 1000 idCount).stack ∧
      v.world.sys.worker = .accept ∧ v.replies.length = 2 ∧
      v.world.sys.responses = [sampleRecords] := by
  have hSeen : (run (step sampleRapidjson none) serving
      (sampleRun.tail.map fun a => .world (.sys a [5, 6, 7, 8, 9]))).map
        (fun v => (v.world.sys.worker, v.replies.length, v.world.sys.responses)) =
      some (.accept, 2, [sampleRecords]) := by decide +kernel
  rw [← run_servedRun] at hSeen
  obtain ⟨v, hRun, hState⟩ := Option.map_eq_some_iff.mp hSeen
  simp only [Prod.mk.injEq] at hState
  exact ⟨v, hRun, bookkeeping_of_reachable ⟨_, hRun⟩, hState⟩

end Worker

end Libsbox
