import Libsbox.Service.Shutdown

/-!
# libsbox — requests and responses of a worker

A worker answers its valid requests one after the other: the responses that it has
collected belong to its valid requests in their order, and during a call there is one more
request than responses. Neither list ever loses or changes an entry.

## Results

* `Paired.step` — every step keeps requests and responses in pairs;
* `step_grows` — and only adds to them;
* `paired_of_service` — the workers of a service.
-/

namespace Libsbox

open CMemory Runs

/-- What a list has at some place stays there while the list grows. -/
theorem getElem?_of_grows {α : Type} {before after : List α} {j : Nat} {x : α}
    (hGrows : before <+: after) (hThere : before[j]? = some x) : after[j]? = some x := by
  obtain ⟨hLt, hEq⟩ := List.getElem?_eq_some_iff.mp hThere
  rw [List.prefix_iff_getElem?.mp hGrows j hLt, hEq]

namespace Worker

variable {rj : Rapidjson} {pathEnv : Option Str} {v v' : Worker} {m : Move} {ids : List Uid}

/-- The responses are those to the valid requests, in their order. -/
structure Paired (v : Worker) : Prop where
  schema : v.validator.schema = requestSchema
  idle : v.world.sys.worker = .accept → v.world.sys.responses.length = v.valid.length
  busy : v.world.sys.worker ≠ .accept → v.valid.length = v.world.sys.responses.length + 1
  same : ∀ (j : Nat) (request records : List Task), v.valid[j]? = some request →
    v.world.sys.responses[j]? = some records →
    records.map Task.parameters = request.map Task.parameters

/-- The lists of `v'` begin with those of `v`. -/
def Grows (v v' : Worker) : Prop :=
  v.valid <+: v'.valid ∧ v.world.sys.responses <+: v'.world.sys.responses

theorem Grows.refl (v : Worker) : v.Grows v := ⟨List.prefix_refl _, List.prefix_refl _⟩

theorem accepts_eq {s s' : Sys} {tasks : List Task}
    (hStep : s.step pathEnv (.accept tasks) = some s') :
    s.worker = .accept ∧ s'.worker ≠ .accept ∧ s'.responses = s.responses ∧ s'.alive = true := by
  cases Sys.step_turns rfl hStep with
  | accepts hAlive hWorker => exact ⟨hWorker, by simp, rfl, hAlive⟩
  | dies => simp [Sys.step, Sys.die] at hStep

theorem step_grows (hStep : v.step rj pathEnv m = some v') : v.Grows v' := by
  cases step_does hStep with
  | nothing hSys hValid =>
    unfold Grows
    rw [hSys, hValid]
    exact Grows.refl v
  | goesOn hSys hOwn hValid =>
    unfold Grows
    rw [hValid]
    refine ⟨List.prefix_refl _, ?_⟩
    cases Sys.step_responds hOwn hSys with
    | silent hResponses => rw [hResponses]
    | answers hWorker hAlive hIdle hSame hResponses =>
      rw [hResponses]
      exact List.prefix_append _ _
  | accepts hSys hValid =>
    unfold Grows
    rw [hValid, (accepts_eq hSys).2.2.1]
    exact ⟨List.prefix_append _ _, List.prefix_refl _⟩

theorem step_schema (hStep : v.step rj pathEnv m = some v') :
    v'.validator.schema = v.validator.schema := by
  cases m with
  | process request =>
    simp only [step, Worker.process] at hStep
    split at hStep
    · split at hStep
      · obtain ⟨w, -, rfl⟩ := Option.map_eq_some_iff.mp hStep
        rfl
      · rename_i hParse
        split at hStep
        · obtain rfl := Option.some.inj hStep
          exact schema_of_parse hParse
        · obtain ⟨w, -, rfl⟩ := Option.map_eq_some_iff.mp hStep
          exact schema_of_parse hParse
    · cases hStep
  | world wa =>
    obtain ⟨-, w, -, rfl⟩ := step_world_eq hStep
    rfl

/-- What a step of the processes does to a call. -/
theorem step_world_cases {wa : WorldAct} (hStep : v.step rj pathEnv (.world wa) = some v') :
    v'.valid = v.valid ∧
      (v'.world.sys.responses = v.world.sys.responses ∧
          (v'.world.sys.worker = .accept ↔ v.world.sys.worker = .accept) ∨
        v.world.sys.worker ≠ .accept ∧
          v'.world.sys.responses = v.world.sys.responses ++ [v.world.sys.tasks] ∧
          v'.replies = v.replies ++ [tasksReply rj v.world.sys.tasks]) := by
  obtain ⟨hNot, w, hWorld, rfl⟩ := step_world_eq hStep
  refine ⟨rfl, ?_⟩
  rcases sys_step_of_world hNot hWorld with hSame | ⟨a, hOwn, hSys⟩
  · refine .inl ?_
    show w.sys.responses = _ ∧ (w.sys.worker = .accept ↔ _)
    rw [hSame]
    exact ⟨rfl, Iff.rfl⟩
  · cases Sys.step_responds hOwn hSys with
    | silent hResponses hPlace => exact .inl ⟨hResponses, hPlace⟩
    | answers hWorker hAlive hIdle hSame hResponses =>
      refine .inr ⟨by rw [hWorker]; simp, hResponses, ?_⟩
      show v.replies ++ newReplies rj v.world.sys w.sys = _
      rw [newReplies, hResponses, List.drop_left]
      rfl

/-- A response joins the request that waits for it. -/
theorem Paired.answers (h : v.Paired) (hKept : v.Kept ids)
    (hBusy : v.world.sys.worker ≠ .accept) (hIdle : v'.world.sys.worker = .accept)
    (hSchema : v'.validator.schema = v.validator.schema) (hValid : v'.valid = v.valid)
    (hResponses : v'.world.sys.responses = v.world.sys.responses ++ [v.world.sys.tasks]) :
    v'.Paired := by
  have hLength := h.busy hBusy
  refine ⟨hSchema.trans h.schema, fun _ => ?_, fun hNot => absurd hIdle hNot, ?_⟩
  · rw [hResponses, hValid, List.length_append, List.length_singleton]
    omega
  · intro j request records hRequest hRecords
    rw [hValid] at hRequest
    rw [hResponses] at hRecords
    rcases Nat.lt_or_ge j v.world.sys.responses.length with hOld | hNew
    · rw [List.getElem?_append_left hOld] at hRecords
      exact h.same j request records hRequest hRecords
    · have hLast : j = v.valid.length - 1 := by
        have hLt := (List.getElem?_eq_some_iff.mp hRequest).1
        omega
      obtain ⟨before, current, -, hCurrent, hBooks⟩ := hKept.books
      have hHere := hCurrent hBusy
      rw [List.getLast?_eq_getElem?, ← hLast, hRequest] at hHere
      obtain rfl := Option.some.inj hHere
      have hZero : j - v.world.sys.responses.length = 0 := by omega
      rw [List.getElem?_append_right hNew, hZero] at hRecords
      obtain rfl := Option.some.inj hRecords
      exact hBooks.tasks hBusy

theorem Paired.step (h : v.Paired) (hKept : v.Kept ids) (hStep : v.step rj pathEnv m = some v') :
    v'.Paired := by
  have hSchema := step_schema hStep
  cases step_does hStep with
  | nothing hSys hValid =>
    refine ⟨hSchema.trans h.schema, ?_, ?_, ?_⟩
    all_goals rw [hSys, hValid]
    exacts [h.idle, h.busy, h.same]
  | goesOn hSys hOwn hValid =>
    cases Sys.step_responds hOwn hSys with
    | silent hResponses hPlace =>
      refine ⟨hSchema.trans h.schema, fun hIdle => ?_, fun hBusy => ?_, ?_⟩
      all_goals rw [hResponses, hValid]
      exacts [h.idle (hPlace.mp hIdle), h.busy fun hIdle => hBusy (hPlace.mpr hIdle), h.same]
    | answers hWorker hAlive hIdle hSame hResponses =>
      exact h.answers hKept (by rw [hWorker]; simp) hIdle hSchema hValid hResponses
  | @accepts tasks hSys hValid =>
    obtain ⟨hIdle, hBusy, hResponses, -⟩ := accepts_eq hSys
    have hLength := h.idle hIdle
    refine ⟨hSchema.trans h.schema, fun hNot => absurd hNot hBusy, fun _ => ?_, ?_⟩
    · rw [hValid, hResponses, List.length_append, List.length_singleton, hLength]
    · intro j request records hRequest hRecords
      rw [hResponses] at hRecords
      rw [hValid] at hRequest
      have hLt := (List.getElem?_eq_some_iff.mp hRecords).1
      rw [List.getElem?_append_left (by omega)] at hRequest
      exact h.same j request records hRequest hRecords

theorem paired_initial (firstUid : Uid) : (initial firstUid).Paired :=
  ⟨rfl, fun _ => rfl, fun hBusy => absurd rfl hBusy, fun _ _ _ hRequest => by cases hRequest⟩

theorem paired_of_reachable {firstUid : Uid}
    (hReach : Reachable (step rj pathEnv) (initial firstUid) v) : v.Paired := by
  have hBoth := invariant_of_reachable (I := fun v : Worker =>
      v.Paired ∧ v.Kept (SharedIdGetter.new firstUid idCount).stack)
    (fun _ _ _ h hStep => ⟨h.1.step h.2 hStep, h.2.step hStep⟩)
    ⟨paired_initial firstUid, kept_initial firstUid⟩ hReach
  exact hBoth.1

end Worker

namespace Service

variable {rj : Rapidjson} {pathEnv : Option Str} {config : Config} {s : Service}

/-- What holds of a worker at any time. -/
theorem paired_of_service (hReach : Reachable (step rj pathEnv config) initial s) :
    ∀ v ∈ s.workers, v.Inv ∧ v.worker.Paired := by
  have hBoth : s.Inv ∧ ∀ v ∈ s.workers,
      Reachable (Worker.step rj pathEnv) (.initial config.firstUid) v.worker := by
    refine invariant_of_reachable (I := fun s => s.Inv ∧ ∀ v ∈ s.workers,
      Reachable (Worker.step rj pathEnv) (.initial config.firstUid) v.worker)
      (fun s act s' h hStep => ⟨h.1.step hStep, ?_⟩)
      ⟨inv_initial, fun _ hv => absurd hv List.not_mem_nil⟩ hReach
    refine (step_workers hStep).forall_mem h.2 (fun v v' a _ _ hOld _ hStep => ?_) fun _ => ⟨[], rfl⟩
    rcases Server.step_worker hStep with hSame | ⟨m, hMove⟩
    · rw [hSame]
      exact hOld
    · exact hOld.snoc hMove
  intro v hv
  exact ⟨hBoth.1.workers v hv, Worker.paired_of_reachable (hBoth.2 v hv)⟩

end Service

end Libsbox
