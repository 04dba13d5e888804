import Libsbox.Messages.Framing
import Libsbox.Model.Session
import Libsbox.Session.Pairing

/-!
# libsbox — what a client gets for its tasks

From the call of `run_together` through the kernel, the worker and its containers, and
back: whatever other clients there are and however the bytes are cut, the results that a
call returns are those of a request with the tasks of the call, and of no other one. The
tasks of a call that returns an error are as they were.

## Results

* `Server.Fits.step` — what a worker makes of the connection that it serves;
* `Inv.step` — what all clients have at any time;
* `answers_of_run` — what the calls return.
-/

namespace Libsbox

open CMemory Runs

-- ---------------------------------------------------------------------------
-- A client and its worker
-- ---------------------------------------------------------------------------

/-- A call on the socket has failed. -/
def Exchange.Failed : Exchange → Prop
  | .received _ => False
  | _ => True

namespace Client

/-- No call on the socket has failed, and the process lives. -/
def Intact (c : Client) : Prop :=
  match c.pc with
  | .calling | .returned (.received _) _ => True
  | _ => False

/-- What has come from the worker. -/
def received (c : Client) : Str := c.chunks.flatten ++ c.down

/-- What the worker has read is the beginning of the message. -/
def Sends (rj : Rapidjson) (c : Client) (request : Str) : Prop :=
  requestMessage rj c.tasks = request ++ (c.up ++ c.unsent)

end Client

/-- The request of that number has these tasks, and its response these records. -/
structure Worker.Answers (w : Worker) (before : Nat) (tasks records : List Task) : Prop where
  request : w.valid[before]? = some (tasks.map Task.cut)
  response : w.world.sys.responses[before]? = some records

theorem Worker.Answers.grows {w w' : Worker} {before : Nat} {tasks records : List Task}
    (h : w.Answers before tasks records) (hGrows : w.Grows w') : w'.Answers before tasks records :=
  ⟨getElem?_of_grows hGrows.1 h.request, getElem?_of_grows hGrows.2 h.response⟩

/-- There can be a connection. -/
def ServeAt.Connected : ServeAt → Prop
  | .restartCalls | .recv _ | .process _ | .processing | .write _ _ | .close | .exited | .died
  | .killed => True
  | _ => False

namespace Server

variable {rj : Rapidjson} {pathEnv : Option Str} {daemonAlive clients : Bool}
variable {v v' : Server} {a : ServeAct} {before : Nat} {c c' : Client}

/-- Nothing of a response has come, or a part of the right one. -/
def Partly (rj : Rapidjson) (v : Server) (before : Nat) (c : Client) : Prop :=
  c.received = [] ∨ ∃ records, v.worker.Answers before c.tasks records ∧
    c.received <+: tasksReply rj records

/-- The right response has come. -/
def Done (rj : Rapidjson) (v : Server) (before : Nat) (c : Client) : Prop :=
  ∃ records, v.worker.Answers before c.tasks records ∧ c.received = tasksReply rj records

/-- The worker is where it has to be with the client `c`, before which it had so many
valid requests. -/
def Fits (rj : Rapidjson) (v : Server) (before : Nat) (c : Client) : Prop :=
  match v.pc with
  | .restartCalls => v.worker.valid.length = before ∧ c.received = [] ∧ c.Sends rj []
  | .recv request =>
    v.worker.valid.length = before ∧ c.received = [] ∧ (0 : UInt8) ∉ request ∧ c.Sends rj request
  | .process request =>
    v.worker.valid.length = before ∧ c.received = [] ∧
      request = cstr (rj.write (requestDocument c.tasks))
  | .processing =>
    v.worker.valid.length = before + 1 ∧ c.received = [] ∧
      v.worker.valid[before]? = some (c.tasks.map Task.cut)
  | .write response cnt => ∃ records, v.worker.Answers before c.tasks records ∧
      response = tasksReply rj records ∧ c.received = response.take cnt
  | .close => v.Done rj before c
  | .exited | .died | .killed => v.Partly rj before c
  | _ => False

theorem fits_congr (hPc : v'.pc = v.pc) (hWorker : v'.worker = v.worker)
    (hTasks : c'.tasks = c.tasks) (hReceived : c'.received = c.received)
    (hSends : c'.up ++ c'.unsent = c.up ++ c.unsent) :
    v'.Fits rj before c' ↔ v.Fits rj before c := by
  unfold Fits Partly Done Client.Sends
  rw [hPc, hWorker, hTasks, hReceived, hSends]

/-- Whatever the place, no more than a part of the response has come. -/
theorem Fits.partly (h : v.Fits rj before c) : v.Partly rj before c := by
  unfold Fits at h
  cases hPc : v.pc with
  | restartCalls | recv | process | processing =>
    simp only [hPc] at h
    exact .inl h.2.1
  | write response cnt =>
    simp only [hPc] at h
    obtain ⟨records, hAnswers, rfl, hReceived⟩ := h
    refine .inr ⟨records, hAnswers, ?_⟩
    rw [hReceived]
    exact List.take_prefix _ _
  | close =>
    simp only [hPc] at h
    obtain ⟨records, hAnswers, hReceived⟩ := h
    exact .inr ⟨records, hAnswers, hReceived ▸ List.prefix_refl _⟩
  | exited | died | killed =>
    simp only [hPc] at h
    exact h
  | _ =>
    simp only [hPc] at h

theorem Partly.grows (h : v.Partly rj before c) (hGrows : v.worker.Grows v'.worker) :
    v'.Partly rj before c := by
  rcases h with hNone | ⟨records, hAnswers, hReceived⟩
  · exact .inl hNone
  · exact .inr ⟨records, hAnswers.grows hGrows, hReceived⟩

theorem fits_of_ended (hEnded : v.pc.Ended) (h : v.Partly rj before c) : v.Fits rj before c := by
  unfold Fits
  rcases hEnded with hPc | hPc | hPc <;>
  · rw [hPc]
    exact h

theorem step_grows (hStep : v.step rj pathEnv daemonAlive clients a = some v') :
    v.worker.Grows v'.worker := by
  rcases step_worker hStep with hSame | ⟨m, hMove⟩
  · rw [hSame]
    exact Worker.Grows.refl _
  · exact Worker.step_grows hMove

-- ---------------------------------------------------------------------------
-- The steps of a worker
-- ---------------------------------------------------------------------------

theorem parse_congr {validator : SchemaValidator} {request request' : Str}
    (h : cstr request = cstr request') : parseAndValidateJsonRequest rj validator request =
      parseAndValidateJsonRequest rj validator request' := by
  unfold parseAndValidateJsonRequest
  rw [h]

/-- The message of a client is a valid request. -/
theorem process_of_client {w w' : Worker} {tasks : List Task} (hPaired : w.Paired)
    (hRj : rj.ReadsBack (requestDocument tasks))
    (hCall : w.process rj pathEnv (cstr (rj.write (requestDocument tasks))) = some w') :
    w'.valid = w.valid ++ [tasks.map Task.cut] ∧ w'.world.sys.alive = true ∧
      w'.world.sys.worker ≠ .accept := by
  have hText : cstr (cstr (rj.write (requestDocument tasks))) = cstr (requestMessage rj tasks) := by
    show _ = cstr (cstr (rj.write (requestDocument tasks)) ++ 0 :: [])
    rw [cstr_append_nul]
  have hParse := parseAndValidateJsonRequest_requestMessage w.validator.error hRj
  have hValidator : { schema := requestSchema, error := w.validator.error } = w.validator := by
    rw [← hPaired.schema]
  rw [hValidator, ← parse_congr hText] at hParse
  unfold Worker.process at hCall
  split at hCall
  · simp only [hParse, Error.isError] at hCall
    obtain ⟨world, hWorld, rfl⟩ := Option.map_eq_some_iff.mp hCall
    obtain ⟨s', hSys, rfl⟩ := World.sysStep_cases hWorld
    obtain ⟨-, hBusy, -, hAlive⟩ := Worker.accepts_eq hSys
    exact ⟨rfl, hAlive, hBusy⟩
  · cases hCall

/-- The call of `process` begins. -/
theorem Fits.calls (hPaired : v.worker.Paired) {request : Str} {worker : Worker}
    (hPc : v.pc = .process request) (hRj : rj.ReadsBack (requestDocument c.tasks))
    (hCall : v.worker.process rj pathEnv request = some worker) (h : v.Fits rj before c) :
    (v.processed worker).Fits rj before c := by
  simp only [Fits, hPc] at h
  obtain ⟨hBefore, hReceived, rfl⟩ := h
  obtain ⟨hValid, hAlive, hBusy⟩ := process_of_client hPaired hRj hCall
  simp only [Fits, processed, hAlive, hBusy, not_true_eq_false, if_false]
  refine ⟨?_, hReceived, ?_⟩
  · rw [hValid, List.length_append, List.length_singleton, hBefore]
  · rw [hValid, ← hBefore]
    exact List.getElem?_concat_length

/-- The call of `process` goes on, and ends. -/
theorem Fits.works (hInv : v.Inv) (hPaired : v.worker.Paired) {wa : WorldAct} {worker : Worker}
    (hPc : v.pc = .processing) (hStep : v.worker.step rj pathEnv (.world wa) = some worker)
    (h : v.Fits rj before c) : (v.processed worker).Fits rj before c := by
  have hBusy := hInv.busy hPc
  simp only [Fits, hPc] at h
  obtain ⟨hBefore, hReceived, hRequest⟩ := h
  obtain ⟨hValid, hCases⟩ := Worker.step_world_cases hStep
  by_cases hAlive : worker.world.sys.alive = true
  · by_cases hIdle : worker.world.sys.worker = .accept
    · simp only [Fits, processed, hAlive, hIdle, not_true_eq_false, if_false, if_true]
      rcases hCases with ⟨-, hPlace⟩ | ⟨-, hResponses, hReplies⟩
      · exact absurd (hPlace.mp hIdle) hBusy
      · have hLength : v.worker.world.sys.responses.length = before := by
          have hBoth := hPaired.busy hBusy
          omega
        refine ⟨v.worker.world.sys.tasks, ⟨?_, ?_⟩, ?_, hReceived⟩
        · rw [hValid]
          exact hRequest
        · rw [hResponses, ← hLength]
          exact List.getElem?_concat_length
        · rw [hReplies, List.getLast?_concat]
          rfl
    · simp only [Fits, processed, hAlive, hIdle, not_true_eq_false, if_false]
      rw [hValid]
      exact ⟨hBefore, hReceived, hRequest⟩
  · have hDied : (v.processed worker).pc = .died := if_pos hAlive
    exact fits_of_ended (.inr (.inl hDied)) (.inl hReceived)

/-- The containers go on without the worker. -/
theorem Fits.waits (hInv : v.Inv) {wa : WorldAct} {worker : Worker} (hThere : ¬ v.pc.Ended)
    (hPc : v.pc ≠ .processing) (hStep : v.worker.step rj pathEnv (.world wa) = some worker)
    (h : v.Fits rj before c) :
    { v with worker, pc := if worker.world.sys.alive then v.pc else .died }.Fits rj before c := by
  have hIdle := hInv.idle hThere hPc
  obtain ⟨hValid, ⟨hResponses, -⟩ | ⟨hBusy, -⟩⟩ := Worker.step_world_cases hStep
  · have hGrows : v.worker.Grows worker := Worker.step_grows hStep
    by_cases hAlive : worker.world.sys.alive = true
    · have hAnswers : ∀ records, v.worker.Answers before c.tasks records →
          worker.Answers before c.tasks records := fun records hOld => hOld.grows hGrows
      rw [if_pos hAlive]
      unfold Fits at h ⊢
      simp only
      cases hPlace : v.pc with
      | restartCalls | recv | process =>
        simp only [hPlace] at h ⊢
        rw [hValid]
        exact h
      | processing => exact absurd hPlace hPc
      | write | close =>
        simp only [hPlace] at h ⊢
        obtain ⟨records, hOld, hRest⟩ := h
        exact ⟨records, hAnswers records hOld, hRest⟩
      | exited | died | killed =>
        rw [hPlace] at hThere
        exact absurd (by simp [ServeAt.Ended]) hThere
      | _ => simp only [hPlace] at h
    · rw [if_neg hAlive]
      exact fits_of_ended (.inr (.inl rfl)) (h.partly.grows hGrows)
  · exact absurd hIdle hBusy

/-- **What a worker makes of the connection that it serves**, apart from what is read and
written, and up to its end. -/
theorem Fits.step (hInv : v.Inv) (hPaired : v.worker.Paired)
    (hRj : rj.ReadsBack (requestDocument c.tasks)) (hQuiet : Session.onSocket a = false)
    (hOpen : v.pc = .close → a ≠ .next)
    (hStep : v.step rj pathEnv daemonAlive clients a = some v') (h : v.Fits rj before c) :
    v'.Fits rj before c := by
  have hPartly := h.partly.grows (step_grows hStep)
  cases step_moves hStep with
  | goesOn hGoesOn =>
    generalize hPc : v.pc = p at hGoesOn
    cases hGoesOn with
    | close => exact absurd rfl (hOpen hPc)
    | exit | dies => exact fits_of_ended (by simp [ServeAt.Ended]) hPartly
    | _ =>
      simp only [Fits, hPc] at h
  | prctl armed hPc | interruptAccept hPc | acceptFails hPc =>
    simp only [Fits, hPc] at h
  | restartCalls hPc =>
    simp only [Fits, hPc] at h
    exact ⟨h.1, h.2.1, List.not_mem_nil, h.2.2⟩
  | calls hPc hCall => exact h.calls hPaired hPc hRj hCall
  | writes hPc =>
    simp only [Fits, hPc] at h
    obtain ⟨records, hAnswers, rfl, hReceived⟩ := h
    exact ⟨records, hAnswers, hReceived.trans (List.take_length)⟩
  | works hPc hWork => exact h.works hInv hPaired hPc hWork
  | waits hThere hPc hWork => exact h.waits hInv hThere hPc hWork
  | fails | parentDied => exact fits_of_ended (by simp [ServeAt.Ended]) hPartly
  | kill => exact (fits_congr rfl rfl rfl rfl rfl).mpr h
  | delivers hThere hPc =>
    obtain ⟨restart, hHandles, hFlag⟩ := hInv.handles
    rw [hHandles.deliver] at hPc
    change _ = v.interrupted restart at hPc
    rcases interrupted_cases hFlag with ⟨-, -, hSame⟩ | ⟨hAccept, -⟩ | ⟨-, hDies⟩
    · obtain rfl := hPc.trans hSame
      exact h
    · simp only [Fits, hAccept] at h
    · exact fits_of_ended (.inr (.inl (hPc.trans hDies))) hPartly
  | connection | receives | transfers => simp [Session.onSocket] at hQuiet

/-- The worker receives from its client. -/
theorem Fits.receives {request chunk rest : Str} (hPc : v.pc = .recv request) (hSome : chunk ≠ [])
    (hUp : c.up = chunk ++ rest) (hStep : v.received chunk = some v') (h : v.Fits rj before c) :
    v'.Fits rj before { c with up := rest } := by
  simp only [Fits, hPc] at h
  obtain ⟨hBefore, hReceived, hFree, hSends⟩ := h
  have hMessage : requestMessage rj c.tasks = (request ++ chunk) ++ (rest ++ c.unsent) := by
    rw [hSends, hUp, List.append_assoc, List.append_assoc]
  simp only [received, hPc] at hStep
  split at hStep
  · obtain rfl := Option.some.inj hStep
    by_cases hNul : (0 : UInt8) ∈ chunk
    · simp only [Fits, hNul, or_true, if_true]
      refine ⟨hBefore, hReceived, ?_⟩
      have hText := congrArg cstr hMessage
      rw [cstr_append_of_nul (List.mem_append_right _ hNul), cstr_append_of_nul_free hFree] at hText
      rw [← hText]
      show cstr (cstr (rj.write (requestDocument c.tasks)) ++ 0 :: []) = _
      rw [cstr_append_nul, cstr_of_nul_free (nul_notMem_cstr _)]
    · simp only [Fits, hNul, hSome, or_self, if_false]
      rw [cstr_of_nul_free hNul]
      exact ⟨hBefore, hReceived, fun hIn => (List.mem_append.mp hIn).elim hFree hNul, hMessage⟩
  · cases hStep

/-- The kernel takes a part of the response. -/
theorem Fits.transfers {response : Str} {old cnt : Nat} (hPc : v.pc = .write response old)
    (hStep : v.transfer cnt = some v') (h : v.Fits rj before c) :
    v'.Fits rj before { c with down := c.down ++ (response.drop old).take cnt } := by
  simp only [Fits, hPc] at h
  obtain ⟨records, hAnswers, hResponse, hReceived⟩ := h
  simp only [transfer, hPc] at hStep
  split at hStep
  · obtain rfl := Option.some.inj hStep
    refine ⟨records, hAnswers, hResponse, ?_⟩
    show c.chunks.flatten ++ (c.down ++ (response.drop old).take cnt) = _
    rw [← List.append_assoc, List.take_add]
    exact congrArg (· ++ _) hReceived
  · cases hStep

/-- A connection ends only with its `close`. -/
theorem connected_step (hInv : v.Inv) (hOpen : v.pc = .close → a ≠ .next)
    (hStep : v.step rj pathEnv daemonAlive clients a = some v') (h : v.pc.Connected) :
    v'.pc.Connected := by
  cases step_moves hStep with
  | goesOn hGoesOn =>
    generalize hPc : v.pc = p at hGoesOn h
    cases hGoesOn with
    | close => exact absurd rfl (hOpen hPc)
    | _ => exact h.elim
  | prctl armed hPc | interruptAccept hPc | acceptFails hPc =>
    rw [hPc] at h
    exact h.elim
  | calls hPc hCall | works hPc hCall =>
    unfold processed
    simp only
    split
    · trivial
    · split <;> trivial
  | receives hPc hNext =>
    rcases hNext with rfl | rfl <;> trivial
  | waits =>
    simp only
    split
    · exact h
    · trivial
  | kill => exact h
  | delivers hThere hPc =>
    obtain ⟨restart, hHandles, hFlag⟩ := hInv.handles
    rw [hHandles.deliver] at hPc
    change _ = v.interrupted restart at hPc
    rcases interrupted_cases hFlag with ⟨-, -, hSame⟩ | ⟨hAccept, -⟩ | ⟨-, hDies⟩
    · rw [hPc, hSame]
      exact h
    · rw [hAccept] at h
      exact h.elim
    · rw [hPc, hDies]
      trivial
  | restartCalls | writes | connection | transfers | fails | parentDied => trivial

end Server

namespace Client

/-- What a client does by itself. -/
inductive Moves (rj : Rapidjson) (s : Session) (c : Client) : Client → Prop where
  | sends (cnt : Nat) (hCalling : c.pc = .calling) :
    Moves _ _ _ { c with unsent := c.unsent.drop cnt, up := c.up ++ c.unsent.take cnt }
  | babbles (bytes : Str) (hStranger : c.pc = .stranger) :
    Moves _ _ _ { c with up := c.up ++ bytes }
  | reads (cnt : Nat) (hCalling : c.pc = .calling) :
    Moves _ _ _ { c with down := c.down.drop cnt, chunks := c.chunks ++ [c.down.take cnt] }
  | fails {exchange : Exchange} (hCutOff : exchange.isCutOff c.unsent = true) :
    Moves _ _ _ (c.returns rj (s.validators c.process) exchange)
  | leaves : Moves _ _ _ { c with pc := .gone }

end Client

-- ---------------------------------------------------------------------------
-- The steps of the service, as its clients see them
-- ---------------------------------------------------------------------------

namespace Server

variable {rj : Rapidjson} {pathEnv : Option Str} {daemonAlive clients : Bool}
variable {v v' : Server} {a : ServeAct}

theorem ended_step (hStep : v.step rj pathEnv daemonAlive clients a = some v')
    (h : v.pc.Ended) : v'.pc.Ended := by
  have hNot : ∀ {pc : ServeAt}, v.pc = pc → pc.Ended := fun hPc => hPc ▸ h
  cases step_moves hStep with
  | goesOn hGoesOn =>
    generalize hPc : v.pc = p at hGoesOn
    have hEnded := hNot hPc
    cases hGoesOn <;> simp [ServeAt.Ended] at hEnded ⊢
  | prctl armed hPc | interruptAccept hPc | restartCalls hPc | calls hPc | writes hPc | connection hPc
  | receives hPc | transfers hPc | acceptFails hPc | works hPc =>
    have hEnded := hNot hPc
    simp [ServeAt.Ended] at hEnded
  | waits hThere => exact absurd h hThere
  | delivers hThere => exact absurd h hThere
  | fails | parentDied => simp [ServeAt.Ended]
  | kill => exact h

end Server

/-- What every step of the service keeps of a worker, and what the steps of others do. -/
theorem Service.step_keeps {rj : Rapidjson} {pathEnv : Option Str} {config : Config}
    {s s' : Service} {act : ServiceAct} (hStep : s.step rj pathEnv config act = some s') {j : Nat}
    {v : Server} (hWorker : s.workers[j]? = some v) :
    ∃ v', s'.workers[j]? = some v' ∧ v.worker.Grows v'.worker ∧ (v.pc.Ended → v'.pc.Ended) ∧
      ((∀ a, act ≠ .worker j a) → v'.pc = v.pc ∧ v'.worker = v.worker) := by
  have hLt := (List.getElem?_eq_some_iff.mp hWorker).1
  cases step_workers hStep with
  | none hWorkers =>
    rw [hWorkers]
    exact ⟨v, hWorker, .refl _, id, fun _ => ⟨rfl, rfl⟩⟩
  | @steps i w w' a _ _ hThere hAct hMove hWorkers =>
    rw [hWorkers]
    rcases eq_or_ne j i with rfl | hNe
    · obtain rfl := Option.some.inj (hWorker.symm.trans hThere)
      refine ⟨w', List.getElem?_set_self hLt, Server.step_grows hMove, Server.ended_step hMove, ?_⟩
      intro hOther
      obtain rfl := hAct.resolve_left (hOther a)
      cases Server.step_moves hMove with
      | kill => exact ⟨rfl, rfl⟩
    · rw [List.getElem?_set_ne hNe.symm]
      exact ⟨v, hWorker, .refl _, id, fun _ => ⟨rfl, rfl⟩⟩
  | forks hPc hWorkers =>
    rw [hWorkers, List.getElem?_append_left hLt]
    exact ⟨v, hWorker, .refl _, id, fun _ => ⟨rfl, rfl⟩⟩

namespace Session

variable {rj : Rapidjson} {pathEnv : Option Str} {config : Config}
variable {s s' : Session} {a : SessionAct} {c : Client} {k : Nat}

/-- A step of the service and its clients. -/
inductive Moves (rj : Rapidjson) (pathEnv : Option Str) (config : Config) (s : Session)
    (a : SessionAct) : Session → Prop where
  | daemon {da : DaemonAct} {service : Service}
    (hStep : s.service.step rj pathEnv config (.daemon da) = some service) :
    Moves _ _ _ _ _ { s with service }
  | worker {i : Nat} {wa : ServeAct} {service : Service} (hQuiet : onSocket wa = false)
    (hStep : s.service.step rj pathEnv config (.worker i wa) = some service) :
    Moves _ _ _ _ _ { s with
      service, clients := if s.closes i wa then s.clients.map (Client.hangUp i) else s.clients }
  | connects {c : Client} {service : Service}
    (hNew : c = { pc := .stranger } ∨ ∃ process tasks, a = .call process tasks ∧
      c = .call rj process tasks)
    (hStep : s.service.step rj pathEnv config .connect = some service) :
    Moves _ _ _ _ _ { s with service, clients := s.clients ++ [c] }
  | cannotConnect {process : Nat} {tasks : List Task} {exchange : Exchange}
    (hUnconnected : exchange.isUnconnected = true) :
    Moves _ _ _ _ _ { s with clients := s.clients ++
      [Client.returns rj (s.validators process) exchange { process, tasks, link := .none }] }
  | accepts {i k : Nat} {c : Client} {v : Server} {service : Service}
    (hClient : s.clients[k]? = some c) (hWorker : s.service.workers[i]? = some v)
    (hWaits : c.link = .waiting)
    (hStep : s.service.step rj pathEnv config (.worker i .connection) = some service) :
    Moves _ _ _ _ _ { s.setClient k { c with link := .opened i v.worker.valid.length } with service }
  | receives {i k cnt before : Nat} {c : Client} {service : Service}
    (hClient : s.clients[k]? = some c) (hLink : c.link = .opened i before)
    (hLe : cnt ≤ c.up.length) (hEnd : cnt = 0 → c.pc ≠ .calling)
    (hStep : s.service.step rj pathEnv config (.worker i (.received (c.up.take cnt))) =
      some service) :
    Moves _ _ _ _ _ { s.setClient k { c with up := c.up.drop cnt } with service }
  | transfers {i k cnt before old : Nat} {c : Client} {v : Server} {response : Str}
    {service : Service} (hClient : s.clients[k]? = some c)
    (hWorker : s.service.workers[i]? = some v) (hLink : c.link = .opened i before)
    (hPc : v.pc = .write response old)
    (hStep : s.service.step rj pathEnv config (.worker i (.transfer cnt)) = some service) :
    Moves _ _ _ _ _
      { s.setClient k { c with down := c.down ++ (response.drop old).take cnt } with service }
  | ends {k : Nat} {c : Client} (hClient : s.clients[k]? = some c) (hCalling : c.pc = .calling)
    (hDown : c.down = []) (hHungUp : s.hungUp c.link = true) :
    Moves _ _ _ _ _ { s.setClient k (c.returns rj (s.validators c.process) (.received c.chunks)) with
      validators := Function.update s.validators c.process
        (runTogether rj c.tasks (.received c.chunks) (s.validators c.process)).2 }
  | client {k : Nat} {c c' : Client} (hClient : s.clients[k]? = some c) (hMoves : c.Moves rj s c') :
    Moves _ _ _ _ _ (s.setClient k c')

theorem isCalling_iff {pc : ClientAt} : pc.isCalling = true ↔ pc = .calling := by
  cases pc <;> simp [ClientAt.isCalling]

theorem step_moves (hStep : s.step rj pathEnv config a = some s') :
    s.Moves rj pathEnv config a s' := by
  cases a with
  | daemon a =>
    simp only [step, Option.bind_eq_bind, Option.bind_eq_some_iff] at hStep
    obtain ⟨service, hService, hEq⟩ := hStep
    exact Option.some.inj hEq ▸ .daemon hService
  | worker i a =>
    simp only [step] at hStep
    split at hStep
    · cases hStep
    · rename_i hQuiet
      simp only [Option.bind_eq_bind, Option.bind_eq_some_iff] at hStep
      obtain ⟨service, hService, hEq⟩ := hStep
      exact Option.some.inj hEq ▸ .worker (by simpa using hQuiet) hService
  | call process tasks =>
    simp only [step, Option.bind_eq_bind, Option.bind_eq_some_iff] at hStep
    obtain ⟨service, hService, hEq⟩ := hStep
    exact Option.some.inj hEq ▸ .connects (.inr ⟨process, tasks, rfl, rfl⟩) hService
  | visit =>
    simp only [step, Option.bind_eq_bind, Option.bind_eq_some_iff] at hStep
    obtain ⟨service, hService, hEq⟩ := hStep
    exact Option.some.inj hEq ▸ .connects (.inl rfl) hService
  | cannotConnect process tasks exchange =>
    simp only [step] at hStep
    split at hStep
    · rename_i hUnconnected
      exact Option.some.inj hStep ▸ .cannotConnect hUnconnected
    · cases hStep
  | accept i k =>
    simp only [step, Option.bind_eq_bind, Option.bind_eq_some_iff] at hStep
    obtain ⟨c, hClient, v, hWorker, hRest⟩ := hStep
    split at hRest
    · rename_i hWaits
      simp only [Option.bind_eq_some_iff] at hRest
      obtain ⟨service, hService, hEq⟩ := hRest
      exact Option.some.inj hEq ▸ .accepts hClient hWorker hWaits hService
    · cases hRest
  | send k cnt =>
    simp only [step, Option.bind_eq_bind, Option.bind_eq_some_iff] at hStep
    obtain ⟨c, hClient, hRest⟩ := hStep
    split at hRest
    · rename_i hCalling
      exact Option.some.inj hRest ▸ .client hClient (.sends cnt (isCalling_iff.mp hCalling))
    · cases hRest
  | babble k bytes =>
    simp only [step, Option.bind_eq_bind, Option.bind_eq_some_iff] at hStep
    obtain ⟨c, hClient, hRest⟩ := hStep
    split at hRest
    · rename_i hStranger
      exact Option.some.inj hRest ▸ .client hClient (.babbles bytes hStranger)
    · cases hRest
  | recv i k cnt =>
    simp only [step, Option.bind_eq_bind, Option.bind_eq_some_iff] at hStep
    obtain ⟨c, hClient, hRest⟩ := hStep
    split at hRest
    · rename_i hLink
      split at hRest
      · rename_i hThere
        obtain ⟨rfl, hLe, hEnd⟩ := hThere
        simp only [Option.bind_eq_some_iff] at hRest
        obtain ⟨service, hService, hEq⟩ := hRest
        refine Option.some.inj hEq ▸ .receives hClient hLink hLe (fun hZero hCalling => ?_) hService
        exact (hEnd hZero).2 (isCalling_iff.mpr hCalling)
      · cases hRest
    · cases hRest
  | write i k cnt =>
    simp only [step, Option.bind_eq_bind, Option.bind_eq_some_iff] at hStep
    obtain ⟨c, hClient, v, hWorker, hRest⟩ := hStep
    split at hRest
    · rename_i hLink hPc
      split at hRest
      · rename_i hThere
        obtain rfl := hThere
        simp only [Option.bind_eq_some_iff] at hRest
        obtain ⟨service, hService, hEq⟩ := hRest
        exact Option.some.inj hEq ▸ .transfers hClient hWorker hLink hPc hService
      · cases hRest
    · cases hRest
  | read k cnt =>
    simp only [step, Option.bind_eq_bind, Option.bind_eq_some_iff] at hStep
    obtain ⟨c, hClient, hRest⟩ := hStep
    split at hRest
    · rename_i hThere
      exact Option.some.inj hRest ▸ .client hClient (.reads cnt (isCalling_iff.mp hThere.1))
    · cases hRest
  | ends k =>
    simp only [step, Option.bind_eq_bind, Option.bind_eq_some_iff] at hStep
    obtain ⟨c, hClient, hRest⟩ := hStep
    split at hRest
    · rename_i hThere
      obtain ⟨hCalling, -, hDown, hHungUp⟩ := hThere
      exact Option.some.inj hRest ▸ .ends hClient (isCalling_iff.mp hCalling) hDown hHungUp
    · cases hRest
  | fails k exchange =>
    simp only [step, Option.bind_eq_bind, Option.bind_eq_some_iff] at hStep
    obtain ⟨c, hClient, hRest⟩ := hStep
    split at hRest
    · rename_i hThere
      exact Option.some.inj hRest ▸ .client hClient (.fails hThere.2)
    · cases hRest
  | leave k =>
    simp only [step, Option.bind_eq_bind, Option.bind_eq_some_iff] at hStep
    obtain ⟨c, hClient, hRest⟩ := hStep
    split at hRest
    · cases hRest
    · exact Option.some.inj hRest ▸ .client hClient .leaves

-- ---------------------------------------------------------------------------
-- The invariant
-- ---------------------------------------------------------------------------

/-- What a client has, by its connection. -/
def Linked (rj : Rapidjson) (service : Service) (c : Client) : Prop :=
  match c.link with
  | .none => True
  | .waiting => c.Intact → c.received = [] ∧ c.Sends rj []
  | .opened i before => ∃ v, service.workers[i]? = some v ∧ v.pc.Connected ∧
      (c.Intact → v.Fits rj before c)
  | .closed i before => ∃ v, service.workers[i]? = some v ∧ (c.Intact → v.Done rj before c)

/-- A worker has one connection at a time, and no two calls the same request. -/
structure Distinct (clients : List Client) : Prop where
  one : ∀ (k k' : Nat) (c c' : Client) (i before before' : Nat), clients[k]? = some c →
    clients[k']? = some c' → c.link = .opened i before → c'.link = .opened i before' → k = k'
  apart : ∀ (k k' : Nat) (c c' : Client) (i before before' : Nat), clients[k]? = some c →
    clients[k']? = some c' → k ≠ k' → c.Intact → c'.Intact → c.link = .closed i before →
    c'.link = .opened i before' ∨ c'.link = .closed i before' → before ≠ before'

/-- A call that has returned, at the end of the stream or because a call on the socket has
failed. -/
def Returned (s : Session) (c : Client) : Prop :=
  ∀ exchange outcome, c.pc = .returned exchange outcome →
    (exchange = .received c.chunks ∧ c.down = [] ∧ s.hungUp c.link = true) ∨
      exchange.Failed ∧ outcome.error.isError = true ∧ outcome.tasks = c.tasks

structure Inv (rj : Rapidjson) (pathEnv : Option Str) (config : Config) (s : Session) : Prop where
  reach : Reachable (Service.step rj pathEnv config) Service.initial s.service
  linked : ∀ (k : Nat) (c : Client), s.clients[k]? = some c → Linked rj s.service c
  distinct : Distinct s.clients
  returned : ∀ (k : Nat) (c : Client), s.clients[k]? = some c → s.Returned c
  reads : ∀ (k : Nat) (c : Client), s.clients[k]? = some c → c.Intact →
    rj.ReadsBack (requestDocument c.tasks)

theorem getElem?_set_cases {clients : List Client} {k j : Nat} {c d : Client}
    (h : (clients.set k c)[j]? = some d) : j = k ∧ d = c ∨ j ≠ k ∧ clients[j]? = some d := by
  rcases eq_or_ne j k with rfl | hNe
  · refine .inl ⟨rfl, ?_⟩
    rw [List.getElem?_set] at h
    split at h
    · split at h
      · exact (Option.some.inj h).symm
      · cases h
    · rename_i hNot
      exact absurd rfl hNot
  · rw [List.getElem?_set_ne hNe.symm] at h
    exact .inr ⟨hNe, h⟩

/-- A client whose connection is the same, and which is no more intact than before. -/
theorem Distinct.set {clients : List Client} {k : Nat} {c c' : Client} (h : Distinct clients)
    (hClient : clients[k]? = some c) (hLink : c'.link = c.link) (hIntact : c'.Intact → c.Intact) :
    Distinct (clients.set k c') := by
  have hOld : ∀ {j : Nat} {d : Client}, (clients.set k c')[j]? = some d → ∃ old,
      clients[j]? = some old ∧ d.link = old.link ∧ (d.Intact → old.Intact) := by
    intro j d hSome
    rcases getElem?_set_cases hSome with ⟨rfl, rfl⟩ | ⟨-, hSome'⟩
    · exact ⟨c, hClient, hLink, hIntact⟩
    · exact ⟨d, hSome', rfl, id⟩
  constructor
  · intro j j' d d' i before before' hd hd' hLinkD hLinkD'
    obtain ⟨old, hOldD, hSame, -⟩ := hOld hd
    obtain ⟨old', hOldD', hSame', -⟩ := hOld hd'
    exact h.one j j' old old' i before before' hOldD hOldD' (hSame ▸ hLinkD) (hSame' ▸ hLinkD')
  · intro j j' d d' i before before' hd hd' hNe hIn hIn' hClosed hOther
    obtain ⟨old, hOldD, hSame, hKept⟩ := hOld hd
    obtain ⟨old', hOldD', hSame', hKept'⟩ := hOld hd'
    exact h.apart j j' old old' i before before' hOldD hOldD' hNe (hKept hIn) (hKept' hIn')
      (hSame ▸ hClosed) (hSame' ▸ hOther)

/-- A worker that does not serve the client makes a step, or grows. -/
theorem Linked.still {service service' : Service} (h : Linked rj service c)
    (hWorkers : ∀ j v, service.workers[j]? = some v → ∃ v', service'.workers[j]? = some v' ∧
      v.worker.Grows v'.worker ∧
      ∀ before, c.link = .opened j before → v'.pc = v.pc ∧ v'.worker = v.worker) :
    Linked rj service' c := by
  unfold Linked at h ⊢
  cases hLink : c.link with
  | none => trivial
  | waiting =>
    simp only [hLink] at h
    exact h
  | opened i before =>
    simp only [hLink] at h
    obtain ⟨v, hWorker, hConnected, hFits⟩ := h
    obtain ⟨v', hWorker', -, hSame⟩ := hWorkers i v hWorker
    obtain ⟨hPc, hEq⟩ := hSame before hLink
    refine ⟨v', hWorker', hPc ▸ hConnected, fun hIntact => ?_⟩
    exact (Server.fits_congr hPc hEq rfl rfl rfl).mpr (hFits hIntact)
  | closed i before =>
    simp only [hLink] at h
    obtain ⟨v, hWorker, hDone⟩ := h
    obtain ⟨v', hWorker', hGrows, -⟩ := hWorkers i v hWorker
    refine ⟨v', hWorker', fun hIntact => ?_⟩
    obtain ⟨records, hAnswers, hReceived⟩ := hDone hIntact
    exact ⟨records, hAnswers.grows hGrows, hReceived⟩

/-- The other end stays hung up. -/
theorem hungUp_step {t : Session} {act : ServiceAct} {link : Link}
    (hStep : s.service.step rj pathEnv config act = some t.service) (h : s.hungUp link = true) :
    t.hungUp link = true := by
  cases link with
  | none | waiting => exact h
  | closed i before => rfl
  | opened i before =>
    simp only [hungUp, Option.any_eq_true] at h ⊢
    obtain ⟨v, hWorker, hEnded⟩ := h
    obtain ⟨v', hWorker', -, hKept, -⟩ := Service.step_keeps hStep hWorker
    exact ⟨v', hWorker', by simpa using hKept (by simpa using hEnded)⟩

theorem Returned.keeps {t : Session} {act : ServiceAct} (h : s.Returned c)
    (hStep : s.service.step rj pathEnv config act = some t.service) : t.Returned c := by
  intro exchange outcome hPc
  rcases h exchange outcome hPc with ⟨hExchange, hDown, hHungUp⟩ | hFailed
  · exact .inl ⟨hExchange, hDown, hungUp_step hStep hHungUp⟩
  · exact .inr hFailed

/-- The client goes on, or is no longer intact. -/
theorem Linked.congr {service : Service} {c' : Client} (h : Linked rj service c)
    (hLink : c'.link = c.link) (hTasks : c'.tasks = c.tasks)
    (hKept : c'.Intact → c.Intact ∧ c'.received = c.received ∧
      c'.up ++ c'.unsent = c.up ++ c.unsent) : Linked rj service c' := by
  unfold Linked at h ⊢
  rw [hLink]
  cases hPlace : c.link with
  | none => trivial
  | waiting =>
    simp only [hPlace] at h
    intro hIntact
    obtain ⟨hOld, hReceived, hSends⟩ := hKept hIntact
    unfold Client.Sends
    rw [hReceived, hTasks, hSends]
    exact h hOld
  | opened i before =>
    simp only [hPlace] at h
    obtain ⟨v, hWorker, hConnected, hFits⟩ := h
    refine ⟨v, hWorker, hConnected, fun hIntact => ?_⟩
    obtain ⟨hOld, hReceived, hSends⟩ := hKept hIntact
    exact (Server.fits_congr rfl rfl hTasks hReceived hSends).mpr (hFits hOld)
  | closed i before =>
    simp only [hPlace] at h
    obtain ⟨v, hWorker, hDone⟩ := h
    refine ⟨v, hWorker, fun hIntact => ?_⟩
    obtain ⟨hOld, hReceived, -⟩ := hKept hIntact
    unfold Server.Done
    rw [hReceived, hTasks]
    exact hDone hOld

-- ---------------------------------------------------------------------------
-- Steps
-- ---------------------------------------------------------------------------

/-- The daemon makes a step, or somebody connects. -/
theorem Inv.others (h : s.Inv rj pathEnv config) {service : Service} {act : ServiceAct}
    (hStep : s.service.step rj pathEnv config act = some service)
    (hNot : ∀ i wa, act ≠ .worker i wa) : { s with service }.Inv rj pathEnv config where
  reach := h.reach.snoc hStep
  linked k c hClient := (h.linked k c hClient).still fun j v hWorker => by
    obtain ⟨v', hWorker', hGrows, -, hSame⟩ := Service.step_keeps hStep hWorker
    exact ⟨v', hWorker', hGrows, fun _ _ => hSame (hNot j)⟩
  distinct := h.distinct
  returned k c hClient := (h.returned k c hClient).keeps hStep
  reads := h.reads

/-- One more client, which no worker serves. -/
theorem Inv.joins (h : s.Inv rj pathEnv config) (hLink : c.link = .none ∨ c.link = .waiting)
    (hLinked : Linked rj s.service c) (hReturned : s.Returned c)
    (hReads : c.Intact → rj.ReadsBack (requestDocument c.tasks)) :
    { s with clients := s.clients ++ [c] }.Inv rj pathEnv config := by
  have hAlone : ∀ i before, c.link ≠ .opened i before ∧ c.link ≠ .closed i before := by
    rcases hLink with hNone | hWaits
    · simp [hNone]
    · simp [hWaits]
  have hCases : ∀ {k : Nat} {d : Client}, (s.clients ++ [c])[k]? = some d →
      s.clients[k]? = some d ∨ d = c := by
    intro k d hSome
    rcases Nat.lt_or_ge k s.clients.length with hOld | hLast
    · rw [List.getElem?_append_left hOld] at hSome
      exact .inl hSome
    · rw [List.getElem?_append_right hLast] at hSome
      exact .inr (List.mem_singleton.mp (List.mem_of_getElem? hSome))
  have hOpened : ∀ {k : Nat} {d : Client} {i before : Nat}, (s.clients ++ [c])[k]? = some d →
      d.link = .opened i before → s.clients[k]? = some d := by
    intro k d i before hSome hOpen
    rcases hCases hSome with hOld | rfl
    · exact hOld
    · exact absurd hOpen (hAlone i before).1
  have hClosed : ∀ {k : Nat} {d : Client} {i before : Nat}, (s.clients ++ [c])[k]? = some d →
      d.link = .closed i before → s.clients[k]? = some d := by
    intro k d i before hSome hShut
    rcases hCases hSome with hOld | rfl
    · exact hOld
    · exact absurd hShut (hAlone i before).2
  refine ⟨h.reach, fun k d hSome => ?_, ⟨?_, ?_⟩, fun k d hSome => ?_, fun k d hSome => ?_⟩
  · rcases hCases hSome with hOld | rfl
    · exact h.linked k d hOld
    · exact hLinked
  · intro k k' d d' i before before' hd hd' hOpen hOpen'
    exact h.distinct.one k k' d d' i before before' (hOpened hd hOpen) (hOpened hd' hOpen')
      hOpen hOpen'
  · intro k k' d d' i before before' hd hd' hNe hIn hIn' hShut hOther
    exact h.distinct.apart k k' d d' i before before' (hClosed hd hShut)
      (hOther.elim (hOpened hd') (hClosed hd')) hNe hIn hIn' hShut hOther
  · rcases hCases hSome with hOld | rfl
    · exact h.returned k d hOld
    · exact hReturned
  · rcases hCases hSome with hOld | rfl
    · exact h.reads k d hOld
    · exact hReads

theorem Inv.connects (h : s.Inv rj pathEnv config)
    (hNew : c = { pc := .stranger } ∨
      ∃ process tasks, rj.ReadsBack (requestDocument tasks) ∧ c = .call rj process tasks) :
    { s with clients := s.clients ++ [c] }.Inv rj pathEnv config := by
  rcases hNew with rfl | ⟨process, tasks, hReads, rfl⟩
  · exact h.joins (.inr rfl) (fun hIntact => hIntact.elim) (fun _ _ hPc => by cases hPc)
      fun hIntact => hIntact.elim
  · exact h.joins (.inr rfl) (fun _ => ⟨rfl, rfl⟩) (fun _ _ hPc => by cases hPc) fun _ => hReads

/-- A call of the socket that fails. -/
theorem runTogether_failed (tasks : List Task) (validator : Option SchemaValidator)
    {exchange : Exchange} (hFailed : exchange.Failed) :
    (runTogether rj tasks exchange validator).1.error.isError = true ∧
      (runTogether rj tasks exchange validator).1.tasks = tasks := by
  cases exchange with
  | received chunks => exact hFailed.elim
  | _ => exact ⟨rfl, rfl⟩

/-- A client that returns from such a call. -/
theorem returned_failed (s : Session) (c : Client) (validator : Option SchemaValidator)
    {exchange : Exchange} (hFailed : exchange.Failed) :
    s.Returned (c.returns rj validator exchange) ∧ ¬ (c.returns rj validator exchange).Intact := by
  constructor
  · intro exchange' outcome hPc
    obtain ⟨rfl, rfl⟩ := ClientAt.returned.inj hPc
    exact .inr ⟨hFailed, runTogether_failed c.tasks validator hFailed⟩
  · cases exchange with
    | received chunks => exact hFailed.elim
    | _ => exact id

theorem failed_of_isUnconnected {exchange : Exchange} (h : exchange.isUnconnected = true) :
    exchange.Failed := by
  cases exchange with
  | received chunks => cases h
  | _ => trivial

theorem failed_of_isCutOff {exchange : Exchange} {unsent : Str}
    (h : exchange.isCutOff unsent = true) : exchange.Failed := by
  cases exchange with
  | received chunks => cases h
  | _ => trivial

theorem Inv.cannotConnect (h : s.Inv rj pathEnv config) {process : Nat} {tasks : List Task}
    {exchange : Exchange} (hUnconnected : exchange.isUnconnected = true) :
    { s with clients := s.clients ++
      [Client.returns rj (s.validators process) exchange { process, tasks, link := .none }] }.Inv
      rj pathEnv config := by
  obtain ⟨hReturned, hNot⟩ := @returned_failed rj s { process, tasks, link := .none }
    (s.validators process) exchange (failed_of_isUnconnected hUnconnected)
  exact h.joins (.inl rfl) trivial hReturned fun hIntact => absurd hIntact hNot

theorem client_kept {c' : Client} (h : c.Moves rj s c') : c'.link = c.link ∧
    c'.tasks = c.tasks ∧ (c'.Intact → c.Intact ∧ c'.received = c.received ∧
      c'.up ++ c'.unsent = c.up ++ c.unsent) := by
  cases h with
  | sends cnt hCalling =>
    refine ⟨rfl, rfl, fun hIntact => ⟨hIntact, rfl, ?_⟩⟩
    show (c.up ++ c.unsent.take cnt) ++ c.unsent.drop cnt = _
    rw [List.append_assoc, List.take_append_drop]
  | babbles bytes hStranger =>
    refine ⟨rfl, rfl, fun hIntact => ?_⟩
    simp only [Client.Intact, hStranger] at hIntact
  | reads cnt hCalling =>
    refine ⟨rfl, rfl, fun hIntact => ⟨hIntact, ?_, rfl⟩⟩
    show (c.chunks ++ [c.down.take cnt]).flatten ++ c.down.drop cnt = c.chunks.flatten ++ c.down
    rw [List.flatten_append, List.flatten_singleton, List.append_assoc, List.take_append_drop]
  | fails hCutOff =>
    refine ⟨rfl, rfl, fun hIntact => absurd hIntact ?_⟩
    exact (returned_failed s c (s.validators c.process) (failed_of_isCutOff hCutOff)).2
  | leaves => exact ⟨rfl, rfl, fun hIntact => hIntact.elim⟩

/-- A client that has the same connection, and of the bytes what it had. -/
theorem Inv.set (h : s.Inv rj pathEnv config) {c' : Client} (hClient : s.clients[k]? = some c)
    (hLink : c'.link = c.link) (hTasks : c'.tasks = c.tasks)
    (hKept : c'.Intact → c.Intact ∧ c'.received = c.received ∧
      c'.up ++ c'.unsent = c.up ++ c.unsent) (hReturned : s.Returned c') :
    (s.setClient k c').Inv rj pathEnv config := by
  refine ⟨h.reach, fun j d hSome => ?_, h.distinct.set hClient hLink fun hIn => (hKept hIn).1,
    fun j d hSome => ?_, fun j d hSome => ?_⟩
  all_goals rcases getElem?_set_cases hSome with ⟨rfl, rfl⟩ | ⟨-, hSome'⟩
  · exact (h.linked j c hClient).congr hLink hTasks hKept
  · exact h.linked j d hSome'
  · exact hReturned
  · exact h.returned j d hSome'
  · intro hIntact
    rw [hTasks]
    exact h.reads j c hClient (hKept hIntact).1
  · exact h.reads j d hSome'

theorem Inv.client (h : s.Inv rj pathEnv config) {c' : Client} (hClient : s.clients[k]? = some c)
    (hMoves : c.Moves rj s c') : (s.setClient k c').Inv rj pathEnv config := by
  obtain ⟨hLink, hTasks, hKept⟩ := client_kept hMoves
  refine h.set hClient hLink hTasks hKept ?_
  cases hMoves with
  | fails hCutOff =>
    exact (returned_failed s c (s.validators c.process) (failed_of_isCutOff hCutOff)).1
  | sends cnt hCalling | reads cnt hCalling =>
    intro exchange outcome hPc
    simp [hCalling] at hPc
  | babbles bytes hStranger =>
    intro exchange outcome hPc
    simp [hStranger] at hPc
  | leaves =>
    intro exchange outcome hPc
    cases hPc

/-- A call returns at the end of the stream. -/
theorem Inv.ends (h : s.Inv rj pathEnv config) (hClient : s.clients[k]? = some c)
    (hCalling : c.pc = .calling) (hDown : c.down = []) (hHungUp : s.hungUp c.link = true) :
    (s.setClient k (c.returns rj (s.validators c.process) (.received c.chunks))).Inv
      rj pathEnv config := by
  refine h.set hClient rfl rfl (fun _ => ⟨?_, rfl, rfl⟩) fun exchange outcome hPc => ?_
  · simp only [Client.Intact, hCalling]
  · exact .inl ⟨(ClientAt.returned.inj hPc).1.symm, hDown, hHungUp⟩

/-- A worker makes a step with its client, whom nobody else has. -/
theorem Inv.serves (h : s.Inv rj pathEnv config) {i before : Nat} {wa : ServeAct}
    {service : Service} {c' : Client}
    (hStep : s.service.step rj pathEnv config (.worker i wa) = some service)
    (hOthers : ∀ (j : Nat) (d : Client) (b : Nat), s.clients[j]? = some d →
      d.link = .opened i b → j = k)
    (hLink : c'.link = .opened i before) (hLinked : Linked rj service c')
    (hDistinct : Distinct (s.clients.set k c')) (hReads : c'.Intact → rj.ReadsBack (requestDocument c'.tasks))
    (hReturned : { s.setClient k c' with service }.Returned c') :
    { s.setClient k c' with service }.Inv rj pathEnv config := by
  refine ⟨h.reach.snoc hStep, fun j d hSome => ?_, hDistinct, fun j d hSome => ?_, fun j d hSome => ?_⟩
  all_goals rcases getElem?_set_cases hSome with ⟨rfl, rfl⟩ | ⟨hNe, hSome'⟩
  · exact hLinked
  · refine (h.linked j d hSome').still fun m v hWorker => ?_
    obtain ⟨v', hWorker', hGrows, -, hSame⟩ := Service.step_keeps hStep hWorker
    refine ⟨v', hWorker', hGrows, fun b hOpen => hSame fun a hAct => ?_⟩
    obtain ⟨rfl, -⟩ := ServiceAct.worker.inj hAct
    exact hNe (hOthers j d b hSome' hOpen)
  · exact hReturned
  · exact (h.returned j d hSome').keeps hStep
  · exact hReads
  · exact h.reads j d hSome'

/-- Whom the worker serves. -/
theorem Inv.opened (h : s.Inv rj pathEnv config) {i before : Nat} {v : Server}
    (hClient : s.clients[k]? = some c) (hLink : c.link = .opened i before)
    (hWorker : s.service.workers[i]? = some v) :
    v.pc.Connected ∧ (c.Intact → v.Fits rj before c) := by
  have hLinked := h.linked k c hClient
  simp only [Linked, hLink] at hLinked
  obtain ⟨w, hThere, hConnected, hFits⟩ := hLinked
  obtain rfl := Option.some.inj (hThere.symm.trans hWorker)
  exact ⟨hConnected, hFits⟩

/-- A call that returns at the end of the stream. -/
theorem Inv.received (h : s.Inv rj pathEnv config) {chunks : List Str} {outcome : Outcome}
    (hClient : s.clients[k]? = some c) (hPc : c.pc = .returned (.received chunks) outcome) :
    chunks = c.chunks ∧ c.down = [] ∧ s.hungUp c.link = true := by
  rcases h.returned k c hClient _ outcome hPc with ⟨hExchange, hRest⟩ | ⟨hFailed, -⟩
  · exact ⟨Exchange.received.inj hExchange, hRest⟩
  · exact hFailed.elim

/-- It does so only when its worker has closed the connection or ended. -/
theorem Inv.ended (h : s.Inv rj pathEnv config) {i before : Nat} {v : Server} {chunks : List Str}
    {outcome : Outcome} (hClient : s.clients[k]? = some c) (hLink : c.link = .opened i before)
    (hWorker : s.service.workers[i]? = some v)
    (hPc : c.pc = .returned (.received chunks) outcome) : v.pc.Ended := by
  have hHungUp := (h.received hClient hPc).2.2
  simpa [hungUp, hLink, hWorker] using hHungUp

theorem Distinct.accept {clients : List Client} {i before : Nat} (h : Distinct clients)
    (hNone : ∀ (j : Nat) (d : Client) (b : Nat), clients[j]? = some d → d.link ≠ .opened i b)
    (hOld : ∀ (j : Nat) (d : Client) (b : Nat), clients[j]? = some d → d.Intact →
      d.link = .closed i b → b ≠ before) :
    Distinct (clients.set k { c with link := .opened i before }) := by
  constructor
  · intro j j' d d' m b b' hd hd' hOpen hOpen'
    rcases getElem?_set_cases hd with ⟨rfl, rfl⟩ | ⟨-, hOldD⟩ <;>
      rcases getElem?_set_cases hd' with ⟨rfl, rfl⟩ | ⟨-, hOldD'⟩
    · rfl
    · obtain ⟨rfl, -⟩ := Link.opened.inj hOpen
      exact absurd hOpen' (hNone j' d' b' hOldD')
    · obtain ⟨rfl, -⟩ := Link.opened.inj hOpen'
      exact absurd hOpen (hNone j d b hOldD)
    · exact h.one j j' d d' m b b' hOldD hOldD' hOpen hOpen'
  · intro j j' d d' m b b' hd hd' hNe hIn hIn' hClosed hOther
    rcases getElem?_set_cases hd with ⟨rfl, rfl⟩ | ⟨-, hOldD⟩
    · cases hClosed
    · rcases getElem?_set_cases hd' with ⟨rfl, rfl⟩ | ⟨-, hOldD'⟩
      · rcases hOther with hOther | hOther
        · obtain ⟨rfl, rfl⟩ := Link.opened.inj hOther
          exact hOld j d b hOldD hIn hClosed
        · cases hOther
      · exact h.apart j j' d d' m b b' hOldD hOldD' hNe hIn hIn' hClosed hOther

theorem Inv.accepts (h : s.Inv rj pathEnv config) {i : Nat} {v : Server} {service : Service}
    (hClient : s.clients[k]? = some c) (hWorker : s.service.workers[i]? = some v)
    (hWaits : c.link = .waiting)
    (hStep : s.service.step rj pathEnv config (.worker i .connection) = some service) :
    { s.setClient k { c with link := .opened i v.worker.valid.length } with service }.Inv
      rj pathEnv config := by
  obtain ⟨w, v', hThere, hMove, hService⟩ := Service.step_worker_eq hStep
  obtain rfl := Option.some.inj (hThere.symm.trans hWorker)
  cases Server.step_moves hMove with
  | connection hPc =>
    have hNone : ∀ (j : Nat) (d : Client) (b : Nat), s.clients[j]? = some d →
        d.link ≠ .opened i b := by
      intro j d b hSome hOpen
      have hConnected := (h.opened hSome hOpen hWorker).1
      rw [hPc] at hConnected
      exact hConnected
    refine h.serves hStep (fun j d b hSome hOpen => absurd hOpen (hNone j d b hSome)) rfl ?_
      (h.distinct.accept hNone ?_) (h.reads k c hClient) ?_
    · have hWorker' : service.workers[i]? = some
          { w with pc := .restartCalls, accepted := w.accepted + 1 } := by
        rw [hService]
        exact Service.setWorker_workers _ hThere
      refine ⟨_, hWorker', trivial, fun hIntact => ⟨rfl, ?_⟩⟩
      have hLinked := h.linked k c hClient
      simp only [Linked, hWaits] at hLinked
      exact hLinked hIntact
    · intro j d b hSome hIntact hClosed hEq
      have hLinked := h.linked j d hSome
      simp only [Linked, hClosed] at hLinked
      obtain ⟨u, hSame, hDone⟩ := hLinked
      obtain rfl := Option.some.inj (hSame.symm.trans hWorker)
      obtain ⟨records, hAnswers, -⟩ := hDone hIntact
      have hLt := (List.getElem?_eq_some_iff.mp hAnswers.request).1
      omega
    · intro exchange outcome hPc
      rcases h.returned k c hClient exchange outcome hPc with ⟨-, -, hHungUp⟩ | hFailed
      · rw [hWaits] at hHungUp
        cases hHungUp
      · exact .inr hFailed

theorem Inv.receives (h : s.Inv rj pathEnv config) {i cnt before : Nat} {service : Service}
    (hClient : s.clients[k]? = some c) (hLink : c.link = .opened i before)
    (hLe : cnt ≤ c.up.length) (hEnd : cnt = 0 → c.pc ≠ .calling)
    (hStep : s.service.step rj pathEnv config (.worker i (.received (c.up.take cnt))) =
      some service) :
    { s.setClient k { c with up := c.up.drop cnt } with service }.Inv rj pathEnv config := by
  obtain ⟨v, v', hWorker, hMove, hService⟩ := Service.step_worker_eq hStep
  obtain ⟨hConnected, hFits⟩ := h.opened hClient hLink hWorker
  obtain ⟨request, hPc⟩ : ∃ request, v.pc = .recv request := by
    cases Server.step_moves hMove with
    | receives hPc => exact ⟨_, hPc⟩
  refine h.serves hStep (fun j d b hSome hOpen => ?_) hLink ?_ (h.distinct.set hClient rfl id)
    (h.reads k c hClient) ((h.returned k c hClient).keeps hStep)
  · exact h.distinct.one j k d c i b before hSome hClient hOpen hLink
  · have hWorker' : service.workers[i]? = some v' := by
      rw [hService]
      exact Service.setWorker_workers _ hWorker
    have hInv := (Service.paired_of_service h.reach v (List.mem_of_getElem? hWorker)).1
    simp only [Linked, hLink]
    refine ⟨v', hWorker', Server.connected_step hInv (by simp) hMove hConnected, fun hIntact => ?_⟩
    refine (hFits hIntact).receives hPc (fun hNothing => ?_) (List.take_append_drop cnt c.up).symm hMove
    -- the end of the stream does not come from a client that is intact
    have hZero : cnt = 0 := by
      have hLength := congrArg List.length hNothing
      rw [List.length_take, List.length_nil] at hLength
      omega
    have hNot := hIntact
    unfold Client.Intact at hNot
    split at hNot
    · rename_i hPlace
      exact hEnd hZero hPlace
    · rename_i hPlace
      have hEnded := h.ended hClient hLink hWorker hPlace
      rw [hPc] at hEnded
      simp [ServeAt.Ended] at hEnded
    · exact hNot

theorem Inv.transfers (h : s.Inv rj pathEnv config) {i cnt before old : Nat} {v : Server}
    {response : Str} {service : Service} (hClient : s.clients[k]? = some c)
    (hWorker : s.service.workers[i]? = some v) (hLink : c.link = .opened i before)
    (hPc : v.pc = .write response old)
    (hStep : s.service.step rj pathEnv config (.worker i (.transfer cnt)) = some service) :
    { s.setClient k { c with down := c.down ++ (response.drop old).take cnt } with service }.Inv
      rj pathEnv config := by
  obtain ⟨w, v', hThere, hMove, hService⟩ := Service.step_worker_eq hStep
  obtain rfl := Option.some.inj (hThere.symm.trans hWorker)
  obtain ⟨hConnected, hFits⟩ := h.opened hClient hLink hWorker
  refine h.serves hStep (fun j d b hSome hOpen => ?_) hLink ?_ (h.distinct.set hClient rfl id)
    (h.reads k c hClient) ?_
  · exact h.distinct.one j k d c i b before hSome hClient hOpen hLink
  · have hWorker' : service.workers[i]? = some v' := by
      rw [hService]
      exact Service.setWorker_workers _ hWorker
    have hInv := (Service.paired_of_service h.reach w (List.mem_of_getElem? hWorker)).1
    simp only [Linked, hLink]
    exact ⟨v', hWorker', Server.connected_step hInv (by simp) hMove hConnected,
      fun hIntact => (hFits hIntact).transfers hPc hMove⟩
  · intro exchange outcome hReturned
    rcases h.returned k c hClient exchange outcome hReturned with ⟨rfl, -⟩ | hFailed
    · have hEnded := h.ended hClient hLink hWorker hReturned
      rw [hPc] at hEnded
      simp [ServeAt.Ended] at hEnded
    · exact .inr hFailed

-- ---------------------------------------------------------------------------
-- A connection is closed
-- ---------------------------------------------------------------------------

theorem hangUp_of_opened {i before : Nat} (hLink : c.link = .opened i before) :
    c.hangUp i = { c with link := .closed i before } := by
  unfold Client.hangUp
  rw [hLink]
  exact if_pos rfl

theorem hangUp_of_other {i : Nat} (hOther : ∀ before, c.link ≠ .opened i before) :
    c.hangUp i = c := by
  unfold Client.hangUp
  cases hLink : c.link with
  | opened j before =>
    refine if_neg ?_
    rintro rfl
    exact hOther before hLink
  | _ => rfl

theorem hangUp_pc (i : Nat) (c : Client) : (c.hangUp i).pc = c.pc := by
  unfold Client.hangUp
  split
  · split <;> rfl
  · rfl

theorem hangUp_tasks (i : Nat) (c : Client) : (c.hangUp i).tasks = c.tasks := by
  unfold Client.hangUp
  split
  · split <;> rfl
  · rfl

/-- What the connection was before. -/
theorem hangUp_link {i : Nat} {link : Link} (h : (c.hangUp i).link = link) :
    c.link = link ∨ ∃ before, c.link = .opened i before ∧ link = .closed i before := by
  by_cases hOpen : ∃ before, c.link = .opened i before
  · obtain ⟨before, hLink⟩ := hOpen
    rw [hangUp_of_opened hLink] at h
    exact .inr ⟨before, hLink, h.symm⟩
  · rw [hangUp_of_other fun before hLink => hOpen ⟨before, hLink⟩] at h
    exact .inl h

theorem Distinct.hangUp {clients : List Client} (h : Distinct clients) (i : Nat) :
    Distinct (clients.map (Client.hangUp i)) := by
  have hOld : ∀ {k : Nat} {d : Client}, (clients.map (Client.hangUp i))[k]? = some d → ∃ old,
      clients[k]? = some old ∧ (d.Intact → old.Intact) ∧ (d.link = old.link ∨
        ∃ before, old.link = .opened i before ∧ d.link = .closed i before) := by
    intro k d hSome
    rw [List.getElem?_map] at hSome
    obtain ⟨old, hThere, rfl⟩ := Option.map_eq_some_iff.mp hSome
    refine ⟨old, hThere, fun hIntact => ?_, (hangUp_link rfl).imp_left Eq.symm⟩
    unfold Client.Intact at hIntact ⊢
    rwa [hangUp_pc] at hIntact
  constructor
  · intro k k' d d' m before before' hd hd' hOpen hOpen'
    obtain ⟨old, hThere, -, hSame | ⟨b, -, hClosed⟩⟩ := hOld hd
    · obtain ⟨old', hThere', -, hSame' | ⟨b, -, hClosed⟩⟩ := hOld hd'
      · exact h.one k k' old old' m before before' hThere hThere' (hSame ▸ hOpen) (hSame' ▸ hOpen')
      · rw [hClosed] at hOpen'
        cases hOpen'
    · rw [hClosed] at hOpen
      cases hOpen
  · intro k k' d d' m before before' hd hd' hNe hIn hIn' hClosed hOther
    obtain ⟨old, hThere, hKept, hLink⟩ := hOld hd
    obtain ⟨old', hThere', hKept', hLink'⟩ := hOld hd'
    -- the other one has been served by the same worker before the step
    have hServed : old'.link = .opened m before' ∨ old'.link = .closed m before' := by
      rcases hLink' with hSame' | ⟨b, hOpen, hNow⟩
      · rwa [hSame'] at hOther
      · rw [hNow] at hOther
        obtain ⟨rfl, rfl⟩ := Link.closed.inj (hOther.resolve_left (by simp))
        exact .inl hOpen
    rcases hLink with hSame | ⟨b, hOpen, hNow⟩
    · exact h.apart k k' old old' m before before' hThere hThere' hNe (hKept hIn) (hKept' hIn')
        (hSame ▸ hClosed) hServed
    · rw [hNow] at hClosed
      obtain ⟨rfl, rfl⟩ := Link.closed.inj hClosed
      rcases hServed with hOpen' | hClosed'
      · exact absurd (h.one k k' old old' i b before' hThere hThere' hOpen hOpen') hNe
      · exact (h.apart k' k old' old i before' b hThere' hThere hNe.symm (hKept' hIn') (hKept hIn)
          hClosed' (.inl hOpen)).symm

theorem Inv.closes (h : s.Inv rj pathEnv config) {i : Nat} {v : Server} {service : Service}
    (hWorker : s.service.workers[i]? = some v) (hPc : v.pc = .close)
    (hStep : s.service.step rj pathEnv config (.worker i .next) = some service) :
    { s with service, clients := s.clients.map (Client.hangUp i) }.Inv rj pathEnv config := by
  have hOld : ∀ {k : Nat} {d : Client}, (s.clients.map (Client.hangUp i))[k]? = some d →
      ∃ old, s.clients[k]? = some old ∧ d = old.hangUp i := by
    intro k d hSome
    rw [List.getElem?_map] at hSome
    obtain ⟨old, hThere, rfl⟩ := Option.map_eq_some_iff.mp hSome
    exact ⟨old, hThere, rfl⟩
  refine ⟨h.reach.snoc hStep, fun k d hSome => ?_, h.distinct.hangUp i, fun k d hSome => ?_,
    fun k d hSome => ?_⟩
  all_goals
    obtain ⟨old, hThere, rfl⟩ := hOld hSome
    by_cases hOpen : ∃ before, old.link = .opened i before
  · obtain ⟨before, hLink⟩ := hOpen
    rw [hangUp_of_opened hLink]
    obtain ⟨v', hWorker', hGrows, -⟩ := Service.step_keeps hStep hWorker
    refine ⟨v', hWorker', fun hIntact => ?_⟩
    have hFits := (h.opened hThere hLink hWorker).2 hIntact
    simp only [Server.Fits, hPc] at hFits
    obtain ⟨records, hAnswers, hReceived⟩ := hFits
    exact ⟨records, hAnswers.grows hGrows, hReceived⟩
  · have hOther : ∀ before, old.link ≠ .opened i before := fun before hLink => hOpen ⟨before, hLink⟩
    rw [hangUp_of_other hOther]
    refine (h.linked k old hThere).still fun m w hAny => ?_
    obtain ⟨w', hWorker', hGrows, -, hSame⟩ := Service.step_keeps hStep hAny
    refine ⟨w', hWorker', hGrows, fun b hLink => hSame fun a hAct => ?_⟩
    obtain ⟨rfl, -⟩ := ServiceAct.worker.inj hAct
    exact hOther b hLink
  · obtain ⟨before, hLink⟩ := hOpen
    rw [hangUp_of_opened hLink]
    intro exchange outcome hReturned
    rcases h.returned k old hThere exchange outcome hReturned with ⟨hExchange, hDown, -⟩ | hFailed
    · exact .inl ⟨hExchange, hDown, rfl⟩
    · exact .inr hFailed
  · rw [hangUp_of_other fun before hLink => hOpen ⟨before, hLink⟩]
    exact (h.returned k old hThere).keeps hStep
  · obtain ⟨before, hLink⟩ := hOpen
    rw [hangUp_of_opened hLink]
    exact h.reads k old hThere
  · rw [hangUp_of_other fun before hLink => hOpen ⟨before, hLink⟩]
    exact h.reads k old hThere

/-- A worker makes a step that closes no connection. -/
theorem Inv.goesOn (h : s.Inv rj pathEnv config) {i : Nat} {wa : ServeAct} {v v' : Server}
    {service : Service} (hQuiet : onSocket wa = false) (hWorker : s.service.workers[i]? = some v)
    (hOpen : v.pc = .close → wa ≠ .next) {daemonAlive clients : Bool}
    (hMove : v.step rj pathEnv daemonAlive clients wa = some v')
    (hStep : s.service.step rj pathEnv config (.worker i wa) = some service)
    (hWorker' : service.workers[i]? = some v') :
    { s with service }.Inv rj pathEnv config := by
  obtain ⟨hInv, hPaired⟩ := Service.paired_of_service h.reach v (List.mem_of_getElem? hWorker)
  refine ⟨h.reach.snoc hStep, fun k c hClient => ?_, h.distinct,
    fun k c hClient => (h.returned k c hClient).keeps hStep, h.reads⟩
  by_cases hServed : ∃ before, c.link = .opened i before
  · obtain ⟨before, hLink⟩ := hServed
    obtain ⟨hConnected, hFits⟩ := h.opened hClient hLink hWorker
    simp only [Linked, hLink]
    exact ⟨v', hWorker', Server.connected_step hInv hOpen hMove hConnected, fun hIntact =>
      (hFits hIntact).step hInv hPaired (h.reads k c hClient hIntact) hQuiet hOpen hMove⟩
  · refine (h.linked k c hClient).still fun m w hAny => ?_
    obtain ⟨w', hThere, hGrows, -, hSame⟩ := Service.step_keeps hStep hAny
    refine ⟨w', hThere, hGrows, fun b hLink => hSame fun a hAct => ?_⟩
    obtain ⟨rfl, -⟩ := ServiceAct.worker.inj hAct
    exact hServed ⟨b, hLink⟩

theorem Inv.worker (h : s.Inv rj pathEnv config) {i : Nat} {wa : ServeAct} {service : Service}
    (hQuiet : onSocket wa = false)
    (hStep : s.service.step rj pathEnv config (.worker i wa) = some service) :
    Inv rj pathEnv config { s with
      service, clients := if s.closes i wa then s.clients.map (Client.hangUp i) else s.clients } := by
  obtain ⟨v, v', hWorker, hMove, hService⟩ := Service.step_worker_eq hStep
  have hWorker' : service.workers[i]? = some v' := by
    rw [hService]
    exact Service.setWorker_workers _ hWorker
  by_cases hClose : v.pc = .close ∧ wa = .next
  · obtain ⟨hPc, rfl⟩ := hClose
    have hCloses : s.closes i .next = true := by simp [Session.closes, hWorker, hPc]
    rw [if_pos hCloses]
    exact h.closes hWorker hPc hStep
  · have hOpen : v.pc = .close → wa ≠ .next := fun hPc hNext => hClose ⟨hPc, hNext⟩
    have hCloses : ¬ s.closes i wa = true := by
      cases wa with
      | next => simpa [Session.closes, hWorker] using fun hPc => hOpen hPc rfl
      | _ => simp [Session.closes]
    rw [if_neg hCloses]
    exact h.goesOn hQuiet hWorker hOpen hMove hStep hWorker'

/-- **Every step keeps the invariant.** rapidjson reads what the library has written. -/
theorem Inv.step (h : s.Inv rj pathEnv config)
    (hRj : ∀ process tasks, a = .call process tasks → rj.ReadsBack (requestDocument tasks))
    (hStep : s.step rj pathEnv config a = some s') : s'.Inv rj pathEnv config := by
  cases step_moves hStep with
  | daemon hService => exact h.others hService (by simp)
  | worker hQuiet hService => exact h.worker hQuiet hService
  | connects hNew hService =>
    refine (h.others hService (by simp)).connects (hNew.imp_right ?_)
    rintro ⟨process, tasks, hCall, rfl⟩
    exact ⟨process, tasks, hRj process tasks hCall, rfl⟩
  | cannotConnect hUnconnected => exact h.cannotConnect hUnconnected
  | accepts hClient hWorker hWaits hService => exact h.accepts hClient hWorker hWaits hService
  | receives hClient hLink hLe hEnd hService => exact h.receives hClient hLink hLe hEnd hService
  | transfers hClient hWorker hLink hPc hService =>
    exact h.transfers hClient hWorker hLink hPc hService
  | ends hClient hCalling hDown hHungUp =>
    have hEnds := h.ends hClient hCalling hDown hHungUp
    exact ⟨hEnds.reach, hEnds.linked, hEnds.distinct, hEnds.returned, hEnds.reads⟩
  | client hClient hMoves => exact h.client hClient hMoves

theorem inv_initial : ({} : Session).Inv rj pathEnv config := by
  refine ⟨⟨[], rfl⟩, fun k c hSome => ?_, ⟨?_, ?_⟩, fun k c hSome => ?_, fun k c hSome => ?_⟩
  · cases hSome
  · intro k k' c c' i before before' hSome
    cases hSome
  · intro k k' c c' i before before' hSome
    cases hSome
  · cases hSome
  · cases hSome

-- ---------------------------------------------------------------------------
-- What a call returns
-- ---------------------------------------------------------------------------

/-- The response could not be parsed. -/
theorem runTogether_unparsed {tasks : List Task} {chunks : List Str} {e : Str × Nat}
    (h : rj.parse (chunks.flatMap cstr) = .error e) :
    (runTogether rj tasks (.received chunks) none).1.error.isError = true ∧
      (runTogether rj tasks (.received chunks) none).1.tasks = tasks := by
  obtain ⟨text, offset⟩ := e
  have hRead : readResponse rj tasks (chunks.flatMap cstr) { schema := responseSchema } =
      ({ error := parseError text offset, tasks }, { schema := responseSchema }) := by
    simp [readResponse, h]
  simp only [runTogether, Option.getD_none, hRead, and_true]
  rfl

/-- rapidjson reads back the results, and nothing that is cut off. -/
structure ReadsWhole (rj : Rapidjson) (records : List Task) : Prop where
  readsBack : rj.ReadsBack (resultsDocument records)
  cutOff : ∀ text, text <+: rj.write (resultsDocument records) →
    text ≠ rj.write (resultsDocument records) → ∃ e, rj.parse text = .error e

/-- The call has the results `records`. -/
def outcomeOf (rj : Rapidjson) (c : Client) (records : List Task) : Outcome where
  error := {}
  tasks := List.zipWith Task.withResults c.tasks records
  sent := requestMessage rj c.tasks

/-- rapidjson does so with every response of the workers. -/
def ReadsAll (rj : Rapidjson) (s : Session) : Prop :=
  ∀ v ∈ s.service.workers, ∀ records ∈ v.worker.world.sys.responses, ReadsWhole rj records

/-- The worker of the call had ended before it closed the connection. -/
def Abandoned (s : Session) (c : Client) : Prop :=
  ∃ (i before : Nat) (v : Server), s.service.workers[i]? = some v ∧ c.link = .opened i before ∧
    v.pc.Ended

/-- The worker of the call has collected the results `records` for a request with the tasks
of the call. -/
def Collected (s : Session) (c : Client) (records : List Task) : Prop :=
  ∃ (i before : Nat) (v : Server), s.service.workers[i]? = some v ∧
    (c.link = .opened i before ∨ c.link = .closed i before) ∧
    v.worker.Answers before c.tasks records ∧
    records.map Task.parameters = (c.tasks.map Task.cut).map Task.parameters

theorem collected_of_answers (h : s.Inv rj pathEnv config) {i before : Nat} {v : Server}
    {records : List Task} (hWorker : s.service.workers[i]? = some v)
    (hLink : c.link = .opened i before ∨ c.link = .closed i before)
    (hAnswers : v.worker.Answers before c.tasks records) : s.Collected c records := by
  have hPaired := (Service.paired_of_service h.reach v (List.mem_of_getElem? hWorker)).2
  exact ⟨i, before, v, hWorker, hLink, hAnswers,
    hPaired.same before _ _ hAnswers.request hAnswers.response⟩

/-- What a client has at the end of the stream: a whole response, or something that
rapidjson does not read. -/
theorem Inv.stream (h : s.Inv rj pathEnv config) (hEmpty : ∃ e, rj.parse [] = .error e)
    (hRj : s.ReadsAll rj) (hClient : s.clients[k]? = some c) (hIntact : c.Intact)
    (hDown : c.down = []) (hHungUp : s.hungUp c.link = true) :
    (∃ records, s.Collected c records ∧ ReadsWhole rj records ∧
      c.chunks.flatten = cstr (rj.write (resultsDocument records))) ∨
    s.Abandoned c ∧ ∃ e, rj.parse (c.chunks.flatMap cstr) = .error e := by
  have hChunks : c.received = c.chunks.flatten := by rw [Client.received, hDown, List.append_nil]
  have hLinked := h.linked k c hClient
  cases hLink : c.link with
  | none | waiting =>
    rw [hLink] at hHungUp
    cases hHungUp
  | closed i before =>
    simp only [Linked, hLink] at hLinked
    obtain ⟨v, hWorker, hDone⟩ := hLinked
    obtain ⟨records, hAnswers, hReceived⟩ := hDone hIntact
    have hReads := hRj v (List.mem_of_getElem? hWorker) records (List.mem_of_getElem? hAnswers.response)
    exact .inl ⟨records, collected_of_answers h hWorker (.inr hLink) hAnswers, hReads,
      hChunks.symm.trans hReceived⟩
  | opened i before =>
    simp only [Linked, hLink] at hLinked
    obtain ⟨v, hWorker, -, hFits⟩ := hLinked
    have hAbandoned : s.Abandoned c := by
      refine ⟨i, before, v, hWorker, hLink, ?_⟩
      simpa [hungUp, hLink, hWorker] using hHungUp
    rcases (hFits hIntact).partly with hNone | ⟨records, hAnswers, hPrefix⟩
    · rw [hChunks] at hNone
      have hText : c.chunks.flatMap cstr = [] := by
        rw [flatMap_cstr (by rw [hNone]; exact List.not_mem_nil), hNone]
      exact .inr ⟨hAbandoned, by rwa [hText]⟩
    · have hReads := hRj v (List.mem_of_getElem? hWorker) records
        (List.mem_of_getElem? hAnswers.response)
      have hText : tasksReply rj records = rj.write (resultsDocument records) :=
        cstr_of_nul_free hReads.readsBack.nul_notMem
      by_cases hAll : c.received = tasksReply rj records
      · exact .inl ⟨records, collected_of_answers h hWorker (.inl hLink) hAnswers, hReads,
          hChunks.symm.trans hAll⟩
      · rw [hText, hChunks] at hPrefix hAll
        have hFree : (0 : UInt8) ∉ c.chunks.flatten := fun hIn =>
          hReads.readsBack.nul_notMem (hPrefix.subset hIn)
        exact .inr ⟨hAbandoned, by rw [flatMap_cstr hFree]; exact hReads.cutOff _ hPrefix hAll⟩

/-- What `run_together` makes of it. -/
theorem Inv.outcome (h : s.Inv rj pathEnv config) (hEmpty : ∃ e, rj.parse [] = .error e)
    (hRj : s.ReadsAll rj) (hClient : s.clients[k]? = some c) (hIntact : c.Intact)
    (hDown : c.down = []) (hHungUp : s.hungUp c.link = true) :
    (∃ records, s.Collected c records ∧
      (runTogether rj c.tasks (.received c.chunks) none).1 = outcomeOf rj c records) ∨
    s.Abandoned c ∧ (runTogether rj c.tasks (.received c.chunks) none).1.error.isError = true ∧
      (runTogether rj c.tasks (.received c.chunks) none).1.tasks = c.tasks := by
  rcases h.stream hEmpty hRj hClient hIntact hDown hHungUp with
    ⟨records, hCollected, hReads, hChunks⟩ | ⟨hAbandoned, e, hError⟩
  · obtain ⟨-, -, -, -, -, -, hSame⟩ := id hCollected
    have hLength : records.length = c.tasks.length := by simpa using congrArg List.length hSame
    exact .inl ⟨records, hCollected, runTogether_resultsDocument hLength hReads.readsBack hChunks⟩
  · exact .inr ⟨hAbandoned, runTogether_unparsed hError⟩

-- ---------------------------------------------------------------------------
-- The validators of the processes
-- ---------------------------------------------------------------------------

/-- No process has seen a response that violates the schema. -/
structure Clean (rj : Rapidjson) (s : Session) : Prop where
  validators : ∀ process, HoldsMessage (s.validators process) []
  returned : ∀ (k : Nat) (c : Client) (chunks : List Str) (outcome : Outcome),
    s.clients[k]? = some c → c.pc = .returned (.received chunks) outcome →
    outcome = (runTogether rj c.tasks (.received chunks) none).1

/-- A call of a process that has not seen one is like its first call. -/
theorem runTogether_clean {held : Option SchemaValidator} (hHeld : HoldsMessage held [])
    (tasks : List Task) (chunks : List Str) :
    runTogether rj tasks (.received chunks) held = runTogether rj tasks (.received chunks) none := by
  have hSame : held.getD { schema := responseSchema } = { schema := responseSchema } := hHeld
  simp only [runTogether, hSame, Option.getD_none]

/-- And it leaves the validator so, unless its own response violates the schema. -/
theorem holdsMessage_runTogether {tasks : List Task} {chunks : List Str}
    (hNone : violation rj (chunks.flatMap cstr) = none) :
    HoldsMessage (runTogether rj tasks (.received chunks) none).2 [] := by
  have hClean := readResponse_clean rj tasks (chunks.flatMap cstr)
  rw [hNone] at hClean
  exact hClean

theorem Inv.violation (h : s.Inv rj pathEnv config) (hEmpty : ∃ e, rj.parse [] = .error e)
    (hRj : s.ReadsAll rj) (hClient : s.clients[k]? = some c) (hIntact : c.Intact)
    (hDown : c.down = []) (hHungUp : s.hungUp c.link = true) :
    violation rj (c.chunks.flatMap cstr) = none := by
  rcases h.stream hEmpty hRj hClient hIntact hDown hHungUp with
    ⟨records, -, hReads, hChunks⟩ | ⟨-, e, hError⟩
  · have hWhole := cstr_of_nul_free hReads.readsBack.nul_notMem
    have hText : c.chunks.flatMap cstr = rj.write (resultsDocument records) := by
      rw [hWhole] at hChunks
      rw [flatMap_cstr (hChunks ▸ hReads.readsBack.nul_notMem), hChunks]
    simp only [Libsbox.violation, hText, hReads.readsBack.parse_write,
      (responseSchema_resultsDocument records).2.2, if_true]
  · simp only [Libsbox.violation, hError]

/-- The clients are as they were, or have not returned at the end of the stream. -/
theorem Clean.keeps {t : Session} (h : s.Clean rj) (hValidators : t.validators = s.validators)
    (hClients : ∀ (k : Nat) (d : Client), t.clients[k]? = some d →
      (∃ c, s.clients[k]? = some c ∧ d.pc = c.pc ∧ d.tasks = c.tasks) ∨
        ∀ chunks outcome, d.pc ≠ .returned (.received chunks) outcome) : t.Clean rj := by
  refine ⟨hValidators ▸ h.validators, fun k d chunks outcome hSome hPc => ?_⟩
  rcases hClients k d hSome with ⟨c, hClient, hSame, hTasks⟩ | hNot
  · rw [hTasks]
    exact h.returned k c chunks outcome hClient (hSame.symm.trans hPc)
  · exact absurd hPc (hNot chunks outcome)

theorem Clean.set {service : Service} {c' : Client} (h : s.Clean rj)
    (hClient : s.clients[k]? = some c) (hPc : c'.pc = c.pc) (hTasks : c'.tasks = c.tasks) :
    { s.setClient k c' with service }.Clean rj := by
  refine h.keeps rfl fun j d hSome => .inl ?_
  rcases getElem?_set_cases hSome with ⟨rfl, rfl⟩ | ⟨-, hSome'⟩
  · exact ⟨c, hClient, hPc, hTasks⟩
  · exact ⟨d, hSome', rfl, rfl⟩

theorem Clean.joins {service : Service} (h : s.Clean rj)
    (hNot : ∀ chunks outcome, c.pc ≠ .returned (.received chunks) outcome) :
    { s with service, clients := s.clients ++ [c] }.Clean rj := by
  refine h.keeps rfl fun k d hSome => ?_
  rcases Nat.lt_or_ge k s.clients.length with hOld | hLast
  · rw [List.getElem?_append_left hOld] at hSome
    exact .inl ⟨d, hSome, rfl, rfl⟩
  · rw [List.getElem?_append_right hLast] at hSome
    obtain rfl := List.mem_singleton.mp (List.mem_of_getElem? hSome)
    exact .inr hNot

theorem returns_pc {validator : Option SchemaValidator} {exchange : Exchange}
    (hFailed : exchange.Failed) (chunks : List Str) (outcome : Outcome) :
    (c.returns rj validator exchange).pc ≠ .returned (.received chunks) outcome := by
  intro hPc
  obtain ⟨rfl, -⟩ := ClientAt.returned.inj hPc
  exact hFailed

theorem Clean.client {c' : Client} (h : s.Clean rj) (hClient : s.clients[k]? = some c)
    (hMoves : c.Moves rj s c') : (s.setClient k c').Clean rj := by
  have hLeaves : (∀ chunks outcome, c'.pc ≠ .returned (.received chunks) outcome) →
      (s.setClient k c').Clean rj := by
    refine fun hNot => h.keeps rfl fun j d hSome => ?_
    rcases getElem?_set_cases hSome with ⟨rfl, rfl⟩ | ⟨-, hSome'⟩
    · exact .inr hNot
    · exact .inl ⟨d, hSome', rfl, rfl⟩
  cases hMoves with
  | sends | babbles | reads => exact h.set hClient rfl rfl
  | fails hCutOff => exact hLeaves (returns_pc (failed_of_isCutOff hCutOff))
  | leaves => exact hLeaves (by simp)

theorem Clean.step (h : s.Clean rj) (hInv : s.Inv rj pathEnv config)
    (hEmpty : ∃ e, rj.parse [] = .error e) (hRj : s.ReadsAll rj)
    (hStep : s.step rj pathEnv config a = some s') : s'.Clean rj := by
  cases step_moves hStep with
  | daemon => exact ⟨h.validators, h.returned⟩
  | @worker i wa service hQuiet hService =>
    refine h.keeps rfl fun k d hSome => .inl ?_
    by_cases hCloses : s.closes i wa = true
    · simp only [hCloses, if_true, List.getElem?_map] at hSome
      obtain ⟨c, hClient, rfl⟩ := Option.map_eq_some_iff.mp hSome
      exact ⟨c, hClient, hangUp_pc i c, hangUp_tasks i c⟩
    · simp only [hCloses, Bool.false_eq_true, if_false] at hSome
      exact ⟨d, hSome, rfl, rfl⟩
  | connects hNew hService =>
    refine h.joins ?_
    rcases hNew with rfl | ⟨process, tasks, -, rfl⟩ <;> simp [Client.call]
  | cannotConnect hUnconnected => exact h.joins (returns_pc (failed_of_isUnconnected hUnconnected))
  | accepts hClient | receives hClient | transfers hClient => exact h.set hClient rfl rfl
  | @ends k c hClient hCalling hDown hHungUp =>
    have hIntact : c.Intact := by simp only [Client.Intact, hCalling]
    have hSame := @runTogether_clean rj _ (h.validators c.process) c.tasks c.chunks
    refine ⟨fun process => ?_, fun j d chunks outcome hSome hPc => ?_⟩
    · by_cases hProcess : process = c.process
      · rw [hProcess]
        simp only [Function.update_self, hSame]
        exact holdsMessage_runTogether (hInv.violation hEmpty hRj hClient hIntact hDown hHungUp)
      · simp only [Function.update_of_ne hProcess]
        exact h.validators process
    · rcases getElem?_set_cases hSome with ⟨rfl, rfl⟩ | ⟨-, hSome'⟩
      · obtain ⟨hExchange, rfl⟩ := ClientAt.returned.inj hPc
        obtain rfl := Exchange.received.inj hExchange
        exact congrArg Prod.fst hSame
      · exact h.returned j d chunks outcome hSome' hPc
  | client hClient hMoves => exact h.client hClient hMoves

/-- What rapidjson reads after a step it has read before. -/
theorem ReadsAll.before (hRj : s'.ReadsAll rj) (hStep : s.step rj pathEnv config a = some s') :
    s.ReadsAll rj := by
  have hServes : ∀ {act : ServiceAct} {service : Service},
      s.service.step rj pathEnv config act = some service → s'.service = service →
      s.ReadsAll rj := by
    rintro act service hService rfl v hv records hRecords
    obtain ⟨j, hWorker⟩ := List.mem_iff_getElem?.mp hv
    obtain ⟨v', hWorker', hGrows, -⟩ := Service.step_keeps hService hWorker
    exact hRj v' (List.mem_of_getElem? hWorker') records (hGrows.2.subset hRecords)
  cases step_moves hStep with
  | daemon hService | worker hQuiet hService | connects hNew hService
  | accepts hClient hWorker hWaits hService | receives hClient hLink hLe hEnd hService
  | transfers hClient hWorker hLink hPc hService => exact hServes hService rfl
  | cannotConnect | ends | client => exact hRj

-- ---------------------------------------------------------------------------
-- The calls
-- ---------------------------------------------------------------------------

/-- **What the calls return.** The results are those of a request with the tasks of the
call, and no two calls that come to the end of their stream have the same request. Without
results the tasks are as they were, and a call on the socket has failed or the worker has
ended before it closed the connection. -/
theorem answers_of_run {acts : List SessionAct}
    (hRequests : ∀ process tasks, .call process tasks ∈ acts → rj.ReadsBack (requestDocument tasks))
    (hRun : run (step rj pathEnv config) {} acts = some s) (hEmpty : ∃ e, rj.parse [] = .error e)
    (hResponses : s.ReadsAll rj) :
    (∀ (k : Nat) (c : Client) (exchange : Exchange) (outcome : Outcome), s.clients[k]? = some c →
      c.pc = .returned exchange outcome →
        (∃ records, s.Collected c records ∧ outcome = outcomeOf rj c records) ∨
        (exchange.Failed ∨ s.Abandoned c) ∧ outcome.error.isError = true ∧
          outcome.tasks = c.tasks) ∧
    ∀ (k k' : Nat) (c c' : Client) (chunks chunks' : List Str) (outcome outcome' : Outcome)
      (i before before' : Nat), s.clients[k]? = some c → s.clients[k']? = some c' → k ≠ k' →
      c.pc = .returned (.received chunks) outcome → c'.pc = .returned (.received chunks') outcome' →
      (c.link = .opened i before ∨ c.link = .closed i before) →
      (c'.link = .opened i before' ∨ c'.link = .closed i before') → before ≠ before' := by
  have hCalls : AllSteps (step rj pathEnv config)
      (fun _ a => ∀ process tasks, a = .call process tasks → rj.ReadsBack (requestDocument tasks))
      {} acts :=
    allSteps_of_mem fun a hMem process tasks hCall => hRequests process tasks (by rwa [← hCall])
  obtain ⟨hInv, hClean⟩ := invariant_of_run
    (I := fun s : Session => s.Inv rj pathEnv config ∧ (s.ReadsAll rj → s.Clean rj))
    (fun _ _ _ h hRj hStep => ⟨h.1.step hRj hStep, fun hAfter =>
      (h.2 (hAfter.before hStep)).step h.1 hEmpty (hAfter.before hStep) hStep⟩)
    ⟨inv_initial, fun _ => ⟨fun _ => rfl, fun k c chunks outcome hSome => by cases hSome⟩⟩ hCalls hRun
  have hIntact : ∀ {c : Client} {chunks : List Str} {outcome : Outcome},
      c.pc = .returned (.received chunks) outcome → c.Intact := by
    intro c chunks outcome hPc
    simp only [Client.Intact, hPc]
  constructor
  · intro k c exchange outcome hClient hPc
    rcases hInv.returned k c hClient exchange outcome hPc with
      ⟨rfl, hDown, hHungUp⟩ | ⟨hFailed, hError⟩
    · rw [(hClean hResponses).returned k c c.chunks outcome hClient hPc]
      rcases hInv.outcome hEmpty hResponses hClient (hIntact hPc) hDown hHungUp with
        hResults | ⟨hAbandoned, hError⟩
      · exact .inl hResults
      · exact .inr ⟨.inr hAbandoned, hError⟩
    · exact .inr ⟨.inl hFailed, hError⟩
  · intro k k' c c' chunks chunks' outcome outcome' i before before' hClient hClient' hNe hPc hPc'
      hLink hLink'
    rcases hLink with hOpen | hClosed
    · rcases hLink' with hOpen' | hClosed'
      · exact absurd (hInv.distinct.one k k' c c' i before before' hClient hClient' hOpen hOpen') hNe
      · exact (hInv.distinct.apart k' k c' c i before' before hClient' hClient hNe.symm
          (hIntact hPc') (hIntact hPc) hClosed' (.inl hOpen)).symm
    · exact hInv.distinct.apart k k' c c' i before before' hClient hClient' hNe (hIntact hPc)
        (hIntact hPc') hClosed hLink'

/-- The task of the call below, and its results. -/
def answeredTask : Task := { argv := [lit "true"] }

def answeredRecord : Task :=
  { answeredTask with
    timeUsageMs := 1
    timeUsageSysMs := 0
    timeUsageUserMs := 1
    wallTimeUsageMs := 2
    memoryUsageKb := 300
    exited := true
    exitCode := 0 }

/-- The text of the response. -/
def answeredText : Str :=
  lit "\x7b\"tasks\":[\x7b\"time_usage_ms\":1,\"time_usage_sys_ms\":0," ++
  lit "\"time_usage_user_ms\":1,\"wall_time_usage_ms\":2,\"memory_usage_kb\":300," ++
  lit "\"time_limit_exceeded\":false,\"wall_time_limit_exceeded\":false,\"exited\":true," ++
  lit "\"exit_code\":0,\"signaled\":false,\"term_signal\":-1,\"oom_killed\":false," ++
  lit "\"memory_limit_hit\":false\x7d]\x7d"

/-- What rapidjson does with the two documents. -/
def answeredRapidjson : Rapidjson where
  parse text :=
    if text = oneArgumentText "true" then .ok (requestDocument [answeredTask])
    else if text = answeredText then
      .ok (resultsDocument [answeredRecord])
    else .error (lit "The document is empty.", 0)
  write
    | .object [(_, .array [.object ((key, _) :: _)])] =>
      if key = lit "time_limit_ms" then oneArgumentText "true"
      else answeredText
    | _ => lit "\x7b\x7d"
  schemaError _ _ := lit "\x7b\x7d"

/-- Three calls of a process: the first gets no connection, the second is answered, and
the third cannot send its message. -/
def answeredRun : List SessionAct :=
  let request := requestMessage answeredRapidjson [answeredTask]
  let response := tasksReply answeredRapidjson [answeredRecord]
  [.cannotConnect 0 [answeredTask] (.connectFailed (lit "No such file or directory"))] ++
    List.replicate 6 (.daemon .next) ++ List.replicate 7 (.worker 0 .next) ++
    [.call 0 [answeredTask], .accept 0 1, .worker 0 .next, .send 1 100, .recv 0 1 100,
      .send 1 request.length, .recv 0 1 (request.length - 100), .worker 0 .next] ++
    (Sys.requestRun {}).tail.map (fun a => .worker 0 (.work (.sys a [5, 6, 7, 8, 9]))) ++
    [.write 0 1 50, .read 1 20, .write 0 1 (response.length - 50), .worker 0 .next, .worker 0 .next,
      .read 1 (response.length - 20), .ends 1, .call 0 [answeredTask], .send 2 10,
      .fails 2 (.sendFailed (lit "Connection reset by peer"))]

theorem answeredRapidjson_parse (text : Str) : answeredRapidjson.parse text =
    if text = oneArgumentText "true" then .ok (requestDocument [answeredTask])
    else if text = answeredText then
      .ok (resultsDocument [answeredRecord])
    else .error (lit "The document is empty.", 0) := rfl

theorem answeredRapidjson_request : answeredRapidjson.ReadsBack (requestDocument [answeredTask]) := by
  have hWrite : answeredRapidjson.write (requestDocument [answeredTask]) = oneArgumentText "true" := by
    decide +kernel
  constructor
  · rw [hWrite, answeredRapidjson_parse, if_pos rfl]
  · rw [hWrite]
    decide +kernel

theorem answeredRapidjson_response : ReadsWhole answeredRapidjson [answeredRecord] := by
  have hWrite : answeredRapidjson.write (resultsDocument [answeredRecord]) =
      answeredText := by decide +kernel
  have hOther : ¬ oneArgumentText "true" <+:
      answeredText := by decide +kernel
  refine ⟨⟨?_, ?_⟩, fun text hPrefix hNot => ⟨(lit "The document is empty.", 0), ?_⟩⟩
  · rw [hWrite, answeredRapidjson_parse, if_neg, if_pos rfl]
    intro hSame
    rw [← hSame] at hOther
    exact hOther (List.prefix_refl _)
  · rw [hWrite]
    decide +kernel
  · rw [hWrite] at hPrefix hNot
    rw [answeredRapidjson_parse, if_neg, if_neg hNot]
    rintro rfl
    exact hOther hPrefix

theorem answers_of_answeredRun :
    ∃ s, run (step answeredRapidjson none Service.confJson) {} answeredRun = some s ∧
      (∀ (k : Nat) (c : Client) (exchange : Exchange) (outcome : Outcome),
        s.clients[k]? = some c → c.pc = .returned exchange outcome →
          (∃ records, s.Collected c records ∧ outcome = outcomeOf answeredRapidjson c records) ∨
          (exchange.Failed ∨ s.Abandoned c) ∧ outcome.error.isError = true ∧
            outcome.tasks = c.tasks) ∧
      s.clients.map (fun c => (c.link, c.pc.isCalling)) =
        [(.none, false), (.closed 0 0, false), (.waiting, false)] := by
  have hSeen : (run (step answeredRapidjson none Service.confJson) {} answeredRun).map
      (fun s => (s.clients.map fun c => (c.link, c.pc.isCalling),
        s.service.workers.map fun v => v.worker.world.sys.responses)) =
      some ([(.none, false), (.closed 0 0, false), (.waiting, false)], [[[answeredRecord]]]) := by
    decide +kernel
  obtain ⟨s, hRun, hState⟩ := Option.map_eq_some_iff.mp hSeen
  obtain ⟨hLinks, hAll⟩ := Prod.mk.inj hState
  have hCalls : answeredRun.filterMap (fun a => match a with
      | .call _ tasks => some tasks
      | _ => none) = [[answeredTask], [answeredTask]] := by decide +kernel
  refine ⟨s, hRun, (answers_of_run (fun process tasks hMem => ?_) hRun ⟨_, rfl⟩
    fun v hv records hRecords => ?_).1, hLinks⟩
  · have hIn : tasks ∈ [[answeredTask], [answeredTask]] :=
      hCalls ▸ List.mem_filterMap.mpr ⟨_, hMem, rfl⟩
    have hTasks : tasks = [answeredTask] := by simpa using hIn
    rw [hTasks]
    exact answeredRapidjson_request
  · have hIn : v.worker.world.sys.responses ∈ [[[answeredRecord]]] :=
      hAll ▸ List.mem_map.mpr ⟨v, hv, rfl⟩
    rw [List.mem_singleton.mp hIn, List.mem_singleton] at hRecords
    rw [hRecords]
    exact answeredRapidjson_response

end Session

end Libsbox
