import Libsbox.Model.Service
import Libsbox.Worker.Bookkeeping

/-!
# libsbox — a worker that serves

What holds of a process of `Worker::serve` at each of its places, whatever signals it
gets and whatever fails: the handler of `SIGTERM` restarts calls exactly where a
connection is open, the calls of `process` are those of `serve`, and what has been written
are the replies of `process`, one for each connection.

## Results

* `step_moves` — the steps are the ones listed in `Moves`.
* `Inv.step` — every step keeps the invariant.
-/

namespace Libsbox

open CMemory

namespace ServeAt

/-- Steps that only go on. -/
inductive GoesOn (terminated : Bool) : ServeAt → ServeAt → Prop where
  | setpgrp : GoesOn _ .setpgrp .prctl
  | requestValidator : GoesOn _ .requestValidator .setSigchldAction
  | setSigchldAction : GoesOn _ .setSigchldAction .testTerminated
  | stops (hSet : terminated = true) : GoesOn _ .testTerminated .exit
  | continues (hUnset : terminated = false) : GoesOn _ .testTerminated .interruptAccept
  | callAccept : GoesOn _ .callAccept .accept
  | breaks (hSet : terminated = true) : GoesOn _ .acceptFailed .exit
  | dies (hUnset : terminated = false) : GoesOn _ .acceptFailed .died
  | close : GoesOn _ .close .testTerminated
  | exit : GoesOn _ .exit .exited

/-- Whether the handler of `SIGTERM` restarts calls, where the place says so. -/
def restart? : ServeAt → Option Bool
  | .callAccept | .accept => some false
  | .recv _ | .process _ | .processing | .write _ _ => some true
  | _ => none

/-- The response that is being written. -/
def response? : ServeAt → Option Str
  | .write response _ => some response
  | _ => none

/-- The kernel has taken a part of the response. -/
def Partial : ServeAt → Prop
  | .write response cnt => cnt ≠ 0 ∧ cnt ≠ response.length
  | _ => False

instance : DecidablePred Partial := fun pc =>
  match pc with
  | .write response cnt => inferInstanceAs (Decidable (cnt ≠ 0 ∧ cnt ≠ response.length))
  | .setpgrp | .prctl | .requestValidator | .setSigchldAction | .testTerminated | .interruptAccept
  | .callAccept | .accept | .acceptFailed | .restartCalls | .recv _ | .process _ | .processing
  | .close | .exit | .exited | .died | .killed => isFalse id

end ServeAt

namespace Server

/-- A step of a worker. -/
inductive Moves (rj : Rapidjson) (pathEnv : Option Str) (v : Server) : ServeAct → Server → Prop where
  | goesOn {pc : ServeAt} (hGoesOn : v.pc.GoesOn v.context.terminated pc) :
    Moves _ _ _ .next { v with pc }
  | prctl (armed : Bool) (hPc : v.pc = .prctl) :
    Moves _ _ _ .next { v with armed, pc := .requestValidator }
  | interruptAccept (hPc : v.pc = .interruptAccept) :
    Moves _ _ _ .next { v with context := v.context.setRestart false, pc := .callAccept }
  | restartCalls (hPc : v.pc = .restartCalls) :
    Moves _ _ _ .next { v with context := v.context.setRestart true, pc := .recv [] }
  | calls {request : Str} {worker : Worker} (hPc : v.pc = .process request)
    (hCall : v.worker.process rj pathEnv request = some worker) :
    Moves _ _ _ .next (v.processed worker)
  | writes {response : Str} (hPc : v.pc = .write response response.length) :
    Moves _ _ _ .next { v with sent := v.sent ++ [response], pc := .close }
  | connection (hPc : v.pc = .accept) :
    Moves _ _ _ .connection { v with pc := .restartCalls, accepted := v.accepted + 1 }
  | receives {request request' : Str} {chunk : Str} {pc : ServeAt} (hPc : v.pc = .recv request)
    (hNext : pc = .recv request' ∨ pc = .process request') :
    Moves _ _ _ (.received chunk) { v with pc }
  | works {wa : WorldAct} {worker : Worker} (hPc : v.pc = .processing)
    (hStep : v.worker.step rj pathEnv (.world wa) = some worker) :
    Moves _ _ _ (.work wa) (v.processed worker)
  | waits {wa : WorldAct} {worker : Worker} (hThere : ¬ v.pc.Ended) (hPc : v.pc ≠ .processing)
    (hStep : v.worker.step rj pathEnv (.world wa) = some worker) :
    Moves _ _ _ (.work wa)
      { v with worker, pc := if worker.world.sys.alive then v.pc else .died }
  | transfers {response : Str} {cnt more : Nat} (hPc : v.pc = .write response cnt) :
    Moves _ _ _ (.transfer more) { v with pc := .write response (cnt + more) }
  | acceptFails (hPc : v.pc = .accept) : Moves _ _ _ .fail { v with pc := .acceptFailed }
  | fails : Moves _ _ _ .fail { v with pc := .died }
  | kill : Moves _ _ _ .kill { v with context := { v.context with pending := true } }
  | delivers {pc : ServeAt} (hThere : ¬ v.pc.Ended)
    (hPc : pc = match v.context.deliver.1 with
      | .ignored => v.pc
      | .killed => .killed
      | .dies => .died
      | .returns restart => v.interrupted restart) :
    Moves _ _ _ .deliver { v with context := v.context.deliver.2, pc }
  | parentDied : Moves _ _ _ .parentDied { v with pc := .killed }

variable {rj : Rapidjson} {pathEnv : Option Str} {daemonAlive clients : Bool}
variable {v v' : Server} {a : ServeAct}

theorem next_moves (h : v.next rj pathEnv daemonAlive = some v') : v.Moves rj pathEnv .next v' := by
  have hGoesOn : ∀ {pc pc' : ServeAt}, v.pc = pc → pc.GoesOn v.context.terminated pc' →
      some { v with pc := pc' } = some v' → v.Moves rj pathEnv .next v' := by
    rintro pc pc' rfl hGoesOn hSome
    exact Option.some.inj hSome ▸ .goesOn hGoesOn
  unfold next at h
  cases hPc : v.pc
  all_goals simp only [hPc, reduceCtorEq] at h
  case setpgrp => exact hGoesOn hPc .setpgrp h
  case prctl => exact Option.some.inj h ▸ .prctl _ hPc
  case requestValidator => exact hGoesOn hPc .requestValidator h
  case setSigchldAction => exact hGoesOn hPc .setSigchldAction h
  case testTerminated =>
    cases hFlag : v.context.terminated with
    | true => exact hGoesOn hPc (.stops hFlag) (by rw [hFlag] at h; exact h)
    | false => exact hGoesOn hPc (.continues hFlag) (by rw [hFlag] at h; exact h)
  case interruptAccept => exact Option.some.inj h ▸ .interruptAccept hPc
  case callAccept => exact hGoesOn hPc .callAccept h
  case acceptFailed =>
    cases hFlag : v.context.terminated with
    | true => exact hGoesOn hPc (.breaks hFlag) (by rw [hFlag] at h; exact h)
    | false => exact hGoesOn hPc (.dies hFlag) (by rw [hFlag] at h; exact h)
  case restartCalls => exact Option.some.inj h ▸ .restartCalls hPc
  case process request =>
    obtain ⟨worker, hCall, rfl⟩ := Option.map_eq_some_iff.mp h
    exact .calls hPc hCall
  case write response cnt =>
    split at h
    · rename_i hAll
      rw [hAll] at hPc
      exact Option.some.inj h ▸ .writes hPc
    · cases h
  case close => exact hGoesOn hPc .close h
  case exit => exact hGoesOn hPc .exit h

theorem received_moves {chunk : Str} (h : v.received chunk = some v') :
    v.Moves rj pathEnv (.received chunk) v' := by
  unfold received at h
  split at h
  · rename_i request hPc
    split at h
    · rw [← Option.some.inj h]
      split
      · exact .receives hPc (.inr rfl)
      · exact .receives hPc (.inl rfl)
    · cases h
  · cases h

theorem work_moves {wa : WorldAct} (h : v.work rj pathEnv wa = some v') :
    v.Moves rj pathEnv (.work wa) v' := by
  unfold work at h
  split at h
  · cases h
  · rename_i hThere
    obtain ⟨worker, hStep, rfl⟩ := Option.map_eq_some_iff.mp h
    by_cases hPc : v.pc = .processing
    · rw [if_pos hPc]
      exact .works hPc hStep
    · rw [if_neg hPc]
      exact .waits hThere hPc hStep

theorem fail_moves (h : v.fail = some v') : v.Moves rj pathEnv .fail v' := by
  unfold fail at h
  split at h
  · exact Option.some.inj h ▸ .acceptFails ‹_›
  all_goals first
    | exact Option.some.inj h ▸ .fails
    | cases h

/-- **The steps of a worker.** -/
theorem step_moves (h : v.step rj pathEnv daemonAlive clients a = some v') :
    v.Moves rj pathEnv a v' := by
  cases a with
  | next => exact next_moves h
  | connection =>
    simp only [step] at h
    split at h
    · rename_i hThere
      exact Option.some.inj h ▸ .connection hThere.1
    · cases h
  | received chunk => exact received_moves h
  | work wa => exact work_moves h
  | transfer more =>
    simp only [step, transfer] at h
    split at h
    · split at h
      · exact Option.some.inj h ▸ .transfers ‹_›
      · cases h
    · cases h
  | fail => exact fail_moves h
  | kill => exact Option.some.inj h ▸ .kill
  | deliver =>
    simp only [step, deliver] at h
    split at h
    · rename_i hPending
      exact Option.some.inj h ▸ .delivers hPending.2 rfl
    · cases h
  | parentDied =>
    simp only [step] at h
    split at h
    · exact Option.some.inj h ▸ .parentDied
    · cases h

-- ---------------------------------------------------------------------------
-- The invariant
-- ---------------------------------------------------------------------------

/-- What holds at the places of a worker. -/
structure Inv (v : Server) : Prop where
  handles : ∃ restart, v.context.Handles restart ∧ ∀ r, v.pc.restart? = some r → r = restart
  idle : ¬ v.pc.Ended → v.pc ≠ .processing → v.worker.world.sys.worker = .accept
  busy : v.pc = .processing → v.worker.world.sys.worker ≠ .accept
  replies : ¬ v.pc.Ended → v.worker.replies = v.sent ++ v.pc.response?.toList
  accepted : ¬ v.pc.Ended → v.accepted = v.sent.length + if v.pc.Serving then 1 else 0

/-- Of a worker that has ended, only the handler remains. -/
theorem inv_of_ended {restart : Bool} (hPc : v.pc.Ended) (hHandles : v.context.Handles restart) :
    v.Inv := by
  refine ⟨⟨restart, hHandles, fun r hr => ?_⟩, fun hNot => absurd hPc hNot, fun hBusy => ?_,
    fun hNot => absurd hPc hNot, fun hNot => absurd hPc hNot⟩
  · rcases hPc with hPc | hPc | hPc <;> (rw [hPc] at hr; cases hr)
  · rcases hPc with hPc | hPc | hPc <;> (rw [hPc] at hBusy; cases hBusy)

/-- A step that is not about a connection or a response. -/
theorem Inv.goTo (h : v.Inv) (hThere : ¬ v.pc.Ended) {pc : ServeAt} {context : Context} {armed : Bool}
    (hPlaces : v.pc = .processing ↔ pc = .processing)
    (hHandles : ∃ restart, context.Handles restart ∧ ∀ r, pc.restart? = some r → r = restart)
    (hResponse : pc.response? = v.pc.response?) (hServing : pc.Serving ↔ v.pc.Serving) :
    { v with pc, context, armed }.Inv := by
  refine ⟨hHandles, fun _ hPc => h.idle hThere fun hOld => hPc (hPlaces.mp hOld),
    fun hPc => h.busy (hPlaces.mpr hPc), fun _ => ?_, fun _ => ?_⟩
  · show v.worker.replies = v.sent ++ pc.response?.toList
    rw [hResponse]
    exact h.replies hThere
  · show v.accepted = v.sent.length + if pc.Serving then 1 else 0
    simp only [hServing]
    exact h.accepted hThere

theorem Inv.goesOn (h : v.Inv) {pc : ServeAt} (hGoesOn : v.pc.GoesOn v.context.terminated pc) :
    { v with pc }.Inv := by
  obtain ⟨restart, hHandles, hFlag⟩ := h.handles
  generalize hPc : v.pc = p at hGoesOn hFlag
  cases hGoesOn with
  | dies | exit => exact inv_of_ended (by simp [ServeAt.Ended]) hHandles
  | callAccept =>
    exact h.goTo (by simp [hPc, ServeAt.Ended]) (by simp [hPc]) ⟨restart, hHandles, hFlag⟩
      (by simp [hPc, ServeAt.response?]) (by simp [hPc, ServeAt.Serving])
  | _ =>
    exact h.goTo (by simp [hPc, ServeAt.Ended]) (by simp [hPc]) ⟨restart, hHandles, nofun⟩
      (by simp [hPc, ServeAt.response?]) (by simp [hPc, ServeAt.Serving])

/-- `process` is called, or goes on. -/
theorem Inv.processed (h : v.Inv) (hThere : ¬ v.pc.Ended) (hServing : v.pc.Serving)
    (hRestart : v.pc.restart? = some true) (hResponse : v.pc.response? = none) {worker : Worker}
    (hAnswers : worker.world.sys.alive = true → worker.world.sys.worker = .accept →
      ∃ reply, worker.replies = v.worker.replies ++ [reply])
    (hRuns : worker.world.sys.alive = true → worker.world.sys.worker ≠ .accept →
      worker.replies = v.worker.replies) : (v.processed worker).Inv := by
  obtain ⟨restart, hHandles, hFlag⟩ := h.handles
  obtain rfl := hFlag true hRestart
  have hReplies := h.replies hThere
  rw [hResponse, Option.toList_none, List.append_nil] at hReplies
  have hAccepted := h.accepted hThere
  rw [if_pos hServing] at hAccepted
  unfold Server.processed
  by_cases hAlive : worker.world.sys.alive = true
  · rw [if_neg fun hDead => hDead hAlive]
    by_cases hIdle : worker.world.sys.worker = .accept
    · rw [if_pos hIdle]
      obtain ⟨reply, hReply⟩ := hAnswers hAlive hIdle
      refine ⟨⟨true, hHandles, fun r hr => (Option.some.inj hr).symm⟩, fun _ _ => hIdle, nofun,
        fun _ => ?_, fun _ => hAccepted⟩
      show worker.replies = v.sent ++ [worker.replies.getLast?.getD []]
      rw [hReply, List.getLast?_concat, hReplies]
      rfl
    · rw [if_neg hIdle]
      refine ⟨⟨true, hHandles, fun r hr => (Option.some.inj hr).symm⟩, fun _ hNot => absurd rfl hNot,
        fun _ => hIdle, fun _ => ?_, fun _ => hAccepted⟩
      show worker.replies = v.sent ++ []
      rw [List.append_nil, hRuns hAlive hIdle, hReplies]
  · rw [if_pos hAlive]
    exact inv_of_ended (by simp [ServeAt.Ended]) hHandles

/-- What an interrupted worker does: it goes on, or it leaves `accept`, or it has written
its response in part and dies. -/
theorem interrupted_cases {restart : Bool} (hFlag : ∀ r, v.pc.restart? = some r → r = restart) :
    v.pc ≠ .accept ∧ ¬ v.pc.Partial ∧ v.interrupted restart = v.pc ∨
      v.pc = .accept ∧ v.interrupted restart = .acceptFailed ∨
      v.pc.Partial ∧ v.interrupted restart = .died := by
  unfold interrupted
  cases hPc : v.pc with
  | accept =>
    obtain rfl := hFlag false (by rw [hPc]; rfl)
    exact .inr (.inl ⟨rfl, rfl⟩)
  | recv request =>
    obtain rfl := hFlag true (by rw [hPc]; rfl)
    exact .inl ⟨by simp, id, rfl⟩
  | processing =>
    obtain rfl := hFlag true (by rw [hPc]; rfl)
    refine .inl ⟨by simp, id, ?_⟩
    cases v.worker.world.sys.worker <;> rfl
  | write response cnt =>
    obtain rfl := hFlag true (by rw [hPc]; rfl)
    by_cases hWhole : cnt = response.length ∨ cnt = 0
    · refine .inl ⟨by simp, fun hPartial => ?_, if_pos ?_⟩
      · exact hWhole.elim hPartial.2 hPartial.1
      · exact hWhole.imp id fun hNone => ⟨hNone, rfl⟩
    · refine .inr (.inr ⟨⟨?_, ?_⟩, if_neg ?_⟩)
      · exact fun hNone => hWhole (.inr hNone)
      · exact fun hAll => hWhole (.inl hAll)
      · exact fun hStays => hWhole (hStays.imp id And.left)
  | _ => exact .inl ⟨by simp, id, rfl⟩

/-- The other processes of a worker that is not in `process` go on. -/
theorem Inv.waits (h : v.Inv) {wa : WorldAct} {worker : Worker} (hThere : ¬ v.pc.Ended)
    (hPc : v.pc ≠ .processing) (hWork : v.worker.step rj pathEnv (.world wa) = some worker) :
    { v with worker, pc := if worker.world.sys.alive then v.pc else .died }.Inv := by
  obtain ⟨restart, hHandles, hFlag⟩ := h.handles
  have hIdle := h.idle hThere hPc
  cases Worker.step_replies hWork with
  | answers hWorker =>
    rw [hIdle] at hWorker
    cases hWorker
  | silent hReplies hPlace =>
    split
    · exact ⟨⟨restart, hHandles, hFlag⟩, fun _ _ => hPlace.mpr hIdle, fun hBusy => absurd hBusy hPc,
        fun _ => hReplies.trans (h.replies hThere), fun _ => h.accepted hThere⟩
    · exact inv_of_ended (by simp [ServeAt.Ended]) hHandles

/-- The response is written. -/
theorem Inv.writes (h : v.Inv) {response : Str} (hPc : v.pc = .write response response.length) :
    { v with sent := v.sent ++ [response], pc := .close }.Inv := by
  obtain ⟨restart, hHandles, -⟩ := h.handles
  have hReplies := h.replies (by simp [hPc, ServeAt.Ended])
  have hAccepted := h.accepted (by simp [hPc, ServeAt.Ended])
  have hIdle := h.idle (by simp [hPc, ServeAt.Ended]) (by simp [hPc])
  rw [hPc] at hReplies hAccepted
  refine ⟨⟨restart, hHandles, nofun⟩, fun _ _ => hIdle, nofun, fun _ => ?_, fun _ => ?_⟩
  · rw [hReplies]
    exact (List.append_nil _).symm
  · rw [hAccepted]
    simp [ServeAt.Serving]

theorem Inv.connection (h : v.Inv) (hPc : v.pc = .accept) :
    { v with pc := .restartCalls, accepted := v.accepted + 1 }.Inv := by
  obtain ⟨restart, hHandles, -⟩ := h.handles
  have hReplies := h.replies (by simp [hPc, ServeAt.Ended])
  have hAccepted := h.accepted (by simp [hPc, ServeAt.Ended])
  have hIdle := h.idle (by simp [hPc, ServeAt.Ended]) (by simp [hPc])
  rw [hPc] at hReplies hAccepted
  refine ⟨⟨restart, hHandles, nofun⟩, fun _ _ => hIdle, nofun, fun _ => hReplies, fun _ => ?_⟩
  rw [hAccepted]
  rfl

/-- The signal comes. -/
theorem Inv.delivers (h : v.Inv) (hThere : ¬ v.pc.Ended) {pc : ServeAt}
    (hPc : pc = match v.context.deliver.1 with
      | .ignored => v.pc
      | .killed => .killed
      | .dies => .died
      | .returns restart => v.interrupted restart) :
    { v with context := v.context.deliver.2, pc }.Inv := by
  obtain ⟨restart, hHandles, hFlag⟩ := h.handles
  rw [hHandles.deliver] at hPc ⊢
  have hKept : ({ v.context with pending := false, terminated := true } : Context).Handles restart :=
    ⟨hHandles.clear, hHandles.action⟩
  change pc = v.interrupted restart at hPc
  rcases interrupted_cases hFlag with ⟨-, -, hSame⟩ | ⟨hAccept, hLeft⟩ | ⟨-, hDies⟩
  · rw [hPc, hSame]
    exact h.goTo hThere Iff.rfl ⟨restart, hKept, hFlag⟩ rfl Iff.rfl
  · rw [hPc, hLeft]
    exact h.goTo hThere (by simp [hAccept]) ⟨restart, hKept, nofun⟩
      (by simp [hAccept, ServeAt.response?]) (by simp [hAccept, ServeAt.Serving])
  · rw [hPc, hDies]
    exact inv_of_ended (by simp [ServeAt.Ended]) hKept

/-- **Every step keeps the invariant.** -/
theorem Inv.step (h : v.Inv) (hStep : v.step rj pathEnv daemonAlive clients a = some v') : v'.Inv := by
  obtain ⟨restart, hHandles, hFlag⟩ := h.handles
  cases step_moves hStep with
  | goesOn hGoesOn => exact h.goesOn hGoesOn
  | prctl armed hPc =>
    exact h.goTo (by simp [hPc, ServeAt.Ended]) (by simp [hPc]) ⟨restart, hHandles, nofun⟩
      (by simp [hPc, ServeAt.response?]) (by simp [hPc, ServeAt.Serving])
  | interruptAccept hPc =>
    exact h.goTo (by simp [hPc, ServeAt.Ended]) (by simp [hPc])
      ⟨false, hHandles.setRestart false, fun r hr => (Option.some.inj hr).symm⟩
      (by simp [hPc, ServeAt.response?]) (by simp [hPc, ServeAt.Serving])
  | restartCalls hPc =>
    exact h.goTo (by simp [hPc, ServeAt.Ended]) (by simp [hPc])
      ⟨true, hHandles.setRestart true, fun r hr => (Option.some.inj hr).symm⟩
      (by simp [hPc, ServeAt.response?]) (by simp [hPc, ServeAt.Serving])
  | calls hPc hCall =>
    refine h.processed (by simp [hPc, ServeAt.Ended]) (by simp [hPc, ServeAt.Serving])
      (by rw [hPc]; rfl) (by rw [hPc]; rfl) (fun hAlive hIdle => ?_) fun hAlive hBusy => ?_
    all_goals cases Worker.process_calls hCall with
    | dies hDead => simp [hDead] at hAlive
    | answers hThere hPlace hReplies => first | exact ⟨_, hReplies⟩ | exact absurd hPlace hBusy
    | begins hThere hPlace hReplies => first | exact absurd hIdle hPlace | exact hReplies
  | works hPc hWork =>
    have hBusy := h.busy hPc
    refine h.processed (by simp [hPc, ServeAt.Ended]) (by simp [hPc, ServeAt.Serving])
      (by rw [hPc]; rfl) (by rw [hPc]; rfl) (fun hAlive hIdle => ?_) fun hAlive hNot => ?_
    all_goals cases Worker.step_replies hWork with
    | silent hReplies hPlace => first | exact absurd (hPlace.mp hIdle) hBusy | exact hReplies
    | answers hWorker hThere hPlace hSame hReplies =>
      first | exact ⟨_, hReplies⟩ | exact absurd hPlace hNot
  | waits hThere hPc hWork => exact h.waits hThere hPc hWork
  | writes hPc => exact h.writes hPc
  | connection hPc => exact h.connection hPc
  | receives hPc hNext =>
    rw [hPc] at hFlag
    have hTrue : true = restart := hFlag true rfl
    refine h.goTo (by simp [hPc, ServeAt.Ended]) ?_ ⟨restart, hHandles, fun r hr => ?_⟩ ?_ ?_
    all_goals rcases hNext with rfl | rfl
    all_goals first
      | exact (Option.some.inj hr).symm.trans hTrue
      | simp [hPc, ServeAt.response?, ServeAt.Serving]
  | transfers hPc =>
    rw [hPc] at hFlag
    exact h.goTo (by simp [hPc, ServeAt.Ended]) (by simp [hPc]) ⟨restart, hHandles, hFlag⟩
      (by simp [hPc, ServeAt.response?]) (by simp [hPc, ServeAt.Serving])
  | acceptFails hPc =>
    exact h.goTo (by simp [hPc, ServeAt.Ended]) (by simp [hPc]) ⟨restart, hHandles, nofun⟩
      (by simp [hPc, ServeAt.response?]) (by simp [hPc, ServeAt.Serving])
  | fails | parentDied => exact inv_of_ended (by simp [ServeAt.Ended]) hHandles
  | kill =>
    exact ⟨⟨restart, ⟨hHandles.clear, hHandles.action⟩, hFlag⟩, h.idle, h.busy, h.replies, h.accepted⟩
  | delivers hThere hPc => exact h.delivers hThere hPc

end Server

end Libsbox
