import Libsbox.Lib.Runs
import Libsbox.Service.Deaths

/-!
# libsbox — the shutdown of the service

A `SIGTERM` sets `terminated_`, and makes the call that waits for a connection, or for a
worker, fail. Both loops test the flag before they get there and not again: what is set
in between is not noticed until something else happens. And a response that the kernel
has taken in part when the signal comes is not completed.

A signal that comes at any other place is not lost, and a connection that has been
accepted gets its response, provided that no call of its worker fails.

## Results

* `shutdown_of_run` — nothing is lost in the runs that spare these places;
* `lost_of_worker`, `lost_of_daemon` — a signal at such a place can be lost;
* `bookkeeping_of_service` — what holds of a `Worker` holds of each worker of a service;
* `lostStop` — a worker and the daemon that a signal at such a place does not stop.
-/

namespace Libsbox

open CMemory Runs

-- ---------------------------------------------------------------------------
-- Workers
-- ---------------------------------------------------------------------------

namespace ServeAt

/-- `terminated_` has been tested, and `accept` not been called. -/
def Window : ServeAt → Prop
  | .interruptAccept | .callAccept => True
  | _ => False

instance : DecidablePred Window := fun pc => by unfold Window; split <;> infer_instance

end ServeAt

namespace Server

/-- Every connection has got the response that `process` has made for it. -/
def Settled (v : Server) : Prop := v.sent = v.worker.replies ∧ v.accepted = v.sent.length

/-- The request that `process` is called with is one that the reader does not die of. -/
def Reads (rj : Rapidjson) (v : Server) : Prop :=
  match v.pc with
  | .process request => TasksBeyondSchema rj request
  | _ => True

instance (rj : Rapidjson) (v : Server) : Decidable (v.Reads rj) := by
  unfold Reads
  split <;> infer_instance

/-- The step delivers no signal in the window or during a `write` that has begun; and while
a connection is open no call fails, nothing kills the worker, and it does not come to
anything that it dies of. -/
def Spared (rj : Rapidjson) (v : Server) : ServeAct → Prop
  | .deliver => ¬ v.pc.Window ∧ ¬ v.pc.Partial
  | .fail | .parentDied => ¬ v.pc.Serving
  | .next => v.Reads rj
  | .work wa => v.pc.Serving → ¬ v.worker.world.Kills wa
  | _ => True

instance (rj : Rapidjson) (v : Server) (a : ServeAct) : Decidable (v.Spared rj a) :=
  match a with
  | .deliver => inferInstanceAs (Decidable (_ ∧ _))
  | .fail | .parentDied => inferInstanceAs (Decidable (¬ _))
  | .next => inferInstanceAs (Decidable (v.Reads rj))
  | .work _ => inferInstanceAs (Decidable (_ → _))
  | .connection | .received _ | .transfer _ | .kill => isTrue trivial

/-- The worker inside of `serve` has not died, and it validates requests. -/
structure Lives (v : Server) : Prop where
  alive : ¬ v.pc.Ended → v.worker.world.sys.alive = true
  schema : v.worker.validator.schema = requestSchema

/-- What holds of a worker that has been spared so far. -/
structure Kept (v : Server) : Prop where
  unset : v.pc.Window ∨ v.pc = .accept → v.context.terminated = false
  ended : v.pc.Ended → v.Settled

variable {rj : Rapidjson} {pathEnv : Option Str} {daemonAlive clients : Bool}
variable {v v' : Server} {a : ServeAct}

theorem Inv.settled (h : v.Inv) (hThere : ¬ v.pc.Ended) (hNot : ¬ v.pc.Serving) : v.Settled := by
  have hReplies := h.replies hThere
  have hAccepted := h.accepted hThere
  have hNone : v.pc.response? = none := by
    cases hPc : v.pc with
    | write => simp [hPc, ServeAt.Serving] at hNot
    | _ => rfl
  rw [hNone, Option.toList_none, List.append_nil] at hReplies
  rw [if_neg hNot, Nat.add_zero] at hAccepted
  exact ⟨hReplies.symm, hAccepted⟩

/-- A worker ends outside of a connection. -/
theorem Kept.settled (h : v.Kept) (hInv : v.Inv) (hNot : ¬ v.pc.Serving) : v.Settled := by
  by_cases hEnded : v.pc.Ended
  · exact h.ended hEnded
  · exact hInv.settled hEnded hNot

theorem kept_of_away {pc : ServeAt} (hPc : v.pc = pc) (hAway : ¬ pc.Window ∧ pc ≠ .accept)
    (hThere : ¬ pc.Ended) : v.Kept := by
  rw [← hPc] at hAway hThere
  exact ⟨fun h => (h.elim hAway.1 hAway.2).elim, fun hEnded => absurd hEnded hThere⟩

/-- A worker runs as `Worker` does. -/
theorem step_worker (hStep : v.step rj pathEnv daemonAlive clients a = some v') :
    v'.worker = v.worker ∨ ∃ m, v.worker.step rj pathEnv m = some v'.worker := by
  have hProcessed : ∀ worker, (v.processed worker).worker = worker := fun _ => rfl
  cases step_moves hStep with
  | calls hPc hCall => exact .inr ⟨.process _, hCall⟩
  | works hPc hWork | waits hThere hPc hWork => exact .inr ⟨.world _, hWork⟩
  | _ => exact .inl rfl

/-- A worker that dies in `process` has left `serve`. -/
theorem ended_of_processed {worker : Worker} (hDead : ¬ worker.world.sys.alive) :
    (v.processed worker).pc.Ended := by
  unfold processed
  rw [if_pos hDead]
  simp [ServeAt.Ended]

/-- Every step leaves it so. -/
theorem Lives.step (h : v.Lives) (hStep : v.step rj pathEnv daemonAlive clients a = some v') :
    v'.Lives := by
  refine ⟨fun hThere => ?_, ?_⟩
  · -- a step that leaves the worker inside of `serve` as it is has found it there
    have hSame : v'.worker = v.worker → ¬ v.pc.Ended → v'.worker.world.sys.alive = true := by
      intro hWorker hNot
      rw [hWorker]
      exact h.alive hNot
    cases step_moves hStep with
    | goesOn hGoesOn =>
      refine hSame rfl fun hEnded => ?_
      rcases hEnded with hPc | hPc | hPc <;> rw [hPc] at hGoesOn <;> cases hGoesOn
    | calls | works =>
      by_contra hDead
      exact hThere (ended_of_processed hDead)
    | waits =>
      by_contra hDead
      exact hThere (by simp [hDead, ServeAt.Ended])
    | fails | parentDied => exact absurd (by simp [ServeAt.Ended]) hThere
    | kill => exact hSame rfl hThere
    | delivers hNot => exact hSame rfl hNot
    | receives hPc | prctl _ hPc | interruptAccept hPc | restartCalls hPc | writes hPc | connection hPc
    | transfers hPc | acceptFails hPc => exact hSame rfl (by simp [hPc, ServeAt.Ended])
  · rcases step_worker hStep with hSame | ⟨m, hMove⟩
    · rw [hSame]
      exact h.schema
    · exact Worker.schema_of_step h.schema hMove

/-- A step of `process` that the worker does not die of. -/
theorem Lives.alive_of_world (h : v.Lives) (hThere : ¬ v.pc.Ended) {wa : WorldAct} {worker : Worker}
    (hWork : v.worker.step rj pathEnv (.world wa) = some worker)
    (hNot : ¬ v.worker.world.Kills wa) : worker.world.sys.alive = true := by
  obtain ⟨-, w, hWorld, rfl⟩ := Worker.step_world_eq hWork
  exact Bool.not_eq_false _ ▸ mt (World.dies_iff_of_step (h.alive hThere) hWorld).mp hNot

/-- A worker that has been spared so far is so after a step that spares it. -/
theorem Kept.step (h : v.Kept) (hInv : v.Inv) (hLives : v.Lives) (hSpared : v.Spared rj a)
    (hStep : v.step rj pathEnv daemonAlive clients a = some v') : v'.Kept := by
  cases step_moves hStep with
  | goesOn hGoesOn =>
    generalize hPc : v.pc = p at hGoesOn
    have hUnset := h.unset
    rw [hPc] at hUnset
    cases hGoesOn with
    | continues hFlag => exact ⟨fun _ => hFlag, by simp [ServeAt.Ended]⟩
    | callAccept => exact ⟨fun _ => hUnset (.inl trivial), by simp [ServeAt.Ended]⟩
    | dies | exit =>
      have hSettled := hInv.settled (by simp [hPc, ServeAt.Ended]) (by simp [hPc, ServeAt.Serving])
      exact ⟨by simp [ServeAt.Window], fun _ => hSettled⟩
    | _ => exact kept_of_away rfl (by simp [ServeAt.Window]) (by simp [ServeAt.Ended])
  | interruptAccept hPc =>
    have hUnset := h.unset
    rw [hPc] at hUnset
    exact ⟨fun _ => hUnset (.inl trivial), by simp [ServeAt.Ended]⟩
  | calls hPc hCall =>
    have hReads : v.Reads rj := hSpared
    simp only [Reads, hPc] at hReads
    have hAlive : _ = true := Bool.not_eq_false _ ▸
      mt (Worker.dies_iff_of_process hLives.schema hCall).mp (not_not.mpr hReads)
    unfold processed
    rw [if_neg fun hDead => hDead hAlive]
    split <;> exact kept_of_away rfl (by simp [ServeAt.Window]) (by simp [ServeAt.Ended])
  | works hPc hWork =>
    have hAlive := hLives.alive_of_world (by simp [hPc, ServeAt.Ended]) hWork
      (hSpared (by simp [hPc, ServeAt.Serving]))
    unfold processed
    rw [if_neg fun hDead => hDead hAlive]
    split <;> exact kept_of_away rfl (by simp [ServeAt.Window]) (by simp [ServeAt.Ended])
  | waits hThere hPc hWork =>
    split
    · exact ⟨h.unset, fun hEnded => absurd hEnded hThere⟩
    · rename_i hDead
      have hNot : ¬ v.pc.Serving := by
        intro hServing
        exact hDead (hLives.alive_of_world hThere hWork (hSpared hServing))
      have hSettled := hInv.settled hThere hNot
      cases Worker.step_replies hWork with
      | silent hReplies => exact ⟨by simp [ServeAt.Window], fun _ => ⟨hSettled.1.trans hReplies.symm, hSettled.2⟩⟩
      | answers hWorker =>
        rw [hInv.idle hThere hPc] at hWorker
        cases hWorker
  | receives hPc hNext =>
    rcases hNext with rfl | rfl <;>
      exact kept_of_away rfl (by simp [ServeAt.Window]) (by simp [ServeAt.Ended])
  | fails | parentDied =>
    have hSettled := h.settled hInv hSpared
    exact ⟨by simp [ServeAt.Window], fun _ => hSettled⟩
  | kill => exact ⟨h.unset, h.ended⟩
  | delivers hThere hPc =>
    obtain ⟨restart, hHandles, hFlag⟩ := hInv.handles
    rw [hHandles.deliver] at hPc ⊢
    change _ = v.interrupted restart at hPc
    rcases interrupted_cases hFlag with ⟨hAccept, -, hSame⟩ | ⟨hAccept, hLeft⟩ | ⟨hPartial, hDies⟩
    · rw [hPc, hSame]
      exact kept_of_away rfl ⟨hSpared.1, hAccept⟩ hThere
    · rw [hPc, hLeft]
      exact kept_of_away rfl (by simp [ServeAt.Window]) (by simp [ServeAt.Ended])
    · exact absurd hPartial hSpared.2
  | _ => exact kept_of_away rfl (by simp [ServeAt.Window]) (by simp [ServeAt.Ended])

end Server

-- ---------------------------------------------------------------------------
-- The daemon
-- ---------------------------------------------------------------------------

namespace DaemonAt

/-- Steps that only go on. -/
inductive GoesOn (terminated : Bool) : DaemonAt → DaemonAt → Prop where
  | prepare : GoesOn _ .prepare .prepareSignals
  | prepareSocket : GoesOn _ .prepareSocket .startWorkers
  | started : GoesOn _ .startWorkers .callWait
  | callWait : GoesOn _ .callWait .wait
  | noWorkers : GoesOn _ .wait .waitFailed
  | stops (hSet : terminated = true) : GoesOn _ .waitFailed .unlinkSocket
  | dies (hUnset : terminated = false) : GoesOn _ .waitFailed .died
  | unlinkSocket : GoesOn _ .unlinkSocket .closeSocket
  | closeSocket : GoesOn _ .closeSocket (.killWorkers 0)
  | killed {i : Nat} : GoesOn _ (.killWorkers i) (.waitWorkers 0)
  | waited {count : Nat} : GoesOn _ (.waitWorkers count) .exited

/-- `prepare_signals` is still to come. -/
def Unprepared : DaemonAt → Prop
  | .prepare | .prepareSignals => True
  | _ => False

/-- The handler is installed, and `wait` has not been called. -/
def Window : DaemonAt → Prop
  | .prepareSocket | .startWorkers | .callWait => True
  | _ => False

instance : DecidablePred Window := fun pc => by
  cases pc <;> first | exact isTrue trivial | exact isFalse id

end DaemonAt

namespace Service

/-- A step of the daemon. -/
inductive DaemonMoves (config : Config) (s : Service) : DaemonAct → Service → Prop where
  | goesOn {pc : DaemonAt} (hGoesOn : s.daemon.pc.GoesOn s.daemon.context.terminated pc) :
    DaemonMoves _ _ .next { s with daemon := { s.daemon with pc } }
  | prepareSignals (hPc : s.daemon.pc = .prepareSignals) :
    DaemonMoves _ _ .next { s with daemon := {
      context := { s.daemon.context with signals := s.daemon.context.signals.prepareSignals }
      pc := .prepareSocket } }
  | forks (hPc : s.daemon.pc = .startWorkers) :
    DaemonMoves _ _ .next { s with workers := s.workers ++ [forked config s.daemon] }
  | kills {i : Nat} {v : Server} (hPc : s.daemon.pc = .killWorkers i) (hWorker : s.workers[i]? = some v) :
    DaemonMoves _ _ .next
      { s.setWorker i { v with context := { v.context with pending := true } } with
        daemon := { s.daemon with pc := .killWorkers (i + 1) } }
  | waits {j : Nat} {pc : DaemonAt}
    (hPc : pc.Ended ∨ ∃ count, s.daemon.pc = .waitWorkers count ∧ pc = .waitWorkers (count + 1)) :
    DaemonMoves _ _ (.waits j)
      { s with daemon := { s.daemon with pc }, reaped := j :: s.reaped }
  | fails : DaemonMoves _ _ .fail { s with daemon := { s.daemon with pc := .died } }
  | kill :
    DaemonMoves _ _ .kill
      { s with daemon := { s.daemon with context := { s.daemon.context with pending := true } } }
  | delivers {pc : DaemonAt} (hThere : ¬ s.daemon.pc.Ended)
    (hPc : pc = match s.daemon.context.deliver.1 with
      | .ignored => s.daemon.pc
      | .killed => .killed
      | .dies => .died
      | .returns restart => daemonInterrupted restart s.daemon.pc) :
    DaemonMoves _ _ .deliver { s with daemon := { context := s.daemon.context.deliver.2, pc } }

variable {rj : Rapidjson} {pathEnv : Option Str} {config : Config} {s s' : Service}

theorem daemonNext_moves (h : s.daemonNext config = some s') : s.DaemonMoves config .next s' := by
  have hGoesOn : ∀ {pc pc' : DaemonAt}, s.daemon.pc = pc →
      pc.GoesOn s.daemon.context.terminated pc' →
      some { s with daemon := { s.daemon with pc := pc' } } = some s' → s.DaemonMoves config .next s' := by
    rintro pc pc' rfl hGoesOn hSome
    exact Option.some.inj hSome ▸ .goesOn hGoesOn
  unfold daemonNext at h
  cases hPc : s.daemon.pc
  all_goals simp only [hPc, reduceCtorEq] at h
  case prepare => exact hGoesOn hPc .prepare h
  case prepareSignals => exact Option.some.inj h ▸ .prepareSignals hPc
  case prepareSocket => exact hGoesOn hPc .prepareSocket h
  case startWorkers =>
    split at h
    · exact Option.some.inj h ▸ .forks hPc
    · exact hGoesOn hPc .started h
  case callWait => exact hGoesOn hPc .callWait h
  case wait =>
    split at h
    · exact hGoesOn hPc .noWorkers h
    · cases h
  case waitFailed =>
    cases hFlag : s.daemon.context.terminated with
    | true => exact hGoesOn hPc (.stops hFlag) (by rw [hFlag] at h; exact h)
    | false => exact hGoesOn hPc (.dies hFlag) (by rw [hFlag] at h; exact h)
  case unlinkSocket => exact hGoesOn hPc .unlinkSocket h
  case closeSocket => exact hGoesOn hPc .closeSocket h
  case killWorkers i =>
    split at h
    · exact hGoesOn hPc .killed h
    · exact Option.some.inj h ▸ .kills hPc ‹_›
  case waitWorkers count =>
    split at h
    · cases h
    · exact hGoesOn hPc .waited h

theorem daemonWaits_moves {j : Nat} (h : s.daemonWaits j = some s') :
    s.DaemonMoves config (.waits j) s' := by
  unfold daemonWaits at h
  split at h
  · cases h
  · split at h
    · split at h
      · exact Option.some.inj h ▸ .waits (.inl (by simp [DaemonAt.Ended]))
      · rename_i count hPc
        split at h
        · rw [← Option.some.inj h]
          refine .waits ?_
          split
          · exact .inr ⟨count, hPc, rfl⟩
          · exact .inl (by simp [DaemonAt.Ended])
        · cases h
      · cases h
    · cases h

/-- **The steps of the daemon.** -/
theorem daemonStep_moves {a : DaemonAct} (h : s.daemonStep config a = some s') :
    s.DaemonMoves config a s' := by
  cases a with
  | next => exact daemonNext_moves h
  | waits j => exact daemonWaits_moves h
  | fail =>
    simp only [daemonStep, daemonFail] at h
    split at h
    all_goals first
      | exact Option.some.inj h ▸ .fails
      | cases h
  | kill => exact Option.some.inj h ▸ .kill
  | deliver =>
    simp only [daemonStep, daemonDeliver] at h
    split at h
    · rename_i hPending
      exact Option.some.inj h ▸ .delivers hPending.2 rfl
    · cases h

/-- The step spares the worker that makes it, and delivers no signal to the daemon in the
window. -/
def Spared (rj : Rapidjson) (s : Service) : ServiceAct → Prop
  | .daemon .deliver => ¬ s.daemon.pc.Window
  | .worker i a => ∀ v ∈ s.workers[i]?, v.Spared rj a
  | _ => True

instance (rj : Rapidjson) (s : Service) (act : ServiceAct) : Decidable (s.Spared rj act) :=
  match act with
  | .daemon .deliver => inferInstanceAs (Decidable (¬ _))
  | .worker i a => inferInstanceAs (Decidable (∀ v ∈ s.workers[i]?, v.Spared rj a))
  | .connect | .daemon .next | .daemon (.waits _) | .daemon .fail | .daemon .kill => isTrue trivial

/-- What a step does to the workers: one of them makes a step, be it that it gets a signal
from the daemon, or there is a new one. -/
inductive WorkersMove (rj : Rapidjson) (pathEnv : Option Str) (config : Config) (s : Service)
    (act : ServiceAct) (s' : Service) : Prop where
  | none (hWorkers : s'.workers = s.workers)
  | steps {i : Nat} {v v' : Server} {a : ServeAct} {daemonAlive clients : Bool}
    (hWorker : s.workers[i]? = some v) (hAct : act = .worker i a ∨ a = .kill)
    (hStep : v.step rj pathEnv daemonAlive clients a = some v')
    (hWorkers : s'.workers = s.workers.set i v')
  | forks (hPc : s.daemon.pc = .startWorkers)
    (hWorkers : s'.workers = s.workers ++ [forked config s.daemon])

variable {act : ServiceAct}

theorem step_worker_eq {i : Nat} {a : ServeAct} (hStep : s.step rj pathEnv config (.worker i a) = some s') :
    ∃ v v', s.workers[i]? = some v ∧
      v.step rj pathEnv (!decide s.daemon.pc.Ended) (0 < s.clients) a = some v' ∧
      s' = { s.setWorker i v' with clients := s.clientsAfter a } := by
  simp only [step, Option.bind_eq_bind, Option.bind_eq_some_iff] at hStep
  obtain ⟨v, hWorker, v', hStep, hEq⟩ := hStep
  exact ⟨v, v', hWorker, hStep, (Option.some.inj hEq).symm⟩

theorem step_workers (hStep : s.step rj pathEnv config act = some s') :
    WorkersMove rj pathEnv config s act s' := by
  cases act with
  | connect =>
    obtain rfl := Option.some.inj hStep
    exact .none rfl
  | worker i a =>
    obtain ⟨v, v', hWorker, hWorkerStep, rfl⟩ := step_worker_eq hStep
    exact .steps hWorker (.inl rfl) hWorkerStep rfl
  | daemon a =>
    cases daemonStep_moves hStep with
    | forks hPc => exact .forks hPc rfl
    | @kills i v hPc hWorker =>
      have hKill : v.step rj pathEnv true true .kill =
          some { v with context := { v.context with pending := true } } := rfl
      exact .steps hWorker (.inr rfl) hKill rfl
    | _ => exact .none rfl

/-- What the steps of a worker keep, and a new one has, all workers have. -/
theorem WorkersMove.forall_mem {P : Server → Prop} (hMove : WorkersMove rj pathEnv config s act s')
    (h : ∀ v ∈ s.workers, P v)
    (hSteps : ∀ v v' a daemonAlive clients, P v → (s.Spared rj act → v.Spared rj a) →
      v.step rj pathEnv daemonAlive clients a = some v' → P v')
    (hForked : s.daemon.pc = .startWorkers → P (forked config s.daemon)) : ∀ v ∈ s'.workers, P v := by
  intro w hw
  cases hMove with
  | none hWorkers =>
    rw [hWorkers] at hw
    exact h w hw
  | steps hWorker hAct hStep hWorkers =>
    rw [hWorkers] at hw
    rcases List.mem_or_eq_of_mem_set hw with hOld | rfl
    · exact h w hOld
    · refine hSteps _ _ _ _ _ (h _ (List.mem_of_getElem? hWorker)) (fun hSpared => ?_) hStep
      rcases hAct with rfl | rfl
      · exact hSpared _ hWorker
      · trivial
  | forks hPc hWorkers =>
    rw [hWorkers, List.mem_append, List.mem_singleton] at hw
    rcases hw with hOld | rfl
    · exact h w hOld
    · exact hForked hPc

-- ---------------------------------------------------------------------------
-- The invariant
-- ---------------------------------------------------------------------------

/-- What holds of the daemon and of its workers. -/
structure Inv (s : Service) : Prop where
  clear : s.daemon.context.signals.Clear
  killed : s.daemon.pc.Unprepared → s.daemon.context.signals.action .sigterm = (.default, false)
  handles : ¬ s.daemon.pc.Unprepared → ¬ s.daemon.pc.Ended → s.daemon.context.Handles false
  workers : ∀ v ∈ s.workers, v.Inv

/-- What holds of a daemon that has been spared so far, and of its workers. -/
structure Kept (s : Service) : Prop where
  unset : s.daemon.pc.Unprepared ∨ s.daemon.pc.Window ∨ s.daemon.pc = .wait →
    s.daemon.context.terminated = false
  workers : ∀ v ∈ s.workers, v.Kept

theorem inv_forked (config : Config) {d : Daemon} (h : d.context.Handles false) :
    (forked config d).Inv := by
  refine ⟨⟨false, ⟨h.clear, h.action⟩, nofun⟩, fun _ _ => rfl, nofun, fun _ => rfl, fun _ => rfl⟩

theorem kept_forked (config : Config) (d : Daemon) : (forked config d).Kept := by
  have hPc : (forked config d).pc = .setpgrp := rfl
  exact Server.kept_of_away hPc (by simp [ServeAt.Window]) (by simp [ServeAt.Ended])

theorem Inv.handles_of_startWorkers (h : s.Inv) (hPc : s.daemon.pc = .startWorkers) :
    s.daemon.context.Handles false :=
  h.handles (by simp [hPc, DaemonAt.Unprepared]) (by simp [hPc, DaemonAt.Ended])

/-- The daemon goes on, or it leaves `wait`, or it dies while it waits for its workers. -/
theorem daemonInterrupted_cases (pc : DaemonAt) :
    pc ≠ .wait ∧ daemonInterrupted false pc = pc ∨
      pc = .wait ∧ daemonInterrupted false pc = .waitFailed ∨
      (∃ count, pc = .waitWorkers count) ∧ daemonInterrupted false pc = .died := by
  cases pc with
  | wait => exact .inr (.inl ⟨rfl, rfl⟩)
  | waitWorkers count => exact .inr (.inr ⟨⟨count, rfl⟩, rfl⟩)
  | _ => exact .inl ⟨by simp, rfl⟩

/-- What a signal does to the daemon. -/
theorem Inv.deliver (h : s.Inv) (hThere : ¬ s.daemon.pc.Ended) :
    s.daemon.pc.Unprepared ∧ s.daemon.context.deliver = (.killed, { s.daemon.context with pending := false }) ∨
      ¬ s.daemon.pc.Unprepared ∧ s.daemon.context.deliver =
        (.returns false, { s.daemon.context with pending := false, terminated := true }) := by
  by_cases hUnprepared : s.daemon.pc.Unprepared
  · refine .inl ⟨hUnprepared, ?_⟩
    simp only [Context.deliver, h.killed hUnprepared]
  · exact .inr ⟨hUnprepared, (h.handles hUnprepared hThere).deliver⟩

/-- What holds of the daemon alone. -/
theorem Inv.daemonMoves {a : DaemonAct} (h : s.Inv) (hMoves : s.DaemonMoves config a s')
    (hWorkers : ∀ v ∈ s'.workers, v.Inv) : s'.Inv := by
  cases hMoves with
  | goesOn hGoesOn =>
    generalize hPc : s.daemon.pc = p at hGoesOn
    have hKilled := h.killed
    have hHandles := h.handles
    rw [hPc] at hKilled hHandles
    cases hGoesOn with
    | prepare => exact ⟨h.clear, fun _ => hKilled trivial, fun hNot => absurd trivial hNot, hWorkers⟩
    | _ =>
      exact ⟨h.clear, nofun, fun _ _ => hHandles (by simp [DaemonAt.Unprepared]) (by simp [DaemonAt.Ended]),
        hWorkers⟩
  | prepareSignals hPc =>
    exact ⟨Signals.clear_prepareSignals h.clear, nofun, fun _ _ =>
      ⟨Signals.clear_prepareSignals h.clear, Signals.prepareSignals_action h.clear .sigterm⟩, hWorkers⟩
  | forks hPc => exact ⟨h.clear, h.killed, h.handles, hWorkers⟩
  | kills hPc hWorker =>
    have hHandles := h.handles (by simp [hPc, DaemonAt.Unprepared]) (by simp [hPc, DaemonAt.Ended])
    exact ⟨h.clear, nofun, fun _ _ => hHandles, hWorkers⟩
  | waits hPc =>
    rcases hPc with hEnded | ⟨count, hPc, rfl⟩
    · refine ⟨h.clear, fun hUnprepared => ?_, fun _ hNot => absurd hEnded hNot, hWorkers⟩
      rcases hEnded with rfl | rfl | rfl <;> cases hUnprepared
    · have hHandles := h.handles (by simp [hPc, DaemonAt.Unprepared]) (by simp [hPc, DaemonAt.Ended])
      exact ⟨h.clear, nofun, fun _ _ => hHandles, hWorkers⟩
  | fails => exact ⟨h.clear, nofun, fun _ hNot => absurd (by simp [DaemonAt.Ended]) hNot, hWorkers⟩
  | kill =>
    refine ⟨h.clear, h.killed, fun hNot hThere => ?_, hWorkers⟩
    have hHandles := h.handles hNot hThere
    exact ⟨hHandles.clear, hHandles.action⟩
  | delivers hThere hPc =>
    rcases h.deliver hThere with ⟨hUnprepared, hKilled⟩ | ⟨hNot, hReturns⟩
    · rw [hKilled] at hPc ⊢
      subst hPc
      exact ⟨h.clear, nofun, fun _ hNot => absurd (by simp [DaemonAt.Ended]) hNot, hWorkers⟩
    · rw [hReturns] at hPc ⊢
      have hHandles := h.handles hNot hThere
      refine ⟨h.clear, fun hUnprepared => ?_, fun _ _ => ⟨hHandles.clear, hHandles.action⟩, hWorkers⟩
      change _ = daemonInterrupted false s.daemon.pc at hPc
      subst hPc
      change (daemonInterrupted false s.daemon.pc).Unprepared at hUnprepared
      rcases daemonInterrupted_cases s.daemon.pc with ⟨-, hSame⟩ | ⟨-, hLeft⟩ | ⟨-, hDies⟩
      · rw [hSame] at hUnprepared
        exact absurd hUnprepared hNot
      · rw [hLeft] at hUnprepared
        exact hUnprepared.elim
      · rw [hDies] at hUnprepared
        exact hUnprepared.elim

/-- **Every step keeps the invariant.** -/
theorem Inv.step (h : s.Inv) (hStep : s.step rj pathEnv config act = some s') : s'.Inv := by
  have hWorkers : ∀ v ∈ s'.workers, v.Inv :=
    (step_workers hStep).forall_mem h.workers (fun _ _ _ _ _ hInv _ hStep => hInv.step hStep)
      fun hPc => inv_forked config (h.handles_of_startWorkers hPc)
  cases act with
  | daemon a => exact h.daemonMoves (daemonStep_moves hStep) hWorkers
  | worker i a =>
    obtain ⟨v, v', -, -, rfl⟩ := step_worker_eq hStep
    exact ⟨h.clear, h.killed, h.handles, hWorkers⟩
  | connect =>
    obtain rfl := Option.some.inj hStep
    exact ⟨h.clear, h.killed, h.handles, hWorkers⟩

/-- Each worker runs as `Worker` does, and keeps its books. -/
theorem bookkeeping_of_service (hReach : Reachable (step rj pathEnv config) initial s) :
    ∀ v ∈ s.workers,
      v.worker.Bookkeeping rj pathEnv (SharedIdGetter.new config.firstUid idCount).stack := by
  have hWorkers : ∀ v ∈ s.workers,
      Reachable (Worker.step rj pathEnv) (.initial config.firstUid) v.worker := by
    refine invariant_of_reachable (I := fun s => ∀ v ∈ s.workers,
      Reachable (Worker.step rj pathEnv) (.initial config.firstUid) v.worker)
      (fun s act s' h hStep => ?_) (fun _ hv => absurd hv List.not_mem_nil) hReach
    refine (step_workers hStep).forall_mem h (fun v v' a _ _ hOld _ hStep => ?_) fun _ => ⟨[], rfl⟩
    rcases Server.step_worker hStep with hSame | ⟨m, hMove⟩
    · rw [hSame]
      exact hOld
    · exact hOld.snoc hMove
  exact fun v hv => Worker.bookkeeping_of_reachable (hWorkers v hv)

theorem Kept.daemonMoves {a : DaemonAct} (h : s.Kept) (hInv : s.Inv)
    (hSpared : s.Spared rj (.daemon a)) (hMoves : s.DaemonMoves config a s')
    (hWorkers : ∀ v ∈ s'.workers, v.Kept) : s'.Kept := by
  cases hMoves with
  | goesOn hGoesOn =>
    have hUnset := h.unset
    generalize s.daemon.pc = p at hGoesOn hUnset
    cases hGoesOn with
    | prepare => exact ⟨fun _ => hUnset (.inl trivial), hWorkers⟩
    | prepareSocket | started | callWait => exact ⟨fun _ => hUnset (.inr (.inl trivial)), hWorkers⟩
    | _ => exact ⟨by simp [DaemonAt.Unprepared, DaemonAt.Window], hWorkers⟩
  | prepareSignals hPc =>
    have hUnset := h.unset
    rw [hPc] at hUnset
    exact ⟨fun _ => hUnset (.inl trivial), hWorkers⟩
  | forks hPc => exact ⟨h.unset, hWorkers⟩
  | kills hPc hWorker => exact ⟨by simp [DaemonAt.Unprepared, DaemonAt.Window], hWorkers⟩
  | waits hPc =>
    refine ⟨fun hPlace => ?_, hWorkers⟩
    rcases hPc with (rfl | rfl | rfl) | ⟨count, -, rfl⟩ <;>
      simp [DaemonAt.Unprepared, DaemonAt.Window] at hPlace
  | fails => exact ⟨by simp [DaemonAt.Unprepared, DaemonAt.Window], hWorkers⟩
  | kill => exact ⟨h.unset, hWorkers⟩
  | delivers hThere hPc =>
    rcases hInv.deliver hThere with ⟨-, hKilled⟩ | ⟨hNot, hReturns⟩
    · rw [hKilled] at hPc ⊢
      subst hPc
      exact ⟨by simp [DaemonAt.Unprepared, DaemonAt.Window], hWorkers⟩
    · rw [hReturns] at hPc ⊢
      change _ = daemonInterrupted false s.daemon.pc at hPc
      subst hPc
      refine ⟨fun hPlace => ?_, hWorkers⟩
      change (daemonInterrupted false s.daemon.pc).Unprepared ∨ _ at hPlace
      rcases daemonInterrupted_cases s.daemon.pc with ⟨hWait, hSame⟩ | ⟨-, hLeft⟩ | ⟨-, hDies⟩
      · simp only [hSame] at hPlace
        exact (hPlace.elim hNot fun h => h.elim hSpared hWait).elim
      · simp [hLeft, DaemonAt.Unprepared, DaemonAt.Window] at hPlace
      · simp [hDies, DaemonAt.Unprepared, DaemonAt.Window] at hPlace

/-- The workers have not died inside of `serve`. -/
theorem lives_step (h : ∀ v ∈ s.workers, v.Lives) (hStep : s.step rj pathEnv config act = some s') :
    ∀ v ∈ s'.workers, v.Lives :=
  (step_workers hStep).forall_mem h (fun _ _ _ _ _ hv _ hStep => hv.step hStep)
    fun _ => ⟨fun _ => rfl, rfl⟩

theorem Kept.step (h : s.Kept) (hInv : s.Inv) (hLives : ∀ v ∈ s.workers, v.Lives)
    (hSpared : s.Spared rj act) (hStep : s.step rj pathEnv config act = some s') : s'.Kept := by
  have hBoth : ∀ v ∈ s'.workers, (v.Inv ∧ v.Lives) ∧ v.Kept := by
    refine (step_workers hStep).forall_mem
      (fun v hv => ⟨⟨hInv.workers v hv, hLives v hv⟩, h.workers v hv⟩)
      (fun v v' a _ _ hv hSpares hStep => ?_) fun hPc => ?_
    · exact ⟨⟨hv.1.1.step hStep, hv.1.2.step hStep⟩, hv.2.step hv.1.1 hv.1.2 (hSpares hSpared) hStep⟩
    · exact ⟨⟨inv_forked config (hInv.handles_of_startWorkers hPc), fun _ => rfl, rfl⟩,
        kept_forked config s.daemon⟩
  have hWorkers : ∀ v ∈ s'.workers, v.Kept := fun v hv => (hBoth v hv).2
  cases act with
  | daemon a => exact h.daemonMoves hInv hSpared (daemonStep_moves hStep) hWorkers
  | worker i a =>
    obtain ⟨v, v', -, -, rfl⟩ := step_worker_eq hStep
    exact ⟨h.unset, hWorkers⟩
  | connect =>
    obtain rfl := Option.some.inj hStep
    exact ⟨h.unset, hWorkers⟩

theorem inv_initial : initial.Inv :=
  ⟨fun _ => rfl, fun _ => rfl, fun hNot => absurd trivial hNot, fun _ hv => absurd hv List.not_mem_nil⟩

theorem kept_initial : initial.Kept := ⟨fun _ => rfl, fun _ hv => absurd hv List.not_mem_nil⟩

-- ---------------------------------------------------------------------------
-- Shutdown
-- ---------------------------------------------------------------------------

/-- The daemon is inside `wait`, which has no worker to return. -/
def DaemonBlocked (s : Service) : Prop :=
  s.daemon.pc = .wait ∧ s.workers ≠ [] ∧ ∀ v ∈ s.workers, ¬ v.pc.Ended

/-- The worker is inside `accept`, and there is no client. -/
def Blocked (s : Service) (v : Server) : Prop := v.pc = .accept ∧ s.clients = 0

/-- **No shutdown is lost**, and no connection. -/
structure ShutdownKept (s : Service) : Prop where
  daemon : s.DaemonBlocked → s.daemon.context.terminated = true → s.daemon.context.pending = true
  worker : ∀ v ∈ s.workers, s.Blocked v → v.context.terminated = true → v.context.pending = true
  answered : ∀ v ∈ s.workers, v.pc.Ended → v.Settled

/-- **The shutdown**, in every run all of whose steps spare the windows. -/
theorem shutdown_of_run {acts : List ServiceAct}
    (hSpared : AllSteps (step rj pathEnv config) (Spared rj) initial acts)
    (hRun : run (step rj pathEnv config) initial acts = some s) : s.ShutdownKept := by
  obtain ⟨hInv, -, hKept⟩ := invariant_of_run
    (I := fun s => s.Inv ∧ (∀ v ∈ s.workers, v.Lives) ∧ s.Kept)
    (fun _ _ _ h hSpared hStep =>
      ⟨h.1.step hStep, lives_step h.2.1 hStep, h.2.2.step h.1 h.2.1 hSpared hStep⟩)
    ⟨inv_initial, fun _ hv => absurd hv List.not_mem_nil, kept_initial⟩ hSpared hRun
  refine ⟨fun hBlocked hSet => ?_, fun v hv hBlocked hSet => ?_, fun v hv => (hKept.workers v hv).ended⟩
  · rw [hKept.unset (.inr (.inr hBlocked.1))] at hSet
    cases hSet
  · rw [(hKept.workers v hv).unset (.inr hBlocked.1)] at hSet
    cases hSet

-- ---------------------------------------------------------------------------
-- What is not spared is lost
-- ---------------------------------------------------------------------------

theorem step_of_worker {i : Nat} {v v' : Server} {a : ServeAct} (hWorker : s.workers[i]? = some v)
    (hStep : v.step rj pathEnv (!decide s.daemon.pc.Ended) (0 < s.clients) a = some v') :
    s.step rj pathEnv config (.worker i a) =
      some { s.setWorker i v' with clients := s.clientsAfter a } := by
  simp only [step, hWorker, Option.bind_eq_bind, Option.bind_some, hStep]
  rfl

theorem setWorker_workers {i : Nat} {v : Server} (v' : Server) (hWorker : s.workers[i]? = some v) :
    (s.setWorker i v').workers[i]? = some v' :=
  List.getElem?_set_self (List.getElem?_eq_some_iff.mp hWorker).1

/-- A worker that goes on from the window blocks, whatever its flag. -/
theorem blocks_of_window {i : Nat} {v : Server} (hWorker : s.workers[i]? = some v)
    (hPc : v.pc.Window) : ∃ acts s' v', run (step rj pathEnv config) s acts = some s' ∧
      s'.workers[i]? = some v' ∧ s'.clients = s.clients ∧ v'.pc = .accept ∧
      v'.context.terminated = v.context.terminated ∧ v'.context.pending = v.context.pending := by
  cases hPlace : v.pc with
  | callAccept =>
    have hNext : v.step rj pathEnv (!decide s.daemon.pc.Ended) (0 < s.clients) .next =
        some { v with pc := .accept } := by
      simp only [Server.step, Server.next, hPlace]
    exact ⟨[.worker i .next], _, _, run_cons_eq_some.mpr ⟨_, step_of_worker hWorker hNext, rfl⟩,
      setWorker_workers _ hWorker, rfl, rfl, rfl, rfl⟩
  | interruptAccept =>
    have hFirst : v.step rj pathEnv (!decide s.daemon.pc.Ended) (0 < s.clients) .next =
        some { v with context := v.context.setRestart false, pc := .callAccept } := by
      simp only [Server.step, Server.next, hPlace]
    have hWorker' := setWorker_workers
      { v with context := v.context.setRestart false, pc := .callAccept } hWorker
    exact ⟨[.worker i .next, .worker i .next], _, _, run_cons_eq_some.mpr
        ⟨_, step_of_worker hWorker hFirst, run_cons_eq_some.mpr ⟨_, step_of_worker hWorker' rfl, rfl⟩⟩,
      setWorker_workers _ hWorker', rfl, rfl, rfl, rfl⟩
  | _ =>
    rw [hPlace] at hPc
    exact hPc.elim

/-- **A signal that does not spare a worker is lost**, if no client comes. -/
theorem lost_of_worker {i : Nat} (hInv : s.Inv) (hUnspared : ¬ s.Spared rj (.worker i .deliver))
    (hClients : s.clients = 0) (hStep : s.step rj pathEnv config (.worker i .deliver) = some s') :
    ∃ acts t, run (step rj pathEnv config) s' acts = some t ∧ ¬ t.ShutdownKept := by
  obtain ⟨v, v', hWorker, hDeliver, rfl⟩ := step_worker_eq hStep
  have hMember := setWorker_workers v' hWorker
  have hWorkerInv := hInv.workers v (List.mem_of_getElem? hWorker)
  obtain ⟨restart, hHandles, hFlag⟩ := hWorkerInv.handles
  have hPlaces : v.pc.Window ∨ v.pc.Partial := by
    by_contra hNeither
    rw [not_or] at hNeither
    refine hUnspared fun w hw => ?_
    obtain rfl := Option.some.inj (hWorker.symm.trans hw)
    exact hNeither
  cases Server.step_moves hDeliver with
  | delivers hThere hPc =>
    rw [hHandles.deliver] at hPc hMember ⊢
    change _ = v.interrupted restart at hPc
    rcases hPlaces with hWindow | hPartial
    · have hSame : v.interrupted restart = v.pc := by
        cases hPlace : v.pc <;> simp [hPlace, ServeAt.Window, Server.interrupted] at hWindow ⊢
      rw [hPc, hSame] at hMember
      rw [hPc, hSame]
      let s₁ : Service := { s.setWorker i { v with
        context := { v.context with pending := false, terminated := true } } with
        clients := s.clientsAfter .deliver }
      have hMember' : s₁.workers[i]? = some _ := hMember
      obtain ⟨acts, t, w, hRun, hw, hNone, hAccept, hSet, hPending⟩ := blocks_of_window hMember' hWindow
      refine ⟨acts, t, hRun, fun hKept => ?_⟩
      have hStill := hKept.worker w (List.mem_of_getElem? hw) ⟨hAccept, hNone.trans hClients⟩ hSet
      rw [hPending] at hStill
      cases hStill
    · have hDies : v.interrupted restart = .died := by
        rcases Server.interrupted_cases hFlag with ⟨-, hWhole, -⟩ | ⟨hAccept, -⟩ | ⟨-, hDies⟩
        · exact absurd hPartial hWhole
        · rw [hAccept] at hPartial
          exact hPartial.elim
        · exact hDies
      have hServing : v.pc.Serving := by
        cases hPlace : v.pc <;> simp [hPlace, ServeAt.Partial, ServeAt.Serving] at hPartial ⊢
      rw [hPc, hDies] at hMember
      rw [hPc, hDies]
      refine ⟨[], _, rfl, fun hKept => ?_⟩
      have hSettled := hKept.answered _ (List.mem_of_getElem? hMember) (by simp [ServeAt.Ended])
      have hAccepted := hWorkerInv.accepted hThere
      rw [if_pos hServing] at hAccepted
      have hCount : v.accepted = v.sent.length := hSettled.2
      omega

/-- A daemon that goes on from the window blocks, whatever its flag. -/
theorem blocks_of_startWorkers (room : Nat) (hRoom : config.numBoxes.toNat - s.workers.length = room)
    (hPc : s.daemon.pc = .startWorkers) (hSome : 0 < room ∨ s.workers ≠ [])
    (hThere : ∀ v ∈ s.workers, ¬ v.pc.Ended) :
    ∃ acts t, run (step rj pathEnv config) s acts = some t ∧ t.DaemonBlocked ∧
      t.daemon.context = s.daemon.context := by
  induction room generalizing s with
  | zero =>
    have hWorkers := hSome.resolve_left (Nat.lt_irrefl 0)
    have hNext : s.step rj pathEnv config (.daemon .next) =
        some { s with daemon := { s.daemon with pc := .callWait } } := by
      simp only [step, daemonStep, daemonNext, hPc]
      rw [if_neg (by omega)]
    exact ⟨[.daemon .next, .daemon .next], _, run_cons_eq_some.mpr ⟨_, hNext, rfl⟩,
      ⟨rfl, hWorkers, hThere⟩, rfl⟩
  | succ room ih =>
    have hNext : s.step rj pathEnv config (.daemon .next) =
        some { s with workers := s.workers ++ [forked config s.daemon] } := by
      simp only [step, daemonStep, daemonNext, hPc]
      rw [if_pos (by omega)]
    have hLess : config.numBoxes.toNat - (s.workers ++ [forked config s.daemon]).length = room := by
      rw [List.length_append, List.length_singleton]
      omega
    have hNew : ∀ v ∈ s.workers ++ [forked config s.daemon], ¬ v.pc.Ended := by
      intro v hv
      rcases List.mem_append.mp hv with hOld | hLast
      · exact hThere v hOld
      · rw [List.mem_singleton.mp hLast]
        simp [forked, ServeAt.Ended]
    obtain ⟨acts, t, hRun, hBlocked, hContext⟩ :=
      ih (s := { s with workers := s.workers ++ [forked config s.daemon] }) hLess hPc
        (.inr (by simp)) hNew
    exact ⟨.daemon .next :: acts, t, run_cons_eq_some.mpr ⟨_, hNext, hRun⟩, hBlocked, hContext⟩

theorem blocks_of_daemonWindow (hPc : s.daemon.pc.Window)
    (hSome : s.workers.length < config.numBoxes.toNat ∨ s.workers ≠ [])
    (hCalls : s.daemon.pc = .callWait → s.workers ≠ []) (hThere : ∀ v ∈ s.workers, ¬ v.pc.Ended) :
    ∃ acts t, run (step rj pathEnv config) s acts = some t ∧ t.DaemonBlocked ∧
      t.daemon.context = s.daemon.context := by
  have hRoom : 0 < config.numBoxes.toNat - s.workers.length ∨ s.workers ≠ [] :=
    hSome.imp (fun hLess => by omega) id
  cases hPlace : s.daemon.pc with
  | startWorkers => exact blocks_of_startWorkers _ rfl hPlace hRoom hThere
  | prepareSocket =>
    let s₁ : Service := { s with daemon := { s.daemon with pc := .startWorkers } }
    have hNext : s.step rj pathEnv config (.daemon .next) = some s₁ := by
      simp only [step, daemonStep, daemonNext, hPlace]
      rfl
    have hPlace' : s₁.daemon.pc = .startWorkers := rfl
    obtain ⟨acts, t, hRun, hBlocked, hContext⟩ := blocks_of_startWorkers _ rfl hPlace' hRoom hThere
    exact ⟨.daemon .next :: acts, t, run_cons_eq_some.mpr ⟨_, hNext, hRun⟩, hBlocked, hContext⟩
  | callWait =>
    have hNext : s.step rj pathEnv config (.daemon .next) =
        some { s with daemon := { s.daemon with pc := .wait } } := by
      simp only [step, daemonStep, daemonNext, hPlace]
    exact ⟨[.daemon .next], _, run_cons_eq_some.mpr ⟨_, hNext, rfl⟩, ⟨rfl, hCalls hPlace, hThere⟩, rfl⟩
  | _ =>
    rw [hPlace] at hPc
    exact hPc.elim

/-- **A signal that does not spare the daemon is lost**, if no worker ends. -/
theorem lost_of_daemon (hInv : s.Inv) (hUnspared : ¬ s.Spared rj (.daemon .deliver))
    (hSome : s.workers.length < config.numBoxes.toNat ∨ s.workers ≠ [])
    (hCalls : s.daemon.pc = .callWait → s.workers ≠ []) (hThere : ∀ v ∈ s.workers, ¬ v.pc.Ended)
    (hStep : s.step rj pathEnv config (.daemon .deliver) = some s') :
    ∃ acts t, run (step rj pathEnv config) s' acts = some t ∧ ¬ t.ShutdownKept := by
  have hWindow : s.daemon.pc.Window := Decidable.not_not.mp hUnspared
  have hDeliver : s.daemonStep config .deliver = some s' := hStep
  cases daemonStep_moves hDeliver with
  | delivers hRuns hPc =>
    rcases hInv.deliver hRuns with ⟨hUnprepared, -⟩ | ⟨-, hReturns⟩
    · cases hPlace : s.daemon.pc <;>
        simp [hPlace, DaemonAt.Unprepared, DaemonAt.Window] at hUnprepared hWindow
    · rw [hReturns] at hPc ⊢
      have hSame : daemonInterrupted false s.daemon.pc = s.daemon.pc := by
        cases hPlace : s.daemon.pc <;> simp [hPlace, DaemonAt.Window, daemonInterrupted] at hWindow ⊢
      change _ = daemonInterrupted false s.daemon.pc at hPc
      rw [hSame] at hPc
      subst hPc
      let s₁ : Service := { s with daemon := { s.daemon with
        context := { s.daemon.context with pending := false, terminated := true } } }
      have hWindow' : s₁.daemon.pc.Window := hWindow
      obtain ⟨acts, t, hRun, hBlocked, hContext⟩ := blocks_of_daemonWindow hWindow' hSome hCalls hThere
      refine ⟨acts, t, hRun, fun hKept => ?_⟩
      have hStill := hKept.daemon hBlocked (by rw [hContext])
      rw [hContext] at hStill
      cases hStill

-- ---------------------------------------------------------------------------
-- Runs
-- ---------------------------------------------------------------------------

/-- conf.json: one worker. -/
def confJson : Config where
  numBoxes := 1
  socketPath := lit "/etc/libsboxd/socket"
  firstUid := 5678
  boxDir := lit "/var/libsboxd/box"
  cgroupRoot := lit "/sys/fs/cgroup/"
  timerIntervalMs := 20

/-- The daemon is in `wait`, and its worker about to call `accept`. -/
def startRun : List ServiceAct :=
  List.replicate 6 (.daemon .next) ++ List.replicate 6 (.worker 0 .next)

/-- A client connects, the daemon is stopped, and its worker answers before it exits. -/
def stopRun : List ServiceAct :=
  let response := errorReply sampleRapidjson (requestIncorrect (lit "The document is empty.") 0)
  startRun ++ [.worker 0 .next, .connect, .worker 0 .connection, .worker 0 .next] ++
    -- wait() fails, and the daemon sends SIGTERM
    [.daemon .kill, .daemon .deliver] ++ List.replicate 4 (.daemon .next) ++
    [.worker 0 .deliver, .worker 0 (.received []), .worker 0 .next,
      .worker 0 (.transfer response.length)] ++ List.replicate 4 (.worker 0 .next) ++
    [.daemon .next, .daemon (.waits 0), .daemon .next]

theorem shutdown_of_stopRun :
    ∃ s, run (step sampleRapidjson none confJson) initial stopRun = some s ∧
      s.ShutdownKept ∧ s.daemon.pc = .exited := by
  have hStopped : (run (step sampleRapidjson none confJson) initial stopRun).map
      (fun s => s.daemon.pc) = some .exited := by decide +kernel
  obtain ⟨s, hRun, hPc⟩ := Option.map_eq_some_iff.mp hStopped
  exact ⟨s, hRun, shutdown_of_run (by decide +kernel) hRun, hPc⟩

/-- A worker that gets its `SIGTERM` in front of `accept`, and a daemon that gets one in
front of `wait`. -/
theorem lostStop :
    (¬ ∀ s, Reachable (step sampleRapidjson none confJson) initial s →
      ∀ v ∈ s.workers, s.Blocked v → v.context.terminated = true → v.context.pending = true) ∧
    ¬ ∀ s, Reachable (step sampleRapidjson none confJson) initial s →
      s.DaemonBlocked → s.daemon.context.terminated = true → s.daemon.context.pending = true := by
  constructor
  · intro hClaim
    have hLost : (run (step sampleRapidjson none confJson) initial
        (startRun ++ [.worker 0 .kill, .worker 0 .deliver, .worker 0 .next])).map
        (fun s => (s.clients, s.workers.map fun v => (v.pc, v.context.terminated, v.context.pending))) =
        some (0, [(.accept, true, false)]) := by decide +kernel
    obtain ⟨s, hRun, hSeen⟩ := Option.map_eq_some_iff.mp hLost
    obtain ⟨hClients, hWorkers⟩ := Prod.mk.inj hSeen
    obtain ⟨v, hv, hFlags⟩ := List.mem_map.mp (hWorkers ▸ List.mem_singleton_self _)
    simp only [Prod.mk.injEq] at hFlags
    have hPending := hClaim s ⟨_, hRun⟩ v hv ⟨hFlags.1, hClients⟩ hFlags.2.1
    rw [hFlags.2.2] at hPending
    cases hPending
  · intro hClaim
    have hLost : (run (step sampleRapidjson none confJson) initial
        (List.replicate 4 (.daemon .next) ++
          [.daemon .kill, .daemon .deliver, .daemon .next, .daemon .next])).map
        (fun s => (s.daemon.pc, s.daemon.context.terminated, s.daemon.context.pending,
          s.workers.map (·.pc))) = some (.wait, true, false, [.setpgrp]) := by decide +kernel
    obtain ⟨s, hRun, hSeen⟩ := Option.map_eq_some_iff.mp hLost
    simp only [Prod.mk.injEq] at hSeen
    obtain ⟨hPc, hSet, hPending, hWorkers⟩ := hSeen
    have hBlocked : s.DaemonBlocked := by
      refine ⟨hPc, fun hNone => ?_, fun v hv hEnded => ?_⟩
      · rw [hNone] at hWorkers
        cases hWorkers
      · have hPlace : v.pc ∈ s.workers.map (·.pc) := List.mem_map_of_mem hv
        rw [hWorkers, List.mem_singleton] at hPlace
        simp [hPlace, ServeAt.Ended] at hEnded
    have hStill := hClaim s ⟨_, hRun⟩ hBlocked hSet
    rw [hPending] at hStill
    cases hStill

end Service

end Libsbox
