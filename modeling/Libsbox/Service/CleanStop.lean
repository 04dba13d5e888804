import Libsbox.Service.Shutdown

/-!
# libsbox — a daemon that exits

`Daemon::run` ends with `_exit(0)` only on one way: a `SIGTERM` has made its `wait` fail,
all workers have been sent `SIGTERM`, and `wait` has returned each of them once, with the
status of a worker that has left its loop. Everything else ends in `die`.

A worker leaves its loop only between two connections and only when it has been told to,
so whatever was accepted before the daemon exits has its response.

## Results

* `Server.Leaves.step` — a worker that exits has been told to and owes nothing;
* `Drains.step` — what the last loop of `run` has waited for;
* `stopped_of_reachable` — what holds when the daemon has exited.
-/

namespace Libsbox

open CMemory Runs

-- ---------------------------------------------------------------------------
-- Workers
-- ---------------------------------------------------------------------------

namespace Server

/-- What holds of a worker that leaves its loop. -/
structure Leaves (v : Server) : Prop where
  asked : v.pc = .exit ∨ v.pc = .exited → v.context.terminated = true
  settled : v.pc = .exited → v.Settled

variable {rj : Rapidjson} {pathEnv : Option Str} {daemonAlive clients : Bool}
variable {v v' : Server} {a : ServeAct}

/-- A worker elsewhere leaves nothing yet. -/
theorem leaves_of_away (hAway : v.pc ≠ .exit ∧ v.pc ≠ .exited) : v.Leaves :=
  ⟨fun h => (h.elim hAway.1 hAway.2).elim, fun h => absurd h hAway.2⟩

theorem leaves_processed (v : Server) (worker : Worker) : (v.processed worker).Leaves := by
  refine leaves_of_away ?_
  unfold processed
  constructor <;> (dsimp only; split_ifs <;> simp)

/-- What has exited stays as it is, but for a signal that is sent to it. -/
theorem step_exited (hPc : v.pc = .exited) (hStep : v.step rj pathEnv daemonAlive clients a = some v') :
    v' = { v with context := { v.context with pending := true } } := by
  have hEnded : v.pc.Ended := .inl hPc
  cases a with
  | kill => exact (Option.some.inj hStep).symm
  | connection => simp [step, hPc] at hStep
  | work wa => simp [step, work, hEnded] at hStep
  | deliver => simp [step, deliver, hEnded] at hStep
  | parentDied => simp [step, hEnded] at hStep
  | _ => simp [step, next, received, transfer, fail, hPc] at hStep

theorem interrupted_ne_exit (hPc : v.pc ≠ .exit ∧ v.pc ≠ .exited) (restart : Bool) :
    v.interrupted restart ≠ .exit ∧ v.interrupted restart ≠ .exited := by
  unfold interrupted
  split
  · split_ifs <;> simp
  · split_ifs <;> simp
  · split
    · split_ifs <;> simp
    · simp
  · split_ifs <;> simp
  · exact hPc

/-- Every step keeps what holds of a worker that leaves. -/
theorem Leaves.step (h : v.Leaves) (hInv : v.Inv)
    (hStep : v.step rj pathEnv daemonAlive clients a = some v') : v'.Leaves := by
  by_cases hExited : v.pc = .exited
  · obtain rfl := step_exited hExited hStep
    exact ⟨h.asked, h.settled⟩
  have hStays : v.pc ≠ .exit → v.pc ≠ .exit ∧ v.pc ≠ .exited := fun hNot => ⟨hNot, hExited⟩
  cases step_moves hStep with
  | goesOn hGoesOn =>
    have hAsked := h.asked
    have hThere : ¬ v.pc.Ended → ¬ v.pc.Serving → v.Settled := hInv.settled
    generalize hPc : v.pc = p at hGoesOn hAsked hThere
    cases hGoesOn with
    | stops hSet | breaks hSet => exact ⟨fun _ => hSet, nofun⟩
    | exit =>
      refine ⟨fun _ => hAsked (.inl rfl), fun _ => ?_⟩
      exact hThere (by simp [ServeAt.Ended]) id
    | _ => exact leaves_of_away (by simp)
  | calls | works => exact leaves_processed v _
  | receives hPc hNext =>
    refine leaves_of_away ?_
    rcases hNext with rfl | rfl <;> simp
  | waits hThere hPc hWork =>
    split
    · exact ⟨h.asked, fun hExit => absurd hExit hExited⟩
    · exact leaves_of_away (by simp)
  | kill => exact ⟨h.asked, fun hExit => absurd hExit hExited⟩
  | delivers hThere hPc =>
    obtain ⟨restart, hHandles, -⟩ := hInv.handles
    rw [hHandles.deliver] at hPc ⊢
    subst hPc
    refine ⟨fun _ => rfl, fun hExit => ?_⟩
    change v.interrupted restart = .exited at hExit
    by_cases hLeaving : v.pc = .exit
    · simp [interrupted, hLeaving] at hExit
    · exact absurd hExit (interrupted_ne_exit (hStays hLeaving) restart).2
  | _ => exact leaves_of_away (by simp)

end Server

-- ---------------------------------------------------------------------------
-- The daemon
-- ---------------------------------------------------------------------------

namespace DaemonAt

/-- The first loop of `run` has been left because of a `SIGTERM`. -/
def Stopping : DaemonAt → Prop
  | .unlinkSocket | .closeSocket | .killWorkers _ | .waitWorkers _ | .exited => True
  | _ => False

/-- How many of the workers the last loop has waited for. -/
def waited? (workers : Nat) : DaemonAt → Option Nat
  | .waitWorkers count => some count
  | .exited => some workers
  | .died | .killed => none
  | _ => some 0

/-- What is known of the number of workers. -/
def Crew (workers boxes : Nat) : DaemonAt → Prop
  | .prepare | .prepareSignals | .prepareSocket => workers = 0
  | .startWorkers => workers ≤ boxes
  | .died | .killed => True
  | _ => workers = boxes

end DaemonAt

namespace Service

/-- The workers that `wait` has returned, and that they had exited. -/
structure Drains (config : Config) (s : Service) : Prop where
  crew : s.daemon.pc.Crew s.workers.length config.numBoxes.toNat
  asked : s.daemon.pc.Stopping → s.daemon.context.terminated = true
  waited : ∀ count, s.daemon.pc.waited? s.workers.length = some count → s.reaped.length = count
  nodup : s.reaped.Nodup
  exited : s.daemon.pc ≠ .died → s.daemon.pc ≠ .killed →
    ∀ j ∈ s.reaped, ∃ v, s.workers[j]? = some v ∧ v.pc = .exited

variable {rj : Rapidjson} {pathEnv : Option Str} {config : Config} {s s' : Service}
variable {act : ServiceAct}

/-- A worker that has exited still has when one of the workers has made a step. -/
theorem exited_set {i j : Nat} {v v' : Server} (hWorker : s.workers[i]? = some v)
    (hKeeps : v.pc = .exited → v'.pc = .exited)
    (hExited : ∃ w, s.workers[j]? = some w ∧ w.pc = .exited) :
    ∃ w, (s.workers.set i v')[j]? = some w ∧ w.pc = .exited := by
  obtain ⟨w, hAt, hPc⟩ := hExited
  by_cases hSame : i = j
  · subst hSame
    obtain rfl := Option.some.inj (hWorker.symm.trans hAt)
    exact ⟨v', List.getElem?_set_self (List.getElem?_eq_some_iff.mp hAt).1, hKeeps hPc⟩
  · exact ⟨w, by rw [List.getElem?_set_ne hSame]; exact hAt, hPc⟩

/-- A step of the daemon that waits for nobody. -/
theorem Drains.goTo (h : s.Drains config) {pc : DaemonAt} {context : Context}
    (hThere : s.daemon.pc ≠ .died ∧ s.daemon.pc ≠ .killed)
    (hCrew : pc.Crew s.workers.length config.numBoxes.toNat)
    (hAsked : pc.Stopping → context.terminated = true)
    (hWaited : ∀ count, pc.waited? s.workers.length = some count → s.reaped.length = count) :
    { s with daemon := { pc, context } }.Drains config :=
  ⟨hCrew, hAsked, hWaited, h.nodup, fun _ _ => h.exited hThere.1 hThere.2⟩

/-- A daemon that has ended otherwise than by `_exit(0)`. -/
theorem Drains.dies (h : s.Drains config) {pc : DaemonAt} {context : Context}
    (hPc : pc = .died ∨ pc = .killed) : { s with daemon := { pc, context } }.Drains config := by
  rcases hPc with rfl | rfl
  · exact ⟨trivial, nofun, nofun, h.nodup, fun hNot => absurd rfl hNot⟩
  · exact ⟨trivial, nofun, nofun, h.nodup, fun _ hNot => absurd rfl hNot⟩

/-- No worker is waited for twice. -/
theorem Drains.reaped_subperm (h : s.Drains config) (hDied : s.daemon.pc ≠ .died)
    (hKilled : s.daemon.pc ≠ .killed) : s.reaped.Subperm (List.range s.workers.length) := by
  refine h.nodup.subperm fun j hj => ?_
  obtain ⟨v, hWorker, -⟩ := h.exited hDied hKilled j hj
  exact List.mem_range.mpr (List.getElem?_eq_some_iff.mp hWorker).1

/-- The next call of the daemon. -/
theorem Drains.next (h : s.Drains config) (hStep : s.daemonNext config = some s') :
    s'.Drains config := by
  have hCrew := h.crew
  have hAsked := h.asked
  have hWaited := h.waited
  unfold daemonNext at hStep
  cases hPc : s.daemon.pc
  all_goals
    rw [hPc] at hCrew hAsked hWaited
    simp only [hPc, reduceCtorEq] at hStep
  case prepare | prepareSignals =>
    obtain rfl := Option.some.inj hStep
    exact h.goTo (by simp [hPc]) hCrew nofun hWaited
  case prepareSocket =>
    obtain rfl := Option.some.inj hStep
    refine h.goTo (by simp [hPc]) ?_ nofun hWaited
    have hNone : s.workers.length = 0 := hCrew
    show s.workers.length ≤ _
    omega
  case startWorkers =>
    have hUpTo : s.workers.length ≤ config.numBoxes.toNat := hCrew
    have hNobody : s.reaped.length = 0 := hWaited 0 rfl
    split at hStep
    · obtain rfl := Option.some.inj hStep
      refine ⟨?_, by simp [hPc, DaemonAt.Stopping], fun count hCount => ?_, h.nodup, fun _ _ j hj => ?_⟩
      · show DaemonAt.Crew (s.workers ++ [_]).length _ s.daemon.pc
        rw [hPc, List.length_append]
        show s.workers.length + 1 ≤ _
        omega
      · change DaemonAt.waited? _ s.daemon.pc = _ at hCount
        rw [hPc] at hCount
        exact hNobody.trans (Option.some.inj hCount)
      · rw [List.length_eq_zero_iff] at hNobody
        change j ∈ s.reaped at hj
        rw [hNobody] at hj
        cases hj
    · obtain rfl := Option.some.inj hStep
      refine h.goTo (by simp [hPc]) ?_ nofun hWaited
      show s.workers.length = _
      omega
  case callWait =>
    obtain rfl := Option.some.inj hStep
    exact h.goTo (by simp [hPc]) hCrew nofun hWaited
  case wait =>
    split at hStep
    · obtain rfl := Option.some.inj hStep
      exact h.goTo (by simp [hPc]) hCrew nofun hWaited
    · cases hStep
  case waitFailed =>
    obtain rfl := Option.some.inj hStep
    split_ifs with hSet
    · exact h.goTo (by simp [hPc]) hCrew (fun _ => hSet) hWaited
    · exact h.dies (.inl rfl)
  case unlinkSocket | closeSocket =>
    obtain rfl := Option.some.inj hStep
    exact h.goTo (by simp [hPc]) hCrew (fun _ => hAsked trivial) hWaited
  case killWorkers i =>
    split at hStep
    · obtain rfl := Option.some.inj hStep
      exact h.goTo (by simp [hPc]) hCrew (fun _ => hAsked trivial) hWaited
    · rename_i v hWorker
      obtain rfl := Option.some.inj hStep
      have hLength : (s.setWorker i { v with context := { v.context with pending := true } }).workers.length =
          s.workers.length := List.length_set ..
      have hExited := h.exited (by simp [hPc]) (by simp [hPc])
      refine ⟨?_, fun _ => hAsked trivial, ?_, h.nodup, fun _ _ j hj => ?_⟩
      · show (s.setWorker i _).workers.length = _
        rw [hLength]
        exact hCrew
      · exact hWaited
      · exact exited_set hWorker id (hExited j hj)
  case waitWorkers count =>
    split at hStep
    · cases hStep
    · rename_i hAll
      obtain rfl := Option.some.inj hStep
      refine h.goTo (by simp [hPc]) hCrew (fun _ => hAsked trivial) fun all hCount => ?_
      have hReaped : s.reaped.length = count := hWaited count rfl
      have hWorkers : s.workers.length = all := Option.some.inj hCount
      have hMost := (h.reaped_subperm (by simp [hPc]) (by simp [hPc])).length_le
      rw [List.length_range] at hMost
      omega

/-- `wait` returns a worker. -/
theorem Drains.waits (h : s.Drains config) {j : Nat} (hStep : s.daemonWaits j = some s') :
    s'.Drains config := by
  have hCrew := h.crew
  have hAsked := h.asked
  have hWaited := h.waited
  unfold daemonWaits at hStep
  split at hStep
  · cases hStep
  · rename_i v hWorker
    split at hStep
    · rename_i hEnded
      have hNodup : (j :: s.reaped).Nodup := List.nodup_cons.mpr ⟨hEnded.2, h.nodup⟩
      have hDies : ({ s with daemon := { s.daemon with pc := .died }, reaped := j :: s.reaped } :
          Service).Drains config :=
        ⟨trivial, nofun, nofun, hNodup, fun hNot => absurd rfl hNot⟩
      split at hStep
      · exact Option.some.inj hStep ▸ hDies
      · rename_i count hPc
        rw [hPc] at hCrew hAsked hWaited
        split at hStep
        · obtain rfl := Option.some.inj hStep
          split_ifs with hExit
          · refine ⟨hCrew, fun _ => hAsked trivial, fun all hCount => ?_, hNodup, fun _ _ i hi => ?_⟩
            · have hReaped : s.reaped.length = count := hWaited count rfl
              have hNext : count + 1 = all := Option.some.inj hCount
              show s.reaped.length + 1 = all
              omega
            · rcases List.mem_cons.mp hi with rfl | hOld
              · exact ⟨v, hWorker, hExit⟩
              · exact h.exited (by simp [hPc]) (by simp [hPc]) i hOld
          · exact hDies
        · cases hStep
      · cases hStep
    · cases hStep

/-- **Every step keeps the account of what has been waited for.** -/
theorem Drains.step (h : s.Drains config) (hInv : s.Inv)
    (hStep : s.step rj pathEnv config act = some s') : s'.Drains config := by
  cases act with
  | connect =>
    obtain rfl := Option.some.inj hStep
    exact ⟨h.crew, h.asked, h.waited, h.nodup, h.exited⟩
  | worker i a =>
    obtain ⟨v, v', hWorker, hWorkerStep, rfl⟩ := step_worker_eq hStep
    have hLength : (s.workers.set i v').length = s.workers.length := List.length_set ..
    have hKeeps : v.pc = .exited → v'.pc = .exited := fun hPc => by
      rw [Server.step_exited hPc hWorkerStep]
      exact hPc
    refine ⟨?_, h.asked, ?_, h.nodup, fun hDied hKilled j hj => ?_⟩
    · show s.daemon.pc.Crew (s.workers.set i v').length _
      rw [hLength]
      exact h.crew
    · intro count hCount
      change s.daemon.pc.waited? (s.workers.set i v').length = some count at hCount
      rw [hLength] at hCount
      exact h.waited count hCount
    · exact exited_set hWorker hKeeps (h.exited hDied hKilled j hj)
  | daemon a =>
    cases a with
    | next => exact h.next hStep
    | waits j => exact h.waits hStep
    | fail =>
      simp only [step, daemonStep, daemonFail] at hStep
      split at hStep
      all_goals first
        | exact Option.some.inj hStep ▸ h.dies (.inl rfl)
        | cases hStep
    | kill =>
      obtain rfl := Option.some.inj hStep
      exact ⟨h.crew, h.asked, h.waited, h.nodup, h.exited⟩
    | deliver =>
      simp only [step, daemonStep, daemonDeliver] at hStep
      split at hStep
      · rename_i hPending
        obtain rfl := Option.some.inj hStep
        rcases hInv.deliver hPending.2 with ⟨-, hKilled⟩ | ⟨-, hReturns⟩
        · rw [hKilled]
          exact h.dies (.inr rfl)
        · rw [hReturns]
          have hThere : s.daemon.pc ≠ .died ∧ s.daemon.pc ≠ .killed := by
            have hNot := hPending.2
            simp only [DaemonAt.Ended, not_or] at hNot
            exact hNot.2
          show ({ s with daemon := { pc := daemonInterrupted false s.daemon.pc, context := _ } } :
            Service).Drains config
          rcases daemonInterrupted_cases s.daemon.pc with ⟨-, hSame⟩ | ⟨hWait, hLeft⟩ | ⟨-, hDies⟩
          · rw [hSame]
            exact h.goTo hThere h.crew (fun _ => rfl) h.waited
          · rw [hLeft]
            have hCrew := h.crew
            have hWaited := h.waited
            rw [hWait] at hCrew hWaited
            exact h.goTo hThere hCrew (fun hStopping => False.elim hStopping) hWaited
          · rw [hDies]
            exact h.dies (.inl rfl)
      · cases hStep

theorem drains_initial (config : Config) : initial.Drains config :=
  ⟨rfl, nofun, fun _ hCount => Option.some.inj hCount, List.nodup_nil, fun _ _ _ hj => absurd hj List.not_mem_nil⟩

-- ---------------------------------------------------------------------------
-- The daemon exits
-- ---------------------------------------------------------------------------

/-- What a daemon that has exited with 0 leaves behind. -/
structure Stopped (config : Config) (s : Service) : Prop where
  asked : s.daemon.context.terminated = true
  started : s.workers.length = config.numBoxes.toNat
  waited : s.reaped.Perm (List.range s.workers.length)
  exited : ∀ v ∈ s.workers, v.pc = .exited
  told : ∀ v ∈ s.workers, v.context.terminated = true
  answered : ∀ v ∈ s.workers, v.sent = v.worker.replies ∧ v.accepted = v.sent.length

/-- **A daemon that exits has stopped everything**: it was told to, `wait` has returned
each of its workers once, and each of these had exited, told to and with a response
written for every connection it had accepted. -/
theorem stopped_of_reachable (hReach : Reachable (step rj pathEnv config) initial s)
    (hPc : s.daemon.pc = .exited) : s.Stopped config := by
  obtain ⟨hInv, hDrains, hLeaves⟩ : s.Inv ∧ s.Drains config ∧ ∀ v ∈ s.workers, v.Leaves := by
    refine invariant_of_reachable
      (I := fun s => s.Inv ∧ s.Drains config ∧ ∀ v ∈ s.workers, v.Leaves)
      (fun s act s' h hStep => ⟨h.1.step hStep, h.2.1.step h.1 hStep, ?_⟩)
      ⟨inv_initial, drains_initial config, fun _ hv => absurd hv List.not_mem_nil⟩ hReach
    have hBoth : ∀ v ∈ s'.workers, v.Inv ∧ v.Leaves := by
      refine (step_workers hStep).forall_mem (fun v hv => ⟨h.1.workers v hv, h.2.2 v hv⟩)
        (fun v v' a _ _ hv _ hStep => ⟨hv.1.step hStep, hv.2.step hv.1 hStep⟩) fun hStart => ?_
      have hNew : (forked config s.daemon).Leaves := Server.leaves_of_away (by simp [forked])
      exact ⟨inv_forked config (h.1.handles_of_startWorkers hStart), hNew⟩
    exact fun v hv => (hBoth v hv).2
  have hAsked := hDrains.asked
  have hCrew := hDrains.crew
  have hWaited := hDrains.waited
  rw [hPc] at hAsked hCrew hWaited
  have hAll : s.reaped.length = s.workers.length := hWaited _ rfl
  have hPerm : s.reaped.Perm (List.range s.workers.length) := by
    refine (hDrains.reaped_subperm (by simp [hPc]) (by simp [hPc])).perm_of_length_le ?_
    rw [List.length_range]
    omega
  have hExited : ∀ v ∈ s.workers, v.pc = .exited := by
    intro v hv
    obtain ⟨j, hj, hAt⟩ := List.mem_iff_getElem.mp hv
    have hMem : j ∈ s.reaped := hPerm.mem_iff.mpr (List.mem_range.mpr hj)
    obtain ⟨w, hWorker, hEnd⟩ := hDrains.exited (by simp [hPc]) (by simp [hPc]) j hMem
    rw [List.getElem?_eq_getElem hj, hAt] at hWorker
    rw [Option.some.inj hWorker]
    exact hEnd
  exact ⟨hAsked trivial, hCrew, hPerm, hExited, fun v hv => (hLeaves v hv).asked (.inr (hExited v hv)),
    fun v hv => (hLeaves v hv).settled (hExited v hv)⟩

theorem stopped_of_stopRun :
    ∃ s, run (step sampleRapidjson none confJson) initial stopRun = some s ∧
      s.Stopped confJson := by
  have hStopped : (run (step sampleRapidjson none confJson) initial stopRun).map
      (fun s => s.daemon.pc) = some .exited := by decide +kernel
  obtain ⟨s, hRun, hPc⟩ := Option.map_eq_some_iff.mp hStopped
  exact ⟨s, hRun, stopped_of_reachable ⟨_, hRun⟩ hPc⟩

end Service

end Libsbox
