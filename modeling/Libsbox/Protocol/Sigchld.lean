import Libsbox.Protocol.Deaths
import Libsbox.Protocol.Invariant

/-!
# libsbox — the `SIGCHLD` of the worker

A container that ends, through `_exit(0)` or through `die`, sends `SIGCHLD` to its worker.
Signals of one number do not queue: while one is pending the kernel drops the next, and
`Worker::sigchld_action` sees what the first is about. `Sys.workerSigchld` lets the handler
run for each container that has died; here it runs for the signal that is pending.

## Results

* `reachable_sys` — the system without the pending signal runs as `Sys` does;
* `Noticed.step` — as long as no container dies while the signal of another one that has
  exited with 0 is pending, the worker lives with a dead container only until it handles
  the signal.
-/

namespace Libsbox

open CMemory Runs

/-- The system and the `SIGCHLD` that is pending for the worker: whether the container that
it is about has exited with 0. -/
structure Signaled where
  sys : Sys
  sigchld : Option Bool := none

inductive SignaledAct where
  | sys (a : Act)
  /-- `Worker::sigchld_action` is called. -/
  | deliver

namespace Sys

/-- The `SIGCHLD` that a step sends to the worker. A container that has been killed has no
worker any more. -/
def sends (s s' : Sys) (a : Act) : Option Bool :=
  match a.box? with
  | none => none
  | some c =>
    if (s'.box c).pc = (s.box c).pc then none
    else
      match (s'.box c).pc with
      | .exited => some true
      | .died => some false
      | _ => none

end Sys

namespace Signaled

def initial (firstUid : Uid) : Signaled := { sys := .initial firstUid }

def step (pathEnv : Option Str) (s : Signaled) : SignaledAct → Option Signaled
  | .sys (.workerSigchld _) => none
  | .sys a => do
    let sys ← s.sys.step pathEnv a
    return { sys, sigchld := s.sigchld.or (s.sys.sends sys a) }
  | .deliver =>
    if s.sys.alive then
      match s.sigchld with
      | none => none
      | some true => some { s with sigchld := none }
      | some false => some { sys := s.sys.die }
    else none

variable {pathEnv : Option Str} {s s' : Signaled} {a : SignaledAct} {c : BoxId}

/-- A step is one of the system, in which the kernel keeps the signal that is pending, or the
handler. -/
inductive Moves (pathEnv : Option Str) (s : Signaled) : SignaledAct → Signaled → Prop where
  | sys {a : Act} {sys : Sys} (hOwn : ∀ c, a ≠ .workerSigchld c)
    (hStep : s.sys.step pathEnv a = some sys) :
    Moves _ _ (.sys a) { sys, sigchld := s.sigchld.or (s.sys.sends sys a) }
  | returns (hAlive : s.sys.alive = true) (hPending : s.sigchld = some true) :
    Moves _ _ .deliver { s with sigchld := none }
  | dies (hAlive : s.sys.alive = true) (hPending : s.sigchld = some false) :
    Moves _ _ .deliver { sys := s.sys.die }

theorem step_moves (hStep : s.step pathEnv a = some s') : s.Moves pathEnv a s' := by
  unfold step at hStep
  split at hStep
  · cases hStep
  · rename_i a hOwn
    simp only [Option.bind_eq_bind, Option.bind_eq_some_iff] at hStep
    obtain ⟨sys, hSys, hEq⟩ := hStep
    exact Option.some.inj hEq ▸ .sys hOwn hSys
  · split at hStep
    · rename_i hAlive
      split at hStep
      · cases hStep
      · exact Option.some.inj hStep ▸ .returns hAlive ‹_›
      · exact Option.some.inj hStep ▸ .dies hAlive ‹_›
    · cases hStep

-- ---------------------------------------------------------------------------
-- What a signal is about
-- ---------------------------------------------------------------------------

/-- A container that has died stays where it is. -/
theorem died_step {s s' : Sys} {a : Act} (hInv : s.Inv) (hStep : s.step pathEnv a = some s')
    (hDied : (s.box c).pc = .died) : (s'.box c).pc = .died := by
  rcases Sys.step_box hStep c with ⟨p, hMoves⟩ | hWorked
  · generalize s'.box c = b' at hMoves
    cases hMoves <;> grind [Box.stop, Box.slaveEnds, Box.Alive, ContainerAt.Precedes, ContainerAt.CanFail]
  · generalize s'.box c = b' at hWorked
    cases hWorked with
    | started hAlive hWorker hTask hNew =>
      -- a new container has been nowhere before
      have hSeated := (hInv.boxes c _ (.unborn (Nat.le_of_eq hNew.symm))).seated
      rw [Box.Seated, hDied] at hSeated
      exact absurd rfl hSeated.1
    | _ => exact hDied

/-- A signal about a container that has died comes from one. -/
def Honest (s : Signaled) : Prop := s.sigchld = some false → ∃ c, (s.sys.box c).pc = .died

theorem diesIn_of_sends {s s' : Sys} {a : Act} (h : s.sends s' a = some false) :
    ∃ c, s.DiesIn s' c := by
  unfold Sys.sends at h
  split at h
  · cases h
  · rename_i c hBox
    split at h
    · cases h
    · rename_i hNew
      split at h
      · cases h
      · rename_i hDied
        exact ⟨c, hDied, fun hOld => hNew (hDied.trans hOld.symm)⟩
      · cases h

theorem sends_of_diesIn {s s' : Sys} {a : Act} (hDies : s.DiesIn s' c)
    (hStep : s.step pathEnv a = some s') : s.sends s' a = some false := by
  have hBox := (Sys.loses_of_diesIn hDies hStep).2
  obtain ⟨hDied, hNot⟩ := hDies
  simp only [Sys.sends, hBox, hDied, if_neg (Ne.symm hNot)]

/-- **The system without the pending signal runs as `Sys` does.** -/
theorem reachable_sys {firstUid : Uid}
    (hReach : Reachable (step pathEnv) (initial firstUid) s) :
    Reachable (Sys.step pathEnv) (.initial firstUid) s.sys ∧ s.Honest := by
  refine invariant_of_reachable
    (I := fun s => Reachable (Sys.step pathEnv) (.initial firstUid) s.sys ∧ s.Honest)
    (fun s a s' h hStep => ?_) ⟨⟨[], rfl⟩, fun h => by cases h⟩ hReach
  obtain ⟨hSys, hHonest⟩ := h
  cases step_moves hStep with
  | @sys a sys hOwn hMove =>
    refine ⟨hSys.snoc hMove, fun hPending => ?_⟩
    change s.sigchld.or (s.sys.sends sys a) = some false at hPending
    rcases Option.or_eq_some_iff.mp hPending with hOld | ⟨-, hNew⟩
    · obtain ⟨c, hDied⟩ := hHonest hOld
      exact ⟨c, died_step (Sys.inv_of_reachable hSys) hMove hDied⟩
    · obtain ⟨c, hDied, -⟩ := diesIn_of_sends hNew
      exact ⟨c, hDied⟩
  | returns => exact ⟨hSys, fun h => by cases h⟩
  | dies hAlive hPending =>
    obtain ⟨c, hDied⟩ := hHonest hPending
    have hHandled : s.sys.step pathEnv (.workerSigchld c) = some s.sys.die := by
      simp [Sys.step, Sys.workerSigchld, hAlive, hDied]
    exact ⟨hSys.snoc hHandled, fun h => by cases h⟩

theorem inv_of_reachable {firstUid : Uid}
    (hReach : Reachable (step pathEnv) (initial firstUid) s) : s.sys.Inv :=
  Sys.inv_of_reachable (reachable_sys hReach).1

-- ---------------------------------------------------------------------------
-- What the worker learns
-- ---------------------------------------------------------------------------

/-- The step is one that the worker dies of. -/
def Kills (s : Signaled) : SignaledAct → Prop
  | .sys a => s.sys.alive = true ∧ s.sys.Kills a
  | .deliver => s.sigchld = some false

theorem kills_of_step (hStep : s.step pathEnv a = some s') (hAlive : s.sys.alive = true)
    (hDead : s'.sys.alive = false) : s.Kills a := by
  cases step_moves hStep with
  | sys hOwn hSys => exact ⟨hAlive, (Sys.dies_iff_of_step hAlive hSys).mp hDead⟩
  | returns =>
    rw [hAlive] at hDead
    cases hDead
  | dies _ hPending => exact hPending

/-- What a step finds that leaves the worker alive. -/
theorem survives (hStep : s.step pathEnv a = some s') (hAlive : s'.sys.alive = true) :
    s.sys.alive = true ∧ ¬ s.Kills a := by
  cases step_moves hStep with
  | sys hOwn hSys =>
    have hBefore : s.sys.alive = true := by
      rcases Sys.step_alive hSys with hSame | rfl
      · exact hSame ▸ hAlive
      · cases hAlive
    refine ⟨hBefore, fun hKills => ?_⟩
    have hDead := (Sys.dies_iff_of_step hBefore hSys).mpr hKills.2
    rw [hDead] at hAlive
    cases hAlive
  | returns hThere hPending =>
    refine ⟨hThere, fun hKills => ?_⟩
    cases hPending.symm.trans hKills
  | dies => cases hAlive

/-- The step merges the signal of a container that dies into one about a container that has
exited with 0. -/
def Merges (s : Signaled) : SignaledAct → Prop
  | .sys a => s.sigchld = some true ∧ s.sys.Loses a
  | .deliver => False

instance (s : Signaled) (a : SignaledAct) : Decidable (s.Merges a) := by
  unfold Merges
  split <;> infer_instance

/-- A worker that lives while a container has died has still to handle the signal. -/
def Noticed (s : Signaled) : Prop :=
  s.sys.alive = true → ∀ c, (s.sys.box c).pc = .died → s.sigchld = some false

theorem noticed_initial (firstUid : Uid) : (initial firstUid).Noticed := by
  intro _ c hDied
  cases hDied

theorem Noticed.step (h : s.Noticed) (hNot : ¬ s.Merges a) (hStep : s.step pathEnv a = some s') :
    s'.Noticed := by
  intro hAlive c hDied
  cases step_moves hStep with
  | @sys a sys hOwn hSys =>
    change (sys.box c).pc = .died at hDied
    show s.sigchld.or (s.sys.sends sys a) = some false
    have hBefore := (survives hStep hAlive).1
    by_cases hOld : (s.sys.box c).pc = .died
    · rw [h hBefore c hOld]
      rfl
    · have hSends := sends_of_diesIn ⟨hDied, hOld⟩ hSys
      have hLoses := (Sys.loses_iff_of_step hSys).mpr ⟨c, hDied, hOld⟩
      rw [hSends]
      cases hPending : s.sigchld with
      | none => rfl
      | some clean =>
        cases clean with
        | true => exact absurd ⟨hPending, hLoses⟩ hNot
        | false => rfl
  | returns hThere hPending =>
    rw [h hThere c hDied] at hPending
    cases hPending
  | dies => cases hAlive

end Signaled

end Libsbox
