import Mathlib.Logic.Function.Basic
import Mathlib.Tactic.Common

/-!
# libsbox — signals

The signal actions of signals.cpp. An action is a shared constant, and `apply_to` sets
and clears `SA_RESTART` in the constant itself around the call of `sigaction`; what the
kernel has been told of a signal is a copy.

The handler of `SIGTERM` sets a flag (`ContextManager::terminate`) and returns to the call
that it has interrupted; the flag of the copy says whether this call goes on or fails.

## Results

* `setStandardHandlerRestart_action` — the flag is the one asked for, each time.
* `prepareSignals_action` — all signals of the table have their action, without the flag.
-/

namespace Libsbox

/-- The keys of `signal_actions`; `SIGIOT` is `SIGABRT`. -/
inductive Signal where
  | sigusr1 | sigusr2 | sigpipe | sighup | sigquit | sigill | sigabrt | sigbus | sigfpe
  | sigint | sigterm | sigalrm | sigchld
  deriving DecidableEq

/-- The constants of `SignalAction`. -/
inductive SignalAction where
  | ignore
  | default
  | abort
  | terminate
  | timer
  deriving DecidableEq

def signalActions : Signal → SignalAction
  | .sigusr1 | .sigusr2 | .sigpipe => .ignore
  | .sighup | .sigquit | .sigill | .sigabrt | .sigbus | .sigfpe | .sigint => .abort
  | .sigterm => .terminate
  | .sigalrm => .timer
  | .sigchld => .default

/-- The table in the order of a `std::map`. -/
def Signal.all : List Signal :=
  [.sighup, .sigint, .sigquit, .sigill, .sigabrt, .sigbus, .sigfpe, .sigusr1, .sigusr2, .sigpipe,
    .sigalrm, .sigterm, .sigchld]

theorem Signal.mem_all (signum : Signal) : signum ∈ Signal.all := by
  cases signum <;> decide

/-- `saRestart` is `SA_RESTART` in the constants, and `action` what the kernel does: the
handler, and whether it restarts calls. -/
structure Signals where
  saRestart : SignalAction → Bool := fun _ => false
  action : Signal → SignalAction × Bool := fun _ => (.default, false)

namespace Signals

/-- `SignalAction::apply_to`. -/
def applyTo (g : Signals) (action : SignalAction) (signum : Signal) (restart : Bool) : Signals :=
  let g := if restart then { g with saRestart := Function.update g.saRestart action true } else g
  let g := { g with action := Function.update g.action signum (action, g.saRestart action) }
  if restart then { g with saRestart := Function.update g.saRestart action false } else g

/-- One round of the loop of `prepare_signals`. -/
def prepareSignal (g : Signals) (signum : Signal) : Signals :=
  g.applyTo (signalActions signum) signum false

def prepareSignals (g : Signals) : Signals := Signal.all.foldl prepareSignal g

/-- `set_standard_handler_restart`. -/
def setStandardHandlerRestart (g : Signals) (signum : Signal) (restart : Bool) : Signals :=
  g.applyTo (signalActions signum) signum restart

/-- No constant has the flag: the state between two calls. -/
def Clear (g : Signals) : Prop := ∀ action, g.saRestart action = false

variable {g : Signals} {action : SignalAction} {signum : Signal} {restart : Bool}

theorem Clear.applyTo (h : g.Clear) (action : SignalAction) (signum : Signal) (restart : Bool) :
    (g.applyTo action signum restart).Clear := by
  intro other
  cases restart with
  | false => exact h other
  | true =>
    show Function.update (Function.update g.saRestart action true) action false other = false
    rw [Function.update_idem]
    rcases eq_or_ne other action with rfl | hNe
    · exact Function.update_self ..
    · rw [Function.update_of_ne hNe]
      exact h other

theorem applyTo_action_self (h : g.Clear) :
    (g.applyTo action signum restart).action signum = (action, restart) := by
  cases restart with
  | false =>
    show Function.update g.action signum (action, g.saRestart action) signum = _
    rw [Function.update_self, h action]
  | true =>
    show Function.update g.action signum (action, Function.update g.saRestart action true action)
      signum = _
    rw [Function.update_self, Function.update_self]

theorem applyTo_action_ne {other : Signal} (hNe : other ≠ signum) :
    (g.applyTo action signum restart).action other = g.action other := by
  cases restart <;> exact Function.update_of_ne hNe ..

theorem setStandardHandlerRestart_action (h : g.Clear) :
    (g.setStandardHandlerRestart signum restart).action signum = (signalActions signum, restart) :=
  applyTo_action_self h

/-- What the loop has been through has its action; the rest is as before. -/
theorem foldl_prepareSignal (signums : List Signal) (h : g.Clear) :
    (signums.foldl prepareSignal g).Clear ∧
      (∀ signum ∈ signums,
        (signums.foldl prepareSignal g).action signum = (signalActions signum, false)) ∧
      ∀ signum, signum ∉ signums → (signums.foldl prepareSignal g).action signum = g.action signum := by
  induction signums generalizing g with
  | nil => exact ⟨h, nofun, fun _ _ => rfl⟩
  | cons first signums ih =>
    obtain ⟨hClear, hDone, hRest⟩ := ih (h.applyTo (signalActions first) first false)
    refine ⟨hClear, fun signum hIn => ?_, fun signum hOut => ?_⟩
    · by_cases hLater : signum ∈ signums
      · exact hDone signum hLater
      · have hFirst : signum = first := (List.mem_cons.mp hIn).resolve_right hLater
        rw [hFirst] at hLater ⊢
        exact (hRest first hLater).trans (applyTo_action_self h)
    · rw [List.mem_cons, not_or] at hOut
      exact (hRest signum hOut.2).trans (applyTo_action_ne hOut.1)

theorem clear_prepareSignals (h : g.Clear) : g.prepareSignals.Clear :=
  (foldl_prepareSignal Signal.all h).1

theorem prepareSignals_action (h : g.Clear) (signum : Signal) :
    g.prepareSignals.action signum = (signalActions signum, false) :=
  (foldl_prepareSignal Signal.all h).2.1 signum signum.mem_all

end Signals

-- ---------------------------------------------------------------------------
-- SIGTERM
-- ---------------------------------------------------------------------------

/-- What a `ContextManager` has of `SIGTERM`: whether one is pending, and `terminated_`. -/
structure Context where
  signals : Signals := {}
  pending : Bool := false
  terminated : Bool := false

/-- What a delivered signal does to its process. -/
inductive Delivery where
  | ignored
  | killed
  /-- A handler that calls `die`. -/
  | dies
  /-- A handler that returns, to a call that is restarted or fails with `EINTR`. -/
  | returns (restart : Bool)
  deriving DecidableEq

namespace Context

/-- A pending `SIGTERM` is delivered. -/
def deliver (x : Context) : Delivery × Context :=
  let x := { x with pending := false }
  match x.signals.action .sigterm with
  | (.ignore, _) => (.ignored, x)
  | (.default, _) => (.killed, x)
  | (.abort, _) => (.dies, x)
  -- terminate_handler()
  | (.terminate, restart) => (.returns restart, { x with terminated := true })
  | (.timer, restart) => (.returns restart, x)

/-- `set_standard_handler_restart(SIGTERM, restart)`. -/
def setRestart (x : Context) (restart : Bool) : Context :=
  { x with signals := x.signals.setStandardHandlerRestart .sigterm restart }

/-- `terminate_handler` is installed, with the flag or without. -/
structure Handles (x : Context) (restart : Bool) : Prop where
  clear : x.signals.Clear
  action : x.signals.action .sigterm = (.terminate, restart)

variable {x : Context} {restart : Bool}

theorem Handles.setRestart (h : x.Handles restart) (restart' : Bool) :
    (x.setRestart restart').Handles restart' :=
  ⟨h.clear.applyTo _ _ _, Signals.setStandardHandlerRestart_action h.clear⟩

theorem Handles.deliver (h : x.Handles restart) :
    x.deliver = (.returns restart, { x with pending := false, terminated := true }) := by
  simp only [Context.deliver, h.action]

end Context

end Libsbox
