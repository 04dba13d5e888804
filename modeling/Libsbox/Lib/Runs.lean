import Mathlib.Data.List.Basic

/-!
# Runs of a system of processes

A system is a partial step function over states and actions: `step s a` is
`none` where the action cannot happen. A run is a list of actions, each possible
in the state that those before it lead to, so every interleaving of the processes
is one.

## Results

* `invariant_of_run` — what every step preserves holds wherever a run leads;
* `invariant_of_history`, `allSteps_of_history` — the same with all that has been done in view;
* `reachable_of_view` — a view of a system runs as the system it is a view of;
* `run_refines` — a system runs along with the specification it keeps step with;
* `throughout_iff_allSteps` — a property holds throughout a run exactly if each of its
  steps keeps it;
* `flag_iff_someStep` — a flag that is never cleared says whether the run has
  taken one of the steps that set it;
* `settles`, `length_le_of_settling` — actions that use something up can be taken until none
  of them is possible, and in whatever order they are taken there are not too many.
-/

namespace Runs

variable {σ α : Type} (step : σ → α → Option σ)

/-- Where a list of actions leads. -/
def run : σ → List α → Option σ
  | s, [] => some s
  | s, a :: acts => (step s a).bind fun s' => run s' acts

/-- Every step of the run meets `Ok`, a condition on the action and on the state
before it. -/
def AllSteps (Ok : σ → α → Prop) : σ → List α → Prop
  | _, [] => True
  | s, a :: acts => Ok s a ∧ ∀ s', step s a = some s' → AllSteps Ok s' acts

/-- Some step of the run meets `P`. -/
def SomeStep (P : σ → α → Prop) : σ → List α → Prop
  | _, [] => False
  | s, a :: acts => P s a ∨ ∃ s', step s a = some s' ∧ SomeStep P s' acts

/-- `P` holds in every state that the run passes through. -/
def Throughout (P : σ → Prop) : σ → List α → Prop
  | s, [] => P s
  | s, a :: acts => P s ∧ ∀ s', step s a = some s' → Throughout P s' acts

/-- The states that a run leads to. -/
def Reachable (init s : σ) : Prop := ∃ acts, run step init acts = some s

section Rules

variable {step} {s s' : σ} {a : α} {acts : List α}

theorem run_cons_eq_some :
    run step s (a :: acts) = some s' ↔ ∃ m, step s a = some m ∧ run step m acts = some s' := by
  simp [run, Option.bind_eq_some_iff]

theorem run_cons_of_step {m : σ} (hStep : step s a = some m) :
    run step s (a :: acts) = run step m acts := by
  rw [run, hStep, Option.bind_some]

/-- A run that goes on. -/
theorem run_append (acts' : List α) :
    run step s (acts ++ acts') = (run step s acts).bind fun m => run step m acts' := by
  induction acts generalizing s with
  | nil => rfl
  | cons a acts ih =>
    show (step s a).bind (fun m => run step m (acts ++ acts')) = _
    simp only [ih, run, Option.bind_assoc]

theorem Reachable.snoc {init : σ} (hReach : Reachable step init s) (hStep : step s a = some s') :
    Reachable step init s' := by
  obtain ⟨acts, hRun⟩ := hReach
  refine ⟨acts ++ [a], ?_⟩
  rw [run_append, hRun]
  exact run_cons_eq_some.mpr ⟨s', hStep, rfl⟩

/-- What a run that can be evaluated shows of the state it leads to. -/
theorem of_run_map {β : Type} {f : σ → β} {v : β} (hMap : (run step s acts).map f = some v)
    (hRun : run step s acts = some s') : f s' = v := by
  rw [hRun] at hMap
  exact Option.some.inj hMap

/-- What every admitted step preserves holds wherever a run of such steps leads. -/
theorem invariant_of_run {Ok : σ → α → Prop} {I : σ → Prop}
    (hStep : ∀ s a s', I s → Ok s a → step s a = some s' → I s')
    (hInv : I s) (hOk : AllSteps step Ok s acts) (hRun : run step s acts = some s') :
    I s' := by
  induction acts generalizing s with
  | nil =>
    cases hRun
    exact hInv
  | cons a acts ih =>
    obtain ⟨m, hFirst, hRest⟩ := run_cons_eq_some.mp hRun
    exact ih (hStep s a m hInv hOk.1 hFirst) (hOk.2 m hFirst) hRest

theorem allSteps_of_forall {Ok : σ → α → Prop} (hOk : ∀ s a, Ok s a) :
    AllSteps step Ok s acts := by
  induction acts generalizing s with
  | nil => trivial
  | cons a acts ih => exact ⟨hOk s a, fun _ _ => ih⟩

theorem allSteps_of_mem {Ok : α → Prop} (hOk : ∀ a ∈ acts, Ok a) :
    AllSteps step (fun _ a => Ok a) s acts := by
  induction acts generalizing s with
  | nil => trivial
  | cons a acts ih =>
    exact ⟨hOk a List.mem_cons_self, fun _ _ => ih fun a' hMem => hOk a' (List.mem_cons_of_mem a hMem)⟩

/-- Whether a run meets a decidable condition can be evaluated. -/
instance decidableAllSteps {Ok : σ → α → Prop} [∀ s a, Decidable (Ok s a)] :
    ∀ (s : σ) (acts : List α), Decidable (AllSteps step Ok s acts)
  | _, [] => isTrue trivial
  | s, a :: acts =>
    match hStep : step s a with
    | none => decidable_of_iff (Ok s a)
        ⟨fun hOk => ⟨hOk, fun m hm => absurd (hStep.symm.trans hm).symm (Option.some_ne_none m)⟩, And.left⟩
    | some m =>
      have : Decidable (AllSteps step Ok m acts) := decidableAllSteps m acts
      decidable_of_iff (Ok s a ∧ AllSteps step Ok m acts)
        ⟨fun h => ⟨h.1, fun _ hm => Option.some.inj (hStep.symm.trans hm) ▸ h.2⟩,
          fun h => ⟨h.1, h.2 m hStep⟩⟩

/-- What every step preserves holds in every reachable state. -/
theorem invariant_of_reachable {I : σ → Prop}
    (hStep : ∀ s a s', I s → step s a = some s' → I s') (hInv : I s)
    (hReach : Reachable step s s') : I s' := by
  obtain ⟨acts, hRun⟩ := hReach
  exact invariant_of_run (fun s a s' hInv (_ : True) h => hStep s a s' hInv h) hInv
    (allSteps_of_forall fun _ _ => trivial) hRun

/-- An invariant of the state and of all that has been done. -/
theorem invariant_of_history {I : List α → σ → Prop}
    (hStep : ∀ done s a s', I done s → step s a = some s' → I (done ++ [a]) s') (hInit : I [] s)
    (hRun : run step s acts = some s') : I acts s' := by
  suffices hGoesOn : ∀ done s, I done s → run step s acts = some s' → I (done ++ acts) s' from
    hGoesOn [] s hInit hRun
  clear hInit hRun
  induction acts with
  | nil =>
    intro done s hDone hRun
    cases hRun
    rwa [List.append_nil]
  | cons a acts ih =>
    intro done s hDone hRun
    obtain ⟨m, hFirst, hRest⟩ := run_cons_eq_some.mp hRun
    rw [List.append_cons]
    exact ih (done ++ [a]) m (hStep done s a m hDone hFirst) hRest

/-- What such an invariant says of the next step holds of all steps of a run. -/
theorem allSteps_of_history {I : List α → σ → Prop} {Ok : σ → α → Prop}
    (hStep : ∀ done s a s', I done s → step s a = some s' → I (done ++ [a]) s') (hInit : I [] s)
    (hOk : ∀ done a s, done ++ [a] <+: acts → I done s → Ok s a) : AllSteps step Ok s acts := by
  suffices hGoesOn : ∀ rest done s, done ++ rest = acts → I done s → AllSteps step Ok s rest from
    hGoesOn acts [] s (List.nil_append _) hInit
  intro rest
  induction rest with
  | nil => exact fun _ _ _ _ => trivial
  | cons a rest ih =>
    intro done s hActs hDone
    have hActs' : (done ++ [a]) ++ rest = acts := (List.append_cons done a rest).symm.trans hActs
    refine ⟨hOk done a s ⟨rest, hActs'⟩ hDone, fun m hFirst => ?_⟩
    exact ih (done ++ [a]) m hActs' (hStep done s a m hDone hFirst)

/-- A view of a system whose steps are steps of another one, or leave the view as it is,
runs through reachable states of that one. -/
theorem reachable_of_view {τ β : Type} {step' : τ → β → Option τ} {f : σ → τ}
    (hView : ∀ s a s', step s a = some s' →
      f s' = f s ∨ ∃ b, step' (f s) b = some (f s'))
    (hReach : Reachable step s s') : Reachable step' (f s) (f s') := by
  obtain ⟨acts, hRun⟩ := hReach
  induction acts generalizing s with
  | nil =>
    cases hRun
    exact ⟨[], rfl⟩
  | cons a acts ih =>
    obtain ⟨m, hFirst, hRest⟩ := run_cons_eq_some.mp hRun
    obtain ⟨bs, hRun'⟩ := ih hRest
    rcases hView s a m hFirst with hSame | ⟨b, hStep⟩
    · exact ⟨bs, hSame ▸ hRun'⟩
    · exact ⟨b :: bs, run_cons_eq_some.mpr ⟨f m, hStep, hRun'⟩⟩

/-- A system that keeps step with a specification, for as long as this stays within `Ok`,
runs along with it. -/
theorem run_refines {τ : Type} {spec : τ → α → τ} {R : σ → τ → Prop} {Ok : τ → Prop} {t : τ}
    (hStep : ∀ s t a, R s t → Ok (spec t a) → ∃ s', step s a = some s' ∧ R s' (spec t a))
    (hStart : R s t) (hOk : ∀ pre, pre <+: acts → Ok (pre.foldl spec t)) :
    ∃ s', run step s acts = some s' ∧ R s' (acts.foldl spec t) := by
  induction acts generalizing s t with
  | nil => exact ⟨s, rfl, hStart⟩
  | cons a acts ih =>
    have hFirst : Ok (spec t a) := hOk [a] ⟨acts, rfl⟩
    obtain ⟨m, hOne, hR⟩ := hStep s t a hStart hFirst
    have hLater : ∀ pre, pre <+: acts → Ok (pre.foldl spec (spec t a)) := fun pre hPre =>
      hOk (a :: pre) (List.cons_prefix_cons.mpr ⟨rfl, hPre⟩)
    obtain ⟨s', hRun, hEnd⟩ := ih hR hLater
    exact ⟨s', run_cons_eq_some.mpr ⟨m, hOne, hRun⟩, hEnd⟩

theorem Throughout.head {P : σ → Prop} (h : Throughout step P s acts) : P s := by
  cases acts with
  | nil => exact h
  | cons a acts => exact h.1

/-- A property that a step keeps exactly if it meets `Ok` holds throughout the runs all
of whose steps do. -/
theorem throughout_iff_allSteps {I P : σ → Prop} {Ok : σ → α → Prop}
    (hInv : ∀ s a s', I s → step s a = some s' → I s')
    (hStep : ∀ s a s', I s → P s → step s a = some s' → (P s' ↔ Ok s a))
    (hStart : I s) (hHolds : P s) (hRun : run step s acts = some s') :
    Throughout step P s acts ↔ AllSteps step Ok s acts := by
  induction acts generalizing s with
  | nil => exact iff_of_true hHolds trivial
  | cons a acts ih =>
    obtain ⟨m, hFirst, hRest⟩ := run_cons_eq_some.mp hRun
    have hNext := hStep s a m hStart hHolds hFirst
    have hOne : ∀ Q : σ → Prop, (∀ m', step s a = some m' → Q m') ↔ Q m := fun Q =>
      ⟨fun h => h m hFirst, fun h m' hm' => Option.some.inj (hFirst.symm.trans hm') ▸ h⟩
    show (P s ∧ ∀ m', step s a = some m' → Throughout step P m' acts) ↔
      (Ok s a ∧ ∀ m', step s a = some m' → AllSteps step Ok m' acts)
    rw [hOne fun m' => Throughout step P m' acts, hOne fun m' => AllSteps step Ok m' acts]
    constructor
    · rintro ⟨-, hThrough⟩
      have hHolds' := hThrough.head
      exact ⟨hNext.mp hHolds', (ih (hInv s a m hStart hFirst) hHolds' hRest).mp hThrough⟩
    · rintro ⟨hOk, hAll⟩
      exact ⟨hHolds, (ih (hInv s a m hStart hFirst) (hNext.mpr hOk) hRest).mpr hAll⟩

/-- No step meets `P` where all meet its negation. -/
theorem not_someStep_iff {P : σ → α → Prop} :
    ¬ SomeStep step P s acts ↔ AllSteps step (fun s a => ¬ P s a) s acts := by
  induction acts generalizing s with
  | nil => simp [SomeStep, AllSteps]
  | cons a acts ih => simp [SomeStep, AllSteps, ← ih]

/-- A flag that steps meeting `P` set and no step clears. -/
theorem flag_iff_someStep {I F : σ → Prop} {P : σ → α → Prop}
    (hInv : ∀ s a s', I s → step s a = some s' → I s')
    (hFlag : ∀ s a s', I s → step s a = some s' → (F s' ↔ F s ∨ P s a))
    (hStart : I s) (hRun : run step s acts = some s') :
    F s' ↔ F s ∨ SomeStep step P s acts := by
  induction acts generalizing s with
  | nil =>
    cases hRun
    simp [SomeStep]
  | cons a acts ih =>
    obtain ⟨m, hFirst, hRest⟩ := run_cons_eq_some.mp hRun
    rw [ih (hInv s a m hStart hFirst) hRest, hFlag s a m hStart hFirst, or_assoc]
    simp [SomeStep, hFirst]

/-- Actions that make a measure smaller come to an end: as many as the measure says lead
to a state in which none of them is possible. -/
theorem settles {R : α → Prop} (m : σ → Nat)
    (hLess : ∀ s a s', R a → step s a = some s' → m s' < m s) (s : σ) :
    ∃ acts s', (∀ a ∈ acts, R a) ∧ acts.length ≤ m s ∧ run step s acts = some s' ∧
      ∀ a, R a → step s' a = none := by
  induction hm : m s using Nat.strongRecOn generalizing s with
  | ind n ih =>
    by_cases hQuiet : ∀ a, R a → step s a = none
    · exact ⟨[], s, fun _ ha => absurd ha List.not_mem_nil, Nat.zero_le _, rfl, hQuiet⟩
    · push Not at hQuiet
      obtain ⟨a, hR, hSome⟩ := hQuiet
      obtain ⟨s', hStep⟩ := Option.ne_none_iff_exists'.mp hSome
      have hNext := hLess s a s' hR hStep
      obtain ⟨acts, t, hAll, hLength, hRun, hEnd⟩ := ih (m s') (hm ▸ hNext) s' rfl
      refine ⟨a :: acts, t, fun b hb => ?_, ?_, run_cons_eq_some.mpr ⟨s', hStep, hRun⟩, hEnd⟩
      · rcases List.mem_cons.mp hb with rfl | hLater
        · exact hR
        · exact hAll b hLater
      · rw [List.length_cons]
        omega

/-- However they are taken, there are no more of them than the measure says. -/
theorem length_le_of_settling {R : α → Prop} (m : σ → Nat)
    (hLess : ∀ s a s', R a → step s a = some s' → m s' < m s) (hAll : ∀ a ∈ acts, R a)
    (hRun : run step s acts = some s') : acts.length ≤ m s := by
  induction acts generalizing s with
  | nil => exact Nat.zero_le _
  | cons a acts ih =>
    obtain ⟨t, hFirst, hRest⟩ := run_cons_eq_some.mp hRun
    have hOne := hLess s a t (hAll a List.mem_cons_self) hFirst
    have hLater := ih (fun b hb => hAll b (List.mem_cons_of_mem a hb)) hRest
    rw [List.length_cons]
    exact Nat.lt_of_le_of_lt hLater hOne

end Rules

end Runs
