import Mathlib.Algebra.Order.BigOperators.Group.Finset
import Mathlib.Algebra.BigOperators.Group.Finset.Basic
import Libsbox.Lib.Ancestry
import Libsbox.Service.Endings

/-!
# libsbox — what is left when a process ends

An error ends the process in which it occurs, and that is to end the whole service: the
comments of the daemon and of the worker rely on `PR_SET_PDEATHSIG` downwards, and on
`SIGCHLD` and `wait` upwards. Here is what becomes of it when the kernel and the handlers
have done their part.

## Results

* `failStop_of_run` — a run that spares the two moments fails as a whole.
* `noticed_iff` — of which containers' deaths a worker learns.
* `survivors_of_reachable` — what lives on, in every run.
* `killed_iff` — a process that has lost its parent is killed exactly if its `prctl` came
  first.
* `settles_of_reachable` — the kernel and the handlers come to an end, in whatever order.
-/

namespace Libsbox

open Runs

namespace Family

variable {f f' f'' : Family} {a : FamilyAct} {p : ProcId}

/-- The kernel has nobody left to kill. -/
def Settled (f : Family) : Prop :=
  ∀ p, f.Alive p → p ≠ 0 → (f.proc p).armed = true → f.Alive (f.proc p).guardian

/-- No `SIGCHLD` is pending, and a daemon that waits has nobody to wait for. -/
structure Quiet (f : Family) : Prop where
  settled : f.Settled
  handled : ∀ w, f.Alive w → (f.proc w).role = .worker → (f.proc w).stage = .serves →
    (f.proc w).sigchld = none
  waited : f.Alive 0 → (f.proc 0).stage.Serving ∧
    ∀ w, w < f.born → (f.proc w).role = .worker → (f.proc w).stage.Ended → (f.proc w).waited = true

/-- What is left: nothing but a family that is whole, or one that the daemon stops. -/
structure FailsStop (f : Family) : Prop where
  daemon : ¬ f.Alive 0 → ∀ p, ¬ f.Alive p
  worker : ∀ w, w < f.born → (f.proc w).role = .worker → (f.proc w).stage.Ended →
    (f.proc w).stage ≠ .exited ∨ (f.proc 0).stage ≠ .stops → ∀ p, ¬ f.Alive p
  container : ∀ c, c < f.born → (f.proc c).role = .container → (f.proc c).stage = .died →
    ¬ f.Alive (f.proc c).guardian

/-- **The service fails as a whole.** In a run that spares the two moments, once the
kernel and the handlers have done their part: when the daemon has ended, for whatever
reason, no process is left; when a worker has ended otherwise than told by the daemon, no
process is left; and a worker one of whose containers has died is not there any more. -/
theorem failStop_of_run {acts : List FamilyAct} (hSpared : AllSteps step Spared initial acts)
    (hRun : run step initial acts = some f) (hQuiet : f.Quiet) : f.FailsStop := by
  obtain ⟨hInv, hKept⟩ := kept_of_run hSpared hRun
  have hDaemon : ¬ f.Alive 0 → ∀ p, ¬ f.Alive p := by
    intro hGone p hAlive
    refine hGone (Ancestry.root_of_climb (P := f.Alive) (fun p h => hInv.older p h.1) (fun p h hNot => ?_)
      hAlive)
    rcases hKept.guarded p h hNot with hArmed | hThere
    · exact hQuiet.settled p h hNot hArmed
    · exact hThere
  refine ⟨hDaemon, fun w hw hWorker hEnded hBad => ?_, fun c hc hContainer hDied hAlive => ?_⟩
  · by_cases hThere : f.Alive 0
    · have hWaited := (hQuiet.waited hThere).2 w hw hWorker hEnded
      obtain ⟨hStops, hExited⟩ := hInv.waited w hw hWorker hWaited hThere
      rcases hBad with hNot | hNot
      · exact absurd hExited hNot
      · exact absurd hStops hNot
    · exact hDaemon hThere
  · have hTold := hKept.heard c hc hContainer hDied hAlive
    have hNot : c ≠ 0 := by
      rintro rfl
      rw [hInv.daemon.2] at hContainer
      cases hContainer
    have hPlace := hInv.place c hc hNot
    simp only [PlaceOk, hContainer] at hPlace
    rw [hQuiet.handled _ hAlive hPlace.1 (hPlace.2.resolve_right hAlive.2)] at hTold
    cases hTold

/-- A worker with a container and its slave. -/
def forkRun : List FamilyAct :=
  [.fork 0 .worker, .next 0, .next 1, .next 1, .fork 1 .container, .next 2, .next 2, .fork 2 .program]

/-- The container dies, and with it everything. -/
def fallRun : List FamilyAct := forkRun ++ [.die 2, .sigchld 1, .wait 1, .parentDied 3]

/-- Where everybody has ended, it is quiet. -/
theorem quiet_of_ended (hEnded : ∀ g ∈ (List.range f.born).map (fun p => (f.proc p).stage), g.Ended) :
    f.Quiet := by
  have hNobody : ∀ p, ¬ f.Alive p := fun p hAlive =>
    hAlive.2 (hEnded _ (List.mem_map_of_mem (List.mem_range.mpr hAlive.1)))
  exact ⟨fun p hAlive => absurd hAlive (hNobody p), fun w hAlive => absurd hAlive (hNobody w),
    fun hAlive => absurd hAlive (hNobody 0)⟩

theorem failStop_of_fallRun : ∃ f, run step initial fallRun = some f ∧ f.FailsStop := by
  have hStages : (run step initial fallRun).map
      (fun f => (List.range f.born).map fun p => (f.proc p).stage) =
        some [.died, .died, .died, .killed] := by decide +kernel
  obtain ⟨f, hRun, hEnds⟩ := Option.map_eq_some_iff.mp hStages
  have hQuiet : f.Quiet := quiet_of_ended (hEnds ▸ by decide)
  have hSpared : AllSteps step Spared initial fallRun := by decide +kernel
  exact ⟨f, hRun, failStop_of_run hSpared hRun hQuiet⟩

-- ---------------------------------------------------------------------------
-- Upwards
-- ---------------------------------------------------------------------------

theorem onward_of_run {acts : List FamilyAct} (h : f.Inv) (hRun : run step f acts = some f') :
    f'.Inv ∧ f.Onward f' := by
  exact invariant_of_reachable (I := fun g => g.Inv ∧ f.Onward g)
    (fun _ _ _ hg hStep => ⟨(hg.1.follows hStep).inv, hg.2.trans (hg.1.follows hStep).onward⟩)
    ⟨h, .refl f⟩ ⟨acts, hRun⟩

/-- A container that dies leaves a `SIGCHLD` that is about it, or the one that was there. -/
theorem sigchld_of_die (h : f.Inv) (hContainer : (f.proc p).role = .container)
    (hWorker : f.Alive (f.proc p).guardian) (hStep : f.step (.die p) = some f') :
    (f'.proc (f.proc p).guardian).stage = (f.proc (f.proc p).guardian).stage ∧
      (f'.proc (f.proc p).guardian).role = (f.proc (f.proc p).guardian).role ∧
      (f'.proc (f.proc p).guardian).sigchld =
        some ((f.proc (f.proc p).guardian).sigchld.getD false) ∧ f'.born = f.born := by
  simp only [step] at hStep
  split at hStep
  · rename_i hAlive
    obtain rfl := Option.some.inj hStep
    have hNot : p ≠ 0 := by
      rintro rfl
      rw [h.daemon.2] at hContainer
      cases hContainer
    have hOther : (f.proc p).guardian ≠ p := Nat.ne_of_lt (h.older p hAlive.1 hNot)
    rw [finish, set_ne _ hOther, set_born, notify_born]
    unfold notify
    dsimp only
    by_cases hNone : (f.proc (f.proc p).guardian).sigchld = none
    · rw [if_pos ⟨hContainer, hWorker, hNone⟩, set_self, hNone]
      exact ⟨rfl, rfl, rfl, rfl⟩
    · rw [if_neg fun hTells => hNone hTells.2.2]
      obtain ⟨clean, hPending⟩ := Option.ne_none_iff_exists'.mp hNone
      rw [hPending]
      exact ⟨rfl, rfl, rfl, rfl⟩
  · cases hStep

/-- **Which deaths a worker learns of.** When a container dies, its worker is gone in
every later state in which no `SIGCHLD` is pending, exactly if none was pending about a
container that had exited with 0. -/
theorem noticed_iff (hReach : Reachable step initial f)
    (hContainer : (f.proc p).role = .container) (hWorker : f.Alive (f.proc p).guardian)
    (hStep : f.step (.die p) = some f') :
    (∀ acts f'', run step f' acts = some f'' → (f''.proc (f.proc p).guardian).sigchld = none →
      ¬ f''.Alive (f.proc p).guardian) ↔ (f.proc (f.proc p).guardian).sigchld ≠ some true := by
  have hInv := inv_of_reachable hReach
  have hInv' := (hInv.follows hStep).inv
  obtain ⟨hStage, hRole, hPending, hBorn⟩ := sigchld_of_die hInv hContainer hWorker hStep
  generalize hGuardian : (f.proc p).guardian = w at *
  constructor
  · intro hNoticed hClean
    have hAlive : f.Alive p := by
      by_contra hNot
      simp [step, hNot] at hStep
    have hNot : p ≠ 0 := by
      rintro rfl
      rw [hInv.daemon.2] at hContainer
      cases hContainer
    have hPlace := hInv.place p hAlive.1 hNot
    simp only [PlaceOk, hContainer, hGuardian] at hPlace
    have hServes : (f.proc w).stage = .serves := hPlace.2.resolve_right hWorker.2
    rw [hClean] at hPending
    -- the handler is called, for the other container
    have hThere : f'.Alive w := ⟨by rw [hBorn]; exact hWorker.1, by rw [hStage]; exact hWorker.2⟩
    have hHandler : f'.step (.sigchld w) =
        some (f'.set w { f'.proc w with sigchld := none, stage := .serves }) := by
      simp only [step, sigchld]
      rw [if_pos ⟨hThere, hRole.trans hPlace.1, hStage.trans hServes⟩, hPending]
      rfl
    refine hNoticed [.sigchld w] _ (run_cons_eq_some.mpr ⟨_, hHandler, rfl⟩) ?_ ?_
    · rw [set_self]
    · rw [alive_set, if_pos rfl]
      exact ⟨hThere.1, by simp [Stage.Ended]⟩
  · intro hNot acts f'' hRun hNone hAlive
    have hTold : f'.Told w := by
      refine ⟨by rw [hBorn]; exact hWorker.1, .inr ?_⟩
      rw [hPending]
      cases hOld : (f.proc w).sigchld with
      | none => rfl
      | some clean =>
        cases clean with
        | false => rfl
        | true => exact absurd hOld hNot
    rcases ((onward_of_run hInv' hRun).2.told w hTold).2 with hEnded | hStill
    · exact hAlive.2 hEnded
    · rw [hNone] at hStill
      cases hStill

/-- A second container exits, and the first one dies before the handler is called. -/
def mergedRun : List FamilyAct :=
  forkRun ++ [.fork 1 .container, .next 4, .next 4, .exit 4]

theorem noticed_of_mergedRun :
    ∃ f f', run step initial mergedRun = some f ∧ f.step (.die 2) = some f' ∧
      ¬ ∀ acts f'', run step f' acts = some f'' → (f''.proc (f.proc 2).guardian).sigchld = none →
        ¬ f''.Alive (f.proc 2).guardian := by
  have hSeen : (run step initial mergedRun).map (fun f => ((f.proc 2).role, (f.proc 2).guardian,
      (f.proc (f.proc 2).guardian).sigchld, decide (f.Alive (f.proc 2).guardian),
      (f.step (.die 2)).isSome)) = some (.container, 1, some true, true, true) := by decide +kernel
  obtain ⟨f, hRun, hAt⟩ := Option.map_eq_some_iff.mp hSeen
  simp only [Prod.mk.injEq] at hAt
  obtain ⟨hContainer, -, hPending, hAlive, hSome⟩ := hAt
  obtain ⟨f', hStep⟩ := Option.isSome_iff_exists.mp hSome
  refine ⟨f, f', hRun, hStep, fun hNoticed => ?_⟩
  exact (noticed_iff ⟨_, hRun⟩ hContainer (of_decide_eq_true hAlive) hStep).mp hNoticed hPending

-- ---------------------------------------------------------------------------
-- Downwards
-- ---------------------------------------------------------------------------

/-- A process whose guardian has ended without the kernel's knowing. -/
def LivesOn (f : Family) (p : ProcId) : Prop :=
  (f.proc p).armed = false ∧ ¬ f.Alive (f.proc p).guardian

/-- **What lives on.** In every run, when the kernel has nobody left to kill: a process is
there only if all those that guard it are, up to the daemon or to a process that has lost
its parent before its `prctl`. -/
theorem survivors_of_reachable (hReach : Reachable step initial f) (hSettled : f.Settled)
    (hAlive : f.Alive p) :
    ∃ q, Ancestry.Climbs (fun p => (f.proc p).guardian) f.Alive p q ∧ (q = 0 ∨ f.LivesOn q) := by
  have hInv := inv_of_reachable hReach
  refine Ancestry.climb (fun p h => hInv.older p h.1) (fun p h hNot => ?_) hAlive
  by_cases hArmed : (f.proc p).armed = true
  · exact .inr (hSettled p h hNot hArmed)
  · by_cases hThere : f.Alive (f.proc p).guardian
    · exact .inr hThere
    · exact .inl ⟨Bool.not_eq_true _ ▸ hArmed, hThere⟩

/-- The daemon dies in front of the `prctl` of its worker, which serves on. -/
def orphanRun : List FamilyAct :=
  [.fork 0 .worker, .die 0, .next 1, .next 1, .fork 1 .container, .next 2, .next 2, .fork 2 .program]

/-- The program has the container and the worker above it, and nothing else. -/
theorem survivors_of_orphanRun :
    ∃ f, run step initial orphanRun = some f ∧
      ∃ q, Ancestry.Climbs (fun p => (f.proc p).guardian) f.Alive 3 q ∧ q ≠ 0 ∧ f.LivesOn q := by
  have hSeen : (run step initial orphanRun).map (fun f => (f.born, (f.proc 1).armed,
      (List.range 4).map fun p => decide (f.Alive p),
      [(f.proc 2).guardian, (f.proc 3).guardian])) =
      some (4, false, [false, true, true, true], [1, 2]) := by
    decide +kernel
  obtain ⟨f, hRun, hAt⟩ := Option.map_eq_some_iff.mp hSeen
  simp only [Prod.mk.injEq, List.range, List.range.loop, List.map_cons, List.map_nil,
    List.cons.injEq, decide_eq_true_eq, decide_eq_false_iff_not, and_true] at hAt
  obtain ⟨hBorn, hUnarmed, ⟨hRoot, hWorker, hContainer, hProgram⟩, hTwo, hThree⟩ := hAt
  have hOneTwoThree : ∀ n : Nat, n ≠ 0 → n < 4 → n = 1 ∨ n = 2 ∨ n = 3 := by omega
  have hSettled : f.Settled := by
    intro p hThere hNot hArmed
    have hBelow : p < 4 := Nat.lt_of_lt_of_eq hThere.1 hBorn
    obtain rfl | rfl | rfl := hOneTwoThree p hNot hBelow
    · rw [hUnarmed] at hArmed
      cases hArmed
    · exact hTwo.symm ▸ hWorker
    · exact hThree.symm ▸ hContainer
  obtain ⟨q, hClimbs, rfl | hLives⟩ := survivors_of_reachable ⟨_, hRun⟩ hSettled hProgram
  · exact absurd hClimbs.top hRoot
  · refine ⟨f, hRun, q, hClimbs, ?_, hLives⟩
    rintro rfl
    exact hRoot hClimbs.top

/-- `p` calls `prctl` while its parent lives, or it is a program, which is forked inside of
the namespace of its container. -/
def Arms (p : ProcId) (f : Family) : FamilyAct → Prop
  | .next p' => p' = p ∧ (f.proc p).stage = .starts ∧
      ((f.proc p).role = .worker ∨ (f.proc p).role = .container) ∧ f.Alive (f.proc p).guardian
  | .fork _ role => role = .program ∧ f.born = p
  | _ => False

instance (p : ProcId) (f : Family) : (a : FamilyAct) → Decidable (Arms p f a)
  | .next _ => inferInstanceAs (Decidable (_ ∧ _))
  | .fork _ _ => inferInstanceAs (Decidable (_ ∧ _))
  | .stop | .exit _ | .die _ | .parentDied _ | .sigchld _ | .wait _ =>
    inferInstanceAs (Decidable False)

/-- The kernel knows whose end is to be the end of `p`. -/
def Armed (p : ProcId) (f : Family) : Prop := p < f.born ∧ (f.proc p).armed = true

theorem armed_set {p' : ProcId} {q : Member} (hSame : q.armed = (f.proc p').armed) :
    Armed p (f.set p' q) ↔ Armed p f := by
  unfold Armed
  by_cases hIs : p = p'
  · rw [hIs, set_self, hSame, set_born]
  · rw [set_ne q hIs, set_born]

theorem armed_notify {p' : ProcId} {clean : Bool} : Armed p (f.notify p' clean) ↔ Armed p f := by
  obtain ⟨sigchld, hProc⟩ := notify_proc f p' clean p
  unfold Armed
  rw [notify_born, hProc]

theorem armed_of_next (h : f.Inv) {p' : ProcId} (hStep : f.next p' = some f') :
    Armed p f' ↔ Armed p f ∨ Arms p f (.next p') := by
  -- a call that is not `prctl` leaves what the kernel knows as it is
  have hOther : ∀ stage, (f.proc p').stage ≠ .starts ∨ (f.proc p').role = .daemon →
      (Armed p (f.set p' { f.proc p' with stage }) ↔ Armed p f ∨ Arms p f (.next p')) := by
    intro stage hNot
    have hKeeps : Armed p (f.set p' { f.proc p' with stage }) ↔ Armed p f := armed_set rfl
    rw [hKeeps]
    refine (or_iff_left ?_).symm
    rintro ⟨rfl, hStarts, hRole, -⟩
    rcases hNot with hNot | hNot
    · exact hNot hStarts
    · rw [hNot] at hRole
      simp at hRole
  have hPrctl : (f.proc p').stage = .starts → f.Alive p' →
      ((f.proc p').role = .worker ∨ (f.proc p').role = .container) →
      (Armed p (f.set p' { f.proc p' with
          stage := .guarded, armed := f.Alive (f.proc p').guardian }) ↔
        Armed p f ∨ Arms p f (.next p')) := by
    intro hStarts hAlive hRole
    by_cases hIs : p = p'
    · subst hIs
      have hBefore := h.unarmed p hAlive.1 hStarts
      simp [Armed, Arms, hBefore, hStarts, hRole, hAlive.1]
    · simp only [Armed, set_ne _ hIs, set_born, Arms, Ne.symm hIs, false_and, or_false]
  simp only [Family.next] at hStep
  split at hStep
  · rename_i hAlive
    split at hStep
    · rename_i hRole hStage
      exact Option.some.inj hStep ▸ hOther _ (.inr hRole)
    · rename_i hRole hStage
      exact Option.some.inj hStep ▸ hPrctl hStage hAlive (.inl hRole)
    · rename_i hRole hStage
      exact Option.some.inj hStep ▸ hPrctl hStage hAlive (.inr hRole)
    · rename_i hRole hStage
      exact Option.some.inj hStep ▸ hOther _ (.inl (by simp [hStage]))
    · rename_i hRole hStage
      exact Option.some.inj hStep ▸ hOther _ (.inl (by simp [hStage]))
    · cases hStep
  · cases hStep

theorem armed_of_fork {p' : ProcId} {role : Role} (hStep : f.fork p' role = some f') :
    Armed p f' ↔ Armed p f ∨ Arms p f (.fork p' role) := by
  simp only [fork] at hStep
  split at hStep
  · obtain rfl := Option.some.inj hStep
    simp only [Armed, Arms]
    by_cases hIs : p = f.born
    · subst hIs
      rw [set_self]
      cases role <;> simp [child]
    · rw [set_ne _ hIs]
      have hBorn : p < f.born + 1 ↔ p < f.born :=
        Nat.lt_succ_iff_lt_or_eq.trans (or_iff_left hIs)
      simp [hBorn, Ne.symm hIs]
  · cases hStep

/-- What the kernel knows of a process it has learned in one of two ways, and it does not
forget it. -/
theorem armed_of_step (h : f.Inv) (hStep : f.step a = some f') :
    Armed p f' ↔ Armed p f ∨ Arms p f a := by
  cases a with
  | fork p' role => exact armed_of_fork hStep
  | next p' => exact armed_of_next h hStep
  | stop =>
    simp only [step] at hStep
    split at hStep
    · obtain rfl := Option.some.inj hStep
      simp only [finish, armed_set, Arms, or_false]
    · cases hStep
  | exit p' | die p' =>
    simp only [step] at hStep
    split at hStep
    · obtain rfl := Option.some.inj hStep
      simp only [finish, armed_set, armed_notify, Arms, or_false]
    · cases hStep
  | parentDied p' =>
    simp only [step] at hStep
    split at hStep
    · obtain rfl := Option.some.inj hStep
      simp only [finish, armed_set, Arms, or_false]
    · cases hStep
  | sigchld p' =>
    simp only [step, sigchld] at hStep
    split at hStep
    · split at hStep
      · cases hStep
      · obtain rfl := Option.some.inj hStep
        simp only [armed_set, Arms, or_false]
    · cases hStep
  | wait p' =>
    simp only [step, wait] at hStep
    split at hStep
    · rename_i hWaits
      split at hStep
      · rename_i hDies
        obtain rfl := Option.some.inj hStep
        have hSame : ((f.finish 0 .died).proc p').armed = (f.proc p').armed := by
          by_cases hRoot : p' = 0
          · rw [hRoot, finish, set_self]
          · rw [finish, set_ne _ hRoot]
        have hReaped : Armed p ((f.finish 0 .died).set p' { f.proc p' with waited := true }) ↔
            Armed p (f.finish 0 .died) := armed_set hSame.symm
        rw [hReaped]
        simp only [finish, armed_set, Arms, or_false]
      · split at hStep
        · obtain rfl := Option.some.inj hStep
          simp only [armed_set, Arms, or_false]
        · cases hStep
    · cases hStep

/-- The kernel kills those that have lost their guardian and of which it knows. -/
theorem killed_iff_armed (hInv : f.Inv) (hAlive : f.Alive p) (hNot : p ≠ 0)
    (hGone : ¬ f.Alive (f.proc p).guardian) :
    (∃ acts f', run step f acts = some f' ∧ (f'.proc p).stage = .killed) ↔
      (f.proc p).armed = true := by
  constructor
  · rintro ⟨acts, f', hRun, hKilled⟩
    by_contra hUnarmed
    have hOrphan : f.Orphan p := by
      refine ⟨hAlive.1, Bool.not_eq_true _ ▸ hUnarmed, hGone,
        Nat.lt_trans (hInv.older p hAlive.1 hNot) hAlive.1, fun hStage => hAlive.2 (.inr (.inr hStage))⟩
    exact ((onward_of_run hInv hRun).2.orphan p hOrphan).2.2.2.2 hKilled
  · intro hArmed
    have hStep : f.step (.parentDied p) = some (f.finish p .killed) := by
      simp only [step]
      rw [if_pos ⟨hAlive, hArmed, hNot, hGone⟩]
    refine ⟨[.parentDied p], _, run_cons_eq_some.mpr ⟨_, hStep, rfl⟩, ?_⟩
    rw [finish, set_self]

/-- **Whom the kernel kills.** A process whose guardian has ended is killed by the kernel
in some later state exactly if it has called `prctl` while its parent lived, or was forked
inside of the namespace. -/
theorem killed_iff {acts : List FamilyAct} (hRun : run step initial acts = some f)
    (hAlive : f.Alive p) (hNot : p ≠ 0) (hGone : ¬ f.Alive (f.proc p).guardian) :
    (∃ later f', run step f later = some f' ∧ (f'.proc p).stage = .killed) ↔
      SomeStep step (Arms p) initial acts := by
  have hInv := inv_of_reachable ⟨_, hRun⟩
  have hHistory : Armed p f ↔ Armed p initial ∨ SomeStep step (Arms p) initial acts :=
    flag_iff_someStep (I := Inv) (fun _ _ _ h hStep => (h.follows hStep).inv)
      (fun _ _ _ h hStep => armed_of_step h hStep) inv_initial hRun
  rw [killed_iff_armed hInv hAlive hNot hGone]
  constructor
  · intro hArmed
    exact (hHistory.mp ⟨hAlive.1, hArmed⟩).resolve_left fun hStart => by cases hStart.2
  · intro hSome
    exact (hHistory.mpr (.inr hSome)).2

/-- The daemon dies behind the `prctl` of its worker. -/
def wardRun : List FamilyAct := [.fork 0 .worker, .next 1, .die 0]

/-- One worker is killed, and the other is not. -/
theorem killed_of_wardRun :
    (∃ f, run step initial wardRun = some f ∧
      ∃ later f', run step f later = some f' ∧ (f'.proc 1).stage = .killed) ∧
    ∃ f, run step initial orphanRun = some f ∧
      ¬ ∃ later f', run step f later = some f' ∧ (f'.proc 1).stage = .killed := by
  have hWard : (run step initial wardRun).map
      (fun f => (decide (f.Alive 1), decide (f.Alive (f.proc 1).guardian))) = some (true, false) := by
    decide +kernel
  have hOrphan : (run step initial orphanRun).map
      (fun f => (decide (f.Alive 1), decide (f.Alive (f.proc 1).guardian))) = some (true, false) := by
    decide +kernel
  constructor
  · obtain ⟨f, hRun, hAt⟩ := Option.map_eq_some_iff.mp hWard
    simp only [Prod.mk.injEq, decide_eq_true_eq, decide_eq_false_iff_not] at hAt
    have hArms : ¬ AllSteps step (fun f a => ¬ Arms 1 f a) initial wardRun := by decide +kernel
    refine ⟨f, hRun, (killed_iff hRun hAt.1 (by decide) hAt.2).mpr ?_⟩
    exact not_not.mp (mt not_someStep_iff.mp hArms)
  · obtain ⟨f, hRun, hAt⟩ := Option.map_eq_some_iff.mp hOrphan
    simp only [Prod.mk.injEq, decide_eq_true_eq, decide_eq_false_iff_not] at hAt
    have hNone : AllSteps step (fun f a => ¬ Arms 1 f a) initial orphanRun := by decide +kernel
    exact ⟨f, hRun, mt (killed_iff hRun hAt.1 (by decide) hAt.2).mp (not_someStep_iff.mpr hNone)⟩

-- ---------------------------------------------------------------------------
-- The end of it
-- ---------------------------------------------------------------------------

end Family

/-- What the kernel, a handler or `wait` does by itself. -/
def FamilyAct.Reacts : FamilyAct → Prop
  | .parentDied _ | .sigchld _ | .wait _ => True
  | _ => False

/-- How often a process can still be the subject of a reaction. -/
def Member.weight (q : Member) : Nat :=
  if q.stage.Ended then if q.waited then 0 else 1 else if q.sigchld.isSome then 3 else 2

theorem Member.weight_le (q : Member) : q.weight ≤ 3 := by
  unfold weight
  split_ifs <;> omega

theorem Member.weight_le_one {q : Member} (hEnded : q.stage.Ended) : q.weight ≤ 1 := by
  unfold weight
  rw [if_pos hEnded]
  split_ifs <;> omega

theorem Member.two_le_weight {q : Member} (hThere : ¬ q.stage.Ended) : 2 ≤ q.weight := by
  unfold weight
  rw [if_neg hThere]
  split_ifs <;> omega

namespace Family

variable {f f' : Family} {a : FamilyAct} {p : ProcId}

/-- How many reactions there can still be. -/
def due (f : Family) : Nat := ∑ p ∈ Finset.range f.born, (f.proc p).weight

theorem due_le (f : Family) : f.due ≤ 3 * f.born := by
  calc f.due ≤ ∑ _p ∈ Finset.range f.born, 3 :=
        Finset.sum_le_sum fun p _ => (f.proc p).weight_le
    _ = 3 * f.born := by
        rw [Finset.sum_const_nat fun _ _ => rfl, Finset.card_range, Nat.mul_comm]

theorem due_set_le {q : Member} (hWeight : q.weight ≤ (f.proc p).weight) : (f.set p q).due ≤ f.due := by
  refine Finset.sum_le_sum fun p' _ => ?_
  by_cases hSame : p' = p
  · subst hSame
    rw [set_self]
    exact hWeight
  · rw [set_ne q hSame]

theorem due_set_lt {q : Member} (hBorn : p < f.born) (hWeight : q.weight < (f.proc p).weight) :
    (f.set p q).due < f.due := by
  refine Finset.sum_lt_sum (fun p' _ => ?_) ⟨p, Finset.mem_range.mpr hBorn, by rw [set_self]; exact hWeight⟩
  by_cases hSame : p' = p
  · subst hSame
    rw [set_self]
    omega
  · rw [set_ne q hSame]

/-- A reaction leaves fewer to come. -/
theorem due_lt_of_reaction (hReacts : a.Reacts) (hStep : f.step a = some f') : f'.due < f.due := by
  cases a with
  | parentDied p =>
    simp only [step] at hStep
    split at hStep
    · rename_i hKills
      obtain rfl := Option.some.inj hStep
      refine due_set_lt hKills.1.1 ?_
      exact Nat.lt_of_le_of_lt (Member.weight_le_one (.inr (.inr rfl))) (Member.two_le_weight hKills.1.2)
    · cases hStep
  | sigchld p =>
    simp only [step, sigchld] at hStep
    split at hStep
    · rename_i hServes
      split at hStep
      · cases hStep
      · rename_i clean hPending
        obtain rfl := Option.some.inj hStep
        refine due_set_lt hServes.1.1 ?_
        have hBefore : (f.proc p).weight = 3 := by
          simp only [Member.weight, if_neg hServes.1.2, hPending, Option.isSome_some, if_true]
        rw [hBefore]
        cases clean <;> simp [Member.weight, Stage.Ended]
        split_ifs <;> omega
    · cases hStep
  | wait p =>
    simp only [step, wait] at hStep
    split at hStep
    · rename_i hWaits
      obtain ⟨hBorn, -, hEnded, hNotYet⟩ := hWaits
      have hLess : ∀ g : Family, g.born = f.born → g.proc p = f.proc p →
          (g.set p { f.proc p with waited := true }).due < g.due := by
        intro g hSame hProc
        refine due_set_lt (hSame ▸ hBorn) ?_
        rw [hProc]
        simp only [Member.weight, if_pos hEnded, hNotYet]
        simp
      split at hStep
      · rename_i hDies
        obtain rfl := Option.some.inj hStep
        have hAlive : ¬ (f.proc 0).stage.Ended := by
          rintro hOver
          rcases hDies with hStage | ⟨hStage, -⟩ <;> simp [hStage, Stage.Ended] at hOver
        have hNot : p ≠ 0 := by
          rintro rfl
          exact hAlive hEnded
        have hFirst : (f.finish 0 .died).due ≤ f.due := by
          refine due_set_le ?_
          exact Nat.le_trans (Member.weight_le_one (.inr (.inl rfl)))
            (Nat.le_trans (by decide) (Member.two_le_weight hAlive))
        exact Nat.lt_of_lt_of_le (hLess (f.finish 0 .died) rfl (set_ne _ hNot)) hFirst
      · split at hStep
        · exact Option.some.inj hStep ▸ hLess f rfl rfl
        · cases hStep
    · cases hStep
  | _ => exact hReacts.elim

/-- Where no reaction is possible, everything is quiet. -/
theorem quiet_of_none (hServing : (f.proc 0).stage.Serving ∨ (f.proc 0).stage.Ended)
    (hNone : ∀ a : FamilyAct, a.Reacts → f.step a = none) : f.Quiet := by
  refine ⟨fun p hAlive hNot hArmed => ?_, fun w hAlive hWorker hServes => ?_,
    fun hAlive => ⟨hServing.resolve_right hAlive.2, fun w hw hWorker hEnded => ?_⟩⟩
  · by_contra hGone
    have hNo := hNone (.parentDied p) trivial
    simp only [step] at hNo
    rw [if_pos ⟨hAlive, hArmed, hNot, hGone⟩] at hNo
    cases hNo
  · by_contra hSome
    obtain ⟨clean, hPending⟩ := Option.ne_none_iff_exists'.mp hSome
    have hNo := hNone (.sigchld w) trivial
    simp only [step, sigchld] at hNo
    rw [if_pos ⟨hAlive, hWorker, hServes⟩, hPending] at hNo
    cases hNo
  · by_contra hNotYet
    have hNo := hNone (.wait w) trivial
    simp only [step, wait] at hNo
    rw [if_pos ⟨hw, hWorker, hEnded, Bool.not_eq_true _ ▸ hNotYet⟩] at hNo
    split at hNo
    · cases hNo
    · rename_i hGoesOn
      split at hNo
      · cases hNo
      · rename_i hNot
        rcases hServing.resolve_right hAlive.2 with hServes | hStops
        · exact hGoesOn (.inl hServes)
        · exact hNot hStops

/-- **It comes to an end.** In every run, once the daemon waits: what the kernel, the
handlers and `wait` have still to do is done after at most three reactions for each
process there has been, in whatever order they come, and then it is quiet. -/
theorem settles_of_reachable (hReach : Reachable step initial f)
    (hServing : (f.proc 0).stage.Serving) :
    (∀ acts f', (∀ a ∈ acts, a.Reacts) → run step f acts = some f' →
      acts.length ≤ 3 * f.born ∧ ((∀ a : FamilyAct, a.Reacts → f'.step a = none) → f'.Quiet)) ∧
    ∃ acts f', (∀ a ∈ acts, a.Reacts) ∧ acts.length ≤ 3 * f.born ∧ run step f acts = some f' ∧
      (∀ a : FamilyAct, a.Reacts → f'.step a = none) ∧ f'.Quiet := by
  have hInv := inv_of_reachable hReach
  have hQuiet : ∀ acts f', run step f acts = some f' →
      (∀ a : FamilyAct, a.Reacts → f'.step a = none) → f'.Quiet := by
    intro acts f' hRun hNone
    have hOnward := (onward_of_run hInv hRun).2
    exact quiet_of_none (hOnward.serving 0 hInv.daemon.1 hServing) hNone
  constructor
  · intro acts f' hReacts hRun
    have hLength := length_le_of_settling due
      (fun _ _ _ hReacts hStep => due_lt_of_reaction hReacts hStep) hReacts hRun
    exact ⟨hLength.trans f.due_le, hQuiet acts f' hRun⟩
  · obtain ⟨acts, f', hReacts, hLength, hRun, hNone⟩ :=
      settles due (fun _ _ _ hReacts hStep => due_lt_of_reaction hReacts hStep) f
    exact ⟨acts, f', hReacts, hLength.trans f.due_le, hRun, hNone, hQuiet acts f' hRun hNone⟩

/-- The container of a worker with a slave has died. -/
theorem settles_of_forkRun :
    ∃ f, run step initial (forkRun ++ [.die 2]) = some f ∧
      ∃ acts f', (∀ a ∈ acts, a.Reacts) ∧ acts.length ≤ 3 * f.born ∧ run step f acts = some f' ∧
        (∀ a : FamilyAct, a.Reacts → f'.step a = none) ∧ f'.Quiet := by
  have hSeen : (run step initial (forkRun ++ [.die 2])).map (fun f => (f.proc 0).stage) = some .serves := by
    decide +kernel
  obtain ⟨f, hRun, hAt⟩ := Option.map_eq_some_iff.mp hSeen
  exact ⟨f, hRun, (settles_of_reachable ⟨_, hRun⟩ (.inl hAt)).2⟩

end Family

end Libsbox
