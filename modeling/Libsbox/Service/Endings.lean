import Libsbox.Model.Family

/-!
# libsbox — how the processes of the family end

What holds of the daemon, the workers, the containers and the programs in every run, and
what holds of them besides where two moments have been spared: a process whose parent
ends before its `prctl` is not killed, and a `SIGCHLD` is not sent while another one is
pending.

A step changes one process after the other, and each change is checked by itself.

## Results

* `Inv.set`, `Kept.set`, `Changes.onward` — one process changes.
* `Inv.follows` — every step, and every step that spares the two moments.
* `inv_of_reachable`, `kept_of_run` — and so every run.
-/

namespace Libsbox

open Runs

namespace Family

variable {f f' f'' : Family} {a : FamilyAct} {p : ProcId}

-- ---------------------------------------------------------------------------
-- The invariant
-- ---------------------------------------------------------------------------

/-- Whose guardian a process can have. -/
def PlaceOk (f : Family) (p : ProcId) : Prop :=
  let q := f.proc p
  let g := f.proc q.guardian
  match q.role with
  | .daemon => False
  | .worker => q.guardian = 0
  | .container => g.role = .worker ∧ (g.stage = .serves ∨ g.stage.Ended)
  | .program => g.role = .container ∧ q.armed = true

/-- What holds in every run. -/
structure Inv (f : Family) : Prop where
  daemon : 0 < f.born ∧ (f.proc 0).role = .daemon
  older : ∀ p, p < f.born → p ≠ 0 → (f.proc p).guardian < p
  place : ∀ p, p < f.born → p ≠ 0 → f.PlaceOk p
  unarmed : ∀ p, p < f.born → (f.proc p).stage = .starts → (f.proc p).armed = false
  waited : ∀ p, p < f.born → (f.proc p).role = .worker → (f.proc p).waited = true → f.Alive 0 →
    (f.proc 0).stage = .stops ∧ (f.proc p).stage = .exited

/-- A process that ends now leaves nothing behind. -/
def Guarded (f : Family) (p : ProcId) : Prop :=
  ∀ c, c < f.born → c ≠ 0 → (f.proc c).guardian = p → f.Alive c → (f.proc c).armed = true

instance (f : Family) (p : ProcId) : Decidable (f.Guarded p) :=
  inferInstanceAs (Decidable (∀ c, c < f.born → _))

/-- What holds in the runs that spare the two moments. -/
structure Kept (f : Family) : Prop where
  guarded : ∀ p, f.Alive p → p ≠ 0 → (f.proc p).armed = true ∨ f.Alive (f.proc p).guardian
  heard : ∀ c, c < f.born → (f.proc c).role = .container → (f.proc c).stage = .died →
    f.Alive (f.proc c).guardian → (f.proc (f.proc c).guardian).sigchld = some false

/-- The worker has been told of a container that has died. -/
def Told (f : Family) (w : ProcId) : Prop :=
  w < f.born ∧ ((f.proc w).stage.Ended ∨ (f.proc w).sigchld = some false)

/-- The guardian has ended, and the kernel does not know. -/
def Orphan (f : Family) (p : ProcId) : Prop :=
  p < f.born ∧ (f.proc p).armed = false ∧ ¬ f.Alive (f.proc p).guardian ∧
    (f.proc p).guardian < f.born ∧ (f.proc p).stage ≠ .killed

/-- What no step takes back. -/
structure Onward (f f' : Family) : Prop where
  born : f.born ≤ f'.born
  dead : ∀ p, p < f.born → (f.proc p).stage.Ended → (f'.proc p).stage = (f.proc p).stage
  told : ∀ w, f.Told w → f'.Told w
  orphan : ∀ p, f.Orphan p → f'.Orphan p
  serving : ∀ p, p < f.born → (f.proc p).stage.Serving →
    (f'.proc p).stage.Serving ∨ (f'.proc p).stage.Ended

theorem Onward.refl (f : Family) : f.Onward f := ⟨Nat.le_refl _, fun _ _ _ => rfl, fun _ => id, fun _ => id, fun _ _ => .inl⟩

theorem Onward.trans (h : f.Onward f') (h' : f'.Onward f'') : f.Onward f'' := by
  refine ⟨Nat.le_trans h.born h'.born, fun p hp hEnded => ?_, fun w hTold => h'.told w (h.told w hTold),
    fun p hOrphan => h'.orphan p (h.orphan p hOrphan), fun p hp hServing => ?_⟩
  · have hFirst := h.dead p hp hEnded
    rw [← hFirst] at hEnded ⊢
    exact h'.dead p (Nat.lt_of_lt_of_le hp h.born) hEnded
  · have hThen := Nat.lt_of_lt_of_le hp h.born
    rcases h.serving p hp hServing with hStill | hEnded
    · exact h'.serving p hThen hStill
    · exact .inr (by rw [h'.dead p hThen hEnded]; exact hEnded)

theorem inv_initial : initial.Inv := by
  refine ⟨⟨Nat.one_pos, rfl⟩, fun p hp hNot => ?_, fun p hp hNot => ?_, fun _ _ _ => rfl, nofun⟩
  · exact absurd (Nat.lt_one_iff.mp hp) hNot
  · exact absurd (Nat.lt_one_iff.mp hp) hNot

theorem kept_initial : initial.Kept :=
  ⟨fun _ hp hNot => absurd (Nat.lt_one_iff.mp hp.1) hNot, nofun⟩

-- ---------------------------------------------------------------------------
-- One process changes
-- ---------------------------------------------------------------------------

/-- `q` can take the place of `p` in every run. -/
structure Changes (f : Family) (p : ProcId) (q : Member) : Prop where
  born : p < f.born
  role : q.role = (f.proc p).role
  guardian : q.guardian = (f.proc p).guardian
  ended : (f.proc p).stage.Ended → q.stage = (f.proc p).stage
  serves : (f.proc p).stage = .serves → q.stage = .serves ∨ q.stage.Ended ∨ p = 0 ∧ q.stage = .stops
  stops : (f.proc p).stage = .stops → q.stage = .stops ∨ q.stage.Ended
  unarmed : q.stage = .starts → q.armed = false
  armed : (f.proc p).role = .program → q.armed = (f.proc p).armed
  waited : q.waited = true → (f.proc p).waited = false → ¬ f.Alive 0 ∨
    (f.proc 0).stage = .stops ∧ q.stage = .exited
  hears : (f.proc p).sigchld = some false → q.stage.Ended ∨ q.sigchld = some false
  arms : q.armed = true → (f.proc p).armed = true ∨ f.Alive (f.proc p).guardian
  killed : q.stage = .killed → (f.proc p).stage = .killed ∨ (f.proc p).armed = true

/-- And in the runs that spare the two moments. -/
structure Spares (f : Family) (p : ProcId) (q : Member) : Prop where
  guarded : ¬ q.stage.Ended → p ≠ 0 → q.armed = true ∨ f.Alive q.guardian
  wards : f.Alive p → q.stage.Ended → f.Guarded p
  heard : q.role = .container → q.stage = .died → (f.proc p).stage ≠ .died → f.Alive q.guardian →
    (f.proc q.guardian).sigchld = some false

variable {q : Member}

theorem alive_set (p' : ProcId) :
    (f.set p q).Alive p' ↔ p' < f.born ∧ ¬ (if p' = p then q else f.proc p').stage.Ended := by
  by_cases h : p' = p
  · subst h
    simp [Alive]
  · simp [Alive, set_ne q h, h]

/-- The dead stay dead. -/
theorem Changes.alive_of_set (h : f.Changes p q) {p' : ProcId} (hAlive : (f.set p q).Alive p') :
    f.Alive p' := by
  rw [alive_set] at hAlive
  split_ifs at hAlive with hSame
  · subst hSame
    refine ⟨hAlive.1, fun hEnded => hAlive.2 ?_⟩
    rw [h.ended hEnded]
    exact hEnded
  · exact hAlive

theorem Changes.onward (h : f.Changes p q) : f.Onward (f.set p q) := by
  refine ⟨Nat.le_refl _, fun p' hp' hEnded => ?_, fun w hTold => ⟨hTold.1, ?_⟩, fun p' hOrphan => ?_,
    fun p' hp' hServing => ?_⟩
  · by_cases hSame : p' = p
    · subst hSame
      rw [set_self]
      exact h.ended hEnded
    · rw [set_ne q hSame]
  · by_cases hSame : w = p
    · subst hSame
      rw [set_self]
      rcases hTold.2 with hEnded | hPending
      · exact .inl (by rw [h.ended hEnded]; exact hEnded)
      · exact h.hears hPending
    · rw [set_ne q hSame]
      exact hTold.2
  · obtain ⟨hBorn, hUnarmed, hGone, hOlder, hNot⟩ := hOrphan
    have hStill : ¬ (f.set p q).Alive (f.proc p').guardian := fun hThere => hGone (h.alive_of_set hThere)
    by_cases hSame : p' = p
    · subst hSame
      unfold Orphan
      rw [set_self, h.guardian]
      refine ⟨hBorn, ?_, hStill, hOlder, fun hKilled => ?_⟩
      · by_contra hArmed
        rcases h.arms (Bool.not_eq_false _ ▸ hArmed) with hOld | hThere
        · rw [hUnarmed] at hOld
          cases hOld
        · exact hGone hThere
      · rcases h.killed hKilled with hOld | hArmed
        · exact hNot hOld
        · rw [hUnarmed] at hArmed
          cases hArmed
    · unfold Orphan
      rw [set_ne q hSame]
      exact ⟨hBorn, hUnarmed, hStill, hOlder, hNot⟩
  · by_cases hSame : p' = p
    · subst hSame
      rw [set_self]
      rcases hServing with hServes | hStops
      · rcases h.serves hServes with hStill | hEnded | ⟨-, hStop⟩
        · exact .inl (.inl hStill)
        · exact .inr hEnded
        · exact .inl (.inr hStop)
      · exact (h.stops hStops).imp .inr id
    · rw [set_ne q hSame]
      exact .inl hServing

theorem Changes.guardian_set (hChange : f.Changes p q) (p' : ProcId) :
    ((f.set p q).proc p').guardian = (f.proc p').guardian := by
  by_cases hSame : p' = p
  · rw [hSame, set_self]
    exact hChange.guardian
  · rw [set_ne q hSame]

theorem Changes.role_set (hChange : f.Changes p q) (p' : ProcId) :
    ((f.set p q).proc p').role = (f.proc p').role := by
  by_cases hSame : p' = p
  · rw [hSame, set_self]
    exact hChange.role
  · rw [set_ne q hSame]

/-- A worker that serves goes on serving, or ends. -/
theorem Changes.serves_set (hChange : f.Changes p q) {w : ProcId} (hNotRoot : w ≠ 0)
    (hServes : (f.proc w).stage = .serves ∨ (f.proc w).stage.Ended) :
    ((f.set p q).proc w).stage = .serves ∨ ((f.set p q).proc w).stage.Ended := by
  by_cases hSame : w = p
  · subst hSame
    rw [set_self]
    rcases hServes with hServes | hEnded
    · rcases hChange.serves hServes with hStill | hEnded | ⟨hRoot, -⟩
      · exact .inl hStill
      · exact .inr hEnded
      · exact absurd hRoot hNotRoot
    · exact .inr (by rw [hChange.ended hEnded]; exact hEnded)
  · rw [set_ne q hSame]
    exact hServes

/-- The daemon goes on stopping, as long as it is there. -/
theorem Changes.stops_set (hChange : f.Changes p q) (hAlive : (f.set p q).Alive 0)
    (hStops : (f.proc 0).stage = .stops) : ((f.set p q).proc 0).stage = .stops := by
  by_cases hRoot : 0 = p
  · subst hRoot
    rw [set_self]
    rw [alive_set, if_pos rfl] at hAlive
    exact (hChange.stops hStops).resolve_right hAlive.2
  · rw [set_ne q hRoot]
    exact hStops

theorem Changes.place_set (hChange : f.Changes p q) (h : f.Inv) {p' : ProcId}
    (hOld : f.PlaceOk p') : (f.set p q).PlaceOk p' := by
  unfold PlaceOk at hOld ⊢
  simp only [hChange.role_set, hChange.guardian_set]
  cases hKind : (f.proc p').role with
  | daemon => simp only [hKind] at hOld
  | worker =>
    simp only [hKind] at hOld
    exact hOld
  | container =>
    simp only [hKind] at hOld
    have hNotRoot : (f.proc p').guardian ≠ 0 := by
      intro hRoot
      rw [hRoot, h.daemon.2] at hOld
      exact absurd hOld.1 (by decide)
    exact ⟨hOld.1, hChange.serves_set hNotRoot hOld.2⟩
  | program =>
    simp only [hKind] at hOld
    refine ⟨hOld.1, ?_⟩
    by_cases hSame : p' = p
    · subst hSame
      rw [set_self, hChange.armed hKind]
      exact hOld.2
    · rw [set_ne q hSame]
      exact hOld.2

theorem Changes.unarmed_set (hChange : f.Changes p q) (h : f.Inv) {p' : ProcId} (hp : p' < f.born)
    (hStarts : ((f.set p q).proc p').stage = .starts) : ((f.set p q).proc p').armed = false := by
  by_cases hSame : p' = p
  · subst hSame
    rw [set_self] at hStarts ⊢
    exact hChange.unarmed hStarts
  · rw [set_ne q hSame] at hStarts ⊢
    exact h.unarmed p' hp hStarts

theorem Changes.waited_set (hChange : f.Changes p q) (h : f.Inv) {p' : ProcId} (hp : p' < f.born)
    (hWorker : (f.proc p').role = .worker) (hWaited : ((f.set p q).proc p').waited = true)
    (hAlive : (f.set p q).Alive 0) :
    ((f.set p q).proc 0).stage = .stops ∧ ((f.set p q).proc p').stage = .exited := by
  have hOldAlive := hChange.alive_of_set hAlive
  by_cases hSame : p' = p
  · subst hSame
    rw [set_self] at hWaited ⊢
    cases hBefore : (f.proc p').waited with
    | false =>
      rcases hChange.waited hWaited hBefore with hDead | ⟨hStops, hExited⟩
      · exact absurd hOldAlive hDead
      · exact ⟨hChange.stops_set hAlive hStops, hExited⟩
    | true =>
      obtain ⟨hStops, hExited⟩ := h.waited p' hp hWorker hBefore hOldAlive
      exact ⟨hChange.stops_set hAlive hStops, (hChange.ended (.inl hExited)).trans hExited⟩
  · rw [set_ne q hSame] at hWaited ⊢
    obtain ⟨hStops, hExited⟩ := h.waited p' hp hWorker hWaited hOldAlive
    exact ⟨hChange.stops_set hAlive hStops, hExited⟩

theorem Inv.set (h : f.Inv) (hChange : f.Changes p q) : (f.set p q).Inv where
  daemon := ⟨h.daemon.1, (hChange.role_set 0).trans h.daemon.2⟩
  older p' hp hNot := by
    rw [hChange.guardian_set]
    exact h.older p' hp hNot
  place p' hp hNot := hChange.place_set h (h.place p' hp hNot)
  unarmed _ hp hStarts := hChange.unarmed_set h hp hStarts
  waited p' hp hWorker hWaited hAlive :=
    hChange.waited_set h hp ((hChange.role_set p').symm.trans hWorker) hWaited hAlive

theorem Kept.set (h : f.Kept) (hChange : f.Changes p q) (hSpares : f.Spares p q) :
    (f.set p q).Kept := by
  refine ⟨fun p' hAlive hNot => ?_, fun c hc hContainer hDied hAlive => ?_⟩
  · have hOld := hChange.alive_of_set hAlive
    -- a guardian that ends now guards nobody who is not armed
    have hUp : ∀ g, (f.proc p').guardian = g → p' ≠ p → f.Alive g →
        (f.proc p').armed = true ∨ (f.set p q).Alive g := by
      intro g hGuardian _ hThere
      by_cases hSame : g = p
      · subst hSame
        by_cases hEnds : q.stage.Ended
        · exact .inl (hSpares.wards hThere hEnds p' hOld.1 hNot hGuardian hOld)
        · exact .inr (by rw [alive_set, if_pos rfl]; exact ⟨hThere.1, hEnds⟩)
      · exact .inr (by rw [alive_set, if_neg hSame]; exact hThere)
    by_cases hSame : p' = p
    · subst hSame
      rw [alive_set, if_pos rfl] at hAlive
      rw [set_self]
      rcases hSpares.guarded hAlive.2 hNot with hArmed | hThere
      · exact .inl hArmed
      · refine .inr ?_
        rw [alive_set]
        split_ifs
        · exact ⟨hThere.1, hAlive.2⟩
        · exact hThere
    · rw [set_ne q hSame]
      rcases h.guarded p' hOld hNot with hArmed | hThere
      · exact .inl hArmed
      · exact hUp _ rfl hSame hThere
  · have hOld := hChange.alive_of_set hAlive
    -- what the worker has been told stays with it
    have hKeeps : ∀ w, (f.set p q).Alive w → (f.proc w).sigchld = some false →
        ((f.set p q).proc w).sigchld = some false := by
      intro w hThere hTold
      by_cases hSame : w = p
      · subst hSame
        rw [alive_set, if_pos rfl] at hThere
        rw [set_self]
        exact (hChange.hears hTold).resolve_left hThere.2
      · rw [set_ne q hSame]
        exact hTold
    by_cases hSame : c = p
    · subst hSame
      rw [set_self] at hContainer hDied hAlive hOld ⊢
      refine hKeeps _ hAlive ?_
      by_cases hBefore : (f.proc c).stage = .died
      · have hRole : (f.proc c).role = .container := hChange.role ▸ hContainer
        rw [hChange.guardian] at hOld ⊢
        exact h.heard c hc hRole hBefore hOld
      · exact hSpares.heard hContainer hDied hBefore hOld
    · rw [set_ne q hSame] at hContainer hDied hAlive hOld ⊢
      exact hKeeps _ hAlive (h.heard c hc hContainer hDied hOld)

-- ---------------------------------------------------------------------------
-- The steps
-- ---------------------------------------------------------------------------

/-- The step ends the process. -/
def Ends (f : Family) (a : FamilyAct) (p : ProcId) : Prop :=
  f.Alive p ∧ ∃ f' ∈ f.step a, ¬ f'.Alive p

instance (f : Family) (a : FamilyAct) (p : ProcId) : Decidable (f.Ends a p) :=
  inferInstanceAs (Decidable (_ ∧ _))

/-- A container that dies now is reported to its worker. -/
def Heard (f : Family) (c : ProcId) : Prop :=
  (f.proc c).role = .container → (f.proc (f.proc c).guardian).sigchld ≠ some true

instance (f : Family) (c : ProcId) : Decidable (f.Heard c) :=
  inferInstanceAs (Decidable (_ → _))

/-- The step ends no process with a child that has not called `prctl`, and no container
dies by it while a `SIGCHLD` about another one is pending. -/
def Spared (f : Family) (a : FamilyAct) : Prop :=
  (∀ p, p < f.born → f.Ends a p → f.Guarded p) ∧
    match a with
    | .die c => f.Heard c
    | _ => True

instance (f : Family) (a : FamilyAct) : Decidable (f.Spared a) := by
  unfold Spared
  cases a <;> infer_instance

/-- The step from `f` to `f'` keeps what every step keeps, and, where `S` holds, what the
steps that spare the two moments keep. -/
structure Follows (S : Prop) (f f' : Family) : Prop where
  inv : f'.Inv
  onward : f.Onward f'
  kept : S → f.Kept → f'.Kept

variable {S : Prop}

theorem Follows.trans (h : Follows S f f') (h' : Follows S f' f'') : Follows S f f'' :=
  ⟨h'.inv, h.onward.trans h'.onward, fun hS hKept => h'.kept hS (h.kept hS hKept)⟩

theorem Inv.change (h : f.Inv) (hChange : f.Changes p q) (hSpares : S → f.Kept → f.Spares p q) :
    Follows S f (f.set p q) :=
  ⟨h.set hChange, hChange.onward, fun hS hKept => hKept.set hChange (hSpares hS hKept)⟩

/-- A process that is alive ends. -/
theorem Inv.finish (h : f.Inv) (hAlive : f.Alive p) {stage : Stage} (hEnded : stage.Ended)
    (hGuarded : S → f.Guarded p) (hKilled : stage = .killed → (f.proc p).armed = true)
    (hHeard : S → stage = .died → (f.proc p).role = .container → f.Alive (f.proc p).guardian →
      (f.proc (f.proc p).guardian).sigchld = some false) : Follows S f (f.finish p stage) := by
  have hNew : stage ≠ .starts := by
    rintro rfl
    rcases hEnded with h | h | h <;> cases h
  refine h.change ⟨hAlive.1, rfl, rfl, fun hOld => absurd hOld hAlive.2, fun _ => .inr (.inl hEnded),
    fun _ => .inr hEnded, fun hStarts => absurd hStarts hNew, fun _ => rfl, fun hYes hNo => ?_,
    fun _ => .inl hEnded, .inl, fun h => .inr (hKilled h)⟩
    fun hS _ => ⟨fun hNot => absurd hEnded hNot, fun _ _ => hGuarded hS, fun hRole hDied _ => ?_⟩
  · change (f.proc p).waited = true at hYes
    rw [hNo] at hYes
    cases hYes
  · exact hHeard hS hDied hRole

/-- A worker gets a `SIGCHLD`. -/
theorem Inv.tell (h : f.Inv) (hAlive : f.Alive p) (hNone : (f.proc p).sigchld = none) (clean : Bool) :
    Follows S f (f.set p { f.proc p with sigchld := some clean }) := by
  refine h.change ⟨hAlive.1, rfl, rfl, fun _ => rfl, .inl,
    .inl, h.unarmed p hAlive.1, fun _ => rfl, fun hYes hNo => ?_,
    fun hTold => ?_, .inl, .inl⟩
    fun _ hKept => ⟨fun _ hNot => hKept.guarded p hAlive hNot, fun _ hEnds => absurd hEnds hAlive.2,
      fun _ hDied hBefore => absurd hDied hBefore⟩
  · change (f.proc p).waited = true at hYes
    rw [hNo] at hYes
    cases hYes
  · rw [hNone] at hTold
    cases hTold

/-- What a notification leaves as it is. -/
theorem notify_proc (f : Family) (p : ProcId) (clean : Bool) (p' : ProcId) :
    ∃ sigchld, (f.notify p clean).proc p' = { f.proc p' with sigchld } := by
  unfold notify
  dsimp only
  split_ifs
  · by_cases hSame : p' = (f.proc p).guardian
    · subst hSame
      exact ⟨some clean, set_self ..⟩
    · exact ⟨(f.proc p').sigchld, set_ne _ hSame⟩
  · exact ⟨(f.proc p').sigchld, rfl⟩

theorem notify_born (f : Family) (p : ProcId) (clean : Bool) : (f.notify p clean).born = f.born := by
  unfold notify
  dsimp only
  split_ifs <;> rfl

theorem notify_alive (f : Family) (p : ProcId) (clean : Bool) (p' : ProcId) :
    (f.notify p clean).Alive p' ↔ f.Alive p' := by
  obtain ⟨sigchld, hProc⟩ := notify_proc f p clean p'
  unfold Alive
  rw [notify_born, hProc]

theorem Guarded.notify (h : f.Guarded p) (p' : ProcId) (clean : Bool) :
    (f.notify p' clean).Guarded p := by
  intro c hc hNot hGuardian hAlive
  obtain ⟨sigchld, hProc⟩ := notify_proc f p' clean c
  rw [hProc] at hGuardian ⊢
  rw [notify_born] at hc
  exact h c hc hNot hGuardian ((notify_alive ..).mp hAlive)

theorem Inv.notify (h : f.Inv) (p : ProcId) (clean : Bool) : Follows S f (f.notify p clean) := by
  unfold Family.notify
  dsimp only
  split_ifs with hTells
  · exact h.tell hTells.2.1 hTells.2.2 clean
  · exact ⟨h, .refl f, fun _ hKept => hKept⟩

/-- A process ends by itself, or because of something outside. -/
theorem Inv.leave (h : f.Inv) (hAlive : f.Alive p) {clean : Bool} {stage : Stage}
    (hEnded : stage.Ended) (hNot : stage ≠ .killed) (hGuarded : S → f.Guarded p)
    (hHeard : S → stage = .died → clean = false ∧ f.Heard p) :
    Follows S f ((f.notify p clean).finish p stage) := by
  refine (h.notify p clean).trans ((h.notify (S := S) p clean).inv.finish ((notify_alive ..).mpr hAlive)
    hEnded (fun hS => (hGuarded hS).notify p clean) (fun hKilled => absurd hKilled hNot) fun hS hDied hRole hThere => ?_)
  obtain ⟨hUnclean, hNotTrue⟩ := hHeard hS hDied
  obtain ⟨sigchld, hProc⟩ := notify_proc f p clean p
  rw [hProc] at hRole hThere ⊢
  rw [notify_alive] at hThere
  have hNot := hNotTrue hRole
  show ((f.notify p clean).proc (f.proc p).guardian).sigchld = some false
  unfold Family.notify
  dsimp only
  by_cases hNone : (f.proc (f.proc p).guardian).sigchld = none
  · rw [if_pos ⟨hRole, hThere, hNone⟩, set_self, hUnclean]
  · rw [if_neg fun hTells => hNone hTells.2.2]
    cases hTold : (f.proc (f.proc p).guardian).sigchld with
    | none => exact absurd hTold hNone
    | some told =>
      cases told with
      | false => rfl
      | true => exact absurd hTold hNot

/-- Only the daemon has its role. -/
theorem Inv.eq_zero_of_daemon (h : f.Inv) (hBorn : p < f.born) (hRole : (f.proc p).role = .daemon) :
    p = 0 := by
  by_contra hNot
  have hPlace := h.place p hBorn hNot
  simp only [PlaceOk, hRole] at hPlace

/-- `q` is the next process; nothing else changes. -/
structure Adds (f f' : Family) (q : Member) : Prop where
  born : f'.born = f.born + 1
  old : ∀ p, p < f.born → f'.proc p = f.proc p
  new : f'.proc f.born = q
  guardian : q.guardian < f.born
  waited : q.waited = false
  fresh : q.stage = .starts ∧ q.armed = false ∧ f.Alive q.guardian ∨
    q.stage = .serves ∧ q.armed = true

theorem Adds.lt_or_eq (h : f.Adds f' q) (hp : p < f'.born) : p < f.born ∨ p = f.born := by
  rw [h.born] at hp
  exact Nat.lt_or_eq_of_le (Nat.le_of_lt_succ hp)

theorem Adds.alive (h : f.Adds f' q) (hp : p < f.born) : f'.Alive p ↔ f.Alive p := by
  unfold Alive
  rw [h.old p hp, h.born]
  exact and_congr_left fun _ => ⟨fun _ => hp, fun _ => Nat.lt_succ_of_lt hp⟩

theorem Adds.place (h : f.Adds f' q) (hInv : f.Inv) (hNew : f'.PlaceOk f.born) (hp : p < f'.born)
    (hNot : p ≠ 0) : f'.PlaceOk p := by
  rcases h.lt_or_eq hp with hLt | rfl
  · have hPlace := hInv.place p hLt hNot
    have hUp : (f.proc p).guardian < f.born := Nat.lt_trans (hInv.older p hLt hNot) hLt
    unfold PlaceOk at hPlace ⊢
    dsimp only at hPlace ⊢
    rw [h.old p hLt, h.old _ hUp]
    exact hPlace
  · exact hNew

theorem Adds.unarmed (h : f.Adds f' q) (hInv : f.Inv) (hp : p < f'.born)
    (hStarts : (f'.proc p).stage = .starts) : (f'.proc p).armed = false := by
  rcases h.lt_or_eq hp with hLt | rfl
  · rw [h.old p hLt] at hStarts ⊢
    exact hInv.unarmed p hLt hStarts
  · rw [h.new] at hStarts ⊢
    rcases h.fresh with ⟨-, hUnarmed, -⟩ | ⟨hServes, -⟩
    · exact hUnarmed
    · rw [hServes] at hStarts
      cases hStarts

theorem Adds.reaped (h : f.Adds f' q) (hInv : f.Inv) (hp : p < f'.born)
    (hWorker : (f'.proc p).role = .worker) (hWaited : (f'.proc p).waited = true)
    (hRoot : f'.Alive 0) : (f'.proc 0).stage = .stops ∧ (f'.proc p).stage = .exited := by
  rw [h.alive hInv.daemon.1] at hRoot
  rcases h.lt_or_eq hp with hLt | rfl
  · rw [h.old p hLt] at hWorker hWaited ⊢
    rw [h.old 0 hInv.daemon.1]
    exact hInv.waited p hLt hWorker hWaited hRoot
  · rw [h.new, h.waited] at hWaited
    cases hWaited

theorem Adds.inv (h : f.Adds f' q) (hInv : f.Inv) (hNew : f'.PlaceOk f.born) : f'.Inv := by
  refine ⟨⟨by rw [h.born]; exact Nat.succ_pos _, by rw [h.old 0 hInv.daemon.1]; exact hInv.daemon.2⟩,
    fun p hp hNot => ?_, fun p => h.place hInv hNew, fun p => h.unarmed hInv, fun p => h.reaped hInv⟩
  rcases h.lt_or_eq hp with hLt | rfl
  · rw [h.old p hLt]
    exact hInv.older p hLt hNot
  · rw [h.new]
    exact h.guardian

theorem Adds.orphan (h : f.Adds f' q) (hOrphan : f.Orphan p) : f'.Orphan p := by
  obtain ⟨hLt, hUnarmed, hGone, hUp, hNot⟩ := hOrphan
  have hLater : f.born ≤ f'.born := by rw [h.born]; exact Nat.le_succ _
  unfold Orphan
  rw [h.old p hLt, h.alive hUp]
  exact ⟨Nat.lt_of_lt_of_le hLt hLater, hUnarmed, hGone, Nat.lt_of_lt_of_le hUp hLater, hNot⟩

theorem Adds.onward (h : f.Adds f' q) : f.Onward f' := by
  have hLater : f.born ≤ f'.born := by rw [h.born]; exact Nat.le_succ _
  refine ⟨hLater, fun p hp _ => by rw [h.old p hp], fun w hTold => ?_, fun p => h.orphan,
    fun p hp => by rw [h.old p hp]; exact .inl⟩
  exact ⟨Nat.lt_of_lt_of_le hTold.1 hLater, by rw [h.old w hTold.1]; exact hTold.2⟩

theorem Adds.guarded (h : f.Adds f' q) (hInv : f.Inv) (hKept : f.Kept) (hAlive : f'.Alive p)
    (hNot : p ≠ 0) : (f'.proc p).armed = true ∨ f'.Alive (f'.proc p).guardian := by
  rcases h.lt_or_eq hAlive.1 with hLt | rfl
  · have hUp : (f.proc p).guardian < f.born := Nat.lt_trans (hInv.older p hLt hNot) hLt
    rw [h.old p hLt, h.alive hUp]
    exact hKept.guarded p ((h.alive hLt).mp hAlive) hNot
  · rw [h.new, h.alive h.guardian]
    exact h.fresh.symm.imp And.right fun hStarts => hStarts.2.2

theorem Adds.heard (h : f.Adds f' q) (hInv : f.Inv) (hKept : f.Kept) (hp : p < f'.born)
    (hContainer : (f'.proc p).role = .container) (hDied : (f'.proc p).stage = .died)
    (hWorker : f'.Alive (f'.proc p).guardian) :
    (f'.proc (f'.proc p).guardian).sigchld = some false := by
  rcases h.lt_or_eq hp with hLt | rfl
  · have hNot : p ≠ 0 := by
      rintro rfl
      rw [h.old 0 hInv.daemon.1, hInv.daemon.2] at hContainer
      cases hContainer
    have hUp : (f.proc p).guardian < f.born := Nat.lt_trans (hInv.older p hLt hNot) hLt
    rw [h.old p hLt] at hContainer hDied hWorker ⊢
    rw [h.alive hUp] at hWorker
    rw [h.old _ hUp]
    exact hKept.heard p hLt hContainer hDied hWorker
  · rw [h.new] at hDied
    rcases h.fresh with ⟨hStarts, -⟩ | ⟨hServes, -⟩
    · rw [hStarts] at hDied
      cases hDied
    · rw [hServes] at hDied
      cases hDied

/-- What a fork adds. -/
theorem Inv.adds (h : f.Inv) {role : Role} (hAlive : f.Alive p)
    (hForks : Forks (f.proc p).role (f.proc p).stage role) :
    f.Adds { f.set f.born (f.child p role) with born := f.born + 1 } (f.child p role) := by
  have hOld : ∀ p', p' < f.born →
      ({ f.set f.born (f.child p role) with born := f.born + 1 } : Family).proc p' = f.proc p' :=
    fun p' hp' => set_ne _ (Nat.ne_of_lt hp')
  cases role with
  | program =>
    refine ⟨rfl, hOld, set_self .., ?_, rfl, .inr ⟨rfl, rfl⟩⟩
    show (if (f.proc p).role = .container then p else (f.proc p).guardian) < _
    split_ifs
    · exact hAlive.1
    · by_cases hRoot : p = 0
      · rw [hRoot, h.daemon.2] at hForks
        simp [Forks] at hForks
      · exact Nat.lt_trans (h.older p hAlive.1 hRoot) hAlive.1
  | _ => exact ⟨rfl, hOld, set_self .., hAlive.1, rfl, .inl ⟨rfl, rfl, hAlive⟩⟩

/-- A new process has a guardian of the right role. -/
theorem Inv.place_of_fork (h : f.Inv) {role : Role} (hAlive : f.Alive p)
    (hForks : Forks (f.proc p).role (f.proc p).stage role)
    (hAdds : f.Adds f' (f.child p role)) : f'.PlaceOk f.born := by
  unfold PlaceOk
  dsimp only
  rw [hAdds.new, hAdds.old _ hAdds.guardian]
  cases hKind : (f.proc p).role <;> cases hStage : (f.proc p).stage <;> cases role <;>
    simp only [hKind, hStage, Forks] at hForks
  case daemon.starts.worker => exact h.eq_zero_of_daemon hAlive.1 hKind
  case worker.serves.container => exact ⟨hKind, .inl hStage⟩
  case container.serves.program => simp [child, hKind]
  case program.serves.program =>
    have hNotRoot : p ≠ 0 := by
      rintro rfl
      rw [h.daemon.2] at hKind
      cases hKind
    have hPlace := h.place p hAlive.1 hNotRoot
    simp only [PlaceOk, hKind] at hPlace
    simp [child, hKind, hPlace.1]

/-- A new process is older than nobody. -/
theorem Inv.forks (h : f.Inv) {role : Role} (hAlive : f.Alive p)
    (hForks : Forks (f.proc p).role (f.proc p).stage role) :
    Follows S f { f.set f.born (f.child p role) with born := f.born + 1 } := by
  have hAdds := h.adds hAlive hForks
  exact ⟨hAdds.inv h (h.place_of_fork hAlive hForks hAdds), hAdds.onward, fun _ hKept =>
    ⟨fun _ => hAdds.guarded h hKept, fun _ => hAdds.heard h hKept⟩⟩

/-- A process that goes on stays what it is. -/
theorem changes_of_next (hAlive : f.Alive p) (hKind : (f.proc p).role ≠ .program) {stage : Stage}
    {armed : Bool} (hThere : ¬ stage.Ended ∧ stage ≠ .starts)
    (hServes : (f.proc p).stage = .serves → stage = .serves ∨ p = 0 ∧ stage = .stops)
    (hStops : (f.proc p).stage = .stops → stage = .stops)
    (hArms : armed = true → (f.proc p).armed = true ∨ f.Alive (f.proc p).guardian) :
    f.Changes p { f.proc p with stage, armed } := by
  refine ⟨hAlive.1, rfl, rfl, fun hEnded => absurd hEnded hAlive.2,
    fun hOld => (hServes hOld).imp_right .inr, fun hOld => .inl (hStops hOld),
    fun hStarts => absurd hStarts hThere.2, fun hProgram => absurd hProgram hKind, fun hYes hNo => ?_,
    .inr, hArms, fun hKilled => absurd (.inr (.inr hKilled)) hThere.1⟩
  change (f.proc p).waited = true at hYes
  rw [hNo] at hYes
  cases hYes

theorem spares_of_next {stage : Stage} {armed : Bool} (hThere : ¬ stage.Ended)
    (hGuarded : p ≠ 0 → armed = true ∨ f.Alive (f.proc p).guardian) :
    f.Spares p { f.proc p with stage, armed } :=
  ⟨fun _ => hGuarded, fun _ hEnds => absurd hEnds hThere,
    fun _ hDied => absurd (.inr (.inl hDied)) hThere⟩

/-- `prctl`: the kernel takes note if the parent is still there. -/
theorem Inv.arms (h : f.Inv) (hAlive : f.Alive p) (hKind : (f.proc p).role ≠ .program)
    (hStage : (f.proc p).stage = .starts) :
    Follows S f (f.set p
      { f.proc p with stage := .guarded, armed := f.Alive (f.proc p).guardian }) := by
  refine h.change (changes_of_next hAlive hKind (by simp [Stage.Ended]) (by simp [hStage])
    (by simp [hStage]) fun hThere => .inr (of_decide_eq_true hThere)) fun _ hKept =>
      spares_of_next (by simp [Stage.Ended]) fun hNot => ?_
  rcases hKept.guarded p hAlive hNot with hArmed | hThere
  · rw [h.unarmed p hAlive.1 hStage] at hArmed
    cases hArmed
  · exact .inr hThere

/-- `set_sigchld_action`. -/
theorem Inv.serves (h : f.Inv) (hAlive : f.Alive p) (hKind : (f.proc p).role ≠ .program)
    (hStage : (f.proc p).stage = .starts ∨ (f.proc p).stage = .guarded) :
    Follows S f (f.set p { f.proc p with stage := .serves }) := by
  refine h.change (changes_of_next hAlive hKind (by simp [Stage.Ended]) (fun _ => .inl rfl) (fun hStops => ?_) .inl)
    fun _ hKept => spares_of_next (by simp [Stage.Ended]) (hKept.guarded p hAlive)
  rcases hStage with h | h <;> simp [h] at hStops

/-- A process goes on. -/
theorem Inv.next (h : f.Inv) (hStep : f.next p = some f') : Follows S f f' := by
  simp only [Family.next] at hStep
  split at hStep
  · rename_i hAlive
    split at hStep
    · rename_i hRole hStage
      exact Option.some.inj hStep ▸ h.serves hAlive (by simp [hRole]) (.inl hStage)
    · rename_i hRole hStage
      exact Option.some.inj hStep ▸ h.arms hAlive (by simp [hRole]) hStage
    · rename_i hRole hStage
      exact Option.some.inj hStep ▸ h.arms hAlive (by simp [hRole]) hStage
    · rename_i hRole hStage
      exact Option.some.inj hStep ▸ h.serves hAlive (by simp [hRole]) (.inr hStage)
    · rename_i hRole hStage
      exact Option.some.inj hStep ▸ h.serves hAlive (by simp [hRole]) (.inr hStage)
    · cases hStep
  · cases hStep

/-- The first loop of the daemon ends. -/
theorem Inv.stop (h : f.Inv) (hStage : (f.proc 0).stage = .serves) :
    Follows S f (f.finish 0 .stops) := by
  have hAlive : f.Alive 0 := ⟨h.daemon.1, by simp [hStage, Stage.Ended]⟩
  exact h.change (changes_of_next hAlive (by simp [h.daemon.2]) (by simp [Stage.Ended])
    (fun _ => .inr ⟨rfl, rfl⟩) (by simp [hStage]) .inl) fun _ hKept =>
      spares_of_next (by simp [Stage.Ended]) (hKept.guarded 0 hAlive)

/-- The handler of a worker. -/
theorem Inv.sigchld (h : f.Inv) (hStep : f.sigchld p = some f')
    (hGuarded : S → ¬ f'.Alive p → f.Guarded p) : Follows S f f' := by
  simp only [Family.sigchld] at hStep
  split at hStep
  · rename_i hServes
    obtain ⟨hAlive, hRole, hStage⟩ := hServes
    split at hStep
    · cases hStep
    · rename_i clean hPending
      obtain rfl := Option.some.inj hStep
      have hNew : ¬ (if clean = true then Stage.serves else Stage.died) = .starts := by
        cases clean <;> simp
      refine h.change ⟨hAlive.1, rfl, rfl, fun hEnded => absurd hEnded hAlive.2, fun _ => ?_,
        by simp [hStage], fun hStarts => absurd hStarts hNew, fun _ => rfl, fun hYes hNo => ?_,
        fun hTold => ?_, .inl, fun hKilled => ?_⟩
        fun hS hKept => ⟨fun _ hNot => hKept.guarded p hAlive hNot, fun _ hEnds => ?_,
          fun hContainer => ?_⟩
      · cases clean <;> simp [Stage.Ended]
      · change (f.proc p).waited = true at hYes
        rw [hNo] at hYes
        cases hYes
      · obtain rfl := Option.some.inj (hPending.symm.trans hTold)
        exact .inl (.inr (.inl rfl))
      · cases clean <;> simp at hKilled
      · refine hGuarded hS fun hThere => ?_
        rw [alive_set, if_pos rfl] at hThere
        exact hThere.2 hEnds
      · change (f.proc p).role = .container at hContainer
        rw [hRole] at hContainer
        cases hContainer
  · cases hStep

/-- The daemon has waited for a worker. -/
theorem Inv.reap (h : f.Inv) (hBorn : p < f.born) (hRole : (f.proc p).role = .worker)
    (hEnded : (f.proc p).stage.Ended)
    (hWaited : ¬ f.Alive 0 ∨ (f.proc 0).stage = .stops ∧ (f.proc p).stage = .exited) :
    Follows S f (f.set p { f.proc p with waited := true }) := by
  refine h.change ⟨hBorn, rfl, rfl, fun _ => rfl, .inl,
    .inl, h.unarmed p hBorn, fun _ => rfl, fun _ _ => hWaited, .inr, .inl, .inl⟩
    fun _ _ => ⟨fun hNot => absurd hEnded hNot, fun hThere => absurd hEnded hThere.2,
      fun hContainer => ?_⟩
  change (f.proc p).role = .container at hContainer
  rw [hRole] at hContainer
  cases hContainer

/-- `wait`. -/
theorem Inv.waits (h : f.Inv) (hStep : f.wait p = some f')
    (hGuarded : S → f.Alive 0 → ¬ f'.Alive 0 → f.Guarded 0) : Follows S f f' := by
  simp only [Family.wait] at hStep
  split at hStep
  · rename_i hWaits
    obtain ⟨hBorn, hRole, hEnded, -⟩ := hWaits
    have hNot : p ≠ 0 := by
      rintro rfl
      rw [h.daemon.2] at hRole
      cases hRole
    have hSame : (f.finish 0 .died).proc p = f.proc p := set_ne _ hNot
    have hDead : ¬ (f.finish 0 .died).Alive 0 := by
      simp [Family.finish, alive_set, Stage.Ended]
    split at hStep
    · rename_i hDies
      obtain rfl := Option.some.inj hStep
      have hAlive : f.Alive 0 := by
        refine ⟨h.daemon.1, fun hOver => ?_⟩
        rcases hDies with hStage | ⟨hStage, -⟩ <;> simp [hStage, Stage.Ended] at hOver
      have hFirst : Follows S f (f.finish 0 .died) := by
        refine h.finish hAlive (.inr (.inl rfl)) (fun hS => hGuarded hS hAlive fun hThere => ?_)
          nofun fun _ _ hContainer => ?_
        · rw [alive_set, if_neg hNot.symm] at hThere
          exact hDead hThere
        · rw [h.daemon.2] at hContainer
          cases hContainer
      refine hFirst.trans ?_
      rw [← hSame] at hRole hEnded ⊢
      exact hFirst.inv.reap hBorn hRole hEnded (.inl hDead)
    · rename_i hGoesOn
      split at hStep
      · rename_i hStops
        obtain rfl := Option.some.inj hStep
        refine h.reap hBorn hRole hEnded (.inr ⟨hStops, ?_⟩)
        by_contra hOther
        exact hGoesOn (.inr ⟨hStops, hOther⟩)
      · cases hStep
  · cases hStep

/-- **Every step**, and every step that spares the two moments. -/
theorem Inv.follows (h : f.Inv) (hStep : f.step a = some f') : Follows (f.Spared a) f f' := by
  have hGuarded : ∀ p, f.Spared a → f.Alive p → ¬ f'.Alive p → f.Guarded p :=
    fun p hSpared hThere hGone => hSpared.1 p hThere.1 ⟨hThere, f', hStep, hGone⟩
  have hGone : ∀ {g : Family} {stage : Stage} {p : ProcId}, stage.Ended → ¬ (g.finish p stage).Alive p := by
    intro g stage p hEnded hThere
    rw [Family.finish, alive_set, if_pos rfl] at hThere
    exact hThere.2 hEnded
  cases a with
  | fork p role =>
    simp only [step, fork] at hStep
    split at hStep
    · rename_i hForks
      exact Option.some.inj hStep ▸ h.forks hForks.1 hForks.2
    · cases hStep
  | next p => exact h.next hStep
  | stop =>
    simp only [step] at hStep
    split at hStep
    · exact Option.some.inj hStep ▸ h.stop ‹_›
    · cases hStep
  | exit p =>
    simp only [step] at hStep
    split at hStep
    · rename_i hMay
      obtain rfl := Option.some.inj hStep
      exact h.leave hMay.1 (.inl rfl) nofun (fun hSpared => hGuarded p hSpared hMay.1 (hGone (.inl rfl))) nofun
    · cases hStep
  | die p =>
    simp only [step] at hStep
    split at hStep
    · rename_i hAlive
      obtain rfl := Option.some.inj hStep
      exact h.leave hAlive (.inr (.inl rfl)) nofun
        (fun hSpared => hGuarded p hSpared hAlive (hGone (.inr (.inl rfl)))) fun hSpared _ => ⟨rfl, hSpared.2⟩
    · cases hStep
  | parentDied p =>
    simp only [step] at hStep
    split at hStep
    · rename_i hKills
      obtain rfl := Option.some.inj hStep
      exact h.finish hKills.1 (.inr (.inr rfl))
        (fun hSpared => hGuarded p hSpared hKills.1 (hGone (.inr (.inr rfl)))) (fun _ => hKills.2.1) nofun
    · cases hStep
  | sigchld p =>
    have hThere : f.Alive p := by
      simp only [step, Family.sigchld] at hStep
      split at hStep
      · rename_i hServes
        exact hServes.1
      · cases hStep
    exact h.sigchld hStep fun hSpared hGone => hGuarded p hSpared hThere hGone
  | wait p => exact h.waits hStep fun hSpared hThere hGone => hGuarded 0 hSpared hThere hGone

theorem inv_of_reachable (hReach : Reachable step initial f) : f.Inv :=
  invariant_of_reachable (fun _ _ _ h hStep => (h.follows hStep).inv) inv_initial hReach

theorem kept_of_run {acts : List FamilyAct} (hSpared : AllSteps step Spared initial acts)
    (hRun : run step initial acts = some f) : f.Inv ∧ f.Kept :=
  invariant_of_run (I := fun f => f.Inv ∧ f.Kept)
    (fun _ _ _ h hOk hStep => ⟨(h.1.follows hStep).inv, (h.1.follows hStep).kept hOk h.2⟩)
    ⟨inv_initial, kept_initial⟩ hSpared hRun

end Family

end Libsbox
