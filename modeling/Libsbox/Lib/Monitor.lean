import Libsbox.Lib.Runs

/-!
# Objects behind a lock

Several processes call the functions of one object. A call takes a lock, works on the
shared state in as many steps as its code has, and releases the lock when it returns. A
process can end at any of these steps, by itself or from outside; nobody releases its lock
then.

## Results

* `atomic_of_run` — the calls that have returned were atomic, one after the other in the
  order of their returns; at most one more has done a part of its work.
* `stuck_iff_someStep` — the lock is stuck exactly if a process has ended inside.
* `stuck_of_run` — and then no call returns any more.
-/

namespace Monitor

open Runs

/-- What a call does next. -/
inductive Next (σ κ ρ : Type) where
  | goesOn (shared : σ) (at' : κ)
  | returns (value : ρ)
  | dies

/-- The code of an object: where a call begins when it has got the lock, and what it does
next at each of its places. -/
structure Code (σ κ ω ρ : Type) where
  enter : ω → κ
  next : σ → κ → Next σ κ ρ

/-- Who is inside of the lock. -/
inductive Lock (ι ω κ : Type) where
  | free
  | inside (i : ι) (call : ω) (place : κ)
  | stuck

/-- The shared state, the lock, and the calls that have returned. -/
structure State (ι σ κ ω ρ : Type) where
  shared : σ
  lock : Lock ι ω κ := .free
  log : List (ι × ω × ρ) := []

inductive Act (ι ω : Type) where
  /-- A process gets the lock for a call. -/
  | enter (i : ι) (call : ω)
  /-- The process inside goes on. -/
  | next
  /-- A process is killed. -/
  | kill (i : ι)

variable {ι σ κ ω ρ : Type} [DecidableEq ι]

/-- One step of any of the processes; `May` says which calls a process makes. -/
def step (code : Code σ κ ω ρ) (May : List (ι × ω × ρ) → ι → ω → Prop)
    [∀ log i call, Decidable (May log i call)] (s : State ι σ κ ω ρ) :
    Act ι ω → Option (State ι σ κ ω ρ)
  | .enter i call =>
    match s.lock with
    | .free => if May s.log i call then some { s with lock := .inside i call (code.enter call) } else none
    | _ => none
  | .next =>
    match s.lock with
    | .inside i call place =>
      match code.next s.shared place with
      | .goesOn shared place => some { s with shared, lock := .inside i call place }
      | .returns value => some { s with lock := .free, log := s.log ++ [(i, call, value)] }
      | .dies => some { s with lock := .stuck }
    | _ => none
  | .kill i =>
    match s.lock with
    | .inside j _ _ => if i = j then some { s with lock := .stuck } else some s
    | _ => some s

-- ---------------------------------------------------------------------------
-- Atomic calls
-- ---------------------------------------------------------------------------

/-- A call that nobody interrupts has come from `s` to `t`, and to `place`. -/
inductive Partly (code : Code σ κ ω ρ) (call : ω) (s : σ) : σ → κ → Prop where
  | begins : Partly code call s s (code.enter call)
  | goesOn {t t' : σ} {place place' : κ} (hSoFar : Partly code call s t place)
    (hNext : code.next t place = .goesOn t' place') : Partly code call s t' place'

/-- A call that nobody interrupts returns `value` and leaves `t`. -/
def Whole (code : Code σ κ ω ρ) (call : ω) (s : σ) (value : ρ) (t : σ) : Prop :=
  ∃ place, Partly code call s t place ∧ code.next t place = .returns value

/-- One call after the other, each one that its process may make. -/
inductive Serial (code : Code σ κ ω ρ) (May : List (ι × ω × ρ) → ι → ω → Prop) (s : σ) :
    List (ι × ω × ρ) → σ → Prop where
  | nothing : Serial code May s [] s
  | snoc {log : List (ι × ω × ρ)} {t t' : σ} {i : ι} {call : ω} {value : ρ}
    (hLog : Serial code May s log t) (hMay : May log i call) (hCall : Whole code call t value t') :
    Serial code May s (log ++ [(i, call, value)]) t'

/-- What the lock says of the shared state, when the calls that have returned have led
to `t`. -/
def Behind (code : Code σ κ ω ρ) (May : List (ι × ω × ρ) → ι → ω → Prop) (t : σ)
    (s : State ι σ κ ω ρ) : Prop :=
  match s.lock with
  | .free => s.shared = t
  | .inside i call place => May s.log i call ∧ Partly code call t s.shared place
  | .stuck => ∃ call place, Partly code call t s.shared place

variable {code : Code σ κ ω ρ} {May : List (ι × ω × ρ) → ι → ω → Prop}
variable [∀ log i call, Decidable (May log i call)]
variable {s s' : State ι σ κ ω ρ} {a : Act ι ω} {start : σ}

/-- What a step can do. -/
inductive Moves (code : Code σ κ ω ρ) (May : List (ι × ω × ρ) → ι → ω → Prop)
    (s : State ι σ κ ω ρ) : Act ι ω → State ι σ κ ω ρ → Prop where
  | enters {i : ι} {call : ω} (hFree : s.lock = .free) (hMay : May s.log i call) :
    Moves code May s (.enter i call) { s with lock := .inside i call (code.enter call) }
  | goesOn {i : ι} {call : ω} {place place' : κ} {shared : σ} (hInside : s.lock = .inside i call place)
    (hNext : code.next s.shared place = .goesOn shared place') :
    Moves code May s .next { s with shared, lock := .inside i call place' }
  | returns {i : ι} {call : ω} {place : κ} {value : ρ} (hInside : s.lock = .inside i call place)
    (hNext : code.next s.shared place = .returns value) :
    Moves code May s .next { s with lock := .free, log := s.log ++ [(i, call, value)] }
  | dies {i : ι} {call : ω} {place : κ} (hInside : s.lock = .inside i call place)
    (hNext : code.next s.shared place = .dies) : Moves code May s .next { s with lock := .stuck }
  | killed {i : ι} {call : ω} {place : κ} (hInside : s.lock = .inside i call place) :
    Moves code May s (.kill i) { s with lock := .stuck }
  | elsewhere {i : ι} (hOutside : ∀ call place, s.lock ≠ .inside i call place) :
    Moves code May s (.kill i) s

theorem step_moves (hStep : step code May s a = some s') : Moves code May s a s' := by
  cases a with
  | enter i call =>
    simp only [step] at hStep
    split at hStep
    · rename_i hFree
      split at hStep
      · exact Option.some.inj hStep ▸ .enters hFree ‹_›
      · cases hStep
    · cases hStep
  | next =>
    simp only [step] at hStep
    split at hStep
    · rename_i i call place hInside
      split at hStep
      · exact Option.some.inj hStep ▸ .goesOn hInside ‹_›
      · exact Option.some.inj hStep ▸ .returns hInside ‹_›
      · exact Option.some.inj hStep ▸ .dies hInside ‹_›
    · cases hStep
  | kill i =>
    simp only [step] at hStep
    split at hStep
    · rename_i j call place hInside
      split at hStep
      · rename_i hSame
        subst hSame
        exact Option.some.inj hStep ▸ .killed hInside
      · rename_i hOther
        obtain rfl := Option.some.inj hStep
        refine .elsewhere fun call' place' hLock => hOther ?_
        rw [hInside] at hLock
        cases hLock
        rfl
    · rename_i hNot
      obtain rfl := Option.some.inj hStep
      exact .elsewhere fun call' place' => hNot i call' place'

/-- A step finishes a call, or the calls so far stay what they are. -/
theorem behind_step {t : σ} (hSerial : Serial code May start s.log t) (hBehind : Behind code May t s)
    (hStep : step code May s a = some s') :
    ∃ t', Serial code May start s'.log t' ∧ Behind code May t' s' := by
  cases step_moves hStep with
  | enters hFree hMay =>
    simp only [Behind, hFree] at hBehind
    exact ⟨t, hSerial, hMay, hBehind ▸ .begins⟩
  | goesOn hInside hNext =>
    simp only [Behind, hInside] at hBehind
    exact ⟨t, hSerial, hBehind.1, hBehind.2.goesOn hNext⟩
  | returns hInside hNext =>
    simp only [Behind, hInside] at hBehind
    exact ⟨s.shared, hSerial.snoc hBehind.1 ⟨_, hBehind.2, hNext⟩, rfl⟩
  | dies hInside hNext | killed hInside =>
    simp only [Behind, hInside] at hBehind
    exact ⟨t, hSerial, _, _, hBehind.2⟩
  | elsewhere => exact ⟨t, hSerial, hBehind⟩

/-- **Calls are atomic**, whatever the processes do and wherever they end. -/
theorem atomic_of_run (hReach : Reachable (step code May) { shared := start } s) :
    ∃ t, Serial code May start s.log t ∧ Behind code May t s := by
  have hStart : Behind code May start ({ shared := start } : State ι σ κ ω ρ) := rfl
  refine invariant_of_reachable (I := fun s => ∃ t, Serial code May start s.log t ∧ Behind code May t s)
    (fun s a s' h hStep => ?_) ⟨start, .nothing, hStart⟩ hReach
  obtain ⟨t, hSerial, hBehind⟩ := h
  exact behind_step hSerial hBehind hStep

-- ---------------------------------------------------------------------------
-- The stuck lock
-- ---------------------------------------------------------------------------

/-- A process ends inside of the lock. -/
def EndsInside (code : Code σ κ ω ρ) (s : State ι σ κ ω ρ) (a : Act ι ω) : Prop :=
  ∃ i call place, s.lock = .inside i call place ∧
    (a = .kill i ∨ a = .next ∧ code.next s.shared place = .dies)

/-- **Why a lock is stuck**, in the terms of the object. -/
theorem stuck_iff_someStep {P : State ι σ κ ω ρ → Act ι ω → Prop} {acts : List (Act ι ω)}
    (hEnds : ∀ s a, Reachable (step code May) { shared := start } s → (EndsInside code s a ↔ P s a))
    (hRun : run (step code May) { shared := start } acts = some s) :
    s.lock = .stuck ↔ SomeStep (step code May) P { shared := start } acts := by
  have hFlag := flag_iff_someStep (I := Reachable (step code May) { shared := start })
    (F := fun s => s.lock = .stuck) (P := P) (fun _ _ _ hReach hStep => hReach.snoc hStep)
    (fun s a s' hReach hStep => ?_) ⟨[], rfl⟩ hRun
  · simpa using hFlag
  · rw [← hEnds s a hReach]
    cases step_moves hStep with
    | enters hFree => simp [EndsInside, hFree]
    | goesOn hInside hNext => simp [EndsInside, hInside, hNext]
    | returns hInside hNext => simp [EndsInside, hInside, hNext]
    | dies hInside hNext => simp [EndsInside, hInside, hNext]
    | killed hInside => simp [EndsInside, hInside]
    | @elsewhere i hOutside =>
      refine ⟨.inl, fun h => h.resolve_right ?_⟩
      rintro ⟨j, call, place, hInside, hKill | ⟨hNext, -⟩⟩
      · obtain rfl : i = j := by injection hKill
        exact hOutside call place hInside
      · cases hNext

/-- **Behind a stuck lock nothing happens.** -/
theorem stuck_of_run {acts : List (Act ι ω)} (hStuck : s.lock = .stuck)
    (hRun : run (step code May) s acts = some s') : s' = s := by
  have hSame : s' = s ∧ s'.lock = .stuck := by
    refine invariant_of_reachable (I := fun m => m = s ∧ m.lock = .stuck)
      (fun m a m' h hStep => ?_) ⟨rfl, hStuck⟩ ⟨acts, hRun⟩
    obtain ⟨rfl, hLock⟩ := h
    cases step_moves hStep with
    | elsewhere => exact ⟨rfl, hLock⟩
    | enters hFree => simp [hLock] at hFree
    | goesOn hInside | returns hInside | dies hInside | killed hInside => simp [hLock] at hInside
  exact hSame.1

end Monitor
