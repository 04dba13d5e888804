import Libsbox.Lib.CMemory

/-!
# libsbox — how a call ends

A call ends in `Halt.die` where the source calls `die`, and in
`Halt.outOfBounds` where the source stores outside of an array. The latter has
no defined continuation, so nothing behind it is modelled.

`Returns` and `InBounds` are what the later modules prove of a call; each has
its rule for a call that is followed by another.
-/

namespace Libsbox

open CMemory

/-- How a call can end without returning. -/
inductive Halt where
  | die (msg : Str)
  | outOfBounds
  deriving DecidableEq

/-- A store, with its failure as a halt. -/
def checked {α : Type} : Option α → Except Halt α
  | some a => .ok a
  | none => .error .outOfBounds

/-- The call stores nothing outside of an array. -/
def InBounds {α : Type} (m : Except Halt α) : Prop := m ≠ .error .outOfBounds

/-- The call ends with a result. -/
def Returns {α : Type} (m : Except Halt α) : Prop := ∃ a, m = .ok a

instance {α : Type} (m : Except Halt α) : Decidable (Returns m) :=
  match m with
  | .ok a => isTrue ⟨a, rfl⟩
  | .error _ => isFalse nofun

section Rules

variable {α β : Type}

theorem inBounds_ok (a : α) : InBounds (.ok a : Except Halt α) := by simp [InBounds]

theorem inBounds_die (msg : Str) : InBounds (.error (.die msg) : Except Halt α) := by
  simp [InBounds]

theorem InBounds.bind {m : Except Halt α} {f : α → Except Halt β} (hm : InBounds m)
    (hf : ∀ a, m = .ok a → InBounds (f a)) : InBounds (m >>= f) := by
  cases m with
  | error e =>
    intro h
    exact hm (by simpa [Bind.bind, Except.bind] using h)
  | ok a => exact hf a rfl

/-- A store after which the call returns. -/
theorem inBounds_checked_iff {o : Option α} {f : α → β} :
    InBounds (checked o >>= fun a => (pure (f a) : Except Halt β)) ↔ ∃ a, o = some a := by
  cases o with
  | none => simp [InBounds, checked, Bind.bind, Except.bind]
  | some a => simp [InBounds, checked, Bind.bind, Except.bind, Pure.pure, Except.pure]

/-- The value of a call that is followed by another and returns. -/
theorem bind_eq_ok {m : Except Halt α} {f : α → Except Halt β} {b : β}
    (h : (m >>= f) = .ok b) : ∃ a, m = .ok a ∧ f a = .ok b := by
  cases m with
  | error e => simp [Bind.bind, Except.bind] at h
  | ok a => exact ⟨a, rfl, h⟩

theorem inBounds_mapM {f : α → Except Halt β} {xs : List α} (h : ∀ x ∈ xs, InBounds (f x)) :
    InBounds (xs.mapM f) := by
  induction xs with
  | nil => exact inBounds_ok []
  | cons x xs ih =>
    rw [List.forall_mem_cons] at h
    rw [List.mapM_cons]
    exact h.1.bind fun y _ => (ih h.2).bind fun ys _ => inBounds_ok (y :: ys)

/-- What is seen of each result is what is seen of its argument. -/
theorem map_eq_of_mapM {γ : Type} {f : α → Except Halt β} {g : β → γ} {g' : α → γ}
    (h : ∀ x y, f x = .ok y → g y = g' x) {xs : List α} {ys : List β}
    (hOk : xs.mapM f = .ok ys) : ys.map g = xs.map g' := by
  induction xs generalizing ys with
  | nil =>
    cases hOk
    rfl
  | cons x xs ih =>
    rw [List.mapM_cons] at hOk
    obtain ⟨y, hFirst, hRest⟩ := bind_eq_ok hOk
    obtain ⟨ys', hLater, hCons⟩ := bind_eq_ok hRest
    cases hCons
    rw [List.map_cons, List.map_cons, h x y hFirst, ih hLater]

theorem returns_ok (a : α) : Returns (.ok a : Except Halt α) := ⟨a, rfl⟩

theorem returns_pure (a : α) : Returns (pure a : Except Halt α) := ⟨a, rfl⟩

theorem not_returns_error (e : Halt) : ¬ Returns (.error e : Except Halt α) := by
  rintro ⟨a, h⟩
  cases h

theorem returns_bind {m : Except Halt α} {f : α → Except Halt β} :
    Returns (m >>= f) ↔ ∃ a, m = .ok a ∧ Returns (f a) := by
  constructor
  · rintro ⟨b, hb⟩
    obtain ⟨a, hm, hf⟩ := bind_eq_ok hb
    exact ⟨a, hm, b, hf⟩
  · rintro ⟨a, rfl, h⟩
    exact h

/-- The call behind returns on the same condition whatever it is given. -/
theorem returns_bind_iff {m : Except Halt α} {f : α → Except Halt β} {P Q : Prop}
    (hm : Returns m ↔ P) (hf : ∀ a, Returns (f a) ↔ Q) : Returns (m >>= f) ↔ P ∧ Q := by
  rw [returns_bind, ← hm]
  constructor
  · rintro ⟨a, hOk, h⟩
    exact ⟨⟨a, hOk⟩, (hf a).mp h⟩
  · rintro ⟨⟨a, hOk⟩, h⟩
    exact ⟨a, hOk, (hf a).mpr h⟩

theorem returns_bind_pure {m : Except Halt α} {f : α → β} :
    Returns (m >>= fun a => pure (f a)) ↔ Returns m := by
  rw [returns_bind_iff Iff.rfl fun _ => iff_of_true (returns_pure _) trivial, and_true]

theorem returns_map {m : Except Halt α} {f : α → β} : Returns (m.map f) ↔ Returns m := by
  cases m with
  | error e => exact iff_of_false (not_returns_error e) (not_returns_error e)
  | ok a => exact iff_of_true (returns_ok (f a)) (returns_ok a)

theorem returns_mapM {f : α → Except Halt β} {xs : List α} :
    Returns (xs.mapM f) ↔ ∀ x ∈ xs, Returns (f x) := by
  induction xs with
  | nil => simpa using returns_pure []
  | cons x xs ih =>
    rw [List.mapM_cons, List.forall_mem_cons, ← ih]
    exact returns_bind_iff Iff.rfl fun a => returns_bind_pure

end Rules

end Libsbox
