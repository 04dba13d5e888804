import Mathlib.Logic.Basic

/-!
# Two runs of a call that can fail

A call that reads what others have left behind is compared with itself over different
leftovers. `Alike R` is the relation of the two outcomes: either both fail, and in the
same way, or both return, with results that `R` relates.

* `Alike.bind` — calls that are alike, followed by calls that are alike on related results;
* `alike_iff_map_eq` — where `R` is that an observer sees the same.
-/

namespace TwoRuns

universe u v

variable {ε : Type u} {α β γ δ : Type v}

/-- Both fail in the same way, or both return and the results are related. -/
def Alike (R : α → β → Prop) : Except ε α → Except ε β → Prop
  | .ok a, .ok b => R a b
  | .error e, .error e' => e = e'
  | _, _ => False

section Rules

variable {R : α → β → Prop} {S : γ → δ → Prop} {m : Except ε α} {n : Except ε β}

theorem alike_ok {a : α} {b : β} (h : R a b) : Alike R (.ok a : Except ε α) (.ok b) := h

theorem alike_error (e : ε) : Alike R (.error e) (.error e) := rfl

/-- A call that does not read the leftovers. -/
theorem alike_self {R : α → α → Prop} (hRefl : ∀ a, R a a) (m : Except ε α) : Alike R m m := by
  cases m with
  | error e => exact rfl
  | ok a => exact hRefl a

theorem Alike.mono {R' : α → β → Prop} (h : Alike R m n)
    (hMono : ∀ a b, m = .ok a → n = .ok b → R a b → R' a b) : Alike R' m n := by
  cases m with
  | error e =>
    cases n with
    | error e' => exact h
    | ok b => exact h.elim
  | ok a =>
    cases n with
    | error e' => exact h.elim
    | ok b => exact hMono a b rfl rfl h

/-- One call after another. -/
theorem Alike.bind {f : α → Except ε γ} {g : β → Except ε δ} (h : Alike R m n)
    (hNext : ∀ a b, R a b → Alike S (f a) (g b)) : Alike S (m >>= f) (n >>= g) := by
  cases m with
  | error e =>
    cases n with
    | error e' => exact h
    | ok b => exact h.elim
  | ok a =>
    cases n with
    | error e' => exact h.elim
    | ok b => exact hNext a b h

/-- If one returns, so does the other. -/
theorem Alike.ok_left {a : α} (h : Alike R (.ok a) n) : ∃ b, n = .ok b ∧ R a b := by
  cases n with
  | error e => exact h.elim
  | ok b => exact ⟨b, rfl, h⟩

/-- The outcomes are the same to an observer of the results. -/
theorem alike_iff_map_eq {f : α → γ} {g : β → γ} :
    Alike (fun a b => f a = g b) m n ↔ m.map f = n.map g := by
  cases m with
  | error e =>
    cases n with
    | error e' => exact Except.error.injEq e e' ▸ Iff.rfl
    | ok b => exact iff_of_false id fun h => by cases h
  | ok a =>
    cases n with
    | error e' => exact iff_of_false id fun h => by cases h
    | ok b => exact ⟨congrArg Except.ok, Except.ok.inj⟩

end Rules

end TwoRuns
