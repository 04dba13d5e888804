import Mathlib.Logic.Relation

/-!
# Ancestry

Numbered things with a parent each, which is older, that is, has a smaller number; only
the first has none. What holds of everything up to a first exception holds of the root,
or an exception is found on the way there.

## Results

* `climb` — the way up from anything of a kind ends at the root or at an exception.
-/

namespace Ancestry

variable (parent : Nat → Nat)

/-- `q` is `p`, or its parent, or the parent of that, and so on, and everything on the way
is of the kind `P`, both ends included. -/
def Climbs (P : Nat → Prop) (p q : Nat) : Prop :=
  P p ∧ Relation.ReflTransGen (fun a b => a ≠ 0 ∧ b = parent a ∧ P b) p q

variable {parent} {P Q : Nat → Prop}

/-- **The way up**: where the parent of everything of a kind is of this kind but for the
exceptions. -/
theorem climb (hOlder : ∀ p, P p → p ≠ 0 → parent p < p)
    (hUp : ∀ p, P p → p ≠ 0 → Q p ∨ P (parent p)) {p : Nat} (hp : P p) :
    ∃ q, Climbs parent P p q ∧ (q = 0 ∨ Q q) := by
  induction p using Nat.strongRecOn with
  | ind p ih =>
    by_cases hRoot : p = 0
    · exact ⟨p, ⟨hp, .refl⟩, .inl hRoot⟩
    · rcases hUp p hp hRoot with hQ | hParent
      · exact ⟨p, ⟨hp, .refl⟩, .inr hQ⟩
      · obtain ⟨q, ⟨-, hRises⟩, hEnd⟩ := ih (parent p) (hOlder p hp hRoot) hParent
        exact ⟨q, ⟨hp, .head ⟨hRoot, rfl, hParent⟩ hRises⟩, hEnd⟩

/-- What the way up leads to is of the kind. -/
theorem Climbs.top {p q : Nat} (h : Climbs parent P p q) : P q := by
  obtain ⟨hp, hRises⟩ := h
  cases hRises with
  | refl => exact hp
  | tail _ hLast => exact hLast.2.2

/-- There is no exception, and the root is of the kind. -/
theorem root_of_climb (hOlder : ∀ p, P p → p ≠ 0 → parent p < p)
    (hUp : ∀ p, P p → p ≠ 0 → P (parent p)) {p : Nat} (hp : P p) : P 0 := by
  obtain ⟨q, hClimbs, rfl | hNever⟩ :=
    climb (Q := fun _ => False) hOlder (fun p h hNot => .inr (hUp p h hNot)) hp
  · exact hClimbs.top
  · exact hNever.elim

end Ancestry
