import Mathlib.Data.List.Infix
import Mathlib.Tactic.Common

/-!
# Ways through a tree, seen from two roots

A place in a tree is the list of the names that lead to it, and a way is a list of moves: stay,
one up, down to a name. A way has a floor, its root, from which `up` does not lead on. The same
way from the same place can end elsewhere when the root is another one.

* `resolve_below` — with the root at `top`, the names of `top` might as well not be there;
* `resolve_append` — without that root, each `up` at `top` takes a name off `top`, and the rest
  of the way is the same;
* `resolve_eq_iff_meets` — the two ways lead to one place unless an `up` is met at the root.
-/

namespace Moves

/-- One step of a way. -/
inductive Move (α : Type*) where
  | stay
  | up
  | down (name : α)

variable {α : Type*} [DecidableEq α]

def enter (root place : List α) : Move α → List α
  | .stay => place
  | .up => if place = root then place else place.dropLast
  | .down name => place ++ [name]

def resolve (root place : List α) (way : List (Move α)) : List α := way.foldl (enter root) place

/-- From `depth` steps below the root, no `up` is met at the root. -/
def Stays : Nat → List (Move α) → Prop
  | _, [] => True
  | depth, .stay :: way => Stays depth way
  | 0, .up :: _ => False
  | depth + 1, .up :: way => Stays depth way
  | depth, .down _ :: way => Stays (depth + 1) way

instance decidableStays : (depth : Nat) → (way : List (Move α)) → Decidable (Stays depth way)
  | _, [] => .isTrue trivial
  | depth, .stay :: way => decidableStays depth way
  | 0, .up :: _ => .isFalse id
  | depth + 1, .up :: way => decidableStays depth way
  | depth, .down _ :: way => decidableStays (depth + 1) way

theorem resolve_append_way (root place : List α) (way way' : List (Move α)) :
    resolve root place (way ++ way') = resolve root (resolve root place way) way' :=
  List.foldl_append

theorem enter_below (top place : List α) (move : Move α) :
    enter top (top ++ place) move = top ++ enter [] place move := by
  cases move with
  | stay => rfl
  | up =>
    by_cases hPlace : place = []
    · simp [enter, hPlace]
    · rw [enter, enter, if_neg hPlace, if_neg (by simpa using hPlace),
        List.dropLast_append_of_ne_nil hPlace]
  | down name => exact List.append_assoc top place [name]

theorem resolve_below (top : List α) (way : List (Move α)) :
    ∀ place : List α, resolve top (top ++ place) way = top ++ resolve [] place way := by
  induction way with
  | nil => exact fun _ => rfl
  | cons move way ih =>
    intro place
    show resolve top (enter top (top ++ place) move) way = top ++ resolve [] (enter [] place move) way
    rw [enter_below, ih]

/-- From `depth` steps below a place, how often an `up` is met there. -/
def climbs : Nat → List (Move α) → Nat
  | _, [] => 0
  | depth, .stay :: way => climbs depth way
  | 0, .up :: way => climbs 0 way + 1
  | depth + 1, .up :: way => climbs depth way
  | depth, .down _ :: way => climbs (depth + 1) way

omit [DecidableEq α] in
theorem stays_iff_climbs (way : List (Move α)) :
    ∀ depth : Nat, Stays depth way ↔ climbs depth way = 0 := by
  induction way with
  | nil => exact fun _ => iff_of_true trivial rfl
  | cons move way ih =>
    intro depth
    cases move with
    | stay => exact ih depth
    | down name => exact ih (depth + 1)
    | up =>
      cases depth with
      | zero => exact iff_of_false id (Nat.succ_ne_zero _)
      | succ depth => exact ih depth

theorem enter_up (place : List α) : enter [] place .up = place.dropLast := by
  by_cases hPlace : place = []
  · simp [enter, hPlace]
  · simp [enter, hPlace]

theorem resolve_append (way : List (Move α)) : ∀ top place : List α,
    resolve [] (top ++ place) way =
      top.take (top.length - climbs place.length way) ++ resolve [] place way := by
  induction way with
  | nil => exact fun top place => by simp [resolve, climbs]
  | cons move way ih =>
    intro top place
    cases move with
    | stay => exact ih top place
    | down name =>
      show resolve [] (top ++ place ++ [name]) way = _ ++ resolve [] (place ++ [name]) way
      rw [List.append_assoc, ih, List.length_append, List.length_singleton]
      rfl
    | up =>
      show resolve [] (enter [] (top ++ place) .up) way = _ ++ resolve [] (enter [] place .up) way
      rw [enter_up, enter_up]
      rcases List.eq_nil_or_concat' place with rfl | ⟨place, name, rfl⟩
      · -- at `top`, the last name of which is lost for good
        have hTop := ih top.dropLast []
        rw [List.append_nil, List.dropLast_eq_take, List.length_take, List.take_take] at hTop
        rw [List.append_nil, List.dropLast_eq_take, hTop, List.dropLast_nil]
        congr 2
        simp only [List.length_nil, climbs]
        omega
      · rw [← List.append_assoc, List.dropLast_concat, List.dropLast_concat, ih, List.length_append,
          List.length_singleton]
        rfl

/-- Where a way leads that is resolved without the root at `top`, and with it. -/
theorem resolve_eq_iff (top place : List α) (way : List (Move α)) :
    resolve [] (top ++ place) way = resolve top (top ++ place) way ↔
      top = [] ∨ Stays place.length way := by
  rw [resolve_append, resolve_below, List.append_cancel_right_eq, List.take_eq_self_iff,
    stays_iff_climbs, ← List.length_eq_zero_iff]
  omega

/-- An `up` is met at the root. -/
def Meets (root : List α) : List α → List (Move α) → Prop
  | _, [] => False
  | place, .stay :: way => Meets root place way
  | place, .up :: way => place = root ∨ Meets root place.dropLast way
  | place, .down name :: way => Meets root (place ++ [name]) way

/-- The same from any place, also one that is not below the root. -/
theorem resolve_eq_iff_meets (root : List α) (way : List (Move α)) : ∀ place : List α,
    resolve [] place way = resolve root place way ↔ root = [] ∨ ¬ Meets root place way := by
  induction way with
  | nil => exact fun _ => iff_of_true rfl (.inr id)
  | cons move way ih =>
    intro place
    cases move with
    | stay => exact ih place
    | down name => exact ih (place ++ [name])
    | up =>
      show resolve [] (enter [] place .up) way = resolve root (enter root place .up) way ↔ _
      rw [enter_up, Meets]
      by_cases hRoot : place = root
      · subst hRoot
        have hAt := resolve_eq_iff place [] (.up :: way)
        rw [List.append_nil] at hAt
        change resolve [] (enter [] place .up) way = resolve place (enter place place .up) way ↔ _ at hAt
        rw [enter_up] at hAt
        rw [hAt]
        simp [Stays]
      · rw [enter, if_neg hRoot, ih]
        simp [hRoot]

end Moves
