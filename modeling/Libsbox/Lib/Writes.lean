import Mathlib.Data.List.TakeWhile
import Mathlib.Data.List.Pairwise

/-!
# Sequences of writes that can stop halfway

A reader that fills a record field by field, and gives up at the first field that it cannot
read, leaves the fields before it set. Such a reader is a list of partial writes, each to a
part of the record that no later one touches.

* `run_fails_iff` — whether some write fails is known before the first one;
* `run_eq_self_iff` — nothing has changed exactly when every write before the first that fails
  writes what is there.
-/

namespace Writes

variable {σ α β : Type*}

abbrev PartialWrite (σ : Type*) := σ → Option σ

/-- The writes in order; whether one failed, and the state that is left. -/
def run : List (PartialWrite σ) → σ → Bool × σ
  | [], s => (false, s)
  | w :: ws, s =>
    match w s with
    | none => (true, s)
    | some s => run ws s

/-- What it writes, and whether it fails, do not depend on the state. -/
structure Steady (w : PartialWrite σ) : Prop where
  fails : ∀ s s', w s = none → w s' = none
  again : ∀ s s', w s = some s' → w s' = some s'

/-- What `w` has written is still there behind `w'`. -/
def Apart (w w' : PartialWrite σ) : Prop := ∀ s s', w s = some s → w' s = some s' → w s' = some s'

/-- A write of the value of a field. -/
theorem steady_map {set : σ → α → σ} (hSet : ∀ s x, set (set s x) x = set s x) (x : Option α) :
    Steady fun s => x.map (set s) where
  fails s s' h := by
    rw [Option.map_eq_none_iff] at h ⊢
    exact h
  again s s' h := by
    obtain ⟨y, rfl, rfl⟩ := Option.map_eq_some_iff.mp h
    exact congrArg some (hSet s y)

/-- Writes of two fields. -/
theorem apart_map {set : σ → α → σ} {set' : σ → β → σ}
    (hSwap : ∀ s x y, set (set' s y) x = set' (set s x) y) (x : Option α) (y : Option β) :
    Apart (fun s => x.map (set s)) fun s => y.map (set' s) := by
  intro s s' hKept hWrite
  obtain ⟨a, rfl, hSame⟩ := Option.map_eq_some_iff.mp hKept
  obtain ⟨b, rfl, rfl⟩ := Option.map_eq_some_iff.mp hWrite
  show some (set (set' s b) a) = some (set' s b)
  rw [hSwap, hSame]

/-- A value that is not there is not written anywhere. -/
theorem Steady.bind {w : α → PartialWrite σ} (h : ∀ a, Steady (w a)) (x : Option α) :
    Steady fun s => x.bind fun a => w a s := by
  cases x with
  | none => exact ⟨fun _ _ _ => rfl, fun _ _ hNone => nomatch hNone⟩
  | some a => exact h a

theorem Apart.bind {w : α → PartialWrite σ} {w' : β → PartialWrite σ} (h : ∀ a b, Apart (w a) (w' b))
    (x : Option α) (y : Option β) :
    Apart (fun s => x.bind fun a => w a s) fun s => y.bind fun b => w' b s := by
  cases x with
  | none => exact fun _ _ hNone => nomatch hNone
  | some a =>
    cases y with
    | none => exact fun _ _ _ hNone => nomatch hNone
    | some b => exact h a b

variable {ws : List (PartialWrite σ)}

theorem run_fails_iff (hSteady : ∀ w ∈ ws, Steady w) (s : σ) :
    ∀ s', (run ws s').1 = true ↔ ∃ w ∈ ws, w s = none := by
  induction ws with
  | nil => simp [run]
  | cons w ws ih =>
    intro s'
    rw [List.forall_mem_cons] at hSteady
    obtain ⟨hFirst, hRest⟩ := hSteady
    simp only [List.mem_cons, exists_eq_or_imp]
    rw [run]
    cases hWrite : w s' with
    | none => exact iff_of_true rfl (.inl (hFirst.fails s' s hWrite))
    | some next =>
      have hSome : w s ≠ none := by
        intro hNone
        rw [hFirst.fails s s' hNone] at hWrite
        cases hWrite
      rw [or_iff_right hSome]
      exact ih hRest next

/-- What is there before the writes, and apart from them, is there behind them. -/
theorem run_keeps {w : PartialWrite σ} (hApart : ∀ w' ∈ ws, Apart w w') :
    ∀ {s : σ}, w s = some s → w (run ws s).2 = some (run ws s).2 := by
  induction ws with
  | nil => exact fun h => h
  | cons w' ws ih =>
    intro s hKept
    rw [List.forall_mem_cons] at hApart
    rw [run]
    cases hWrite : w' s with
    | none => exact hKept
    | some next => exact ih hApart.2 (hApart.1 s next hKept hWrite)

theorem run_eq_self_iff (hSteady : ∀ w ∈ ws, Steady w) (hApart : ws.Pairwise Apart) (s : σ) :
    (run ws s).2 = s ↔ ∀ w ∈ ws.takeWhile fun w => (w s).isSome, w s = some s := by
  induction ws with
  | nil => simp [run]
  | cons w ws ih =>
    rw [List.forall_mem_cons] at hSteady
    rw [List.pairwise_cons] at hApart
    have hRest := ih hSteady.2 hApart.2
    rw [run]
    cases hWrite : w s with
    | none => simp [hWrite]
    | some next =>
      rw [List.takeWhile_cons_of_pos (by simp [hWrite]), List.forall_mem_cons, hWrite,
        Option.some.injEq]
      constructor
      · intro hSame
        -- the value of `w` is in the end state, which is `s`
        have hKept := run_keeps hApart.1 (hSteady.1.again s next hWrite)
        rw [hSame, hWrite] at hKept
        obtain rfl := Option.some.inj hKept
        exact ⟨rfl, hRest.mp hSame⟩
      · rintro ⟨rfl, hAll⟩
        exact hRest.mpr hAll

end Writes
