import Mathlib.Data.List.Basic
import Mathlib.Data.List.Perm.Subperm

/-!
# Barriers

A barrier of a fixed count: who arrives waits until as many have arrived, and the
last arrival lets all of them go. `waiting` are those who arrived in the current
round and are still held; someone who is inside the wait and not among them has
been let go.

## Results

* `Serves.arrive` — a barrier that only its parties come to, each once a round,
  stays so;
* `Serves.releases_iff` — such a barrier lets go exactly when all its parties have
  arrived.
-/

/-- A barrier whose waiters are named by `ρ`. -/
structure Barrier (ρ : Type) where
  count : Nat
  waiting : List ρ := []

namespace Barrier

variable {ρ : Type} {b : Barrier ρ} {p : ρ} {parties : List ρ}

/-- `p` comes to the barrier. -/
def arrive (b : Barrier ρ) (p : ρ) : Barrier ρ :=
  if b.waiting.length + 1 < b.count then { b with waiting := b.waiting ++ [p] }
  else { b with waiting := [] }

@[simp] theorem arrive_count (b : Barrier ρ) (p : ρ) : (b.arrive p).count = b.count := by
  unfold arrive
  split <;> rfl

theorem mem_waiting_of_arrive {q : ρ} (h : q ∈ (b.arrive p).waiting) :
    q ∈ b.waiting ∨ q = p := by
  unfold arrive at h
  split at h
  · simpa using h
  · simp at h

theorem arrive_waiting_cases (b : Barrier ρ) (p : ρ) :
    (b.arrive p).waiting = [] ∨ (b.arrive p).waiting = b.waiting ++ [p] := by
  unfold arrive
  split
  · exact .inr rfl
  · exact .inl rfl

/-- A barrier that holds only its parties, none of them twice and never all of
them. -/
structure Serves (b : Barrier ρ) (parties : List ρ) : Prop where
  count : b.count = parties.length
  nodup : b.waiting.Nodup
  within : ∀ q ∈ b.waiting, q ∈ parties
  room : b.waiting.length < b.count

theorem serves_fresh (h : parties ≠ []) : Serves ⟨parties.length, []⟩ parties where
  count := rfl
  nodup := List.nodup_nil
  within := by simp
  room := List.length_pos_iff.mpr h

namespace Serves

theorem cons_nodup (h : Serves b parties) (hNew : p ∉ b.waiting) : (p :: b.waiting).Nodup :=
  List.nodup_cons.mpr ⟨hNew, h.nodup⟩

theorem cons_subset (h : Serves b parties) (hParty : p ∈ parties) :
    (p :: b.waiting) ⊆ parties := by
  intro q hq
  rcases List.mem_cons.mp hq with rfl | hq
  · exact hParty
  · exact h.within q hq

theorem arrive (h : Serves b parties) (hParty : p ∈ parties) (hNew : p ∉ b.waiting) :
    Serves (b.arrive p) parties := by
  refine ⟨by rw [arrive_count, h.count], ?_, ?_, ?_⟩
  · rcases arrive_waiting_cases b p with hEq | hEq <;> rw [hEq]
    · exact List.nodup_nil
    · exact (List.perm_append_singleton p b.waiting).nodup_iff.mpr (h.cons_nodup hNew)
  · intro q hq
    rcases mem_waiting_of_arrive hq with hq | rfl
    · exact h.within q hq
    · exact hParty
  · have hRoom := h.room
    unfold Barrier.arrive
    split
    · simpa using by assumption
    · simp only [List.length_nil]
      omega

/-- **The barrier lets go exactly when the last of its parties arrives.** -/
theorem releases_iff (h : Serves b parties) (hParty : p ∈ parties) (hNew : p ∉ b.waiting) :
    (b.arrive p).waiting = [] ↔ (p :: b.waiting).Perm parties := by
  have hSub : (p :: b.waiting).Subperm parties :=
    (h.cons_nodup hNew).subperm (h.cons_subset hParty)
  have hCount := h.count
  constructor
  · intro hEmpty
    refine hSub.perm_of_length_le ?_
    unfold Barrier.arrive at hEmpty
    split at hEmpty
    · simp at hEmpty
    · rw [List.length_cons]
      omega
  · intro hPerm
    have hLength := hPerm.length_eq
    rw [List.length_cons] at hLength
    unfold Barrier.arrive
    rw [if_neg (by omega)]

/-- While a barrier holds someone, some party has not arrived. -/
theorem exists_missing (h : Serves b parties) (hNodup : parties.Nodup) :
    ∃ q ∈ parties, q ∉ b.waiting := by
  by_contra hAll
  push Not at hAll
  have hLe := (hNodup.subperm hAll).length_le
  have := h.room
  have := h.count
  omega

end Serves

end Barrier
