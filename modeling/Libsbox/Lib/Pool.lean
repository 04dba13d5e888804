import Mathlib.Algebra.BigOperators.Group.Finset.Basic
import Mathlib.Data.Fintype.BigOperators
import Mathlib.Data.List.Nodup
import Mathlib.Data.List.Perm.Basic

/-!
# A pool shared by many owners

Items are free or held by one of many owners, who take free items and give back
items that they hold. `Pool.Apart` says that no item is in two places at once.

## Results

* `Apart.keep`, `Apart.take`, `Apart.give` — what the owners do keeps it;
* `has_iff_of_take` — no item gets lost, and none comes in;
* `size_take` — their number stays the same.
-/

namespace Pool

variable {α ι : Type} {free free' : List α} {held held' : ι → List α} {x y : α} {i : ι}

/-- No item is in the pool twice, be it free or held. -/
structure Apart (free : List α) (held : ι → List α) : Prop where
  free_nodup : free.Nodup
  held_nodup : ∀ i, (held i).Nodup
  unheld : ∀ i, free.Disjoint (held i)
  apart : ∀ i j, i ≠ j → (held i).Disjoint (held j)

/-- A pool of which nothing is held. -/
theorem apart_of_nodup (h : free.Nodup) : Apart free fun _ : ι => [] where
  free_nodup := h
  held_nodup _ := List.nodup_nil
  unheld _ := List.disjoint_nil_right _
  apart _ _ _ := List.disjoint_nil_right _

/-- One owner has other items than before, which nobody else has. -/
theorem Apart.change (h : Apart free held) (hOthers : ∀ j, j ≠ i → held' j = held j)
    (hFree : free'.Nodup) (hHeld : (held' i).Nodup) (hUnheld : free'.Disjoint (held' i))
    (hApart : ∀ j, j ≠ i → free'.Disjoint (held j) ∧ (held' i).Disjoint (held j)) :
    Apart free' held' where
  free_nodup := hFree
  held_nodup j := by
    rcases eq_or_ne j i with rfl | hNe
    · exact hHeld
    · rw [hOthers j hNe]
      exact h.held_nodup j
  unheld j := by
    rcases eq_or_ne j i with rfl | hNe
    · exact hUnheld
    · rw [hOthers j hNe]
      exact (hApart j hNe).1
  apart j k hNe := by
    rcases eq_or_ne j i with rfl | hj
    · rw [hOthers k hNe.symm]
      exact (hApart k hNe.symm).2
    · rw [hOthers j hj]
      rcases eq_or_ne k i with rfl | hk
      · exact fun y hy hOther => (hApart j hj).2 hOther hy
      · rw [hOthers k hk]
        exact h.apart j k hNe

/-- An owner keeps what it holds. -/
theorem Apart.keep (h : Apart free held) (hOthers : ∀ j, j ≠ i → held' j = held j)
    (hHeld : (held' i).Perm (held i)) : Apart free held' := by
  refine h.change hOthers h.free_nodup (hHeld.nodup_iff.mpr (h.held_nodup i)) ?_ fun j hNe => ⟨h.unheld j, ?_⟩
  · exact fun y hFree hMem => h.unheld i hFree (hHeld.mem_iff.mp hMem)
  · exact fun y hMem hOther => h.apart i j hNe.symm (hHeld.mem_iff.mp hMem) hOther

/-- An owner takes a free item. -/
theorem Apart.take (h : Apart (x :: free) held) (hOthers : ∀ j, j ≠ i → held' j = held j)
    (hHeld : (held' i).Perm (x :: held i)) : Apart free held' := by
  obtain ⟨hNew, hFree⟩ := List.nodup_cons.mp h.free_nodup
  refine h.change hOthers hFree ?_ ?_ fun j hNe => ⟨?_, ?_⟩
  · rw [hHeld.nodup_iff, List.nodup_cons]
    exact ⟨h.unheld i List.mem_cons_self, h.held_nodup i⟩
  · intro y hFree' hMem
    rcases List.mem_cons.mp (hHeld.mem_iff.mp hMem) with rfl | hOld
    · exact hNew hFree'
    · exact h.unheld i (List.mem_cons_of_mem _ hFree') hOld
  · exact fun y hFree' hMem => h.unheld j (List.mem_cons_of_mem _ hFree') hMem
  · intro y hMem hOther
    rcases List.mem_cons.mp (hHeld.mem_iff.mp hMem) with rfl | hOld
    · exact h.unheld j List.mem_cons_self hOther
    · exact h.apart i j hNe.symm hOld hOther

/-- An owner gives an item back. -/
theorem Apart.give (h : Apart free held) (hOthers : ∀ j, j ≠ i → held' j = held j)
    (hHeld : (held i).Perm (x :: held' i)) : Apart (x :: free) held' := by
  have hMem : x ∈ held i := hHeld.mem_iff.mpr List.mem_cons_self
  obtain ⟨hGone, hNodup⟩ := List.nodup_cons.mp (hHeld.nodup_iff.mp (h.held_nodup i))
  have hSub : ∀ y ∈ held' i, y ∈ held i := fun y hy =>
    hHeld.mem_iff.mpr (List.mem_cons_of_mem _ hy)
  refine h.change hOthers ?_ hNodup ?_ fun j hNe => ⟨?_, ?_⟩
  · exact List.nodup_cons.mpr ⟨fun hFree => h.unheld i hFree hMem, h.free_nodup⟩
  · intro y hFree hy
    rcases List.mem_cons.mp hFree with rfl | hOld
    · exact hGone hy
    · exact h.unheld i hOld (hSub y hy)
  · intro y hFree hy
    rcases List.mem_cons.mp hFree with rfl | hOld
    · exact h.apart i j hNe.symm hMem hy
    · exact h.unheld j hOld hy
  · exact fun y hy hOther => h.apart i j hNe.symm (hSub y hy) hOther

/-- The item is in the pool, be it free or held. -/
def Has (free : List α) (held : ι → List α) (x : α) : Prop := x ∈ free ∨ ∃ i, x ∈ held i

/-- Taking a free item changes where it is, and nothing else. Read backwards, so does
giving it back. -/
theorem has_iff_of_take (hOthers : ∀ j, j ≠ i → held' j = held j)
    (hHeld : (held' i).Perm (x :: held i)) : Has free held' y ↔ Has (x :: free) held y := by
  have hSelf : y ∈ held' i ↔ y = x ∨ y ∈ held i := by rw [hHeld.mem_iff, List.mem_cons]
  constructor
  · rintro (hFree | ⟨j, hj⟩)
    · exact .inl (List.mem_cons_of_mem _ hFree)
    · rcases eq_or_ne j i with rfl | hNe
      · rcases hSelf.mp hj with rfl | hOld
        · exact .inl List.mem_cons_self
        · exact .inr ⟨j, hOld⟩
      · exact .inr ⟨j, hOthers j hNe ▸ hj⟩
  · rintro (hFree | ⟨j, hj⟩)
    · rcases List.mem_cons.mp hFree with rfl | hRest
      · exact .inr ⟨i, hSelf.mpr (.inl rfl)⟩
      · exact .inl hRest
    · rcases eq_or_ne j i with rfl | hNe
      · exact .inr ⟨j, hSelf.mpr (.inr hj)⟩
      · exact .inr ⟨j, (hOthers j hNe).symm ▸ hj⟩

section Size

variable [Fintype ι]

/-- The number of items, free or held. -/
def size (free : List α) (held : ι → List α) : Nat := free.length + ∑ i, (held i).length

/-- One owner holds more or less than before. -/
theorem sum_held [DecidableEq ι] (hOthers : ∀ j, j ≠ i → held' j = held j) :
    ∑ j, (held' j).length + (held i).length = ∑ j, (held j).length + (held' i).length := by
  have hRest : ∑ j ∈ Finset.univ.erase i, (held' j).length =
      ∑ j ∈ Finset.univ.erase i, (held j).length :=
    Finset.sum_congr rfl fun j hj => by rw [hOthers j (Finset.ne_of_mem_erase hj)]
  have hNew := Finset.add_sum_erase Finset.univ (fun j => (held' j).length) (Finset.mem_univ i)
  have hOld := Finset.add_sum_erase Finset.univ (fun j => (held j).length) (Finset.mem_univ i)
  omega

theorem size_keep [DecidableEq ι] (hOthers : ∀ j, j ≠ i → held' j = held j)
    (hHeld : (held' i).Perm (held i)) : size free held' = size free held := by
  have hSum := sum_held hOthers
  have hLength := hHeld.length_eq
  unfold size
  omega

/-- Taking a free item keeps the number of items. Read backwards, so does giving it back. -/
theorem size_take [DecidableEq ι] (hOthers : ∀ j, j ≠ i → held' j = held j)
    (hHeld : (held' i).Perm (x :: held i)) : size free held' = size (x :: free) held := by
  have hSum := sum_held hOthers
  have hLength := hHeld.length_eq
  rw [List.length_cons] at hLength
  unfold size
  rw [List.length_cons]
  omega

end Size

end Pool
