import Mathlib.Logic.Function.Basic

/-!
# Descriptor tables

What the descriptors of a process refer to. A call that opens a file gets a number
that is not in use; which one is for the kernel to say, so the calls take the
numbers that it hands out. A call that fails is `none`.

## Results

* `openFile_cases` — what an opening call did;
* `Extends` — a table with more open descriptors, which opening leads to;
* `map_openFile` — the same call on a table that tells less.
-/

/-- What each descriptor refers to. -/
abbrev FdTable (γ : Type) := Int → Option γ

namespace FdTable

variable {γ : Type}

/-- A call that opens `f`. It gets the first of the numbers in `fresh`. -/
def openFile (t : FdTable γ) (f : γ) : List Int → Option (Int × FdTable γ × List Int)
  | [] => none
  | fd :: fresh =>
    if 0 ≤ fd ∧ t fd = none then some (fd, Function.update t fd (some f), fresh) else none

/-- `dup2(fd, newFd)`. -/
def dup2 (t : FdTable γ) (fd newFd : Int) : Option (FdTable γ) :=
  (t fd).map fun f => Function.update t newFd (some f)

/-- `close(fd)`. -/
def close (t : FdTable γ) (fd : Int) : Option (FdTable γ) :=
  (t fd).map fun _ => Function.update t fd none

/-- Everything but `keep` is closed. -/
def keepOnly (t : FdTable γ) (keep : Int → Bool) : FdTable γ := fun fd => if keep fd then t fd else none

/-- What is open in `t` is open in `t'`, and refers to the same. -/
def Extends (t t' : FdTable γ) : Prop := ∀ fd f, t fd = some f → t' fd = some f

variable {t t' t'' : FdTable γ} {f : γ} {fd newFd : Int} {fresh rest : List Int}

theorem Extends.refl (t : FdTable γ) : t.Extends t := fun _ _ h => h

theorem Extends.trans (h : t.Extends t') (h' : t'.Extends t'') : t.Extends t'' :=
  fun fd f hOpen => h' fd f (h fd f hOpen)

/-- A number that is free in a larger table was free before. -/
theorem Extends.free (h : t.Extends t') (hFree : t' fd = none) : t fd = none := by
  cases hOpen : t fd with
  | none => rfl
  | some f => cases (h fd f hOpen).symm.trans hFree

theorem update_ne_none {n : Int} :
    Function.update t fd (some f) n ≠ none ↔ n = fd ∨ t n ≠ none := by
  by_cases hEq : n = fd
  · subst hEq
    simp
  · rw [Function.update_of_ne hEq]
    exact (or_iff_right hEq).symm

/-- What opening a file did. -/
structure Opened (t : FdTable γ) (f : γ) (fd : Int) (t' : FdTable γ) : Prop where
  nonneg : 0 ≤ fd
  free : t fd = none
  self : t' fd = some f
  other : ∀ n, n ≠ fd → t' n = t n

theorem opened_update (hNonneg : 0 ≤ fd) (hFree : t fd = none) :
    t.Opened f fd (Function.update t fd (some f)) :=
  ⟨hNonneg, hFree, Function.update_self _ _ _, fun _ hNe => Function.update_of_ne hNe _ _⟩

theorem openFile_cases (h : t.openFile f fresh = some (fd, t', rest)) :
    t.Opened f fd t' ∧ fresh = fd :: rest := by
  cases fresh with
  | nil => cases h
  | cons n fresh =>
    rw [openFile] at h
    split at h
    · rename_i hFree
      cases h
      exact ⟨opened_update hFree.1 hFree.2, rfl⟩
    · cases h

theorem Opened.extends (h : t.Opened f fd t') : t.Extends t' := by
  intro n g hOpen
  have hNe : n ≠ fd := by
    rintro rfl
    rw [h.free] at hOpen
    cases hOpen
  rw [h.other n hNe, hOpen]

theorem Opened.cases (h : t.Opened f fd t') {n : Int} {g : γ} (hOpen : t' n = some g) :
    n = fd ∧ g = f ∨ n ≠ fd ∧ t n = some g := by
  rcases eq_or_ne n fd with rfl | hNe
  · exact .inl ⟨rfl, Option.some.inj (hOpen.symm.trans h.self)⟩
  · exact .inr ⟨hNe, (h.other n hNe).symm.trans hOpen⟩

theorem dup2_cases (h : t.dup2 fd newFd = some t') :
    ∃ f, t fd = some f ∧ t' = Function.update t newFd (some f) := by
  obtain ⟨f, hOpen, rfl⟩ := Option.map_eq_some_iff.mp h
  exact ⟨f, hOpen, rfl⟩

theorem close_cases (h : t.close fd = some t') :
    ∃ f, t fd = some f ∧ t' = Function.update t fd none := by
  obtain ⟨f, hOpen, rfl⟩ := Option.map_eq_some_iff.mp h
  exact ⟨f, hOpen, rfl⟩

theorem close_of_open (h : t fd = some f) : t.close fd = some (Function.update t fd none) := by
  rw [close, h]
  rfl

/-- Closing leaves what another descriptor refers to. -/
theorem close_open {n : Int} {g : γ} (h : t.close fd = some t') :
    t' n = some g ↔ n ≠ fd ∧ t n = some g := by
  obtain ⟨f, -, rfl⟩ := close_cases h
  rcases eq_or_ne n fd with rfl | hNe
  · simp
  · rw [Function.update_of_ne hNe]
    simp [hNe]

/-- What a coarser view of open files sees of a table. -/
def map {δ : Type} (g : γ → δ) (t : FdTable γ) : FdTable δ := fun fd => (t fd).map g

section Map

variable {δ : Type} (g : γ → δ)

theorem map_update (t : FdTable γ) (fd : Int) (x : Option γ) :
    (FdTable.map g (Function.update t fd x)) = Function.update (t.map g) fd (x.map g) := by
  funext n
  unfold map
  rcases eq_or_ne n fd with rfl | hNe
  · rw [Function.update_self, Function.update_self]
  · rw [Function.update_of_ne hNe, Function.update_of_ne hNe]

theorem map_openFile (h : t.openFile f fresh = some (fd, t', rest)) :
    (t.map g).openFile (g f) fresh = some (fd, t'.map g, rest) := by
  cases fresh with
  | nil => cases h
  | cons n fresh =>
    rw [openFile] at h
    split at h
    · rename_i hFree
      cases h
      rw [openFile, if_pos ⟨hFree.1, by rw [map, hFree.2]; rfl⟩, map_update]
      rfl
    · cases h

end Map

theorem keepOnly_open {keep : Int → Bool} {n : Int} {g : γ} :
    t.keepOnly keep n = some g ↔ keep n = true ∧ t n = some g := by
  unfold keepOnly
  split
  · simp [*]
  · simp [*]

end FdTable
