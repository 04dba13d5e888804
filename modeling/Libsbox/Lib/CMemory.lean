import Mathlib.Algebra.GroupWithZero.Nat
import Mathlib.Algebra.Ring.Int.Defs
import Mathlib.Data.List.TakeWhile

/-!
# C memory — fixed arrays and NUL-terminated strings

The two notions every packed C structure rests on: a store into an array of
fixed size, which has a result only inside the array, and the string that a
`const char *` reads, which ends at the first NUL whatever follows it.

`Vector.toList` is the view all lemmas are stated in: a store at the boundary
between a written prefix and the untouched rest moves that boundary by one.
-/

namespace CMemory

/-- The bytes of a `std::string` or of a `char` array. -/
abbrev Str := List UInt8

/-- The bytes of an ASCII literal. -/
def lit (s : String) : Str := s.toList.map fun c => c.toNat.toUInt8

/-- `%zi` in a format string. -/
def decimal (n : Nat) : Str := lit (toString n)

/-- What is read through a `const char *` to these bytes. -/
def cstr (s : Str) : Str := s.takeWhile (· != 0)

/-- `strcmp(a, b) == 0`. -/
def strcmpEq (a b : Str) : Bool := cstr a == cstr b

/-- `data[i] = x` for `T data[n]`; a store outside of the array has no result. -/
def store {α : Type} {n : Nat} (a : Vector α n) (i : Nat) (x : α) : Option (Vector α n) :=
  if h : i < n then some (a.set i x h) else none

/-- `memcpy(a + i, xs, n)`, byte by byte. -/
def copy {α : Type} {n : Nat} (a : Vector α n) (i : Nat) : List α → Option (Vector α n)
  | [] => some a
  | x :: xs => do
    let a ← store a i x
    copy a (i + 1) xs

/-- The string that begins with an array; without a NUL in it the read does not end there. -/
def cstrIn {n : Nat} (a : Vector UInt8 n) : Option Str :=
  if 0 ∈ a.toList then some (cstr a.toList) else none

/-! ## C strings -/

/-- The NUL that ends a string cuts off whatever stands behind it. -/
theorem cstr_append_nul (s rest : Str) : cstr (s ++ 0 :: rest) = cstr s := by
  induction s with
  | nil => simp [cstr]
  | cons c s ih =>
    by_cases hc : c = 0
    · simp [cstr, hc]
    · simpa [cstr, List.takeWhile_cons, hc] using ih

theorem cstr_of_nul_free {s : Str} (h : (0 : UInt8) ∉ s) : cstr s = s := by
  rw [cstr, List.takeWhile_eq_self_iff]
  intro c hc
  have : c ≠ 0 := fun hz => h (hz ▸ hc)
  simpa using this

theorem nul_notMem_cstr (s : Str) : (0 : UInt8) ∉ cstr s := by
  intro h
  have := List.mem_takeWhile_imp h
  simp at this

theorem cstr_append_of_nul_free {s : Str} (h : (0 : UInt8) ∉ s) (t : Str) :
    cstr (s ++ t) = s ++ cstr t := by
  unfold cstr
  refine List.takeWhile_append_of_pos fun c hc => ?_
  have hNonzero : c ≠ 0 := fun hz => h (hz ▸ hc)
  simpa using hNonzero

theorem cstr_append_of_nul {s : Str} (h : (0 : UInt8) ∈ s) (t : Str) :
    cstr (s ++ t) = cstr s := by
  obtain ⟨pre, rest, rfl⟩ := List.append_of_mem h
  rw [List.append_assoc, List.cons_append, cstr_append_nul, cstr_append_nul]

theorem cstr_isPrefix (s : Str) : cstr s <+: s := List.takeWhile_prefix _

/-- Every prefix without a NUL ends before the first NUL. -/
theorem prefix_cstr {s p : Str} (hPrefix : p <+: s) (h : (0 : UInt8) ∉ p) : p <+: cstr s := by
  obtain ⟨rest, rfl⟩ := hPrefix
  rw [cstr_append_of_nul_free h]
  exact List.prefix_append p _

/-- `strlen(s) < n` for `n` bytes. -/
theorem cstr_length_lt_iff (s : Str) : (cstr s).length < s.length ↔ (0 : UInt8) ∈ s := by
  by_cases h : (0 : UInt8) ∈ s
  · obtain ⟨pre, rest, rfl⟩ := List.append_of_mem h
    have hLength := (cstr_isPrefix pre).length_le
    rw [cstr_append_nul, List.length_append, List.length_cons]
    refine iff_of_true ?_ h
    omega
  · rw [cstr_of_nul_free h]
    exact iff_of_false (Nat.lt_irrefl _) h

theorem strcmpEq_iff {a b : Str} : strcmpEq a b = true ↔ cstr a = cstr b := by
  simp [strcmpEq]

/-! ## Stores -/

section Stores

variable {α : Type} {n : Nat} {a a' : Vector α n} {i : Nat} {x : α}

theorem store_eq_none_iff : store a i x = none ↔ n ≤ i := by
  unfold store
  split <;> simp <;> omega

/-- A store right behind a written prefix extends the prefix. -/
theorem store_extends {pre rest : List α} {y : α} (h : a.toList = pre ++ y :: rest) :
    ∃ a', store a pre.length x = some a' ∧ a'.toList = pre ++ x :: rest := by
  have hlen : pre.length < n := by
    have := congrArg List.length h
    simp at this
    omega
  refine ⟨a.set pre.length x hlen, by simp [store, hlen], ?_⟩
  rw [Vector.toList_set, h]
  simp

/-- A copy right behind a written prefix takes the place of as many old values. -/
theorem copy_extends {rest : List α} : ∀ {xs old pre : List α} {a : Vector α n},
    a.toList = pre ++ (old ++ rest) → old.length = xs.length →
      ∃ a', copy a pre.length xs = some a' ∧ a'.toList = pre ++ (xs ++ rest)
  | [], old, pre, a, h, hLength => by
    obtain rfl := List.eq_nil_of_length_eq_zero hLength
    exact ⟨a, rfl, h⟩
  | x :: xs, [], _, _, _, hLength => by cases hLength
  | x :: xs, y :: old, pre, a, h, hLength => by
    obtain ⟨a₁, hStore, hOne⟩ := store_extends (x := x) (y := y) h
    have hMoved : a₁.toList = (pre ++ [x]) ++ (old ++ rest) := by simp [hOne]
    obtain ⟨a', hCopy, hAll⟩ := copy_extends hMoved (Nat.succ.inj hLength)
    refine ⟨a', ?_, by simp [hAll]⟩
    rw [List.length_append, List.length_singleton] at hCopy
    rw [copy, hStore]
    exact hCopy

/-- A store behind a written prefix fails only when nothing is left behind it. -/
theorem store_prefix_cases {pre rest : List α} (h : a.toList = pre ++ rest) :
    (rest = [] ∧ store a pre.length x = none) ∨
      ∃ y tl a', rest = y :: tl ∧ store a pre.length x = some a' ∧
        a'.toList = pre ++ x :: tl := by
  cases rest with
  | nil =>
    have hn : n ≤ pre.length := by
      have := congrArg List.length h
      simp at this
      omega
    exact .inl ⟨rfl, store_eq_none_iff.mpr hn⟩
  | cons y tl =>
    obtain ⟨a', hs, hl⟩ := store_extends (x := x) h
    exact .inr ⟨y, tl, a', rfl, hs, hl⟩

end Stores

end CMemory
