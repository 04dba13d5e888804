import Libsbox.Lib.CMemory

/-!
# Decimal numerals

The bytes that `%zi` and `std::to_string` write for a number, and the number that they
are read as.

## Results

* `digitsValue_decimal` — a number is read back;
* `decimal_digits` — its numeral has nothing in it but digits;
* `decimalInt_injective` — the same for signed numbers.
-/

namespace CMemory

/-- `'0'` to `'9'`. -/
def isDigit (c : UInt8) : Bool := 48 ≤ c && c ≤ 57

/-- The number that a string of digits stands for. -/
def digitsValue (s : Str) : Nat := s.foldl (fun n c => 10 * n + (c.toNat - 48)) 0

theorem decimal_eq (n : Nat) :
    decimal n = (Nat.toDigits 10 n).map fun c => c.toNat.toUInt8 := by
  rw [decimal, lit, Nat.toString_eq_repr, Nat.toList_repr]

/-- The byte of a digit. -/
theorem toNat_digit {c : Char} (h : c.isDigit = true) :
    48 ≤ c.toNat ∧ c.toNat ≤ 57 ∧ c.toNat.toUInt8.toNat = c.toNat := by
  have hBounds : 48 ≤ c.toNat ∧ c.toNat ≤ 57 := by
    simp only [Char.isDigit, Bool.and_eq_true, decide_eq_true_eq] at h
    exact ⟨h.1, h.2⟩
  refine ⟨hBounds.1, hBounds.2, ?_⟩
  show c.toNat % 2 ^ 8 = c.toNat
  omega

theorem decimal_digits (n : Nat) : ∀ c ∈ decimal n, isDigit c = true := by
  intro c hc
  rw [decimal_eq] at hc
  obtain ⟨d, hd, rfl⟩ := List.mem_map.mp hc
  obtain ⟨hLow, hHigh, hByte⟩ := toNat_digit (Nat.isDigit_of_mem_toDigits (by decide) (by decide) hd)
  simp only [isDigit, Bool.and_eq_true, decide_eq_true_eq, UInt8.le_iff_toNat_le]
  rw [hByte]
  exact ⟨hLow, hHigh⟩

theorem decimal_ne_nil (n : Nat) : decimal n ≠ [] := by
  rw [decimal_eq, ne_eq, List.map_eq_nil_iff]
  exact Nat.toDigits_ne_nil

theorem foldl_digits (l : List Char) (hDigits : ∀ c ∈ l, c.isDigit = true) (init : Nat) :
    (l.map fun c => c.toNat.toUInt8).foldl (fun n c => 10 * n + (c.toNat - 48)) init =
      Nat.ofDigitChars 10 l init := by
  induction l generalizing init with
  | nil => rw [List.map_nil, List.foldl_nil, Nat.ofDigitChars_nil]
  | cons c l ih =>
    have hByte := (toNat_digit (hDigits c List.mem_cons_self)).2.2
    rw [List.map_cons, List.foldl_cons, Nat.ofDigitChars_cons, hByte]
    exact ih (fun d hd => hDigits d (List.mem_cons_of_mem c hd)) _

/-- **A numeral is read back.** -/
theorem digitsValue_decimal (n : Nat) : digitsValue (decimal n) = n := by
  rw [digitsValue, decimal_eq, foldl_digits _ fun c hc =>
    Nat.isDigit_of_mem_toDigits (by decide) (by decide) hc]
  exact Nat.ofDigitChars_ten_toDigits

theorem decimal_injective : Function.Injective decimal := by
  intro m n h
  rw [← digitsValue_decimal m, h, digitsValue_decimal]

/-- `%d` and `std::to_string` of a signed number. -/
def decimalInt (n : Int) : Str :=
  if n < 0 then lit "-" ++ decimal n.natAbs else decimal n.natAbs

theorem decimalInt_injective : Function.Injective decimalInt := by
  -- no numeral of a natural number begins with the sign
  have hSign : ∀ m n : Nat, lit "-" ++ decimal m ≠ decimal n := by
    intro m n hEq
    have hFirst : (45 : UInt8) ∈ decimal n := by
      rw [← hEq]
      exact List.mem_cons_self
    exact absurd (decimal_digits n 45 hFirst) (by decide)
  intro m n h
  unfold decimalInt at h
  split at h
  · next hm =>
    split at h
    · next hn =>
      have hAbs := decimal_injective (List.append_cancel_left h)
      omega
    · exact absurd h (hSign _ _)
  · next hm =>
    split at h
    · exact absurd h.symm (hSign _ _)
    · next hn =>
      have hAbs := decimal_injective h
      omega

theorem nul_notMem_decimalInt (n : Int) : (0 : UInt8) ∉ decimalInt n := by
  have hDigits : (0 : UInt8) ∉ decimal n.natAbs := fun hMem =>
    absurd (decimal_digits _ 0 hMem) (by decide)
  unfold decimalInt
  split
  · intro hMem
    rcases List.mem_append.mp hMem with hSign | hDigit
    · exact absurd hSign (by decide)
    · exact hDigits hDigit
  · exact hDigits

/-- The digits at the head of a string. -/
theorem takeWhile_decimal (n : Nat) {rest : Str} (hRest : ∀ c ∈ rest.head?, isDigit c = false) :
    (decimal n ++ rest).takeWhile isDigit = decimal n ∧
      (decimal n ++ rest).dropWhile isDigit = rest := by
  have hNone : rest.takeWhile isDigit = [] ∧ rest.dropWhile isDigit = rest := by
    cases rest with
    | nil => exact ⟨rfl, rfl⟩
    | cons c rest =>
      have hc : isDigit c = false := hRest c rfl
      exact ⟨by rw [List.takeWhile_cons_of_neg (by simp [hc])],
        by rw [List.dropWhile_cons_of_neg (by simp [hc])]⟩
  rw [List.takeWhile_append_of_pos (decimal_digits n), List.dropWhile_append_of_pos (decimal_digits n),
    hNone.1, hNone.2, List.append_nil]
  exact ⟨rfl, rfl⟩

end CMemory
