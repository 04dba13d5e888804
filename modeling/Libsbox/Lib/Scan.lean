import Libsbox.Lib.Decimal

/-!
# Scanning text

What `std::stoll` and the `>>` of a stream take out of a text, and what they find in
lines with a number at the end.

## Results

* `stoll_decimal` — a numeral that stands before a blank is read back;
* `words_append` — a word that stands before a blank is the next one.
-/

namespace CMemory

/-- `isspace` in the C locale. -/
def isSpace (c : UInt8) : Bool := c == 32 || (9 ≤ c && c ≤ 13)

/-- `std::stoll`: the number at the head of a string, if there is one and it fits. -/
def stoll (s : Str) : Option Int64 :=
  let s := (cstr s).dropWhile isSpace
  let negative := s.head? = some 45
  let digits := (if negative ∨ s.head? = some 43 then s.tail else s).takeWhile isDigit
  let n : Int := if negative then -(digitsValue digits) else digitsValue digits
  if digits ≠ [] ∧ -2 ^ 63 ≤ n ∧ n < 2 ^ 63 then some (Int64.ofInt n) else none

/-- What `>>` reads out of a stream into strings, one after the other. -/
def words (s : Str) : List Str := (s.splitOnP isSpace).filter fun word => !word.isEmpty

-- ---------------------------------------------------------------------------
-- Numbers
-- ---------------------------------------------------------------------------

theorem isSpace_of_isDigit {c : UInt8} (h : isDigit c = true) : isSpace c = false := by
  have hRange : 48 ≤ c.toNat ∧ c.toNat ≤ 57 := by
    simpa [isDigit, UInt8.le_iff_toNat_le] using h
  have hNot32 : c ≠ 32 := by
    rintro rfl
    exact absurd hRange.1 (by decide)
  have hNot13 : ¬ c ≤ 13 := by
    rw [UInt8.le_iff_toNat_le]
    show ¬ c.toNat ≤ 13
    omega
  simp [isSpace, hNot32, hNot13]

/-- A numeral begins with neither a blank nor a sign. -/
theorem head?_decimal (n : Nat) :
    ∃ c rest, decimal n = c :: rest ∧ isSpace c = false ∧ c ≠ 45 ∧ c ≠ 43 := by
  obtain ⟨c, rest, hEq⟩ := List.exists_cons_of_ne_nil (decimal_ne_nil n)
  have hDigit : isDigit c = true := decimal_digits n c (hEq ▸ List.mem_cons_self)
  refine ⟨c, rest, hEq, isSpace_of_isDigit hDigit, ?_, ?_⟩
  · rintro rfl
    exact absurd hDigit (by decide)
  · rintro rfl
    exact absurd hDigit (by decide)

theorem nul_notMem_decimal (n : Nat) : (0 : UInt8) ∉ decimal n :=
  fun hMem => absurd (decimal_digits n 0 hMem) (by decide)

/-- **A numeral before something else is read back**, if it fits. -/
theorem stoll_decimal (n : Nat) {rest : Str} (hRest : ∀ c ∈ rest.head?, isDigit c = false) :
    stoll (decimal n ++ rest) = if n < 2 ^ 63 then some (Int64.ofNat n) else none := by
  have hCstr : cstr (decimal n ++ rest) = decimal n ++ cstr rest :=
    cstr_append_of_nul_free (nul_notMem_decimal n) rest
  have hRest' : ∀ c ∈ (cstr rest).head?, isDigit c = false := by
    intro c hc
    cases rest with
    | nil => exact absurd hc (by simp [cstr])
    | cons d rest =>
      by_cases hd : d = 0
      · simp [cstr, hd] at hc
      · have hEq : d = c := by simpa [cstr, List.takeWhile_cons, hd] using hc
        exact hRest c (by rw [← hEq]; rfl)
  obtain ⟨c, tail, hEq, hSpace, hMinus, hPlus⟩ := head?_decimal n
  have hDrop : (decimal n ++ cstr rest).dropWhile isSpace = decimal n ++ cstr rest := by
    rw [hEq, List.cons_append, List.dropWhile_cons_of_neg (by simp [hSpace])]
  have hHead : (decimal n ++ cstr rest).head? = some c := by
    rw [hEq]
    rfl
  have hDigits := (takeWhile_decimal n hRest').1
  unfold stoll
  simp only [hCstr, hDrop, hHead, Option.some_inj, hMinus, hPlus, or_self, if_false, hDigits,
    digitsValue_decimal, ne_eq, decimal_ne_nil, not_false_eq_true, true_and]
  have hLow : (-2 ^ 63 : Int) ≤ n := by omega
  simp only [hLow, true_and]
  by_cases hFits : n < 2 ^ 63
  · rw [if_pos hFits, if_pos (by omega)]
    rfl
  · rw [if_neg hFits, if_neg (by omega)]

-- ---------------------------------------------------------------------------
-- Words
-- ---------------------------------------------------------------------------

/-- A word that stands before a blank is the next one. -/
theorem words_append {word rest : Str} {c : UInt8} (hWord : ∀ d ∈ word, isSpace d = false)
    (hNonempty : word ≠ []) (hSpace : isSpace c = true) :
    words (word ++ c :: rest) = word :: words rest := by
  unfold words
  rw [List.splitOnP_append_cons_of_forall_mem (fun d hd => hWord d hd) c hSpace rest]
  exact List.filter_cons_of_pos (by simpa using hNonempty)

theorem words_nil : words [] = [] := by
  simp [words, List.splitOnP_nil]

theorem decimal_not_space (n : Nat) : ∀ c ∈ decimal n, isSpace c = false :=
  fun c hc => isSpace_of_isDigit (decimal_digits n c hc)

end CMemory
