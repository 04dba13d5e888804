import Mathlib.Data.List.Induction
import Mathlib.Data.List.Infix
import Libsbox.Lib.Runs
import Libsbox.Model.PlainStrings

/-!
# libsbox — string vectors as lists of strings

What `PlainStringVector` is for: a list of strings that `clear` empties and `add` makes
longer by one, in the form that `execvpe` takes its arguments in. The list is the
specification, `added`; the vector keeps step with it for as long as the strings fit,
with `Holds` between the two.

At the capacity limit all of `items_` and all of `data_` are in use: a pointer for each of
`MaxItems` strings and the sentinel, `MaxTotalSize` characters, a NUL behind each string
and the one that ends `data_`.

## Results

* `run_holds` — the vector runs along with the list;
* `Holds.represents`, `Holds.keeps` — what is read from the packed form of a list, and
  what later calls of `add` leave as it is;
* `refines_list` — the two together, for NUL-free strings.
-/

namespace Libsbox

open CMemory Runs

-- ---------------------------------------------------------------------------
-- Regions of strings
-- ---------------------------------------------------------------------------

/-- A string and its NUL end before the next one begins. -/
theorem begins_lt {strs : List Str} {i j : Nat} (hij : i < j) (hi : i < strs.length) :
    begins strs i + strs[i].length < begins strs j := by
  have hLength : i < (strs.take j).length := by
    rw [List.length_take]
    omega
  have hSplit := congrArg List.length (packed_split (strs.take j) i hLength)
  rw [List.length_append, List.length_append, List.length_cons, List.take_take,
    Nat.min_eq_left hij.le, List.getElem_take] at hSplit
  show (packed (strs.take i)).length + strs[i].length < (packed (strs.take j)).length
  omega

theorem begins_lt_packed {strs : List Str} {i : Nat} (hi : i < strs.length) :
    begins strs i + strs[i].length < (packed strs).length := by
  have hAll : begins strs strs.length = (packed strs).length := by
    rw [begins, List.take_length]
  rw [← hAll]
  exact begins_lt hi hi

/-- The indices of a string at `p` and of its NUL. -/
def extent (p : Nat) (str : Str) : List Nat := List.range' p (str.length + 1)

theorem mem_extent {p k : Nat} {str : Str} : k ∈ extent p str ↔ p ≤ k ∧ k ≤ p + str.length := by
  rw [extent, List.mem_range'_1]
  omega

theorem disjoint_extent {strs : List Str} {i j : Nat} (hi : i < strs.length)
    (hj : j < strs.length) (hij : i ≠ j) :
    List.Disjoint (extent (begins strs i) strs[i]) (extent (begins strs j) strs[j]) := by
  intro k hk hk'
  rw [mem_extent] at hk hk'
  rcases Nat.lt_or_gt_of_ne hij with hLt | hLt
  · have := begins_lt hLt hi
    omega
  · have := begins_lt hLt hj
    omega

namespace PlainStringVector

variable {maxItems maxTotalSize : Nat}

-- ---------------------------------------------------------------------------
-- Calls
-- ---------------------------------------------------------------------------

/-- The calls that change a vector. -/
inductive Call where
  | clear
  | add (str : Str)
  deriving DecidableEq

/-- A call on the vector. -/
def step (v : PlainStringVector maxItems maxTotalSize) :
    Call → Option (PlainStringVector maxItems maxTotalSize)
  | .clear => v.clear
  | .add str => v.add str

/-- The same call on a list of strings. -/
def added (strs : List Str) : Call → List Str
  | .clear => []
  | .add str => strs ++ [str]

/-- The strings added since the last `clear`. -/
def sinceClear (calls : List Call) : List Str := calls.foldl added []

/-- At most `maxItems` strings of a total length of at most `maxTotalSize`. -/
def Fits (maxItems maxTotalSize : Nat) (strs : List Str) : Prop :=
  strs.length ≤ maxItems ∧ (strs.map List.length).sum ≤ maxTotalSize

instance (strs : List Str) : Decidable (Fits maxItems maxTotalSize strs) :=
  inferInstanceAs (Decidable (_ ∧ _))

theorem new_holds : (new : PlainStringVector maxItems maxTotalSize).Holds [] := by
  refine ⟨⟨rfl, List.replicate maxItems none, ?_⟩, ⟨rfl, List.replicate (maxTotalSize + maxItems) 0, ?_⟩⟩
  · show (Vector.replicate (maxItems + 1) none).toList = _
    rw [Vector.toList_replicate, List.replicate_succ]
    rfl
  · show (Vector.replicate (maxTotalSize + maxItems + 1) 0).toList = _
    rw [Vector.toList_replicate, List.replicate_succ]
    rfl

/-- **One call.** The vector keeps step with the list. -/
theorem step_holds (v : PlainStringVector maxItems maxTotalSize) (strs : List Str) (call : Call)
    (h : v.Holds strs) (hFits : Fits maxItems maxTotalSize (added strs call)) :
    ∃ w, step v call = some w ∧ w.Holds (added strs call) := by
  cases call with
  | clear => exact clear_holds v
  | add str =>
    rcases add_cases h str with ⟨hFull, -⟩ | hAdd
    · have hCount : strs.length + 1 ≤ maxItems := by simpa [added] using hFits.1
      have hTotal : (strs.map List.length).sum + str.length ≤ maxTotalSize := by
        simpa [added] using hFits.2
      rw [packed_length] at hFull
      omega
    · exact hAdd

theorem run_holds {calls : List Call}
    (hFits : ∀ pre, pre <+: calls → Fits maxItems maxTotalSize (sinceClear pre)) :
    ∃ v : PlainStringVector maxItems maxTotalSize, run step new calls = some v ∧
      v.Holds (sinceClear calls) :=
  run_refines step_holds new_holds hFits

theorem addAll_eq_run (v : PlainStringVector maxItems maxTotalSize) (strs : List Str) :
    v.addAll strs = run step v (strs.map .add) := by
  induction strs generalizing v with
  | nil => rfl
  | cons str strs ih =>
    show (v.add str).bind (fun w => w.addAll strs) = (v.add str).bind fun w => run step w _
    simp only [ih]

theorem mem_sinceClear {calls : List Call} {str : Str} (h : str ∈ sinceClear calls) :
    .add str ∈ calls := by
  induction calls using List.reverseRecOn with
  | nil => cases h
  | append_singleton calls call ih =>
    rw [sinceClear, List.foldl_append] at h
    cases call with
    | clear => cases h
    | add last =>
      rcases List.mem_append.mp h with hOld | hLast
      · exact List.mem_append_left _ (ih hOld)
      · obtain rfl := List.mem_singleton.mp hLast
        exact List.mem_append_right _ (List.mem_singleton_self _)

-- ---------------------------------------------------------------------------
-- Reading
-- ---------------------------------------------------------------------------

/-- `p` leads to a region inside `data_` that is `str` and its NUL, and reads as the C
string `str`. -/
structure PointsTo (v : PlainStringVector maxItems maxTotalSize) (p : Nat) (str : Str) : Prop where
  inside : ∀ k ∈ extent p str, k < v.bytes.length
  region : str ++ [0] <+: v.bytes.drop p
  cstr : cstr (v.bytes.drop p) = str

/-- What a reader of `v` finds where the strings are `strs`. -/
structure Represents (v : PlainStringVector maxItems maxTotalSize) (strs : List Str) : Prop where
  count : v.count = strs.length
  points : ∀ i (hi : i < strs.length), ∃ p, v.get[i]? = some (some p) ∧ v.PointsTo p strs[i]
  disjoint : ∀ i j (hi : i < strs.length) (hj : j < strs.length) p q, i ≠ j →
    v.get[i]? = some (some p) → v.get[j]? = some (some q) →
      List.Disjoint (extent p strs[i]) (extent q strs[j])
  sentinel : v.get[v.count]? = some none

/-- The pointers to the strings of `v`, and the characters they lead to, are the same in
`w`. -/
def Keeps (v w : PlainStringVector maxItems maxTotalSize) (strs : List Str) : Prop :=
  ∀ i (hi : i < strs.length) p, v.get[i]? = some (some p) →
    w.get[i]? = some (some p) ∧ ∀ k ∈ extent p strs[i], w.bytes[k]? = v.bytes[k]?

section Holds

variable {v w : PlainStringVector maxItems maxTotalSize} {strs more : List Str}

theorem Holds.sentinel (h : v.Holds strs) : v.get[v.count]? = some none := by
  obtain ⟨-, rest, hItems⟩ := h.items
  rw [get, hItems, h.count_eq, List.append_assoc, List.getElem?_append_right (by simp)]
  simp

theorem Holds.pointsTo (h : v.Holds strs) (i : Nat) (hi : i < strs.length)
    (hNulFree : (0 : UInt8) ∉ strs[i]) : v.PointsTo (begins strs i) strs[i] := by
  obtain ⟨rest, hRegion⟩ := h.region i hi
  refine ⟨?_, ⟨rest, ?_⟩, ?_⟩
  · intro k hk
    rw [mem_extent] at hk
    have hPacked := begins_lt_packed hi
    obtain ⟨behind, hBytes⟩ := h.bytes_eq
    rw [hBytes, List.length_append]
    omega
  · rw [hRegion, List.append_assoc]
    rfl
  · rw [hRegion, cstr_append_nul, cstr_of_nul_free hNulFree]

/-- **What can be read** from the packed form of NUL-free strings. -/
theorem Holds.represents (h : v.Holds strs) (hNulFree : ∀ str ∈ strs, (0 : UInt8) ∉ str) :
    v.Represents strs := by
  refine ⟨h.count_eq, fun i hi => ?_, ?_, h.sentinel⟩
  · have hPoints := h.pointsTo i hi (hNulFree _ (List.getElem_mem hi))
    exact ⟨begins strs i, h.get_getElem? i hi, hPoints⟩
  · intro i j hi hj p q hij hp hq
    rw [h.get_getElem? i hi] at hp
    rw [h.get_getElem? j hj] at hq
    cases hp
    cases hq
    exact disjoint_extent hi hj hij

/-- What stands behind the strings does not change them. -/
theorem Holds.keeps (h : v.Holds strs) (hMore : w.Holds (strs ++ more)) : v.Keeps w strs := by
  intro i hi p hp
  rw [h.get_getElem? i hi] at hp
  cases hp
  have hi' : i < (strs ++ more).length := by
    rw [List.length_append]
    omega
  constructor
  · rw [hMore.get_getElem? i hi', begins, begins, List.take_append_of_le_length hi.le]
  · intro k hk
    rw [mem_extent] at hk
    have hInside : k < (packed strs).length := by
      have := begins_lt_packed hi
      omega
    obtain ⟨rest, hBytes⟩ := h.bytes_eq
    obtain ⟨rest', hBytes'⟩ := hMore.bytes_eq
    rw [hBytes, hBytes', packed_append, List.append_assoc, List.getElem?_append_left hInside,
      List.getElem?_append_left hInside]

/-- Calls of `add` that store inside the arrays make the list longer. -/
theorem Holds.addAll (h : v.Holds strs) (hAll : v.addAll more = some w) :
    w.Holds (strs ++ more) := by
  induction more generalizing v strs with
  | nil =>
    cases hAll
    rwa [List.append_nil]
  | cons str more ih =>
    obtain ⟨m, hAdd, hRest⟩ := Option.bind_eq_some_iff.mp hAll
    rcases add_cases h str with ⟨-, hNone⟩ | ⟨m', hAdd', hHolds⟩
    · rw [hNone] at hAdd
      cases hAdd
    · rw [hAdd'] at hAdd
      cases hAdd
      have hEnd := ih hHolds hRest
      rwa [List.append_assoc, List.singleton_append] at hEnd

end Holds

-- ---------------------------------------------------------------------------
-- The refinement
-- ---------------------------------------------------------------------------

/--
**A string vector is a list of strings.** Whatever the capacities, and whatever calls of
`clear` and `add` with NUL-free strings follow the construction of the vector: if what was
added since the last `clear` has always fitted, every store is inside its array, the
pointers lead to these strings one by one and end in `nullptr`, the strings lie apart, and
calls of `add` that follow leave them where and as they are.
-/
theorem refines_list (maxItems maxTotalSize : Nat) (calls : List Call)
    (hNulFree : ∀ str, .add str ∈ calls → (0 : UInt8) ∉ str)
    (hFits : ∀ pre, pre <+: calls → Fits maxItems maxTotalSize (sinceClear pre)) :
    ∃ v : PlainStringVector maxItems maxTotalSize, run step new calls = some v ∧
      v.Represents (sinceClear calls) ∧
      ∀ (more : List Str) w, run step v (more.map .add) = some w → v.Keeps w (sinceClear calls) := by
  obtain ⟨v, hRun, hHolds⟩ := run_holds hFits
  have hStrings : ∀ str ∈ sinceClear calls, (0 : UInt8) ∉ str := fun str hMem =>
    hNulFree str (mem_sinceClear hMem)
  refine ⟨v, hRun, hHolds.represents hStrings, fun more w hMore => ?_⟩
  rw [← addAll_eq_run] at hMore
  exact hHolds.keeps (hHolds.addAll hMore)

/-- Two strings in a vector that has room for two of three characters in all. -/
theorem refines_list_full :
    ∃ v : PlainStringVector 2 3,
      run step new [.add (lit "xyz"), .clear, .add (lit "ab"), .add (lit "c")] = some v ∧
        v.Represents [lit "ab", lit "c"] ∧
        ∀ (more : List Str) w, run step v (more.map .add) = some w → v.Keeps w [lit "ab", lit "c"] := by
  refine refines_list 2 3 [.add (lit "xyz"), .clear, .add (lit "ab"), .add (lit "c")] ?_ ?_
  · have hAll : ∀ call ∈ [Call.add (lit "xyz"), .clear, .add (lit "ab"), .add (lit "c")],
        ∀ str, call = .add str → (0 : UInt8) ∉ str := by
      simp [lit]
    exact fun str hMem => hAll _ hMem str rfl
  · have hAll : ∀ pre ∈ [Call.add (lit "xyz"), .clear, .add (lit "ab"), .add (lit "c")].inits,
        Fits 2 3 (sinceClear pre) := by decide
    exact fun pre hPre => hAll pre ((List.mem_inits _ _).mpr hPre)

end PlainStringVector

end Libsbox
