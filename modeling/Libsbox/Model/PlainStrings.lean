import Libsbox.Lib.CMemory

/-!
# libsbox — plain vectors and plain strings

The containers that lie in memory shared between worker, container and slave:
`PlainVector` (plain_vector.h), `PlainString` (plain_string.h) and
`PlainStringVector` (plain_string_vector.h), a list of C strings packed into one
character buffer with an array of pointers that ends in `nullptr`.

Nothing in them checks a bound. A result of `none` is a store outside of
`data_`: in the C++ code it lands in whatever lies behind the array.

`PlainStringVector.Holds v strs` says that `v` is the packed form of `strs`.
`add_cases` is the one fact about `add` used later: on the packed form of
`strs` it gives the packed form of `strs ++ [str]` exactly when there is room
for one more pointer and for the bytes of `str` with their NUL.
-/

namespace Libsbox

open CMemory

-- ---------------------------------------------------------------------------
-- PlainVector
-- ---------------------------------------------------------------------------

/-- `PlainVector<T, MaxSize>`. -/
structure PlainVector (α : Type) (maxSize : Nat) where
  size : Nat
  data : Vector α maxSize

namespace PlainVector

variable {α : Type} {maxSize : Nat}

/-- A default-constructed vector over bytes that are all `zero`. -/
def new (zero : α) : PlainVector α maxSize := ⟨0, Vector.replicate maxSize zero⟩

def clear (v : PlainVector α maxSize) : PlainVector α maxSize := { v with size := 0 }

def pushBack (v : PlainVector α maxSize) (value : α) : Option (PlainVector α maxSize) := do
  let data ← store v.data v.size value
  return ⟨v.size + 1, data⟩

/-- On an empty vector `size_--` wraps around; no caller gets there. -/
def popBack (v : PlainVector α maxSize) : Option (PlainVector α maxSize) :=
  if v.size = 0 then none else some { v with size := v.size - 1 }

/-- The vector's elements are `xs`. -/
def Holds (v : PlainVector α maxSize) (xs : List α) : Prop :=
  v.size = xs.length ∧ ∃ rest, v.data.toList = xs ++ rest

theorem Holds.length_le {v : PlainVector α maxSize} {xs : List α} (h : v.Holds xs) :
    xs.length ≤ maxSize := by
  obtain ⟨-, rest, hData⟩ := h
  have := congrArg List.length hData
  simp at this
  omega

theorem holds_clear (v : PlainVector α maxSize) : v.clear.Holds [] :=
  ⟨rfl, v.data.toList, rfl⟩

/-- `push_back` keeps the elements and needs a free slot. -/
theorem pushBack_cases {v : PlainVector α maxSize} {xs : List α} (h : v.Holds xs) (x : α) :
    (maxSize ≤ xs.length ∧ v.pushBack x = none) ∨
      ∃ w, v.pushBack x = some w ∧ w.Holds (xs ++ [x]) := by
  obtain ⟨hSize, rest, hData⟩ := h
  rcases store_prefix_cases (x := x) hData with ⟨rfl, hStore⟩ | ⟨y, tl, d, -, hStore, hd⟩
  · left
    have := congrArg List.length hData
    simp at this
    exact ⟨by omega, by simp [pushBack, hSize, hStore]⟩
  · right
    refine ⟨⟨v.size + 1, d⟩, by simp [pushBack, hSize, hStore], ?_, tl, ?_⟩
    · simp [hSize]
    · simp [hd]

theorem popBack_holds {v : PlainVector α maxSize} {xs : List α} {x : α}
    (h : v.Holds (xs ++ [x])) : ∃ w, v.popBack = some w ∧ w.Holds xs := by
  obtain ⟨hSize, rest, hData⟩ := h
  refine ⟨{ v with size := v.size - 1 }, ?_, ?_, x :: rest, ?_⟩
  · simp [popBack, hSize]
  · simp [hSize]
  · simpa using hData

end PlainVector

-- ---------------------------------------------------------------------------
-- PlainString
-- ---------------------------------------------------------------------------

/-- `PlainString<MaxSize>`; one byte more than `MaxSize` for the terminator. -/
structure PlainString (maxSize : Nat) where
  size : Nat
  data : Vector UInt8 (maxSize + 1)

namespace PlainString

variable {maxSize : Nat}

def new : PlainString maxSize := ⟨0, Vector.replicate _ 0⟩

def clear (s : PlainString maxSize) : PlainString maxSize :=
  ⟨0, s.data.set 0 0⟩

def pushBack (s : PlainString maxSize) (c : UInt8) : Option (PlainString maxSize) := do
  let data ← store s.data s.size c
  let data ← store data (s.size + 1) 0
  return ⟨s.size + 1, data⟩

/-- The loop of `append`. -/
def appendLoop (s : PlainString maxSize) : Str → Option (PlainString maxSize)
  | [] => some s
  | c :: str => do
    let data ← store s.data s.size c
    appendLoop ⟨s.size + 1, data⟩ str

def append (s : PlainString maxSize) (str : Str) : Option (PlainString maxSize) := do
  let s ← s.appendLoop str
  let data ← store s.data s.size 0
  return { s with data }

/-- The loop of `set`, which writes `str` from index `i` on. -/
def setLoop (data : Vector UInt8 (maxSize + 1)) (i : Nat) : Str →
    Option (Vector UInt8 (maxSize + 1))
  | [] => some data
  | c :: str => do
    let data ← store data i c
    setLoop data (i + 1) str

def set (s : PlainString maxSize) (str : Str) : Option (PlainString maxSize) := do
  let data ← setLoop s.data 0 str
  let data ← store data str.length 0
  return ⟨str.length, data⟩

/-- `operator=(const char *)`. -/
def assign (s : PlainString maxSize) (str : Str) : Option (PlainString maxSize) :=
  s.set (cstr str)

/-- `c_str()`, as the string it points to. -/
def cStr (s : PlainString maxSize) : Str := cstr s.data.toList

def empty (s : PlainString maxSize) : Bool := s.size == 0

/-- The string's bytes are `str`, with a NUL behind them. -/
def Holds (s : PlainString maxSize) (str : Str) : Prop :=
  s.size = str.length ∧ ∃ rest, s.data.toList = str ++ 0 :: rest

theorem Holds.length_le {s : PlainString maxSize} {str : Str} (h : s.Holds str) :
    str.length ≤ maxSize := by
  obtain ⟨-, rest, hData⟩ := h
  have := congrArg List.length hData
  simp at this
  omega

theorem holds_clear (s : PlainString maxSize) : s.clear.Holds [] := by
  refine ⟨rfl, s.data.toList.tail, ?_⟩
  have hne : s.data.toList ≠ [] := by
    intro hnil
    have := congrArg List.length hnil
    simp at this
  obtain ⟨c, tl, hc⟩ := List.exists_cons_of_ne_nil hne
  simp [clear, Vector.toList_set, hc]

theorem appendLoop_cases (str : Str) : ∀ (s : PlainString maxSize) (pre rest : Str),
    s.size = pre.length → s.data.toList = pre ++ rest →
    (maxSize < pre.length + str.length ∧ s.appendLoop str = none) ∨
      ∃ t rest', s.appendLoop str = some t ∧ t.size = (pre ++ str).length ∧
        t.data.toList = (pre ++ str) ++ rest' := by
  induction str with
  | nil =>
    intro s pre rest hSize hData
    exact .inr ⟨s, rest, rfl, by simpa using hSize, by simpa using hData⟩
  | cons c str ih =>
    intro s pre rest hSize hData
    rcases store_prefix_cases (x := c) hData with ⟨rfl, hStore⟩ | ⟨y, tl, d, -, hStore, hd⟩
    · left
      have := congrArg List.length hData
      simp at this
      exact ⟨by simp; omega, by simp [appendLoop, hSize, hStore]⟩
    · have hLoop : s.appendLoop (c :: str) = appendLoop ⟨s.size + 1, d⟩ str := by
        simp [appendLoop, hSize, hStore]
      have hLen : pre.length + (c :: str).length = (pre ++ [c]).length + str.length := by
        simp
        omega
      have hApp : pre ++ c :: str = (pre ++ [c]) ++ str := by simp
      rw [hLoop, hLen, hApp]
      exact ih ⟨s.size + 1, d⟩ (pre ++ [c]) tl (by simp [hSize]) (by simpa using hd)

/-- `append` writes the string and a new terminator, and needs room for both. -/
theorem append_cases {s : PlainString maxSize} {pre : Str} (h : s.Holds pre) (str : Str) :
    (maxSize < pre.length + str.length ∧ s.append str = none) ∨
      ∃ t, s.append str = some t ∧ t.Holds (pre ++ str) := by
  obtain ⟨hSize, rest, hData⟩ := h
  rcases appendLoop_cases str s pre _ hSize hData with
    ⟨hLt, hLoop⟩ | ⟨t, rest', hLoop, htSize, htData⟩
  · exact .inl ⟨hLt, by simp [append, hLoop]⟩
  · have hAppend : s.append str =
        (store t.data (pre ++ str).length 0).bind fun data => some { t with data } := by
      rw [append, hLoop, ← htSize]
      rfl
    rcases store_prefix_cases (x := 0) htData with ⟨rfl, hStore⟩ | ⟨y, tl, d, -, hStore, hd⟩
    · left
      have := congrArg List.length htData
      simp at this
      exact ⟨by omega, by rw [hAppend, hStore]; rfl⟩
    · right
      exact ⟨{ t with data := d }, by rw [hAppend, hStore]; rfl, htSize, tl, hd⟩

/-- `push_back` writes the character and a new terminator. -/
theorem pushBack_cases {s : PlainString maxSize} {pre : Str} (h : s.Holds pre) (c : UInt8) :
    (maxSize ≤ pre.length ∧ s.pushBack c = none) ∨
      ∃ t, s.pushBack c = some t ∧ t.Holds (pre ++ [c]) := by
  obtain ⟨hSize, rest, hData⟩ := h
  obtain ⟨d, hStore, hd⟩ := store_extends (x := c) hData
  have hd' : d.toList = (pre ++ [c]) ++ rest := by simpa using hd
  have hPush : s.pushBack c =
      (store d (pre ++ [c]).length 0).bind fun data => some ⟨s.size + 1, data⟩ := by
    rw [pushBack, hSize, hStore, List.length_append]
    rfl
  rcases store_prefix_cases (x := 0) hd' with ⟨rfl, hStore'⟩ | ⟨y, tl, e, -, hStore', he⟩
  · left
    have := congrArg List.length hd'
    simp at this
    exact ⟨by omega, by rw [hPush, hStore']; rfl⟩
  · right
    exact ⟨⟨s.size + 1, e⟩, by rw [hPush, hStore']; rfl, by simp [hSize], tl, he⟩

theorem setLoop_writes (str : Str) : ∀ (data : Vector UInt8 (maxSize + 1)) (pre : Str),
    pre.length + str.length ≤ maxSize →
    (∃ rest, data.toList = pre ++ rest) →
    ∃ data', setLoop data pre.length str = some data' ∧
      ∃ rest, data'.toList = (pre ++ str) ++ rest := by
  induction str with
  | nil =>
    rintro data pre - ⟨rest, hData⟩
    exact ⟨data, rfl, rest, by simpa using hData⟩
  | cons c str ih =>
    rintro data pre hFits ⟨rest, hData⟩
    rcases store_prefix_cases (x := c) hData with ⟨rfl, -⟩ | ⟨y, tl, d, -, hStore, hd⟩
    · have := congrArg List.length hData
      simp at this hFits
      omega
    · obtain ⟨data', hLoop, hRest⟩ :=
        ih d (pre ++ [c]) (by simp at hFits ⊢; omega) ⟨tl, by simpa using hd⟩
      refine ⟨data', ?_, by simpa using hRest⟩
      rw [setLoop, hStore]
      simpa using hLoop

/-- A string that is not longer than the maximum can be assigned. -/
theorem set_holds (s : PlainString maxSize) {str : Str} (h : str.length ≤ maxSize) :
    ∃ t, s.set str = some t ∧ t.Holds str := by
  obtain ⟨d, hLoop, rest, hd⟩ :=
    setLoop_writes str s.data [] (by simpa using h) ⟨s.data.toList, rfl⟩
  rcases store_prefix_cases (x := 0) hd with ⟨rfl, -⟩ | ⟨y, tl, e, -, hStore, he⟩
  · have := congrArg List.length hd
    simp at this
    omega
  · simp only [List.length_nil] at hLoop
    simp only [List.nil_append] at hStore he
    exact ⟨⟨str.length, e⟩, by simp [set, hLoop, hStore], rfl, tl, he⟩

end PlainString

-- ---------------------------------------------------------------------------
-- PlainStringVector
-- ---------------------------------------------------------------------------

/-- `PlainStringVector<MaxItems, MaxTotalSize>`. A `char *` is `none` for
`nullptr` and otherwise an offset into `data_`. -/
structure PlainStringVector (maxItems maxTotalSize : Nat) where
  items : PlainVector (Option Nat) (maxItems + 1)
  data : PlainString (maxTotalSize + maxItems)

namespace PlainStringVector

variable {maxItems maxTotalSize : Nat}

def count (v : PlainStringVector maxItems maxTotalSize) : Nat := v.items.size - 1

/-- `get()`, as the array it points to. -/
def get (v : PlainStringVector maxItems maxTotalSize) : List (Option Nat) := v.items.data.toList

/-- The characters of `data_`. -/
def bytes (v : PlainStringVector maxItems maxTotalSize) : Str := v.data.data.toList

/-- The C string `operator[](pos)` points to. -/
def str? (v : PlainStringVector maxItems maxTotalSize) (pos : Nat) : Option Str :=
  match v.items.data.toList[pos]? with
  | some (some offset) => some (cstr (v.data.data.toList.drop offset))
  | _ => none

def add (v : PlainStringVector maxItems maxTotalSize) (str : Str) :
    Option (PlainStringVector maxItems maxTotalSize) := do
  let items ← v.items.popBack
  let items ← items.pushBack (some v.data.size)
  let items ← items.pushBack none
  let data ← v.data.append str
  let data ← data.pushBack 0
  return ⟨items, data⟩

/-- `add` on each string in turn. -/
def addAll (v : PlainStringVector maxItems maxTotalSize) :
    List Str → Option (PlainStringVector maxItems maxTotalSize)
  | [] => some v
  | str :: strs => do
    let v ← v.add str
    addAll v strs

def clear (v : PlainStringVector maxItems maxTotalSize) :
    Option (PlainStringVector maxItems maxTotalSize) := do
  let items ← v.items.clear.pushBack none
  return ⟨items, v.data.clear⟩

def maxSize (_ : PlainStringVector maxItems maxTotalSize) : Nat := maxTotalSize

def maxCount (_ : PlainStringVector maxItems maxTotalSize) : Nat := maxItems

/-- The default-constructed vector: the sentinel alone, over zeroed memory. -/
def new : PlainStringVector maxItems maxTotalSize :=
  ⟨⟨1, Vector.replicate _ none⟩, PlainString.new⟩

end PlainStringVector

/-- The strings one behind the other, each with its NUL. -/
def packed (strs : List Str) : Str := strs.flatMap fun str => str ++ [0]

/-- Where each of the strings begins when the first one begins at `start`. -/
def offsets (start : Nat) : List Str → List Nat
  | [] => []
  | str :: strs => start :: offsets (start + str.length + 1) strs

@[simp] theorem packed_nil : packed [] = [] := rfl

@[simp] theorem packed_cons (str : Str) (strs : List Str) :
    packed (str :: strs) = str ++ 0 :: packed strs := by
  simp [packed]

@[simp] theorem packed_append (strs strs' : List Str) :
    packed (strs ++ strs') = packed strs ++ packed strs' := by
  simp [packed]

theorem packed_length (strs : List Str) :
    (packed strs).length = (strs.map List.length).sum + strs.length := by
  induction strs with
  | nil => rfl
  | cons str strs ih =>
    simp only [packed_cons, List.length_append, List.length_cons, List.map_cons,
      List.sum_cons, ih]
    omega

@[simp] theorem offsets_length (start : Nat) (strs : List Str) :
    (offsets start strs).length = strs.length := by
  induction strs generalizing start with
  | nil => rfl
  | cons str strs ih => simp [offsets, ih]

theorem offsets_concat (start : Nat) (strs : List Str) (str : Str) :
    offsets start (strs ++ [str]) = offsets start strs ++ [start + (packed strs).length] := by
  induction strs generalizing start with
  | nil => simp [offsets]
  | cons s strs ih =>
    simp only [List.cons_append, offsets, ih, packed_cons, List.length_append, List.length_cons]
    congr 3
    omega

/-- Where the `i`-th of the strings begins. -/
def begins (strs : List Str) (i : Nat) : Nat := (packed (strs.take i)).length

theorem offsets_getElem? (strs : List Str) (start i : Nat) (hi : i < strs.length) :
    (offsets start strs)[i]? = some (start + begins strs i) := by
  induction strs generalizing start i with
  | nil => simp at hi
  | cons str strs ih =>
    cases i with
    | zero => rfl
    | succ i =>
      have hRest := ih (start + str.length + 1) i (by simpa using hi)
      rw [offsets, List.getElem?_cons_succ, hRest, begins, begins, List.take_succ_cons, packed_cons,
        List.length_append, List.length_cons]
      congr 1
      omega

theorem packed_split (strs : List Str) (i : Nat) (hi : i < strs.length) :
    packed strs = packed (strs.take i) ++ (strs[i] ++ 0 :: packed (strs.drop (i + 1))) := by
  rw [← packed_cons, ← List.drop_eq_getElem_cons hi, ← packed_append, List.take_append_drop]

namespace PlainStringVector

variable {maxItems maxTotalSize : Nat}

/-- `v` is the packed form of `strs`: a pointer to each string and the sentinel
in `items_`, the strings with their terminators in `data_`. -/
structure Holds (v : PlainStringVector maxItems maxTotalSize) (strs : List Str) : Prop where
  items : v.items.Holds ((offsets 0 strs).map some ++ [none])
  data : v.data.Holds (packed strs)

theorem Holds.count_eq {v : PlainStringVector maxItems maxTotalSize} {strs : List Str}
    (h : v.Holds strs) : v.count = strs.length := by
  simp [count, h.items.1]

theorem Holds.length_le {v : PlainStringVector maxItems maxTotalSize} {strs : List Str}
    (h : v.Holds strs) :
    strs.length ≤ maxItems ∧ (packed strs).length ≤ maxTotalSize + maxItems := by
  have hItems := h.items.length_le
  simp at hItems
  exact ⟨hItems, h.data.length_le⟩

theorem Holds.get_getElem? {v : PlainStringVector maxItems maxTotalSize} {strs : List Str}
    (h : v.Holds strs) (i : Nat) (hi : i < strs.length) :
    v.get[i]? = some (some (begins strs i)) := by
  obtain ⟨-, rest, hItems⟩ := h.items
  rw [get, hItems, List.append_assoc, List.getElem?_append_left (by simpa using hi),
    List.getElem?_map, offsets_getElem? strs 0 i hi, Nat.zero_add]
  rfl

theorem Holds.bytes_eq {v : PlainStringVector maxItems maxTotalSize} {strs : List Str}
    (h : v.Holds strs) : ∃ rest, v.bytes = packed strs ++ rest := by
  obtain ⟨-, rest, hData⟩ := h.data
  exact ⟨0 :: rest, hData⟩

theorem Holds.region {v : PlainStringVector maxItems maxTotalSize} {strs : List Str}
    (h : v.Holds strs) (i : Nat) (hi : i < strs.length) :
    ∃ rest, v.bytes.drop (begins strs i) = strs[i] ++ 0 :: rest := by
  obtain ⟨rest, hBytes⟩ := h.bytes_eq
  refine ⟨packed (strs.drop (i + 1)) ++ rest, ?_⟩
  rw [hBytes, packed_split strs i hi, List.append_assoc, begins, List.drop_left,
    List.append_assoc, List.cons_append]

/-- The pointers lead to the strings. -/
theorem Holds.cstr_offsets {v : PlainStringVector maxItems maxTotalSize} {strs : List Str}
    (h : v.Holds strs) :
    (offsets 0 strs).map (fun p => cstr (v.bytes.drop p)) = strs.map cstr := by
  refine List.ext_getElem? fun i => ?_
  rw [List.getElem?_map, List.getElem?_map]
  rcases Nat.lt_or_ge i strs.length with hi | hi
  · obtain ⟨rest, hRegion⟩ := h.region i hi
    rw [offsets_getElem? strs 0 i hi, Nat.zero_add, List.getElem?_eq_getElem hi, Option.map_some,
      Option.map_some, hRegion, cstr_append_nul]
  · rw [List.getElem?_eq_none (by simpa using hi), List.getElem?_eq_none hi]
    rfl

theorem Holds.str?_eq {v : PlainStringVector maxItems maxTotalSize} {strs : List Str}
    (h : v.Holds strs) (i : Nat) (hi : i < strs.length) : v.str? i = some (cstr strs[i]) := by
  have hGet : v.items.data.toList[i]? = some (some (begins strs i)) := h.get_getElem? i hi
  obtain ⟨rest, hRegion⟩ := h.region i hi
  rw [str?, hGet]
  show some (cstr (v.bytes.drop (begins strs i))) = _
  rw [hRegion, cstr_append_nul]

theorem clear_holds (v : PlainStringVector maxItems maxTotalSize) :
    ∃ w, v.clear = some w ∧ w.Holds [] := by
  rcases PlainVector.pushBack_cases (PlainVector.holds_clear v.items) none with
    ⟨hFull, -⟩ | ⟨items, hPush, hItems⟩
  · simp at hFull
  · exact ⟨⟨items, v.data.clear⟩, by rw [clear, hPush]; rfl,
      ⟨hItems, PlainString.holds_clear v.data⟩⟩

/-- **What `add` does.** It fails when there is no slot for one more pointer
besides the sentinel, or no room for the bytes of `str` and their NUL. -/
theorem add_cases {v : PlainStringVector maxItems maxTotalSize} {strs : List Str}
    (h : v.Holds strs) (str : Str) :
    ((maxItems ≤ strs.length ∨
        maxTotalSize + maxItems < (packed strs).length + str.length + 1) ∧ v.add str = none) ∨
      ∃ w, v.add str = some w ∧ w.Holds (strs ++ [str]) := by
  obtain ⟨items₁, hPop, hItems₁⟩ := PlainVector.popBack_holds h.items
  have hOffsets : (offsets 0 strs).map some ++ [some v.data.size] =
      (offsets 0 (strs ++ [str])).map some := by
    simp [offsets_concat, h.data.1]
  rcases PlainVector.pushBack_cases hItems₁ (some v.data.size) with
    ⟨hFull, -⟩ | ⟨items₂, hPush₂, hItems₂⟩
  · -- the slot that `pop_back` freed is there
    have := h.items.length_le
    simp at hFull this
    omega
  rw [hOffsets] at hItems₂
  rcases PlainVector.pushBack_cases hItems₂ none with ⟨hFull, hPush₃⟩ | ⟨items₃, hPush₃, hItems₃⟩
  · left
    simp at hFull
    exact ⟨.inl hFull, by simp [add, hPop, hPush₂, hPush₃]⟩
  rcases PlainString.append_cases h.data str with ⟨hFull, hApp⟩ | ⟨data₁, hApp, hData₁⟩
  · left
    exact ⟨.inr (by omega), by simp [add, hPop, hApp]⟩
  rcases PlainString.pushBack_cases hData₁ 0 with ⟨hFull, hPush₄⟩ | ⟨data₂, hPush₄, hData₂⟩
  · left
    simp at hFull
    exact ⟨.inr (by omega), by simp [add, hPop, hApp, hPush₄]⟩
  · right
    refine ⟨⟨items₃, data₂⟩, by simp [add, hPop, hPush₂, hPush₃, hApp, hPush₄], hItems₃, ?_⟩
    simpa using hData₂

/-- A successful `add` had room. -/
theorem add_eq_some_iff {v : PlainStringVector maxItems maxTotalSize} {strs : List Str}
    (h : v.Holds strs) (str : Str) :
    (∃ w, v.add str = some w) ↔
      strs.length + 1 ≤ maxItems ∧
        (packed strs).length + str.length + 1 ≤ maxTotalSize + maxItems := by
  rcases add_cases h str with ⟨hFull, hNone⟩ | ⟨w, hSome, hHolds⟩
  · simp only [hNone, reduceCtorEq, exists_false, false_iff]
    omega
  · have hLe := hHolds.length_le
    simp at hLe
    exact ⟨fun _ => ⟨hLe.1, by omega⟩, fun _ => ⟨w, hSome⟩⟩

/-- Strings that fit in number and in bytes can all be added. -/
theorem addAll_holds {v : PlainStringVector maxItems maxTotalSize} {pre : List Str}
    (h : v.Holds pre) (strs : List Str)
    (hCount : pre.length + strs.length ≤ maxItems)
    (hBytes : (packed (pre ++ strs)).length ≤ maxTotalSize + maxItems) :
    ∃ w, v.addAll strs = some w ∧ w.Holds (pre ++ strs) := by
  induction strs generalizing v pre with
  | nil => exact ⟨v, rfl, by simpa using h⟩
  | cons str strs ih =>
    have hSplit : pre ++ str :: strs = (pre ++ [str]) ++ strs := by simp
    rcases add_cases h str with ⟨hFull, -⟩ | ⟨w, hAdd, hHolds⟩
    · simp at hCount hBytes
      omega
    · rw [hSplit] at hBytes ⊢
      obtain ⟨u, hAll, hu⟩ := ih hHolds (by simp at hCount ⊢; omega) hBytes
      exact ⟨u, by simp [addAll, hAdd, hAll], hu⟩

end PlainStringVector

end Libsbox
