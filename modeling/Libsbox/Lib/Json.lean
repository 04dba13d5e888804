import Libsbox.Lib.CMemory
import Mathlib.Tactic.NormNum

/-!
# JSON documents and JSON Schema

JSON values the way a parser with fixed-width integers stores them: a number
without fraction and exponent that fits into 64 bits, signed or unsigned, is an
integer, every other number is a double. An object keeps its members in order
and may repeat a name; a lookup finds the first one.

A schema is what it accepts. The keywords `type`, `required`, `properties`,
`items` and `oneOf` are constraints that `allOf` puts together; a `$ref` is the
schema it points to.

`properties_member`, `required_member` and `items_mem` carry what a schema
says about a document over to what a lookup in it finds.
-/

namespace JsonDoc

open CMemory

/-- A number that is stored as `int`, `unsigned`, `int64_t` or `uint64_t`. -/
structure StoredInt where
  val : Int
  lower : -(2 ^ 63) ≤ val
  upper : val < 2 ^ 64

def StoredInt.ofInt64 (x : Int64) : StoredInt where
  val := x.toInt
  lower := Int64.le_toInt x
  upper := lt_trans (Int64.toInt_lt x) (by norm_num)

def StoredInt.ofInt32 (x : Int32) : StoredInt where
  val := x.toInt
  lower := le_trans (by norm_num) (Int32.le_toInt x)
  upper := lt_trans (Int32.toInt_lt x) (by norm_num)

inductive Json where
  | null
  | bool (b : Bool)
  | int (n : StoredInt)
  | double (bits : UInt64)
  | string (s : Str)
  | array (elements : List Json)
  | object (members : List (Str × Json))

namespace Json

/-- The first member with that name. -/
def member? (v : Json) (name : String) : Option Json :=
  match v with
  | .object members => members.lookup (lit name)
  | _ => none

def bool? : Json → Option Bool
  | .bool b => some b
  | _ => none

/-- The integers that fit into `int64_t`. -/
def int64? : Json → Option Int64
  | .int n => if n.val < 2 ^ 63 then some (Int64.ofInt n.val) else none
  | _ => none

/-- The integers that fit into `int32_t`. -/
def int32? : Json → Option Int32
  | .int n => if -(2 ^ 31) ≤ n.val ∧ n.val < 2 ^ 31 then some (Int32.ofInt n.val) else none
  | _ => none

/-- The string as it is read through a `const char *`. -/
def cString? : Json → Option Str
  | .string s => some (cstr s)
  | _ => none

def array? : Json → Option (List Json)
  | .array elements => some elements
  | _ => none

def isObject : Json → Bool
  | .object _ => true
  | _ => false

end Json

theorem member?_mem {members : List (Str × Json)} {name : String} {v : Json}
    (h : (Json.object members).member? name = some v) : (lit name, v) ∈ members := by
  obtain ⟨before, behind, rfl, -⟩ := List.lookup_eq_some_iff.mp h
  simp

-- ---------------------------------------------------------------------------
-- Schemas
-- ---------------------------------------------------------------------------

/-- What a schema accepts. -/
abbrev Schema := Json → Bool

inductive TypeName where
  | null | boolean | integer | string | array | object
  deriving DecidableEq

namespace Schema

/-- `"type": name`. -/
def type : TypeName → Schema
  | .null, .null => true
  | .boolean, .bool _ => true
  | .integer, .int _ => true
  | .string, .string _ => true
  | .array, .array _ => true
  | .object, .object _ => true
  | _, _ => false

/-- `"required": names`. -/
def required (names : List String) : Schema
  | .object members => names.all fun name => (members.lookup (lit name)).isSome
  | _ => true

/-- `"properties": {name: schema, ...}`; every member with the name is checked. -/
def properties (schemas : List (String × Schema)) : Schema
  | .object members =>
    members.all fun m => schemas.all fun p => !(m.1 == lit p.1) || p.2 m.2
  | _ => true

/-- `"items": schema`. -/
def items (schema : Schema) : Schema
  | .array elements => elements.all schema
  | _ => true

/-- `"oneOf": [schema, ...]`. -/
def oneOf (schemas : List Schema) : Schema := fun v =>
  (schemas.filter fun schema => schema v).length == 1

/-- All keywords of one schema object. -/
def allOf (schemas : List Schema) : Schema := fun v => schemas.all fun schema => schema v

end Schema

theorem allOf_mem {schemas : List Schema} {v : Json} (h : Schema.allOf schemas v = true)
    {schema : Schema} (hMem : schema ∈ schemas) : schema v = true :=
  List.all_eq_true.mp h schema hMem

theorem properties_member {schemas : List (String × Schema)} {v : Json}
    (h : Schema.properties schemas v = true) {name : String} {schema : Schema}
    (hMem : (name, schema) ∈ schemas) {m : Json} (hFind : v.member? name = some m) :
    schema m = true := by
  cases v with
  | object members =>
    have hAll := List.all_eq_true.mp h (lit name, m) (member?_mem hFind)
    have hOne := List.all_eq_true.mp hAll (name, schema) hMem
    simpa using hOne
  | _ => simp [Json.member?] at hFind

theorem lookup_of_mem {members : List (Str × Json)} {name : Str} {v : Json}
    (hDistinct : (members.map Prod.fst).Nodup) (hMem : (name, v) ∈ members) :
    members.lookup name = some v := by
  induction members with
  | nil => cases hMem
  | cons m members ih =>
    rw [List.map_cons, List.nodup_cons] at hDistinct
    rcases List.mem_cons.mp hMem with rfl | hMem
    · exact List.lookup_cons_self
    · have hOther : (name == m.1) = false := by
        rw [beq_eq_false_iff_ne]
        rintro rfl
        exact hDistinct.1 (List.mem_map.mpr ⟨_, hMem, rfl⟩)
      rw [List.lookup_cons, hOther]
      exact ih hDistinct.2 hMem

/-- Where no name occurs twice, a lookup finds every member there is. -/
theorem properties_of_member {schemas : List (String × Schema)} {members : List (Str × Json)}
    (hDistinct : (members.map Prod.fst).Nodup)
    (h : ∀ p ∈ schemas, ∀ v, (Json.object members).member? p.1 = some v → p.2 v = true) :
    Schema.properties schemas (.object members) = true := by
  refine List.all_eq_true.mpr fun m hMem => List.all_eq_true.mpr fun p hProperty => ?_
  by_cases hName : m.1 = lit p.1
  · have hFind : (Json.object members).member? p.1 = some m.2 :=
      lookup_of_mem hDistinct (hName ▸ hMem)
    simp [h p hProperty m.2 hFind]
  · simp [hName]

theorem required_member {names : List String} {v : Json} (h : Schema.required names v = true)
    (hObject : Schema.type .object v = true) {name : String} (hMem : name ∈ names) :
    ∃ m, v.member? name = some m := by
  cases v with
  | object members =>
    have hSome := List.all_eq_true.mp h name hMem
    exact Option.isSome_iff_exists.mp hSome
  | _ => simp [Schema.type] at hObject

theorem items_mem {schema : Schema} {elements : List Json}
    (h : Schema.items schema (.array elements) = true) {v : Json} (hMem : v ∈ elements) :
    schema v = true :=
  List.all_eq_true.mp h v hMem

section Types

variable {v : Json}

theorem type_object (h : Schema.type .object v = true) : ∃ members, v = .object members := by
  cases v <;> simp_all [Schema.type]

theorem type_array (h : Schema.type .array v = true) : ∃ elements, v = .array elements := by
  cases v <;> simp_all [Schema.type]

theorem type_string (h : Schema.type .string v = true) : ∃ s, v = .string s := by
  cases v <;> simp_all [Schema.type]

end Types

theorem int64?_isSome_iff (n : StoredInt) :
    (∃ x, (Json.int n).int64? = some x) ↔ n.val < 2 ^ 63 := by
  simp only [Json.int64?]
  split <;> simp_all

theorem int32?_isSome_iff (n : StoredInt) :
    (∃ x, (Json.int n).int32? = some x) ↔ -(2 ^ 31) ≤ n.val ∧ n.val < 2 ^ 31 := by
  simp only [Json.int32?]
  split <;> simp_all

end JsonDoc
