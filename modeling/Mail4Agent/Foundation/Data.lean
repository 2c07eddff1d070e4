import Mathlib

/-!
# Ordered maps, bytes and JSON values

The programs keep their tables in ordered maps and exchange JSON documents.
`BTreeMap` is the extensional tree map of the standard library at its default
comparison, so two maps with the same lookups are equal; its lookup lemmas come
from there. `Json` is the value type of a parsed document, with the accessors the
programs use on it. Numbers outside the 64-bit integers are kept as text, since
no modelled function computes with them.
-/

/-- An ordered map: entries are listed in ascending key order. -/
abbrev BTreeMap (α β : Type) [Ord α] := Std.ExtTreeMap α β compare

section BTreeMap

variable {α β : Type} [Ord α] [Std.TransOrd α] [Std.LawfulEqOrd α] [DecidableEq α]

theorem getElem?_insert_ite (map : BTreeMap α β) (key a : α) (value : β) :
    (map.insert key value)[a]? = if a = key then some value else map[a]? := by
  rw [Std.ExtTreeMap.getElem?_insert]
  exact if_congr (Std.compare_eq_iff_eq.trans eq_comm) rfl rfl

theorem getElem?_erase_ite (map : BTreeMap α β) (key a : α) :
    (map.erase key)[a]? = if a = key then none else map[a]? := by
  rw [Std.ExtTreeMap.getElem?_erase]
  exact if_congr (Std.compare_eq_iff_eq.trans eq_comm) rfl rfl

omit [Std.LawfulEqOrd α] [DecidableEq α] in
theorem mem_of_getElem? {map : BTreeMap α β} {key : α} {value : β} (h : map[key]? = some value) :
    key ∈ map := by
  rw [Std.ExtTreeMap.mem_iff_isSome_getElem?, h, Option.isSome_some]

theorem ofList_toList (map : BTreeMap α β) : Std.ExtTreeMap.ofList map.toList compare = map := by
  have hdistinct : map.toList.Pairwise fun a b => ¬ compare a.1 b.1 = .eq :=
    map.distinct_keys_toList
  refine Std.ExtTreeMap.ext_getElem? fun key => ?_
  cases hvalue : map[key]? with
  | some value =>
    exact Std.ExtTreeMap.getElem?_ofList_of_mem Std.ReflCmp.compare_self hdistinct
      (Std.ExtTreeMap.mem_toList_iff_getElem?_eq_some.2 hvalue)
  | none =>
    refine Std.ExtTreeMap.getElem?_ofList_of_contains_eq_false ?_
    rw [← Bool.not_eq_true, List.contains_iff_mem, Std.ExtTreeMap.map_fst_toList_eq_keys,
      Std.ExtTreeMap.mem_keys, Std.ExtTreeMap.mem_iff_isSome_getElem?, hvalue]
    simp

end BTreeMap

/-- An ordered set. -/
abbrev BTreeSet (α : Type) [Ord α] := Std.ExtTreeSet α compare

/-- A byte string. -/
abbrev Bytes := List UInt8

/-- A parsed JSON document. -/
inductive Json where
  | null
  | bool (b : Bool)
  | int (n : Int)
  | float (text : String)
  | str (s : String)
  | arr (items : List Json)
  | obj (fields : List (String × Json))
deriving BEq, Repr

namespace Json

/-- `Value::get` with a string index. -/
def get? (key : String) : Json → Option Json
  | .obj fields => fields.lookup key
  | _ => none

/-- `Value::as_str`. -/
def asStr? : Json → Option String
  | .str s => some s
  | _ => none

/-- `Value::as_u64`. -/
def asU64? : Json → Option Nat
  | .int n => if 0 ≤ n ∧ n < 2 ^ 64 then some n.toNat else none
  | _ => none

/-- `Value::as_i64`. -/
def asI64? : Json → Option Int
  | .int n => if -2 ^ 63 ≤ n ∧ n < 2 ^ 63 then some n else none
  | _ => none

/-- `Value::as_bool`. -/
def asBool? : Json → Option Bool
  | .bool b => some b
  | _ => none

/-- `Value::as_object`. -/
def asObject? : Json → Option (List (String × Json))
  | .obj fields => some fields
  | _ => none

/-- `value[key] = field` on an object. -/
def setField (key : String) (field : Json) : Json → Json
  | .obj fields => .obj ((key, field) :: fields.filter fun entry => entry.1 ≠ key)
  | .null => .obj [(key, field)]
  | other => other

mutual

/-- The value as its text keeps it: the first of several members of one name, and no more of a
number with a fraction than that it has one. -/
def canonical : Json → Json
  | .float _ => .float ""
  | .arr items => .arr (canonicalItems items)
  | .obj fields => .obj (canonicalFields fields)
  | v => v

def canonicalItems : List Json → List Json
  | [] => []
  | v :: rest => canonical v :: canonicalItems rest

def canonicalFields : List (String × Json) → List (String × Json)
  | [] => []
  | (key, v) :: rest =>
    (key, canonical v) :: (canonicalFields rest).filter fun entry => entry.1 ≠ key

end

theorem lookup_canonicalFields (key : String) (fields : List (String × Json)) :
    (canonicalFields fields).lookup key = (fields.lookup key).map canonical := by
  have hother {skipped : String} (hne : key ≠ skipped) (fields : List (String × Json)) :
      (fields.filter fun entry => entry.1 ≠ skipped).lookup key = fields.lookup key := by
    induction fields with
    | nil => rfl
    | cons entry rest ih =>
      by_cases hentry : entry.1 = skipped
      · have hkey : (key == skipped) = false := by simpa using hne
        simp [hentry, List.lookup, ← ih, hkey]
      · simp [hentry, List.lookup, ← ih]
  induction fields with
  | nil => rfl
  | cons entry rest ih =>
    obtain ⟨name, v⟩ := entry
    by_cases hname : key = name
    · simp [canonicalFields, List.lookup, hname]
    · simp only [canonicalFields, List.lookup, beq_eq_false_iff_ne.2 hname]
      rw [hother hname, ih]

@[simp] theorem get?_canonical (key : String) (v : Json) :
    v.canonical.get? key = (v.get? key).map canonical := by
  cases v with
  | obj fields => exact lookup_canonicalFields key fields
  | _ => rfl

@[simp] theorem asStr?_canonical (v : Json) : v.canonical.asStr? = v.asStr? := by
  cases v <;> rfl

@[simp] theorem asI64?_canonical (v : Json) : v.canonical.asI64? = v.asI64? := by
  cases v <;> rfl

end Json

namespace BTreeMap

variable {α β : Type} [Ord α] [Std.TransOrd α] [Std.LawfulEqOrd α]

/-- Keys of the listing are distinct. -/
theorem toList_pairwise_ne (m : BTreeMap α β) : m.toList.Pairwise fun a b => a.1 ≠ b.1 := by
  refine (Std.ExtTreeMap.distinct_keys_toList (t := m)).imp ?_
  intro a b h heq
  exact h (by rw [heq]; exact Std.ReflCmp.compare_self)

end BTreeMap
