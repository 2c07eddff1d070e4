import Mail4Agent.Foundation.Data

/-!
# Canonical JSON

Documents that are hashed and signed are canonical: their integers fit a double
exactly, and they hold no other numbers. `Json.isCanonical` is the test a reader of
such documents applies.
-/

namespace Json

/-- `Value::as_array`. -/
def asArr? : Json → Option (List Json)
  | .arr items => some items
  | _ => none

/-- The largest integer a canonical document may hold. -/
def maxSafeInt : Int := 2 ^ 53 - 1

mutual

def isCanonical : Json → Bool
  | .int n => -maxSafeInt ≤ n ∧ n ≤ maxSafeInt
  | .float _ => false
  | .arr items => itemsCanonical items
  | .obj fields => fieldsCanonical fields
  | _ => true

def itemsCanonical : List Json → Bool
  | [] => true
  | item :: rest => isCanonical item && itemsCanonical rest

def fieldsCanonical : List (String × Json) → Bool
  | [] => true
  | (_, value) :: rest => isCanonical value && fieldsCanonical rest

end

/-- The object of a canonical document. -/
def canonicalObject? : Json → Option Json
  | .obj fields => if fieldsCanonical fields then some (.obj fields) else none
  | _ => none

theorem itemsCanonical_iff {items : List Json} :
    itemsCanonical items = true ↔ ∀ item ∈ items, isCanonical item = true := by
  induction items with
  | nil => simp [itemsCanonical]
  | cons item rest ih => simp [itemsCanonical, ih]

theorem fieldsCanonical_iff {fields : List (String × Json)} :
    fieldsCanonical fields = true ↔ ∀ field ∈ fields, isCanonical field.2 = true := by
  induction fields with
  | nil => simp [fieldsCanonical]
  | cons field rest ih => simp [fieldsCanonical, ih]

theorem canonicalObject?_eq_some {v obj : Json} (h : canonicalObject? v = some obj) :
    obj = v ∧ isCanonical obj = true := by
  cases v <;> simp only [canonicalObject?, reduceCtorEq] at h
  split_ifs at h with hfields
  cases h
  exact ⟨rfl, hfields⟩

end Json
