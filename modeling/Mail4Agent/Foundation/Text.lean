import Mathlib

/-!
# Fixed-width numerals, prefixes and separators

Identifiers and storage keys are assembled from fixed prefixes, separators and
zero-padded hexadecimal numbers, and are later taken apart again. This file
collects the two directions over character lists: the printer `hexFixed` and the
reader `fromStrRadix`, and the cutting operations `stripLead` and `splitOnce`.

The printer always emits exactly the requested number of digits, so for values
below `16 ^ width` it is injective and its lexicographic order is the numeric
order. These two facts are what lets a program sort printed identifiers instead
of keeping the numbers they were printed from.
-/

namespace Text

/-- The lower-case digit printed for a value below sixteen. -/
def hexDigit (d : Nat) : Char :=
  if d < 10 then Char.ofNat (48 + d) else Char.ofNat (87 + d)

/-- The value of a hexadecimal digit in either case. -/
def hexValue (c : Char) : Option Nat :=
  if '0' ≤ c ∧ c ≤ '9' then some (c.toNat - 48)
  else if 'a' ≤ c ∧ c ≤ 'f' then some (c.toNat - 87)
  else if 'A' ≤ c ∧ c ≤ 'F' then some (c.toNat - 55)
  else none

/-- `width` digits of `n`, most significant first, padded with zeros. -/
def hexFixed : Nat → Nat → List Char
  | 0, _ => []
  | width + 1, n => hexDigit (n / 16 ^ width % 16) :: hexFixed width n

/-- The digits of a number read most significant first; any other character, or a
value above `bound`, is an error. -/
def readHex (bound : Nat) : Nat → List Char → Option Nat
  | acc, [] => some acc
  | acc, c :: rest =>
    match hexValue c with
    | none => none
    | some d => if acc * 16 + d ≤ bound then readHex bound (acc * 16 + d) rest else none

/-- An unsigned base-sixteen number: one optional leading plus sign, at least one
digit, and a value that fits. -/
def fromStrRadix (bound : Nat) : List Char → Option Nat
  | [] => none
  | c :: rest =>
    if c = '+' then if rest = [] then none else readHex bound 0 rest
    else readHex bound 0 (c :: rest)

/-- What follows `lead` in `text`, if `text` starts with it. -/
def stripLead : List Char → List Char → Option (List Char)
  | [], text => some text
  | _ :: _, [] => none
  | c :: lead, d :: text => if c = d then stripLead lead text else none

/-- The parts before and after the first occurrence of `sep`. -/
def splitOnce (sep : Char) : List Char → Option (List Char × List Char)
  | [] => none
  | c :: rest =>
    if c = sep then some ([], rest)
    else (splitOnce sep rest).map fun parts => (c :: parts.1, parts.2)

@[simp] theorem stripLead_append (lead text : List Char) :
    stripLead lead (lead ++ text) = some text := by
  induction lead with
  | nil => rfl
  | cons c lead ih => simp [stripLead, ih]

theorem splitOnce_of_notMem {sep : Char} {text : List Char} (h : sep ∉ text) :
    splitOnce sep text = none := by
  induction text with
  | nil => rfl
  | cons c text ih =>
    obtain ⟨hc, ht⟩ := not_or.1 (mt List.mem_cons.2 h)
    simp [splitOnce, Ne.symm hc, ih ht]

theorem splitOnce_append {sep : Char} {head : List Char} (h : sep ∉ head) (rest : List Char) :
    splitOnce sep (head ++ sep :: rest) = some (head, rest) := by
  induction head with
  | nil => simp [splitOnce]
  | cons c head ih =>
    obtain ⟨hc, ht⟩ := not_or.1 (mt List.mem_cons.2 h)
    simp [splitOnce, Ne.symm hc, ih ht]

/-! ## Texts cut at every separator -/

theorem intercalate_cons (sep : Char) (head : List Char) (tails : List (List Char)) :
    [sep].intercalate (head :: tails) = head ++ (tails.map (sep :: ·)).flatten := by
  induction tails generalizing head with
  | nil => simp [List.intercalate]
  | cons text tails ih => rw [List.intercalate_cons_cons, ih]; simp

/-- The pieces of a text cut at every separator do not contain it. -/
theorem notMem_of_mem_splitOn {sep : Char} {text piece : List Char}
    (h : piece ∈ text.splitOn sep) : sep ∉ piece := by
  induction text generalizing piece with
  | nil =>
    obtain rfl : piece = [] := by simpa [List.splitOn] using h
    simp
  | cons c text ih =>
    rw [List.splitOn, List.splitOnP_cons_eq_if_modifyHead] at h
    split at h
    · rcases List.mem_cons.1 h with rfl | h
      · simp
      · exact ih h
    · next hc =>
      cases hpieces : List.splitOnP (· == sep) text with
      | nil => exact absurd hpieces (List.splitOnP_ne_nil _ _)
      | cons first rest =>
        rw [hpieces, List.modifyHead_cons] at h
        have hmem : ∀ piece ∈ first :: rest, sep ∉ piece := fun piece hp =>
          ih (by rw [List.splitOn, hpieces]; exact hp)
        rcases List.mem_cons.1 h with rfl | h
        · have : sep ≠ c := fun heq => hc (by simp [heq])
          simp [this, hmem first (List.mem_cons_self ..)]
        · exact hmem piece (List.mem_cons_of_mem _ h)

/-- `LIKE`: a percent sign stands for any text, an underscore for any character, and
ASCII letters match in either case. -/
def like : List Char → List Char → Bool
  | [], text => text.isEmpty
  | '%' :: pattern, text => text.tails.any (like pattern)
  | '_' :: pattern, _ :: text => like pattern text
  | c :: pattern, d :: text => c.toLower = d.toLower && like pattern text
  | _ :: _, [] => false

/-- The UTF-8 bytes of a string decode to the string. -/
theorem fromUTF8_toUTF8 (s : String) : String.fromUTF8? s.toUTF8 = some s := by
  rw [String.fromUTF8?, String.toUTF8_eq_toByteArray, dif_pos s.isValidUTF8]
  rfl

end Text
