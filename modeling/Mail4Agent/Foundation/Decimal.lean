import Mathlib

/-!
# Decimal numerals

Printing and reading of bounded integers in decimal, over character lists. The
readers follow the usual rules of a strict integer parser: an optional sign, at
least one digit, nothing but digits, and a value inside the bounds of the type.
Printing a value inside the bounds and reading it back gives the value.
-/

namespace Decimal

/-- Digits, most significant first, added to what was read so far. -/
def readDigits : Nat → List Char → Option Nat
  | acc, [] => some acc
  | acc, c :: rest =>
    if c.isDigit then readDigits (10 * acc + (c.toNat - '0'.toNat)) rest else none

/-- A non-empty run of digits. -/
def readNumber (text : List Char) : Option Nat :=
  if text.isEmpty then none else readDigits 0 text

/-- An unsigned integer below `bound`, possibly with a plus sign. -/
def parseUnsigned (bound : Nat) (text : List Char) : Option Nat :=
  let digits := if text.head? = some '+' then text.tail else text
  (readNumber digits).filter (· < bound)

/-- A signed integer in `[-bound, bound)`. -/
def parseSigned (bound : Nat) (text : List Char) : Option Int :=
  if text.head? = some '-' then
    ((readNumber text.tail).filter (· ≤ bound)).map fun n : Nat => -(n : Int)
  else (parseUnsigned bound text).map Int.ofNat

def printNat (n : Nat) : List Char := Nat.toDigits 10 n

def printInt (n : Int) : List Char :=
  if n < 0 then '-' :: printNat n.natAbs else printNat n.natAbs

theorem readDigits_eq_ofDigitChars {text : List Char} (h : ∀ c ∈ text, c.isDigit = true)
    (acc : Nat) : readDigits acc text = some (Nat.ofDigitChars 10 text acc) := by
  induction text generalizing acc with
  | nil => rfl
  | cons c rest ih =>
    have hc := h c List.mem_cons_self
    simp only [readDigits, hc, if_true, ih fun d hd => h d (List.mem_cons_of_mem c hd),
      Nat.ofDigitChars, List.foldl_cons]

theorem isDigit_of_mem_printNat {n : Nat} {c : Char} (h : c ∈ printNat n) : c.isDigit = true :=
  Nat.isDigit_of_mem_toDigits (by decide) (by decide) h

theorem notMem_printNat {n : Nat} {c : Char} (h : c.isDigit = false) : c ∉ printNat n := by
  intro hmem
  rw [isDigit_of_mem_printNat hmem] at h
  cases h

theorem printNat_ne_nil (n : Nat) : printNat n ≠ [] := Nat.toDigits_ne_nil

theorem head?_printNat_ne {n : Nat} {c : Char} (h : c.isDigit = false) :
    (printNat n).head? ≠ some c := fun hhead =>
  notMem_printNat h (List.mem_of_mem_head? hhead)

theorem readNumber_printNat (n : Nat) : readNumber (printNat n) = some n := by
  have hne := printNat_ne_nil n
  simp only [readNumber, List.isEmpty_iff, hne, if_false]
  rw [readDigits_eq_ofDigitChars fun c => isDigit_of_mem_printNat]
  exact congrArg some Nat.ofDigitChars_ten_toDigits

theorem parseUnsigned_printNat {bound n : Nat} (h : n < bound) :
    parseUnsigned bound (printNat n) = some n := by
  have hplus : (printNat n).head? ≠ some '+' := head?_printNat_ne (by decide)
  simp [parseUnsigned, hplus, readNumber_printNat, h]

theorem parseSigned_printInt {bound : Nat} {n : Int} (hlow : -(bound : Int) ≤ n)
    (hhigh : n < bound) : parseSigned bound (printInt n) = some n := by
  by_cases hneg : n < 0
  · have hbound : n.natAbs ≤ bound := by omega
    have habs : -(n.natAbs : Int) = n := by omega
    simp only [printInt, hneg, if_true, parseSigned, List.head?_cons, List.tail_cons,
      readNumber_printNat, Option.filter_some, hbound, decide_true, Option.map_some, habs]
  · have hminus : (printNat n.natAbs).head? ≠ some '-' := head?_printNat_ne (by decide)
    have hbound : n.natAbs < bound := by omega
    have habs : Int.ofNat n.natAbs = n := Int.natAbs_of_nonneg (not_lt.mp hneg)
    simp only [printInt, hneg, if_false, parseSigned, hminus, parseUnsigned_printNat hbound,
      Option.map_some, habs]

end Decimal
