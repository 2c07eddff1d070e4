import Mail4Agent.Foundation.Data

/-!
# Reading bytes by position

Little-endian numbers of a fixed width, and a bounds-checked slice. A decoder
that keeps a cursor reads `bytes` at the cursor `front.length` of
`bytes = front ++ field ++ rest`; the lemmas say what it finds there.
-/

namespace Bytes

/-- The `width` low bytes of `n`, least significant first. -/
def ofNatLE : Nat → Nat → Bytes
  | 0, _ => []
  | width + 1, n => UInt8.ofNat n :: ofNatLE width (n / 256)

def toNatLE : Bytes → Nat
  | [] => 0
  | byte :: rest => byte.toNat + 256 * toNatLE rest

@[simp] theorem length_ofNatLE (width n : Nat) : (ofNatLE width n).length = width := by
  induction width generalizing n with
  | zero => rfl
  | succ width ih => simp [ofNatLE, ih]

theorem toNatLE_ofNatLE (width n : Nat) : toNatLE (ofNatLE width n) = n % 256 ^ width := by
  induction width generalizing n with
  | zero => simp [ofNatLE, toNatLE, Nat.mod_one]
  | succ width ih =>
    have hbyte : (UInt8.ofNat n).toNat = n % 256 := by simp
    rw [ofNatLE, toNatLE, ih, hbyte, pow_succ', Nat.mod_mul]

/-- `bytes.get(start..stop)`. -/
def slice (bytes : Bytes) (start stop : Nat) : Option Bytes :=
  if start ≤ stop ∧ stop ≤ bytes.length then some ((bytes.drop start).take (stop - start))
  else none

theorem slice_eq_none {bytes : Bytes} {start stop : Nat} (h : bytes.length < stop) :
    slice bytes start stop = none := by
  rw [slice, if_neg]
  omega

theorem slice_append (front field rest : Bytes) :
    slice (front ++ (field ++ rest)) front.length (front.length + field.length) = some field := by
  have hbounds : front.length ≤ front.length + field.length ∧
      front.length + field.length ≤ (front ++ (field ++ rest)).length := by
    simp only [List.length_append]
    omega
  rw [slice, if_pos hbounds]
  simp

theorem slice_bounds {bytes field : Bytes} {start stop : Nat}
    (h : slice bytes start stop = some field) : start ≤ stop ∧ stop ≤ bytes.length := by
  rw [slice] at h
  split at h
  · assumption
  · cases h

end Bytes
