import Mail4Agent.Foundation.Odometer

/-!
# The Megolm ratchet

Four parts, the first of which changes every 2^24 messages and the last with every message. To
advance to an index, each part is hashed as often as its byte of the index rises, and the last time
the finer parts are replaced by hashes of it. The index is an unsigned 32-bit word, and the number
of steps is read off it by shifts and masks.

Forward, this is an odometer whose wheels are the four bytes of the index (`advanceTo_eq`), so
advancing in two stages is advancing at once (`advanceTo_advanceTo`).
-/

namespace Vodozemac

structure Ratchet (Part : Type) where
  inner : Fin 4 → Part
  counter : UInt32
deriving DecidableEq

namespace Ratchet

variable {Part : Type} (hash : Part → Fin 4 → Part)

/-- One part from another; the seed of the hash is the number of the part. -/
def update (parts : Fin 4 → Part) (source target : Fin 4) : Fin 4 → Part :=
  Function.update parts target (hash (parts source) target)

/-- All but the last step leave the finer parts alone; the last one goes from the finest part up,
so that all of them come from the same value of part `j`. -/
def turn (j : Fin 4) (steps : Nat) (parts : Fin 4 → Part) : Fin 4 → Part :=
  ((List.finRange 4).reverse.filter (j ≤ ·)).foldl (fun parts k => update hash parts j k)
    ((fun parts => update hash parts j j)^[steps - 1] parts)

def shift (j : Fin 4) : UInt32 := .ofNat ((3 - j.val) * 8)

/-- The difference of the two bytes, modulo 256. -/
def stepsOf (target counter : UInt32) (j : Fin 4) : UInt32 :=
  ((target >>> shift j) - (counter >>> shift j)) &&& 0xff

def advancePart (target : UInt32) (ratchet : Ratchet Part) (j : Fin 4) : Ratchet Part :=
  let steps := stepsOf target ratchet.counter j
  if steps = 0 ∧ ¬ target < ratchet.counter then ratchet
  else
    -- No step to a smaller index means that the byte has gone all the way round.
    ⟨turn hash j (if steps = 0 then 0x100 else steps.toNat) ratchet.inner,
      target &&& (0xffffffff <<< shift j)⟩

def advanceTo (ratchet : Ratchet Part) (target : UInt32) : Ratchet Part :=
  (List.finRange 4).foldl (advancePart hash target) ratchet

/-! ### Turning one part -/

theorem update_iterate (parts : Fin 4 → Part) (j : Fin 4) (n : Nat) :
    (fun parts => update hash parts j j)^[n] parts =
      Function.update parts j ((fun part => hash part j)^[n] (parts j)) := by
  induction n with
  | zero => simp
  | succ n ih =>
    rw [Function.iterate_succ_apply', ih, update, Function.update_self, Function.update_idem,
      Function.iterate_succ_apply']

theorem turn_apply (j : Fin 4) (n : Nat) (parts : Fin 4 → Part) (k : Fin 4) :
    turn hash j (n + 1) parts k =
      if k < j then parts k else hash ((fun part => hash part j)^[n] (parts j)) k := by
  rw [turn, Nat.add_sub_cancel, update_iterate]
  generalize (fun part => hash part j)^[n] (parts j) = part
  fin_cases j <;> fin_cases k <;> rfl

/-- The parts are the wheels of an odometer. -/
theorem wheels_turn : Odometer.Wheels (turn hash) (List.finRange 4) where
  add j _ m n parts := by
    funext k
    rw [show m + 1 + (n + 1) = m + 1 + n + 1 from rfl, turn_apply, turn_apply, turn_apply,
      turn_apply, if_neg (lt_irrefl j)]
    by_cases hk : k < j
    · simp only [if_pos hk]
    · simp only [if_neg hk]
      rw [← Function.iterate_succ_apply' (fun part => hash part j), ← Function.iterate_add_apply,
        Nat.add_comm n]
  forgets := by
    refine (List.pairwise_lt_finRange 4).imp fun {j k} hlt m n parts => ?_
    funext i
    rw [turn_apply, turn_apply, turn_apply, turn_apply, if_pos hlt]
    by_cases hi : i < j
    · simp only [if_pos hi, if_pos (hi.trans hlt)]
    · simp only [if_neg hi]

/-! ### The bytes of an index -/

/-- The last `n` bytes of an index. -/
def bytes : Nat → Nat → List Nat
  | 0, _ => []
  | n + 1, index => index / 256 ^ n % 256 :: bytes n index

theorem length_bytes (n index : Nat) : (bytes n index).length = n := by
  induction n with
  | zero => rfl
  | succ n ih => simp [bytes, ih]

variable {n : Nat} {target : UInt32} {ratchet : Ratchet Part}

/-- The bytes below a multiple of a power of 256 are zero. -/
theorem bytes_mul (high : Nat) {m : Nat} (hle : n ≤ m) (index : Nat) :
    bytes n (high * 256 ^ m) = (bytes n index).map fun _ => 0 := by
  induction n with
  | zero => rfl
  | succ n ih =>
    obtain ⟨d, rfl⟩ : ∃ d, m = n + 1 + d := ⟨m - (n + 1), by omega⟩
    have hbyte : high * 256 ^ (n + 1 + d) / 256 ^ n % 256 = 0 := by
      rw [show high * 256 ^ (n + 1 + d) = high * 256 ^ d * 256 * 256 ^ n by ring,
        Nat.mul_div_cancel _ (by positivity), Nat.mul_mod_left]
    rw [bytes, bytes, List.map_cons, hbyte, ih (by omega)]

/-- Above the last byte of a number are the bytes above it. -/
theorem div_pow_eq (n index : Nat) :
    index / 256 ^ n = 256 * (index / 256 ^ (n + 1)) + index / 256 ^ n % 256 := by
  rw [pow_succ, ← Nat.div_div_eq_div_mul, Nat.div_add_mod]

/-- Two indices that agree above their last bytes are ordered as these are. -/
theorem le_bytes {current target : Nat} (hle : current ≤ target)
    (hhigh : current / 256 ^ n = target / 256 ^ n) :
    Odometer.Le (bytes n current) (bytes n target) := by
  induction n with
  | zero => trivial
  | succ n ih =>
    have hdiv : current / 256 ^ n ≤ target / 256 ^ n := Nat.div_le_div_right hle
    have hcurrent := div_pow_eq n current
    have htarget := div_pow_eq n target
    rw [hhigh] at hcurrent
    rcases Nat.lt_or_ge (current / 256 ^ n % 256) (target / 256 ^ n % 256) with hlt | hge
    · exact .inl ⟨hlt, by rw [length_bytes, length_bytes]⟩
    · exact .inr ⟨by omega, ih (by omega)⟩

/-! ### The machine words -/

theorem toNat_shift (hn : n < 4) : (shift (Fin.rev ⟨n, hn⟩)).toNat % 32 = 8 * n := by
  interval_cases n <;> decide +revert

theorem toNat_shiftRight_shift (index : UInt32) (hn : n < 4) :
    (index >>> shift (Fin.rev ⟨n, hn⟩)).toNat = index.toNat / 256 ^ n := by
  rw [UInt32.toNat_shiftRight, toNat_shift, Nat.shiftRight_eq_div_pow, pow_mul]
  rfl

theorem and_high (index : Nat) (hindex : index < 2 ^ 32) (bits : Nat) :
    index &&& ((2 ^ 32 - 1) <<< bits) % 2 ^ 32 = index / 2 ^ bits * 2 ^ bits := by
  rw [← Nat.shiftRight_eq_div_pow, ← Nat.shiftLeft_eq]
  refine Nat.eq_of_testBit_eq fun i => ?_
  rw [Nat.testBit_and, Nat.testBit_mod_two_pow, Nat.testBit_shiftLeft, Nat.testBit_shiftLeft,
    Nat.testBit_shiftRight, Nat.testBit_two_pow_sub_one]
  by_cases hlow : i < bits
  · simp [show ¬ bits ≤ i by omega]
  · by_cases hi : i < 32
    · simp [show bits ≤ i by omega, show bits + (i - bits) = i by omega, hi,
        show i - bits < 32 by omega]
    · rw [Nat.testBit_lt_two_pow (hindex.trans_le (Nat.pow_le_pow_right two_pos (not_lt.1 hi))),
        show bits + (i - bits) = i by omega,
        Nat.testBit_lt_two_pow (hindex.trans_le (Nat.pow_le_pow_right two_pos (not_lt.1 hi)))]
      simp

theorem toNat_and_mask (index : UInt32) (hn : n < 4) :
    (index &&& (0xffffffff <<< shift (Fin.rev ⟨n, hn⟩))).toNat =
      index.toNat / 256 ^ n * 256 ^ n := by
  have hmask : ((0xffffffff : UInt32) <<< shift (Fin.rev ⟨n, hn⟩)).toNat =
      (2 ^ 32 - 1) <<< (8 * n) % 2 ^ 32 := by
    rw [UInt32.toNat_shiftLeft, toNat_shift]
    rfl
  rw [UInt32.toNat_and, hmask, and_high _ index.toNat_lt, pow_mul]
  rfl

/-- Forward, and with the higher bytes already right, the number of steps is the difference of the
bytes. -/
theorem toNat_stepsOf {counter : UInt32} (hle : counter ≤ target) (hn : n < 4)
    (hhigh : counter.toNat / 256 ^ (n + 1) = target.toNat / 256 ^ (n + 1)) :
    (stepsOf target counter (Fin.rev ⟨n, hn⟩)).toNat =
      target.toNat / 256 ^ n % 256 - counter.toNat / 256 ^ n % 256 := by
  have hdiv : counter.toNat / 256 ^ n ≤ target.toNat / 256 ^ n :=
    Nat.div_le_div_right (UInt32.le_iff_toNat_le.1 hle)
  have hcounter := div_pow_eq n counter.toNat
  have htarget := div_pow_eq n target.toNat
  rw [hhigh] at hcounter
  have hshift : counter >>> shift (Fin.rev ⟨n, hn⟩) ≤ target >>> shift (Fin.rev ⟨n, hn⟩) := by
    rw [UInt32.le_iff_toNat_le, toNat_shiftRight_shift, toNat_shiftRight_shift]
    exact hdiv
  rw [stepsOf, UInt32.toNat_and, UInt32.toNat_sub_of_le _ _ hshift, toNat_shiftRight_shift,
    toNat_shiftRight_shift, show (0xff : UInt32).toNat = 2 ^ 8 - 1 from rfl,
    Nat.and_two_pow_sub_one_eq_mod]
  omega

/-! ### Advancing forward -/

/-- The parts that go with the last `n` bytes. -/
def lastParts : Nat → List (Fin 4)
  | 0 => []
  | n + 1 => Fin.ofNat 4 (3 - n) :: lastParts n

/-- With the higher bytes right, the remaining parts are turned as far as their bytes rise. -/
theorem foldl_advancePart (target : UInt32) (hn : n ≤ 4) (ratchet : Ratchet Part)
    (hle : ratchet.counter ≤ target)
    (hhigh : ratchet.counter.toNat / 256 ^ n = target.toNat / 256 ^ n) :
    (lastParts n).foldl (advancePart hash target) ratchet =
      ⟨Odometer.climb (turn hash) (lastParts n) (bytes n ratchet.counter.toNat)
        (bytes n target.toNat) ratchet.inner, target⟩ := by
  induction n generalizing ratchet with
  | zero =>
    have hcounter : ratchet.counter = target :=
      UInt32.toNat_inj.1 (by simpa using hhigh)
    rw [← hcounter]
    rfl
  | succ n ih =>
    have hlt : n < 4 := hn
    have hsteps := toNat_stepsOf hle hlt hhigh
    have hpart : Fin.ofNat 4 (3 - n) = Fin.rev ⟨n, hlt⟩ := by
      interval_cases n <;> rfl
    have hcounter := div_pow_eq n ratchet.counter.toNat
    have htarget := div_pow_eq n target.toNat
    have hdiv : ratchet.counter.toNat / 256 ^ n ≤ target.toNat / 256 ^ n :=
      Nat.div_le_div_right (UInt32.le_iff_toNat_le.1 hle)
    rw [hhigh] at hcounter
    rw [lastParts, List.foldl_cons, hpart, bytes, bytes, Odometer.climb]
    by_cases heq : ratchet.counter.toNat / 256 ^ n % 256 = target.toNat / 256 ^ n % 256
    · have hzero : stepsOf target ratchet.counter (Fin.rev ⟨n, hlt⟩) = 0 :=
        UInt32.toNat_inj.1 (by rw [hsteps, heq, Nat.sub_self]; rfl)
      have hsame : advancePart hash target ratchet (Fin.rev ⟨n, hlt⟩) = ratchet :=
        if_pos ⟨hzero, UInt32.not_lt.2 hle⟩
      rw [if_pos heq, hsame, ih (by omega) ratchet hle (by omega)]
    · have hne : stepsOf target ratchet.counter (Fin.rev ⟨n, hlt⟩) ≠ 0 := by
        intro hzero
        rw [hzero, UInt32.toNat_zero] at hsteps
        omega
      have hmask := toNat_and_mask target (hlt)
      have hturned : advancePart hash target ratchet (Fin.rev ⟨n, hlt⟩) =
          ⟨turn hash (Fin.rev ⟨n, hlt⟩)
            (target.toNat / 256 ^ n % 256 - ratchet.counter.toNat / 256 ^ n % 256) ratchet.inner,
            target &&& (0xffffffff <<< shift (Fin.rev ⟨n, hlt⟩))⟩ := by
        rw [← hsteps]
        simp only [advancePart, if_neg (not_and_of_not_left _ hne), if_neg hne]
      have hpos : 0 < 256 ^ n := by positivity
      rw [if_neg heq, hturned, ih (by omega)]
      · rw [hmask, bytes_mul _ le_rfl ratchet.counter.toNat]
      · rw [UInt32.le_iff_toNat_le, hmask]
        exact Nat.div_mul_le_self ..
      · rw [hmask, Nat.mul_div_cancel _ hpos]

/-- Forward, the ratchet is an odometer. -/
theorem advanceTo_eq (hle : ratchet.counter ≤ target) :
    ratchet.advanceTo hash target =
      ⟨Odometer.climb (turn hash) (List.finRange 4) (bytes 4 ratchet.counter.toNat)
        (bytes 4 target.toNat) ratchet.inner, target⟩ := by
  have hzero : ∀ index : UInt32, index.toNat / 256 ^ 4 = 0 := fun index =>
    Nat.div_eq_of_lt index.toNat_lt
  exact foldl_advancePart hash target le_rfl ratchet hle (by rw [hzero, hzero])

theorem counter_advanceTo (hle : ratchet.counter ≤ target) :
    (ratchet.advanceTo hash target).counter = target := by
  rw [advanceTo_eq hash hle]

theorem advanceTo_self (ratchet : Ratchet Part) :
    ratchet.advanceTo hash ratchet.counter = ratchet := by
  rw [advanceTo_eq hash (UInt32.le_refl _), Odometer.climb_self]

/-- An index is reached in two stages as it is at once. -/
theorem advanceTo_advanceTo {middle : UInt32} (hfirst : ratchet.counter ≤ middle)
    (hsecond : middle ≤ target) :
    (ratchet.advanceTo hash middle).advanceTo hash target = ratchet.advanceTo hash target := by
  have hzero : ∀ index : UInt32, index.toNat / 256 ^ 4 = 0 := fun index =>
    Nat.div_eq_of_lt index.toNat_lt
  rw [advanceTo_eq hash hfirst, advanceTo_eq hash hsecond,
    advanceTo_eq hash (UInt32.le_trans hfirst hsecond), Odometer.climb_climb (wheels_turn hash)]
  · exact le_bytes (UInt32.le_iff_toNat_le.1 hfirst) (by rw [hzero, hzero])
  · exact le_bytes (UInt32.le_iff_toNat_le.1 hsecond) (by rw [hzero, hzero])

end Ratchet

end Vodozemac
