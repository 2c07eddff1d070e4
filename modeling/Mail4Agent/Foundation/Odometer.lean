import Mathlib

/-!
# Counters whose coarse wheels reset the fine ones

A position is a list of digits, the coarsest first. To reach a later position, the first wheel
whose digit differs is turned by the difference, which starts the finer wheels afresh, and these
are turned up from zero. Turning a wheel forgets what was done to the finer ones before. Then the
way to a later position may be interrupted anywhere in between (`climb_climb`).
-/

namespace Odometer

variable {σ ι : Type} (turn : ι → Nat → σ → σ)

/-- Turns add up, and a turn forgets earlier turns of finer wheels. -/
structure Wheels (wheels : List ι) : Prop where
  add : ∀ i ∈ wheels, ∀ m n s, turn i (n + 1) (turn i (m + 1) s) = turn i (m + 1 + (n + 1)) s
  forgets : wheels.Pairwise fun i k => ∀ m n s, turn i (n + 1) (turn k (m + 1) s) = turn i (n + 1) s

/-- From one position to a later one. -/
def climb : List ι → List Nat → List Nat → σ → σ
  | i :: wheels, digit :: current, goal :: target, s =>
    if digit = goal then climb wheels current target s
    else climb wheels (current.map fun _ => 0) target (turn i (goal - digit) s)
  | _, _, _, s => s

/-- The second position is not before the first, and has as many digits. -/
def Le : List Nat → List Nat → Prop
  | [], [] => True
  | digit :: current, goal :: target =>
    digit < goal ∧ current.length = target.length ∨ digit = goal ∧ Le current target
  | _, _ => False

theorem Le.length_eq : ∀ {current target : List Nat}, Le current target →
    current.length = target.length
  | [], [], _ => rfl
  | _ :: _, _ :: _, h => by
    rcases h with ⟨-, hlength⟩ | ⟨-, hle⟩
    · simp [hlength]
    · simp [hle.length_eq]

/-- Zero comes first. -/
theorem zero_le : ∀ {current target : List Nat}, current.length = target.length →
    Le (current.map fun _ => 0) target
  | [], [], _ => trivial
  | _ :: current, goal :: target, h => by
    have hlength : current.length = target.length := by simpa using h
    rcases Nat.eq_zero_or_pos goal with rfl | hpos
    · exact .inr ⟨rfl, zero_le hlength⟩
    · exact .inl ⟨hpos, by simp [hlength]⟩

theorem zeros_eq {current target : List Nat} (h : current.length = target.length) :
    current.map (fun _ => 0) = target.map fun _ => 0 := by
  rw [List.map_const', List.map_const', h]

variable {turn}

theorem climb_self (wheels : List ι) (digits : List Nat) (s : σ) :
    climb turn wheels digits digits s = s := by
  induction wheels generalizing digits with
  | nil => rfl
  | cons i wheels ih =>
    cases digits with
    | nil => rfl
    | cons digit digits => simp [climb, ih]

/-- A wheel that forgets the turns of the finer ones forgets their climbing. -/
theorem turn_climb {i : ι} {wheels : List ι}
    (forgets : ∀ k ∈ wheels, ∀ m n s, turn i (n + 1) (turn k (m + 1) s) = turn i (n + 1) s)
    {current target : List Nat} (hle : Le current target) (n : Nat) (s : σ) :
    turn i (n + 1) (climb turn wheels current target s) = turn i (n + 1) s := by
  induction wheels generalizing current target s with
  | nil => rfl
  | cons k wheels ih =>
    rw [List.forall_mem_cons] at forgets
    match current, target, hle with
    | [], [], _ => rfl
    | digit :: current, goal :: target, hle =>
      rw [climb]
      rcases hle with ⟨hlt, hlength⟩ | ⟨rfl, hle⟩
      · obtain ⟨m, hm⟩ : ∃ m, goal - digit = m + 1 := ⟨goal - digit - 1, by omega⟩
        rw [if_neg hlt.ne, ih forgets.2 (zero_le hlength), hm, forgets.1]
      · rw [if_pos rfl, ih forgets.2 hle]

/-- Climbing in two parts is climbing at once. -/
theorem climb_climb {wheels : List ι} (h : Wheels turn wheels) {current middle target : List Nat}
    (hfirst : Le current middle) (hsecond : Le middle target) (s : σ) :
    climb turn wheels middle target (climb turn wheels current middle s) =
      climb turn wheels current target s := by
  induction wheels generalizing current middle target s with
  | nil => rfl
  | cons i wheels ih =>
    have hrest : Wheels turn wheels :=
      ⟨fun k hk => h.add k (List.mem_cons_of_mem i hk), (List.pairwise_cons.1 h.forgets).2⟩
    have hforgets := (List.pairwise_cons.1 h.forgets).1
    match current, middle, target, hfirst, hsecond with
    | [], [], [], _, _ => rfl
    | digit :: current, stop :: middle, goal :: target, hfirst, hsecond =>
      rw [climb, climb, climb]
      rcases hfirst with ⟨hlt, hlength⟩ | ⟨rfl, hfirst⟩
      · rcases hsecond with ⟨hlt', hlength'⟩ | ⟨rfl, hsecond⟩
        · -- Both ways turn this wheel; what the first did to the finer ones is forgotten.
          obtain ⟨m, hm⟩ : ∃ m, stop - digit = m + 1 := ⟨stop - digit - 1, by omega⟩
          obtain ⟨n, hn⟩ : ∃ n, goal - stop = n + 1 := ⟨goal - stop - 1, by omega⟩
          have hsum : goal - digit = m + 1 + (n + 1) := by omega
          rw [if_neg hlt.ne, if_neg hlt'.ne, if_neg (by omega), hn, hm, hsum,
            turn_climb hforgets (zero_le hlength), h.add i (List.mem_cons_self ..),
            zeros_eq hlength]
        · rw [if_neg hlt.ne, if_pos rfl, if_neg hlt.ne, ih hrest (zero_le hlength) hsecond]
      · rcases hsecond with ⟨hlt', hlength'⟩ | ⟨rfl, hsecond⟩
        · obtain ⟨n, hn⟩ : ∃ n, goal - digit = n + 1 := ⟨goal - digit - 1, by omega⟩
          rw [if_pos rfl, if_neg hlt'.ne, if_neg hlt'.ne, hn, turn_climb hforgets hfirst,
            zeros_eq hfirst.length_eq]
        · rw [if_pos rfl, if_pos rfl, if_pos rfl, ih hrest hfirst hsecond]

end Odometer
