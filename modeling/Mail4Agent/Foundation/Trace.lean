import Mathlib

/-!
# Runs and what their traces remember

A run feeds a list of inputs to a step function. An invariant of the start that
every step keeps holds after every run; `Meets` restricts this to runs whose
inputs are given only in states where a guard allows them.

A trace lists observable events, oldest first, and grows at its end. The past
operator `since start stop` holds when `start` has happened and `stop` has not
happened after the latest `start`. It is computed by a fold, and `since_iff`
reads it as a statement about a cut of the trace.
-/

namespace Trace

section Run

variable {σ ι : Type} (step : σ → ι → σ)

/-- The state after feeding `inputs` one after another. -/
def run (s : σ) (inputs : List ι) : σ := inputs.foldl step s

/-- Every input of the run is allowed by `guard` in the state that receives it. -/
def Meets (guard : σ → ι → Prop) : σ → List ι → Prop
  | _, [] => True
  | s, i :: rest => guard s i ∧ Meets guard (step s i) rest

instance decidableMeets (guard : σ → ι → Prop) [∀ s i, Decidable (guard s i)] :
    ∀ (s : σ) (inputs : List ι), Decidable (Meets step guard s inputs)
  | _, [] => isTrue trivial
  | s, i :: rest =>
    have := decidableMeets guard (step s i) rest
    inferInstanceAs (Decidable (guard s i ∧ Meets step guard (step s i) rest))

variable {step}

@[simp] theorem run_nil (s : σ) : run step s [] = s := rfl

@[simp] theorem run_cons (s : σ) (i : ι) (rest : List ι) :
    run step s (i :: rest) = run step (step s i) rest := rfl

theorem run_append (s : σ) (a b : List ι) : run step s (a ++ b) = run step (run step s a) b :=
  List.foldl_append

theorem run_snoc (s : σ) (inputs : List ι) (i : ι) :
    run step s (inputs ++ [i]) = step (run step s inputs) i := by
  simp [run_append]

variable {guard guard' : σ → ι → Prop} {s : σ} {inputs : List ι} {P inv : σ → Prop}
  {allowed : ι → Prop}

/-- What every allowed step keeps, every allowed run keeps. -/
theorem run_invariant_of_meets (inv : σ → Prop)
    (preserved : ∀ s i, guard s i → inv s → inv (step s i)) (meets : Meets step guard s inputs)
    (initial : inv s) : inv (run step s inputs) := by
  induction inputs generalizing s with
  | nil => exact initial
  | cons i rest ih => exact ih meets.2 (preserved s i meets.1 initial)

/-- What every step keeps, every run keeps. -/
theorem run_invariant (inv : σ → Prop) (preserved : ∀ s i, inv s → inv (step s i)) (initial : inv s)
    (inputs : List ι) : inv (run step s inputs) := by
  induction inputs generalizing s with
  | nil => exact initial
  | cons i rest ih => exact ih (preserved s i initial)

theorem meets_append {a b : List ι} :
    Meets step guard s (a ++ b) ↔ Meets step guard s a ∧ Meets step guard (run step s a) b := by
  induction a generalizing s with
  | nil => simp [Meets]
  | cons i rest ih => simp [Meets, ih, and_assoc]

/-- A stronger guard allows fewer runs. -/
theorem Meets.mono (h : ∀ s i, guard s i → guard' s i) (meets : Meets step guard s inputs) :
    Meets step guard' s inputs := by
  induction inputs generalizing s with
  | nil => exact meets
  | cons i rest ih => exact ⟨h s i meets.1, ih meets.2⟩

theorem meets_of_forall {allowed : ι → Prop} (h : ∀ i ∈ inputs, allowed i) :
    Meets step (fun _ i => allowed i) s inputs := by
  induction inputs generalizing s with
  | nil => trivial
  | cons i rest ih => exact ⟨h i List.mem_cons_self, ih fun j hj => h j (List.mem_cons_of_mem _ hj)⟩

theorem Meets.and (h : Meets step guard s inputs) (h' : Meets step guard' s inputs) :
    Meets step (fun s i => guard s i ∧ guard' s i) s inputs := by
  induction inputs generalizing s with
  | nil => exact h
  | cons i rest ih => exact ⟨⟨h.1, h'.1⟩, ih h.2 h'.2⟩

/-- A guard that implies another in the states an allowed run goes through. -/
theorem Meets.of_invariant (inv : σ → Prop)
    (implied : ∀ s i, guard s i → inv s → guard' s i ∧ inv (step s i))
    (meets : Meets step guard s inputs) (initial : inv s) : Meets step guard' s inputs := by
  induction inputs generalizing s with
  | nil => exact meets
  | cons i rest ih =>
    obtain ⟨hguard, hinv⟩ := implied s i meets.1 initial
    exact ⟨hguard, ih meets.2 hinv⟩

/-- Two guards that say the same in the states an allowed run goes through allow the same
runs. -/
theorem meets_iff_meets (inv : σ → Prop) (preserved : ∀ s i, guard s i → inv s → inv (step s i))
    (same : ∀ s i, inv s → (guard' s i ↔ guard s i)) (initial : inv s) (inputs : List ι) :
    Meets step guard' s inputs ↔ Meets step guard s inputs := by
  induction inputs generalizing s with
  | nil => exact .rfl
  | cons i rest ih =>
    refine (and_congr_left fun _ => same s i initial).trans (and_congr_right fun hguard => ?_)
    exact ih (preserved s i hguard initial)

/-- The property holds in every state of the run, its start and its end included. -/
def Throughout (step : σ → ι → σ) (P : σ → Prop) : σ → List ι → Prop
  | s, [] => P s
  | s, i :: rest => P s ∧ Throughout step P (step s i) rest

theorem throughout_iff :
    Throughout step P s inputs ↔
      ∀ before after, inputs = before ++ after → P (run step s before) := by
  induction inputs generalizing s with
  | nil =>
    constructor
    · intro h before after heq
      obtain ⟨rfl, -⟩ := List.append_eq_nil_iff.1 heq.symm
      exact h
    · intro h
      exact h [] [] rfl
  | cons i rest ih =>
    rw [Throughout, ih]
    constructor
    · rintro ⟨hs, hrest⟩ before after heq
      cases before with
      | nil => exact hs
      | cons j before =>
        obtain ⟨rfl, hrest'⟩ := List.cons.inj heq
        exact hrest before after hrest'
    · intro h
      refine ⟨h [] _ rfl, fun before after heq => ?_⟩
      exact h (i :: before) after (by rw [heq]; rfl)

/-- What holds throughout holds at the end. -/
theorem Throughout.last (h : Throughout step P s inputs) : P (run step s inputs) :=
  throughout_iff.1 h inputs [] (List.append_nil inputs).symm

/-- What an invariant of the allowed inputs implies holds throughout. -/
theorem throughout_of_invariant (preserved : ∀ s i, allowed i → inv s → inv (step s i))
    (implied : ∀ s, inv s → P s) (hallowed : ∀ i ∈ inputs, allowed i) (initial : inv s) :
    Throughout step P s inputs := by
  induction inputs generalizing s with
  | nil => exact implied s initial
  | cons i rest ih =>
    obtain ⟨hi, hrest⟩ := List.forall_mem_cons.1 hallowed
    exact ⟨implied s initial, ih hrest (preserved s i hi initial)⟩

/-- What an invariant of the steps that meet their guard implies holds throughout. -/
theorem throughout_of_meets (inv : σ → Prop) (preserved : ∀ s i, guard s i → inv s → inv (step s i))
    (implied : ∀ s, inv s → P s) (hmeets : Meets step guard s inputs) (initial : inv s) :
    Throughout step P s inputs := by
  induction inputs generalizing s with
  | nil => exact implied s initial
  | cons i rest ih => exact ⟨implied s initial, ih hmeets.2 (preserved s i hmeets.1 initial)⟩

/-- If a step keeps the property exactly when its guard holds, then the property holds
throughout the runs whose steps all meet the guard, and in no others. The invariant
and the condition on inputs are what the run provides anyway. -/
theorem throughout_iff_meets (preserved : ∀ s i, allowed i → inv s → inv (step s i))
    (exactly : ∀ s i, allowed i → inv s → P s → (P (step s i) ↔ guard s i))
    (hallowed : ∀ i ∈ inputs, allowed i) (hinv : inv s) (initial : P s) :
    Throughout step P s inputs ↔ Meets step guard s inputs := by
  induction inputs generalizing s with
  | nil => exact ⟨fun _ => trivial, fun _ => initial⟩
  | cons i rest ih =>
    obtain ⟨hi, hrest⟩ := List.forall_mem_cons.1 hallowed
    have hnext := preserved s i hi hinv
    constructor
    · rintro ⟨-, h⟩
      have hP : P (step s i) := by
        cases rest with
        | nil => exact h
        | cons j rest => exact h.1
      exact ⟨(exactly s i hi hinv initial).1 hP, (ih hrest hnext hP).1 h⟩
    · rintro ⟨hguard, h⟩
      have hP := (exactly s i hi hinv initial).2 hguard
      exact ⟨initial, (ih hrest hnext hP).2 h⟩

/-- If a stronger invariant is kept where the guard holds, and the property is lost where it does
not, then the property holds throughout the runs whose steps all meet the guard, and in no
others. -/
theorem throughout_iff_meets_of_inv (inv : σ → Prop) (allowed : ι → Prop)
    (implied : ∀ s, inv s → P s) (preserved : ∀ s i, allowed i → guard s i → inv s → inv (step s i))
    (needed : ∀ s i, allowed i → inv s → P (step s i) → guard s i)
    (hallowed : ∀ i ∈ inputs, allowed i) (initial : inv s) :
    Throughout step P s inputs ↔ Meets step guard s inputs := by
  induction inputs generalizing s with
  | nil => exact ⟨fun _ => trivial, fun _ => implied s initial⟩
  | cons i rest ih =>
    obtain ⟨hi, hrest⟩ := List.forall_mem_cons.1 hallowed
    constructor
    · rintro ⟨-, h⟩
      have hguard : guard s i := needed s i hi initial (throughout_iff.1 h [] rest rfl)
      exact ⟨hguard, (ih hrest (preserved s i hi hguard initial)).1 h⟩
    · rintro ⟨hguard, h⟩
      exact ⟨implied s initial, (ih hrest (preserved s i hi hguard initial)).2 h⟩

/-- If all steps keep the invariant, and the property exactly when the guard holds. -/
theorem throughout_iff_meets_of_kept (inv : σ → Prop)
    (preserved : ∀ s i, inv s → inv (step s i))
    (exactly : ∀ s i, inv s → P s → (P (step s i) ↔ guard s i)) (inputs : List ι) (hinv : inv s)
    (initial : P s) : Throughout step P s inputs ↔ Meets step guard s inputs :=
  @throughout_iff_meets σ ι step guard s inputs P inv (fun _ => True)
    (fun s i _ => preserved s i) (fun s i _ => exactly s i) (fun _ _ => trivial) hinv initial

/-- If a step keeps the property exactly when its guard holds, whatever else the state is. -/
theorem throughout_iff_meets_of_exact (exactly : ∀ s i, P s → (P (step s i) ↔ guard s i))
    (inputs : List ι) (initial : P s) :
    Throughout step P s inputs ↔ Meets step guard s inputs :=
  throughout_iff_meets_of_kept (fun _ => True) (fun _ _ _ => trivial) (fun s i _ => exactly s i)
    inputs trivial initial

end Run

section Past

variable {α : Type} (start stop : α → Bool)

/-- `start` has happened, and `stop` has not happened after it. -/
def since (trace : List α) : Bool :=
  trace.foldl (fun live event => start event || (live && !stop event)) false

@[simp] theorem since_nil : since start stop [] = false := rfl

@[simp] theorem since_snoc (trace : List α) (event : α) :
    since start stop (trace ++ [event]) =
      (start event || (since start stop trace && !stop event)) := by
  simp [since]

theorem since_iff {trace : List α} :
    since start stop trace = true ↔
      ∃ before event after, trace = before ++ event :: after ∧ start event = true ∧
        ∀ later ∈ after, stop later = false := by
  induction trace using List.reverseRecOn with
  | nil => simp
  | append_singleton trace last ih =>
    rw [since_snoc, Bool.or_eq_true, Bool.and_eq_true, Bool.not_eq_true', ih]
    constructor
    · rintro (h | ⟨⟨before, event, after, rfl, hstart, hafter⟩, hlast⟩)
      · exact ⟨trace, last, [], rfl, h, by simp⟩
      · refine ⟨before, event, after ++ [last], by simp, hstart, ?_⟩
        intro later hlater
        rcases List.mem_append.1 hlater with h | h
        · exact hafter later h
        · rw [List.mem_singleton.1 h, hlast]
    · rintro ⟨before, event, after, heq, hstart, hafter⟩
      rcases List.eq_nil_or_concat' after with rfl | ⟨init, final, rfl⟩
      · obtain ⟨-, h⟩ := List.append_inj' heq rfl
        rw [List.singleton_inj.1 h]
        exact .inl hstart
      · rw [← List.cons_append, ← List.append_assoc] at heq
        obtain ⟨rfl, h⟩ := List.append_inj' heq rfl
        obtain rfl := List.singleton_inj.1 h
        exact .inr ⟨⟨before, event, init, rfl, hstart,
          fun later hl => hafter later (List.mem_append_left _ hl)⟩, hafter _ (by simp)⟩

end Past

section Cut

variable {α : Type}

variable {trace : List α} {ok : List α → α → Prop} {p : α → Prop}

/-- An event of a grown trace is an old event or one of the new ones. -/
theorem append_eq_cut {new before after : List α} {event : α}
    (h : trace ++ new = before ++ event :: after) :
    (∃ rest, after = rest ++ new ∧ trace = before ++ event :: rest) ∨
      (∃ more, before = trace ++ more ∧ new = more ++ event :: after) := by
  rcases List.append_eq_append_iff.1 h with ⟨more, hb, hn⟩ | ⟨rest, ht, hn⟩
  · exact .inr ⟨more, hb, hn⟩
  · cases rest with
    | nil => exact .inr ⟨[], by simpa using ht.symm, by simpa using hn.symm⟩
    | cons e rest =>
      obtain ⟨rfl, rfl⟩ := List.cons.inj hn
      exact .inl ⟨rest, rfl, ht⟩

/-- Every event of the trace was allowed by what came before it. -/
def Always (ok : List α → α → Prop) (trace : List α) : Prop :=
  ∀ before event after, trace = before ++ event :: after → ok before event

theorem always_nil : Always ok [] := by
  intro before event after h
  simp at h

theorem Always.append {new : List α} (old : Always ok trace)
    (more : ∀ before event after, new = before ++ event :: after → ok (trace ++ before) event) :
    Always ok (trace ++ new) := by
  intro before event after h
  rcases append_eq_cut h with ⟨rest, -, ht⟩ | ⟨front, rfl, hn⟩
  · exact old before event rest ht
  · exact more front event after hn

theorem Always.snoc {event : α} (old : Always ok trace) (last : ok trace event) :
    Always ok (trace ++ [event]) := by
  refine old.append fun before e after h => ?_
  obtain ⟨rfl, rfl, rfl⟩ : before = [] ∧ e = event ∧ after = [] := by
    cases before <;> simp_all
  simpa using last

theorem Always.of_append {new : List α} (all : Always ok (trace ++ new)) : Always ok trace := by
  intro before event after h
  exact all before event (after ++ new) (by simp [h])

/-- The first event with a property. -/
theorem exists_first [DecidablePred p] (h : ∃ e ∈ trace, p e) :
    ∃ before event after, trace = before ++ event :: after ∧ p event ∧ ∀ e ∈ before, ¬ p e := by
  obtain ⟨event, hfind⟩ : ∃ event, trace.find? p = some event := by
    cases hf : trace.find? p with
    | some event => exact ⟨event, rfl⟩
    | none =>
      obtain ⟨e, hmem, hp⟩ := h
      exact absurd hp (by simpa using List.find?_eq_none.1 hf e hmem)
  obtain ⟨hp, before, after, rfl, hbefore⟩ := List.find?_eq_some_iff_append.1 hfind
  exact ⟨before, event, after, rfl, by simpa using hp, fun e he => by simpa using hbefore e he⟩

/-- Behind any event with a property there is a last one. -/
theorem exists_last [DecidablePred p] {before after : List α} {event : α} (h : p event) :
    ∃ more last rest, before ++ event :: after = before ++ more ++ last :: rest ∧ p last ∧
      ∀ e ∈ rest, ¬ p e := by
  have hsome : ∃ e ∈ (event :: after).reverse, p e := ⟨event, by simp, h⟩
  obtain ⟨front, last, back, heq, hp, hfront⟩ := exists_first hsome
  refine ⟨back.reverse, last, front.reverse, ?_, hp, ?_⟩
  · have := congrArg List.reverse heq
    rw [List.reverse_reverse] at this
    rw [this]
    simp
  · intro e he
    exact hfront e (List.mem_reverse.1 he)

end Cut

end Trace
