import Mathlib

/-!
# Transactions

A `Transaction` reads and changes a store and either returns a result or is refused.
A refused one leaves no trace: `settle` is the store after it. The simp lemmas
`*_ok` say when a transaction built from the primitives succeeds and with which
store, so that a proof can walk through its steps backwards.

`Keeps R` says that the transaction only moves the store along `R`, with one rule
for each way of building a transaction.

A `Session` is a request that commits several transactions one after another. What it
committed before an error stays.
-/

namespace Except

variable {ε ε' α β : Type}

variable {x : Except ε α} {f : α → Except ε β} {a : α} {items : List α} {results : List β}

@[simp] theorem bind_eq_ok {b : β} :
    (x >>= f) = .ok b ↔ ∃ a, x = .ok a ∧ f a = .ok b := by
  cases x with
  | error e => simp [bind, Except.bind]
  | ok a => simp [bind, Except.bind]

@[simp] theorem pure_eq_ok {b : α} : (pure a : Except ε α) = .ok b ↔ a = b := by
  simp [pure, Except.pure]

@[simp] theorem mapError_eq_ok {f : ε → ε'} :
    x.mapError f = .ok a ↔ x = .ok a := by
  cases x <;> simp [Except.mapError]

/-- A step on every element succeeds if it succeeds on each of them. -/
theorem mapM_eq_ok :
    items.mapM f = .ok results ↔ List.Forall₂ (fun a b => f a = .ok b) items results := by
  induction items generalizing results with
  | nil =>
    rw [List.mapM_nil, pure_eq_ok, List.forall₂_nil_left_iff]
    exact eq_comm
  | cons a rest ih =>
    simp only [List.mapM_cons, bind_eq_ok, pure_eq_ok, ih, List.forall₂_cons_left_iff]
    constructor
    · rintro ⟨b, hb, bs, hbs, rfl⟩
      exact ⟨b, bs, hb, hbs, rfl⟩
    · rintro ⟨b, bs, hb, hbs, rfl⟩
      exact ⟨b, hb, bs, hbs, rfl⟩

theorem mapM_congr {g : α → Except ε β} (h : ∀ a ∈ items, f a = g a) :
    items.mapM f = items.mapM g := by
  induction items with
  | nil => rfl
  | cons a rest ih =>
    obtain ⟨ha, hrest⟩ := List.forall_mem_cons.1 h
    rw [List.mapM_cons, List.mapM_cons, ha, ih hrest]

theorem exists_of_mapM_eq_ok (h : items.mapM f = .ok results) :
    (∀ a ∈ items, ∃ b ∈ results, f a = .ok b) ∧ ∀ b ∈ results, ∃ a ∈ items, f a = .ok b := by
  rw [mapM_eq_ok] at h
  induction h with
  | nil => simp
  | cons hab _ ih =>
    constructor
    · refine List.forall_mem_cons.2 ⟨⟨_, List.mem_cons_self, hab⟩, fun a ha => ?_⟩
      obtain ⟨b, hb, h⟩ := ih.1 a ha
      exact ⟨b, List.mem_cons_of_mem _ hb, h⟩
    · refine List.forall_mem_cons.2 ⟨⟨_, List.mem_cons_self, hab⟩, fun b hb => ?_⟩
      obtain ⟨a, ha, h⟩ := ih.2 b hb
      exact ⟨a, List.mem_cons_of_mem _ ha, h⟩

theorem forM_eq_ok {f : α → Except ε Unit} : items.forM f = .ok () ↔ ∀ a ∈ items, f a = .ok () := by
  induction items with
  | nil => simp [List.forM]
  | cons a rest ih =>
    rw [List.forM, bind_eq_ok, List.forall_mem_cons, ← ih]
    exact ⟨fun ⟨_, ha, hrest⟩ => ⟨ha, hrest⟩, fun ⟨ha, hrest⟩ => ⟨(), ha, hrest⟩⟩

end Except

/-- A change of a store `σ` that returns an `α`, or a refusal. -/
def Transaction (σ ε α : Type) : Type := σ → Except ε (α × σ)

namespace Transaction

variable {σ ε α β : Type}

instance : Monad (Transaction σ ε) where
  pure a s := .ok (a, s)
  bind x f s := match x s with
    | .ok (a, s') => f a s'
    | .error e => .error e

def query (q : σ → α) : Transaction σ ε α := fun s => .ok (q s, s)

def change (f : σ → σ) : Transaction σ ε Unit := fun s => .ok ((), f s)

def refuse (e : ε) : Transaction σ ε α := fun _ => .error e

/-- A computation that does not touch the store. -/
def lift (x : Except ε α) : Transaction σ ε α := fun s => x.map fun a => (a, s)

/-- `none` is a refusal. -/
def required (e : ε) (x : Option α) : Transaction σ ε α := fun s =>
  match x with
  | some a => .ok (a, s)
  | none => .error e

/-- The same transaction with its refusals described differently. -/
def mapError {ε' : Type} (f : ε → ε') (tx : Transaction σ ε α) : Transaction σ ε' α :=
  fun s => (tx s).mapError f

/-- `f` on every element, in order. -/
def each (f : α → Transaction σ ε Unit) : List α → Transaction σ ε Unit
  | [] => pure ()
  | a :: rest => do
    f a
    each f rest

/-- The store after the transaction has been committed or rolled back. -/
def settle (tx : Transaction σ ε α) (s : σ) : σ :=
  match tx s with
  | .ok (_, s') => s'
  | .error _ => s

section Success

variable {s t : σ} {a b : α}

@[simp] theorem pure_ok : (pure a : Transaction σ ε α) s = .ok (b, t) ↔ a = b ∧ s = t := by
  simp [pure]

@[simp] theorem bind_ok {x : Transaction σ ε α} {f : α → Transaction σ ε β} {b : β} :
    (x >>= f) s = .ok (b, t) ↔ ∃ a u, x s = .ok (a, u) ∧ f a u = .ok (b, t) := by
  cases h : x s with
  | error e => simp [bind, h]
  | ok r => simp [bind, h, Prod.ext_iff]

@[simp] theorem query_ok {q : σ → α} :
    (query q : Transaction σ ε α) s = .ok (a, t) ↔ q s = a ∧ s = t := by
  simp [query]

@[simp] theorem change_ok {f : σ → σ} {u : Unit} :
    (change f : Transaction σ ε Unit) s = .ok (u, t) ↔ f s = t := by
  simp [change]

variable {e : ε}

@[simp] theorem refuse_ok :
    (refuse e : Transaction σ ε α) s = .ok (a, t) ↔ False := by
  simp [refuse]

@[simp] theorem lift_ok {x : Except ε α} :
    (lift x : Transaction σ ε α) s = .ok (a, t) ↔ x = .ok a ∧ s = t := by
  cases x <;> simp [lift, Except.map]

@[simp] theorem required_ok {x : Option α} :
    (required e x : Transaction σ ε α) s = .ok (a, t) ↔ x = some a ∧ s = t := by
  cases x <;> simp [required]

@[simp] theorem mapError_ok {ε' : Type} {f : ε → ε'} {tx : Transaction σ ε α} :
    (tx.mapError f) s = .ok (a, t) ↔ tx s = .ok (a, t) := by
  simp [mapError]

/-- After a transaction the store is what it was, or what a success left. -/
theorem settle_cases (tx : Transaction σ ε α) (s : σ) :
    (∃ e, tx s = .error e ∧ tx.settle s = s) ∨ ∃ a, tx s = .ok (a, tx.settle s) := by
  cases h : tx s with
  | error e => exact .inl ⟨e, rfl, by simp [settle, h]⟩
  | ok r => exact .inr ⟨r.1, by simp [settle, h]⟩

end Success

/-- The transaction succeeds on this store. -/
def Accepts (tx : Transaction σ ε α) (s : σ) : Prop := ∃ a t, tx s = .ok (a, t)

/-- The transaction moves the store along `R`. -/
def Keeps (R : σ → σ → Prop) (tx : Transaction σ ε α) : Prop :=
  ∀ s a t, tx s = .ok (a, t) → R s t

section Keeps

variable {R : σ → σ → Prop}

theorem Keeps.bind [IsTrans σ R] {x : Transaction σ ε α} {f : α → Transaction σ ε β}
    (hx : Keeps R x) (hf : ∀ a, Keeps R (f a)) : Keeps R (x >>= f) := by
  intro s b t h
  obtain ⟨a, u, hx', hf'⟩ := bind_ok.1 h
  exact trans_of R (hx s a u hx') (hf a u b t hf')

theorem keeps_pure [Std.Refl R] (a : α) : Keeps R (pure a : Transaction σ ε α) := by
  intro s b t h
  rw [← (pure_ok.1 h).2]
  exact refl s

theorem keeps_query [Std.Refl R] (q : σ → α) : Keeps R (query q : Transaction σ ε α) := by
  intro s a t h
  rw [← (query_ok.1 h).2]
  exact refl s

theorem keeps_required [Std.Refl R] (e : ε) (x : Option α) :
    Keeps R (required e x : Transaction σ ε α) := by
  intro s a t h
  rw [← (required_ok.1 h).2]
  exact refl s

theorem keeps_change {f : σ → σ} (h : ∀ s, R s (f s)) :
    Keeps R (change f : Transaction σ ε Unit) := by
  intro s a t hok
  rw [← change_ok.1 hok]
  exact h s

theorem Keeps.each [Std.Refl R] [IsTrans σ R] {f : α → Transaction σ ε Unit}
    (hf : ∀ a, Keeps R (f a)) (items : List α) : Keeps R (each f items) := by
  induction items with
  | nil => exact keeps_pure ()
  | cons a rest ih => exact (hf a).bind fun _ => ih

end Keeps

/-- The store looks the same through `view`. -/
def Same {β : Type} (view : σ → β) (s t : σ) : Prop := view t = view s

instance {β : Type} (view : σ → β) : Std.Refl (Same view) := ⟨fun _ => rfl⟩

instance {β : Type} (view : σ → β) : IsTrans σ (Same view) :=
  ⟨fun _ _ _ h h' => Eq.trans h' h⟩

end Transaction

/-- Transactions committed one after another: the result, and the store in any case. -/
def Session (σ ε α : Type) : Type := σ → Except ε α × σ

namespace Session

variable {σ ε α β : Type} {R : σ → σ → Prop}

instance : Monad (Session σ ε) where
  pure a s := (.ok a, s)
  bind x f s := match x s with
    | (.ok a, s') => f a s'
    | (.error e, s') => (.error e, s')

def query (q : σ → α) : Session σ ε α := fun s => (.ok (q s), s)

/-- A computation that does not touch the store. -/
def lift (x : Except ε α) : Session σ ε α := fun s => (x, s)

/-- One transaction. -/
def commit (tx : Transaction σ ε α) : Session σ ε α := fun s =>
  match tx s with
  | .ok (a, s') => (.ok a, s')
  | .error e => (.error e, s)

/-- `f` on every element, in order. -/
def each (f : α → Session σ ε β) : List α → Session σ ε (List β)
  | [] => pure []
  | a :: rest => do
    let b ← f a
    let more ← each f rest
    return b :: more

section Success

variable {s t : σ} {a b : α}

@[simp] theorem pure_ok : (pure a : Session σ ε α) s = (.ok b, t) ↔ a = b ∧ s = t := by
  simp [pure]

end Success

/-- After a transaction and what follows it: either it was refused, or it was not. -/
theorem commit_bind {P : σ → Prop} {tx : Transaction σ ε α} {f : α → Session σ ε β} {s : σ}
    (hrefused : P s) (hdone : ∀ a t, tx s = .ok (a, t) → P (f a t).2) :
    P ((commit tx >>= f) s).2 := by
  cases htx : tx s with
  | error e => simpa [bind, commit, htx] using hrefused
  | ok r => simpa [bind, commit, htx] using hdone r.1 r.2 htx

/-- The session moves the store along `R`, however it ends. -/
def Keeps (R : σ → σ → Prop) (x : Session σ ε α) : Prop := ∀ s, R s (x s).2

theorem keeps_pure [Std.Refl R] (a : α) : Keeps R (pure a : Session σ ε α) := fun s => refl s

theorem keeps_query [Std.Refl R] (q : σ → α) : Keeps R (query q : Session σ ε α) := fun s => refl s

theorem keeps_lift [Std.Refl R] (x : Except ε α) : Keeps R (lift x : Session σ ε α) :=
  fun s => refl s

theorem keeps_commit [Std.Refl R] {tx : Transaction σ ε α} (h : tx.Keeps R) :
    Keeps R (commit tx) := by
  intro s
  unfold commit
  cases htx : tx s with
  | error e => exact refl s
  | ok r => exact h s r.1 r.2 htx

variable {f : α → Session σ ε β}

theorem Keeps.bind [IsTrans σ R] {x : Session σ ε α} (hx : Keeps R x) (hf : ∀ a, Keeps R (f a)) :
    Keeps R (x >>= f) := by
  intro s
  have hfirst := hx s
  cases hxs : x s with
  | mk result t =>
    rw [hxs] at hfirst
    cases result with
    | error e => simpa [Bind.bind, hxs] using hfirst
    | ok a => simpa [Bind.bind, hxs] using trans_of R hfirst (hf a t)

theorem keeps_each [Std.Refl R] [IsTrans σ R] {items : List α} (hf : ∀ a ∈ items, Keeps R (f a)) :
    Keeps R (each f items) := by
  induction items with
  | nil => exact keeps_pure []
  | cons a rest ih =>
    obtain ⟨hfirst, hrest⟩ := List.forall_mem_cons.1 hf
    exact hfirst.bind fun _ => (ih hrest).bind fun _ => keeps_pure _

theorem Keeps.each [Std.Refl R] [IsTrans σ R] (hf : ∀ a, Keeps R (f a)) (items : List α) :
    Keeps R (each f items) :=
  keeps_each fun a _ => hf a

/-- What the session returns has the property, whatever store it starts from. -/
def Gives (x : Session σ ε α) (post : α → Prop) : Prop := ∀ s a, (x s).1 = .ok a → post a

section Gives

variable {x : Session σ ε α} {f : α → Session σ ε β} {post : β → Prop}

theorem gives_pure {b : β} (h : post b) : Gives (pure b : Session σ ε β) post := by
  intro s b' hb
  cases hb
  exact h

theorem Gives.bind {first : α → Prop} (hx : Gives x first) (hf : ∀ a, first a → Gives (f a) post) :
    Gives (x >>= f) post := by
  intro s b hb
  cases hxs : x s with
  | mk result t =>
    cases result with
    | error e => simp [Bind.bind, hxs] at hb
    | ok a => exact hf a (hx s a (by rw [hxs])) t b (by simpa [Bind.bind, hxs] using hb)

theorem gives_true (x : Session σ ε α) : Gives x fun _ => True := fun _ _ _ => trivial

theorem gives_of_bind (hf : ∀ a, Gives (f a) post) : Gives (x >>= f) post :=
  (gives_true x).bind fun a _ => hf a

theorem gives_each {rel : α → β → Prop} (hf : ∀ a, Gives (f a) (rel a)) (items : List α) :
    Gives (each f items) (List.Forall₂ rel items) := by
  induction items with
  | nil => exact gives_pure .nil
  | cons a rest ih =>
    exact (hf a).bind fun b hb => ih.bind fun more hmore => gives_pure (.cons hb hmore)

end Gives

section Takes

variable {τ : Type} {view : σ → List τ} {held : List τ}

/-- What a result carries; an error carries nothing. -/
def carried (tokens : α → List τ) : Except ε α → List τ
  | .ok a => tokens a
  | .error _ => []

/-- Starting with the tokens `held` in hand, every token the result carries was in hand or
was taken out of the store, as often as it is carried. Tokens may be lost on the way. -/
def Takes (view : σ → List τ) (held : List τ) (tokens : α → List τ) (x : Session σ ε α) : Prop :=
  ∀ s, ∃ lost, (carried tokens (x s).1 ++ lost ++ view (x s).2).Perm (held ++ view s)

theorem takes_pure {tokens : α → List τ} (a : α) :
    Takes view (tokens a) tokens (pure a : Session σ ε α) :=
  fun s => ⟨[], by rw [List.append_nil]; exact .refl _⟩

/-- Reading takes nothing. -/
theorem takes_query (q : σ → α) : Takes view held (fun _ => held) (query q : Session σ ε α) :=
  fun s => ⟨[], by rw [List.append_nil]; exact .refl _⟩

/-- An error loses what was in hand. -/
theorem takes_error {tokens : α → List τ} (e : ε) :
    Takes view held tokens (lift (.error e) : Session σ ε α) :=
  fun s => ⟨held, by simp [lift, carried]⟩

/-- A transaction whose success moves tokens from the store to its result. -/
theorem takes_commit {tokens : α → List τ} {tx : Transaction σ ε α}
    (h : ∀ s a t, tx s = .ok (a, t) → (tokens a ++ view t).Perm (view s)) :
    Takes view [] tokens (commit tx) := by
  intro s
  refine ⟨[], ?_⟩
  unfold commit
  cases htx : tx s with
  | error e => exact .refl _
  | ok r => simpa [carried] using h s r.1 r.2 htx

variable {x : Session σ ε α} {f : α → Session σ ε β}

theorem Takes.bind {first : α → List τ} {tokens : β → List τ} (hx : Takes view held first x)
    (hf : ∀ a, Takes view (first a) tokens (f a)) : Takes view held tokens (x >>= f) := by
  intro s
  obtain ⟨lost, hlost⟩ := hx s
  cases hxs : x s with
  | mk result t =>
    rw [hxs] at hlost
    cases result with
    | error e => exact ⟨lost, by simpa [Bind.bind, hxs, carried] using hlost⟩
    | ok a =>
      obtain ⟨lost', hlost'⟩ := hf a t
      refine ⟨lost' ++ lost, ?_⟩
      simp only [Bind.bind, hxs]
      rw [← Multiset.coe_eq_coe] at hlost hlost' ⊢
      simp only [carried, ← Multiset.coe_add] at hlost hlost' ⊢
      rw [← hlost, add_right_comm (first a : Multiset τ), ← hlost']
      abel

/-- What is in hand besides stays in hand. -/
theorem Takes.frame {tokens : α → List τ} (hx : Takes view held tokens x) (extra : List τ) :
    Takes view (extra ++ held) (fun a => extra ++ tokens a) x := by
  intro s
  obtain ⟨lost, hlost⟩ := hx s
  cases hresult : (x s).1 with
  | error e =>
    rw [hresult] at hlost
    exact ⟨extra ++ lost, by simpa [carried, List.perm_append_left_iff] using hlost⟩
  | ok a =>
    rw [hresult] at hlost
    exact ⟨lost, by simpa [carried, List.perm_append_left_iff] using hlost⟩

theorem Takes.each {tokens : β → List τ} (hf : ∀ a, Takes view [] tokens (f a)) (items : List α) :
    Takes view [] (List.flatMap tokens) (each f items) := by
  induction items with
  | nil => exact takes_pure []
  | cons a rest ih =>
    refine (hf a).bind fun b => ?_
    have hrest := ih.frame (tokens b)
    rw [List.append_nil] at hrest
    exact hrest.bind fun more => takes_pure (b :: more)

end Takes

end Session
