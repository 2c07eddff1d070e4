import Mathlib

/-!
# Growing histories

A history is a relation that leads from an entry to the entries it was made on
top of. Histories grow by one entry at a time: a new entry names parents that are
already there, and nothing that is already there names it. `Extends` states such a
step, and the lemmas below say what it does to ancestry.

The tips of a history are the entries a new one should be made on top of. A step
replaces the tips among the parents by the new entry. What it keeps is that every
live entry is a tip or lies behind one (`Covers.extend`). Whether the tips stay an
antichain depends on the tips the new entry did not name
(`isAntichain_advance_iff`).
-/

namespace Ancestry

variable {α : Type*} {prev next : α → α → Prop} {new x y : α} {parents : Set α}

/-- `x` is a strict ancestor of `y`. -/
def Ancestor (prev : α → α → Prop) (x y : α) : Prop := Relation.TransGen prev y x

theorem Ancestor.parent (h : prev y x) : Ancestor prev x y := .single h

theorem Ancestor.of_parent {p : α} (hp : prev y p) (h : Ancestor prev x p) : Ancestor prev x y :=
  .head hp h

theorem ancestor_iff : Ancestor prev x y ↔ ∃ p, prev y p ∧ (x = p ∨ Ancestor prev x p) := by
  constructor
  · intro h
    rcases Relation.TransGen.head'_iff.1 h with ⟨p, hp, hx⟩
    rcases Relation.reflTransGen_iff_eq_or_transGen.1 hx with rfl | hx
    · exact ⟨x, hp, .inl rfl⟩
    · exact ⟨p, hp, .inr hx⟩
  · rintro ⟨p, hp, rfl | hx⟩
    · exact .parent hp
    · exact .of_parent hp hx

theorem Ancestor.mono (hsub : ∀ a b, prev a b → next a b) (h : Ancestor prev x y) :
    Ancestor next x y :=
  Relation.TransGen.mono hsub y x h

/-- `next` is `prev` with one entry more, made on top of `parents`. -/
structure Extends (prev next : α → α → Prop) (new : α) (parents : Set α) : Prop where
  edge_iff : ∀ a b, next a b ↔ prev a b ∨ (a = new ∧ b ∈ parents)
  has_no_parent : ∀ b, ¬ prev new b
  has_no_child : ∀ a, ¬ prev a new
  notMem_parents : new ∉ parents

namespace Extends

section

variable (ext : Extends prev next new parents)

include ext

theorem mono (a b : α) (h : prev a b) : next a b :=
  (ext.edge_iff a b).2 (.inl h)

theorem edge_of_ne {a b : α} (ha : a ≠ new) : next a b ↔ prev a b := by
  rw [ext.edge_iff]
  exact ⟨fun h => h.resolve_right fun h => ha h.1, .inl⟩

/-- Old entries keep the ancestors they had. -/
theorem ancestor_of_ne (hy : y ≠ new) : Ancestor next x y ↔ Ancestor prev x y := by
  refine ⟨fun h => ?_, fun h => h.mono ext.mono⟩
  induction h using Relation.TransGen.head_induction_on with
  | single h => exact .parent ((ext.edge_of_ne hy).1 h)
  | head hp _ ih =>
    have hp := (ext.edge_of_ne hy).1 hp
    refine .of_parent hp (ih ?_)
    rintro rfl
    exact ext.has_no_child _ hp

/-- The new entry has its parents and their ancestors behind it. -/
theorem ancestor_new : Ancestor next x new ↔ ∃ p ∈ parents, x = p ∨ Ancestor prev x p := by
  have edge (p : α) : next new p ↔ p ∈ parents := by
    rw [ext.edge_iff]
    exact ⟨fun h => (h.resolve_left (ext.has_no_parent p)).2, fun h => .inr ⟨rfl, h⟩⟩
  have ne_new {p : α} (hp : p ∈ parents) : p ≠ new := fun h => ext.notMem_parents (h ▸ hp)
  rw [ancestor_iff]
  constructor
  · rintro ⟨p, hp, hx⟩
    have hp := (edge p).1 hp
    exact ⟨p, hp, hx.imp_right (ext.ancestor_of_ne (ne_new hp)).1⟩
  · rintro ⟨p, hp, hx⟩
    exact ⟨p, (edge p).2 hp, hx.imp_right (ext.ancestor_of_ne (ne_new hp)).2⟩

/-- Nothing old lies behind the new entry's back. -/
theorem not_ancestor_of_new (hy : y ≠ new) : ¬ Ancestor next new y := by
  rw [ext.ancestor_of_ne hy]
  intro h
  obtain ⟨a, -, ha⟩ := Relation.TransGen.tail'_iff.1 h
  exact ext.has_no_child a ha

end

end Extends

/-! ### Tips -/

/-- The tips after an entry made on top of `parents`. -/
def advance (tips : Set α) (new : α) (parents : Set α) : Set α := insert new (tips \ parents)

/-- Every live entry is a tip or an ancestor of one. -/
def Covers (prev : α → α → Prop) (tips live : Set α) : Prop :=
  ∀ x ∈ live, x ∈ tips ∨ ∃ y ∈ tips, Ancestor prev x y

variable {tips live : Set α}

theorem Covers.extend (covers : Covers prev tips live) (ext : Extends prev next new parents) :
    Covers next (advance tips new parents) (insert new live) := by
  intro x hx
  rcases hx with rfl | hx
  · exact .inl (.inl rfl)
  -- A tip that lost its place is a parent of the new entry.
  rcases covers x hx with htip | ⟨y, hy, hxy⟩
  · by_cases hp : x ∈ parents
    · exact .inr ⟨new, .inl rfl, ext.ancestor_new.2 ⟨x, hp, .inl rfl⟩⟩
    · exact .inl (.inr ⟨htip, hp⟩)
  · by_cases hp : y ∈ parents
    · exact .inr ⟨new, .inl rfl, ext.ancestor_new.2 ⟨y, hp, .inr hxy⟩⟩
    · exact .inr ⟨y, .inr ⟨hy, hp⟩, hxy.mono ext.mono⟩

/-- Entries that are no tips may be added without touching the tips. -/
theorem Covers.mono (covers : Covers prev tips live) (hsub : ∀ a b, prev a b → next a b) :
    Covers next tips live := by
  intro x hx
  exact (covers x hx).imp_right fun ⟨y, hy, hxy⟩ => ⟨y, hy, hxy.mono hsub⟩

theorem isAntichain_of_notMem (ext : Extends prev next new parents) (hnew : new ∉ tips) :
    IsAntichain (Ancestor next) tips ↔ IsAntichain (Ancestor prev) tips := by
  have same : ∀ x ∈ tips, ∀ y ∈ tips, Ancestor next x y ↔ Ancestor prev x y :=
    fun x _ y hy => ext.ancestor_of_ne fun h => hnew (h ▸ hy)
  constructor
  · intro h x hx y hy hxy hlt
    exact h hx hy hxy ((same x hx y hy).2 hlt)
  · intro h x hx y hy hxy hlt
    exact h hx hy hxy ((same x hx y hy).1 hlt)

/-- The tips stay an antichain exactly if none that keeps its place lies behind a
parent of the new entry. -/
theorem isAntichain_advance_iff (ext : Extends prev next new parents) (hnew : new ∉ tips)
    (before : IsAntichain (Ancestor prev) tips) :
    IsAntichain (Ancestor next) (advance tips new parents) ↔
      ∀ x ∈ tips, x ∉ parents → ∀ p ∈ parents, ¬ Ancestor prev x p := by
  have ne_new {x : α} (hx : x ∈ tips) : x ≠ new := fun h => hnew (h ▸ hx)
  constructor
  · intro h x hx hxp p hp hlt
    refine h (.inr ⟨hx, hxp⟩) (.inl rfl) (ne_new hx) ?_
    exact ext.ancestor_new.2 ⟨p, hp, .inr hlt⟩
  · intro h x hx y hy hxy hlt
    rcases hx with rfl | ⟨hx, hxp⟩
    · exact ext.not_ancestor_of_new (Ne.symm hxy) hlt
    rcases hy with rfl | ⟨hy, -⟩
    · obtain ⟨p, hp, rfl | hlt⟩ := ext.ancestor_new.1 hlt
      · exact hxp hp
      · exact h x hx hxp p hp hlt
    · exact before hx hy hxy ((ext.ancestor_of_ne (ne_new hy)).1 hlt)

end Ancestry
