import Mathlib

/-!
# Closing a set by a worklist

`closure nodes next seen todo` takes entries off a stack until it is empty. An
entry that was not seen yet is marked as seen, and what follows it is pushed; only
entries of `nodes` are followed by anything, so the search ends.

`closure_invariant` is the rule for properties of the result. `closure_congr` says
that the result depends on the graph only where the search goes.
-/

namespace Worklist

variable {α : Type*} [DecidableEq α]

/-- How many nodes are still unseen. -/
def unseen (nodes seen : List α) : ℕ := (nodes.filter (· ∉ seen)).length

theorem unseen_cons_lt {nodes seen : List α} {x : α} (hx : x ∈ nodes) (hseen : x ∉ seen) :
    unseen nodes (x :: seen) < unseen nodes seen := by
  unfold unseen
  have hsub : nodes.filter (· ∉ x :: seen) = (nodes.filter (· ∉ seen)).filter (· ≠ x) := by
    rw [List.filter_filter]
    refine List.filter_congr fun y _ => ?_
    simp [not_or]
  rw [hsub]
  exact List.length_filter_lt_length_iff_exists.2
    ⟨x, List.mem_filter.2 ⟨hx, by simpa using hseen⟩, by simp⟩

theorem unseen_cons_of_notMem {nodes seen : List α} {x : α} (hx : x ∉ nodes) :
    unseen nodes (x :: seen) = unseen nodes seen := by
  unfold unseen
  congr 1
  refine List.filter_congr fun y hy => ?_
  have : y ≠ x := fun h => hx (h ▸ hy)
  simp [this]

/-- The more is seen, the less is unseen. -/
theorem unseen_mono {nodes seen more : List α} (h : ∀ x ∈ seen, x ∈ more) :
    unseen nodes more ≤ unseen nodes seen := by
  unfold unseen
  have hsub : nodes.filter (· ∉ more) = (nodes.filter (· ∉ seen)).filter (· ∉ more) := by
    rw [List.filter_filter]
    refine List.filter_congr fun y _ => ?_
    by_cases hy : y ∈ more
    · simp [hy]
    · have hseen : y ∉ seen := fun hseen => hy (h y hseen)
      simp [hy, hseen]
  rw [hsub]
  exact List.length_filter_le _ _

theorem unseen_append_lt {nodes seen new : List α} (hnew : new ≠ [])
    (h : ∀ x ∈ new, x ∈ nodes ∧ x ∉ seen) :
    unseen nodes (new ++ seen) < unseen nodes seen := by
  obtain ⟨x, rest, rfl⟩ := List.exists_cons_of_ne_nil hnew
  obtain ⟨hx, hseen⟩ := h x List.mem_cons_self
  refine (unseen_mono fun y hy => ?_).trans_lt (unseen_cons_lt hx hseen)
  rcases List.mem_cons.1 hy with rfl | hy
  · exact List.mem_cons_self
  · exact List.mem_append_right _ hy

def closure (nodes : List α) (next : α → List α) (seen todo : List α) : List α :=
  match todo with
  | [] => seen
  | x :: todo =>
    if x ∈ seen then closure nodes next seen todo
    else if x ∈ nodes then closure nodes next (x :: seen) (next x ++ todo)
    else closure nodes next (x :: seen) todo
termination_by (unseen nodes seen, todo.length)
decreasing_by
  · exact Prod.Lex.right _ (by simp)
  · exact Prod.Lex.left _ _ (unseen_cons_lt ‹_› ‹_›)
  · rw [unseen_cons_of_notMem ‹_›]
    exact Prod.Lex.right _ (by simp)

variable {nodes nodes' : List α} {next next' : α → List α}

/-- What holds at the start and is handed on along the graph holds for everything
the search meets. -/
theorem closure_invariant (inv : α → Prop)
    (preserved : ∀ x ∈ nodes, inv x → ∀ y ∈ next x, inv y) {seen todo : List α}
    (hseen : ∀ x ∈ seen, inv x) (htodo : ∀ x ∈ todo, inv x) :
    ∀ x ∈ closure nodes next seen todo, inv x := by
  fun_induction closure nodes next seen todo with
  | case1 seen => exact hseen
  | case2 seen x todo _ ih => exact ih hseen (List.forall_mem_cons.1 htodo).2
  | case3 seen x todo _ hx ih =>
    obtain ⟨hinv, htodo⟩ := List.forall_mem_cons.1 htodo
    refine ih (List.forall_mem_cons.2 ⟨hinv, hseen⟩) fun y hy => ?_
    rcases List.mem_append.1 hy with hy | hy
    · exact preserved x hx hinv y hy
    · exact htodo y hy
  | case4 seen x todo _ _ ih =>
    obtain ⟨hinv, htodo⟩ := List.forall_mem_cons.1 htodo
    exact ih (List.forall_mem_cons.2 ⟨hinv, hseen⟩) htodo

/-- Two graphs that agree on a region no edge leaves are searched alike from
inside it. -/
theorem closure_congr (region : α → Prop)
    (same : ∀ x, region x → (x ∈ nodes' ↔ x ∈ nodes) ∧ next' x = next x)
    (closed : ∀ x ∈ nodes, region x → ∀ y ∈ next x, region y) {seen todo : List α}
    (htodo : ∀ x ∈ todo, region x) :
    closure nodes' next' seen todo = closure nodes next seen todo := by
  fun_induction closure nodes next seen todo with
  | case1 seen => rw [closure]
  | case2 seen x todo hseen ih =>
    rw [closure, if_pos hseen, ih (List.forall_mem_cons.1 htodo).2]
  | case3 seen x todo hseen hx ih =>
    obtain ⟨hreg, htodo⟩ := List.forall_mem_cons.1 htodo
    rw [closure, if_neg hseen, if_pos ((same x hreg).1.2 hx), (same x hreg).2]
    refine ih fun y hy => ?_
    rcases List.mem_append.1 hy with hy | hy
    · exact closed x hx hreg y hy
    · exact htodo y hy
  | case4 seen x todo hseen hx ih =>
    obtain ⟨hreg, htodo⟩ := List.forall_mem_cons.1 htodo
    rw [closure, if_neg hseen, if_neg fun h => hx ((same x hreg).1.1 h), ih htodo]

end Worklist
