import Mail4Agent.Foundation.Data

/-!
# An index over the rows of a list

Rows may carry a key. An index maps a key to the position of the row that carries it.
`Indexes` says that it does so for every row and for nothing else, which includes that no
key occurs twice; `InRange` only says that positions exist. `build` computes an index from
the rows, and a later row wins over an earlier one with the same key.
-/

namespace RowIndex

variable {α κ : Type} [Ord κ] [Std.TransOrd κ] (key : α → Option κ)

/-- Enters the row at position `i`. -/
def add (index : BTreeMap κ Nat) (row : α) (i : Nat) : BTreeMap κ Nat :=
  match key row with
  | some k => index.insert k i
  | none => index

/-- The index of the rows, entered from the first to the last. -/
def build (rows : List α) : BTreeMap κ Nat :=
  rows.zipIdx.foldl (fun index entry => add key index entry.1 entry.2) ∅

/-- Every position of the index is a position of the rows. -/
def InRange (index : BTreeMap κ Nat) (rows : List α) : Prop :=
  ∀ (k : κ) (i : Nat), index[k]? = some i → i < rows.length

/-- The index names the position of every key, and no other. -/
def Indexes (index : BTreeMap κ Nat) (rows : List α) : Prop :=
  ∀ (k : κ) (i : Nat), index[k]? = some i ↔ rows[i]?.bind key = some k

variable {key} {index : BTreeMap κ Nat} {rows : List α} {row : α} {k : κ} {i j : Nat}

omit [Ord κ] [Std.TransOrd κ] in
/-- Rewriting a row keeps what the rewriting does not touch. -/
theorem map_modify {β : Type} {f : α → α} {g : α → β} (hf : ∀ row, g (f row) = g row) (i : Nat)
    (rows : List α) : (rows.modify i f).map g = rows.map g := by
  refine List.ext_getElem? fun j => ?_
  rw [List.getElem?_map, List.getElem?_map, List.getElem?_modify]
  cases rows[j]? with
  | none => rfl
  | some row => by_cases hij : i = j <;> simp [hij, hf]

omit [Ord κ] [Std.TransOrd κ] in
theorem modify_eq_set (hrow : rows[i]? = some row) (f : α → α) :
    rows.modify i f = rows.set i (f row) := by
  refine List.ext_getElem? fun j => ?_
  rw [List.getElem?_modify, List.getElem?_set]
  by_cases hij : i = j
  · subst hij
    rw [if_pos rfl, if_pos (List.getElem?_eq_some_iff.1 hrow).1, hrow]
    simp
  · simp [hij]

omit [Ord κ] [Std.TransOrd κ] in
theorem map_set {β : Type} {old : α} {g : α → β} (hold : rows[i]? = some old)
    (hg : g row = g old) : (rows.set i row).map g = rows.map g := by
  refine List.ext_getElem? fun j => ?_
  rw [List.getElem?_map, List.getElem?_map, List.getElem?_set]
  by_cases hij : i = j
  · subst hij
    rw [if_pos rfl, if_pos (List.getElem?_eq_some_iff.1 hold).1, hold, Option.map_some,
      Option.map_some, hg]
  · simp [hij]

omit [Ord κ] [Std.TransOrd κ] in
theorem getElem?_set_cases {new : α} {idx : Nat} (h : (rows.set idx new)[i]? = some row) :
    i = idx ∧ row = new ∨ rows[i]? = some row := by
  rw [List.getElem?_set] at h
  split_ifs at h with hi
  · exact .inl ⟨hi.symm, (Option.some.inj h).symm⟩
  · exact .inr h

omit [Ord κ] [Std.TransOrd κ] in
theorem getElem?_snoc {last : α} (hrow : (rows ++ [last])[i]? = some row) :
    rows[i]? = some row ∨ (i = rows.length ∧ row = last) := by
  rcases lt_trichotomy i rows.length with hi | rfl | hi
  · rw [List.getElem?_append_left hi] at hrow
    exact .inl hrow
  · rw [List.getElem?_append_right le_rfl, Nat.sub_self] at hrow
    exact .inr ⟨rfl, (Option.some.inj hrow).symm⟩
  · rw [List.getElem?_eq_none (by simpa using hi)] at hrow
    cases hrow

theorem build_append_singleton (rows : List α) (row : α) :
    build key (rows ++ [row]) = add key (build key rows) row rows.length := by
  simp [build, List.zipIdx_append]

theorem Indexes.inRange (h : Indexes key index rows) : InRange index rows := by
  intro k i hi
  obtain ⟨row, hrow, -⟩ := Option.bind_eq_some_iff.1 ((h k i).1 hi)
  exact (List.getElem?_eq_some_iff.1 hrow).1

theorem InRange.mono {rows' : List α} (h : InRange index rows)
    (hlength : rows.length ≤ rows'.length) : InRange index rows' :=
  fun k i hi => (h k i hi).trans_le hlength

theorem inRange_empty (rows : List α) : InRange (∅ : BTreeMap κ Nat) rows := by
  intro k i hi
  simp at hi

theorem indexes_empty : Indexes key (∅ : BTreeMap κ Nat) [] := by
  intro k i
  simp

section

variable (h : Indexes key index rows)

include h

/-- Positions with the same key are the same. -/
theorem Indexes.eq_of_key (hi : rows[i]?.bind key = some k) (hj : rows[j]?.bind key = some k) :
    i = j :=
  Option.some.inj (((h k i).2 hi).symm.trans ((h k j).2 hj))

/-- A position has one key. -/
theorem Indexes.key_eq {k' : κ} (hk : index[k]? = some i) (hk' : index[k']? = some i) : k = k' :=
  Option.some.inj (((h k i).1 hk).symm.trans ((h k' i).1 hk'))

theorem Indexes.getElem?_of_row (hrow : rows[i]? = some row) (hkey : key row = some k) :
    index[k]? = some i :=
  (h k i).2 (by rw [hrow]; exact hkey)

theorem Indexes.getElem?_eq_none_iff : index[k]? = none ↔ ∀ row ∈ rows, key row ≠ some k := by
  constructor
  · intro hnone row hrow hkey
    obtain ⟨i, hi⟩ := List.mem_iff_getElem?.1 hrow
    have hsome := (h k i).2 (by rw [hi]; exact hkey)
    rw [hnone] at hsome
    cases hsome
  · intro hrows
    cases hk : index[k]? with
    | none => rfl
    | some i =>
      obtain ⟨row, hrow, hkey⟩ := Option.bind_eq_some_iff.1 ((h k i).1 hk)
      exact absurd hkey (hrows row (List.mem_of_getElem? hrow))

/-- Rewriting rows without touching their keys leaves the index right. -/
theorem Indexes.congr {rows' : List α} (hkeys : rows'.map key = rows.map key) :
    Indexes key index rows' := by
  intro k i
  have hi : rows'[i]?.map key = rows[i]?.map key := by
    rw [← List.getElem?_map, ← List.getElem?_map, hkeys]
  have hbind : rows'[i]?.bind key = rows[i]?.bind key := by
    cases h' : rows'[i]? <;> cases h : rows[i]? <;> simp_all
  rw [hbind]
  exact h k i

/-- No key occurs twice in indexed rows. -/
theorem Indexes.nodup : (rows.filterMap key).Nodup := by
  rw [List.nodup_iff_pairwise_ne, List.pairwise_filterMap, List.pairwise_iff_getElem]
  intro i j hi hj hij k hk k' hk' heq
  subst heq
  refine hij.ne (h.eq_of_key (k := k) ?_ ?_)
  · simpa [List.getElem?_eq_getElem hi] using hk
  · simpa [List.getElem?_eq_getElem hj] using hk'

end

variable [Std.LawfulEqOrd κ] [DecidableEq κ]

theorem getElem?_add :
    (add key index row i)[k]? = if key row = some k then some i else index[k]? := by
  unfold add
  cases hrow : key row with
  | none => simp
  | some k' => simp [Std.ExtTreeMap.getElem?_insert]

theorem InRange.add (h : InRange index rows) (hi : i < rows.length) (row : α) :
    InRange (add key index row i) rows := by
  intro k j hj
  rw [getElem?_add] at hj
  split at hj
  · rwa [← Option.some.inj hj]
  · exact h k j hj

theorem inRange_build (rows : List α) : InRange (build key rows) rows := by
  induction rows using List.reverseRecOn with
  | nil => exact inRange_empty []
  | append_singleton rows row ih =>
    rw [build_append_singleton]
    exact (ih.mono (by simp)).add (by simp) row

/-- A row with a new key, or without one, is entered at the end. -/
theorem Indexes.push (h : Indexes key index rows)
    (hnew : ∀ k, key row = some k → index[k]? = none) :
    Indexes key (add key index row rows.length) (rows ++ [row]) := by
  intro k i
  rw [getElem?_add]
  rcases lt_trichotomy i rows.length with hi | rfl | hi
  · rw [List.getElem?_append_left hi, ← h k i]
    split
    · rename_i hkey
      simp [hnew k hkey, hi.ne']
    · rfl
  · rw [List.getElem?_append_right le_rfl]
    have hnone : index[k]? ≠ some rows.length := fun hsome => (h.inRange k _ hsome).false
    simp only [Nat.sub_self, List.getElem?_cons_zero, Option.bind_some]
    split <;> simp_all
  · have hout : (rows ++ [row])[i]? = none := by
      rw [List.getElem?_eq_none_iff]
      simpa using hi
    have hnone : index[k]? ≠ some i := fun hsome => absurd (h.inRange k i hsome) hi.not_gt
    rw [hout]
    split
    · simp [hi.ne]
    · simpa using hnone

/-- The row at `i` takes a key that is its own or that no row has. -/
theorem Indexes.set {old : α} (h : Indexes key index rows) (hold : rows[i]? = some old)
    (hkey : key row = some k) (hsame : key old = none ∨ key old = some k)
    (hfree : index[k]? = none ∨ index[k]? = some i) :
    Indexes key (index.insert k i) (rows.set i row) := by
  intro k' j
  have hlt : i < rows.length := (List.getElem?_eq_some_iff.1 hold).1
  rw [Std.ExtTreeMap.getElem?_insert, List.getElem?_set]
  by_cases hk : k = k'
  · subst hk
    simp only [Std.ReflCmp.compare_self, if_true]
    by_cases hj : i = j
    · subst hj
      simp [hlt, hkey]
    · have hother : rows[j]?.bind key ≠ some k := by
        intro hthere
        have := (h k j).2 hthere
        rcases hfree with hnone | hsome
        · rw [hnone] at this
          cases this
        · rw [hsome] at this
          exact hj (Option.some.inj this)
      simpa [hj] using hother
  · have hcmp : compare k k' ≠ .eq := fun heq => hk (Std.LawfulEqOrd.eq_of_compare heq)
    simp only [hcmp, if_false]
    by_cases hj : i = j
    · subst hj
      have hnot : index[k']? ≠ some i := by
        intro hsome
        have := (h k' i).1 hsome
        rw [hold, Option.bind_some] at this
        rcases hsame with hnone | hk'
        · rw [hnone] at this
          cases this
        · rw [hk'] at this
          exact hk (Option.some.inj this)
      simp [hlt, hkey, hk, hnot]
    · simpa [hj] using h k' j

theorem indexes_build (hnodup : (rows.filterMap key).Nodup) :
    Indexes key (build key rows) rows := by
  induction rows using List.reverseRecOn with
  | nil => exact indexes_empty
  | append_singleton rows row ih =>
    rw [List.filterMap_append, List.nodup_append] at hnodup
    obtain ⟨hrows, -, hdisjoint⟩ := hnodup
    rw [build_append_singleton]
    refine (ih hrows).push fun k hk => (ih hrows).getElem?_eq_none_iff.2 fun old hold hkey => ?_
    exact hdisjoint k (List.mem_filterMap.2 ⟨old, hold, hkey⟩) k (by simp [hk]) rfl

end RowIndex
