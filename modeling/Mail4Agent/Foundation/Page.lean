import Mathlib

/-!
# Pages of an ordered collection

`select key limit rows` is the answer of a query that orders its rows by a key
and cuts the answer at a limit. `IsPage` says what such an answer is, without
saying how it was computed: the `limit` smallest elements of a collection, in
ascending order. Pages of two collections cut at the same limit merge into the
page of their union, so a reader may query two tables and merge afterwards.

A descending query is a page for the dual order of its key.

`readPages` reads an ordered collection page by page, until a page is not full or
holds a row at which reading has to stop.
-/

namespace Page

variable {α κ : Type} [LinearOrder κ]

/-- The rows in ascending order of `key`, cut at `limit`. -/
def select (key : α → κ) (limit : Nat) (rows : List α) : List α :=
  (rows.insertionSort fun a b => key a ≤ key b).take limit

/-- `page` lists the `limit` smallest elements of `items` by `key`, ascending. -/
structure IsPage (key : α → κ) (limit : Nat) (items : Set α) (page : List α) : Prop where
  sorted : page.Pairwise (key · < key ·)
  mem_items : ∀ x ∈ page, x ∈ items
  length_le : page.length ≤ limit
  /-- What is left out is beyond a full page. -/
  left_out : ∀ x ∈ items, x ∉ page → page.length = limit ∧ ∀ y ∈ page, key y < key x

variable {rows : List α} {x : α}

theorem mem_of_mem_select {key : α → κ} {limit : Nat} (h : x ∈ select key limit rows) : x ∈ rows :=
  (List.mem_insertionSort _).mp (List.mem_of_mem_take h)

@[simp] theorem length_select (key : α → κ) (limit : Nat) (rows : List α) :
    (select key limit rows).length = min limit rows.length := by
  simp [select]

namespace IsPage

variable {key : α → κ} {limit : Nat} {items : Set α} {page : List α} {x y : α}

section

variable (h : IsPage key limit items page)

include h

/-- Whatever lies before an element of the page is on the page. -/
theorem mem_of_lt (hx : x ∈ items) (hy : y ∈ page) (hlt : key x < key y) : x ∈ page := by
  by_contra hout
  exact lt_asymm hlt ((h.left_out x hx hout).2 y hy)

theorem nodup : page.Nodup :=
  h.sorted.imp fun hlt heq => hlt.ne (congrArg key heq)

/-- The first elements of a page are a page. -/
theorem take {shorter : Nat} (hle : shorter ≤ limit) :
    IsPage key shorter items (page.take shorter) := by
  refine ⟨h.sorted.sublist (List.take_sublist _ _),
    fun y hy => h.mem_items y (List.mem_of_mem_take hy), by simp, fun z hz hout => ?_⟩
  by_cases hpage : z ∈ page
  · -- on the page, but behind the cut
    have hsplit := hpage
    have hsorted := h.sorted
    rw [← List.take_append_drop shorter page] at hsplit hsorted
    have hdrop := (List.mem_append.mp hsplit).resolve_left hout
    have hpos := List.length_pos_of_mem hdrop
    rw [List.length_drop] at hpos
    exact ⟨by rw [List.length_take]; omega,
      fun y hy => (List.pairwise_append.mp hsorted).2.2 y hy z hdrop⟩
  · obtain ⟨hfull, hlt⟩ := h.left_out z hz hpage
    exact ⟨by rw [List.length_take]; omega, fun y hy => hlt y (List.mem_of_mem_take hy)⟩

/-- More elements than the limit fill the page. -/
theorem length_eq_of_notMem (hx : x ∈ items) (hout : x ∉ page) :
    page.length = limit := (h.left_out x hx hout).1

end

end IsPage

variable {key : α → κ} {limit : Nat}

section

variable (hdistinct : rows.Pairwise (key · ≠ key ·))

include hdistinct

private theorem pairwise_lt_insertionSort :
    (rows.insertionSort fun a b => key a ≤ key b).Pairwise (key · < key ·) := by
  have hle : (rows.insertionSort fun a b => key a ≤ key b).Pairwise (key · ≤ key ·) :=
    List.pairwise_insertionSort _ rows
  have hne : (rows.insertionSort fun a b => key a ≤ key b).Pairwise (key · ≠ key ·) :=
    (List.perm_insertionSort _ rows).symm.pairwise hdistinct fun hab => hab.symm
  exact (hle.and hne).imp fun h => lt_of_le_of_ne h.1 h.2

/-- A query over rows with distinct keys returns their page. -/
theorem isPage_select : IsPage key limit {x | x ∈ rows} (select key limit rows) := by
  have hsorted := pairwise_lt_insertionSort hdistinct
  refine ⟨hsorted.sublist (List.take_sublist _ _), fun x => mem_of_mem_select, by simp, ?_⟩
  intro x hx hout
  -- a row outside the first `limit` stands in the rest of the sorted list
  have hrest : x ∈ (rows.insertionSort fun a b => key a ≤ key b).drop limit := by
    have hmem := (List.mem_insertionSort fun a b => key a ≤ key b).mpr hx
    rw [← List.take_append_drop limit (rows.insertionSort _), List.mem_append] at hmem
    exact hmem.resolve_left hout
  constructor
  · have hpos := List.length_pos_of_mem hrest
    simp only [List.length_drop, List.length_insertionSort] at hpos
    simp only [length_select]
    omega
  · intro y hy
    rw [← List.take_append_drop limit (rows.insertionSort _), List.pairwise_append] at hsorted
    exact hsorted.2.2 y hy x hrest

/-- A row is on the page exactly if fewer than `limit` rows come before it. -/
theorem mem_select_iff (hx : x ∈ rows) :
    x ∈ select key limit rows ↔ (rows.filter fun y => key y < key x).length < limit := by
  have hpage : IsPage key limit {x | x ∈ rows} (select key limit rows) := isPage_select hdistinct
  constructor
  · intro hmem
    have hnodup : (x :: rows.filter fun y => key y < key x).Nodup :=
      List.nodup_cons.mpr ⟨by simp, (hdistinct.imp fun hne heq => hne (congrArg key heq)).filter _⟩
    have hsub : (x :: rows.filter fun y => key y < key x) ⊆ select key limit rows := by
      intro y hy
      rcases List.mem_cons.mp hy with rfl | hy
      · exact hmem
      · obtain ⟨hy, hlt⟩ := List.mem_filter.mp hy
        exact hpage.mem_of_lt hy hmem (of_decide_eq_true hlt)
    exact (List.subperm_of_subset hnodup hsub).length_le.trans hpage.length_le
  · intro hlt
    by_contra hout
    obtain ⟨hfull, hbefore⟩ := hpage.left_out x hx hout
    have hsub : select key limit rows ⊆ rows.filter fun y => key y < key x := fun y hy =>
      List.mem_filter.mpr ⟨mem_of_mem_select hy, decide_eq_true (hbefore y hy)⟩
    exact absurd (List.subperm_of_subset hpage.nodup hsub).length_le (by omega)

end

/-- Merging the pages of two collections gives the page of their union. -/
theorem IsPage.merge {xs ys : Set α} {p q : List α} (hp : IsPage key limit xs p)
    (hq : IsPage key limit ys q) (hdistinct : (p ++ q).Pairwise (key · ≠ key ·))
    (hinj : Set.InjOn key (xs ∪ ys)) :
    IsPage key limit (xs ∪ ys) (select key limit (p ++ q)) := by
  have hr : IsPage key limit {x | x ∈ p ++ q} (select key limit (p ++ q)) :=
    isPage_select hdistinct
  have hsub : ∀ y ∈ p ++ q, y ∈ xs ∪ ys := by
    intro y hy
    exact (List.mem_append.mp hy).imp (hp.mem_items y) (hq.mem_items y)
  -- an element outside a full page `full` of its own collection is beyond the merged page:
  -- otherwise the merged page would hold all of `full` and one element more
  have hbeyond : ∀ (full : List α), full.Nodup → full.length = limit →
      (∀ y ∈ full, y ∈ p ++ q) → ∀ x ∈ xs ∪ ys, x ∉ p ++ q → (∀ y ∈ full, key y < key x) →
      ∀ y ∈ select key limit (p ++ q), key y < key x := by
    intro full hnodup hlen hfull x hx hout hlt y hy
    by_contra hge
    have hxy : key x < key y := by
      refine lt_of_le_of_ne (not_lt.mp hge) fun heq => hout ?_
      have := hinj hx (hsub y (hr.mem_items y hy)) heq
      exact this ▸ hr.mem_items y hy
    have hall : y :: full ⊆ select key limit (p ++ q) := by
      intro z hz
      rcases List.mem_cons.mp hz with rfl | hz
      · exact hy
      · exact hr.mem_of_lt (hfull z hz) hy ((hlt z hz).trans hxy)
    have hnew : (y :: full).Nodup :=
      List.nodup_cons.mpr ⟨fun hmem => lt_asymm (hlt y hmem) hxy, hnodup⟩
    have := (List.subperm_of_subset hnew hall).length_le
    have := hr.length_le
    simp only [List.length_cons] at *
    omega
  refine ⟨hr.sorted, fun x hx => hsub x (hr.mem_items x hx), hr.length_le, ?_⟩
  intro x hx hout
  by_cases hmem : x ∈ p ++ q
  · exact hr.left_out x hmem hout
  · rcases hx with hx | hx
    · have hleft := hp.left_out x hx fun h => hmem (List.mem_append_left q h)
      refine ⟨?_, hbeyond p hp.nodup hleft.1 (fun y => List.mem_append_left q) x (.inl hx) hmem
        hleft.2⟩
      simp only [length_select, List.length_append]
      omega
    · have hleft := hq.left_out x hx fun h => hmem (List.mem_append_right p h)
      refine ⟨?_, hbeyond q hq.nodup hleft.1 (fun y => List.mem_append_right p) x (.inr hx) hmem
        hleft.2⟩
      simp only [length_select, List.length_append]
      omega

/-- A page is the beginning of any ordered list of the collection. -/
theorem IsPage.eq_take {items : Set α} {page : List α} (h : IsPage key limit items page)
    (hsorted : rows.Pairwise (key · < key ·)) (hmem : ∀ x, x ∈ rows ↔ x ∈ items) :
    page = rows.take limit := by
  have hrows : IsPage key limit items (rows.take limit) := by
    have hall : IsPage key rows.length items rows :=
      ⟨hsorted, fun x hx => (hmem x).1 hx, le_rfl, fun x hx hout => absurd ((hmem x).2 hx) hout⟩
    rcases le_total limit rows.length with hle | hle
    · exact hall.take hle
    · rw [List.take_of_length_le hle]
      exact ⟨hsorted, hall.mem_items, hle, fun x hx hout => absurd ((hmem x).2 hx) hout⟩
  -- both are sorted, so it is enough that they have the same elements
  have hle : ∀ {p q : List α}, IsPage key limit items p → IsPage key limit items q →
      p ⊆ q := by
    intro p q hp hq x hx
    by_contra hout
    obtain ⟨hfull, hlt⟩ := hq.left_out x (hp.mem_items x hx) hout
    have hsub : x :: q ⊆ p := by
      intro y hy
      rcases List.mem_cons.mp hy with rfl | hy
      · exact hx
      · exact hp.mem_of_lt (hq.mem_items y hy) hx (hlt y hy)
    have hlength := (List.subperm_of_subset (List.nodup_cons.mpr ⟨hout, hq.nodup⟩) hsub).length_le
    have := hp.length_le
    simp only [List.length_cons] at hlength
    omega
  have hperm : page.Perm (rows.take limit) :=
    (List.perm_ext_iff_of_nodup h.nodup hrows.nodup).2 fun x =>
      ⟨fun hx => hle h hrows hx, fun hx => hle hrows h hx⟩
  exact hperm.eq_of_pairwise (fun a b _ _ hab hba => (lt_asymm hab hba).elim) h.sorted hrows.sorted

/-! ### Reading page by page -/

section ReadPages

variable {α : Type} {limit : Nat} {stop : α → Bool}

/-- What is read in at most `fuel` pages. -/
def readPages (limit : Nat) (stop : α → Bool) : Nat → List α → List α
  | 0, _ => []
  | fuel + 1, rows =>
    let page := rows.take limit
    if page.length < limit ∨ page.any stop then page
    else page ++ readPages limit stop fuel (rows.drop limit)

variable {fuel : Nat} {rows : List α}

/-- Reading ends with the page of the first row if that row stops it. -/
theorem readPages_of_stop_head {x : α} (hlimit : 0 < limit) (hstop : stop x = true) :
    readPages limit stop (fuel + 1) (x :: rows) = (x :: rows).take limit := by
  obtain ⟨n, rfl⟩ := Nat.exists_eq_succ_of_ne_zero hlimit.ne'
  rw [readPages, if_pos]
  exact .inr (by simp [hstop])

/-- Where every row behind a stopping one stops too, nothing worth keeping is left behind. -/
theorem filter_readPages {keep : α → Bool} (hlimit : 0 < limit)
    (hkeep : ∀ x, keep x = true → stop x = false) (hfuel : rows.length < fuel)
    (hmono : rows.Pairwise fun a b => stop a = true → stop b = true) :
    (readPages limit stop fuel rows).filter keep = rows.filter keep := by
  induction fuel generalizing rows with
  | zero => omega
  | succ fuel ih =>
    have hsplit : rows.filter keep =
        (rows.take limit).filter keep ++ (rows.drop limit).filter keep := by
      rw [← List.filter_append, List.take_append_drop]
    rw [readPages]
    split_ifs with hend
    · -- nothing of the rest is kept: there is none, or all of it stops
      have hrest : (rows.drop limit).filter keep = [] := by
        rcases hend with hshort | hany
        · rw [List.length_take] at hshort
          rw [List.drop_of_length_le (by omega), List.filter_nil]
        · obtain ⟨x, hx, hxstop⟩ := List.any_eq_true.1 hany
          rw [← List.take_append_drop limit rows, List.pairwise_append] at hmono
          rw [List.filter_eq_nil_iff]
          intro y hy hkept
          have hstopped := hmono.2.2 x hx y hy hxstop
          rw [hkeep y hkept] at hstopped
          cases hstopped
      rw [hsplit, hrest, List.append_nil]
    · have hshort : (rows.drop limit).length < fuel := by
        rw [not_or, not_lt, List.length_take] at hend
        rw [List.length_drop]
        omega
      rw [List.filter_append, ih hshort (hmono.sublist (List.drop_sublist _ _)), ← hsplit]

end ReadPages

end Page
