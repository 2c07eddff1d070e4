import Mail4Agent.Server.Outbox

/-!
# The window of the outbox

A drain looks at the first three hundred due rows of all destinations together. With
drains at a fixed interval, an item for a peer that confirms everything is delivered
exactly if at some drain it is due and has fewer than three hundred due rows before it.
Rows for a peer that is down come back from their backoff, and enough of them keep the
window full for ever.
-/

namespace Server.Outbox

/-- Drains at a fixed interval, with what is queued before each of them. -/
structure Schedule where
  startMs : Int
  intervalMs : Int
  queued : Nat → List Item
  replies : Nat → String → Nat → Reply

namespace Schedule

variable (s : Schedule)

def time (k : Nat) : Int := s.startMs + k * s.intervalMs

/-- What the drain with this number finds. -/
def before (w : World) : Nat → World
  | 0 => step w (.queue (s.queued 0))
  | k + 1 => step (step (before w k) (.drain (s.time k) (s.replies k))) (.queue (s.queued (k + 1)))

def after (w : World) (k : Nat) : World := step (s.before w k) (.drain (s.time k) (s.replies k))

/-- The peer confirms every request. -/
def Confirms (peer : String) : Prop := ∀ k n, (s.replies k peer n).answer = .status 200

/-- A drain has offered the item, the peer has confirmed it and its row is gone. -/
def Delivers (w : World) (row : Row) : Prop :=
  ∃ k, (∀ r ∈ (s.after w k).rows, r.id ≠ row.id) ∧
    ∃ o ∈ (s.after w k).offers, o.answer = .status 200 ∧
      o.destination = row.destination ∧ row ∈ o.rows

/-- The rows that a drain would fetch before this one. -/
def dueBefore (w : World) (row : Row) (k : Nat) : List Row :=
  (s.before w k).rows.filter fun r => r.nextTryMs ≤ s.time k ∧ r.id < row.id

/-- At this drain the item is due, and fewer due rows precede it than a drain fetches. -/
def Reaches (w : World) (row : Row) (k : Nat) : Prop :=
  row.nextTryMs ≤ s.time k ∧ (s.dueBefore w row k).length < fetchLimit

instance (w : World) (row : Row) (k : Nat) : Decidable (s.Reaches w row k) :=
  inferInstanceAs (Decidable (_ ∧ _))

end Schedule

/-! ### One drain -/

section Drain

variable {nowMs : Int} {replies : String → Nat → Reply} {w : World} {row : Row}

theorem mem_fetch_iff (hwf : w.WF) (hrow : row ∈ w.rows) :
    row ∈ fetch nowMs w ↔ row.nextTryMs ≤ nowMs ∧
      (w.rows.filter fun r => r.nextTryMs ≤ nowMs ∧ r.id < row.id).length < fetchLimit := by
  by_cases hdue : row.nextTryMs ≤ nowMs
  · have hmem : row ∈ w.rows.filter fun r => r.nextTryMs ≤ nowMs := by simp [hrow, hdue]
    rw [fetch, Page.mem_select_iff ((hwf.sorted.filter _).imp fun hlt => hlt.ne) hmem]
    simp [hdue, List.filter_filter, Bool.and_comm]
  · simp only [hdue, false_and, iff_false]
    exact fun h => hdue (mem_fetch h).2

/-- A row that is not fetched stays as it is. -/
theorem mem_drain_of_notMem_fetch (hwf : w.WF) (hrow : row ∈ w.rows) (hout : row ∉ fetch nowMs w) :
    row ∈ (drain nowMs replies w).rows := by
  refine drain_keeps (P := fun w' => row ∈ w'.rows) hwf
    (fun destination n rows w' hask hmem => ?_) hrow
  refine (mem_attempt_iff fun r hr hid => hout ?_).2 hmem
  rw [← hask.wf.eq_of_id (hask.mem_rows r hr) hmem hid]
  exact (mem_turn (hask.mem_turn hr)).1

variable {destination : String} {answers : Nat → Reply} {w' : World}

/-- A turn in which every request is confirmed leaves none of its rows. -/
theorem serve_confirmed (hwf : w.WF) (hconfirms : ∀ n, (answers n).answer = .status 200)
    {remaining : List (List Row)} (n : Nat) (h : Serving nowMs w destination remaining w') :
    Serving nowMs w destination [] (serve nowMs destination answers n remaining w') := by
  induction remaining generalizing n w' with
  | nil => exact h
  | cons rows remaining ih =>
    have hsettles : (answers n).answer.settles rows = true := by simp [Answer.settles, hconfirms n]
    rw [serve, if_pos hsettles]
    exact ih (n + 1) (h.attempt hwf hsettles)

/-- A row keeps its number for its item. -/
def NumberOf (row : Row) (w : World) : Prop := ∀ r ∈ w.rows, r.id = row.id → r.toItem = row.toItem

theorem NumberOf.attempt {reply : Reply} {rows : List Row} (h : NumberOf row w) :
    NumberOf row (attempt destination nowMs reply rows w) := by
  intro r hr hid
  obtain ⟨old, hold, hid', hitem⟩ := exists_of_mem_attempt hr
  exact hitem.symm.trans (h old hold (hid'.trans hid))

/-- A number that is not in the table does not come back. -/
theorem ne_of_mem_serve {id : Nat} (remaining : List (List Row)) (n : Nat)
    (h : ∀ r ∈ w.rows, r.id ≠ id) :
    ∀ r ∈ (serve nowMs destination answers n remaining w).rows, r.id ≠ id := by
  induction remaining generalizing n w with
  | nil => exact h
  | cons rows remaining ih =>
    have hnext : ∀ r ∈ (attempt destination nowMs (answers n) rows w).rows, r.id ≠ id := by
      intro r hr
      obtain ⟨old, hold, hid, -⟩ := exists_of_mem_attempt hr
      exact hid ▸ h old hold
    rw [serve]
    split
    · exact ih (n + 1) hnext
    · exact hnext

/-- A peer that confirms everything has its fetched rows deleted in its turn. -/
theorem serve_gone (hwf : w.WF) (hfetch : row ∈ fetch nowMs w)
    (hconfirms : ∀ n, (answers n).answer = .status 200)
    (hserving : Serving nowMs w row.destination (requests (turn nowMs w row.destination) []) w')
    (hnumber : NumberOf row w') :
    ∀ r ∈ (serve nowMs row.destination answers 0
      (requests (turn nowMs w row.destination) []) w').rows, r.id ≠ row.id := by
  intro r hr hid
  have hdone := serve_confirmed hwf hconfirms 0 hserving
  have hitem := serve_keeps (P := NumberOf row) hwf (fun _ _ _ _ h => h.attempt) 0 hserving hnumber
    r hr hid
  have hstart := hdone.of_start r hr (congrArg Item.destination hitem)
  obtain rfl := hwf.eq_of_id hstart (mem_fetch hfetch).1 hid
  simpa using hdone.remain r hr (by simp [turn, hfetch])

/-- What a peer that confirms everything is to get is gone after the drain that fetches it. -/
theorem gone_of_mem_fetch (hwf : w.WF) (hfetch : row ∈ fetch nowMs w)
    (hconfirms : ∀ n, (replies row.destination n).answer = .status 200) :
    ∀ r ∈ (drain nowMs replies w).rows, r.id ≠ row.id := by
  have hnumber : NumberOf row w := fun r hr hid => by rw [hwf.eq_of_id hr (mem_fetch hfetch).1 hid]
  obtain ⟨names, others, hnames⟩ := List.append_of_mem
    (mem_destinations.2 ⟨row, hfetch, rfl⟩ : row.destination ∈ destinations (fetch nowMs w))
  have hnodup := nodup_destinations (fetch nowMs w)
  rw [hnames] at hnodup
  -- the turns before the peer's, the peer's own, and those after it
  obtain ⟨hnumber, hwf', hall⟩ := serveAll_keeps (P := NumberOf row) nowMs replies hwf
    (fun _ _ _ _ _ h => h.attempt) hnodup hnumber hwf fun _ _ _ _ => .rfl
  have hgone := serve_gone hwf hfetch hconfirms
    ((hall row.destination List.mem_cons_self).serving hwf') hnumber
  rw [drain_eq, hnames, List.foldl_append, List.foldl_cons]
  exact Trace.run_invariant (fun w' : World => ∀ r ∈ w'.rows, r.id ≠ row.id)
    (fun _ _ h => ne_of_mem_serve _ 0 h) hgone others

/-- Until it is gone from the table, or offered and confirmed, the row stands in the table. -/
theorem offered_of_confirms (hwf : w.WF) (hrow : row ∈ w.rows)
    (hconfirms : ∀ n, (replies row.destination n).answer = .status 200) :
    row ∈ (drain nowMs replies w).rows ∨ ∃ o ∈ (drain nowMs replies w).offers,
      o.answer = .status 200 ∧ o.destination = row.destination ∧ row ∈ o.rows := by
  refine drain_keeps (P := fun w' => row ∈ w'.rows ∨ ∃ o ∈ w'.offers,
    o.answer = .status 200 ∧ o.destination = row.destination ∧ row ∈ o.rows) hwf ?_ (.inl hrow)
  rintro destination n rows w' hask (hmem | ⟨o, ho, hoffered⟩)
  · by_cases hin : row ∈ rows
    · have hdest := hask.destination_eq hin
      refine .inr ⟨_, by rw [attempt_offers]; exact List.mem_append_right _ List.mem_cons_self,
        ?_, hdest.symm, hin⟩
      rw [← hdest]
      exact hconfirms n
    · refine .inl ((mem_attempt_iff fun r hr hid => hin ?_).2 hmem)
      rwa [← hask.wf.eq_of_id (hask.mem_rows r hr) hmem hid]
  · exact .inr ⟨o, by rw [attempt_offers]; exact List.mem_append_left _ ho, hoffered⟩

end Drain

/-! ### The schedule -/

namespace Schedule

variable {s : Schedule} {w : World} {row : Row}

theorem wf_before (hwf : w.WF) (k : Nat) : (s.before w k).WF := by
  induction k with
  | zero => exact hwf.step _
  | succ k ih => exact (ih.step _).step _

theorem mem_queue {items : List Item} (h : row ∈ w.rows) : row ∈ (step w (.queue items)).rows :=
  Trace.run_invariant (fun w' : World => row ∈ w'.rows) (fun _ _ h =>
    List.mem_append_left _ h) h items

variable {k : Nat}

theorem mem_fetch_iff_reaches (hwf : w.WF) (hrow : row ∈ (s.before w k).rows) :
    row ∈ fetch (s.time k) (s.before w k) ↔ s.Reaches w row k :=
  mem_fetch_iff (wf_before hwf k) hrow

/-- A row stays until a drain reaches it. -/
theorem mem_before (hwf : w.WF) (hrow : row ∈ w.rows) (hnever : ∀ j < k, ¬ s.Reaches w row j) :
    row ∈ (s.before w k).rows := by
  induction k with
  | zero => exact mem_queue hrow
  | succ k ih =>
    have hmem := ih fun j hj => hnever j (Nat.lt_succ_of_lt hj)
    refine mem_queue (mem_drain_of_notMem_fetch (wf_before hwf k) hmem ?_)
    exact fun hfetch => hnever k (Nat.lt_succ_self k) ((mem_fetch_iff_reaches hwf hmem).1 hfetch)

theorem mem_after (hwf : w.WF) (hrow : row ∈ w.rows) (hnever : ∀ j ≤ k, ¬ s.Reaches w row j) :
    row ∈ (s.after w k).rows := by
  have hmem := mem_before hwf hrow fun j hj => hnever j hj.le
  exact mem_drain_of_notMem_fetch (wf_before hwf k) hmem
    fun hfetch => hnever k le_rfl ((mem_fetch_iff_reaches hwf hmem).1 hfetch)

/-- An item for a peer that confirms everything is delivered exactly if at some drain it is
due and fewer due rows precede it than a drain fetches. -/
theorem delivers_iff_reaches (s : Schedule) (w : World) (row : Row) (hwf : w.WF)
    (hrow : row ∈ w.rows) (hconfirms : s.Confirms row.destination) :
    s.Delivers w row ↔ ∃ k, s.Reaches w row k := by
  constructor
  · rintro ⟨k, hgone, -⟩
    by_contra hnever
    push Not at hnever
    exact hgone row (mem_after hwf hrow fun j _ => hnever j) rfl
  · intro hreaches
    -- the first drain that reaches the row fetches it
    have hmem := mem_before hwf hrow fun j hj => Nat.find_min hreaches hj
    have hfetch := (mem_fetch_iff_reaches hwf hmem).2 (Nat.find_spec hreaches)
    have hwf' : (s.before w (Nat.find hreaches)).WF := wf_before hwf _
    have hgone := gone_of_mem_fetch hwf' hfetch (hconfirms (Nat.find hreaches))
    refine ⟨Nat.find hreaches, hgone, ?_⟩
    refine (offered_of_confirms hwf' hmem (hconfirms _)).resolve_left fun hstill => ?_
    exact hgone row hstill rfl

/-- A row that waits is reached when its backoff is over. -/
theorem delivers_iff_reaches_waiting :
    let row : Row :=
      { destination := "b", kind := .send, id := 1, attempts := 1, nextTryMs := 4000 }
    let s : Schedule := { startMs := 0, intervalMs := 3000, queued _ := [],
                          replies k _ _ := ⟨.status 200, 3000 * k⟩ }
    let w : World := { rows := [row], nextId := 2 }
    (s.Delivers w row ↔ ∃ k, s.Reaches w row k) ∧ ¬ s.Reaches w row 1 ∧ s.Reaches w row 2 :=
  ⟨delivers_iff_reaches _ _ _ ⟨by simp, by simp⟩ (by simp) fun _ _ => rfl, by decide +kernel,
    by decide +kernel⟩

end Schedule

/-! ### A peer that is down -/

/-- A failed request puts a row off by ten minutes at most. -/
theorem failedRow_cases (failed : List Row) (clockMs : Int) (row : Row) :
    World.failedRow failed clockMs row = row ∨
      (∃ f ∈ failed, f.id = row.id) ∧
        (World.failedRow failed clockMs row).nextTryMs ≤ clockMs + 600000 := by
  unfold World.failedRow
  split
  next f hf =>
    refine .inr ⟨⟨f, List.mem_of_find?_eq_some hf, by simpa using List.find?_some hf⟩, ?_⟩
    exact Int.add_le_add_left (min_le_right _ _) _
  next => exact .inl rfl

/-- Every three seconds, with one peer that confirms everything and another that never
answers. -/
def oneDown (live : String) : Schedule where
  startMs := 0
  intervalMs := 3000
  queued _ := []
  replies k name _ := { answer := if name = live then .status 200 else .lost false
                        clockMs := 3000 * k }

section Down

variable {w : World} {row : Row} {dead : String} {k : Nat}

/-- The rows that the drain with this number puts off. -/
def putOff (w : World) (row : Row) (dead : String) (k : Nat) : List Row :=
  (requests (turn ((oneDown row.destination).time k) ((oneDown row.destination).before w k) dead)
    []).headD []

/-- Before the drain with this number, all rows but one are for the dead peer, and those
that wait have been put off lately. -/
structure Blocked (w : World) (row : Row) (dead : String) (k : Nat) : Prop where
  wf : ((oneDown row.destination).before w k).WF
  mem : row ∈ ((oneDown row.destination).before w k).rows
  others : ∀ r ∈ ((oneDown row.destination).before w k).rows,
    r = row ∨ r.destination = dead ∧ r.id < row.id
  length : 4281 ≤ ((oneDown row.destination).before w k).rows.length
  waits : ∀ r ∈ ((oneDown row.destination).before w k).rows, r.nextTryMs ≤ 0 ∨
    ∃ j < k, r.nextTryMs ≤ 3000 * j + 600000 ∧ ∃ f ∈ putOff w row dead j, f.id = r.id

theorem putOff_cases (w : World) (row : Row) (dead : String) (k : Nat) :
    putOff w row dead k = [] ∨ putOff w row dead k ∈
    requests (turn ((oneDown row.destination).time k) ((oneDown row.destination).before w k) dead)
      [] := by
  unfold putOff
  cases requests (turn _ _ dead) [] with
  | nil => exact .inl rfl
  | cons rows rest => exact .inr List.mem_cons_self

theorem length_putOff_le (k : Nat) : (putOff w row dead k).length ≤ batchLimit := by
  rcases putOff_cases w row dead k with hnil | hmem
  · simp [hnil]
  · exact (isRequest_of_mem (Gathered.nil _) _ hmem).length_le

theorem mem_turn_of_mem_putOff {f : Row} (hf : f ∈ putOff w row dead k) :
    f ∈ turn ((oneDown row.destination).time k) ((oneDown row.destination).before w k) dead := by
  rcases putOff_cases w row dead k with hnil | hmem
  · simp [hnil] at hf
  · exact mem_turn_of_suffix List.suffix_rfl (List.mem_flatten.2 ⟨_, hmem, hf⟩)

/-- Ten minutes are two hundred drains, each of which puts off one batch. -/
theorem Blocked.length_waiting_le (h : Blocked w row dead k) :
    (((oneDown row.destination).before w k).rows.filter fun r =>
      3000 * (k : Int) < r.nextTryMs).length ≤ 3980 := by
  let recent := (List.range' (k - 199) 199).flatMap fun j => (putOff w row dead j).map Row.id
  have hnodup : ((((oneDown row.destination).before w k).rows.filter fun r =>
      3000 * (k : Int) < r.nextTryMs).map Row.id).Nodup :=
    List.pairwise_map.2 ((h.wf.sorted.filter _).imp fun hlt => hlt.ne)
  have hsub : ((((oneDown row.destination).before w k).rows.filter fun r =>
      3000 * (k : Int) < r.nextTryMs).map Row.id) ⊆ recent := by
    intro id hid
    obtain ⟨r, hr, rfl⟩ := List.mem_map.1 hid
    obtain ⟨hr, hwaits⟩ := List.mem_filter.1 hr
    have hwaits := of_decide_eq_true hwaits
    obtain hdue | ⟨j, hj, hnext, f, hf, hid⟩ := h.waits r hr
    · omega
    · refine List.mem_flatMap.2 ⟨j, List.mem_range'_1.2 (by omega), ?_⟩
      exact List.mem_map.2 ⟨f, hf, hid⟩
  have hrecent : recent.length ≤ 199 * 20 := by
    rw [List.length_flatMap]
    refine (List.sum_le_card_nsmul _ 20 ?_).trans (by simp)
    intro n hn
    obtain ⟨j, -, rfl⟩ := List.mem_map.1 hn
    rw [List.length_map]
    exact length_putOff_le j
  have := (List.subperm_of_subset hnodup hsub).length_le
  rw [List.length_map] at this
  omega

theorem time_oneDown (live : String) (k : Nat) : (oneDown live).time k = 3000 * (k : Int) := by
  simp [Schedule.time, oneDown, mul_comm]

/-- Due rows for the dead peer fill the window. -/
theorem Blocked.le_length_dueBefore (h : Blocked w row dead k) :
    fetchLimit ≤ ((oneDown row.destination).dueBefore w row k).length := by
  have hsub : ((oneDown row.destination).before w k).rows ⊆
      row :: ((oneDown row.destination).dueBefore w row k ++
        ((oneDown row.destination).before w k).rows.filter fun r =>
          3000 * (k : Int) < r.nextTryMs) := by
    intro r hr
    rcases h.others r hr with rfl | ⟨-, hlt⟩
    · exact List.mem_cons_self
    · refine List.mem_cons_of_mem _ (List.mem_append.2 ?_)
      by_cases hdue : r.nextTryMs ≤ 3000 * (k : Int)
      · exact .inl (by simp [Schedule.dueBefore, time_oneDown, hr, hdue, hlt])
      · exact .inr (by simpa [hr] using hdue)
  have hnodup : ((oneDown row.destination).before w k).rows.Nodup :=
    h.wf.sorted.imp fun hlt heq => hlt.ne (congrArg Row.id heq)
  have hle := (List.subperm_of_subset hnodup hsub).length_le
  have hwaiting := h.length_waiting_le
  have hlength := h.length
  simp only [List.length_cons, List.length_append] at hle
  unfold fetchLimit
  omega

theorem Blocked.notMem_fetch (h : Blocked w row dead k) :
    row ∉ fetch ((oneDown row.destination).time k) ((oneDown row.destination).before w k) :=
  fun hfetch => not_lt_of_ge h.le_length_dueBefore ((mem_fetch_iff h.wf h.mem).1 hfetch).2

theorem Blocked.fetch_ne_nil (h : Blocked w row dead k) :
    fetch ((oneDown row.destination).time k) ((oneDown row.destination).before w k) ≠ [] := by
  intro hnil
  have hpos : 0 < ((oneDown row.destination).dueBefore w row k).length :=
    lt_of_lt_of_le (by decide) h.le_length_dueBefore
  obtain ⟨r, hr⟩ := List.exists_mem_of_length_pos hpos
  obtain ⟨hmem, hdue, -⟩ : _ ∧ _ ∧ _ := by simpa [Schedule.dueBefore] using hr
  have hout : r ∉ fetch ((oneDown row.destination).time k)
    ((oneDown row.destination).before w k) := by
    simp [hnil]
  have hfull := (isPage_fetch h.wf).length_eq_of_notMem (by simp [hmem, hdue]) hout
  rw [hnil] at hfull
  cases hfull

theorem destinations_eq_singleton {rows : List Row} (hne : rows ≠ [])
    (hall : ∀ r ∈ rows, r.destination = dead) : destinations rows = [dead] := by
  refine List.perm_singleton.1 ((List.perm_ext_iff_of_nodup (nodup_destinations rows)
    (List.nodup_singleton dead)).2 fun name => ?_)
  rw [mem_destinations, List.mem_singleton]
  constructor
  · rintro ⟨r, hr, rfl⟩
    exact hall r hr
  · rintro rfl
    obtain ⟨r, hr⟩ := List.exists_mem_of_ne_nil rows hne
    exact ⟨r, hr, hall r hr⟩

/-- The drain makes one request, to the dead peer. -/
theorem Blocked.rows_after (h : Blocked w row dead k) (hdead : dead ≠ row.destination) :
    ((oneDown row.destination).after w k).rows = ((oneDown row.destination).before w k).rows.map
      (World.failedRow (putOff w row dead k) (3000 * k)) := by
  have hall : ∀ r ∈ fetch ((oneDown row.destination).time k) ((oneDown row.destination).before w k),
      r.destination = dead := by
    intro r hr
    rcases h.others r (mem_fetch hr).1 with rfl | ⟨hdest, -⟩
    · exact absurd hr h.notMem_fetch
    · exact hdest
  have hturn : turn ((oneDown row.destination).time k) ((oneDown row.destination).before w k)
    dead ≠ [] := by
    obtain ⟨r, hr⟩ := List.exists_mem_of_ne_nil _ h.fetch_ne_nil
    exact List.ne_nil_of_mem (a := r) (by simp [turn, hr, hall r hr])
  rw [Schedule.after, step, drain_eq, destinations_eq_singleton h.fetch_ne_nil hall,
    List.foldl_cons,
    List.foldl_nil]
  cases hrequests : requests (turn _ _ dead) [] with
  | nil =>
    have hflatten := flatten_requests (Gathered.nil (turn ((oneDown row.destination).time k)
      ((oneDown row.destination).before w k) dead))
    rw [hrequests] at hflatten
    exact absurd hflatten.symm hturn
  | cons rows rest =>
    have hlost : ¬ ((oneDown row.destination).replies k dead 0).answer.settles rows = true := by
      simp [oneDown, hdead, Answer.settles]
    rw [serve, if_neg hlost, attempt_rows_of_not_settles hlost, putOff, hrequests]
    rfl

theorem before_succ (k : Nat) : (oneDown row.destination).before w (k + 1) =
    (oneDown row.destination).after w k := rfl

theorem Blocked.succ (h : Blocked w row dead k) (hdead : dead ≠ row.destination) :
    Blocked w row dead (k + 1) := by
  have hrow : World.failedRow (putOff w row dead k) (3000 * k) row = row := by
    refine failedRow_of_ne fun f hf hid => ?_
    obtain ⟨hfetch, hdest⟩ := mem_turn (mem_turn_of_mem_putOff hf)
    rw [h.wf.eq_of_id (mem_fetch hfetch).1 h.mem hid] at hdest
    exact hdead hdest.symm
  refine ⟨?_, ?_, ?_, ?_, ?_⟩ <;> rw [before_succ]
  · exact h.wf.step _
  · exact mem_drain_of_notMem_fetch h.wf h.mem h.notMem_fetch
  · rw [h.rows_after hdead]
    intro r hr
    obtain ⟨old, hold, rfl⟩ := List.mem_map.1 hr
    rcases h.others old hold with rfl | hother
    · exact .inl hrow
    · rw [failedRow_id, failedRow_toItem]
      exact .inr hother
  · rw [h.rows_after hdead, List.length_map]
    exact h.length
  · rw [h.rows_after hdead]
    intro r hr
    obtain ⟨old, hold, rfl⟩ := List.mem_map.1 hr
    rcases failedRow_cases (putOff w row dead k) (3000 * k) old with hsame | ⟨⟨f, hf, hid⟩, hnext⟩
    · rw [hsame]
      exact (h.waits old hold).imp_right fun ⟨j, hj, rest⟩ => ⟨j, Nat.lt_succ_of_lt hj, rest⟩
    · exact .inr ⟨k, Nat.lt_succ_self k, hnext, f, hf, by simpa using hid⟩

end Down

/-- More than four thousand items for a peer that is down, and then one for a peer that
confirms everything. -/
def crowded : World where
  rows := (List.range 4280).map (fun i => { destination := "down", kind := .send, id := i + 1 }) ++
    [{ destination := "live", kind := .send, id := 4281 }]
  nextId := 4282

theorem wf_crowded : crowded.WF := by
  constructor
  · refine List.pairwise_append.2 ⟨List.pairwise_map.2 ?_, List.pairwise_singleton _ _, ?_⟩
    · exact List.pairwise_lt_range.imp fun hlt => Nat.succ_lt_succ hlt
    · simpa using fun i (hi : i < 4280) => Nat.succ_lt_succ hi
  · intro r hr
    rcases List.mem_append.1 hr with hr | hr
    · obtain ⟨i, hi, rfl⟩ := List.mem_map.1 hr
      exact (Nat.succ_lt_succ (List.mem_range.1 hi)).trans (by decide)
    · rw [List.mem_singleton.1 hr]
      decide

theorem blocked_crowded (k : Nat) :
    Blocked crowded { destination := "live", kind := .send, id := 4281 } "down" k := by
  induction k with
  | zero =>
    refine ⟨wf_crowded, List.mem_append_right _ List.mem_cons_self, ?_, ?_, ?_⟩
    · intro r hr
      rcases List.mem_append.1 hr with hr | hr
      · obtain ⟨i, hi, rfl⟩ := List.mem_map.1 hr
        exact .inr ⟨rfl, Nat.succ_lt_succ (List.mem_range.1 hi)⟩
      · exact .inl (List.mem_singleton.1 hr)
    · exact le_of_eq (by simp [Schedule.before, step, crowded, oneDown])
    · intro r hr
      rcases List.mem_append.1 hr with hr | hr
      · obtain ⟨i, -, rfl⟩ := List.mem_map.1 hr
        exact .inl le_rfl
      · rw [List.mem_singleton.1 hr]
        exact .inl le_rfl
  | succ k ih => exact ih.succ (by decide)

/-- The item for the live peer is never delivered, however many drains there are. -/
theorem not_delivers_crowded :
    let row : Row := { destination := "live", kind := .send, id := 4281 }
    crowded.WF ∧ row ∈ crowded.rows ∧ (oneDown "live").Confirms "live" ∧
      ¬ (oneDown "live").Delivers crowded row := by
  refine ⟨wf_crowded, List.mem_append_right _ List.mem_cons_self, fun _ _ => rfl, ?_⟩
  rintro ⟨k, hgone, -⟩
  exact hgone _ (blocked_crowded (k + 1)).mem rfl

end Server.Outbox
