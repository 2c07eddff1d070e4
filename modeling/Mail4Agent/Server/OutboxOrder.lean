import Mail4Agent.Server.Outbox

/-!
# The order of what the outbox sends

Over whole runs of the outbox worker, the order in which a destination accepts its items is
the queue's as long as no drain fetches a row past an earlier one of its destination that
waits out a backoff.
-/

namespace Server.Outbox

/-! ### Order -/

/-- The peer has accepted the item with this number. -/
def Accepted (offers : List Offer) (destination : String) (id : Nat) : Prop :=
  ∃ o ∈ offers, o.taken ∧ o.destination = destination ∧ ∃ row ∈ o.rows, row.id = id

/-- An item that is accepted after a later one of its destination had been accepted before. -/
def AcceptedInOrder : List Offer → Prop :=
  Trace.Always fun before o => o.taken → ∀ row ∈ o.rows, ∀ o' ∈ before, o'.taken →
    o'.destination = o.destination → (∃ later ∈ o'.rows, row.id < later.id) →
    Accepted before o.destination row.id

/-- No undelivered item of the destination that precedes an offered one waits out a backoff. -/
def Offer.NoneWaiting (o : Offer) : Prop :=
  ∀ row ∈ o.rows, ∀ earlier ∈ o.queued, earlier.destination = o.destination →
    earlier.id < row.id → earlier.nextTryMs ≤ o.nowMs

instance (o : Offer) : Decidable o.NoneWaiting := by
  unfold Offer.NoneWaiting
  infer_instance

structure InQueueOrder (w : World) : Prop where
  accepted : AcceptedInOrder w.offers
  waiting : ∀ o ∈ w.offers, o.NoneWaiting

/-- Of every fetched row's destination, all earlier rows are due. -/
def NoGap (w : World) : Op → Prop
  | .queue _ => True
  | .drain nowMs _ => ∀ row ∈ fetch nowMs w, ∀ earlier ∈ w.rows,
      earlier.destination = row.destination → earlier.id < row.id → earlier.nextTryMs ≤ nowMs

instance (w : World) (op : Op) : Decidable (NoGap w op) := by
  unfold NoGap
  cases op <;> infer_instance

/-- What has been accepted is a part of the queue's beginning, as far as the table tells. -/
structure Ordered (w : World) : Prop where
  wf : w.WF
  offered_lt : ∀ o ∈ w.offers, ∀ row ∈ o.rows, row.id < w.nextId
  covered : ∀ row ∈ w.rows, ∀ o ∈ w.offers, o.taken → o.destination = row.destination →
    (∃ later ∈ o.rows, row.id < later.id) → Accepted w.offers row.destination row.id
  inOrder : InQueueOrder w

theorem Accepted.append {offers more : List Offer} {destination : String} {id : Nat}
    (h : Accepted offers destination id) : Accepted (offers ++ more) destination id := by
  obtain ⟨o, ho, rest⟩ := h
  exact ⟨o, List.mem_append_left _ ho, rest⟩

variable {w : World} {op : Op} {o o' : Offer}

theorem Ordered.enqueue (h : Ordered w) (item : Item) : Ordered (w.enqueue item) := by
  refine ⟨h.wf.enqueue item, fun o ho row hrow => Nat.lt_succ_of_lt (h.offered_lt o ho row hrow),
    fun row hrow o ho htaken hdest => ?_, h.inOrder.accepted, h.inOrder.waiting⟩
  rcases List.mem_append.1 hrow with hold | hnew
  · exact h.covered row hold o ho htaken hdest
  · -- the new row is the last of all
    rintro ⟨later, hlater, hlt⟩
    rw [List.mem_singleton.1 hnew] at hlt
    exact absurd (h.offered_lt o ho later hlater) (not_lt_of_gt hlt)

section Ask

variable {nowMs : Int} {start w : World} {destination : String} {rows : List Row}

variable {replies : String → Nat → Reply}

/-- Without a gap, what precedes a request for its destination is in the request. -/
theorem Asking.mem_of_lt (hstart : start.WF) (hgap : NoGap start (.drain nowMs replies))
    (h : Asking nowMs start destination rows w) {row earlier : Row} (hrow : row ∈ rows)
    (hearlier : earlier ∈ w.rows) (hdest : earlier.destination = destination)
    (hlt : earlier.id < row.id) : earlier ∈ rows := by
  have hfetched := (Outbox.mem_turn (h.mem_turn hrow)).1
  have hmem := h.of_start earlier hearlier hdest
  have hdue : earlier.nextTryMs ≤ nowMs :=
    hgap row hfetched earlier hmem (hdest.trans (h.destination_eq hrow).symm) hlt
  have hfetch : earlier ∈ fetch nowMs start :=
    (isPage_fetch hstart).mem_of_lt (by simp [hmem, hdue]) hfetched hlt
  exact h.earlier earlier hearlier (by simp [turn, hfetch, hdest]) row hrow hlt

theorem Ordered.attempt (hstart : start.WF) (hgap : NoGap start (.drain nowMs replies))
    (hask : Asking nowMs start destination rows w) (reply : Reply) (h : Ordered w) :
    Ordered (attempt destination nowMs reply rows w) := by
  refine ⟨h.wf.attempt, ?_, ?_, ?_, ?_⟩
  · intro o ho row hrow
    rw [attempt_nextId]
    rw [attempt_offers, List.mem_append, List.mem_singleton] at ho
    rcases ho with hold | rfl
    · exact h.offered_lt o hold row hrow
    · exact h.wf.lt_next row (hask.mem_rows row hrow)
  · intro row hrow o ho htaken hdest hlater
    obtain ⟨old, hold, hid, hitem⟩ := exists_of_mem_attempt hrow
    rw [← hid] at hlater ⊢
    rw [← hitem] at hdest ⊢
    rw [attempt_offers] at ho ⊢
    rcases List.mem_append.1 ho with ho | ho
    · exact (h.covered old hold o ho htaken hdest hlater).append
    · -- the request covers all that precedes it
      have hlast := List.mem_singleton.1 ho
      replace ho := List.mem_append_right w.offers ho
      subst hlast
      obtain ⟨later, hmem, hlt⟩ := hlater
      have hin := hask.mem_of_lt hstart hgap hmem hold hdest.symm hlt
      exact ⟨_, ho, htaken, hdest, old, hin, rfl⟩
  · rw [attempt_offers]
    refine h.inOrder.accepted.snoc fun _ row hrow o ho htaken hdest hlater => ?_
    have hrowdest := hask.destination_eq hrow
    have hcov := h.covered row (hask.mem_rows row hrow) o ho htaken
      (hdest.trans hrowdest.symm) hlater
    rwa [hrowdest] at hcov
  · intro o ho
    rw [attempt_offers, List.mem_append, List.mem_singleton] at ho
    rcases ho with hold | rfl
    · exact h.inOrder.waiting o hold
    · intro row hrow earlier hearlier hdest hlt
      have hin := hask.mem_of_lt hstart hgap hrow hearlier hdest hlt
      exact (mem_fetch (Outbox.mem_turn (hask.mem_turn hin)).1).2

end Ask

theorem Ordered.step (hgap : NoGap w op) (h : Ordered w) : Ordered (step w op) := by
  cases op with
  | queue items => exact Trace.run_invariant Ordered (fun _ item h => h.enqueue item) h items
  | drain nowMs replies =>
    exact drain_keeps h.wf (fun _ n _ _ hask hw => hw.attempt h.wf hgap hask _) h

theorem ordered_empty : Ordered {} := by
  refine ⟨⟨by simp, by simp⟩, by simp, by simp, Trace.always_nil, by simp⟩

/-- In every run in which no drain fetches past a waiting row, every destination accepts its
items in the order of the queue, and none is offered past one that waits. -/
theorem inQueueOrder_throughout (ops : List Op) (hmeets : Trace.Meets step NoGap {} ops) :
    Trace.Throughout step InQueueOrder {} ops :=
  Trace.throughout_of_meets Ordered (fun _ _ hgap h => h.step hgap) (fun _ h => h.inOrder) hmeets
    ordered_empty

private def textItem (destination payload : String) : Item :=
  { destination, kind := .send, payload }

/-- A transaction that fails and is retried, between items for two destinations. -/
theorem inQueueOrder_throughout_retried :
    let ops := [.queue [textItem "b" "1", textItem "a" "2", textItem "b" "3"],
      .drain 0 fun name _ => ⟨if name = "b" then .lost true else .status 200, 5⟩,
      .queue [textItem "a" "4"], .drain 10 fun _ _ => ⟨.status 200, 10⟩,
      .drain 1005 fun _ _ => ⟨.status 200, 1005⟩]
    Trace.Throughout step InQueueOrder {} ops ∧ (Trace.run step {} ops).offers.length = 4 :=
  ⟨inQueueOrder_throughout _ ⟨trivial, by decide +kernel, trivial, by decide +kernel,
    by decide +kernel, trivial⟩, by decide +kernel⟩

/-- A failed item waits, the next one is offered at once, and the failed one is accepted
after it. -/
theorem not_inQueueOrder_overtaken :
    let offers := (Trace.run step {} [.queue [textItem "b" "1"],
      .drain 0 fun _ _ => ⟨.lost false, 0⟩, .queue [textItem "b" "2"],
      .drain 10 fun _ _ => ⟨.status 200, 10⟩, .drain 1000 fun _ _ => ⟨.status 200, 1000⟩]).offers
    ¬ AcceptedInOrder offers ∧ ∃ o ∈ offers, ¬ o.NoneWaiting := by
  intro offers
  refine ⟨fun h => ?_, by decide +kernel⟩
  have hlast := h (offers.take 2) _ []
    (by decide +kernel : offers = offers.take 2 ++ offers[2] :: [])
  revert hlast
  unfold Accepted
  decide +kernel

end Server.Outbox
