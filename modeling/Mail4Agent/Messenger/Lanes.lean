import Mail4Agent.Messenger.Barrier

/-!
# How many requests of a lane are in flight at once

A hand-out of a request lasts from its release to the first answer, transport
error or settlement of that request. In every run the queue's set of requests in
flight is exactly the set of open hand-outs of the trace, and the unordered lane
never has more than four of them.

The sync lane, the to-device lane and each room's lane are meant to have at most
one. Their occupancy is a flag of the lane, and an answer clears the flag of its
request's lane without asking whether that request was the one in flight. A late
answer for a request that is backing off therefore reopens a lane that another
request occupies. `ExclusiveInv` is kept by every step under which no answer or
discard names a request of such a lane while a different one is in flight there.
-/

namespace Messenger

open OutgoingQueue

/-- A lane with room for a single request. -/
def Lane.exclusive : Lane → Bool
  | .sync | .toDevice | .room _ => true
  | .accountData | .other => false

/-- How one event changes the list of open hand-outs. -/
def outstandingStep (out : List (RequestId × Lane)) : Event → List (RequestId × Lane)
  | .released id lane => out ++ [(id, lane)]
  | .answered id => out.filter fun entry => entry.1 ≠ id
  | .settled id => out.filter fun entry => entry.1 ≠ id
  | _ => out

/-- The hand-outs of a trace that no answer, error or settlement has ended. -/
def outstanding (trace : List Event) : List (RequestId × Lane) :=
  trace.foldl outstandingStep []

/-- How many open hand-outs a lane has. -/
def handedOut (trace : List Event) (lane : Lane) : Nat :=
  ((outstanding trace).filter fun entry => entry.2 = lane).length

@[simp] theorem outstanding_snoc (trace : List Event) (event : Event) :
    outstanding (trace ++ [event]) = outstandingStep (outstanding trace) event := by
  simp [outstanding]

theorem outstanding_append (a b : List Event) :
    outstanding (a ++ b) = b.foldl outstandingStep (outstanding a) := by
  simp [outstanding]

/-- Events that neither hand out nor end a hand-out. -/
theorem outstanding_append_quiet (trace : List Event) {new : List Event}
    (quiet : ∀ e ∈ new, ∀ out, outstandingStep out e = out) :
    outstanding (trace ++ new) = outstanding trace := by
  rw [outstanding_append]
  induction new with
  | nil => rfl
  | cons e new ih =>
    rw [List.foldl_cons, quiet e (by simp)]
    exact ih fun e he => quiet e (List.mem_cons_of_mem _ he)

theorem outstandingStep_markEvents (changes : List Mark) :
    ∀ e ∈ markEvents changes, ∀ out, outstandingStep out e = out := by
  intro e he out
  obtain ⟨change, -, rfl⟩ := List.mem_map.1 he
  rfl

namespace OutgoingQueue

variable {queue : OutgoingQueue}

/-- An answer for `id` finds no other request of its lane in flight, for lanes in `on`. -/
def AnswerSafe (on : Lane → Bool) (queue : OutgoingQueue) (id : RequestId) : Prop :=
  ∀ pending, queue.pending[id]? = some pending → on pending.lane = true →
    ∀ (other : RequestId) (record : PendingRequest), other ∈ queue.inFlight →
      queue.pending[other]? = some record → record.lane = pending.lane → other = id

/-- A discard of `kind` takes every request in flight on the lanes in `on` it touches. -/
def DiscardSafe (on : Lane → Bool) (queue : OutgoingQueue) (kind : OutgoingRequestKind) : Prop :=
  ∀ (id : RequestId) (pending : PendingRequest), queue.pending[id]? = some pending →
    pending.request.kind = kind → on pending.lane = true →
    ∀ (other : RequestId) (record : PendingRequest), other ∈ queue.inFlight →
      queue.pending[other]? = some record → record.lane = pending.lane →
        record.request.kind = kind

variable {id : RequestId} {lane lane' : Lane}

theorem laneAvailable_markInFlight_self (h : lane.exclusive = true) :
    (queue.markInFlight id lane).laneAvailable lane = false := by
  cases lane <;> simp_all [Lane.exclusive, markInFlight, laneAvailable]

theorem laneAvailable_markInFlight_ne (hne : lane' ≠ lane) (h : lane'.exclusive = true) :
    (queue.markInFlight id lane).laneAvailable lane' = queue.laneAvailable lane' := by
  cases lane <;> cases lane' <;> first | rfl | exact absurd rfl hne | cases h
  next room room' =>
    have : room' ≠ room := fun heq => hne (by rw [heq])
    simp [markInFlight, laneAvailable, this]

/-- A hand-out opens no lane. -/
theorem laneAvailable_of_markInFlight
    (h : (queue.markInFlight id lane).laneAvailable lane' = true) :
    queue.laneAvailable lane' = true := by
  by_cases hex : lane'.exclusive = true
  · by_cases hlane : lane' = lane
    · subst hlane
      rw [laneAvailable_markInFlight_self hex] at h
      cases h
    · rwa [laneAvailable_markInFlight_ne hlane hex] at h
  · cases lane' with
    | accountData => rfl
    | other =>
      have hsub : queue.otherInFlight ⊆ (queue.markInFlight id lane).otherInFlight := by
        cases lane <;> simp [markInFlight]
      simp only [laneAvailable, decide_eq_true_eq] at h ⊢
      exact (Finset.card_le_card hsub).trans_lt h
    | _ => exact absurd rfl hex

theorem laneAvailable_clearInFlight_ne (hne : lane' ≠ lane) (h : lane'.exclusive = true) :
    (queue.clearInFlight id lane).laneAvailable lane' = queue.laneAvailable lane' := by
  cases lane <;> cases lane' <;> first | rfl | exact absurd rfl hne | cases h
  next room room' =>
    have : room' ≠ room := fun heq => hne (by rw [heq])
    simp [clearInFlight, laneAvailable, this]

end OutgoingQueue

namespace World

variable {w : World}

/-! ## Requests in flight are the open hand-outs -/

/-- The part of the bookkeeping that no answer can disturb. -/
structure HandOutInv (w : World) : Prop where
  keyed : ∀ (id : RequestId) (pending : PendingRequest),
    w.queue.pending[id]? = some pending → pending.request.id = id
  tracked : ∀ id ∈ w.queue.inFlight, id ∈ w.queue.pending
  out_iff : ∀ (id : RequestId) (lane : Lane), (id, lane) ∈ outstanding w.trace ↔
    id ∈ w.queue.inFlight ∧ ∃ pending, w.queue.pending[id]? = some pending ∧ pending.lane = lane
  nodup : ((outstanding w.trace).map Prod.fst).Nodup
  others : ∀ id : RequestId, id ∈ w.queue.otherInFlight ↔
    id ∈ w.queue.inFlight ∧ ∃ pending, w.queue.pending[id]? = some pending ∧ pending.lane = .other
  bounded : w.queue.otherInFlight.card ≤ otherLaneConcurrency

/-- The request is in flight on the lane. -/
def OnLane (queue : OutgoingQueue) (id : RequestId) (lane : Lane) : Prop :=
  id ∈ queue.inFlight ∧ ∃ pending, queue.pending[id]? = some pending ∧ pending.lane = lane

/-- A step that leaves the requests in flight alone and tracks at most new ones. -/
theorem HandOutInv.quiet (inv : HandOutInv w) {after : World}
    (out_eq : outstanding after.trace = outstanding w.trace)
    (inFlight_eq : after.queue.inFlight = w.queue.inFlight)
    (other_eq : after.queue.otherInFlight = w.queue.otherInFlight)
    (kept : ∀ id ∈ w.queue.pending, after.queue.pending[id]? = w.queue.pending[id]?)
    (keyed : ∀ (id : RequestId) (pending : PendingRequest),
      after.queue.pending[id]? = some pending → pending.request.id = id) : HandOutInv after := by
  have hlane (id : RequestId) (lane : Lane) :
      OnLane w.queue id lane ↔ OnLane after.queue id lane := by
    rw [OnLane, OnLane, inFlight_eq]
    exact and_congr_right fun hid => by rw [kept id (inv.tracked id hid)]
  refine ⟨keyed, fun id hid => ?_, fun id lane => ?_, out_eq ▸ inv.nodup, fun id => ?_,
    other_eq ▸ inv.bounded⟩
  · have hmem := inv.tracked id (inFlight_eq ▸ hid)
    rw [Std.ExtTreeMap.mem_iff_isSome_getElem?, kept id hmem,
      ← Std.ExtTreeMap.mem_iff_isSome_getElem?]
    exact hmem
  · rw [out_eq, inv.out_iff]
    exact hlane id lane
  · rw [other_eq, inv.others]
    exact hlane id .other

variable {id other : RequestId} {pending : PendingRequest}

section

variable (inv : HandOutInv w)

include inv

/-- A step that ends the hand-out of one request, and may forget the request. -/
theorem HandOutInv.ended {after : World}
    (out_eq : outstanding after.trace = (outstanding w.trace).filter fun entry => entry.1 ≠ id)
    (inFlight_eq : after.queue.inFlight = w.queue.inFlight.erase id)
    (other_eq : after.queue.otherInFlight = w.queue.otherInFlight.erase id)
    (kept : ∀ other, other ≠ id → after.queue.pending[other]? = w.queue.pending[other]?)
    (self : ∀ pending : PendingRequest, after.queue.pending[id]? = some pending →
      w.queue.pending[id]? = some pending) :
    HandOutInv after where
  keyed other pending hp := by
    by_cases h : other = id
    · subst h
      exact inv.keyed _ _ (self pending hp)
    · exact inv.keyed other pending (by rw [← kept other h]; exact hp)
  tracked other hother := by
    rw [inFlight_eq, Finset.mem_erase] at hother
    rw [Std.ExtTreeMap.mem_iff_isSome_getElem?, kept other hother.1,
      ← Std.ExtTreeMap.mem_iff_isSome_getElem?]
    exact inv.tracked other hother.2
  out_iff other lane := by
    rw [out_eq, inFlight_eq, List.mem_filter, inv.out_iff, Finset.mem_erase]
    by_cases h : other = id
    · simp [h]
    · simp [h, kept other h]
  nodup := by
    rw [out_eq]
    exact inv.nodup.sublist (List.filter_sublist.map _)
  others other := by
    rw [other_eq, inFlight_eq, Finset.mem_erase, Finset.mem_erase, inv.others]
    by_cases h : other = id
    · simp [h]
    · simp [h, kept other h]
  bounded := by
    rw [other_eq]
    exact (Finset.card_erase_le).trans inv.bounded

/-- Only requests of the unordered lane are filed as its own in-flight requests. -/
theorem HandOutInv.clearInFlight_other (hp : w.queue.pending[id]? = some pending) :
    (w.queue.clearInFlight id pending.lane).otherInFlight = w.queue.otherInFlight.erase id := by
  by_cases hlane : pending.lane = .other
  · simp [hlane, clearInFlight]
  · have hnot : id ∉ w.queue.otherInFlight := by
      rw [inv.others]
      rintro ⟨-, record, hr, hother⟩
      cases hp.symm.trans hr
      exact hlane hother
    rw [Finset.erase_eq_of_notMem hnot]
    revert hlane
    cases pending.lane <;> simp [clearInFlight]

/-- An answer for a request the queue does not track changes nothing. -/
theorem HandOutInv.ignored {after : World} (hmem : id ∉ w.queue.pending)
    (queue_eq : after.queue = w.queue) (trace_eq : after.trace = w.trace ++ [.answered id]) :
    HandOutInv after := by
  refine inv.quiet ?_ (by rw [queue_eq]) (by rw [queue_eq]) (fun _ _ => by rw [queue_eq])
    (by rw [queue_eq]; exact inv.keyed)
  rw [trace_eq, outstanding_snoc, outstandingStep, List.filter_eq_self]
  rintro ⟨other, lane⟩ hother
  have := inv.tracked other ((inv.out_iff other lane).1 hother).1
  simpa using fun heq => hmem (by rw [← heq]; exact this)

theorem HandOutInv.retried {queue : OutgoingQueue} (hp : w.queue.pending[id]? = some pending)
    (hq : w.queue.RetriedFrom id queue pending.lane) :
    HandOutInv { w with queue := queue, trace := w.trace ++ [.answered id] } := by
  have hother := inv.clearInFlight_other hp
  obtain ⟨attempts, retryNotBeforeMs, rfl⟩ := hq
  have hout : outstanding (w.trace ++ [.answered id]) =
      (outstanding w.trace).filter fun entry => entry.1 ≠ id := by
    rw [outstanding_snoc, outstandingStep]
  refine inv.ended hout (by simp) hother ?_ ?_
  · intro other _
    simp
  · intro record h
    simpa using h

/-- Settling one request, with or without an answer recorded for it just before. -/
theorem HandOutInv.settled (hp : w.queue.pending[id]? = some pending) {after : World}
    {before : List Event} (queue_eq : after.queue = (w.queue.complete w.store id).1)
    (trace_eq : after.trace =
      w.trace ++ before ++ .settled id :: markEvents (settleChanges w.store id))
    (answer : before = [] ∨ before = [.answered id]) : HandOutInv after := by
  have hother := inv.clearInFlight_other hp
  have hout : outstanding after.trace =
      (outstanding w.trace).filter fun entry => entry.1 ≠ id := by
    rw [trace_eq, List.append_cons, outstanding_append_quiet _ (outstandingStep_markEvents _),
      outstanding_snoc]
    rcases answer with rfl | rfl
    · simp [outstandingStep]
    · rw [outstanding_snoc]
      simp [outstandingStep]
  rw [w.queue.complete_of_mem w.store id hp] at queue_eq
  refine inv.ended hout (by simp [queue_eq]) (by rw [queue_eq]; exact hother) ?_ ?_
  · intro other hne
    simp [queue_eq, Std.ExtTreeMap.getElem?_erase, Ne.symm hne]
  · intro record h
    simp [queue_eq] at h

theorem HandOutInv.settle (id : RequestId) : HandOutInv (w.settle id) := by
  cases hp : w.queue.pending[id]? with
  | none => rwa [settle_of_notMem (by simpa using hp)]
  | some pending =>
    exact inv.settled hp rfl (by simp [World.settle, mem_of_getElem? hp]) (.inl rfl)

end

theorem onLane_release (hp : w.queue.pending[id]? = some pending) {lane : Lane} :
    OnLane (w.release id pending).queue other lane ↔
      OnLane w.queue other lane ∨ other = id ∧ pending.lane = lane := by
  simp only [OnLane, World.release, markInFlight_inFlight,
    markInFlight_pending, Finset.mem_insert]
  constructor
  · rintro ⟨rfl | hfl, record, hr, rfl⟩
    · cases hp.symm.trans hr
      exact .inr ⟨rfl, rfl⟩
    · exact .inl ⟨hfl, record, hr, rfl⟩
  · rintro (⟨hfl, hex⟩ | ⟨rfl, rfl⟩)
    · exact ⟨.inr hfl, hex⟩
    · exact ⟨.inl rfl, pending, hp, rfl⟩

/-- Handing out an eligible request. -/
theorem HandOutInv.release (inv : HandOutInv w) (hp : w.queue.pending[id]? = some pending)
    (hfree : id ∉ w.queue.inFlight) (hlane : w.queue.laneAvailable pending.lane = true) :
    HandOutInv (w.release id pending) where
  keyed other record h := inv.keyed other record (by simpa [World.release] using h)
  tracked other hother := by
    simp only [World.release, markInFlight_inFlight, Finset.mem_insert,
      markInFlight_pending] at hother ⊢
    rcases hother with rfl | h
    · exact mem_of_getElem? hp
    · exact inv.tracked other h
  out_iff other lane := by
    refine Iff.trans ?_ (onLane_release hp).symm
    simp only [World.release, outstanding_snoc, outstandingStep, inv.keyed id pending hp,
      List.mem_append, List.mem_singleton, Prod.mk.injEq, inv.out_iff, OnLane]
    exact or_congr_right (and_congr_right fun _ => eq_comm)
  nodup := by
    simp only [World.release, outstanding_snoc, outstandingStep, inv.keyed id pending hp,
      List.map_append, List.map_cons, List.map_nil]
    refine List.nodup_append.2 ⟨inv.nodup, by simp, ?_⟩
    rintro a ha b hb rfl
    obtain rfl := List.mem_singleton.1 hb
    obtain ⟨⟨a, lane⟩, hmem, rfl⟩ := List.mem_map.1 ha
    exact hfree ((inv.out_iff _ _).1 hmem).1
  others other := by
    refine Iff.trans ?_ (onLane_release hp).symm
    rw [OnLane, ← inv.others, World.release]
    cases pending.lane <;> simp [markInFlight, or_comm]
  bounded := by
    rw [World.release]
    cases hl : pending.lane with
    | other =>
      have : w.queue.otherInFlight.card < otherLaneConcurrency := by
        simpa [hl, laneAvailable] using hlane
      exact (Finset.card_insert_le _ _).trans this
    | _ => exact inv.bounded

theorem HandOutInv.midLoop (inv : HandOutInv w) (nowMs : Int) (ids : List RequestId) :
    HandOutInv (w.midLoop nowMs ids) := by
  refine midLoop_invariant HandOutInv (fun ids id pending _ inv helig _ => ?_) inv
  exact inv.release helig.1 helig.2.2.1 helig.2.2.2.2

theorem HandOutInv.step (inv : HandOutInv w) (action : Action) : HandOutInv (w.step action) := by
  cases action with
  | enqueue request lane =>
    by_cases hmem : request.id ∈ w.queue.pending
    · rwa [step_enqueue_of_mem lane hmem]
    refine inv.quiet ?_ (by simp [World.step, enqueue, hmem])
      (by simp [World.step, enqueue, hmem]) ?_ ?_
    · simp only [World.step, enqueue, hmem, if_false]
      refine outstanding_append_quiet _ fun e he out => ?_
      rcases List.mem_append.1 he with h | h
      · obtain ⟨batch, -, rfl⟩ := List.mem_map.1 h
        rfl
      · rcases List.mem_cons.1 h with rfl | h
        · rfl
        · exact outstandingStep_markEvents _ e h out
    · intro id hid
      rw [step_enqueue_pending hmem, getElem?_insert_ite, if_neg]
      rintro rfl
      exact hmem hid
    · rw [step_enqueue_pending hmem]
      exact @keyed_insert _ ⟨request, lane, _⟩ inv.keyed
  | releasable nowMs =>
    rw [step_releasable]
    exact inv.midLoop nowMs w.queue.order
  | onResponse id response nowMs jitterUnit =>
    rcases w.queue.onResponse_cases w.store id response nowMs jitterUnit with
      ⟨hmem, heq⟩ | ⟨pending, hp, hsettle, heq⟩ | ⟨pending, hp, hretry, hq, heq⟩
    · exact inv.ignored hmem (by simp [World.step, heq]) (by simp [World.step, hmem])
    · exact inv.settled hp (by simp [World.step, heq])
        (by simp [World.step, mem_of_getElem? hp, hsettle]) (.inr rfl)
    · have hstep : w.step (.onResponse id response nowMs jitterUnit) =
          { w with
            queue := (w.queue.onResponse w.store id response nowMs jitterUnit).2.1
            trace := w.trace ++ [.answered id] } := by
        simp [World.step, hretry, heq]
      rw [hstep]
      exact inv.retried hp hq
  | onTransportError id nowMs jitterUnit =>
    rcases w.queue.onTransportError_cases id nowMs jitterUnit with ⟨hmem, heq⟩ | ⟨pending, hp, hq⟩
    · exact inv.ignored hmem (by simp [World.step, heq]) rfl
    · exact inv.retried hp hq
  | discardKind kind =>
    exact Trace.run_invariant HandOutInv (fun _ id inv => inv.settle id) inv
      (w.queue.idsOfKind kind)
  | _ =>
    exact inv.quiet (outstanding_append_quiet _ (by grind [markEvents, outstandingStep])) rfl rfl
      (fun _ _ => rfl) inv.keyed

/-! ## What a discard leaves -/

theorem mem_idsOfKind {queue : OutgoingQueue} {kind : OutgoingRequestKind}
    (hp : queue.pending[id]? = some pending) :
    id ∈ queue.idsOfKind kind ↔ pending.request.kind = kind := by
  simp only [idsOfKind, List.mem_map, List.mem_filter, decide_eq_true_eq,
    Prod.exists, exists_and_right, exists_eq_right, Std.ExtTreeMap.mem_toList_iff_getElem?_eq_some]
  constructor
  · rintro ⟨record, hr, hk⟩
    cases hp.symm.trans hr
    exact hk
  · intro hk
    exact ⟨pending, hp, hk⟩

theorem settle_inFlight (h : other ∈ (w.settle id).queue.inFlight) : other ∈ w.queue.inFlight := by
  cases hp : w.queue.pending[id]? with
  | none => rwa [settle_of_notMem (by simpa using hp)] at h
  | some pending =>
    simp only [World.settle, w.queue.complete_of_mem w.store id hp,
      clearInFlight_inFlight] at h
    exact Finset.mem_of_mem_erase h

/-- No request of a discarded kind is left. -/
theorem discardKind_pending {kind : OutgoingRequestKind}
    (h : (w.step (.discardKind kind)).queue.pending[id]? = some pending) :
    pending.request.kind ≠ kind := by
  have general : ∀ (ids : List RequestId) (w : World),
      (ids.foldl settle w).queue.pending[id]? = some pending →
        id ∉ ids ∧ w.queue.pending[id]? = some pending := by
    intro ids
    induction ids with
    | nil => exact fun w h => ⟨by simp, h⟩
    | cons first ids ih =>
      intro w h
      obtain ⟨hnotin, hmid⟩ := ih (w.settle first) h
      obtain ⟨hne, hold⟩ := settle_pending hmid
      exact ⟨by simp [hne, hnotin], hold⟩
  obtain ⟨hnotin, hold⟩ := general (w.queue.idsOfKind kind) w h
  exact fun hkind => hnotin ((mem_idsOfKind hold).2 hkind)

/-! ## Lanes with room for one -/

/-- Lane flags cover the requests in flight, except those that are about to go, and no
two requests in flight share a lane, for the lanes in `on`. -/
structure ExclusiveInv (on : Lane → Bool) (queue : OutgoingQueue)
    (leaving : PendingRequest → Prop) : Prop where
  flagged : ∀ (id : RequestId) (pending : PendingRequest), id ∈ queue.inFlight →
    queue.pending[id]? = some pending → on pending.lane = true → ¬ leaving pending →
      queue.laneAvailable pending.lane = false
  alone : ∀ (id other : RequestId) (pending record : PendingRequest), id ∈ queue.inFlight →
    other ∈ queue.inFlight → queue.pending[id]? = some pending →
    queue.pending[other]? = some record → on pending.lane = true →
    record.lane = pending.lane → other = id

variable {on : Lane → Bool} {queue after : OutgoingQueue} {leaving : PendingRequest → Prop}

theorem ExclusiveInv.quiet (inv : ExclusiveInv on queue leaving)
    (inFlight_eq : after.inFlight = queue.inFlight)
    (lane_eq : ∀ lane, after.laneAvailable lane = queue.laneAvailable lane)
    (kept : ∀ id ∈ queue.inFlight, after.pending[id]? = queue.pending[id]?) :
    ExclusiveInv on after leaving where
  flagged id pending hid hp := by
    rw [inFlight_eq] at hid
    rw [kept id hid] at hp
    rw [lane_eq]
    exact inv.flagged id pending hid hp
  alone id other pending record hid hother hp hr := by
    rw [inFlight_eq] at hid hother
    rw [kept id hid] at hp
    rw [kept other hother] at hr
    exact inv.alone id other pending record hid hother hp hr

/-- When may an answer or a discard be given. -/
def LaneSafe (on : Lane → Bool) (w : World) : Action → Prop
  | .onResponse id _ _ _ => w.queue.AnswerSafe on id
  | .onTransportError id _ _ => w.queue.AnswerSafe on id
  | .discardKind kind => w.queue.DiscardSafe on kind
  | _ => True

section Lanes

variable (exclusive : ∀ lane, on lane = true → lane.exclusive = true)

include exclusive

/-- The lane of `id` is freed; nothing else on that lane stays behind in flight. -/
theorem ExclusiveInv.freed (inv : ExclusiveInv on queue leaving) (id : RequestId) (lane : Lane)
    (inFlight_eq : after.inFlight = queue.inFlight.erase id)
    (lane_eq : ∀ l, after.laneAvailable l = (queue.clearInFlight id lane).laneAvailable l)
    (kept : ∀ other, other ≠ id → after.pending[other]? = queue.pending[other]?)
    (safe : on lane = true → ∀ (other : RequestId) (record : PendingRequest),
      other ∈ queue.inFlight → queue.pending[other]? = some record → record.lane = lane →
        other = id ∨ leaving record) :
    ExclusiveInv on after leaving where
  flagged other record hother hr hex hstay := by
    obtain ⟨hne, hfl⟩ := Finset.mem_erase.1 (inFlight_eq ▸ hother)
    rw [kept other hne] at hr
    have hlane : record.lane ≠ lane := by
      rintro rfl
      exact (safe hex other record hfl hr rfl).elim hne hstay
    rw [lane_eq, laneAvailable_clearInFlight_ne hlane (exclusive _ hex)]
    exact inv.flagged other record hfl hr hex hstay
  alone a b pa pb ha hb hpa hpb := by
    obtain ⟨hna, hfa⟩ := Finset.mem_erase.1 (inFlight_eq ▸ ha)
    obtain ⟨hnb, hfb⟩ := Finset.mem_erase.1 (inFlight_eq ▸ hb)
    rw [kept a hna] at hpa
    rw [kept b hnb] at hpb
    exact inv.alone a b pa pb hfa hfb hpa hpb

variable {id : RequestId} {pending : PendingRequest}

/-- A request is put in flight on a lane with room. -/
theorem ExclusiveInv.release (inv : ExclusiveInv on queue fun _ => False)
    (hp : queue.pending[id]? = some pending) (hlane : queue.laneAvailable pending.lane = true) :
    ExclusiveInv on (queue.markInFlight id pending.lane) fun _ => False := by
  -- A request in flight on the same exclusive lane would have kept the lane closed.
  have apart : ∀ (other : RequestId) (record : PendingRequest), other ∈ queue.inFlight →
      queue.pending[other]? = some record → on record.lane = true →
        record.lane ≠ pending.lane := by
    intro other record hother hr hex heq
    have := inv.flagged other record hother hr hex not_false
    rw [heq, hlane] at this
    cases this
  refine ⟨?_, ?_⟩
  · intro other record hother hr hex _
    rw [markInFlight_inFlight, Finset.mem_insert] at hother
    rw [markInFlight_pending] at hr
    rcases hother with rfl | hfl
    · cases hp.symm.trans hr
      exact laneAvailable_markInFlight_self (exclusive _ hex)
    · rw [laneAvailable_markInFlight_ne (apart other record hfl hr hex)
        (exclusive _ hex)]
      exact inv.flagged other record hfl hr hex not_false
  · intro a b pa pb ha hb hpa hpb hex heq
    rw [markInFlight_inFlight, Finset.mem_insert] at ha hb
    rw [markInFlight_pending] at hpa hpb
    rcases ha with rfl | ha <;> rcases hb with rfl | hb
    · rfl
    · cases hp.symm.trans hpa
      exact absurd heq (apart b pb hb hpb (by rw [heq]; exact hex))
    · cases hp.symm.trans hpb
      exact absurd heq.symm (apart a pa ha hpa hex)
    · exact inv.alone a b pa pb ha hb hpa hpb hex heq

theorem ExclusiveInv.midLoop (inv : ExclusiveInv on w.queue fun _ => False) (nowMs : Int)
    (ids : List RequestId) : ExclusiveInv on (w.midLoop nowMs ids).queue fun _ => False :=
  midLoop_invariant (fun w => ExclusiveInv on w.queue fun _ => False)
    (fun _ _ _ _ inv helig _ => inv.release exclusive helig.1 helig.2.2.2.2) inv

theorem ExclusiveInv.retried (inv : ExclusiveInv on queue fun _ => False)
    (hp : queue.pending[id]? = some pending) (safe : queue.AnswerSafe on id)
    (hq : queue.RetriedFrom id after pending.lane) :
    ExclusiveInv on after fun _ => False := by
  obtain ⟨attempts, retryNotBeforeMs, rfl⟩ := hq
  refine inv.freed exclusive id pending.lane (by simp) (fun l => by cases l <;> rfl)
    (fun _ _ => by simp) ?_
  intro hex other record hfl hr heq
  exact .inl (safe pending hp hex other record hfl hr heq)

/-- Settling a request leaves the lanes of the requests that stay as they were. -/
theorem ExclusiveInv.settled (inv : ExclusiveInv on queue leaving) (store : Store)
    (hp : queue.pending[id]? = some pending)
    (safe : on pending.lane = true → ∀ (other : RequestId) (record : PendingRequest),
      other ∈ queue.inFlight → queue.pending[other]? = some record →
      record.lane = pending.lane → other = id ∨ leaving record) :
    ExclusiveInv on (queue.complete store id).1 leaving := by
  rw [queue.complete_of_mem store id hp]
  refine inv.freed exclusive id pending.lane (by simp) (fun l => by cases l <;> rfl) ?_ safe
  intro other hne
  simp [Std.ExtTreeMap.getElem?_erase, Ne.symm hne]

/-- A discard settles its requests one by one; until it is done their lanes may be open. -/
theorem ExclusiveInv.discard {kind : OutgoingRequestKind} (ids : List RequestId) :
    ∀ w : World, (∀ id ∈ ids, ∀ pending : PendingRequest, w.queue.pending[id]? = some pending →
        pending.request.kind = kind) →
      w.queue.DiscardSafe on kind →
      ExclusiveInv on w.queue (fun pending => pending.request.kind = kind) →
      ExclusiveInv on (ids.foldl World.settle w).queue
        (fun pending => pending.request.kind = kind) := by
  induction ids with
  | nil => intro w _ _ inv; exact inv
  | cons id ids ih =>
    intro w hkind safe inv
    rw [List.foldl_cons]
    refine ih (w.settle id) (fun i hi record hr => hkind i (List.mem_cons_of_mem _ hi) record
      (settle_pending hr).2) ?_ ?_
    · intro i p hi hpk hex other record hother hr heq
      exact safe i p (settle_pending hi).2 hpk hex other record (settle_inFlight hother)
        (settle_pending hr).2 heq
    · cases hp : w.queue.pending[id]? with
      | none =>
        rw [settle_of_notMem (by simpa using hp)]
        exact inv
      | some pending =>
        have hk : pending.request.kind = kind := hkind id (by simp) pending hp
        exact inv.settled exclusive w.store hp fun hex other record hfl hr heq =>
          .inr (safe id pending hp hk hex other record hfl hr heq)

/-- Under `LaneSafe` every step keeps the exclusive lanes exclusive. -/
theorem ExclusiveInv.step (inv : ExclusiveInv on w.queue fun _ => False) (base : HandOutInv w)
    (action : Action) (safe : LaneSafe on w action) :
    ExclusiveInv on (w.step action).queue fun _ => False := by
  cases action with
  | enqueue request lane =>
    by_cases hmem : request.id ∈ w.queue.pending
    · rwa [step_enqueue_of_mem lane hmem]
    · refine inv.quiet (by simp [World.step, enqueue, hmem]) ?_ ?_
      · intro l
        cases l <;> simp [World.step, enqueue, hmem, laneAvailable]
      · intro id hid
        rw [step_enqueue_pending hmem, getElem?_insert_ite, if_neg]
        rintro rfl
        exact hmem (base.tracked _ hid)
  | releasable nowMs =>
    exact inv.midLoop exclusive nowMs w.queue.order
  | onResponse id response nowMs jitterUnit =>
    rcases w.queue.onResponse_cases w.store id response nowMs jitterUnit with
      ⟨hmem, heq⟩ | ⟨pending, hp, hsettle, heq⟩ | ⟨pending, hp, hretry, hq, heq⟩
    · have hsame : (w.step (.onResponse id response nowMs jitterUnit)).queue = w.queue := by
        simp [World.step, heq]
      rwa [hsame]
    · have hcomplete : (w.step (.onResponse id response nowMs jitterUnit)).queue =
          (w.queue.complete w.store id).1 := by simp [World.step, heq]
      rw [hcomplete]
      exact inv.settled exclusive w.store hp fun hex other record hfl hr hl =>
        .inl (safe pending hp hex other record hfl hr hl)
    · exact inv.retried exclusive hp safe hq
  | onTransportError id nowMs jitterUnit =>
    rcases w.queue.onTransportError_cases id nowMs jitterUnit with ⟨hmem, heq⟩ | ⟨pending, hp, hq⟩
    · have hsame : (w.step (.onTransportError id nowMs jitterUnit)).queue = w.queue := by
        simp [World.step, heq]
      rwa [hsame]
    · exact inv.retried exclusive hp safe hq
  | discardKind kind =>
    have weaker : ExclusiveInv on w.queue fun pending => pending.request.kind = kind :=
      ⟨fun id pending hid hp hex _ => inv.flagged id pending hid hp hex not_false, inv.alone⟩
    have hinv := ExclusiveInv.discard exclusive (w.queue.idsOfKind kind) w
      (fun id hid pending hp => (mem_idsOfKind hp).1 hid) safe weaker
    refine ⟨fun id pending hid hp hex _ => ?_, hinv.alone⟩
    exact hinv.flagged id pending hid hp hex (discardKind_pending hp)
  | _ => exact inv

end Lanes

/-! ## Flags and the requests that set them -/

/-- Nothing is in flight after a restart. -/
theorem load_idle (store : Store) :
    (OutgoingQueue.load store).inFlight = ∅ ∧ (OutgoingQueue.load store).otherInFlight = ∅ := by
  have general : ∀ (records : List PendingRequest) (queue : OutgoingQueue),
      (records.foldl loadRecord queue).inFlight = queue.inFlight ∧
        (records.foldl loadRecord queue).otherInFlight = queue.otherInFlight := by
    intro records
    induction records with
    | nil => intro queue; exact ⟨rfl, rfl⟩
    | cons record records ih => intro queue; exact ih _
  exact general _ new

theorem start_outstanding (records : List SealedRecord) (store : Store) :
    outstanding (start records store).trace = [] := by
  rw [World.start, outstanding_append_quiet]
  · have := outstanding_append_quiet [] (outstandingStep_markEvents
      ((unknownRecords store.deviceId records).map fun r => (r.key, .write r.bytes)))
    simpa [outstanding] using this
  · intro e he out
    obtain ⟨record, -, rfl⟩ := List.mem_map.1 he
    rfl

theorem HandOutInv.start (records : List SealedRecord) (store : Store) :
    HandOutInv (start records store) := by
  obtain ⟨hflight, hother⟩ := load_idle store
  have hout := start_outstanding records store
  refine ⟨load_keyed store, ?_, ?_, by simp [hout], ?_, ?_⟩
  · simp [World.start, hflight]
  · intro id lane
    rw [hout]
    simp [World.start, hflight]
  · simp [World.start, hflight, hother]
  · simp [World.start, hother]

theorem ExclusiveInv.start (on : Lane → Bool) (records : List SealedRecord) (store : Store) :
    ExclusiveInv on (start records store).queue fun _ => False := by
  obtain ⟨hflight, -⟩ := load_idle store
  exact ⟨by simp [World.start, hflight], by simp [World.start, hflight]⟩

theorem HandOutInv.handedOut_other_le (inv : HandOutInv w) :
    handedOut w.trace .other ≤ otherLaneConcurrency := by
  have hnodup : (((outstanding w.trace).filter fun entry => entry.2 = .other).map Prod.fst).Nodup :=
    inv.nodup.sublist (List.filter_sublist.map _)
  have hsub : (((outstanding w.trace).filter fun entry => entry.2 = .other).map
      Prod.fst).toFinset ⊆ w.queue.otherInFlight := by
    intro id hid
    obtain ⟨⟨id, lane⟩, hmem, rfl⟩ := List.mem_map.1 (List.mem_toFinset.1 hid)
    obtain ⟨hin, hlane⟩ := List.mem_filter.1 hmem
    simp only [decide_eq_true_eq] at hlane
    subst hlane
    exact (inv.others id).2 ((inv.out_iff id _).1 hin)
  calc handedOut w.trace .other
      = (((outstanding w.trace).filter fun entry => entry.2 = .other).map
          Prod.fst).toFinset.card := by
        rw [List.toFinset_card_of_nodup hnodup, List.length_map, handedOut]
    _ ≤ w.queue.otherInFlight.card := Finset.card_le_card hsub
    _ ≤ otherLaneConcurrency := inv.bounded

/-- In every run, with answers and errors of any kind at any time, the requests in flight are
exactly the open hand-outs, no request is handed out twice at once, and the unordered lane has at
most four of them. -/
theorem inFlight_iff_outstanding (records : List SealedRecord) (store : Store)
    (actions : List Action) :
    let w := (start records store).run actions
    (∀ id, id ∈ w.queue.inFlight ↔ id ∈ (outstanding w.trace).map Prod.fst) ∧
      ((outstanding w.trace).map Prod.fst).Nodup ∧
      handedOut w.trace .other ≤ otherLaneConcurrency := by
  intro w
  have inv : HandOutInv w := Trace.run_invariant HandOutInv (fun _ action inv => inv.step action)
    (.start records store) actions
  refine ⟨fun id => ⟨fun hflight => ?_, fun hout => ?_⟩, inv.nodup, inv.handedOut_other_le⟩
  · obtain ⟨pending, hp⟩ := Option.isSome_iff_exists.1
      (Std.ExtTreeMap.mem_iff_isSome_getElem?.1 (inv.tracked id hflight))
    exact List.mem_map.2 ⟨_, (inv.out_iff id pending.lane).2 ⟨hflight, pending, hp, rfl⟩, rfl⟩
  · obtain ⟨⟨id, lane⟩, hmem, rfl⟩ := List.mem_map.1 hout
    exact ((inv.out_iff id lane).1 hmem).1

end World

end Messenger
