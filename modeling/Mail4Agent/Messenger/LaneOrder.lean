import Mail4Agent.Messenger.Lanes

/-!
# First in, first out within a lane

Requests of the to-device lane and of one room's lane are meant to go out in the
order they came in, each only after the one before it has settled. The queue
walks its requests oldest first and keeps the lane closed while one of them is in
flight. It does not keep the lane closed while the oldest one waits out a backoff:
the loop skips that request and hands out the next one, as `overtaken_in_backoff`
shows. A restored request may be skipped in the same way while its flush epoch is
still open.

`noOvertaking_of_orderSafe` says when the order does hold: whenever requests are
released, a request of an open ordered lane is ready only if all its elders in
that lane are, and no answer reopens a lane that another request occupies.
-/

namespace Messenger

open OutgoingQueue

/-- A lane whose requests must settle in the order they came in. -/
def Lane.ordered : Lane → Bool
  | .toDevice | .room _ => true
  | .sync | .accountData | .other => false

theorem Lane.exclusive_of_ordered (lane : Lane) (h : lane.ordered = true) :
    lane.exclusive = true := by
  cases lane <;> first | rfl | cases h

/-- A request came in, from a call or from the store. -/
def Event.enters (id : RequestId) (lane : Lane) (event : Event) : Prop :=
  event = .restored id lane ∨ event = .enqueued id lane

/-- Of two requests in one ordered lane, the later is released only after the earlier has
settled. -/
def NoOvertaking (trace : List Event) : Prop :=
  ∀ (lane : Lane) (first second : RequestId) (e₁ e₂ : Event) (before mid rest after : List Event),
    lane.ordered = true → first ≠ second → e₁.enters first lane → e₂.enters second lane →
    trace = before ++ e₁ :: (mid ++ e₂ :: (rest ++ .released second lane :: after)) →
      .settled first ∈ mid ++ rest

/-! ## The line of waiting requests -/

/-- How one event changes the line of waiting requests. -/
def waitingStep (line : List (RequestId × Lane)) : Event → List (RequestId × Lane)
  | .restored id lane => line ++ [(id, lane)]
  | .enqueued id lane => line ++ [(id, lane)]
  | .settled id => line.filter fun entry => entry.1 ≠ id
  | _ => line

/-- The requests that came in and have not settled, oldest first. -/
def waiting (trace : List Event) : List (RequestId × Lane) :=
  trace.foldl waitingStep []

theorem waiting_append (a b : List Event) : waiting (a ++ b) = b.foldl waitingStep (waiting a) := by
  simp [waiting]

@[simp] theorem waiting_snoc (trace : List Event) (event : Event) :
    waiting (trace ++ [event]) = waitingStep (waiting trace) event := by
  simp [waiting_append]

variable {id : RequestId} {lane : Lane}

theorem waitingStep_enters {event : Event} (h : event.enters id lane)
    (line : List (RequestId × Lane)) :
    waitingStep line event = line ++ [(id, lane)] := by
  rcases h with rfl | rfl <;> rfl

/-- Events that nobody enters or leaves the line by. -/
theorem foldl_waitingStep_quiet {new : List Event}
    (quiet : ∀ e ∈ new, ∀ line, waitingStep line e = line) (line : List (RequestId × Lane)) :
    new.foldl waitingStep line = line := by
  induction new with
  | nil => rfl
  | cons e new ih =>
    rw [List.foldl_cons, quiet e (by simp)]
    exact ih fun e he => quiet e (List.mem_cons_of_mem _ he)

/-- Whoever does not settle keeps its place: those ahead of it only become fewer. -/
theorem foldl_waitingStep_keeps (id : RequestId) (lane : Lane) :
    ∀ (new : List Event) (ahead behind : List (RequestId × Lane)), .settled id ∉ new →
      ∃ ahead' behind', new.foldl waitingStep (ahead ++ (id, lane) :: behind) =
        ahead' ++ (id, lane) :: behind' ∧ ahead'.Sublist ahead := by
  intro new
  induction new with
  | nil => intro ahead behind _; exact ⟨ahead, behind, rfl, .refl _⟩
  | cons e new ih =>
    intro ahead behind hnot
    rw [List.mem_cons, not_or] at hnot
    obtain ⟨ahead₁, behind₁, hstep, hsub⟩ : ∃ ahead₁ behind₁,
        waitingStep (ahead ++ (id, lane) :: behind) e = ahead₁ ++ (id, lane) :: behind₁ ∧
          ahead₁.Sublist ahead := by
      cases e with
      | restored other l => exact ⟨ahead, behind ++ [(other, l)], by simp [waitingStep], .refl _⟩
      | enqueued other l => exact ⟨ahead, behind ++ [(other, l)], by simp [waitingStep], .refl _⟩
      | settled other =>
        have hne : id ≠ other := fun h => hnot.1 (by rw [h])
        exact ⟨ahead.filter fun entry => entry.1 ≠ other,
          behind.filter fun entry => entry.1 ≠ other, by simp [waitingStep, hne],
          List.filter_sublist⟩
      | _ => exact ⟨ahead, behind, rfl, .refl _⟩
    obtain ⟨ahead₂, behind₂, hrest, hsub₂⟩ := ih ahead₁ behind₁ hnot.2
    exact ⟨ahead₂, behind₂, by rw [List.foldl_cons, hstep, hrest], hsub₂.trans hsub⟩

/-- The request is the oldest of its lane in the line. -/
def HeadOf (line : List (RequestId × Lane)) (id : RequestId) (lane : Lane) : Prop :=
  ∃ ahead behind, line = ahead ++ (id, lane) :: behind ∧ ∀ entry ∈ ahead, entry.2 ≠ lane

/-- Requests enter the line once, and leave an ordered lane from its head. -/
def InTurn (line : List (RequestId × Lane)) : Event → Prop
  | .restored id _ => id ∉ line.map Prod.fst
  | .enqueued id _ => id ∉ line.map Prod.fst
  | .released id lane => lane.ordered = true → HeadOf line id lane
  | _ => True

theorem InTurn.enters {line : List (RequestId × Lane)} {event : Event} (turn : InTurn line event)
    (h : event.enters id lane) :
    id ∉ line.map Prod.fst := by
  rcases h with rfl | rfl <;> exact turn

/-- If only heads of ordered lanes are released, nobody overtakes. -/
theorem noOvertaking_of_inTurn {trace : List Event}
    (turns : Trace.Always (fun before event => InTurn (waiting before) event) trace) :
    NoOvertaking trace := by
  intro lane first second e₁ e₂ before mid rest after hord hne h₁ h₂ heq
  by_contra hnot
  rw [List.mem_append, not_or] at hnot
  -- The earlier request stands in line, the later one enters behind it.
  obtain ⟨ahead, behind, hmid, -⟩ :=
    foldl_waitingStep_keeps first lane mid (waiting before) [] hnot.1
  have hline : waiting (before ++ e₁ :: mid) = ahead ++ (first, lane) :: behind := by
    rw [List.append_cons, waiting_append, waiting_snoc, waitingStep_enters h₁, hmid]
  have hfresh : second ∉ (waiting (before ++ e₁ :: mid)).map Prod.fst :=
    (turns (before ++ e₁ :: mid) e₂ (rest ++ .released second lane :: after)
      (by simp [heq])).enters h₂
  obtain ⟨ahead', behind', hrest, hsub⟩ :=
    foldl_waitingStep_keeps first lane rest ahead (behind ++ [(second, lane)]) hnot.2
  have hend : waiting (before ++ e₁ :: (mid ++ e₂ :: rest)) =
      ahead' ++ (first, lane) :: behind' := by
    rw [← List.cons_append, ← List.append_assoc, List.append_cons, waiting_append, waiting_snoc,
      waitingStep_enters h₂, hline]
    simpa using hrest
  -- So the later one is not the head of its lane when it is released.
  obtain ⟨front, back, hhead, hfront⟩ : HeadOf (waiting (before ++ e₁ :: (mid ++ e₂ :: rest)))
      second lane :=
    turns (before ++ e₁ :: (mid ++ e₂ :: rest)) (.released second lane) after (by simp [heq]) hord
  have hahead : second ∉ ahead'.map Prod.fst := fun h =>
    hfresh (by rw [hline, List.map_append]; exact List.mem_append_left _ ((hsub.map _).subset h))
  rw [hend] at hhead
  rcases List.append_eq_append_iff.1 hhead with ⟨more, hmore, hcons⟩ | ⟨more, hmore, hcons⟩
  · cases more with
    | nil =>
      have : first = second ∧ behind' = back := by simpa using hcons
      exact hne this.1
    | cons entry more =>
      obtain ⟨rfl, -⟩ := List.cons.inj hcons
      exact hfront (first, lane) (by simp [hmore]) rfl
  · cases more with
    | nil =>
      have : second = first ∧ back = behind' := by simpa using hcons
      exact hne this.1.symm
    | cons entry more =>
      obtain ⟨rfl, -⟩ := List.cons.inj hcons
      exact hahead (by simp [hmore])

/-! ## The queue keeps the line -/

namespace OutgoingQueue

variable {queue : OutgoingQueue} {store : Store} {nowMs : Int}

/-- Neither a backoff nor an open flush epoch holds the request back. -/
def Ready (queue : OutgoingQueue) (store : Store) (nowMs : Int) (id : RequestId)
    (pending : PendingRequest) : Prop :=
  queue.backingOff id nowMs = false ∧ store.isReleased pending.requiredSeq = true

/-- In an open ordered lane, a request that is ready has only ready elders. -/
def EldersReady (queue : OutgoingQueue) (store : Store) (nowMs : Int) : Prop :=
  ∀ (first second : RequestId) (elder pending : PendingRequest),
    [first, second].Sublist queue.order → queue.pending[first]? = some elder →
    queue.pending[second]? = some pending → elder.lane = pending.lane →
    pending.lane.ordered = true → queue.laneAvailable pending.lane = true →
    queue.Ready store nowMs second pending → queue.Ready store nowMs first elder

/-- With nothing held back there is nothing to overtake. -/
theorem eldersReady_of_all (h : ∀ id ∈ queue.order, queue.backingOff id nowMs = false ∧
    queue.pending[id]?.all (fun pending => store.isReleased pending.requiredSeq) = true) :
    queue.EldersReady store nowMs := by
  intro first second elder pending hsub he _ _ _ _ _
  obtain ⟨hback, hall⟩ := h first (hsub.subset (by simp))
  exact ⟨hback, by simpa [he] using hall⟩

theorem backingOff_releaseLoop (ids : List RequestId) (id : RequestId) :
    (queue.releaseLoop store nowMs ids).queue.backingOff id nowMs = queue.backingOff id nowMs := by
  simp only [backingOff, (releaseLoop_frame ids).2.2]

variable {id : RequestId}

/-- The loop puts requests in flight and takes none back. -/
theorem releaseLoop_inFlight_mono (a b : List RequestId)
    (h : id ∈ (queue.releaseLoop store nowMs a).queue.inFlight) :
    id ∈ (queue.releaseLoop store nowMs (a ++ b)).queue.inFlight := by
  induction b using List.reverseRecOn with
  | nil => simpa using h
  | append_singleton b other ih =>
    rw [← List.append_assoc, releaseLoop_snoc]
    rcases releaseOne_cases store nowMs (queue.releaseLoop store nowMs (a ++ b)) other with
      ⟨released, -, -, hq, -⟩ | ⟨-, hq, -⟩
    · rw [hq, markInFlight_inFlight]
      exact Finset.mem_insert_of_mem ih
    · rw [hq]
      exact ih

/-- The loop opens no lane. -/
theorem releaseLoop_laneAvailable_anti (a b : List RequestId) {lane : Lane}
    (h : (queue.releaseLoop store nowMs (a ++ b)).queue.laneAvailable lane = true) :
    (queue.releaseLoop store nowMs a).queue.laneAvailable lane = true := by
  induction b using List.reverseRecOn with
  | nil => simpa using h
  | append_singleton b id ih =>
    rw [← List.append_assoc, releaseLoop_snoc] at h
    refine ih ?_
    rcases releaseOne_cases store nowMs (queue.releaseLoop store nowMs (a ++ b)) id with
      ⟨released, -, -, hq, -⟩ | ⟨-, hq, -⟩
    · exact laneAvailable_of_markInFlight (hq ▸ h)
    · rwa [hq] at h

/-- A ready request that had its turn is in flight, or its lane is closed. -/
theorem inFlight_of_turn {earlier later : List RequestId} {pending : PendingRequest}
    (hp : queue.pending[id]? = some pending) (hne : pending.lane ≠ .accountData)
    (ready : queue.Ready store nowMs id pending)
    (hopen : (queue.releaseLoop store nowMs (earlier ++ id :: later)).queue.laneAvailable
      pending.lane = true) :
    id ∈ (queue.releaseLoop store nowMs (earlier ++ id :: later)).queue.inFlight := by
  have hlane := releaseLoop_laneAvailable_anti earlier (id :: later) hopen
  by_cases hflight : id ∈ (queue.releaseLoop store nowMs earlier).queue.inFlight
  · exact releaseLoop_inFlight_mono earlier (id :: later) hflight
  -- Its turn came with the lane open, so it was handed out.
  have helig : eligible (queue.releaseLoop store nowMs earlier) nowMs id pending :=
    ⟨by rw [(releaseLoop_frame earlier).1]; exact hp, fun h => hne h.1, hflight,
      by rw [backingOff_releaseLoop]; exact ready.1, hlane⟩
  rw [List.append_cons]
  apply releaseLoop_inFlight_mono
  rw [releaseLoop_snoc]
  rcases releaseOne_cases store nowMs (queue.releaseLoop store nowMs earlier) id with
    ⟨released, -, -, hq, -⟩ | ⟨hnone, -, -⟩
  · simp [hq]
  · exact absurd ready.2 (by simp [hnone pending helig])

end OutgoingQueue

/-- Events that leave the line as it is and are never out of turn. -/
def Event.idle : Event → Bool
  | .gate _ | .answered _ => true
  | _ => false

theorem waitingStep_of_idle {event : Event} (h : event.idle = true)
    (line : List (RequestId × Lane)) : waitingStep line event = line := by
  cases event <;> first | rfl | cases h

theorem idle_markEvents (changes : List Mark) : ∀ e ∈ markEvents changes, e.idle = true := by
  intro e he
  obtain ⟨change, -, rfl⟩ := List.mem_map.1 he
  rfl

namespace World

variable {w after : World}

/-- The queue's order is the line of the trace, and every event so far was in turn. -/
structure OrderInv (w : World) : Prop where
  order_eq : w.queue.order = (waiting w.trace).map Prod.fst
  nodup : w.queue.order.Nodup
  lanes : ∀ (id : RequestId) (lane : Lane), (id, lane) ∈ waiting w.trace →
    ∃ pending, w.queue.pending[id]? = some pending ∧ pending.lane = lane
  turns : Trace.Always (fun before event => InTurn (waiting before) event) w.trace

/-- Steps that leave order and requests alone. -/
theorem OrderInv.quiet (inv : OrderInv w) {new : List Event}
    (trace_eq : after.trace = w.trace ++ new) (idle : ∀ e ∈ new, e.idle = true)
    (order_eq : after.queue.order = w.queue.order)
    (pending_eq : after.queue.pending = w.queue.pending) : OrderInv after := by
  have hline : waiting after.trace = waiting w.trace := by
    rw [trace_eq, waiting_append]
    exact foldl_waitingStep_quiet (fun e he line => waitingStep_of_idle (idle e he) line) _
  refine ⟨by rw [order_eq, hline, inv.order_eq], order_eq ▸ inv.nodup, ?_, ?_⟩
  · rw [hline, pending_eq]
    exact inv.lanes
  · rw [trace_eq]
    refine inv.turns.append fun before event rest h => ?_
    have := idle event (by simp [h])
    cases event <;> trivial

variable {id : RequestId} {nowMs : Int}

section

variable (inv : OrderInv w)

include inv

/-- A request joins the line at its end. -/
theorem OrderInv.entered {event : Event} {lane : Lane} (enters : event.enters id lane)
    (fresh : id ∉ w.queue.order) (trace_eq : after.trace = w.trace ++ [event])
    (order_eq : after.queue.order = w.queue.order ++ [id])
    (pending_eq : ∃ pending, after.queue.pending = w.queue.pending.insert id pending ∧
      pending.lane = lane) : OrderInv after := by
  have hline : waiting after.trace = waiting w.trace ++ [(id, lane)] := by
    rw [trace_eq, waiting_snoc, waitingStep_enters enters]
  obtain ⟨pending, hpending, hlane⟩ := pending_eq
  refine ⟨by rw [order_eq, hline, inv.order_eq]; simp, ?_, ?_, ?_⟩
  · rw [order_eq]
    exact List.nodup_append.2 ⟨inv.nodup, by simp, fun a ha b hb => by
      rintro rfl
      exact fresh (List.mem_singleton.1 hb ▸ ha)⟩
  · intro other l h
    rw [hline, List.mem_append, List.mem_singleton, Prod.mk.injEq] at h
    rcases h with h | ⟨rfl, rfl⟩
    · obtain ⟨record, hr, hl⟩ := inv.lanes other l h
      have hne : other ≠ id := by
        rintro rfl
        exact fresh (inv.order_eq ▸ List.mem_map.2 ⟨_, h, rfl⟩)
      exact ⟨record, by rw [hpending, getElem?_insert_ite, if_neg hne, hr], hl⟩
    · exact ⟨pending, by rw [hpending]; simp, hlane⟩
  · rw [trace_eq]
    refine inv.turns.snoc ?_
    rw [inv.order_eq] at fresh
    rcases enters with rfl | rfl <;> exact fresh

theorem OrderInv.mem_pending (h : id ∈ w.queue.order) : id ∈ w.queue.pending := by
  rw [inv.order_eq] at h
  obtain ⟨⟨id, lane⟩, hmem, rfl⟩ := List.mem_map.1 h
  obtain ⟨pending, hp, -⟩ := inv.lanes id lane hmem
  exact mem_of_getElem? hp

/-- A new request seals the gate, joins the line and has its record marked. -/
theorem OrderInv.enqueue {request : OutgoingRequest} (lane : Lane)
    (fresh : request.id ∉ w.queue.pending) : OrderInv (w.step (.enqueue request lane)) := by
  let batch := (w.queue.enqueue w.store request lane).1
  let sealedWorld : World :=
    { w with trace := w.trace ++ batch.toList.map fun batch => .gate (.sealed batch) }
  let joined : World :=
    { w.step (.enqueue request lane) with
      trace := sealedWorld.trace ++ [.enqueued request.id lane] }
  have hsealed : OrderInv sealedWorld := by
    refine inv.quiet rfl ?_ rfl rfl
    intro e he
    obtain ⟨batch, -, rfl⟩ := List.mem_map.1 he
    rfl
  have hjoined : OrderInv joined := by
    refine hsealed.entered (.inr rfl) (fun h => fresh (inv.mem_pending h)) rfl ?_ ?_
    · simp [joined, sealedWorld, World.step, OutgoingQueue.enqueue, fresh]
    · exact ⟨_, by simp [joined, sealedWorld, World.step, OutgoingQueue.enqueue, fresh]; rfl, rfl⟩
  have htrace : (w.step (.enqueue request lane)).trace = joined.trace ++
      markEvents [pendingChange w.store ⟨request, lane, w.store.sealForRequest.1.1⟩] := by
    simp [joined, sealedWorld, batch, World.step, fresh]
  exact hjoined.quiet htrace (idle_markEvents _) rfl rfl

/-- A request leaves the line from wherever it stands. -/
theorem OrderInv.settle (id : RequestId) : OrderInv (w.settle id) := by
  cases hp : w.queue.pending[id]? with
  | none => rwa [settle_of_notMem (by simpa using hp)]
  | some pending =>
    -- The record's deletion is marked on the gate after the request has left.
    let gone : World := { w.settle id with trace := w.trace ++ [.settled id] }
    have hgone : OrderInv gone := by
      have hline : waiting gone.trace = (waiting w.trace).filter fun entry => entry.1 ≠ id := by
        simp [gone, waitingStep]
      refine ⟨?_, ?_, ?_, inv.turns.snoc trivial⟩
      · rw [hline]
        simp only [gone, World.settle, w.queue.complete_of_mem w.store id hp]
        rw [inv.order_eq, List.filter_map]
        rfl
      · simp only [gone, World.settle, w.queue.complete_of_mem w.store id hp]
        exact inv.nodup.filter _
      · intro other lane h
        rw [hline, List.mem_filter] at h
        obtain ⟨record, hr, hl⟩ := inv.lanes other lane h.1
        refine ⟨record, ?_, hl⟩
        simp only [gone, World.settle, w.queue.complete_of_mem w.store id hp, getElem?_erase_ite,
          if_neg (of_decide_eq_true h.2), hr]
    have htrace : (w.settle id).trace = gone.trace ++ markEvents (settleChanges w.store id) := by
      simp [World.settle, mem_of_getElem? hp, gone]
    exact hgone.quiet htrace (idle_markEvents _) rfl rfl

/-- A request that the loop hands out is the head of its ordered lane. -/
theorem OrderInv.headOf_eligible (excl : ExclusiveInv Lane.ordered w.queue fun _ => False)
    (elders : w.queue.EldersReady w.store nowMs) {ids : List RequestId} {pending : PendingRequest}
    (hpre : ids ++ [id] <+: w.queue.order)
    (helig : OutgoingQueue.eligible (w.queue.releaseLoop w.store nowMs ids) nowMs id pending)
    (hrel : w.store.isReleased pending.requiredSeq = true) (hord : pending.lane.ordered = true) :
    HeadOf (waiting w.trace) id pending.lane := by
  obtain ⟨hp, -, -, hback, hopen⟩ := helig
  rw [(releaseLoop_frame ids).1] at hp
  rw [backingOff_releaseLoop] at hback
  obtain ⟨rest, horder⟩ := hpre
  obtain ⟨ahead, back, hline, hahead, hback'⟩ :=
    List.map_eq_append_iff.1 (inv.order_eq.symm.trans (horder.symm.trans (List.append_assoc _ _ _)))
  obtain ⟨⟨id', lane⟩, behind, rfl, rfl, -⟩ := List.map_eq_cons_iff.1 hback'
  have hlane : lane = pending.lane := by
    obtain ⟨record, hr, rfl⟩ := inv.lanes id' lane (by simp [hline])
    rw [Option.some.inj (hr.symm.trans hp)]
  subst hlane
  refine ⟨ahead, behind, hline, ?_⟩
  rintro ⟨first, lane⟩ hentry rfl
  obtain ⟨elder, he, hsame⟩ := inv.lanes first pending.lane (by simp [hline, hentry])
  -- An elder of the lane would be ready too, so its turn put it in flight.
  have hfirst : first ∈ ids := by
    rw [← hahead]
    exact List.mem_map.2 ⟨_, hentry, rfl⟩
  have hstart : w.queue.laneAvailable pending.lane = true :=
    releaseLoop_laneAvailable_anti [] ids hopen
  have hready : w.queue.Ready w.store nowMs first elder := by
    refine elders first id' elder pending ?_ he hp hsame hord hstart ⟨hback, hrel⟩
    rw [← horder, List.append_assoc]
    exact (List.singleton_sublist.2 hfirst).append (by simp)
  rw [← hsame] at hopen hord
  obtain ⟨earlier, later, rfl⟩ := List.append_of_mem hfirst
  have hflight := inFlight_of_turn he (fun h => by rw [h] at hord; cases hord) hready hopen
  have hclosed := (excl.midLoop Lane.exclusive_of_ordered nowMs (earlier ++ first :: later)).flagged
    first elder hflight (by rw [World.midLoop, (releaseLoop_frame _).1]; exact he)
    hord not_false
  rw [World.midLoop, hopen] at hclosed
  cases hclosed

/-- The loop keeps the line, and hands out nothing out of turn. -/
theorem OrderInv.releasable (base : HandOutInv w)
    (excl : ExclusiveInv Lane.ordered w.queue fun _ => False)
    (elders : w.queue.EldersReady w.store nowMs) : OrderInv (w.step (.releasable nowMs)) := by
  rw [step_releasable]
  have general : OrderInv (w.midLoop nowMs w.queue.order) ∧
      waiting (w.midLoop nowMs w.queue.order).trace = waiting w.trace := by
    refine midLoop_invariant
      (fun mid => OrderInv mid ∧ waiting mid.trace = waiting w.trace)
      (fun ids id pending hpre mid helig hrel => ?_) ⟨inv, rfl⟩
    have hline : waiting ((w.midLoop nowMs ids).release id pending).trace =
        waiting (w.midLoop nowMs ids).trace := by simp [World.release, waitingStep]
    refine ⟨⟨?_, ?_, ?_, ?_⟩, hline.trans mid.2⟩
    · rw [hline]
      simpa [World.release] using mid.1.order_eq
    · simpa [World.release] using mid.1.nodup
    · rw [hline]
      simpa [World.release] using mid.1.lanes
    · refine mid.1.turns.snoc fun hord => ?_
      have hkey : pending.request.id = id := base.keyed id pending (by
        rw [← (releaseLoop_frame ids).1]
        exact helig.1)
      rw [mid.2, hkey]
      exact inv.headOf_eligible excl elders hpre helig hrel hord
  exact general.1

end

/-- Requests are released only when no elder is held back, and answers are safe. -/
def OrderSafe (w : World) : Action → Prop
  | .releasable nowMs => w.queue.EldersReady w.store nowMs
  | action => LaneSafe Lane.ordered w action

theorem OrderInv.step (inv : OrderInv w) (base : HandOutInv w)
    (excl : ExclusiveInv Lane.ordered w.queue fun _ => False) (action : Action)
    (safe : OrderSafe w action) : OrderInv (w.step action) := by
  cases action with
  | enqueue request lane =>
    by_cases hmem : request.id ∈ w.queue.pending
    · rwa [step_enqueue_of_mem lane hmem]
    -- The gate is sealed, the request joins the line, its record is marked.
    exact inv.enqueue lane hmem
  | releasable nowMs => exact inv.releasable base excl safe
  | onResponse id response nowMs jitterUnit =>
    rcases w.queue.onResponse_cases w.store id response nowMs jitterUnit with
      ⟨hmem, heq⟩ | ⟨pending, hp, hsettle, heq⟩ | ⟨pending, hp, hretry, hq, -⟩
    · exact inv.quiet rfl (by simp [hmem, Event.idle]) (by simp [World.step, heq])
        (by simp [World.step, heq])
    · rw [step_onResponse_of_settling hp hsettle heq]
      have hanswered : OrderInv { w with trace := w.trace ++ [.answered id] } :=
        inv.quiet rfl (by simp [Event.idle]) rfl rfl
      exact hanswered.settle id
    · obtain ⟨attempts, retryNotBeforeMs, hq⟩ := hq
      exact inv.quiet rfl (by simp [hretry, Event.idle]) (by simp [World.step, hq])
        (by simp [World.step, hq])
  | onTransportError id nowMs jitterUnit =>
    rcases w.queue.onTransportError_cases id nowMs jitterUnit with ⟨-, heq⟩ | ⟨pending, hp, hq⟩
    · exact inv.quiet rfl (by simp [Event.idle]) (by simp [World.step, heq])
        (by simp [World.step, heq])
    · obtain ⟨attempts, retryNotBeforeMs, hq⟩ := hq
      exact inv.quiet rfl (by simp [Event.idle]) (by simp [World.step, hq])
        (by simp [World.step, hq])
  | discardKind kind =>
    exact Trace.run_invariant OrderInv (fun _ id inv => inv.settle id) inv
      (w.queue.idsOfKind kind)
  | _ => exact inv.quiet rfl (by grind [markEvents, Event.idle]) rfl rfl

/-- A restart puts the stored requests in line, by identifier. -/
theorem OrderInv.start (records : List SealedRecord) {store : Store} (filed : store.Filed) :
    OrderInv (start records store) := by
  have general : ∀ (pendings : List PendingRequest) (w : World), OrderInv w →
      (pendings.map fun record => record.request.id).Nodup →
      (∀ record ∈ pendings, record.request.id ∉ w.queue.order) →
      OrderInv { w with
        queue := pendings.foldl loadRecord w.queue
        trace := w.trace ++ pendings.map fun record =>
          .restored record.request.id (upgradeLane record).lane } := by
    intro pendings
    induction pendings with
    | nil => intro w inv _ _; simpa using inv
    | cons record rest ih =>
      intro w inv hnodup hfresh
      obtain ⟨hnot, hrest⟩ := List.nodup_cons.1 hnodup
      have hjoined : OrderInv { w with
          queue := w.queue.loadRecord record
          trace := w.trace ++
            [.restored record.request.id (upgradeLane record).lane] } :=
        inv.entered (.inl rfl) (hfresh record (by simp)) rfl
          (by simp [loadRecord]) ⟨_, by simp [loadRecord], rfl⟩
      have := ih _ hjoined hrest fun other hother => by
        simp only [loadRecord, upgradeLane_request, List.mem_append,
          List.mem_singleton, not_or]
        refine ⟨hfresh other (List.mem_cons_of_mem _ hother), fun heq => hnot ?_⟩
        exact List.mem_map.2 ⟨other, hother, heq⟩
      simpa using this
  have hempty : OrderInv ⟨store, new, []⟩ :=
    ⟨rfl, List.nodup_nil, by simp [waiting], Trace.always_nil⟩
  have hmarked : OrderInv ⟨store, new, markEvents
      ((unknownRecords store.deviceId records).map fun r => (r.key, .write r.bytes))⟩ :=
    hempty.quiet (List.nil_append _).symm (idle_markEvents _) rfl rfl
  exact general (sortedRecords store) _ hmarked
    (sortedRecords_nodup filed) (by simp [new])

/-- In every run that releases requests only when no elder of an open ordered lane is held
back, and whose answers and discards leave occupied ordered lanes closed, the later of two
requests of an ordered lane is released only after the earlier has settled. -/
theorem noOvertaking_of_orderSafe (records : List SealedRecord) {store : Store}
    (filed : store.Filed) (actions : List Action)
    (safe : Trace.Meets World.step OrderSafe (start records store) actions) :
    NoOvertaking ((start records store).run actions).trace := by
  have inv : HandOutInv ((start records store).run actions) ∧
      ExclusiveInv Lane.ordered ((start records store).run actions).queue (fun _ => False) ∧
      OrderInv ((start records store).run actions) := by
    refine Trace.run_invariant_of_meets
      (fun w => HandOutInv w ∧ ExclusiveInv Lane.ordered w.queue (fun _ => False) ∧ OrderInv w)
      (fun w action guard inv => ⟨inv.1.step action, ?_, inv.2.2.step inv.1 inv.2.1 action guard⟩)
      safe ⟨HandOutInv.start records store, ExclusiveInv.start _ records store,
        OrderInv.start records filed⟩
    refine inv.2.1.step Lane.exclusive_of_ordered inv.1 action ?_
    cases action <;> first | exact guard | trivial
  exact noOvertaking_of_inTurn inv.2.2.turns

/-- An empty to-device message. -/
def toDeviceMessage (seed : Nat) : OutgoingRequest :=
  .sendToDevice (.next seed) "m.room.encrypted" (.new seed) (.obj [])

/-- Two messages are released; the first one is answered by `answer` before the second call. -/
def twoMessages (answer : Action) : List Action :=
  [.enqueue (toDeviceMessage 0) .toDevice, .enqueue (toDeviceMessage 1) .toDevice, .ack 0,
    .releasable 0, answer, .releasable 0]

/-- When the first message times out, the second goes out while the first backs off. -/
theorem overtaken_in_backoff :
    ¬ NoOvertaking ((start [] (Store.new ⟨"DEV1"⟩ insecurePlainCodecForTests blankSerde)).run
      (twoMessages (.onTransportError (.next 0) 0 1))).trace := by
  intro h
  generalize htrace : ((start [] (Store.new ⟨"DEV1"⟩ insecurePlainCodecForTests blankSerde)).run
    (twoMessages (.onTransportError (.next 0) 0 1))).trace = trace at h
  have hcut : trace = [] ++ .enqueued (.next 0) .toDevice :: ((trace.drop 1).take 2 ++
      .enqueued (.next 1) .toDevice :: ((trace.drop 4).take 4 ++
        .released (.next 1) .toDevice :: [])) := by
    subst htrace
    decide +kernel
  have hsettled := h .toDevice (.next 0) (.next 1) _ _ _ _ _ _ rfl (by decide) (.inr rfl)
    (.inr rfl) hcut
  subst htrace
  revert hsettled
  decide +kernel

/-- When it is answered, the second message is in turn. -/
theorem noOvertaking_of_answered :
    NoOvertaking ((start [] (Store.new ⟨"DEV1"⟩ insecurePlainCodecForTests blankSerde)).run
      (twoMessages (.onResponse (.next 0) ⟨200, none⟩ 0 1))).trace := by
  refine noOvertaking_of_orderSafe [] (by simp [Store.Filed, Store.new]) _
    ⟨trivial, trivial, trivial, ?_, ?_, ?_, trivial⟩
  · exact eldersReady_of_all (by decide)
  · intro pending _ _ other record hother _ _
    have hflight : (((start [] (Store.new ⟨"DEV1"⟩ insecurePlainCodecForTests blankSerde)).run
        ((twoMessages (.onResponse (.next 0) ⟨200, none⟩ 0 1)).take 4)).queue.inFlight) =
          {.next 0} := by
      decide
    exact Finset.mem_singleton.1 (hflight ▸ hother)
  · exact eldersReady_of_all (by decide)

end World

end Messenger
