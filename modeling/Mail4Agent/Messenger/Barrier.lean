import Mail4Agent.Messenger.QueueRun

/-!
# The flush-before-send barrier

Whenever the queue hands a request out, every change marked before that request
was enqueued is contained in a batch that has been acknowledged: the batch that
drained it carries, for the key, the last change of that key up to the draining.
Conversely the barrier looks at nothing newer than the request. Once the batches
drained up to its enqueue are acknowledged, a request that is otherwise eligible
at its turn of the release loop is handed out, whatever has been marked, drained
or left unacknowledged since.

The argument is one invariant of the world. The gate's history is the trace; an
enqueue leaves nothing open behind it; and the epoch recorded with a tracked
request is the number of the newest batch at its own, latest enqueue.
-/

namespace Messenger

open OutgoingQueue

@[simp] theorem gateTrace_nil : gateTrace [] = [] := rfl

@[simp] theorem gateTrace_append (a b : List Event) :
    gateTrace (a ++ b) = gateTrace a ++ gateTrace b :=
  List.filterMap_append

@[simp] theorem gateTrace_gate_cons (event : GateEvent) (rest : List Event) :
    gateTrace (.gate event :: rest) = event :: gateTrace rest := rfl

@[simp] theorem gateTrace_enqueued_cons (id : RequestId) (lane : Lane) (rest : List Event) :
    gateTrace (.enqueued id lane :: rest) = gateTrace rest := rfl

@[simp] theorem gateTrace_answered_cons (id : RequestId) (rest : List Event) :
    gateTrace (.answered id :: rest) = gateTrace rest := rfl

@[simp] theorem gateTrace_settled_cons (id : RequestId) (rest : List Event) :
    gateTrace (.settled id :: rest) = gateTrace rest := rfl

@[simp] theorem gateTrace_markEvents (changes : List Mark) :
    gateTrace (markEvents changes) = changes.map fun change => .marked change.1 change.2 := by
  induction changes with
  | nil => rfl
  | cons change changes ih =>
    simp only [markEvents, List.map_cons, gateTrace_gate_cons] at ih ⊢
    rw [ih]

theorem gateTrace_seals (batch : Option FlushBatch) :
    gateTrace (batch.toList.map fun batch => Event.gate (.sealed batch)) =
      batch.toList.map GateEvent.sealed := by
  cases batch <;> rfl

theorem mem_gateTrace {event : GateEvent} {trace : List Event} :
    event ∈ gateTrace trace ↔ .gate event ∈ trace := by
  simp only [gateTrace, List.mem_filterMap]
  constructor
  · rintro ⟨e, hmem, heq⟩
    cases e <;> simp_all
  · intro h
    exact ⟨_, h, rfl⟩

/-! ## The gate's history is the trace -/

namespace FlushGate.History

variable {events : List GateEvent} {gate : FlushGate}

theorem marks (h : History events gate) (changes : List Mark) :
    History (events ++ changes.map fun change => .marked change.1 change.2)
      (changes.foldl (fun gate change => gate.mark change.1 change.2) gate) := by
  induction changes generalizing events gate with
  | nil => simpa using h
  | cons change changes ih =>
    have := ih (h.marked change.1 change.2)
    simpa using this

/-- Draining extends the history by the batch, if there was one. -/
theorem drained (h : History events gate) :
    History (events ++ gate.takeBatch.1.toList.map .sealed) gate.takeBatch.2 := by
  rcases gate.takeBatch_cases with ⟨-, ht⟩ | ⟨-, ht⟩
  · simpa [ht] using h
  · rw [ht]
    exact h.sealed ht

end FlushGate.History

theorem FlushGate.takeBatch_pending (gate : FlushGate) : gate.takeBatch.2.pending = ∅ := by
  rcases gate.takeBatch_cases with ⟨h, ht⟩ | ⟨-, ht⟩
  · rw [ht, h]
  · rw [ht]

theorem Store.deletePendingRequest_gate (store : Store) (id : RequestId) :
    (store.deletePendingRequest id).gate =
      (settleChanges store id).foldl (fun gate change => gate.mark change.1 change.2)
        store.gate := by
  unfold Store.deletePendingRequest settleChanges
  split <;> rfl

namespace World

open FlushGate (History)

variable {w : World}

theorem settle_history (h : History (gateTrace w.trace) w.store.gate) (id : RequestId) :
    History (gateTrace (w.settle id).trace) (w.settle id).store.gate := by
  by_cases hmem : id ∈ w.queue.pending
  · obtain ⟨pending, hp⟩ :=
      Std.ExtTreeMap.mem_iff_isSome_getElem?.1 hmem |> Option.isSome_iff_exists.1
    simp only [settle, hmem, if_true, w.queue.complete_of_mem w.store id hp, gateTrace_append,
      gateTrace_settled_cons, gateTrace_markEvents, Store.deletePendingRequest_gate]
    exact h.marks _
  · simpa [settle, hmem, w.queue.complete_of_notMem w.store id hmem] using h

theorem step_history (h : History (gateTrace w.trace) w.store.gate) (action : Action) :
    History (gateTrace (w.step action).trace) (w.step action).store.gate := by
  cases action with
  | mutate mutation =>
    simp only [step, gateTrace_append, gateTrace_markEvents, Mutation.run_gate]
    exact h.marks _
  | saveCounters counters =>
    simp only [step, gateTrace_append, gateTrace_markEvents]
    exact h.marks [countersChange w.store counters]
  | takeBatch =>
    simp only [step, gateTrace_append, gateTrace_seals]
    exact h.drained
  | ack id =>
    simp only [step, gateTrace_append]
    exact h.acked id
  | enqueue request lane =>
    by_cases hmem : request.id ∈ w.queue.pending
    · simpa [step, enqueue, hmem] using h
    · simp only [step, enqueue, hmem, if_false, gateTrace_append,
        gateTrace_enqueued_cons, gateTrace_markEvents, gateTrace_seals]
      rw [← List.append_assoc]
      have hdrained := h.drained
      simp only [Store.sealForRequest, FlushGate.sealForRequest_eq]
      exact hdrained.marks [pendingChange w.store _]
  | releasable nowMs =>
    have hnone : gateTrace ((w.queue.releaseLoop w.store nowMs w.queue.order).out.map
        fun record => .released record.request.id record.lane) = [] := by
      simp [gateTrace]
    simpa only [step, gateTrace_append, hnone, List.append_nil] using h
  | onResponse id response nowMs jitterUnit =>
    rcases w.queue.onResponse_cases w.store id response nowMs jitterUnit with
      ⟨hmem, heq⟩ | ⟨pending, hp, hsettle, heq⟩ | ⟨pending, hp, hretry, -, heq⟩
    · simpa [step, heq, hmem] using h
    · rw [step_onResponse_of_settling hp hsettle heq]
      exact settle_history (by simpa using h) id
    · simpa [step, heq, hretry] using h
  | onTransportError id nowMs jitterUnit => simpa [step] using h
  | discardKind kind =>
    exact Trace.run_invariant (fun w : World => History (gateTrace w.trace) w.store.gate)
      (fun _ id h => settle_history h id) h (w.queue.idsOfKind kind)

end World

/-! ## The barrier invariant -/

/-- The epoch recorded when `count` batches have been drained. -/
def newestSeq (count : Nat) : RequiredSeq := ⟨if count = 0 then none else some (count - 1)⟩

namespace World

open FlushGate (History)

variable {w : World}

variable {records : List SealedRecord} {codec : RecordCodec} {serde : Serde} {device : DeviceId}
  {store : Store} {id : RequestId} {pending : PendingRequest} {lane : Lane}

/-- Loading marks the records of unknown kinds, and nothing else. -/
theorem start_history (loaded : Store.load records codec serde device = .ok store) :
    History (gateTrace (start records store).trace) store.gate := by
  have general : ∀ (records : List SealedRecord) (before after : Store) (events : List GateEvent),
      History events before.gate → records.foldlM Store.loadRecord before = .ok after →
        after.deviceId = before.deviceId ∧
        History (events ++ (unknownRecords before.deviceId records).map
          fun r => .marked r.key (.write r.bytes)) after.gate := by
    intro records
    induction records with
    | nil =>
      intro before after events hist h
      cases h
      exact ⟨rfl, by simpa [unknownRecords] using hist⟩
    | cons record records ih =>
      intro before after events hist h
      rw [List.foldlM_cons] at h
      cases hone : before.loadRecord record with
      | error e => rw [hone] at h; cases h
      | ok middle =>
        rw [hone] at h
        rcases Store.loadRecord_cases hone with ⟨recognized, plaintext, hparse, -,
          happly⟩ | ⟨hparse, rfl⟩
        · obtain ⟨hgate, hdevice, -, -⟩ := Store.applyRecognized_frame happly
          obtain ⟨hd, hh⟩ := ih middle after events (by rw [hgate]; exact hist) h
          refine ⟨hd.trans hdevice, ?_⟩
          simpa [unknownRecords, hparse, hdevice] using hh
        · obtain ⟨hd, hh⟩ := ih _ after _ (hist.marked record.key (.write record.bytes)) h
          refine ⟨hd, ?_⟩
          simpa [unknownRecords, hparse] using hh
  obtain ⟨hdevice, hist⟩ := general records _ store [] .new loaded
  have hnone : gateTrace ((sortedRecords store).map fun record =>
      .restored record.request.id (upgradeLane record).lane) = [] := by
    simp [gateTrace]
  simpa only [start, gateTrace_append, hnone, List.append_nil, gateTrace_markEvents, List.map_map,
    Function.comp_def, hdevice, List.nil_append] using hist

/-- What the barrier needs to know about a reachable world. -/
structure BarrierInv (w : World) : Prop where
  history : History (gateTrace w.trace) w.store.gate
  /-- A tracked request is filed under its own identifier. -/
  keyed : ∀ id (pending : PendingRequest), w.queue.pending[id]? = some pending →
    pending.request.id = id
  /-- Nothing marked before an enqueue is still open at it. -/
  closed : ∀ before id lane after, w.trace = before ++ .enqueued id lane :: after →
    openMarks (gateTrace before) = []
  /-- A tracked request waits for the newest batch of its latest enqueue. -/
  epoch : ∀ before id lane after, w.trace = before ++ .enqueued id lane :: after →
    (∀ lane, .enqueued id lane ∉ after) →
    ∀ pending : PendingRequest, w.queue.pending[id]? = some pending →
      pending.requiredSeq = newestSeq (seals (gateTrace before)).length

/-- An extension without a new enqueue and without a new tracked request. -/
theorem BarrierInv.extend (inv : BarrierInv w) {after : World} {new : List Event}
    (trace_eq : after.trace = w.trace ++ new) (no_enqueue : ∀ id lane, .enqueued id lane ∉ new)
    (history : History (gateTrace after.trace) after.store.gate)
    (tracked : ∀ (id : RequestId) (pending : PendingRequest),
      after.queue.pending[id]? = some pending → w.queue.pending[id]? = some pending) :
    BarrierInv after where
  history := history
  keyed id pending h := inv.keyed id pending (tracked id pending h)
  closed before id lane rest h := by
    rcases Trace.append_eq_cut (trace_eq.symm.trans h) with ⟨old, rfl, hold⟩ | ⟨more, -, hnew⟩
    · exact inv.closed before id lane old hold
    · exact absurd (by simp [hnew]) (no_enqueue id lane)
  epoch before id lane rest h hlast pending hp := by
    rcases Trace.append_eq_cut (trace_eq.symm.trans h) with ⟨old, rfl, hold⟩ | ⟨more, -, hnew⟩
    · exact inv.epoch before id lane old hold
        (fun lane hmem => hlast lane (List.mem_append_left _ hmem)) pending (tracked id pending hp)
    · exact absurd (by simp [hnew]) (no_enqueue id lane)

theorem no_enqueued_markEvents (changes : List Mark) (id : RequestId) (lane : Lane) :
    .enqueued id lane ∉ markEvents changes := by
  simp [markEvents]

theorem BarrierInv.settle (inv : BarrierInv w) (id : RequestId) : BarrierInv (w.settle id) := by
  refine inv.extend rfl ?_ (settle_history inv.history id) ?_
  · intro other lane
    split
    · simp [no_enqueued_markEvents]
    · simp
  · intro other pending hp
    exact (settle_pending hp).2

/-- A fresh enqueue drains the gate first and then records the newest batch. -/
theorem BarrierInv.enqueue (inv : BarrierInv w) (request : OutgoingRequest) (lane : Lane) :
    BarrierInv (w.step (.enqueue request lane)) := by
  by_cases hmem : request.id ∈ w.queue.pending
  · rwa [step_enqueue_of_mem lane hmem]
  have history := step_history inv.history (.enqueue request lane)
  have hdrained := inv.history.drained
  have hbatch : w.store.sealForRequest.1.2 = w.store.gate.takeBatch.1 := by
    simp [Store.sealForRequest, FlushGate.sealForRequest_eq]
  have hseq : w.store.sealForRequest.1.1 = newestSeq w.store.gate.takeBatch.2.nextBatchId := by
    simp [Store.sealForRequest, FlushGate.sealForRequest_eq, newestSeq]
  -- The trace up to the new enqueue, and everything it adds.
  have htrace : (w.step (.enqueue request lane)).trace =
      (w.trace ++ w.store.gate.takeBatch.1.toList.map fun batch => .gate (.sealed batch)) ++
        .enqueued request.id lane ::
          markEvents [pendingChange w.store ⟨request, lane, w.store.sealForRequest.1.1⟩] := by
    simp [step, OutgoingQueue.enqueue, hmem, hbatch]
  have cut : ∀ before id l after,
      (w.step (.enqueue request lane)).trace = before ++ .enqueued id l :: after →
      (∃ old, w.trace = before ++ .enqueued id l :: old ∧ .enqueued request.id lane ∈ after ∧
        ∀ e ∈ old, e ∈ after) ∨
      (id = request.id ∧ gateTrace before =
        gateTrace w.trace ++ w.store.gate.takeBatch.1.toList.map .sealed) := by
    intro before id l after h
    rcases Trace.append_eq_cut (htrace.symm.trans h) with ⟨old, rfl, hold⟩ | ⟨more, rfl, hnew⟩
    · rcases Trace.append_eq_cut hold with ⟨older, rfl, hw⟩ | ⟨more, -, hnew⟩
      · exact .inl ⟨older, hw, by simp, fun e he => by simp [he]⟩
      · have : Event.enqueued id l ∈ w.store.gate.takeBatch.1.toList.map
            fun batch => Event.gate (.sealed batch) := by simp [hnew]
        simp at this
    · cases more with
      | nil =>
        obtain ⟨heq, -⟩ := List.cons.inj hnew
        cases heq
        exact .inr ⟨rfl, by simp [gateTrace_seals]⟩
      | cons e more =>
        obtain ⟨-, hrest⟩ := List.cons.inj hnew
        have : Event.enqueued id l ∈ markEvents
            [pendingChange w.store ⟨request, lane, w.store.sealForRequest.1.1⟩] := by simp [hrest]
        exact absurd this (no_enqueued_markEvents _ _ _)
  refine ⟨history, ?_, ?_, ?_⟩
  · rw [step_enqueue_pending hmem]
    exact @keyed_insert _ ⟨request, lane, _⟩ inv.keyed
  · intro before id l after h
    rcases cut before id l after h with ⟨old, hw, -, -⟩ | ⟨-, hgate⟩
    · exact inv.closed before id l old hw
    · rw [hgate, ← lastOps_eq_empty_iff, ← hdrained.pending_eq]
      exact w.store.gate.takeBatch_pending
  · intro before id l after h hlast pending hp
    rw [step_enqueue_pending hmem, getElem?_insert_ite] at hp
    rcases cut before id l after h with ⟨old, hw, hnew, hold⟩ | ⟨rfl, hgate⟩
    · split_ifs at hp with hid
      · subst hid
        exact absurd hnew (hlast lane)
      · exact inv.epoch before id l old hw (fun l' hl => hlast l' (hold _ hl)) pending hp
    · rw [if_pos rfl] at hp
      cases hp
      rw [hgate, ← hdrained.nextBatchId_eq]
      exact hseq

theorem BarrierInv.step (inv : BarrierInv w) (action : Action) : BarrierInv (w.step action) := by
  have history := step_history inv.history action
  cases action with
  | enqueue request lane => exact inv.enqueue request lane
  | releasable nowMs =>
    refine inv.extend rfl (by simp) history fun id pending h => ?_
    rwa [← (releaseLoop_frame w.queue.order).1]
  | onResponse id response nowMs jitterUnit =>
    rcases w.queue.onResponse_cases w.store id response nowMs jitterUnit with
      ⟨hmem, heq⟩ | ⟨pending, hp, hsettle, heq⟩ | ⟨pending, hp, hretry, ⟨_, _, hq⟩, heq⟩
    · refine inv.extend rfl (by simp [hmem]) history fun other pending h => ?_
      simpa [World.step, heq] using h
    · rw [step_onResponse_of_settling hp hsettle heq]
      have hanswered : BarrierInv { w with trace := w.trace ++ [.answered id] } :=
        inv.extend rfl (by simp) (by simpa using inv.history) fun _ _ h => h
      exact hanswered.settle id
    · refine inv.extend rfl (by simp [hretry]) history fun other record h => ?_
      simpa [World.step, hq] using h
  | onTransportError id nowMs jitterUnit =>
    refine inv.extend rfl (by simp) history fun other record h => ?_
    rcases w.queue.onTransportError_cases id nowMs jitterUnit with ⟨-, heq⟩ | ⟨_, -, _, _, heq⟩
    · simpa [World.step, heq] using h
    · simpa [World.step, heq] using h
  | discardKind kind =>
    exact Trace.run_invariant BarrierInv (fun _ id inv => inv.settle id) inv
      (w.queue.idsOfKind kind)
  | _ => exact inv.extend rfl (by simp [no_enqueued_markEvents]) history fun _ _ h => h

/-- A restored queue files every request under its own identifier. -/
theorem load_keyed (store : Store) (id : RequestId) (pending : PendingRequest)
    (h : (OutgoingQueue.load store).pending[id]? = some pending) : pending.request.id = id := by
  have general : ∀ (records : List PendingRequest) (queue : OutgoingQueue),
      (∀ (id : RequestId) (pending : PendingRequest),
        queue.pending[id]? = some pending → pending.request.id = id) →
      ∀ (id : RequestId) (pending : PendingRequest),
        (records.foldl loadRecord queue).pending[id]? = some pending →
          pending.request.id = id := by
    intro records
    induction records with
    | nil => intro queue h; exact h
    | cons record records ih =>
      intro queue hq
      exact ih _ (keyed_insert hq)
  exact general _ new (by simp [new]) id pending h

theorem BarrierInv.start (loaded : Store.load records codec serde device = .ok store) :
    BarrierInv (start records store) := by
  have none_enqueued : ∀ id lane, Event.enqueued id lane ∉ (World.start records store).trace := by
    intro id lane
    simp [World.start, markEvents]
  refine ⟨start_history loaded, load_keyed store, ?_, ?_⟩
  · intro before id lane after h
    exact absurd (by simp [h]) (none_enqueued id lane)
  · intro before id lane after h
    exact absurd (by simp [h]) (none_enqueued id lane)

/-- The invariant holds in every reachable world. -/
theorem barrierInv_run (loaded : Store.load records codec serde device = .ok store)
    (actions : List Action) :
    BarrierInv ((World.start records store).run actions) :=
  Trace.run_invariant BarrierInv (fun _ action inv =>
    inv.step action) (BarrierInv.start loaded) actions

/-- A change is contained in a batch that has been acknowledged: the first batch after
it carries the last change of its key so far, and was acknowledged after it was drained. -/
def Flushed (key : RecordKey) (op : PendingOp) (rest : List Event) : Prop :=
  ∃ front batch back, rest = front ++ .gate (.sealed batch) :: back ∧
    (∀ other, .gate (.sealed other) ∉ front) ∧
    batch.entry key = lastOp key ((key, op) :: marks (gateTrace front)) ∧
    .gate (.acked batch.id) ∈ back

/-- Batches that no longer wait for an acknowledgement were acknowledged after their draining. -/
theorem acked_of_not_awaiting {events : List GateEvent} {batch : FlushBatch}
    {rest : List GateEvent} (h : awaiting batch.id (events ++ .sealed batch :: rest) = false) :
    .acked batch.id ∈ rest := by
  by_contra hnot
  have hsince : awaiting batch.id (events ++ .sealed batch :: rest) = true := by
    refine (Trace.since_iff _ _).2 ⟨events, .sealed batch, rest, rfl, by simp, ?_⟩
    intro later hlater
    cases later with
    | acked id =>
      have : id ≠ batch.id := by
        rintro rfl
        exact hnot hlater
      simpa using this
    | _ => rfl
  rw [h] at hsince
  cases hsince

/-- Under the invariant, a released epoch leaves no older change unflushed. -/
theorem BarrierInv.flushed (inv : BarrierInv w) (tracked : w.queue.pending[id]? = some pending)
    (released : w.store.isReleased pending.requiredSeq = true) {older newer after : List Event}
    {key : RecordKey} {op : PendingOp}
    (cut : w.trace = older ++ .gate (.marked key op) :: newer ++ .enqueued id lane :: after) :
    Flushed key op (newer ++ .enqueued id lane :: after) := by
  -- Move to the latest enqueue of the request; the change is older than that one, too.
  obtain ⟨more, last, rest, hlast, ⟨lane', rfl⟩, hnone⟩ :
      ∃ more last rest, older ++ .gate (.marked key op) :: newer ++ .enqueued id lane :: after =
        older ++ .gate (.marked key op) :: newer ++ more ++ last :: rest ∧
        (∃ l, last = .enqueued id l) ∧ ∀ e ∈ rest, ¬ ∃ l, e = .enqueued id l := by
    classical
    exact Trace.exists_last (p := fun e => ∃ l, e = Event.enqueued id l) ⟨lane, rfl⟩
  have hnewer : newer ++ .enqueued id lane :: after =
    newer ++ more ++ .enqueued id lane' :: rest := by
    simpa using hlast
  rw [hnewer]
  have hcut : w.trace = (older ++ .gate (.marked key op) :: (newer ++ more)) ++
      .enqueued id lane' :: rest := by rw [cut, hlast]; simp
  have hclosed := inv.closed _ _ _ _ hcut
  have hepoch := inv.epoch _ _ _ _ hcut (fun l hl => hnone _ hl ⟨l, rfl⟩) pending tracked
  -- The change has been drained: the enqueue left nothing open.
  have hsome : ∃ e ∈ newer ++ more, ∃ b, e = .gate (.sealed b) := by
    by_contra hno
    push Not at hno
    have hsplit : gateTrace (older ++ .gate (.marked key op) :: (newer ++ more)) =
        (gateTrace older ++ [.marked key op]) ++ gateTrace (newer ++ more) := by simp
    rw [hsplit, openMarks_append_of_no_seal] at hclosed
    · simp at hclosed
    · intro b hb
      exact hno _ (mem_gateTrace.1 hb) b rfl
  obtain ⟨front, event, back, hfront, ⟨batch, rfl⟩, hfirst⟩ : ∃ front event back,
      newer ++ more = front ++ event :: back ∧ (∃ b, event = .gate (.sealed b)) ∧
        ∀ e ∈ front, ¬ ∃ b, e = .gate (.sealed b) := by
    classical
    exact Trace.exists_first (p := fun e => ∃ b, e = Event.gate (.sealed b)) hsome
  have hhist := inv.history
  have hgate : gateTrace w.trace = (gateTrace older ++ .marked key op :: gateTrace front) ++
      .sealed batch :: (gateTrace back ++ gateTrace rest) := by
    rw [hcut, hfront]
    simp
  rw [hgate] at hhist
  obtain ⟨hbatch, -⟩ := hhist.sealed_eq
  have hopen : openMarks (gateTrace older ++ .marked key op :: gateTrace front) =
      openMarks (gateTrace older) ++ (key, op) :: marks (gateTrace front) := by
    have happend : gateTrace older ++ .marked key op :: gateTrace front =
        (gateTrace older ++ [.marked key op]) ++ gateTrace front := by simp
    rw [happend, openMarks_append_of_no_seal, openMarks_marked, List.append_assoc]
    · rfl
    · intro b hb
      exact hfirst _ (mem_gateTrace.1 hb) ⟨b, rfl⟩
  refine ⟨front, batch, back ++ .enqueued id lane' :: rest, by rw [hfront]; simp, ?_, ?_, ?_⟩
  · intro other hother
    exact hfirst _ hother ⟨other, rfl⟩
  · rw [hbatch, FlushBatch.entry_drain, getElem?_lastOps, hopen, lastOp_append_cons]
  · -- The batch is not newer than the request's epoch, so it cannot be unacknowledged.
    have hcount : (seals (gateTrace (older ++ .gate (.marked key op) :: (newer ++ more)))).length =
        (seals (gateTrace older ++ .marked key op :: gateTrace front)).length + 1 +
          (seals (gateTrace back)).length := by
      rw [hfront]
      simp [seals]
      omega
    have hid : batch.id = (seals
      (gateTrace older ++ .marked key op :: gateTrace front)).length := by
      rw [hbatch, FlushBatch.drain_id]
    have hnot : batch.id ∉ w.store.gate.unackedBatches := by
      intro hmem
      have hlt := FlushGate.isReleased_iff.1 released _ (by rw [hepoch, newestSeq,
        if_neg (by omega)])
        batch.id hmem
      omega
    have hawait : awaiting batch.id (gateTrace w.trace) = false := by
      rw [inv.history.mem_unackedBatches_iff] at hnot
      simpa using hnot
    rw [hgate] at hawait
    have hacked := acked_of_not_awaiting hawait
    rw [← gateTrace_append, mem_gateTrace] at hacked
    rcases List.mem_append.1 hacked with h | h
    · exact List.mem_append_left _ h
    · exact List.mem_append_right _ (List.mem_cons_of_mem _ h)

/-- Under the invariant, acknowledging what was drained before the enqueue releases the epoch. -/
theorem BarrierInv.isReleased (inv : BarrierInv w) (tracked : w.queue.pending[id]? = some pending)
    {before after : List Event} (cut : w.trace = before ++ .enqueued id lane :: after)
    (latest : ∀ lane, .enqueued id lane ∉ after)
    (acked : ∀ batch, .gate (.sealed batch) ∈ before →
      awaiting batch.id (gateTrace w.trace) = false) :
    w.store.isReleased pending.requiredSeq = true := by
  have hepoch := inv.epoch before id lane after cut latest pending tracked
  refine FlushGate.isReleased_iff.2 fun seq hseq i hi => ?_
  rw [hepoch] at hseq
  by_contra hle
  have hlt : i < (seals (gateTrace before)).length := by
    simp only [newestSeq] at hseq
    split at hseq
    · cases hseq
    · have := Option.some.inj hseq
      omega
  -- Batch `i` was drained before the enqueue.
  obtain ⟨earlier, hearlier⟩ : ∃ earlier, FlushGate.History (gateTrace before) earlier := by
    have hhist := inv.history
    rw [cut, gateTrace_append] at hhist
    exact hhist.initial
  have hbatch : (seals (gateTrace before))[i].id = i := by
    simp [hearlier.seals_eq]
  have hmem : .gate (.sealed (seals (gateTrace before))[i]) ∈ before := by
    have hin := List.getElem_mem hlt
    obtain ⟨e, he, heq⟩ := List.mem_filterMap.1 hin
    cases e with
    | sealed b =>
      cases heq
      exact mem_gateTrace.1 he
    | _ => cases heq
  have := acked _ hmem
  rw [hbatch] at this
  rw [(inv.history.mem_unackedBatches_iff i).1 hi] at this
  cases this

/-- The barrier, both ways. In every reachable world, a request handed out has every
change marked before any of its enqueues flushed and acknowledged; and a request whose
earlier batches are acknowledged is handed out as soon as it is otherwise eligible at its
turn, whatever happened after its enqueue. -/
theorem releasable_barrier {records : List SealedRecord} {codec : RecordCodec} {serde : Serde}
    {device : DeviceId} {store : Store}
    (loaded : Store.load records codec serde device = .ok store) (actions : List Action)
    (nowMs : Int) :
    (∀ request ∈ (((World.start records store).run actions).queue.releasable
        ((World.start records store).run actions).store nowMs).1,
      ∀ (older : List Event) (key : RecordKey) (op : PendingOp) (newer : List Event) (lane : Lane)
        (after : List Event),
        ((World.start records store).run actions).trace =
          older ++ .gate (.marked key op) :: newer ++ .enqueued request.id lane :: after →
        Flushed key op (newer ++ .enqueued request.id lane :: after)) ∧
    (∀ (before : List Event) (id : RequestId) (lane : Lane) (after : List Event),
      ((World.start records store).run actions).trace = before ++ .enqueued id lane :: after →
      (∀ lane, .enqueued id lane ∉ after) →
      (∀ batch, .gate (.sealed batch) ∈ before →
        awaiting batch.id (gateTrace ((World.start records store).run actions).trace) = false) →
      ∀ (earlier later : List RequestId) (pending : PendingRequest),
        ((World.start records store).run actions).queue.order = earlier ++ id :: later →
        OutgoingQueue.eligible (((World.start records store).run actions).queue.releaseLoop
          ((World.start records store).run actions).store nowMs earlier) nowMs id pending →
        pending.request ∈ (((World.start records store).run actions).queue.releasable
          ((World.start records store).run actions).store nowMs).1) := by
  have inv := barrierInv_run loaded actions
  generalize (World.start records store).run actions = w at inv
  refine ⟨?_, ?_⟩
  · intro request hmem older key op newer lane after cut
    obtain ⟨pending, hout, rfl⟩ := List.mem_map.1 hmem
    obtain ⟨id, -, htracked, hreleased⟩ := mem_releaseLoop_out hout
    obtain rfl := inv.keyed id pending htracked
    exact inv.flushed htracked hreleased cut
  · intro before id lane after cut latest acked earlier later pending horder helig
    have htracked : w.queue.pending[id]? = some pending := by
      rw [← (releaseLoop_frame earlier).1]
      exact helig.1
    refine List.mem_map.2 ⟨pending, ?_, rfl⟩
    rw [horder]
    exact mem_releaseLoop_of_eligible helig
      (inv.isReleased htracked cut latest acked)

/-- A JSON library that renders everything as nothing, for runs that never reload. -/
def blankSerde : Serde where
  writeOrder _ := []
  readOrder _ := .error ""
  writePending _ := []
  readPending _ := .error ""
  writeCounters _ := []
  readCounters _ := .error ""

/-- A brand-new device stores a sync token, enqueues a sync and has its first batch
acknowledged: the sync is handed out and the token's record is in that batch. -/
theorem releasable_barrier_sync_token :
    (((World.start [] (Store.new ⟨"DEV1"⟩ insecurePlainCodecForTests blankSerde)).run
        [.mutate (.saveSyncToken "s1"), .enqueue (.sync (.next 0) none none) .sync,
          .ack 0]).queue.releasable
      ((World.start [] (Store.new ⟨"DEV1"⟩ insecurePlainCodecForTests blankSerde)).run
        [.mutate (.saveSyncToken "s1"), .enqueue (.sync (.next 0) none none) .sync,
          .ack 0]).store 0).1 = [.sync (.next 0) none none] ∧
    Flushed (syncTokenRecordKey ⟨"DEV1"⟩) (.write [115, 49])
      [.gate (.sealed ⟨0, [⟨syncTokenRecordKey ⟨"DEV1"⟩, [115, 49]⟩], []⟩),
        .enqueued (.next 0) .sync,
        .gate (.marked (pendingRequestRecordKey ⟨"DEV1"⟩ (.next 0)) (.write [])),
        .gate (.acked 0)] := by
  refine ⟨rfl, ?_⟩
  have loaded : Store.load [] insecurePlainCodecForTests blankSerde ⟨"DEV1"⟩ =
      .ok (Store.new ⟨"DEV1"⟩ insecurePlainCodecForTests blankSerde) := rfl
  exact (releasable_barrier loaded
    [.mutate (.saveSyncToken "s1"), .enqueue (.sync (.next 0) none none) .sync, .ack 0] 0).1
    (.sync (.next 0) none none) (List.mem_singleton.2 rfl) [] _ _
    [.gate (.sealed ⟨0, [⟨syncTokenRecordKey ⟨"DEV1"⟩, [115, 49]⟩], []⟩)] .sync _ rfl

end World

end Messenger
