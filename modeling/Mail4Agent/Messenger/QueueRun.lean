import Mail4Agent.Messenger.OutgoingQueue

/-!
# Runs of the store and the outgoing queue

A `World` is the store and the queue of one process together with the trace of
what could be observed so far: changes marked on the gate, batches drained and
acknowledged, requests enqueued, handed out, answered and settled. The trace is
written by `World.step` next to the calls of the modelled functions and is never
read by them. A request is settled when it leaves the queue: by a success, a
final failure or a discard.

Runs start from records read back from disk, so the queue may begin with restored
requests and the gate with changes for records of unknown kinds. The empty record
list is the brand-new device.
-/

namespace Messenger

/-- A mutation of the working set by the crypto, room and sync code. -/
inductive Mutation where
  | saveAccount (account : Bytes)
  | saveOlmSession (theirCurve25519 sessionId : String) (session : Bytes)
  | saveInboundGroupSession (roomId : RoomId) (sessionId : String) (session : Bytes)
  | saveOutboundGroupSession (roomId : RoomId) (session : Bytes)
  | saveDevices (userId : UserId) (devices : Bytes)
  | markUserTracked (userId : UserId) (outdated : Bool)
  | saveWithheld (roomId : RoomId) (sessionId : String) (code : Bytes)
  | saveBackupKey (key : Bytes)
  | saveCrossSigningKeys (keys : Bytes)
  | saveSyncToken (token : String)
  | saveRoomState (roomId : RoomId) (state : Bytes)

namespace Mutation

def run (store : Store) : Mutation → Store
  | .saveAccount account => store.saveAccount account
  | .saveOlmSession theirCurve25519 sessionId session =>
    store.saveOlmSession theirCurve25519 sessionId session
  | .saveInboundGroupSession roomId sessionId session =>
    store.saveInboundGroupSession roomId sessionId session
  | .saveOutboundGroupSession roomId session => store.saveOutboundGroupSession roomId session
  | .saveDevices userId devices => store.saveDevices userId devices
  | .markUserTracked userId outdated => store.markUserTracked userId outdated
  | .saveWithheld roomId sessionId code => store.saveWithheld roomId sessionId code
  | .saveBackupKey key => store.saveBackupKey key
  | .saveCrossSigningKeys keys => store.saveCrossSigningKeys keys
  | .saveSyncToken token => store.saveSyncToken token
  | .saveRoomState roomId state => store.saveRoomState roomId state

/-- The changes a mutation marks on the gate, in order. -/
def changes (store : Store) : Mutation → List Mark
  | .saveAccount account => [dirty (accountRecordKey store.deviceId) account]
  | .saveOlmSession theirCurve25519 sessionId session =>
    let used := Store.useSession (store.olmSessionOrder.getD theirCurve25519 []) sessionId
    [dirty (olmSessionRecordKey store.deviceId theirCurve25519 sessionId) session,
      dirty (olmSessionOrderRecordKey store.deviceId theirCurve25519)
        (store.serde.writeOrder used.1)] ++
      (used.2.map fun evicted =>
        (olmSessionRecordKey store.deviceId theirCurve25519 evicted, .delete)).toList
  | .saveInboundGroupSession roomId sessionId session =>
    [dirty (inboundGroupSessionRecordKey store.deviceId roomId sessionId) session]
  | .saveOutboundGroupSession roomId session =>
    [dirty (outboundGroupSessionRecordKey store.deviceId roomId) session]
  | .saveDevices userId devices => [dirty (devicesRecordKey store.deviceId userId) devices]
  | .markUserTracked userId outdated =>
    [dirty (trackedUserRecordKey store.deviceId userId) [if outdated then 1 else 0]]
  | .saveWithheld roomId sessionId code =>
    [dirty (withheldRecordKey store.deviceId roomId sessionId) code]
  | .saveBackupKey key => [dirty (backupKeyRecordKey store.deviceId) key]
  | .saveCrossSigningKeys keys => [dirty (crossSigningKeysRecordKey store.deviceId) keys]
  | .saveSyncToken token =>
    [dirty (syncTokenRecordKey store.deviceId) token.toUTF8.data.toList]
  | .saveRoomState roomId state => [dirty (roomStateRecordKey store.deviceId roomId) state]
where
  dirty (key : RecordKey) (plaintext : Bytes) : Mark :=
    (key, .write (store.codec.sealRecord key plaintext))

/-- Performing a mutation marks exactly its changes. -/
theorem run_gate (store : Store) (mutation : Mutation) :
    (mutation.run store).gate =
      (mutation.changes store).foldl (fun gate change => gate.mark change.1 change.2)
        store.gate := by
  cases mutation with
  | saveOlmSession theirCurve25519 sessionId session =>
    simp only [run, changes, Store.saveOlmSession, List.foldl_append]
    generalize Store.useSession (store.olmSessionOrder.getD theirCurve25519 []) sessionId = used
    cases used.2 <;> rfl
  | _ => rfl

end Mutation

/-- The change that enqueueing a request marks for its own record. -/
def pendingChange (store : Store) (req : PendingRequest) : Mark :=
  let key := pendingRequestRecordKey store.deviceId req.request.id
  (key, .write (store.codec.sealRecord key (store.serde.writePending req)))

/-- The change that settling a request marks, if its record is stored. -/
def settleChanges (store : Store) (id : RequestId) : List Mark :=
  if id ∈ store.pendingRequests then [(pendingRequestRecordKey store.deviceId id, .delete)] else []

/-- The change of a saved counter pair. -/
def countersChange (store : Store) (counters : Counters) : Mark :=
  let key := countersRecordKey store.deviceId
  (key, .write (store.codec.sealRecord key (store.serde.writeCounters counters)))

inductive Event where
  | gate (event : GateEvent)
  | restored (id : RequestId) (lane : Lane)
  | enqueued (id : RequestId) (lane : Lane)
  | released (id : RequestId) (lane : Lane)
  | answered (id : RequestId)
  | settled (id : RequestId)
deriving DecidableEq, Repr

/-- The events that mark a list of changes. -/
def markEvents (changes : List Mark) : List Event :=
  changes.map fun change => .gate (.marked change.1 change.2)

/-- The gate events of a trace. -/
def gateTrace (trace : List Event) : List GateEvent :=
  trace.filterMap fun
    | .gate event => some event
    | _ => none

inductive Action where
  | mutate (mutation : Mutation)
  | saveCounters (counters : Counters)
  | takeBatch
  | ack (id : Nat)
  | enqueue (request : OutgoingRequest) (lane : Lane)
  | releasable (nowMs : Int)
  | onResponse (id : RequestId) (response : HttpResponseDescriptor) (nowMs : Int) (jitterUnit : ℚ)
  | onTransportError (id : RequestId) (nowMs : Int) (jitterUnit : ℚ)
  | discardKind (kind : OutgoingRequestKind)

/-- A response with this status takes its request out of the queue. -/
def settlingStatus (status : Nat) : Bool :=
  !(status == 429 || (500 ≤ status && status < 600))

structure World where
  store : Store
  queue : OutgoingQueue
  trace : List Event

namespace World

/-- The keys of no kind this store knows, among the records of a start. -/
def unknownRecords (device : DeviceId) (records : List SealedRecord) : List SealedRecord :=
  records.filter fun record =>
    match parseRecordKey device record.key with
    | .ok none => true
    | _ => false

/-- The world of a process that has just loaded `store` from `records`. -/
def start (records : List SealedRecord) (store : Store) : World where
  store := store
  queue := OutgoingQueue.load store
  trace :=
    markEvents ((unknownRecords store.deviceId records).map fun r => (r.key, .write r.bytes)) ++
      (OutgoingQueue.sortedRecords store).map fun record =>
        .restored record.request.id (OutgoingQueue.upgradeLane record).lane

/-- One request leaves the queue. -/
def settle (w : World) (id : RequestId) : World where
  store := (w.queue.complete w.store id).2
  queue := (w.queue.complete w.store id).1
  trace := w.trace ++
    if id ∈ w.queue.pending then .settled id :: markEvents (settleChanges w.store id) else []

def step (w : World) : Action → World
  | .mutate mutation =>
    { w with
      store := mutation.run w.store
      trace := w.trace ++ markEvents (mutation.changes w.store) }
  | .saveCounters counters =>
    { w with
      store := w.store.saveCounters counters
      trace := w.trace ++ markEvents [countersChange w.store counters] }
  | .takeBatch =>
    { w with
      store := w.store.takeFlushBatch.2
      trace := w.trace ++ w.store.takeFlushBatch.1.toList.map fun batch => .gate (.sealed batch) }
  | .ack id =>
    { w with store := w.store.ackFlush id, trace := w.trace ++ [.gate (.acked id)] }
  | .enqueue request lane =>
    match w.queue.enqueue w.store request lane with
    | (batch, queue, store) =>
      { store := store
        queue := queue
        trace := w.trace ++
          if request.id ∈ w.queue.pending then []
          else
            (batch.toList.map fun batch => .gate (.sealed batch)) ++ .enqueued request.id lane ::
              markEvents [pendingChange w.store ⟨request, lane, w.store.sealForRequest.1.1⟩] }
  | .releasable nowMs =>
    let state := w.queue.releaseLoop w.store nowMs w.queue.order
    { w with
      queue := state.queue
      trace := w.trace ++ state.out.map fun record => .released record.request.id record.lane }
  | .onResponse id response nowMs jitterUnit =>
    match w.queue.onResponse w.store id response nowMs jitterUnit with
    | (_, queue, store) =>
      { store := store
        queue := queue
        trace := w.trace ++ .answered id ::
          if id ∈ w.queue.pending ∧ settlingStatus response.status then
            .settled id :: markEvents (settleChanges w.store id)
          else [] }
  | .onTransportError id nowMs jitterUnit =>
    { w with
      queue := (w.queue.onTransportError id nowMs jitterUnit).2
      trace := w.trace ++ [.answered id] }
  | .discardKind kind => (w.queue.idsOfKind kind).foldl settle w

/-- The world after a list of actions. -/
def run (w : World) (actions : List Action) : World := Trace.run step w actions

end World

/-! ## What one call can do -/

namespace OutgoingQueue

variable (queue : OutgoingQueue) (store : Store) (id : RequestId)

/-- Settling a tracked request forgets it everywhere and frees its lane. -/
theorem complete_of_mem {pending : PendingRequest} (h : queue.pending[id]? = some pending) :
    queue.complete store id =
      ({ queue.clearInFlight id pending.lane with
          pending := queue.pending.erase id
          attempts := queue.attempts.erase id
          retryNotBeforeMs := queue.retryNotBeforeMs.erase id
          order := queue.order.filter (· ≠ id) },
        store.deletePendingRequest id) := by
  obtain ⟨request, lane, requiredSeq⟩ := pending
  rw [complete, h]
  cases lane <;> rfl

theorem complete_of_notMem (h : id ∉ queue.pending) : queue.complete store id = (queue, store) := by
  rw [complete, Std.ExtTreeMap.getElem?_eq_none h]

/-- A retry keeps the request, frees its lane and moves its retry time. -/
def RetriedFrom (after : OutgoingQueue) (lane : Lane) : Prop :=
  ∃ attempts retryNotBeforeMs, after =
    { queue.clearInFlight id lane with
      attempts := attempts
      retryNotBeforeMs := retryNotBeforeMs }

theorem retriedFrom_backOff (lane : Lane) (nowMs : Int) (jitterUnit : ℚ) :
    queue.RetriedFrom id (queue.backOff id lane nowMs jitterUnit).2 lane :=
  ⟨_, _, rfl⟩

/-- An answer is ignored, settles its request, or sends it back to wait for a retry. -/
theorem onResponse_cases (response : HttpResponseDescriptor) (nowMs : Int) (jitterUnit : ℚ) :
    (id ∉ queue.pending ∧
      (queue.onResponse store id response nowMs jitterUnit).2 = (queue, store)) ∨
    (∃ pending, queue.pending[id]? = some pending ∧ settlingStatus response.status = true ∧
      (queue.onResponse store id response nowMs jitterUnit).2 = queue.complete store id) ∨
    (∃ pending, queue.pending[id]? = some pending ∧ settlingStatus response.status = false ∧
      queue.RetriedFrom id (queue.onResponse store id response nowMs jitterUnit).2.1
        pending.lane ∧
      (queue.onResponse store id response nowMs jitterUnit).2.2 = store) := by
  cases hp : queue.pending[id]? with
  | none => exact .inl ⟨by simpa using hp, by simp [onResponse, hp]⟩
  | some pending =>
    refine .inr ?_
    by_cases hok : 200 ≤ response.status ∧ response.status < 300
    · refine .inl ⟨pending, rfl, ?_, by simp [onResponse, hp, hok]⟩
      have : ¬ response.status = 429 := by omega
      have : ¬ 500 ≤ response.status := by omega
      simp [settlingStatus, *]
    by_cases hlimit : response.status = 429
    · refine .inr ⟨pending, rfl, by simp [settlingStatus, hlimit], ?_⟩
      cases hafter : retryAfterMsFromBody response with
      | some afterMs =>
        simp only [onResponse, hp, hlimit, hafter]
        exact ⟨⟨_, _, rfl⟩, rfl⟩
      | none =>
        simp only [onResponse, hp, hlimit, hafter]
        exact ⟨queue.retriedFrom_backOff id pending.lane nowMs jitterUnit, rfl⟩
    by_cases hserver : 500 ≤ response.status ∧ response.status < 600
    · refine .inr ⟨pending, rfl, by simp [settlingStatus, hserver], ?_⟩
      constructor
      · simp only [onResponse, hp, if_neg hok, if_neg hlimit, if_pos hserver]
        exact queue.retriedFrom_backOff id pending.lane nowMs jitterUnit
      · simp only [onResponse, hp, if_neg hok, if_neg hlimit, if_pos hserver]
    · refine .inl ⟨pending, rfl, ?_, by simp [onResponse, hp, hok, hlimit, hserver]⟩
      have : response.status < 500 ∨ 600 ≤ response.status := by omega
      simpa [settlingStatus, hlimit] using this

theorem onTransportError_cases (nowMs : Int) (jitterUnit : ℚ) :
    (id ∉ queue.pending ∧ (queue.onTransportError id nowMs jitterUnit).2 = queue) ∨
    (∃ pending, queue.pending[id]? = some pending ∧
      queue.RetriedFrom id (queue.onTransportError id nowMs jitterUnit).2 pending.lane) := by
  cases hp : queue.pending[id]? with
  | none => exact .inl ⟨by simpa using hp, by simp [onTransportError, hp]⟩
  | some pending =>
    refine .inr ⟨pending, rfl, ?_⟩
    simp only [onTransportError, hp]
    exact queue.retriedFrom_backOff id pending.lane nowMs jitterUnit

end OutgoingQueue

namespace World

variable {w : World} {id : RequestId} {nowMs : Int}

/-- Enqueueing a request that is already tracked does nothing. -/
theorem step_enqueue_of_mem {request : OutgoingRequest} (lane : Lane)
    (h : request.id ∈ w.queue.pending) : w.step (.enqueue request lane) = w := by
  simp [step, OutgoingQueue.enqueue, h]

/-- A new request is filed under its identifier. -/
theorem step_enqueue_pending {request : OutgoingRequest} {lane : Lane}
    (h : request.id ∉ w.queue.pending) : (w.step (.enqueue request lane)).queue.pending =
      w.queue.pending.insert request.id ⟨request, lane, w.store.sealForRequest.1.1⟩ := by
  simp [step, OutgoingQueue.enqueue, h]

theorem keyed_insert {tracked : BTreeMap RequestId PendingRequest} {req : PendingRequest}
    (keyed : ∀ id (pending : PendingRequest), tracked[id]? = some pending → pending.request.id = id)
    (id : RequestId) (pending : PendingRequest)
    (h : (tracked.insert req.request.id req)[id]? = some pending) : pending.request.id = id := by
  rw [getElem?_insert_ite] at h
  split_ifs at h with hid
  · cases h
    exact hid.symm
  · exact keyed id pending h

theorem settle_of_notMem (h : id ∉ w.queue.pending) : w.settle id = w := by
  simp [settle, w.queue.complete_of_notMem w.store id h, h]

theorem settle_pending {other : RequestId} {record : PendingRequest}
    (h : (w.settle id).queue.pending[other]? = some record) :
    other ≠ id ∧ w.queue.pending[other]? = some record := by
  cases hp : w.queue.pending[id]? with
  | none =>
    rw [settle_of_notMem (by simpa using hp)] at h
    exact ⟨fun heq => by simp [heq, hp] at h, h⟩
  | some pending =>
    simp only [settle, w.queue.complete_of_mem w.store id hp, getElem?_erase_ite] at h
    split_ifs at h with hid
    exact ⟨hid, h⟩

/-- A settling answer is recorded, then its request leaves the queue. -/
theorem step_onResponse_of_settling {pending : PendingRequest} {response : HttpResponseDescriptor}
    {jitterUnit : ℚ} (hp : w.queue.pending[id]? = some pending)
    (hsettle : settlingStatus response.status = true)
    (heq : (w.queue.onResponse w.store id response nowMs jitterUnit).2 =
      w.queue.complete w.store id) :
    w.step (.onResponse id response nowMs jitterUnit) =
      settle { w with trace := w.trace ++ [.answered id] } id := by
  simp [step, settle, heq, mem_of_getElem? hp, hsettle]

/-- One request is handed out. -/
def release (w : World) (id : RequestId) (pending : PendingRequest) : World :=
  { w with
    queue := w.queue.markInFlight id pending.lane
    trace := w.trace ++ [.released pending.request.id pending.lane] }

/-- The world in the middle of a release loop, after its first iterations. -/
def midLoop (w : World) (nowMs : Int) (ids : List RequestId) : World :=
  { w with
    queue := (w.queue.releaseLoop w.store nowMs ids).queue
    trace := w.trace ++ (w.queue.releaseLoop w.store nowMs ids).out.map
      fun record => .released record.request.id record.lane }

theorem step_releasable (w : World) (nowMs : Int) :
    w.step (.releasable nowMs) = w.midLoop nowMs w.queue.order := rfl

/-- An iteration of the loop is a hand-out of an eligible, flushed request or does nothing. -/
theorem midLoop_snoc (w : World) (nowMs : Int) (ids : List RequestId) (id : RequestId) :
    w.midLoop nowMs (ids ++ [id]) = w.midLoop nowMs ids ∨
    ∃ pending, OutgoingQueue.eligible (w.queue.releaseLoop w.store nowMs ids) nowMs id pending ∧
      w.store.isReleased pending.requiredSeq = true ∧
      w.midLoop nowMs (ids ++ [id]) = (w.midLoop nowMs ids).release id pending := by
  rcases OutgoingQueue.releaseOne_cases w.store nowMs (w.queue.releaseLoop w.store nowMs ids) id
    with ⟨pending, helig, hrel, hq, hout⟩ | ⟨-, hq, hout⟩
  · refine .inr ⟨pending, helig, hrel, ?_⟩
    simp [midLoop, release, OutgoingQueue.releaseLoop_snoc, hq, hout]
  · exact .inl (by simp [midLoop, OutgoingQueue.releaseLoop_snoc, hq, hout])

/-- What every hand-out keeps, the release loop keeps. -/
theorem midLoop_invariant (inv : World → Prop) {order : List RequestId}
    (released : ∀ ids id pending, ids ++ [id] <+: order → inv (w.midLoop nowMs ids) →
      OutgoingQueue.eligible (w.queue.releaseLoop w.store nowMs ids) nowMs id pending →
      w.store.isReleased pending.requiredSeq = true →
      inv ((w.midLoop nowMs ids).release id pending))
    (initial : inv w) : inv (w.midLoop nowMs order) := by
  have general : ∀ ids, ids <+: order → inv (w.midLoop nowMs ids) := by
    intro ids
    induction ids using List.reverseRecOn with
    | nil => intro _; simpa [midLoop, OutgoingQueue.releaseLoop] using initial
    | append_singleton ids id ih =>
      intro hpre
      have hmid := ih ((List.prefix_append ids [id]).trans hpre)
      rcases w.midLoop_snoc nowMs ids id with heq | ⟨pending, helig, hrel, heq⟩
      · rwa [heq]
      · rw [heq]
        exact released ids id pending hpre hmid helig hrel
  exact general order (List.prefix_refl order)

end World

end Messenger
