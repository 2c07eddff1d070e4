import Mail4Agent.Messenger.Store

/-!
# The outgoing request queue

Pending requests are kept in enqueue order and handed out lane by lane. A request
is handed out when it is not in flight, its retry delay has elapsed, its flush
epoch has been acknowledged and its lane has room. Lane occupancy is tracked in
fields of its own, apart from the set of requests in flight: one flag for the
sync lane, one for the to-device lane, a set of rooms and a set of requests of
the unordered lane.

Times are `i64` milliseconds, with the program's saturating addition and its
wrapping cast from `u64`. Jitter samples are exact rationals, one per call that
may draw one.
-/

namespace Messenger

/-- How many requests of the unordered lane may be in flight at once. -/
def otherLaneConcurrency : Nat := 4

def backoffBaseMs : Nat := 1000

def backoffCapMs : Nat := 60000

/-- `u64 as i64`. -/
def asI64 (n : Nat) : Int :=
  if n % 2 ^ 64 < 2 ^ 63 then (n % 2 ^ 64 : Nat) else (n % 2 ^ 64 : Nat) - 2 ^ 64

/-- `i64::saturating_add`. -/
def saturatingAddI64 (a b : Int) : Int := max (-2 ^ 63) (min (a + b) (2 ^ 63 - 1))

inductive ResponseOutcome where
  | done (response : HttpResponseDescriptor)
  | retry (afterMs : Nat)
  | failed (errcode error : String)
deriving Repr

/-- `min(60_000, 1000 * 2^attempt)`, jittered to between half and all of it. -/
def cappedExponentialBackoffMs (attempt : Nat) (jitterUnit : ℚ) : Nat :=
  let base := min (backoffBaseMs * 2 ^ min attempt 6) backoffCapMs
  let unit := max 0 (min jitterUnit 1)
  let jittered := ((base : ℚ) * (1 / 2 + 1 / 2 * unit) + 1 / 2).floor.toNat
  min jittered backoffCapMs

def retryAfterMsFromBody (response : HttpResponseDescriptor) : Option Nat :=
  (response.body.bind (Json.get? "retry_after_ms")).bind Json.asU64?

structure OutgoingQueue where
  order : List RequestId
  pending : BTreeMap RequestId PendingRequest
  inFlight : Finset RequestId
  syncInFlight : Bool
  toDeviceInFlight : Bool
  roomInFlight : Finset RoomId
  otherInFlight : Finset RequestId
  attempts : BTreeMap RequestId Nat
  retryNotBeforeMs : BTreeMap RequestId Int

namespace OutgoingQueue

def new : OutgoingQueue := ⟨[], ∅, ∅, false, false, ∅, ∅, ∅, ∅⟩

/-- Account-data writes persisted before their lane existed move into it. -/
def upgradeLane (record : PendingRequest) : PendingRequest :=
  if record.lane = .other ∧
      (record.request.kind = .accountData ∨ record.request.kind = .roomAccountData) then
    { record with lane := .accountData }
  else record

def loadRecord (queue : OutgoingQueue) (record : PendingRequest) : OutgoingQueue :=
  let record := upgradeLane record
  { queue with
    order := queue.order ++ [record.request.id]
    pending := queue.pending.insert record.request.id record }

/-- The persisted requests in the order of their identifiers. -/
def sortedRecords (store : Store) : List PendingRequest :=
  (store.pendingRequests.toList.map Prod.snd).insertionSort fun a b =>
    (compare a.request.id b.request.id).isLE

def load (store : Store) : OutgoingQueue :=
  (sortedRecords store).foldl loadRecord new

def laneAvailable (queue : OutgoingQueue) : Lane → Bool
  | .sync => !queue.syncInFlight
  | .toDevice => !queue.toDeviceInFlight
  | .room roomId => decide (roomId ∉ queue.roomInFlight)
  -- Head-of-line ordering is enforced in `releaseOne`.
  | .accountData => true
  | .other => decide (queue.otherInFlight.card < otherLaneConcurrency)

def markInFlight (queue : OutgoingQueue) (id : RequestId) (lane : Lane) : OutgoingQueue :=
  let queue := match lane with
    | .sync => { queue with syncInFlight := true }
    | .toDevice => { queue with toDeviceInFlight := true }
    | .room roomId => { queue with roomInFlight := insert roomId queue.roomInFlight }
    | .accountData => queue
    | .other => { queue with otherInFlight := insert id queue.otherInFlight }
  { queue with inFlight := insert id queue.inFlight }

def clearInFlight (queue : OutgoingQueue) (id : RequestId) (lane : Lane) : OutgoingQueue :=
  let queue := match lane with
    | .sync => { queue with syncInFlight := false }
    | .toDevice => { queue with toDeviceInFlight := false }
    | .room roomId => { queue with roomInFlight := queue.roomInFlight.erase roomId }
    | .accountData => queue
    | .other => { queue with otherInFlight := queue.otherInFlight.erase id }
  { queue with inFlight := queue.inFlight.erase id }

def complete (queue : OutgoingQueue) (store : Store) (id : RequestId) : OutgoingQueue × Store :=
  match queue.pending[id]? with
  | none => (queue, store)
  | some pending =>
    let queue := { queue with pending := queue.pending.erase id }.clearInFlight id pending.lane
    ({ queue with
        attempts := queue.attempts.erase id
        retryNotBeforeMs := queue.retryNotBeforeMs.erase id
        order := queue.order.filter (· ≠ id) },
      store.deletePendingRequest id)

/-- The pending requests of one kind. -/
def idsOfKind (queue : OutgoingQueue) (kind : OutgoingRequestKind) : List RequestId :=
  (queue.pending.toList.filter fun entry => entry.2.request.kind = kind).map Prod.fst

def enqueue (queue : OutgoingQueue) (store : Store) (request : OutgoingRequest) (lane : Lane) :
    Option FlushBatch × OutgoingQueue × Store :=
  if request.id ∈ queue.pending then (none, queue, store)
  else
    match store.sealForRequest with
    | ((requiredSeq, batch), store) =>
      let record := { request := request, lane := lane, requiredSeq := requiredSeq }
      (batch,
        { queue with
          pending := queue.pending.insert request.id record
          order := queue.order ++ [request.id] },
        store.savePendingRequest record)

/-- The state of the release loop. -/
structure ReleaseState where
  queue : OutgoingQueue
  accountDataBlocked : Bool
  out : List PendingRequest

/-- The retry delay of a request has not elapsed. -/
def backingOff (queue : OutgoingQueue) (id : RequestId) (nowMs : Int) : Bool :=
  match queue.retryNotBeforeMs[id]? with
  | some notBefore => decide (nowMs < notBefore)
  | none => false

/-- One iteration of the release loop. -/
def releaseOne (store : Store) (nowMs : Int) (state : ReleaseState) (id : RequestId) :
    ReleaseState :=
  match state.queue.pending[id]? with
  | none => state
  | some pending =>
    -- Strict FIFO: only the first account-data request in the order is a candidate.
    if pending.lane = .accountData ∧ state.accountDataBlocked then state
    else
      let state := { state with
        accountDataBlocked := state.accountDataBlocked || pending.lane = .accountData }
      if id ∈ state.queue.inFlight then state
      else if state.queue.backingOff id nowMs then state
      else if !store.isReleased pending.requiredSeq then state
      else if !state.queue.laneAvailable pending.lane then state
      else { state with
        queue := state.queue.markInFlight id pending.lane
        out := state.out ++ [pending] }

/-- The release loop over part of the order. -/
def releaseLoop (queue : OutgoingQueue) (store : Store) (nowMs : Int) (ids : List RequestId) :
    ReleaseState :=
  ids.foldl (releaseOne store nowMs) ⟨queue, false, []⟩

def releasable (queue : OutgoingQueue) (store : Store) (nowMs : Int) :
    List OutgoingRequest × OutgoingQueue :=
  let state := queue.releaseLoop store nowMs queue.order
  (state.out.map PendingRequest.request, state.queue)

def nextBackoffMs (queue : OutgoingQueue) (id : RequestId) (jitterUnit : ℚ) :
    Nat × OutgoingQueue :=
  let attempt := queue.attempts.getD id 0
  (cappedExponentialBackoffMs attempt jitterUnit,
    { queue with attempts := queue.attempts.insert id (min (attempt + 1) (2 ^ 32 - 1)) })

/-- Back off: the lane is given up and the request waits `afterMs`. -/
def delayRetry (queue : OutgoingQueue) (id : RequestId) (nowMs : Int) (afterMs : Nat) :
    OutgoingQueue :=
  { queue with
    retryNotBeforeMs :=
      queue.retryNotBeforeMs.insert id (saturatingAddI64 nowMs (asI64 afterMs)) }

/-- A retry after this queue's own backoff. -/
def backOff (queue : OutgoingQueue) (id : RequestId) (lane : Lane) (nowMs : Int)
    (jitterUnit : ℚ) : ResponseOutcome × OutgoingQueue :=
  match (queue.clearInFlight id lane).nextBackoffMs id jitterUnit with
  | (afterMs, queue) => (.retry afterMs, queue.delayRetry id nowMs afterMs)

def onResponse (queue : OutgoingQueue) (store : Store) (id : RequestId)
    (response : HttpResponseDescriptor) (nowMs : Int) (jitterUnit : ℚ) :
    Option ResponseOutcome × OutgoingQueue × Store :=
  match queue.pending[id]? with
  | none => (none, queue, store)
  | some pending =>
    if 200 ≤ response.status ∧ response.status < 300 then
      (some (.done response), queue.complete store id)
    else if response.status = 429 then
      match retryAfterMsFromBody response with
      | some afterMs =>
        (some (.retry afterMs),
          (queue.clearInFlight id pending.lane).delayRetry id nowMs afterMs, store)
      | none =>
        match queue.backOff id pending.lane nowMs jitterUnit with
        | (outcome, queue) => (some outcome, queue, store)
    else if 500 ≤ response.status ∧ response.status < 600 then
      match queue.backOff id pending.lane nowMs jitterUnit with
      | (outcome, queue) => (some outcome, queue, store)
    else
      let error := response.matrixError.getD ("M_UNKNOWN", "")
      (some (.failed error.1 error.2), queue.complete store id)

def onTransportError (queue : OutgoingQueue) (id : RequestId) (nowMs : Int) (jitterUnit : ℚ) :
    Option ResponseOutcome × OutgoingQueue :=
  match queue.pending[id]? with
  | none => (none, queue)
  | some pending =>
    match queue.backOff id pending.lane nowMs jitterUnit with
    | (outcome, queue) => (some outcome, queue)

/-! ## What the operations touch -/

section Frame

variable (queue : OutgoingQueue) (id : RequestId) (lane : Lane)

@[simp] theorem markInFlight_pending : (queue.markInFlight id lane).pending = queue.pending := by
  cases lane <;> rfl

@[simp] theorem markInFlight_order : (queue.markInFlight id lane).order = queue.order := by
  cases lane <;> rfl

@[simp] theorem markInFlight_retryNotBeforeMs :
    (queue.markInFlight id lane).retryNotBeforeMs = queue.retryNotBeforeMs := by
  cases lane <;> rfl

@[simp] theorem markInFlight_inFlight :
    (queue.markInFlight id lane).inFlight = insert id queue.inFlight := by
  cases lane <;> rfl

@[simp] theorem clearInFlight_pending : (queue.clearInFlight id lane).pending = queue.pending := by
  cases lane <;> rfl

@[simp] theorem clearInFlight_order : (queue.clearInFlight id lane).order = queue.order := by
  cases lane <;> rfl

@[simp] theorem clearInFlight_inFlight :
    (queue.clearInFlight id lane).inFlight = queue.inFlight.erase id := by
  cases lane <;> rfl

end Frame

/-! ## What a restart finds -/

@[simp] theorem upgradeLane_request (record : PendingRequest) :
    (upgradeLane record).request = record.request := by
  unfold upgradeLane
  split <;> rfl

theorem sortedRecords_nodup {store : Store} (filed : store.Filed) :
    ((sortedRecords store).map fun record => record.request.id).Nodup := by
  refine ((List.perm_insertionSort _ _).map _).nodup_iff.2 ?_
  rw [List.map_map]
  refine List.pairwise_map.2 ((BTreeMap.toList_pairwise_ne store.pendingRequests).imp_of_mem ?_)
  intro a b ha hb hne
  rw [Function.comp_apply, Function.comp_apply,
    filed a.1 a.2 (Std.ExtTreeMap.mem_toList_iff_getElem?_eq_some.1 ha),
    filed b.1 b.2 (Std.ExtTreeMap.mem_toList_iff_getElem?_eq_some.1 hb)]
  exact hne

/-! ## The release loop -/

section Release

variable {queue : OutgoingQueue} {store : Store} {nowMs : Int}

/-- Everything the release loop asks of a request except its flush epoch. -/
def eligible (state : ReleaseState) (nowMs : Int) (id : RequestId) (pending : PendingRequest) :
    Prop :=
  state.queue.pending[id]? = some pending ∧
    ¬ (pending.lane = .accountData ∧ state.accountDataBlocked = true) ∧
    id ∉ state.queue.inFlight ∧ state.queue.backingOff id nowMs = false ∧
    state.queue.laneAvailable pending.lane = true

/-- One iteration hands the request out, or leaves the queue and the output alone. -/
theorem releaseOne_cases (store : Store) (nowMs : Int) (state : ReleaseState) (id : RequestId) :
    (∃ pending, eligible state nowMs id pending ∧ store.isReleased pending.requiredSeq = true ∧
      (releaseOne store nowMs state id).queue = state.queue.markInFlight id pending.lane ∧
      (releaseOne store nowMs state id).out = state.out ++ [pending]) ∨
    ((∀ pending, eligible state nowMs id pending →
        store.isReleased pending.requiredSeq = false) ∧
      (releaseOne store nowMs state id).queue = state.queue ∧
      (releaseOne store nowMs state id).out = state.out) := by
  unfold releaseOne eligible
  cases hp : state.queue.pending[id]? with
  | none => simp
  | some pending =>
    by_cases hblocked : pending.lane = .accountData ∧ state.accountDataBlocked = true
    · simp [hblocked]
    by_cases hflight : id ∈ state.queue.inFlight
    · simp [hblocked, hflight]
    cases hback : state.queue.backingOff id nowMs with
    | true => simp [hblocked, hflight, hback]
    | false =>
      cases hrel : store.isReleased pending.requiredSeq with
      | false => simp [hblocked, hflight, hback, hrel]
      | true =>
        cases hlane : state.queue.laneAvailable pending.lane with
        | false => simp [hblocked, hflight, hback, hrel, hlane]
        | true =>
          refine .inl ⟨pending, ⟨rfl, hblocked, hflight, rfl, hlane⟩, hrel, ?_, ?_⟩ <;>
            simp [hblocked, hflight, hback, hrel, hlane]

/-- An iteration changes neither what is tracked nor when it may be retried. -/
theorem releaseOne_frame (state : ReleaseState) (id : RequestId) :
    (releaseOne store nowMs state id).queue.pending = state.queue.pending ∧
      (releaseOne store nowMs state id).queue.order = state.queue.order ∧
      (releaseOne store nowMs state id).queue.retryNotBeforeMs = state.queue.retryNotBeforeMs := by
  rcases releaseOne_cases store nowMs state id with ⟨pending, -, -, hq, -⟩ | ⟨-, hq, -⟩ <;>
    simp [hq]

theorem releaseLoop_snoc (ids : List RequestId) (id : RequestId) :
    queue.releaseLoop store nowMs (ids ++ [id]) =
      releaseOne store nowMs (queue.releaseLoop store nowMs ids) id := by
  simp [releaseLoop]

theorem releaseLoop_frame (ids : List RequestId) :
    (queue.releaseLoop store nowMs ids).queue.pending = queue.pending ∧
      (queue.releaseLoop store nowMs ids).queue.order = queue.order ∧
      (queue.releaseLoop store nowMs ids).queue.retryNotBeforeMs = queue.retryNotBeforeMs := by
  induction ids using List.reverseRecOn with
  | nil => exact ⟨rfl, rfl, rfl⟩
  | append_singleton ids id ih =>
    obtain ⟨hp, ho, hr⟩ := releaseOne_frame (queue.releaseLoop store nowMs ids) id
    rw [releaseLoop_snoc, hp, ho, hr]
    exact ih

/-- Whatever is handed out was tracked, and its flush epoch was acknowledged. -/
theorem mem_releaseLoop_out {ids : List RequestId} {pending : PendingRequest}
    (h : pending ∈ (queue.releaseLoop store nowMs ids).out) :
    ∃ id ∈ ids, queue.pending[id]? = some pending ∧
      store.isReleased pending.requiredSeq = true := by
  induction ids using List.reverseRecOn with
  | nil => simp [releaseLoop] at h
  | append_singleton ids id ih =>
    rw [releaseLoop_snoc] at h
    rcases releaseOne_cases store nowMs (queue.releaseLoop store nowMs ids) id with
      ⟨released, helig, hrel, -, hout⟩ | ⟨-, -, hout⟩
    · rw [hout] at h
      rcases List.mem_append.1 h with h | h
      · obtain ⟨other, hmem, hrest⟩ := ih h
        exact ⟨other, List.mem_append_left _ hmem, hrest⟩
      · obtain rfl := List.mem_singleton.1 h
        refine ⟨id, by simp, ?_, hrel⟩
        rw [← (releaseLoop_frame ids).1]
        exact helig.1
    · rw [hout] at h
      obtain ⟨other, hmem, hrest⟩ := ih h
      exact ⟨other, List.mem_append_left _ hmem, hrest⟩

/-- The output only grows as the loop goes on. -/
theorem releaseLoop_out_mono (a b : List RequestId) {pending : PendingRequest}
    (h : pending ∈ (queue.releaseLoop store nowMs a).out) :
    pending ∈ (queue.releaseLoop store nowMs (a ++ b)).out := by
  induction b using List.reverseRecOn with
  | nil => simpa using h
  | append_singleton b id ih =>
    rw [← List.append_assoc, releaseLoop_snoc]
    rcases releaseOne_cases store nowMs (queue.releaseLoop store nowMs (a ++ b)) id with
      ⟨released, -, -, -, hout⟩ | ⟨-, -, hout⟩
    · rw [hout]
      exact List.mem_append_left _ ih
    · rw [hout]
      exact ih

/-- A request that is eligible at its turn and whose epoch is acknowledged is handed out. -/
theorem mem_releaseLoop_of_eligible {earlier later : List RequestId} {id : RequestId}
    {pending : PendingRequest}
    (helig : eligible (queue.releaseLoop store nowMs earlier) nowMs id pending)
    (hrel : store.isReleased pending.requiredSeq = true) :
    pending ∈ (queue.releaseLoop store nowMs (earlier ++ id :: later)).out := by
  rw [List.append_cons]
  apply releaseLoop_out_mono
  rw [releaseLoop_snoc]
  rcases releaseOne_cases store nowMs (queue.releaseLoop store nowMs earlier) id with
    ⟨released, hreleased, -, -, hout⟩ | ⟨hnone, -, -⟩
  · cases hreleased.1.symm.trans helig.1
    simp [hout]
  · rw [hnone pending helig] at hrel
    cases hrel

end Release

end OutgoingQueue

end Messenger
