import Mail4Agent.Messenger.Barrier

/-!
# Retry delays

A rate-limited request waits for the delay the server asked for. The delay is a `u64` that is cast
to an `i64` and added to the present time with saturation, so a delay of `2 ^ 63` or more is a
negative one, and a sum past the last time is the last time. A later report on the request sets the
time anew, even if it asks for less.
-/

namespace Messenger

namespace OutgoingQueue

variable {queue queue' : OutgoingQueue} {store store' : Store} {id : RequestId} {nowMs : Int}
  {response : HttpResponseDescriptor} {jitterUnit : ℚ} {afterMs : Nat}

/-- A release hands out only what is tracked and not backing off. -/
theorem backingOff_of_released {ids : List RequestId} {id : RequestId}
    (h : id ∈ (queue.releaseLoop store nowMs ids).queue.inFlight) :
    id ∈ queue.inFlight ∨ (id ∈ queue.pending ∧ queue.backingOff id nowMs = false) := by
  induction ids using List.reverseRecOn with
  | nil => exact .inl h
  | append_singleton ids next ih =>
    rw [releaseLoop_snoc] at h
    rcases releaseOne_cases store nowMs (queue.releaseLoop store nowMs ids) next with
      ⟨pending, helig, -, hq, -⟩ | ⟨-, hq, -⟩
    · rw [hq, markInFlight_inFlight, Finset.mem_insert] at h
      rcases h with rfl | h
      · obtain ⟨hpending, -, -, hback, -⟩ := helig
        rw [(releaseLoop_frame ids).1] at hpending
        rw [backingOff, (releaseLoop_frame ids).2.2] at hback
        exact .inr ⟨mem_of_getElem? hpending, hback⟩
      · exact ih h
    · rw [hq] at h
      exact ih h

theorem backOff_eq {lane : Lane} {outcome : ResponseOutcome}
    (h : queue.backOff id lane nowMs jitterUnit = (outcome, queue')) :
    ∃ afterMs < 2 ^ 64, outcome = .retry afterMs ∧
      queue'.retryNotBeforeMs[id]? = some (saturatingAddI64 nowMs (asI64 afterMs)) := by
  obtain ⟨rfl, rfl⟩ := Prod.mk.inj h
  refine ⟨_, ?_, rfl, by simp [delayRetry]⟩
  exact lt_of_le_of_lt (min_le_right _ _) (by decide)

theorem retryAfterMsFromBody_lt (h : retryAfterMsFromBody response = some afterMs) :
    afterMs < 2 ^ 64 := by
  obtain ⟨value, -, h⟩ := Option.bind_eq_some_iff.1 h
  unfold Json.asU64? at h
  split at h
  · split_ifs at h with hrange
    cases h
    omega
  · cases h

/-- A reported delay sets the retry time. -/
theorem retryNotBeforeMs_of_onResponse
    (h : queue.onResponse store id response nowMs jitterUnit =
      (some (.retry afterMs), queue', store')) :
    afterMs < 2 ^ 64 ∧
      queue'.retryNotBeforeMs[id]? = some (saturatingAddI64 nowMs (asI64 afterMs)) := by
  have hbackOff {lane : Lane} {outcome : ResponseOutcome} {after : OutgoingQueue}
      (hback : queue.backOff id lane nowMs jitterUnit = (outcome, after))
      (h : (some outcome, after, store) = (some (.retry afterMs), queue', store')) :
      afterMs < 2 ^ 64 ∧
        queue'.retryNotBeforeMs[id]? = some (saturatingAddI64 nowMs (asI64 afterMs)) := by
    obtain ⟨delay, hlt, rfl, hset⟩ := backOff_eq hback
    cases h
    exact ⟨hlt, hset⟩
  unfold onResponse at h
  split at h
  · cases h
  · next pending hpending =>
    split_ifs at h
    · cases h
    · split at h
      · next delay hdelay =>
        cases h
        exact ⟨retryAfterMsFromBody_lt hdelay, by simp [delayRetry]⟩
      · exact hbackOff (Prod.mk.eta.symm) h
    · exact hbackOff (Prod.mk.eta.symm) h
    · cases h

@[simp] theorem clearInFlight_retryNotBeforeMs (lane : Lane) :
    (queue.clearInFlight id lane).retryNotBeforeMs = queue.retryNotBeforeMs := by
  cases lane <;> rfl

/-- Reports on other requests leave the retry time. -/
theorem onResponse_other {other : RequestId} (hne : id ≠ other) :
    (queue.onResponse store other response nowMs jitterUnit).2.1.retryNotBeforeMs[id]? =
      queue.retryNotBeforeMs[id]? := by
  cases hp : queue.pending[other]? with
  | none => simp [onResponse, hp]
  | some pending =>
    unfold onResponse
    simp only [hp]
    split_ifs
    · simp [complete_of_mem _ _ _ hp, getElem?_erase_ite, hne]
    · split <;> simp [backOff, nextBackoffMs, delayRetry, getElem?_insert_ite, hne]
    · simp [backOff, nextBackoffMs, delayRetry, getElem?_insert_ite, hne]
    · simp [complete_of_mem _ _ _ hp, getElem?_erase_ite, hne]

theorem onTransportError_other {other : RequestId} (hne : id ≠ other) :
    (queue.onTransportError other nowMs jitterUnit).2.retryNotBeforeMs[id]? =
      queue.retryNotBeforeMs[id]? := by
  cases hp : queue.pending[other]? with
  | none => simp [onTransportError, hp]
  | some pending =>
    simp [onTransportError, hp, backOff, nextBackoffMs, delayRetry, getElem?_insert_ite, hne]

end OutgoingQueue

/-! ## Runs after a report -/

/-- The action does not report on the request, and does not file another one under its
identifier. -/
def Action.Silent (id : RequestId) : Action → Prop
  | .enqueue request _ => request.id ≠ id
  | .onResponse other _ _ _ => other ≠ id
  | .onTransportError other _ _ => other ≠ id
  | _ => True

namespace World

variable {w : World} {id : RequestId} {nowMs : Int} {afterMs : Nat}

/-- The request is offered at `nowMs`. -/
def Offers (w : World) (nowMs : Int) (id : RequestId) : Prop :=
  id ∉ w.queue.inFlight ∧ id ∈ (w.queue.releasable w.store nowMs).2.inFlight

/-- Whatever else happens until the next report on it, the request is not offered before
`dueMs`. -/
def WaitsUntil (w : World) (id : RequestId) (dueMs : Int) : Prop :=
  ∀ actions : List Action, (∀ action ∈ actions, action.Silent id) →
    ∀ nowMs, -2 ^ 63 ≤ nowMs → nowMs < 2 ^ 63 → (w.run actions).Offers nowMs id → dueMs ≤ nowMs

theorem WaitsUntil.offers {dueMs : Int} (waits : w.WaitsUntil id dueMs) (nowMs : Int)
    (hlow : -2 ^ 63 ≤ nowMs) (hhigh : nowMs < 2 ^ 63) (h : w.Offers nowMs id) : dueMs ≤ nowMs :=
  waits [] (fun _ hmem => nomatch hmem) nowMs hlow hhigh h

/-- Every answer that has the queue report this delay at this time is heeded. -/
def Honours (nowMs : Int) (afterMs : Nat) : Prop :=
  ∀ (w : World) (id : RequestId) (response : HttpResponseDescriptor) (jitterUnit : ℚ),
    (w.queue.onResponse w.store id response nowMs jitterUnit).1 = some (.retry afterMs) →
      (w.step (.onResponse id response nowMs jitterUnit)).WaitsUntil id (nowMs + afterMs)

/-- The request has left the queue, or waits for `notBefore`. -/
def Held (w : World) (id : RequestId) (notBefore : Int) : Prop :=
  id ∉ w.queue.pending ∨ w.queue.retryNotBeforeMs[id]? = some notBefore

theorem Held.settle {notBefore : Int} (held : w.Held id notBefore) (other : RequestId) :
    (w.settle other).Held id notBefore := by
  cases hp : w.queue.pending[other]? with
  | none =>
    rw [settle_of_notMem (by simpa using hp)]
    exact held
  | some pending =>
    by_cases hid : id = other
    · exact .inl (by simp [World.settle, OutgoingQueue.complete_of_mem _ _ _ hp, hid])
    · rcases held with hgone | hset
      · refine .inl fun hmem => hgone ?_
        simpa [World.settle, OutgoingQueue.complete_of_mem _ _ _ hp, Ne.symm hid] using hmem
      · right
        simpa [World.settle, OutgoingQueue.complete_of_mem _ _ _ hp, getElem?_erase_ite, hid]
          using hset

theorem Held.step {notBefore : Int} {action : Action} (held : w.Held id notBefore)
    (silent : action.Silent id) : (w.step action).Held id notBefore := by
  cases action with
  | mutate mutation => exact held
  | saveCounters counters => exact held
  | takeBatch => exact held
  | ack batch => exact held
  | enqueue request lane =>
    by_cases htracked : request.id ∈ w.queue.pending
    · rwa [step_enqueue_of_mem lane htracked]
    · refine held.imp (fun hgone => ?_) fun hset => ?_
      · rw [step_enqueue_pending htracked]
        have hne : ¬ request.id = id := silent
        simpa [hne] using hgone
      · simpa [World.step, OutgoingQueue.enqueue, htracked] using hset
  | releasable nowMs =>
    obtain ⟨hpending, -, hretry⟩ :=
      @OutgoingQueue.releaseLoop_frame w.queue w.store nowMs w.queue.order
    simpa only [Held, World.step, hpending, hretry] using held
  | onResponse other response nowMs jitterUnit =>
    rcases held with hgone | hset
    · refine .inl fun hmem => hgone ?_
      rcases w.queue.onResponse_cases w.store other response nowMs jitterUnit with
        ⟨-, hsame⟩ | ⟨pending, hp, -, hdone⟩ | ⟨pending, -, -, ⟨attempts, times, hretried⟩, -⟩
      · simpa [World.step, hsame] using hmem
      · have hne : ¬ other = id := silent
        simpa [World.step, hdone, OutgoingQueue.complete_of_mem _ _ _ hp, hne] using hmem
      · simpa [World.step, hretried] using hmem
    · exact .inr ((OutgoingQueue.onResponse_other (Ne.symm silent)).trans hset)
  | onTransportError other nowMs jitterUnit =>
    rcases held with hgone | hset
    · refine .inl fun hmem => hgone ?_
      rcases w.queue.onTransportError_cases other nowMs jitterUnit with
        ⟨-, hsame⟩ | ⟨pending, -, attempts, times, hretried⟩
      · simpa [World.step, hsame] using hmem
      · simpa [World.step, hretried] using hmem
    · exact .inr ((OutgoingQueue.onTransportError_other (Ne.symm silent)).trans hset)
  | discardKind kind =>
    have general (ids : List RequestId) : (ids.foldl World.settle w).Held id notBefore := by
      induction ids using List.reverseRecOn with
      | nil => exact held
      | append_singleton ids other ih =>
        rw [List.foldl_append]
        exact ih.settle other
    exact general _

theorem Held.run {notBefore : Int} {actions : List Action} (held : w.Held id notBefore)
    (silent : ∀ action ∈ actions, action.Silent id) : (w.run actions).Held id notBefore := by
  induction actions generalizing w with
  | nil => exact held
  | cons action actions ih =>
    exact ih (held.step (silent action List.mem_cons_self)) fun later hlater =>
      silent later (List.mem_cons_of_mem _ hlater)

theorem Held.offers {notBefore : Int} (held : w.Held id notBefore) (h : w.Offers nowMs id) :
    notBefore ≤ nowMs := by
  rcases OutgoingQueue.backingOff_of_released h.2 with hbusy | ⟨hpending, hback⟩
  · exact absurd hbusy h.1
  · have hset := held.resolve_left (not_not_intro hpending)
    simpa [OutgoingQueue.backingOff, hset] using hback

/-! ## The delays that are honoured -/

def newDevice : Store := Store.new ⟨"DEV1"⟩ insecurePlainCodecForTests World.blankSerde

/-- A process that tracks nothing but one sync. -/
def syncTracked : World :=
  ⟨newDevice, { OutgoingQueue.new with
    order := [.next 0]
    pending := (∅ : BTreeMap RequestId PendingRequest).insert (.next 0)
      ⟨.sync (.next 0) none none, .sync, ⟨none⟩⟩ }, []⟩

def limited (afterMs : Nat) : HttpResponseDescriptor :=
  ⟨429, some (.obj [("retry_after_ms", .int afterMs)])⟩

theorem onResponse_limited (nowMs : Int) (h : afterMs < 2 ^ 64) :
    syncTracked.queue.onResponse newDevice (.next 0) (limited afterMs) nowMs 0 =
      (some (.retry afterMs), syncTracked.queue.delayRetry (.next 0) nowMs afterMs, newDevice) := by
  have hfield : (limited afterMs).body.bind (Json.get? "retry_after_ms") = some (.int afterMs) := by
    simp [limited, Json.get?]
  have hdelay : retryAfterMsFromBody (limited afterMs) = some afterMs := by
    rw [retryAfterMsFromBody, hfield, Option.bind_some, Json.asU64?, if_pos (by omega),
      Int.toNat_natCast]
  have hpending : syncTracked.queue.pending[RequestId.next 0]? =
      some ⟨.sync (.next 0) none none, .sync, ⟨none⟩⟩ := by
    simp [syncTracked]
  simp only [OutgoingQueue.onResponse, hpending, hdelay,
    show (limited afterMs).status = 429 from rfl]
  rfl

theorem reports_limited (nowMs : Int) (h : afterMs < 2 ^ 64) :
    (syncTracked.queue.onResponse syncTracked.store (.next 0) (limited afterMs) nowMs 0).1 =
      some (.retry afterMs) := by
  rw [show syncTracked.store = newDevice from rfl, onResponse_limited nowMs h]

/-- After the answer the sync is offered from the time that was set. -/
theorem offers_limited {time : Int} (h : afterMs < 2 ^ 64)
    (hdue : saturatingAddI64 nowMs (asI64 afterMs) ≤ time) :
    (syncTracked.step (.onResponse (.next 0) (limited afterMs) nowMs 0)).Offers time (.next 0) := by
  obtain ⟨queue, hqueue⟩ : ∃ queue, syncTracked.queue.delayRetry (.next 0) nowMs afterMs = queue :=
    ⟨_, rfl⟩
  have hback : queue.backingOff (.next 0) time = false := by
    simpa [← hqueue, OutgoingQueue.delayRetry, OutgoingQueue.backingOff] using hdue
  have hpending : queue.pending[RequestId.next 0]? =
      some ⟨.sync (.next 0) none none, .sync, ⟨none⟩⟩ := by
    simp [← hqueue, OutgoingQueue.delayRetry, syncTracked]
  have hidle : RequestId.next 0 ∉ queue.inFlight ∧ queue.order = [.next 0] ∧
      queue.syncInFlight = false := by
    simp [← hqueue, OutgoingQueue.delayRetry, syncTracked, OutgoingQueue.new]
  have helig : OutgoingQueue.eligible ⟨queue, false, []⟩ time (.next 0) _ :=
    ⟨hpending, by simp, hidle.1, hback, by simp [OutgoingQueue.laneAvailable, hidle.2.2]⟩
  have hanswer := onResponse_limited nowMs h
  rw [hqueue] at hanswer
  obtain ⟨trace, hstep⟩ : ∃ trace,
    syncTracked.step (.onResponse (.next 0) (limited afterMs) nowMs 0) =
      ⟨newDevice, queue, trace⟩ := by
    rw [World.step, show syncTracked.store = newDevice from rfl, hanswer]
    exact ⟨_, rfl⟩
  rw [hstep]
  refine ⟨hidle.1, ?_⟩
  rw [OutgoingQueue.releasable, hidle.2.1]
  rcases OutgoingQueue.releaseOne_cases newDevice time ⟨queue, false, []⟩ (.next 0) with
    ⟨pending, -, -, hq, -⟩ | ⟨hnone, -, -⟩
  · rw [OutgoingQueue.releaseLoop, List.foldl_cons, List.foldl_nil, hq,
      OutgoingQueue.markInFlight_inFlight]
    exact Finset.mem_insert_self _ _
  · cases hnone _ helig

/-- A delay is honoured exactly if neither the cast nor the sum leaves the range of times. -/
theorem honours_iff (hlow : -2 ^ 63 ≤ nowMs) (hhigh : nowMs < 2 ^ 63) (hdelay : afterMs < 2 ^ 64) :
    Honours nowMs afterMs ↔ afterMs < 2 ^ 63 ∧ nowMs + afterMs < 2 ^ 63 := by
  have hcast : asI64 afterMs = if afterMs < 2 ^ 63 then (afterMs : Int) else afterMs - 2 ^ 64 := by
    rw [asI64, Nat.mod_eq_of_lt hdelay]
  constructor
  · -- Else the sync is offered at the last time, or at once.
    intro honours
    by_contra hbad
    have hearly (time : Int) (hmin : -2 ^ 63 ≤ time) (hmax : time < 2 ^ 63)
        (hdue : saturatingAddI64 nowMs (asI64 afterMs) ≤ time) : nowMs + afterMs ≤ time :=
      (honours syncTracked (.next 0) (limited afterMs) 0 (reports_limited nowMs hdelay)).offers
        time hmin hmax (offers_limited hdelay hdue)
    rw [hcast, saturatingAddI64] at hearly
    split_ifs at hearly with hsmall
    · have := hearly (2 ^ 63 - 1) (by norm_num) (by norm_num) (by omega)
      omega
    · have := hearly nowMs hlow hhigh (by omega)
      omega
  · rintro ⟨hsmall, hsum⟩ w id response jitterUnit hreport actions silent time - - hoffers
    obtain ⟨-, hset⟩ := OutgoingQueue.retryNotBeforeMs_of_onResponse (Prod.ext hreport rfl)
    have held : (w.step (.onResponse id response nowMs jitterUnit)).Held id _ := .inr hset
    have hdue := (held.run silent).offers hoffers
    rw [hcast, if_pos hsmall, saturatingAddI64] at hdue
    omega

/-- The longest delay of all is no delay. -/
theorem not_honours_longest : ¬ Honours 5 (2 ^ 64 - 1) := by
  intro honours
  have hearly := (honours syncTracked (.next 0) (limited (2 ^ 64 - 1)) 0
    (reports_limited 5 (by norm_num))).offers 5 (by norm_num) (by norm_num)
    (offers_limited (by norm_num) (by decide))
  norm_num at hearly

theorem honours_iff_second : Honours 5 1000 :=
  (honours_iff (by norm_num) (by norm_num) (by norm_num)).2 (by norm_num)

end World

end Messenger
