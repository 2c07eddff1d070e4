import Mail4Agent.Messenger.LaneOrder

/-!
# How many requests of a lane wait for a settling response

A request that is answered by a 429, a 5xx or no response at all is not settled: it
backs off and goes out again. Counted from the first release to the settlement, the
sync lane, the to-device lane and each room's lane are meant to have at most one
request out and the unordered lane at most four.

Two things break the limits. A late answer for a request that is backing off reopens
a lane that another request occupies (`not_laneLimits_lateAnswer`), and the release
loop passes over a request that backs off and hands out the next one of its lane.
`laneLimits_of_limitSafe` says when they hold: answers leave occupied lanes closed,
and whenever requests are released, either those of a lane that would go out for the
first time fit beside the unsettled ones, or the unsettled ones that wait for another
attempt are ready and older, so that their turn comes first.
-/

namespace Messenger

open OutgoingQueue

/-- How many requests of the lane may be out. Account data is limited by key instead. -/
def Lane.limit : Lane → Option Nat
  | .sync | .toDevice | .room _ => some 1
  | .other => some otherLaneConcurrency
  | .accountData => none

/-- How one event changes the list of the lane's requests that are out. -/
def unsettledStep (lane : Lane) (out : List RequestId) : Event → List RequestId
  | .released id l => if l = lane then out.insert id else out
  | .settled id => out.filter fun other => other ≠ id
  | _ => out

/-- The requests of the lane that were handed out and have not settled. -/
def unsettled (lane : Lane) (trace : List Event) : List RequestId :=
  trace.foldl (unsettledStep lane) []

/-- Every limited lane has at most as many requests out as it may. -/
def LaneLimits (trace : List Event) : Prop :=
  ∀ (lane : Lane) (limit : Nat), lane.limit = some limit → (unsettled lane trace).length ≤ limit

variable {lane : Lane} {id : RequestId}

@[simp] theorem unsettled_snoc (trace : List Event) (event : Event) :
    unsettled lane (trace ++ [event]) = unsettledStep lane (unsettled lane trace) event := by
  simp [unsettled]

theorem unsettled_nodup (trace : List Event) : (unsettled lane trace).Nodup := by
  induction trace using List.reverseRecOn with
  | nil => exact List.nodup_nil
  | append_singleton trace event ih =>
    rw [unsettled_snoc]
    cases event with
    | released id l =>
      rw [unsettledStep]
      split
      · exact ih.insert
      · exact ih
    | settled id => exact ih.filter _
    | _ => exact ih

/-- Without a release nothing more is out. -/
theorem unsettled_append_sublist (lane : Lane) (trace : List Event) {new : List Event}
    (quiet : ∀ e ∈ new, ∀ id l, e ≠ .released id l) :
    (unsettled lane (trace ++ new)).Sublist (unsettled lane trace) := by
  induction new using List.reverseRecOn with
  | nil => simp
  | append_singleton new event ih =>
    have hnew := ih fun e he => quiet e (List.mem_append_left _ he)
    rw [← List.append_assoc, unsettled_snoc]
    cases event with
    | released id l => exact absurd rfl (quiet _ (by simp) id l)
    | settled id => exact List.filter_sublist.trans hnew
    | _ => exact hnew

theorem markEvents_quiet (changes : List Mark) :
    ∀ e ∈ markEvents changes, ∀ id l, e ≠ .released id l := by
  intro e he id l
  obtain ⟨change, -, rfl⟩ := List.mem_map.1 he
  exact Event.noConfusion

/-- The request is one of the lane, its backoff is over and its flush epoch acknowledged. -/
def OutgoingQueue.due (queue : OutgoingQueue) (store : Store) (nowMs : Int) (lane : Lane)
    (id : RequestId) : Bool :=
  queue.pending[id]?.any fun pending =>
    pending.lane = lane && !queue.backingOff id nowMs && store.isReleased pending.requiredSeq

theorem OutgoingQueue.due_iff {queue : OutgoingQueue} {store : Store} {nowMs : Int} :
    queue.due store nowMs lane id = true ↔
      ∃ pending, queue.pending[id]? = some pending ∧ pending.lane = lane ∧
        queue.Ready store nowMs id pending := by
  simp [due, Option.any_eq_true, Ready, and_assoc]

namespace World

variable {w after : World} {nowMs : Int}

/-- The requests of the lane that could go out for the first time. -/
def fresh (w : World) (nowMs : Int) (lane : Lane) : List RequestId :=
  w.queue.order.filter fun id =>
    w.queue.due w.store nowMs lane id && id ∉ unsettled lane w.trace

/-- What is out of the lane and what could go out for the first time fit together. -/
def Fits (w : World) (nowMs : Int) (lane : Lane) (limit : Nat) : Prop :=
  (unsettled lane w.trace).length + (w.fresh nowMs lane).length ≤ limit

/-- What waits for another attempt is ready and has its turn before anything new. -/
def RetriesFirst (w : World) (nowMs : Int) (lane : Lane) : Prop :=
  ∀ id ∈ unsettled lane w.trace, id ∉ w.queue.inFlight →
    w.queue.due w.store nowMs lane id = true ∧
      ∀ new ∈ w.fresh nowMs lane, id ∈ w.queue.order.takeWhile (· ≠ new)

instance (w : World) (nowMs : Int) (lane : Lane) : Decidable (w.RetriesFirst nowMs lane) :=
  inferInstanceAs (Decidable (∀ id ∈ unsettled lane w.trace, _ → _ ∧ _))

/-- Requests are released when the new ones fit or come last, and answers are safe. -/
def LimitSafe (w : World) : Action → Prop
  | .releasable nowMs => ∀ (lane : Lane) (limit : Nat), lane.limit = some limit →
      w.Fits nowMs lane limit ∨ w.RetriesFirst nowMs lane
  | action => LaneSafe Lane.exclusive w action

/-! ## Steps that release nothing -/

/-- No request is out that was not, and those that are out keep their records. -/
def NoRelease (w after : World) : Prop :=
  ∀ lane, (unsettled lane after.trace).Sublist (unsettled lane w.trace) ∧
    ∀ id ∈ unsettled lane after.trace, id ∈ w.queue.pending →
      after.queue.pending[id]? = w.queue.pending[id]?

/-- A request that is out is tracked on its lane. -/
def Tracked (w : World) : Prop :=
  ∀ lane, ∀ id ∈ unsettled lane w.trace,
    ∃ pending, w.queue.pending[id]? = some pending ∧ pending.lane = lane

theorem Tracked.of_noRelease (tracked : Tracked w) (h : NoRelease w after) :
    Tracked after := by
  intro lane id hid
  obtain ⟨pending, hp, hlane⟩ := tracked lane id ((h lane).1.subset hid)
  exact ⟨pending, ((h lane).2 id hid (mem_of_getElem? hp)).trans hp, hlane⟩

theorem NoRelease.quiet {new : List Event} (trace_eq : after.trace = w.trace ++ new)
    (quiet : ∀ e ∈ new, ∀ id l, e ≠ .released id l)
    (kept : ∀ id ∈ w.queue.pending, after.queue.pending[id]? = w.queue.pending[id]?) :
    NoRelease w after := fun lane =>
  ⟨trace_eq ▸ unsettled_append_sublist lane _ quiet, fun id _ hid => kept id hid⟩

theorem NoRelease.trans {last : World} (h : NoRelease w after) (h' : NoRelease after last) :
    NoRelease w last := by
  intro lane
  refine ⟨(h' lane).1.trans (h lane).1, fun id hid hmem => ?_⟩
  have hmid := (h lane).2 id ((h' lane).1.subset hid) hmem
  refine ((h' lane).2 id hid ?_).trans hmid
  rwa [Std.ExtTreeMap.mem_iff_isSome_getElem?, hmid, ← Std.ExtTreeMap.mem_iff_isSome_getElem?]

theorem noRelease_settle (w : World) (id : RequestId) : NoRelease w (w.settle id) := by
  cases hp : w.queue.pending[id]? with
  | none =>
    rw [settle_of_notMem (by simpa using hp)]
    exact NoRelease.quiet (List.append_nil _).symm (by simp) fun _ _ => rfl
  | some pending =>
    have htrace : (w.settle id).trace =
        w.trace ++ [.settled id] ++ markEvents (settleChanges w.store id) := by
      simp [World.settle, mem_of_getElem? hp]
    have hsub (lane : Lane) :=
      unsettled_append_sublist lane (w.trace ++ [.settled id])
        (markEvents_quiet (settleChanges w.store id))
    intro lane
    rw [htrace]
    refine ⟨(hsub lane).trans (by simp [unsettledStep]), fun other hother _ => ?_⟩
    have hne : other ≠ id := by
      have := (hsub lane).subset hother
      simp only [unsettled_snoc, unsettledStep, List.mem_filter, decide_eq_true_eq] at this
      exact this.2
    simp [World.settle, w.queue.complete_of_mem w.store id hp, getElem?_erase_ite, hne]

theorem noRelease_step (w : World) (action : Action) (h : ∀ nowMs, action ≠ .releasable nowMs) :
    NoRelease w (w.step action) := by
  cases action with
  | enqueue request lane =>
    by_cases hmem : request.id ∈ w.queue.pending
    · rw [step_enqueue_of_mem lane hmem]
      exact NoRelease.quiet (List.append_nil _).symm (by simp) fun _ _ => rfl
    refine NoRelease.quiet rfl ?_ fun id hid => ?_
    · simp only [hmem, if_false]
      grind [markEvents]
    · rw [step_enqueue_pending hmem, getElem?_insert_ite, if_neg]
      rintro rfl
      exact hmem hid
  | releasable nowMs => exact absurd rfl (h nowMs)
  | onResponse id response nowMs jitterUnit =>
    rcases w.queue.onResponse_cases w.store id response nowMs jitterUnit with
      ⟨hmem, heq⟩ | ⟨pending, hp, hsettle, heq⟩ | ⟨pending, hp, hretry, hq, -⟩
    · exact NoRelease.quiet rfl (by simp [hmem]) fun _ _ => by simp [World.step, heq]
    · rw [step_onResponse_of_settling hp hsettle heq]
      have hanswered : NoRelease w { w with trace := w.trace ++ [.answered id] } :=
        NoRelease.quiet rfl (by simp) fun _ _ => rfl
      exact hanswered.trans (noRelease_settle _ id)
    · obtain ⟨attempts, retryNotBeforeMs, hq⟩ := hq
      exact NoRelease.quiet rfl (by simp [hretry]) fun _ _ => by simp [World.step, hq]
  | onTransportError id nowMs jitterUnit =>
    rcases w.queue.onTransportError_cases id nowMs jitterUnit with ⟨-, heq⟩ | ⟨pending, hp, hq⟩
    · exact NoRelease.quiet rfl (by simp) fun _ _ => by simp [World.step, heq]
    · obtain ⟨attempts, retryNotBeforeMs, hq⟩ := hq
      exact NoRelease.quiet rfl (by simp) fun _ _ => by simp [World.step, hq]
  | discardKind kind =>
    exact Trace.run_invariant (NoRelease w) (fun mid id h => h.trans (noRelease_settle mid id))
      (NoRelease.quiet (List.append_nil _).symm (by simp) fun _ _ => rfl)
      (w.queue.idsOfKind kind)
  | _ => exact NoRelease.quiet rfl (by grind [markEvents]) fun _ _ => rfl

/-! ## The release loop -/

/-- A lane that is open has room for one more beside what is in flight on it. -/
theorem length_lt_limit (base : HandOutInv w)
    (excl : ExclusiveInv Lane.exclusive w.queue fun _ => False) {limit : Nat}
    (hlimit : lane.limit = some limit) (hopen : w.queue.laneAvailable lane = true)
    {ids : List RequestId} (nodup : ids.Nodup) (onLane : ∀ id ∈ ids, OnLane w.queue id lane) :
    ids.length < limit := by
  by_cases hex : lane.exclusive = true
  · -- The flag of an exclusive lane is set while anything is in flight on it.
    have hnone : ids = [] := by
      refine List.eq_nil_iff_forall_not_mem.2 fun id hid => ?_
      obtain ⟨hflight, pending, hp, rfl⟩ := onLane id hid
      have := excl.flagged id pending hflight hp hex not_false
      rw [hopen] at this
      cases this
    have hone : limit = 1 := by
      cases lane <;> first | exact (Option.some.inj hlimit).symm | cases hex
    simp [hnone, hone]
  · cases lane with
    | other =>
      cases hlimit
      have hsub : ids.toFinset ⊆ w.queue.otherInFlight := fun id hid =>
        (base.others id).2 (onLane id (List.mem_toFinset.1 hid))
      have hroom : w.queue.otherInFlight.card < otherLaneConcurrency := by
        simpa [laneAvailable] using hopen
      rw [← List.toFinset_card_of_nodup nodup]
      exact (Finset.card_le_card hsub).trans_lt hroom
    | accountData => cases hlimit
    | _ => exact absurd rfl hex

/-- What the loop has done to a lane so far: it handed out new requests on top of those that
were out, and the limit stands. -/
def Filled (w : World) (nowMs : Int) (mid : World) : Prop :=
  ∀ (lane : Lane) (limit : Nat), lane.limit = some limit →
    (unsettled lane mid.trace).length ≤ limit ∧
      ∃ new, unsettled lane mid.trace = new ++ unsettled lane w.trace ∧
        ∀ id ∈ new, id ∈ w.fresh nowMs lane ∧ OnLane mid.queue id lane

/-- When a new request has its turn and the lane is open, every request of the lane that is
out is in flight, because those waiting for another attempt had their turn before. -/
theorem RetriesFirst.onLane (first : w.RetriesFirst nowMs lane) (tracked : Tracked w)
    (hne : lane ≠ .accountData) {ids rest : List RequestId} {new : RequestId}
    (horder : w.queue.order = ids ++ new :: rest) (hnew : new ∈ w.fresh nowMs lane)
    (hopen : (w.midLoop nowMs ids).queue.laneAvailable lane = true)
    (hid : id ∈ unsettled lane w.trace) : OnLane (w.midLoop nowMs ids).queue id lane := by
  obtain ⟨pending, hp, hlane⟩ := tracked lane id hid
  refine ⟨?_, pending, by rw [World.midLoop, (releaseLoop_frame ids).1]; exact hp, hlane⟩
  by_cases hflight : id ∈ w.queue.inFlight
  · exact releaseLoop_inFlight_mono [] ids hflight
  obtain ⟨hdue, holder⟩ := first id hid hflight
  have hmem : id ∈ ids := by
    have := holder new hnew
    rw [horder, List.takeWhile_append] at this
    split at this
    · simpa using this
    · exact List.takeWhile_subset _ this
  obtain ⟨record, hr, -, hready⟩ := due_iff.1 hdue
  cases hp.symm.trans hr
  obtain ⟨earlier, later, rfl⟩ := List.append_of_mem hmem
  exact inFlight_of_turn hp (hlane ▸ hne) hready (hlane ▸ hopen)

section Release

variable (base : HandOutInv w) (excl : ExclusiveInv Lane.exclusive w.queue fun _ => False)
  (tracked : Tracked w) (safe : LimitSafe w (.releasable nowMs)) {ids : List RequestId}
  {pending : PendingRequest} (hpre : ids ++ [id] <+: w.queue.order)
  (filled : Filled w nowMs (w.midLoop nowMs ids))
  (helig : OutgoingQueue.eligible (w.queue.releaseLoop w.store nowMs ids) nowMs id pending)

include base excl tracked safe hpre filled helig

/-- There is room for a request that goes out for the first time. -/
theorem Filled.length_lt {limit : Nat} (hlimit : pending.lane.limit = some limit)
    (hfirst : id ∈ w.fresh nowMs pending.lane)
    (hnot : id ∉ unsettled pending.lane (w.midLoop nowMs ids).trace) :
    (unsettled pending.lane (w.midLoop nowMs ids).trace).length < limit := by
  obtain ⟨-, new, hnew, hfresh⟩ := filled pending.lane limit hlimit
  rcases safe pending.lane limit hlimit with fits | first
  · have hnodup : (id :: new).Nodup := by
      have := List.nodup_cons.2 ⟨hnot, unsettled_nodup (w.midLoop nowMs ids).trace⟩
      rw [hnew, ← List.cons_append] at this
      exact this.of_append_left
    have hsub : id :: new ⊆ w.fresh nowMs pending.lane :=
      List.cons_subset.2 ⟨hfirst, fun other hother => (hfresh other hother).1⟩
    have hlen := (hnodup.subperm hsub).length_le
    rw [Fits] at fits
    rw [List.length_cons] at hlen
    rw [hnew, List.length_append]
    omega
  · obtain ⟨rest, horder⟩ := hpre
    refine length_lt_limit (base.midLoop nowMs ids) (excl.midLoop (fun _ h => h) nowMs ids) hlimit
      helig.2.2.2.2 (unsettled_nodup _) fun other hother => ?_
    rw [hnew, List.mem_append] at hother
    rcases hother with hother | hother
    · exact (hfresh other hother).2
    · refine first.onLane tracked (fun h => ?_)
        (horder.symm.trans (List.append_assoc _ _ _)) hfirst helig.2.2.2.2 hother
      rw [h] at hlimit
      cases hlimit

/-- A hand-out keeps the limits. -/
theorem Filled.release (hrel : w.store.isReleased pending.requiredSeq = true) :
    Filled w nowMs ((w.midLoop nowMs ids).release id pending) := by
  have hkey : pending.request.id = id := (base.midLoop nowMs ids).keyed id pending helig.1
  intro lane limit hlimit
  obtain ⟨hle, new, hnew, hfresh⟩ := filled lane limit hlimit
  have hkept (other : RequestId) (hother : other ∈ new) : other ∈ w.fresh nowMs lane ∧
      OnLane ((w.midLoop nowMs ids).release id pending).queue other lane :=
    ⟨(hfresh other hother).1, (onLane_release helig.1).2 (.inl (hfresh other hother).2)⟩
  rw [World.release, unsettled_snoc, unsettledStep, hkey]
  by_cases hlane : pending.lane = lane
  swap
  · rw [if_neg hlane]
    exact ⟨hle, new, hnew, hkept⟩
  subst hlane
  rw [if_pos rfl]
  by_cases hout : id ∈ unsettled pending.lane (w.midLoop nowMs ids).trace
  · rw [List.insert_of_mem hout]
    exact ⟨hle, new, hnew, hkept⟩
  have hfirst : id ∈ w.fresh nowMs pending.lane := by
    refine List.mem_filter.2 ⟨hpre.subset (by simp), ?_⟩
    have hdue : w.queue.due w.store nowMs pending.lane id = true :=
      due_iff.2 ⟨pending, by rw [← (releaseLoop_frame ids).1]; exact helig.1, rfl,
        by rw [← backingOff_releaseLoop ids]; exact helig.2.2.2.1, hrel⟩
    rw [hnew] at hout
    simpa [hdue] using fun h => hout (List.mem_append_right _ h)
  rw [List.insert_of_not_mem hout]
  refine ⟨filled.length_lt base excl tracked safe hpre helig hlimit hfirst hout, id :: new,
    by rw [hnew]; rfl, fun other hother => ?_⟩
  rcases List.mem_cons.1 hother with rfl | hother
  · exact ⟨hfirst, (onLane_release helig.1).2 (.inr ⟨rfl, rfl⟩)⟩
  · exact hkept other hother

end Release

/-- The loop keeps the requests that are out tracked. -/
theorem Tracked.midLoop (tracked : Tracked w) (base : HandOutInv w) (ids : List RequestId) :
    Tracked (w.midLoop nowMs ids) := by
  have general : Tracked (w.midLoop nowMs ids) ∧ HandOutInv (w.midLoop nowMs ids) := by
    refine midLoop_invariant (fun mid => Tracked mid ∧ HandOutInv mid)
      (fun ids id pending _ mid helig _ => ⟨?_, mid.2.release helig.1 helig.2.2.1
        helig.2.2.2.2⟩) ⟨tracked, base⟩
    intro lane other hother
    simp only [World.release, unsettled_snoc, unsettledStep,
      mid.2.keyed id pending helig.1] at hother
    split at hother
    next hlane =>
      rcases List.mem_insert_iff.1 hother with rfl | hother
      · exact ⟨pending, by rw [World.release, markInFlight_pending]; exact helig.1, hlane⟩
      · simpa [World.release] using mid.1 lane other hother
    next => simpa [World.release] using mid.1 lane other hother
  exact general.1

/-- What every state of a run under `LimitSafe` satisfies. -/
structure LimitInv (w : World) : Prop where
  base : HandOutInv w
  excl : ExclusiveInv Lane.exclusive w.queue fun _ => False
  tracked : Tracked w
  limits : LaneLimits w.trace

theorem LimitInv.step (inv : LimitInv w) (action : Action) (safe : LimitSafe w action) :
    LimitInv (w.step action) := by
  have hbase := inv.base.step action
  have hexcl : ExclusiveInv Lane.exclusive (w.step action).queue fun _ => False := by
    refine inv.excl.step (fun _ h => h) inv.base action ?_
    cases action <;> first | exact safe | trivial
  by_cases h : ∃ nowMs, action = .releasable nowMs
  · obtain ⟨nowMs, rfl⟩ := h
    refine ⟨hbase, hexcl, inv.tracked.midLoop inv.base _, fun lane limit hlimit => ?_⟩
    have hfilled : Filled w nowMs (w.midLoop nowMs w.queue.order) := by
      refine midLoop_invariant (Filled w nowMs) (fun ids id pending hpre filled helig hrel =>
        filled.release inv.base inv.excl inv.tracked safe hpre helig hrel) ?_
      exact fun lane limit hlimit => ⟨inv.limits lane limit hlimit, [], rfl, by simp⟩
    exact (hfilled lane limit hlimit).1
  · have hquiet := noRelease_step w action (by simpa using h)
    exact ⟨hbase, hexcl, inv.tracked.of_noRelease hquiet, fun lane limit hlimit =>
      (hquiet lane).1.length_le.trans (inv.limits lane limit hlimit)⟩

theorem unsettled_start (records : List SealedRecord) (store : Store) :
    unsettled lane (start records store).trace = [] := by
  refine List.sublist_nil.1 (unsettled_append_sublist lane [] fun e he id l => ?_)
  rcases List.mem_append.1 he with h | h
  · exact markEvents_quiet _ e h id l
  · obtain ⟨record, -, rfl⟩ := List.mem_map.1 h
    exact Event.noConfusion

/-- In every run whose releases and answers are safe, no lane ever has more requests handed out
without a settling response than it may. -/
theorem laneLimits_of_limitSafe (records : List SealedRecord) (store : Store)
    (actions : List Action)
    (safe : Trace.Meets World.step LimitSafe (start records store) actions) :
    LaneLimits ((start records store).run actions).trace := by
  have hstart : LimitInv (start records store) :=
    ⟨HandOutInv.start records store, ExclusiveInv.start _ records store,
      fun lane id hid => by simp [unsettled_start] at hid,
      fun lane limit _ => by simp [unsettled_start]⟩
  exact (Trace.run_invariant_of_meets LimitInv
    (fun _ action guard inv => inv.step action guard) safe hstart).limits

/-- The first message is handed out and times out; while it backs off the second is handed
out; then a late answer for the first arrives. -/
def lateAnswer : List Action :=
  [.enqueue (toDeviceMessage 0) .toDevice, .releasable 0,
    .enqueue (toDeviceMessage 1) .toDevice, .enqueue (toDeviceMessage 2) .toDevice,
    .ack 0, .ack 1, .onTransportError (.next 0) 0 1, .releasable 0,
    .onResponse (.next 0) ⟨503, none⟩ 1 1, .releasable 1]

/-- After the late answer the second and the third message are in flight together, and none
of the three has settled. -/
theorem not_laneLimits_lateAnswer :
    ¬ LaneLimits ((start [] (Store.new ⟨"DEV1"⟩ insecurePlainCodecForTests blankSerde)).run
      lateAnswer).trace := by
  intro limits
  have hthree : (unsettled .toDevice ((start [] (Store.new ⟨"DEV1"⟩ insecurePlainCodecForTests
      blankSerde)).run lateAnswer).trace).length = 3 := by decide +kernel
  have := limits .toDevice 1 rfl
  omega

/-- The first message times out and is handed out again before the second. -/
def retried : List Action :=
  [.enqueue (toDeviceMessage 0) .toDevice, .enqueue (toDeviceMessage 1) .toDevice, .ack 0,
    .releasable 0, .onTransportError (.next 0) 0 1, .releasable 1000]

theorem laneLimits_of_retried :
    LaneLimits ((start [] (Store.new ⟨"DEV1"⟩ insecurePlainCodecForTests blankSerde)).run
      retried).trace := by
  refine laneLimits_of_limitSafe [] _ _ ⟨trivial, trivial, trivial, ?_, ?_, ?_, trivial⟩
  · intro lane limit _
    exact .inr fun id hid => by cases hid
  · intro pending _ _ other record hother _ _
    have hflight : (((start [] (Store.new ⟨"DEV1"⟩ insecurePlainCodecForTests blankSerde)).run
        (retried.take 4)).queue.inFlight) = {.next 0} := by
      decide
    exact Finset.mem_singleton.1 (hflight ▸ hother)
  · intro lane limit hlimit
    cases lane with
    | toDevice => exact .inr (by decide +kernel)
    | accountData => cases hlimit
    | _ => exact .inr fun id hid => by cases hid

end World

end Messenger
