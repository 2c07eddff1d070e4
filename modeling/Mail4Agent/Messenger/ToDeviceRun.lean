import Mail4Agent.Messenger.ToDevice

/-!
# To-device events over whole runs

A run of the inbox ingests responses and answers to `/keys/query`, drains batches and crashes.

An event that the routing refuses ends the ingest it belongs to, or the retry of the waiting events
behind it. `noneLost_throughout` says when every ingest and every retry comes to its end and no
event is lost.

A crash keeps a first part of the batches drained since the start, and the next start finds the
records as they stood when the last of these was drained: the batches hold the changes in the order
they were made.

The token of a response is saved after its events were handled. An event that was put on the list of
waiting ones was handled and not processed, and there is no record it could be found in again.
-/

namespace Messenger

inductive InboxAction (olm : Olm) (lib : Megolm) where
  | sync (response : ToDeviceSync olm lib)
  /-- The answer changes device lists, then the waiting events are processed. -/
  | keysQuery (changes : List (OtherChange olm lib))
  | others (changes : List (OtherChange olm lib))
  | flush
  /-- The first batches survive. -/
  | crash (kept : Nat)

namespace Inbox

variable {olm : Olm} {lib : Megolm} {s : Inbox olm lib}

/-- A start on the given records. -/
def restart (s : Inbox olm lib) (records : Records olm lib) : Inbox olm lib :=
  { s with
    records := records.reload
    disk := records.reload
    unknownSenderRetry := []
    batches := [] }

def step (s : Inbox olm lib) : InboxAction olm lib → Inbox olm lib
  | .sync response => (s.ingestSync response).1
  | .keysQuery changes => (changes.foldl change s).retryUnknownSenderQueue.1
  | .others changes => changes.foldl change s
  | .flush => s.drain
  | .crash kept => s.restart ((s.batches.take kept).getLast?.getD s.disk)

/-! ### Content that is absorbed -/

/-- The event was processed, or waits for its sender's device. -/
def Keeps (s : Inbox olm lib) (number : Nat) : Prop :=
  number ∈ s.records.processed ∨ number ∈ s.unknownSenderRetry.map Delivery.number

/-- Every event of a response whose token was saved was processed or waits. -/
def NoneLost (s : Inbox olm lib) : Prop := ∀ number ∈ s.records.covered, s.Keeps number

/-- A response is ingested to its end and its token saved; the waiting events are gone through to
the last one. -/
def Completes (s : Inbox olm lib) : InboxAction olm lib → Prop
  | .sync response => (s.ingestSync response).2 = none ∧
      (s.ingestSync response).1.records.syncToken = some response.nextBatch
  | .keysQuery changes => (changes.foldl change s).retryUnknownSenderQueue.2 = none
  | .others _ | .flush | .crash _ => True

instance (s : Inbox olm lib) : DecidablePred s.Completes
  | .sync _ => inferInstanceAs (Decidable (_ ∧ _))
  | .keysQuery _ => inferInstanceAs (Decidable (_ = _))
  | .others _ | .flush | .crash _ => isTrue trivial

/-- The event opens to nothing the routing refuses, and if it has to wait there is room for it. -/
def Absorbed (s : Inbox olm lib) (delivery : Delivery) : Prop :=
  ¬ s.Refuses delivery ∧
    (s.SenderUnknown delivery → s.unknownSenderRetry.length < unknownSenderRetryCapacity)

/-- Every event of the response, or of the list of waiting ones, is absorbed in its turn. -/
def Absorbs (s : Inbox olm lib) : InboxAction olm lib → Prop
  | .sync response =>
    Trace.Meets after Absorbed (s.arrive response.events) (s.deliveries response.events)
  | .keysQuery changes =>
    Trace.Meets after Absorbed { changes.foldl change s with unknownSenderRetry := [] }
      s.unknownSenderRetry
  | .others _ | .flush => True
  | .crash _ => False

variable {delivery : Delivery}

theorem Keeps.extends {after : Inbox olm lib} {number : Nat} (h : s.Keeps number)
    (ext : s.Extends after) (retry : after.unknownSenderRetry = s.unknownSenderRetry) :
    after.Keeps number :=
  h.imp (fun h => ext.processed h) fun h => retry ▸ h

/-- An absorbed event goes through, is kept, and drops none of those kept before. -/
theorem Absorbed.keeps (h : s.Absorbed delivery) :
    (s.processToDeviceEvent delivery).2 = none ∧ (s.after delivery).Keeps delivery.number ∧
      ∀ number, s.Keeps number → (s.after delivery).Keeps number := by
  have houtcome := s.outcome_processToDeviceEvent delivery
  rw [after]
  generalize s.processToDeviceEvent delivery = result at houtcome ⊢
  cases houtcome with
  | @settled after _ _ before retry =>
    exact ⟨rfl, .inl (Finset.mem_insert_self _ _), fun number hnumber =>
      (hnumber.extends before retry).extends (extends_settle after delivery) rfl⟩
  | @waits after unknown _ before retry =>
    have hroom : (after.queueUnknownSenderRetry delivery).unknownSenderRetry =
        s.unknownSenderRetry ++ [delivery] := by
      have := h.2 unknown
      simp [queueUnknownSenderRetry, retry, Nat.sub_eq_zero_of_le this]
    refine ⟨rfl, .inr (by simp [hroom]), fun number hnumber => ?_⟩
    refine hnumber.imp (fun hnumber => before.processed hnumber) fun hnumber => ?_
    rw [hroom, List.map_append]
    exact List.mem_append_left _ hnumber
  | refused _ refused => exact absurd refused h.1

theorem processAll_keeps {deliveries : List Delivery}
    (absorbed : Trace.Meets after Absorbed s deliveries) :
    (s.processAll deliveries).2 = none ∧
      (∀ delivery ∈ deliveries, (s.processAll deliveries).1.Keeps delivery.number) ∧
      ∀ number, s.Keeps number → (s.processAll deliveries).1.Keeps number := by
  induction deliveries generalizing s with
  | nil => exact ⟨rfl, nofun, fun _ h => h⟩
  | cons delivery rest ih =>
    obtain ⟨hok, hself, hothers⟩ := absorbed.1.keeps
    obtain ⟨hrest, hkept, hbefore⟩ := ih absorbed.2
    rw [processAll_cons, hok]
    refine ⟨hrest, fun other hother => ?_, fun number hnumber => hbefore _ (hothers _ hnumber)⟩
    rcases List.mem_cons.1 hother with rfl | hother
    · exact hbefore _ hself
    · exact hkept other hother

variable {response : ToDeviceSync olm lib}

/-- An absorbed response is ingested and loses nothing. -/
theorem NoneLost.ingestSync (h : s.NoneLost) (others : ∀ inbox, (response.others inbox).2 = none)
    (absorbed : s.Absorbs (.sync response)) :
    s.Completes (.sync response) ∧ (s.ingestSync response).1.NoneLost := by
  obtain ⟨hok, hself, hbefore⟩ := processAll_keeps absorbed
  have hcovered := ((s.arrive response.events).extends_processAll
    (s.deliveries response.events)).covered
  have hchanges := extends_foldl_change
    ((s.arrive response.events).processAll (s.deliveries response.events)).1
    (response.others ((s.arrive response.events).processAll (s.deliveries response.events)).1).1
  have heq : s.ingestSync response = ((s.otherChanges response).saveSyncToken response.nextBatch
      (s.deliveries response.events), none) := by
    simp only [ingestSync_eq, hok, others]
  rw [Completes, heq]
  refine ⟨⟨rfl, rfl⟩, fun number hnumber => ?_⟩
  have hkept : ((s.arrive response.events).processAll
      (s.deliveries response.events)).1.Keeps number := by
    rcases Finset.mem_union.1 hnumber with hnumber | hnumber
    · have hold : number ∈ s.records.covered := by
        rw [otherChanges, hchanges.covered, hcovered] at hnumber
        exact hnumber
      exact hbefore number (h number hold)
    · obtain ⟨delivery, hdelivery, rfl⟩ := List.mem_map.1 (List.mem_toFinset.1 hnumber)
      exact hself delivery hdelivery
  have hothers : (s.otherChanges response).Keeps number :=
    hkept.extends hchanges (unknownSenderRetry_foldl_change _ _)
  exact hothers

/-- So do the waiting events when the devices of their senders may have become known. -/
theorem NoneLost.keysQuery (h : s.NoneLost) {changes : List (OtherChange olm lib)}
    (absorbed : s.Absorbs (.keysQuery changes)) :
    s.Completes (.keysQuery changes) ∧ (s.step (.keysQuery changes)).NoneLost := by
  obtain ⟨hok, hself, hbefore⟩ := processAll_keeps absorbed
  have hchanges := s.extends_foldl_change changes
  have hretry := s.unknownSenderRetry_foldl_change changes
  simp only [Completes, Inbox.step, retryUnknownSenderQueue, hretry]
  refine ⟨hok, fun number hnumber => ?_⟩
  rw [(extends_processAll _ _).covered] at hnumber
  rcases h number (hchanges.covered ▸ hnumber) with hprocessed | hwaits
  · exact hbefore number (.inl (hchanges.processed hprocessed))
  · obtain ⟨delivery, hdelivery, rfl⟩ := List.mem_map.1 hwaits
    exact hself delivery hdelivery

theorem NoneLost.step (h : s.NoneLost) (action : InboxAction olm lib)
    (others : ∀ response, action = .sync response → ∀ inbox, (response.others inbox).2 = none)
    (absorbed : s.Absorbs action) : s.Completes action ∧ (s.step action).NoneLost := by
  cases action with
  | sync response => exact h.ingestSync (others response rfl) absorbed
  | keysQuery changes => exact h.keysQuery absorbed
  | others changes =>
    have hchanges := s.extends_foldl_change changes
    refine ⟨trivial, fun number hnumber => ?_⟩
    exact (h number (hchanges.covered ▸ hnumber)).extends hchanges
      (s.unknownSenderRetry_foldl_change changes)
  | flush => exact ⟨trivial, h⟩
  | crash kept => exact absorbed.elim

end Inbox

/-- The answer that makes Bob's device known. -/
def bobBecomesKnown : OtherChange (plainOlm keyPayloads) strictMegolm :=
  .store ∅ [bobsDevice] ∅ ∅ ∅ ∅ ()

namespace Inbox

variable {olm : Olm} {lib : Megolm} {s : Inbox olm lib}

/-! ### What survives a crash -/

/-- Whatever a crash may find, every event of a response whose token is there was processed. -/
def Accounted (s : Inbox olm lib) : Prop :=
  ∀ records ∈ s.disk :: s.batches, records.covered ⊆ records.processed

instance (s : Inbox olm lib) : Decidable s.Accounted :=
  inferInstanceAs (Decidable (∀ _ ∈ _, _))

/-- No event, in its turn, comes from a device that is not known. -/
def AllKnown (s : Inbox olm lib) : List Delivery → Prop
  | [] => True
  | delivery :: rest =>
    ¬ s.SenderUnknown delivery ∧
      ((s.processToDeviceEvent delivery).2 = none → (s.after delivery).AllKnown rest)

instance decidableAllKnown (s : Inbox olm lib) : (deliveries : List Delivery) →
    Decidable (s.AllKnown deliveries)
  | [] => isTrue trivial
  | delivery :: rest =>
    have := decidableAllKnown (s.after delivery) rest
    inferInstanceAs (Decidable (_ ∧ (_ → _)))

/-- Responses arrive when the devices of their senders are known. -/
def Known (s : Inbox olm lib) : InboxAction olm lib → Prop
  | .sync response => (s.arrive response.events).AllKnown (s.deliveries response.events)
  | _ => True

instance (s : Inbox olm lib) : DecidablePred s.Known
  | .sync _ => inferInstanceAs (Decidable (AllKnown _ _))
  | .keysQuery _ | .others _ | .flush | .crash _ => isTrue trivial

/-! ### Events of known devices -/

/-- Events of known devices do not wait, and are processed if none is refused. -/
theorem AllKnown.processAll {deliveries : List Delivery} (known : s.AllKnown deliveries) :
    (s.processAll deliveries).1.unknownSenderRetry = s.unknownSenderRetry ∧
      ((s.processAll deliveries).2 = none → ∀ delivery ∈ deliveries,
        delivery.number ∈ (s.processAll deliveries).1.records.processed) := by
  induction deliveries generalizing s with
  | nil => exact ⟨rfl, nofun⟩
  | cons delivery rest ih =>
    obtain ⟨hretry, hprocessed⟩ := (s.outcome_processToDeviceEvent delivery).known known.1
    rw [processAll_cons]
    cases herror : (s.processToDeviceEvent delivery).2 with
    | some e => exact ⟨hretry, nofun⟩
    | none =>
      obtain ⟨hretry', hrest⟩ := ih (known.2 herror)
      refine ⟨hretry'.trans hretry, fun ok other hother => ?_⟩
      rcases List.mem_cons.1 hother with rfl | hother
      · exact ((s.after other).extends_processAll rest).processed (hprocessed herror)
      · exact hrest ok other hother

/-! ### Runs -/

/-- Nothing waits, and what the token covers was processed, now and at every batch. -/
structure Settled (s : Inbox olm lib) : Prop where
  retry : s.unknownSenderRetry = []
  covered : s.records.covered ⊆ s.records.processed
  accounted : s.Accounted

theorem Settled.extends {after : Inbox olm lib} (h : s.Settled) (ext : s.Extends after)
    (retry : after.unknownSenderRetry = s.unknownSenderRetry) : after.Settled where
  retry := retry.trans h.retry
  covered := ext.covered ▸ h.covered.trans ext.processed
  accounted := by
    obtain ⟨new, hbatches, hnew⟩ := ext.batches
    intro records hmem
    rw [hbatches, ext.disk, ← List.cons_append] at hmem
    rcases List.mem_append.1 hmem with hmem | hmem
    · exact h.accounted records hmem
    · obtain ⟨hcovered, hprocessed⟩ := hnew records hmem
      exact hcovered ▸ h.covered.trans hprocessed

theorem Settled.saveSyncToken (h : s.Settled) (nextBatch : String) {deliveries : List Delivery}
    (hprocessed : ∀ delivery ∈ deliveries, delivery.number ∈ s.records.processed) :
    (s.saveSyncToken nextBatch deliveries).Settled := by
  refine ⟨h.retry, Finset.union_subset h.covered fun number hnumber => ?_, h.accounted⟩
  obtain ⟨delivery, hdelivery, rfl⟩ := List.mem_map.1 (List.mem_toFinset.1 hnumber)
  exact hprocessed delivery hdelivery

theorem Settled.ingestSync (h : s.Settled) {response : ToDeviceSync olm lib}
    (known : (s.arrive response.events).AllKnown (s.deliveries response.events)) :
    (s.ingestSync response).1.Settled := by
  obtain ⟨hretry, hprocessed⟩ := known.processAll
  have arrived : (s.arrive response.events).Settled := ⟨h.retry, h.covered, h.accounted⟩
  have events := arrived.extends (extends_processAll _ _) hretry
  have others : (s.otherChanges response).Settled :=
    events.extends (extends_foldl_change _ _) (unknownSenderRetry_foldl_change _ _)
  rw [ingestSync_eq]
  cases herror : ((s.arrive response.events).processAll (s.deliveries response.events)).2 with
  | some e => simpa only [herror] using events
  | none =>
    cases hothers : (response.others
        ((s.arrive response.events).processAll (s.deliveries response.events)).1).2 with
    | some e => simpa only [herror, hothers] using others
    | none =>
      simp only [herror, hothers]
      refine others.saveSyncToken _ fun delivery hdelivery => ?_
      exact (extends_foldl_change _ _).processed (hprocessed herror delivery hdelivery)

theorem Settled.restart (h : s.Settled) {records : Records olm lib}
    (found : records ∈ s.disk :: s.batches) : (s.restart records).Settled := by
  have hrecords := h.accounted records found
  refine ⟨rfl, hrecords, fun other hother => ?_⟩
  obtain rfl := List.mem_singleton.1 hother
  exact hrecords

theorem Settled.step (h : s.Settled) (action : InboxAction olm lib) (known : s.Known action) :
    (s.step action).Settled := by
  cases action with
  | sync response => exact h.ingestSync known
  | keysQuery changes =>
    have changed : (changes.foldl change s).Settled :=
      h.extends (s.extends_foldl_change changes) (s.unknownSenderRetry_foldl_change changes)
    simp only [Inbox.step, retryUnknownSenderQueue, changed.retry]
    exact ⟨rfl, changed.covered, changed.accounted⟩
  | others changes =>
    exact h.extends (s.extends_foldl_change changes) (s.unknownSenderRetry_foldl_change changes)
  | flush =>
    refine ⟨h.retry, h.covered, fun records hmem => ?_⟩
    change records ∈ (s.disk :: s.batches) ++ [s.records] at hmem
    rcases List.mem_append.1 hmem with hmem | hmem
    · exact h.accounted records hmem
    · obtain rfl := List.mem_singleton.1 hmem
      exact h.covered
  | crash kept =>
    refine h.restart ?_
    cases hlast : (s.batches.take kept).getLast? with
    | none => exact List.mem_cons_self
    | some records =>
      exact List.mem_cons_of_mem _ (List.mem_of_mem_take (List.mem_of_getLast? hlast))

/-- In every run whose responses arrive when the devices of their senders are known, every event
whose response has its token in the records a crash may find was processed. -/
theorem accounted_throughout (init : Inbox olm lib) (actions : List (InboxAction olm lib))
    (settled : init.Settled) (known : Trace.Meets step Known init actions) :
    Trace.Throughout step Accounted init actions :=
  Trace.throughout_of_meets Settled (fun _ action known h => h.step action known)
    (fun _ h => h.accounted) known settled

end Inbox

/-- A key arrives, is flushed and survives a crash. -/
def keyThenCrash : List (InboxAction (plainOlm keyPayloads) strictMegolm) :=
  [.sync (syncOf [1]), .flush, .crash 1]

theorem settled_freshInbox (devices : List StoredDevice) : (freshInbox devices).Settled :=
  ⟨rfl, fun _ h => h, fun records hmem => by
    obtain rfl := List.mem_singleton.1 hmem
    exact fun _ h => h⟩

/-- The device of the sender is known. -/
theorem accounted_knownSender :
    Trace.Meets Inbox.step Inbox.Known (freshInbox [bobsDevice]) keyThenCrash ∧
    Trace.Throughout Inbox.step Inbox.Accounted (freshInbox [bobsDevice]) keyThenCrash := by
  have known : Trace.Meets Inbox.step Inbox.Known (freshInbox [bobsDevice]) keyThenCrash := by
    decide +kernel
  exact ⟨known, Inbox.accounted_throughout _ _ (settled_freshInbox _) known⟩

/-- The device of the sender is not known: after the crash the token is there and the key is
neither stored nor waiting. -/
theorem not_accounted_unknownSender :
    ¬ Trace.Throughout Inbox.step Inbox.Accounted (freshInbox []) keyThenCrash ∧
    (Trace.run Inbox.step (freshInbox []) keyThenCrash).records.syncToken = some "s1" ∧
    0 ∈ (Trace.run Inbox.step (freshInbox []) keyThenCrash).records.covered ∧
    0 ∉ (Trace.run Inbox.step (freshInbox []) keyThenCrash).records.processed ∧
    (Trace.run Inbox.step (freshInbox []) keyThenCrash).unknownSenderRetry = [] := by
  refine ⟨fun h => ?_, by decide +kernel, by decide +kernel, by decide +kernel, rfl⟩
  have hlast := h.last
  revert hlast
  decide +kernel

end Messenger
