import Mail4Agent.Messenger.Timeline
import Mail4Agent.Foundation.Trace

/-!
# Runs of a timeline

A timeline changes by the calls of `TimelineCall`; a sync window and an older page are runs
of them, with the decryptions behind the events. Most of what a call does is one of a few
things: it adds rows, it rewrites a row, or it only counts relations, which `CountsOnly`
describes. The positions in the indexes exist after every run.
-/

namespace Messenger

inductive TimelineCall where
  | gap (prevBatch : Option String)
  | event (event : RawEvent)
  | backPage (events : List RawEvent) (endToken : Option String)
  | echo (txnId : TxnId) (sender : UserId) (originServerTs : Int) (eventType : String)
      (content : ItemContent) (wireContent : Json)
  | sendState (txnId : TxnId) (sendState : SendState)
  | confirm (txnId : TxnId) (eventId : EventId)
  | undecryptable (eventId : EventId) (reason : String)
  | plaintext (eventId : EventId) (sender : UserId) (originServerTs : Int)
      (plaintext : RoomEventPlaintext)

def TimelineCall.apply (t : Timeline) : TimelineCall → Timeline
  | .gap prevBatch => t.noteGap true prevBatch
  | .event received => t.applyOneEvent received
  | .backPage events endToken => t.prependBackPage events endToken
  | .echo txnId sender originServerTs eventType content wireContent =>
    t.pushLocalEcho txnId sender originServerTs eventType content wireContent
  | .sendState txnId state => t.markSendState txnId state
  | .confirm txnId eventId => t.setEchoEventId txnId eventId
  | .undecryptable eventId reason => t.setDecrypted eventId (.undecryptable reason)
  | .plaintext eventId sender originServerTs recovered =>
    applyDecryptedPlaintext t eventId sender originServerTs recovered

section Ingest

variable (decrypt : RawEvent → MegolmEncryptedContent → Except String RoomEventPlaintext)

/-- The call a decryption attempt makes. -/
def decryptCall (event : RawEvent) : Option TimelineCall :=
  event.sealed?.map fun content =>
    match decrypt event content with
    | .ok plaintext => .plaintext event.eventId event.sender event.originServerTs plaintext
    | .error reason => .undecryptable event.eventId reason

theorem decryptNewTimelineEvents_eq_run (t : Timeline) (events : List RawEvent) :
    decryptNewTimelineEvents decrypt t events =
      Trace.run TimelineCall.apply t (events.filterMap (decryptCall decrypt)) := by
  induction events generalizing t with
  | nil => rfl
  | cons event rest ih =>
    have hrest := ih (decryptOne decrypt t event)
    rw [decryptNewTimelineEvents, List.foldl_cons]
    refine hrest.trans ?_
    cases hsealed : event.sealed? with
    | none => simp [decryptOne, decryptCall, hsealed]
    | some content =>
      cases hplain : decrypt event content <;>
        simp [decryptOne, decryptCall, hsealed, hplain, TimelineCall.apply]

/-- A sync window is its events, one after another, and then the decryptions. -/
theorem ingestTimeline_eq_run (t : Timeline) (events : List RawEvent) (limited : Bool)
    (prevBatch : Option String) :
    ingestTimeline decrypt t events limited prevBatch =
      Trace.run TimelineCall.apply t ((if limited then [.gap prevBatch] else []) ++
        events.map .event ++ events.filterMap (decryptCall decrypt)) := by
  have hevents : ∀ s : Timeline,
      Trace.run TimelineCall.apply s (events.map .event) = events.foldl Timeline.applyOneEvent s :=
    fun s => by rw [Trace.run, List.foldl_map]; rfl
  rw [ingestTimeline, decryptNewTimelineEvents_eq_run, Trace.run_append, Trace.run_append,
    hevents]
  cases limited <;> rfl

/-- An older page is one call, and then the decryptions. -/
theorem ingestRoomMessagesResponse_eq_run (t : Timeline) (chunk : List RawEvent)
    (endToken : Option String) :
    ingestRoomMessagesResponse decrypt t chunk endToken =
      Trace.run TimelineCall.apply t (.backPage chunk.reverse endToken ::
        chunk.reverse.filterMap (decryptCall decrypt)) := by
  rw [ingestRoomMessagesResponse, decryptNewTimelineEvents_eq_run]
  rfl

end Ingest

/-! ### Counting relations -/

/-- A row without its counted relations. -/
def TimelineItem.face (item : TimelineItem) : TimelineItem := { item with relations := {} }

namespace Timeline

/-- Only relations were counted or queued: rows, indexes and waiting redactions are as
before. -/
structure CountsOnly (t t' : Timeline) : Prop where
  faces : t'.items.map TimelineItem.face = t.items.map TimelineItem.face
  byEventId : t'.byEventId = t.byEventId
  byTxnId : t'.byTxnId = t.byTxnId
  pendingRedactions : t'.pendingRedactions = t.pendingRedactions

namespace CountsOnly

variable {t t' t'' : Timeline}

theorem refl (t : Timeline) : CountsOnly t t := ⟨rfl, rfl, rfl, rfl⟩

section

variable (h : CountsOnly t t')

include h

theorem trans (h' : CountsOnly t' t'') : CountsOnly t t'' :=
  ⟨h'.faces.trans h.faces, h'.byEventId.trans h.byEventId, h'.byTxnId.trans h.byTxnId,
    h'.pendingRedactions.trans h.pendingRedactions⟩

theorem length_items : t'.items.length = t.items.length := by
  simpa using congrArg List.length h.faces

/-- What can be read off the face of a row stays. -/
theorem map_items {β : Type} (f : TimelineItem → β) (hf : ∀ row, f row.face = f row) :
    t'.items.map f = t.items.map f := by
  have hmap := congrArg (List.map f) h.faces
  simpa [List.map_map, Function.comp_def, hf] using hmap

theorem eventIds : t'.items.map TimelineItem.eventId = t.items.map TimelineItem.eventId :=
  h.map_items _ fun _ => rfl

/-- The row that was at the position of a row. -/
theorem exists_old {i : Nat} {row : TimelineItem} (hrow : t'.items[i]? = some row) :
    ∃ old, t.items[i]? = some old ∧ row.face = old.face := by
  have hface := congrArg (fun rows => rows[i]?) h.faces
  simp only [List.getElem?_map, hrow, Option.map_some] at hface
  obtain ⟨old, hold, hsame⟩ := Option.map_eq_some_iff.1 hface.symm
  exact ⟨old, hold, hsame.symm⟩

end

end CountsOnly

theorem countsOnly_foldRelation (t : Timeline) (target : EventId) (idx : Nat)
    (relating : RelatingEvent) : CountsOnly t (t.foldRelation target idx relating) := by
  unfold foldRelation
  cases hrow : t.items[idx]? with
  | none => exact .refl t
  | some row =>
    dsimp only
    cases aggregateRelation row.relations row.sender relating with
    | none => exact .refl t
    | some bundle => exact ⟨RowIndex.map_set hrow rfl, rfl, rfl, rfl⟩

theorem countsOnly_foldl_foldRelation (t : Timeline) (target : EventId) (idx : Nat)
    (pending : List RelatingEvent) :
    CountsOnly t (pending.foldl (fun t relating => t.foldRelation target idx relating) t) := by
  induction pending generalizing t with
  | nil => exact .refl t
  | cons relating rest ih => exact (countsOnly_foldRelation t target idx relating).trans (ih _)

/-- What dropping an entry keeps, the loop keeps. -/
theorem evictOldest_invariant {β : Type} {evict : β → EventId → β} (P : β → Prop)
    (hevict : ∀ kept oldest, P kept → P (evict kept oldest)) (order : List EventId) {kept : β}
    (h : P kept) : P (evictOldest evict order kept).2 := by
  induction order generalizing kept with
  | nil => exact h
  | cons oldest rest ih =>
    unfold evictOldest
    split
    · exact ih (hevict kept oldest h)
    · exact h

section

variable (t : Timeline)

include t

theorem countsOnly_queuePendingRelation (target : EventId) (relating : RelatingEvent) :
    CountsOnly t (t.queuePendingRelation target relating) :=
  ⟨rfl, rfl, rfl, rfl⟩

theorem countsOnly_foldOrQueueRelation (relating : RelatingEvent) :
    CountsOnly t (t.foldOrQueueRelation relating) := by
  unfold foldOrQueueRelation
  cases relating.relation.target? with
  | none => exact .refl t
  | some target =>
    dsimp only
    cases t.byEventId[target]? with
    | none => exact countsOnly_queuePendingRelation t target relating
    | some idx => exact countsOnly_foldRelation t target idx relating

theorem countsOnly_resolvePendingRelations (eventId : EventId) (idx : Nat) :
    CountsOnly t (t.resolvePendingRelations eventId idx) := by
  unfold resolvePendingRelations
  cases t.pendingRelations[eventId]? with
  | none => exact .refl t
  | some pending =>
    have herase : CountsOnly t { t with pendingRelations := t.pendingRelations.erase eventId } :=
      ⟨rfl, rfl, rfl, rfl⟩
    exact herase.trans (countsOnly_foldl_foldRelation _ eventId idx pending)

theorem countsOnly_modifyRow (idx : Nat) {f : TimelineItem → TimelineItem}
    (hf : ∀ row, (f row).face = row.face) : CountsOnly t (t.modifyRow idx f) :=
  ⟨RowIndex.map_modify hf idx t.items, rfl, rfl, rfl⟩

theorem countsOnly_retractContribution (target bundleTarget : EventId) :
    CountsOnly t (t.retractContribution target bundleTarget) := by
  unfold retractContribution
  dsimp only
  cases t.byEventId[bundleTarget]? with
  | none => exact ⟨rfl, rfl, rfl, rfl⟩
  | some idx =>
    dsimp only
    refine CountsOnly.trans ?_ (countsOnly_modifyRow _ idx ?_)
    · exact ⟨rfl, rfl, rfl, rfl⟩
    · exact fun _ => rfl

theorem queuePendingRedaction_frame (target redactionEventId : EventId) :
    (t.queuePendingRedaction target redactionEventId).items = t.items ∧
      (t.queuePendingRedaction target redactionEventId).byEventId = t.byEventId := by
  unfold queuePendingRedaction
  split <;> exact ⟨rfl, rfl⟩

theorem byEventId_applyOrQueueRedaction (redactionEventId target : EventId) :
    (t.applyOrQueueRedaction redactionEventId target).byEventId = t.byEventId := by
  unfold applyOrQueueRedaction
  cases t.byEventId[target]? with
  | some idx => rfl
  | none =>
    cases t.relationContributions[target]? with
    | some bundleTarget => exact (countsOnly_retractContribution t target bundleTarget).byEventId
    | none => exact (queuePendingRedaction_frame t target redactionEventId).2

end

theorem byEventId_pageEvent (page : Timeline × List TimelineItem) (event : RawEvent) :
    (pageEvent page event).1.byEventId = page.1.byEventId := by
  unfold pageEvent
  split
  · rfl
  · split
    · split
      · exact byEventId_applyOrQueueRedaction _ _ _
      · rfl
    · split
      · exact (countsOnly_foldOrQueueRelation _ _).byEventId
      · rfl

theorem byEventId_foldl_pageEvent (page : Timeline × List TimelineItem) (events : List RawEvent) :
    (events.foldl pageEvent page).1.byEventId = page.1.byEventId := by
  induction events generalizing page with
  | nil => rfl
  | cons event rest ih => exact (ih _).trans (byEventId_pageEvent page event)

theorem mem_foldl_pageEvent {page : Timeline × List TimelineItem} {item : TimelineItem}
    {events : List RawEvent} (hitem : item ∈ (events.foldl pageEvent page).2) :
    item ∈ page.2 ∨
      ∃ event, item = buildItem event ∧ page.1.byEventId[event.eventId]? = none := by
  induction events generalizing page with
  | nil => exact .inl hitem
  | cons event rest ih =>
    obtain hmem | hbuilt : item ∈ (pageEvent page event).2 ∨ _ := ih hitem
    · unfold pageEvent at hmem
      split at hmem
      · exact .inl hmem
      · rename_i hknown
        split at hmem
        · split at hmem <;> exact .inl hmem
        · split at hmem
          · exact .inl hmem
          · rcases List.mem_append.1 hmem with hmem | hmem
            · exact .inl hmem
            · refine .inr ⟨event, List.mem_singleton.1 hmem, ?_⟩
              simpa using hknown
    · rw [byEventId_pageEvent] at hbuilt
      exact .inr hbuilt

/-- The rows an older page adds are built from its events and have no row yet. -/
theorem newItem_pageEvents {t : Timeline} {item : TimelineItem} {events : List RawEvent}
    (hitem : item ∈ (events.foldl pageEvent (t, [])).2) :
    ∃ event, item = buildItem event ∧
      (events.foldl pageEvent (t, [])).1.byEventId[event.eventId]? = none := by
  rw [byEventId_foldl_pageEvent]
  exact (mem_foldl_pageEvent hitem).resolve_left (by simp)

/-! ### Positions -/

/-- Both indexes only hold positions of rows. -/
structure Placed (t : Timeline) : Prop where
  byEventId : RowIndex.InRange t.byEventId t.items
  byTxnId : RowIndex.InRange t.byTxnId t.items

variable {t : Timeline}

theorem Placed.of_length {t' : Timeline} (h : Placed t) (hlength : t'.items.length = t.items.length)
    (hevent : t'.byEventId = t.byEventId) (htxn : t'.byTxnId = t.byTxnId) : Placed t' := by
  refine ⟨?_, ?_⟩
  · rw [hevent]
    exact h.byEventId.mono hlength.ge
  · rw [htxn]
    exact h.byTxnId.mono hlength.ge

theorem Placed.counts {t' : Timeline} (h : Placed t) (hcounts : CountsOnly t t') : Placed t' :=
  h.of_length hcounts.length_items hcounts.byEventId hcounts.byTxnId

theorem Placed.modifyRow (h : Placed t) (idx : Nat) (f : TimelineItem → TimelineItem) :
    Placed (t.modifyRow idx f) :=
  h.of_length (by simp [Timeline.modifyRow]) rfl rfl

theorem placed_reindex (t : Timeline) : Placed t.reindex :=
  ⟨RowIndex.inRange_build _, RowIndex.inRange_build _⟩

section

variable (h : Placed t)

include h

theorem Placed.resolvePendingFor (eventId : EventId) (idx : Nat) :
    Placed (t.resolvePendingFor eventId idx) := by
  refine Placed.counts (t := t.resolvePendingRedaction eventId idx) ?_
    (countsOnly_resolvePendingRelations _ eventId idx)
  unfold resolvePendingRedaction
  split
  · exact (h.modifyRow idx redactItem).of_length rfl rfl rfl
  · exact h

theorem Placed.applyOrQueueRedaction (redactionEventId target : EventId) :
    Placed (t.applyOrQueueRedaction redactionEventId target) := by
  unfold Timeline.applyOrQueueRedaction
  cases t.byEventId[target]? with
  | some idx => exact h.modifyRow idx redactItem
  | none =>
    cases t.relationContributions[target]? with
    | some bundleTarget => exact h.counts (countsOnly_retractContribution t target bundleTarget)
    | none =>
      dsimp only
      unfold queuePendingRedaction
      split
      · exact h
      · exact h.of_length rfl rfl rfl

theorem Placed.insertNewItem (item : TimelineItem) : Placed (t.insertNewItem item) := by
  have hlast : t.items.length < (t.items ++ [item]).length := by simp
  have hadded : Placed { t with
      byEventId := RowIndex.add TimelineItem.eventId t.byEventId item t.items.length
      byTxnId := RowIndex.add TimelineItem.txnId t.byTxnId item t.items.length
      items := t.items ++ [item] } :=
    ⟨(h.byEventId.mono hlast.le).add hlast item, (h.byTxnId.mono hlast.le).add hlast item⟩
  unfold Timeline.insertNewItem
  cases item.eventId with
  | none => exact hadded
  | some eventId => exact hadded.resolvePendingFor eventId _

theorem Placed.reconcileLocalEcho {idx : Nat} (hidx : idx < t.items.length) (item : TimelineItem) :
    Placed (t.reconcileLocalEcho idx item) := by
  have hlength : t.items.length ≤ (t.items.set idx item).length := by simp
  have hset : Placed { t with
      byEventId := RowIndex.add TimelineItem.eventId t.byEventId item idx
      items := t.items.set idx item } :=
    ⟨(h.byEventId.mono hlength).add (hidx.trans_le hlength) item, h.byTxnId.mono hlength⟩
  unfold Timeline.reconcileLocalEcho
  cases item.eventId with
  | none => exact hset
  | some eventId => exact hset.resolvePendingFor eventId idx

theorem Placed.placeItem (item : TimelineItem) : Placed (t.placeItem item) := by
  unfold Timeline.placeItem
  cases htxn : item.txnId.bind (t.byTxnId[·]?) with
  | some idx =>
    obtain ⟨txnId, -, hidx⟩ := Option.bind_eq_some_iff.1 htxn
    exact h.reconcileLocalEcho (h.byTxnId txnId idx hidx) item
  | none =>
    cases item.eventId.bind (t.byEventId[·]?) with
    | some idx => exact h.of_length (by simp) rfl rfl
    | none => exact h.insertNewItem item

theorem Placed.applyOneEvent (event : RawEvent) : Placed (t.applyOneEvent event) := by
  unfold Timeline.applyOneEvent
  split
  · split
    · exact h.applyOrQueueRedaction _ _
    · exact h
  · split
    · exact h.counts (countsOnly_foldOrQueueRelation _ _)
    · exact h.placeItem _

theorem Placed.resolveAt (idx : Nat) : Placed (t.resolveAt idx) := by
  unfold Timeline.resolveAt
  split
  · exact h.resolvePendingFor _ idx
  · exact h

theorem Placed.foldl_resolveAt (positions : List Nat) :
    Placed (positions.foldl Timeline.resolveAt t) := by
  induction positions generalizing t with
  | nil => exact h
  | cons idx rest ih => exact ih (h.resolveAt idx)

end

/-- An older page indexes its rows anew. -/
theorem placed_prependBackPage (t : Timeline) (events : List RawEvent) (endToken : Option String) :
    Placed (t.prependBackPage events endToken) :=
  (placed_reindex _).foldl_resolveAt _

theorem Placed.setDecryptedEvent (h : Placed t) (eventId : EventId) (eventType : String)
    (content : Json) : Placed (t.setDecryptedEvent eventId eventType content) := by
  unfold Timeline.setDecryptedEvent
  split
  · exact h.modifyRow _ _
  · exact h

theorem Placed.applyDecryptedRelation (h : Placed t) (relating : RelatingEvent) :
    Placed ((t.applyDecryptedRelation relating).getD t) := by
  unfold Timeline.applyDecryptedRelation
  cases relating.relation.target? with
  | none => exact h
  | some target =>
    cases t.byEventId[relating.eventId]? with
    | none => exact h
    | some idx =>
      exact (placed_reindex _).counts (countsOnly_foldOrQueueRelation _ relating)

theorem Placed.apply (h : Placed t) (call : TimelineCall) : Placed (call.apply t) := by
  cases call with
  | gap prevBatch => exact h.of_length rfl rfl rfl
  | event received => exact h.applyOneEvent received
  | backPage events endToken => exact placed_prependBackPage t events endToken
  | echo txnId sender originServerTs eventType content wireContent =>
    unfold TimelineCall.apply pushLocalEcho
    exact h.insertNewItem _
  | sendState txnId state =>
    unfold TimelineCall.apply markSendState
    dsimp only
    split
    · exact h.modifyRow _ _
    · exact h
  | confirm txnId eventId =>
    unfold TimelineCall.apply setEchoEventId
    dsimp only
    cases hidx : t.byTxnId[txnId]? with
    | none => exact h
    | some idx =>
      have hmodified := h.modifyRow idx fun row =>
        { row with eventId := some eventId, sendState := .sent }
      refine ⟨fun k j hj => ?_, hmodified.byTxnId⟩
      dsimp only at hj ⊢
      rw [Std.ExtTreeMap.getElem?_insert] at hj
      split at hj
      · rw [← Option.some.inj hj]
        exact hmodified.byTxnId txnId idx hidx
      · exact hmodified.byEventId k j hj
  | undecryptable eventId reason =>
    unfold TimelineCall.apply setDecrypted
    dsimp only
    split
    · exact h.modifyRow _ _
    · exact h
  | plaintext eventId sender originServerTs recovered =>
    unfold TimelineCall.apply applyDecryptedPlaintext
    dsimp only
    split
    · exact h.applyDecryptedRelation _
    · exact h.setDecryptedEvent _ _ _

end Timeline

/-- What a timeline is given. The keys to decrypt with differ from time to time. -/
inductive Ingest where
  | window (decrypt : RawEvent → MegolmEncryptedContent → Except String RoomEventPlaintext)
      (events : List RawEvent) (limited : Bool) (prevBatch : Option String)
  | page (decrypt : RawEvent → MegolmEncryptedContent → Except String RoomEventPlaintext)
      (chunk : List RawEvent) (endToken : Option String)
  | redaction (target : EventId)
  | call (call : TimelineCall)

def Ingest.apply (t : Timeline) : Ingest → Timeline
  | .window decrypt events limited prevBatch => ingestTimeline decrypt t events limited prevBatch
  | .page decrypt chunk endToken => ingestRoomMessagesResponse decrypt t chunk endToken
  | .redaction target => t.applyRedaction target
  | .call c => c.apply t

/-- Whatever a timeline was given, its indexes only hold positions of rows: a lookup by event id
never goes past the last row. -/
theorem Timeline.placed_ingests (steps : List Ingest) :
    Placed (Trace.run Ingest.apply {} steps) := by
  have hcalls {t : Timeline} (h : Placed t) (calls : List TimelineCall) :
      Placed (Trace.run TimelineCall.apply t calls) :=
    Trace.run_invariant Placed (fun _ call h => h.apply call) h calls
  refine Trace.run_invariant Placed (fun t step h => ?_) ⟨?_, ?_⟩ steps
  · cases step with
    | window decrypt events limited prevBatch =>
      rw [Ingest.apply, ingestTimeline_eq_run]
      exact hcalls h _
    | page decrypt chunk endToken =>
      rw [Ingest.apply, ingestRoomMessagesResponse_eq_run]
      exact hcalls h _
    | redaction target => exact h.applyOrQueueRedaction target target
    | call c => exact h.apply c
  · simp [RowIndex.InRange]
  · simp [RowIndex.InRange]

end Messenger
