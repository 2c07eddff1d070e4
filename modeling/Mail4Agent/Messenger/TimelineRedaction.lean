import Mail4Agent.Messenger.TimelineRun

/-!
# Redactions of rows

`Watched` is a timeline together with the events whose redaction reached it, by an
application or by the queue. A redacted event should show nothing from then on. The source
takes a redaction as one rewriting of one row, so every other way of writing rows has to
respect it, and several do not: a decryption writes the plaintext into a redacted row, a
redelivered event and a confirmed echo replace it by the wire content, and a confirmed echo
does not look at the queue. `Allows` names what a call must avoid, and `hides_of_meets` says
that nothing else can uncover a redacted event.
-/

namespace Messenger

open Timeline

/-- A row as a redaction leaves it. -/
structure RedactedForm (item : TimelineItem) : Prop where
  redacted : item.redacted = true
  content : item.content = contentAfterRedaction item.eventType item.stateKey item.rawContent
  forwarded : item.forwarded = none
  decrypted : item.decrypted = none

/-- A redacted row shows no text: at most whose membership changed to what. -/
theorem RedactedForm.shows {item : TimelineItem} (h : RedactedForm item) :
    item.content = .redacted ∨ item.content = .unknown ∨
      ∃ userId membership, item.content = .stateChange (.member userId membership none) := by
  rw [h.content, contentAfterRedaction]
  split
  · exact .inr (.inr ⟨_, _, rfl⟩)
  · split
    · exact .inr (.inl rfl)
    · exact .inl rfl

theorem redactedForm_redactItem (item : TimelineItem) : RedactedForm (redactItem item) :=
  ⟨rfl, rfl, rfl, rfl⟩

theorem redactedForm_buildItem {event : RawEvent} (h : event.unsigned.redactedBecause = true) :
    RedactedForm (buildItem event) := by
  constructor <;> simp [buildItem, h]

/-- What counts for the form stands on the face of the row. -/
theorem RedactedForm.of_face {item item' : TimelineItem} (h : RedactedForm item)
    (hface : item'.face = item.face) : RedactedForm item' := by
  have hfields : item'.redacted = item.redacted ∧ item'.content = item.content ∧
      item'.eventType = item.eventType ∧ item'.stateKey = item.stateKey ∧
      item'.rawContent = item.rawContent ∧ item'.forwarded = item.forwarded ∧
      item'.decrypted = item.decrypted := by
    simp only [TimelineItem.face, TimelineItem.mk.injEq] at hface
    tauto
  obtain ⟨hr, hc, ht, hs, hw, hf, hd⟩ := hfields
  exact ⟨hr.trans h.redacted, by rw [hc, ht, hs, hw, h.content], hf.trans h.forwarded,
    hd.trans h.decrypted⟩

/-! ### The watched timeline -/

structure Watched where
  timeline : Timeline := {}
  redacted : List EventId := []

/-- The event a redaction event names. -/
def RawEvent.redacts? (event : RawEvent) : Option EventId :=
  if event.eventType = eventRoomRedaction then readRedacts event.content else none

/-- The events whose redaction a call applies or queues. -/
def TimelineCall.redacts (t : Timeline) : TimelineCall → List EventId
  | .event received => received.redacts?.toList
  | .backPage events _ =>
    (events.filter fun event => !t.byEventId.contains event.eventId).filterMap RawEvent.redacts?
  | _ => []

def Watched.step (w : Watched) (call : TimelineCall) : Watched :=
  { timeline := call.apply w.timeline, redacted := w.redacted ++ call.redacts w.timeline }

/-- A redacted event shows only its redacted form and is refused as a forward source. -/
def Watched.Hides (w : Watched) : Prop :=
  ∀ id ∈ w.redacted, (∀ row ∈ w.timeline.items, row.eventId = some id → RedactedForm row) ∧
    ∃ refusal, w.timeline.forwardSource id = .error refusal

/-- An event that becomes a row when a sync window brings it. -/
def RawEvent.isRow (event : RawEvent) : Bool :=
  event.eventType ≠ eventRoomRedaction ∧
    (event.eventType = eventRoomEncrypted ∨ event.contribution?.isNone)

theorem isRow_of_placed {event : RawEvent} (hredaction : event.eventType ≠ eventRoomRedaction)
    (hrel : (if event.eventType ≠ eventRoomEncrypted then event.contribution? else none) = none) :
    event.isRow := by
  simp only [RawEvent.isRow, decide_eq_true_eq]
  refine ⟨hredaction, ?_⟩
  by_cases hencrypted : event.eventType = eventRoomEncrypted
  · exact .inl hencrypted
  · rw [if_pos hencrypted] at hrel
    exact .inr (by simp [hrel])

/-- The row at `idx` may carry `id`: it does already, or it has no id and no row has this one. -/
def Timeline.MayCarry (t : Timeline) (idx : Nat) (id : EventId) : Prop :=
  ∀ row ∈ t.items[idx]?, row.eventId = some id ∨ row.eventId = none ∧ t.byEventId[id]? = none

/-- What a call must not do: give one id to two rows or take an id from a row, bring a
redacted event in full when its redaction no longer waits, or write a decryption result into
its row. -/
def Watched.Allows (w : Watched) : TimelineCall → Prop
  | .event received => received.isRow →
      (∀ idx ∈ (received.unsigned.transactionId.bind fun txn => w.timeline.byTxnId[TxnId.mk txn]?),
        w.timeline.MayCarry idx received.eventId) ∧
      (received.eventId ∈ w.redacted →
        received.unsigned.redactedBecause ∨ w.timeline.pendingRedactions.contains received.eventId)
  | .backPage events endToken =>
      let page := events.foldl pageEvent (w.timeline, [])
      (page.2.filterMap TimelineItem.eventId).Nodup ∧
        ∀ row ∈ page.2, ∀ id ∈ row.eventId,
          id ∈ w.redacted ++ (TimelineCall.backPage events endToken).redacts w.timeline →
            row.redacted ∨ page.1.pendingRedactions.contains id
  | .confirm txnId eventId => ∀ idx ∈ w.timeline.byTxnId[txnId]?, ∀ row ∈ w.timeline.items[idx]?,
      row.eventId = some eventId ∨
        row.eventId = none ∧ w.timeline.byEventId[eventId]? = none ∧ eventId ∉ w.redacted
  | .undecryptable eventId _ => eventId ∈ w.redacted → w.timeline.byEventId[eventId]? = none
  | .plaintext eventId sender originServerTs recovered =>
      recovered.contribution? eventId sender originServerTs = none →
        eventId ∈ w.redacted → w.timeline.byEventId[eventId]? = none
  | _ => True

instance (t : Timeline) (idx : Nat) (id : EventId) : Decidable (t.MayCarry idx id) := by
  unfold Timeline.MayCarry
  infer_instance

instance (w : Watched) : DecidablePred w.Allows
  | .event _ | .backPage .. | .confirm .. | .undecryptable .. | .plaintext .. => by
    unfold Watched.Allows
    dsimp only
    infer_instance
  | .gap _ | .echo .. | .sendState .. => isTrue trivial

variable {t : Timeline} {id : EventId} {row : TimelineItem} {w : Watched}

/-- Rows with ids of their own can be put before the others. -/
theorem nodup_prepend {newItems : List TimelineItem}
    (h : RowIndex.Indexes TimelineItem.eventId t.byEventId t.items)
    (hnodup : (newItems.filterMap TimelineItem.eventId).Nodup)
    (hnew : ∀ item ∈ newItems, ∀ id, item.eventId = some id → t.byEventId[id]? = none) :
    ((newItems ++ t.items).filterMap TimelineItem.eventId).Nodup := by
  rw [List.filterMap_append, List.nodup_append]
  refine ⟨hnodup, h.nodup, ?_⟩
  rintro id hid id' hid' rfl
  obtain ⟨item, hitem, hkey⟩ := List.mem_filterMap.1 hid
  obtain ⟨row, hrow, hrkey⟩ := List.mem_filterMap.1 hid'
  exact h.getElem?_eq_none_iff.1 (hnew item hitem id hkey) row hrow hrkey

/-- A row that takes an id it may carry stays indexed. -/
theorem indexes_reconcile {idx : Nat} {item : TimelineItem}
    (h : RowIndex.Indexes TimelineItem.eventId t.byEventId t.items)
    (hrow : t.items[idx]? = some row) (hid : item.eventId = some id) (hcarry : t.MayCarry idx id) :
    RowIndex.Indexes TimelineItem.eventId
      (RowIndex.add TimelineItem.eventId t.byEventId item idx) (t.items.set idx item) := by
  have hadd : RowIndex.add TimelineItem.eventId t.byEventId item idx =
      t.byEventId.insert id idx := by simp [RowIndex.add, hid]
  rw [hadd]
  rcases hcarry row hrow with hsame | ⟨hnone, hfree⟩
  · exact h.set hrow hid (.inr hsame) (.inr (h.getElem?_of_row hrow hsame))
  · exact h.set hrow hid (.inl hnone) (.inl hfree)

/-! ### Consistency -/

/-- The rows are indexed by their ids, a row of a redacted event is in its redacted form, and
a waiting redaction has no row. While a call is at work, the positions in `pending` may still
have a redaction waiting for them. -/
structure Consistent (redacted : List EventId) (pending : Nat → Prop) (t : Timeline) : Prop where
  indexed : RowIndex.Indexes TimelineItem.eventId t.byEventId t.items
  hidden : ∀ (i : Nat) (row : TimelineItem) (id : EventId), t.items[i]? = some row →
    row.eventId = some id → id ∈ redacted →
      RedactedForm row ∨ (pending i ∧ t.pendingRedactions.contains id)
  waiting : ∀ id, t.pendingRedactions.contains id →
    id ∈ redacted ∧ ∀ i, t.byEventId[id]? = some i → pending i

namespace Consistent

variable {redacted : List EventId} {pending : Nat → Prop} {t t' : Timeline} {idx : Nat}
variable {id target : EventId}

/-- No position has anything left to do. -/
abbrev settled : Nat → Prop := fun _ => False

theorem mono {pending' : Nat → Prop} (h : Consistent redacted pending t)
    (himp : ∀ i, pending i → pending' i) : Consistent redacted pending' t where
  indexed := h.indexed
  hidden i row id hrow hid hmem := (h.hidden i row id hrow hid hmem).imp_right
    fun hwait => ⟨himp i hwait.1, hwait.2⟩
  waiting id hwait := ⟨(h.waiting id hwait).1, fun i hi => himp i ((h.waiting id hwait).2 i hi)⟩

/-- With nothing left to do, a row of a redacted event has its form. -/
theorem form (h : Consistent redacted settled t) {i : Nat} {row : TimelineItem}
    (hrow : t.items[i]? = some row) (hid : row.eventId = some id) (hmem : id ∈ redacted) :
    RedactedForm row :=
  (h.hidden i row id hrow hid hmem).resolve_right fun hwait => hwait.1

theorem counts (h : Consistent redacted pending t) (hcounts : CountsOnly t t') :
    Consistent redacted pending t' where
  indexed := by
    rw [hcounts.byEventId]
    exact h.indexed.congr hcounts.eventIds
  hidden i row id hrow hid hmem := by
    obtain ⟨old, hold, hface⟩ := hcounts.exists_old hrow
    rw [hcounts.pendingRedactions]
    have hoid : old.eventId = some id := (congrArg TimelineItem.eventId hface).symm.trans hid
    exact (h.hidden i old id hold hoid hmem).imp_left fun hform => hform.of_face hface
  waiting id hwait := by
    rw [hcounts.pendingRedactions] at hwait
    rw [hcounts.byEventId]
    exact h.waiting id hwait

variable {f : TimelineItem → TimelineItem}

/-- A rewriting of a row that keeps its id, and its form if its event is redacted. -/
theorem modifyRow (h : Consistent redacted pending t) (hid : ∀ row, (f row).eventId = row.eventId)
    (hform : ∀ row id, t.items[idx]? = some row → row.eventId = some id → id ∈ redacted →
      RedactedForm row → RedactedForm (f row)) :
    Consistent redacted pending (t.modifyRow idx f) where
  indexed := h.indexed.congr (RowIndex.map_modify hid idx t.items)
  hidden i row id hrow hrid hmem := by
    simp only [Timeline.modifyRow, List.getElem?_modify, Option.map_eq_map,
      Option.map_eq_some_iff] at hrow
    obtain ⟨old, hold, rfl⟩ := hrow
    by_cases hi : idx = i
    · subst hi
      rw [if_pos rfl] at hrid ⊢
      rw [hid] at hrid
      exact (h.hidden idx old id hold hrid hmem).imp_left (hform old id hold hrid hmem)
    · rw [if_neg hi] at hrid ⊢
      exact h.hidden i old id hold hrid hmem
  waiting := h.waiting

/-- Redacting a row only adds to what is hidden. -/
theorem redactRow (h : Consistent redacted pending t) (idx : Nat) :
    Consistent redacted pending (t.modifyRow idx redactItem) :=
  h.modifyRow (fun _ => rfl) fun row _ _ _ _ _ => redactedForm_redactItem row

theorem redactedForm_redactRow {row : TimelineItem}
    (hrow : (t.modifyRow idx redactItem).items[idx]? = some row) : RedactedForm row := by
  simp only [Timeline.modifyRow, List.getElem?_modify, if_true, Option.map_eq_map,
    Option.map_eq_some_iff] at hrow
  obtain ⟨old, -, rfl⟩ := hrow
  exact redactedForm_redactItem old

/-- What waited for the row at `idx` is done. -/
theorem resolvePendingFor (h : Consistent redacted pending t)
    (hidx : t.byEventId[id]? = some idx) :
    Consistent redacted (fun i => pending i ∧ i ≠ idx) (t.resolvePendingFor id idx) := by
  refine counts ?_ (countsOnly_resolvePendingRelations _ id idx)
  unfold resolvePendingRedaction
  split
  · have hred := h.redactRow idx
    refine ⟨hred.indexed, ?_, ?_⟩
    · intro i row id' hrow hid' hmem
      by_cases hi : i = idx
      · subst hi
        exact .inl (redactedForm_redactRow hrow)
      · refine (hred.hidden i row id' hrow hid' hmem).imp_right fun hwait => ⟨⟨hwait.1, hi⟩, ?_⟩
        -- only the row at `idx` has the id whose redaction was taken from the queue
        have hne : id ≠ id' := by
          rintro rfl
          have hthere := hred.indexed.getElem?_of_row hrow hid'
          exact hi (Option.some.inj (hthere.symm.trans hidx))
        have hstill : t.pendingRedactions.contains id' = true := hwait.2
        rw [Std.ExtTreeMap.contains_erase, hstill]
        simpa using hne
    · intro id' hwait
      rw [Std.ExtTreeMap.contains_erase, Bool.and_eq_true] at hwait
      obtain ⟨hne, hwait⟩ := hwait
      obtain ⟨hmem, hpending⟩ := h.waiting id' hwait
      refine ⟨hmem, fun i hi => ⟨hpending i hi, ?_⟩⟩
      rintro rfl
      simp [h.indexed.key_eq hidx hi] at hne
  · rename_i hnot
    refine ⟨h.indexed, ?_, ?_⟩
    · intro i row id' hrow hid' hmem
      refine (h.hidden i row id' hrow hid' hmem).imp_right fun hwait => ⟨⟨hwait.1, ?_⟩, hwait.2⟩
      rintro rfl
      exact hnot (h.indexed.key_eq hidx (h.indexed.getElem?_of_row hrow hid') ▸ hwait.2)
    · intro id' hwait
      obtain ⟨hmem, hpending⟩ := h.waiting id' hwait
      refine ⟨hmem, fun i hi => ⟨hpending i hi, ?_⟩⟩
      rintro rfl
      exact hnot (h.indexed.key_eq hidx hi ▸ hwait)

/-! #### Redactions -/

theorem contains_queuePendingRedaction {redactionEventId : EventId}
    (h : (t.queuePendingRedaction target redactionEventId).pendingRedactions.contains id) :
    id = target ∨ t.pendingRedactions.contains id := by
  unfold queuePendingRedaction at h
  split at h
  · exact .inr h
  · -- an eviction only takes entries away
    refine evictOldest_invariant (fun kept : BTreeMap EventId EventId =>
      kept.contains id → id = target ∨ t.pendingRedactions.contains id)
      (fun kept oldest hkept hid => ?_) _ ?_ h
    · rw [Std.ExtTreeMap.contains_erase, Bool.and_eq_true] at hid
      exact hkept hid.2
    · rw [Std.ExtTreeMap.contains_insert, Bool.or_eq_true]
      exact Or.imp_left fun heq => (Std.LawfulEqOrd.eq_of_compare (by simpa using heq)).symm

/-- A target is hidden whose rows are redacted. -/
theorem hide (h : Consistent redacted settled t)
    (htarget : ∀ i, t.byEventId[target]? = some i → ∀ row, t.items[i]? = some row →
      RedactedForm row) : Consistent (redacted ++ [target]) settled t := by
  refine ⟨h.indexed, fun i row id hrow hid hmem => .inl ?_, fun id hwait =>
    ⟨List.mem_append_left _ (h.waiting id hwait).1, (h.waiting id hwait).2⟩⟩
  rcases List.mem_append.1 hmem with hmem | hmem
  · exact h.form hrow hid hmem
  · obtain rfl := List.mem_singleton.1 hmem
    exact htarget i (h.indexed.getElem?_of_row hrow hid) row hrow

/-- A redaction that is applied or queued hides its target. -/
theorem applyOrQueueRedaction (h : Consistent redacted settled t) (redactionEventId : EventId) :
    Consistent (redacted ++ [target]) settled
    (t.applyOrQueueRedaction redactionEventId target) := by
  unfold Timeline.applyOrQueueRedaction
  cases hidx : t.byEventId[target]? with
  | some idx =>
    refine (h.redactRow idx).hide fun i hi row hrow => ?_
    cases hidx.symm.trans hi
    exact redactedForm_redactRow hrow
  | none =>
    have hnone : Consistent (redacted ++ [target]) settled t := h.hide (by simp [hidx])
    dsimp only
    cases t.relationContributions[target]? with
    | some bundleTarget =>
      exact hnone.counts (countsOnly_retractContribution t target bundleTarget)
    | none =>
      obtain ⟨hitems, hindex⟩ := queuePendingRedaction_frame t target redactionEventId
      refine ⟨?_, fun i row id hrow hid hmem => ?_, fun id hwait => ?_⟩
      · rw [hitems, hindex]
        exact h.indexed
      · rw [hitems] at hrow
        exact .inl (hnone.form hrow hid hmem)
      · rw [hindex]
        rcases contains_queuePendingRedaction hwait with rfl | hwait
        · exact ⟨by simp, fun i hi => by rw [hidx] at hi; cases hi⟩
        · exact hnone.waiting id hwait

/-! #### Rows -/

/-- A row of a redacted event may come in full only while its redaction waits. -/
def Arrives (redacted : List EventId) (t : Timeline) (item : TimelineItem) : Prop :=
  ∀ id, item.eventId = some id → id ∈ redacted →
    RedactedForm item ∨ t.pendingRedactions.contains id

section

variable (h : Consistent redacted settled t)

include h

theorem insertNewItem {item : TimelineItem}
    (hnew : ∀ id, item.eventId = some id → t.byEventId[id]? = none)
    (harrives : Arrives redacted t item) : Consistent redacted settled (t.insertNewItem item) := by
  have hadded : Consistent redacted (fun i => i = t.items.length ∧ item.eventId.isSome) { t with
      byEventId := RowIndex.add TimelineItem.eventId t.byEventId item t.items.length
      byTxnId := RowIndex.add TimelineItem.txnId t.byTxnId item t.items.length
      items := t.items ++ [item] } := by
    refine ⟨h.indexed.push hnew, fun i row id hrow hid hmem => ?_, fun id hwait => ?_⟩
    · rcases RowIndex.getElem?_snoc hrow with hold | ⟨hi, rfl⟩
      · exact .inl (h.form hold hid hmem)
      · exact (harrives id hid hmem).imp_right fun hwait => ⟨⟨hi, by simp [hid]⟩, hwait⟩
    · refine ⟨(h.waiting id hwait).1, fun i hi => ?_⟩
      rw [RowIndex.getElem?_add] at hi
      split at hi
      · rename_i hid
        exact ⟨(Option.some.inj hi).symm, by simp [hid]⟩
      · exact ((h.waiting id hwait).2 i hi).elim
  unfold Timeline.insertNewItem
  cases hid : item.eventId with
  | none => exact hadded.mono fun i hi => by simp [hid] at hi
  | some id =>
    refine Consistent.mono (hadded.resolvePendingFor ?_) fun i hi => hi.2 hi.1.1
    simp [RowIndex.getElem?_add, hid]

theorem reconcileLocalEcho {item row : TimelineItem} (hrow : t.items[idx]? = some row)
    (hid : item.eventId = some id) (hcarry : t.MayCarry idx id)
    (harrives : Arrives redacted t item) :
    Consistent redacted settled (t.reconcileLocalEcho idx item) := by
  have hset : Consistent redacted (· = idx) { t with
      byEventId := RowIndex.add TimelineItem.eventId t.byEventId item idx
      items := t.items.set idx item } := by
    refine ⟨indexes_reconcile h.indexed hrow hid hcarry, fun i row' id' hrow' hid' hmem => ?_,
      fun id' hwait => ?_⟩
    · rcases RowIndex.getElem?_set_cases hrow' with ⟨hi, rfl⟩ | hold
      · exact (harrives id' hid' hmem).imp_right fun hwait => ⟨hi, hwait⟩
      · exact .inl (h.form hold hid' hmem)
    · refine ⟨(h.waiting id' hwait).1, fun i hi => ?_⟩
      rw [RowIndex.getElem?_add] at hi
      split at hi
      · exact (Option.some.inj hi).symm
      · exact ((h.waiting id' hwait).2 i hi).elim
  unfold Timeline.reconcileLocalEcho
  rw [hid]
  refine Consistent.mono (hset.resolvePendingFor ?_) fun i hi => hi.2 hi.1
  simp [RowIndex.getElem?_add, hid]

/-- A redelivered row takes the place of the row with its id. -/
theorem replaceItem {item : TimelineItem} (hid : item.eventId = some id)
    (hidx : t.byEventId[id]? = some idx) (hform : id ∈ redacted → RedactedForm item) :
    Consistent redacted settled { t with items := t.items.set idx item } := by
  obtain ⟨row, hrow, hrid⟩ := Option.bind_eq_some_iff.1 ((h.indexed id idx).1 hidx)
  refine ⟨h.indexed.congr (RowIndex.map_set hrow (hid.trans hrid.symm)),
    fun i row' id' hrow' hid' hmem => .inl ?_, h.waiting⟩
  rcases RowIndex.getElem?_set_cases hrow' with ⟨-, rfl⟩ | hold
  · cases hid.symm.trans hid'
    exact hform hmem
  · exact h.form hold hid' hmem

theorem placeItem (hplaced : Placed t) {event : RawEvent}
    (hcarry : ∀ idx ∈ (event.unsigned.transactionId.bind fun txn => t.byTxnId[TxnId.mk txn]?),
      t.MayCarry idx event.eventId) (harrives : event.eventId ∈ redacted →
      event.unsigned.redactedBecause ∨ t.pendingRedactions.contains event.eventId) :
    Consistent redacted settled (t.placeItem (buildItem event)) := by
  have hid : (buildItem event).eventId = some event.eventId := rfl
  have hcomes : Arrives redacted t (buildItem event) := by
    intro id hid' hmem
    cases hid.symm.trans hid'
    exact (harrives hmem).imp_left redactedForm_buildItem
  have htxn : (buildItem event).txnId.bind (t.byTxnId[·]?) =
      event.unsigned.transactionId.bind fun txn => t.byTxnId[TxnId.mk txn]? :=
    Option.bind_map
  unfold Timeline.placeItem
  rw [htxn]
  cases hidx : event.unsigned.transactionId.bind fun txn => t.byTxnId[TxnId.mk txn]? with
  | some idx =>
    obtain ⟨txn, -, hat⟩ := Option.bind_eq_some_iff.1 hidx
    have hrow := List.getElem?_eq_getElem (hplaced.byTxnId _ idx hat)
    exact h.reconcileLocalEcho hrow hid (hcarry idx hidx) hcomes
  | none =>
    dsimp only
    rw [hid, Option.bind_some]
    cases hold : t.byEventId[event.eventId]? with
    | some idx =>
      refine h.replaceItem hid hold fun hmem => ?_
      -- a redaction that waits has no row, so the event came redacted
      refine redactedForm_buildItem ((harrives hmem).resolve_right fun hwait => ?_)
      exact (h.waiting _ hwait).2 idx hold
    | none =>
      refine h.insertNewItem (fun id hid' => ?_) hcomes
      cases hid.symm.trans hid'
      exact hold

end

/-! #### Older pages -/

theorem resolveAt (h : Consistent redacted pending t) (idx : Nat) :
    Consistent redacted (fun i => pending i ∧ i ≠ idx) (t.resolveAt idx) := by
  unfold Timeline.resolveAt
  cases hid : t.items[idx]?.bind TimelineItem.eventId with
  | some id => exact h.resolvePendingFor ((h.indexed id idx).2 hid)
  | none =>
    refine ⟨h.indexed, fun i row id hrow hrid hmem => ?_, fun id hwait => ?_⟩
    · refine (h.hidden i row id hrow hrid hmem).imp_right fun hwait => ⟨⟨hwait.1, ?_⟩, hwait.2⟩
      rintro rfl
      rw [hrow, Option.bind_some, hrid] at hid
      cases hid
    · refine ⟨(h.waiting id hwait).1, fun i hi => ⟨(h.waiting id hwait).2 i hi, ?_⟩⟩
      rintro rfl
      rw [(h.indexed id i).1 hi] at hid
      cases hid

/-- The first `k` positions are done after `k` steps. -/
theorem foldl_resolveAt (h : Consistent redacted pending t) (k : Nat) :
    Consistent redacted (fun i => pending i ∧
      k ≤ i) ((List.range k).foldl Timeline.resolveAt t) := by
  induction k with
  | zero => exact h.mono fun i hi => ⟨hi, Nat.zero_le i⟩
  | succ k ih =>
    rw [List.range_succ, List.foldl_append]
    refine (ih.resolveAt k).mono fun i hi => ⟨hi.1.1, ?_⟩
    exact Nat.lt_of_le_of_ne hi.1.2 (Ne.symm hi.2)

theorem prependRows (h : Consistent redacted settled t) {newItems : List TimelineItem}
    (hnodup : (newItems.filterMap TimelineItem.eventId).Nodup)
    (hnew : ∀ item ∈ newItems, ∀ id, item.eventId = some id → t.byEventId[id]? = none)
    (harrives : ∀ item ∈ newItems, Arrives redacted t item) (endToken : Option String) :
    Consistent redacted settled (t.prependRows newItems endToken) := by
  have hindexed := RowIndex.indexes_build (nodup_prepend h.indexed hnodup hnew)
  have hstart : Consistent redacted (· < newItems.length)
      { t with items := newItems ++ t.items, olderToken := endToken }.reindex := by
    refine ⟨hindexed, fun i row id hrow hid hmem => ?_, fun id hwait => ?_⟩
    · by_cases hi : i < newItems.length
      · rw [Timeline.reindex, List.getElem?_append_left hi] at hrow
        exact (harrives row (List.mem_of_getElem? hrow) id hid hmem).imp_right fun hwait =>
          ⟨hi, hwait⟩
      · rw [Timeline.reindex, List.getElem?_append_right (Nat.le_of_not_lt hi)] at hrow
        exact .inl (h.form hrow hid hmem)
    · refine ⟨(h.waiting id hwait).1, fun i hi => ?_⟩
      by_contra hout
      have hrow := (hindexed id i).1 hi
      rw [List.getElem?_append_right (Nat.le_of_not_lt hout)] at hrow
      exact (h.waiting id hwait).2 _ ((h.indexed id _).2 hrow)
  exact (hstart.foldl_resolveAt newItems.length).mono fun i hi => absurd hi.1 (Nat.not_lt.2 hi.2)

/-- The redaction an event of an older page applies or queues. -/
def pageRedacts (t : Timeline) (event : RawEvent) : List EventId :=
  if t.byEventId.contains event.eventId then [] else event.redacts?.toList

section

variable (h : Consistent redacted settled t)

include h

theorem pageEvent (newItems : List TimelineItem) (event : RawEvent) :
    Consistent (redacted ++ pageRedacts t event) settled
      (Timeline.pageEvent (t, newItems) event).1 := by
  unfold Timeline.pageEvent pageRedacts RawEvent.redacts?
  by_cases hknown : t.byEventId.contains event.eventId
  · simpa [hknown] using h
  · by_cases hredaction : event.eventType = eventRoomRedaction
    · cases htarget : readRedacts event.content with
      | none => simpa [hknown, hredaction, htarget] using h
      | some target =>
        simpa [hknown, hredaction, htarget] using h.applyOrQueueRedaction event.eventId
    · cases hrel : event.contribution? with
      | none => simpa [hknown, hredaction, hrel] using h
      | some relating =>
        simpa [hknown, hredaction, hrel] using
          h.counts (countsOnly_foldOrQueueRelation t relating)

theorem foldl_pageEvent (newItems : List TimelineItem) (events : List RawEvent) :
    Consistent (redacted ++ events.flatMap (pageRedacts t)) settled
      (events.foldl Timeline.pageEvent (t, newItems)).1 := by
  induction events generalizing t redacted newItems with
  | nil => simpa using h
  | cons event rest ih =>
    have hsame : pageRedacts (Timeline.pageEvent (t, newItems) event).1 = pageRedacts t := by
      funext later
      simp [pageRedacts, byEventId_pageEvent]
    have hrest := ih (h.pageEvent newItems event) (Timeline.pageEvent (t, newItems) event).2
    rwa [hsame, List.append_assoc] at hrest

theorem prependBackPage {events : List RawEvent} {endToken : Option String} :
    let page := events.foldl Timeline.pageEvent (t, [])
    let all := redacted ++ events.flatMap (pageRedacts t)
    (page.2.filterMap TimelineItem.eventId).Nodup →
    (∀ row ∈ page.2, ∀ id ∈ row.eventId, id ∈ all →
      row.redacted ∨ page.1.pendingRedactions.contains id) →
    Consistent all settled (t.prependBackPage events endToken) := by
  intro page all hnodup harrives
  have hbuilt : ∀ item ∈ page.2, ∃ event, item = buildItem event ∧
      page.1.byEventId[event.eventId]? = none := fun item hitem => newItem_pageEvents hitem
  refine (h.foldl_pageEvent [] events).prependRows hnodup (fun item hitem id hid => ?_)
    (fun item hitem id hid hmem => ?_) _
  · obtain ⟨event, rfl, hnone⟩ := hbuilt item hitem
    cases hid
    exact hnone
  · obtain ⟨event, rfl, -⟩ := hbuilt item hitem
    exact (harrives _ hitem id hid hmem).imp_left fun hred => redactedForm_buildItem hred

end

/-! #### Decryptions and confirmed echoes -/

section

variable (h : Consistent redacted settled t)

include h

/-- A decryption result may be written into a row whose event is not redacted. -/
theorem modifyUnredacted (hidx : t.byEventId[id]? = some idx)
    (hallowed : id ∈ redacted → t.byEventId[id]? = none)
    (hid : ∀ row, (f row).eventId = row.eventId) :
    Consistent redacted settled (t.modifyRow idx f) := by
  refine h.modifyRow hid fun row id' hrow hrid hmem => ?_
  cases h.indexed.key_eq hidx (h.indexed.getElem?_of_row hrow hrid)
  cases hidx.symm.trans (hallowed hmem)

theorem setDecrypted (content : ItemContent) (hallowed : id ∈ redacted → t.byEventId[id]? = none) :
    Consistent redacted settled (t.setDecrypted id content) := by
  unfold Timeline.setDecrypted
  cases hidx : t.byEventId[id]? with
  | none => exact h
  | some idx => exact h.modifyUnredacted hidx hallowed fun _ => rfl

theorem setDecryptedEvent (eventType : String) (content : Json)
    (hallowed : id ∈ redacted → t.byEventId[id]? = none) :
    Consistent redacted settled (t.setDecryptedEvent id eventType content) := by
  unfold Timeline.setDecryptedEvent
  cases hidx : t.byEventId[id]? with
  | none => exact h
  | some idx => exact h.modifyUnredacted hidx hallowed fun _ => rfl

/-- Taking a row away keeps the others as they are. -/
theorem eraseIdx (idx : Nat) :
    Consistent redacted settled { t with items := t.items.eraseIdx idx }.reindex := by
  have hsub : (t.items.eraseIdx idx).Sublist t.items := List.eraseIdx_sublist _ _
  have hindexed := RowIndex.indexes_build (h.indexed.nodup.sublist (hsub.filterMap _))
  refine ⟨hindexed, fun i row id hrow hid hmem => .inl ?_, fun id hwait => ?_⟩
  · obtain ⟨j, hj⟩ := List.mem_iff_getElem?.1 (hsub.subset (List.mem_of_getElem? hrow))
    exact h.form hj hid hmem
  · refine ⟨(h.waiting id hwait).1, fun i hi => ?_⟩
    obtain ⟨row, hrow, hid⟩ := Option.bind_eq_some_iff.1 ((hindexed id i).1 hi)
    obtain ⟨j, hj⟩ := List.mem_iff_getElem?.1 (hsub.subset (List.mem_of_getElem? hrow))
    exact (h.waiting id hwait).2 j (h.indexed.getElem?_of_row hj hid)

theorem applyDecryptedRelation (relating : RelatingEvent) :
    Consistent redacted settled ((t.applyDecryptedRelation relating).getD t) := by
  unfold Timeline.applyDecryptedRelation
  cases relating.relation.target? with
  | none => exact h
  | some target =>
    cases t.byEventId[relating.eventId]? with
    | none => exact h
    | some idx => exact (h.eraseIdx idx).counts (countsOnly_foldOrQueueRelation _ relating)

theorem setEchoEventId (hplaced : Placed t) {txnId : TxnId}
    (hallowed : ∀ idx ∈ t.byTxnId[txnId]?, ∀ row ∈ t.items[idx]?, row.eventId = some id ∨
      row.eventId = none ∧ t.byEventId[id]? = none ∧ id ∉ redacted) :
    Consistent redacted settled (t.setEchoEventId txnId id) := by
  unfold Timeline.setEchoEventId
  cases hidx : t.byTxnId[txnId]? with
  | none => exact h
  | some idx =>
    obtain ⟨row, hrow⟩ : ∃ row, t.items[idx]? = some row :=
      ⟨_, List.getElem?_eq_getElem (hplaced.byTxnId txnId idx hidx)⟩
    have hkey : row.eventId = none ∨ row.eventId = some id :=
      (hallowed idx hidx row hrow).symm.imp_left fun hfresh => hfresh.1
    have hat : row.eventId = some id → t.byEventId[id]? = some idx :=
      h.indexed.getElem?_of_row hrow
    have hfree : t.byEventId[id]? = none ∨ t.byEventId[id]? = some idx :=
      (hallowed idx hidx row hrow).symm.imp (fun hfresh => hfresh.2.1) hat
    have hform : id ∈ redacted → RedactedForm row := fun hmem =>
      (hallowed idx hidx row hrow).elim
        (fun hsame => h.form hrow hsame hmem) fun hfresh => absurd hmem hfresh.2.2
    have hcalm : ¬ t.pendingRedactions.contains id := fun hwait =>
      (hallowed idx hidx row hrow).elim (fun hsame => (h.waiting id hwait).2 idx (hat hsame))
        fun hfresh => hfresh.2.2 (h.waiting id hwait).1
    dsimp only [Timeline.modifyRow]
    rw [RowIndex.modify_eq_set hrow]
    refine ⟨h.indexed.set hrow rfl hkey hfree, fun i row' id' hrow' hid' hmem => .inl ?_,
      fun id' hwait => ⟨(h.waiting id' hwait).1, fun i hi => ?_⟩⟩
    · rcases RowIndex.getElem?_set_cases hrow' with ⟨-, rfl⟩ | hold
      · cases hid'
        obtain ⟨hred, hcontent, hforwarded, hdecrypted⟩ := hform hmem
        exact ⟨hred, hcontent, hforwarded, hdecrypted⟩
      · exact h.form hold hid' hmem
    · rw [getElem?_insert_ite] at hi
      split_ifs at hi with heq
      · exact hcalm (heq ▸ hwait)
      · exact (h.waiting id' hwait).2 i hi

theorem applyOneEvent (hplaced : Placed t) {event : RawEvent} (hallowed : event.isRow →
      (∀ idx ∈ (event.unsigned.transactionId.bind fun txn => t.byTxnId[TxnId.mk txn]?),
        t.MayCarry idx event.eventId) ∧
      (event.eventId ∈ redacted →
        event.unsigned.redactedBecause ∨ t.pendingRedactions.contains event.eventId)) :
    Consistent (redacted ++ event.redacts?.toList) settled (t.applyOneEvent event) := by
  unfold Timeline.applyOneEvent RawEvent.redacts?
  by_cases hredaction : event.eventType = eventRoomRedaction
  · rw [if_pos hredaction, if_pos hredaction]
    cases readRedacts event.content with
    | none => simpa using h
    | some target => exact h.applyOrQueueRedaction event.eventId
  · rw [if_neg hredaction, if_neg hredaction]
    simp only [Option.toList_none, List.append_nil]
    cases hrel : (if event.eventType ≠ eventRoomEncrypted then event.contribution? else none) with
    | some relating => exact h.counts (countsOnly_foldOrQueueRelation t relating)
    | none =>
      have hrow := isRow_of_placed hredaction hrel
      exact h.placeItem hplaced (hallowed hrow).1 (hallowed hrow).2

end

end Consistent

/-! ### Runs -/

/-- What holds of a watched timeline between two calls. -/
def Watched.Sound (w : Watched) : Prop :=
  Placed w.timeline ∧ Consistent w.redacted Consistent.settled w.timeline

theorem Watched.redacts_backPage (t : Timeline) (events : List RawEvent)
    (endToken : Option String) :
    (TimelineCall.backPage events endToken).redacts t =
      events.flatMap (Consistent.pageRedacts t) := by
  unfold TimelineCall.redacts
  induction events with
  | nil => rfl
  | cons event rest ih =>
    dsimp only at ih ⊢
    rw [List.flatMap_cons, ← ih, Consistent.pageRedacts]
    cases hknown : t.byEventId.contains event.eventId <;>
      cases hred : event.redacts? <;> simp [hknown, hred]

/-- An allowed call keeps a watched timeline sound. -/
theorem Watched.Sound.step {call : TimelineCall} (hallowed : w.Allows call) (h : w.Sound) :
    (w.step call).Sound := by
  refine ⟨h.1.apply call, ?_⟩
  cases call with
  | gap prevBatch =>
    simp only [Watched.step, TimelineCall.redacts, List.append_nil]
    exact ⟨h.2.indexed, h.2.hidden, h.2.waiting⟩
  | event received => exact h.2.applyOneEvent h.1 hallowed
  | backPage events endToken =>
    simp only [Watched.Allows, redacts_backPage] at hallowed
    simp only [Watched.step, redacts_backPage]
    exact h.2.prependBackPage hallowed.1 hallowed.2
  | echo txnId sender originServerTs eventType content wireContent =>
    simp only [Watched.step, TimelineCall.redacts, List.append_nil, TimelineCall.apply,
      Timeline.pushLocalEcho]
    refine h.2.insertNewItem (fun id hid => ?_) fun id hid => ?_ <;> cases hid
  | sendState txnId state =>
    simp only [Watched.step, TimelineCall.redacts, List.append_nil, TimelineCall.apply,
      Timeline.markSendState]
    split
    · refine h.2.modifyRow (fun _ => rfl) fun row _ _ _ _ hform => ?_
      exact ⟨hform.redacted, hform.content, hform.forwarded, hform.decrypted⟩
    · exact h.2
  | confirm txnId eventId =>
    simp only [Watched.step, TimelineCall.redacts, List.append_nil]
    exact h.2.setEchoEventId h.1 hallowed
  | undecryptable eventId reason =>
    simp only [Watched.step, TimelineCall.redacts, List.append_nil]
    exact h.2.setDecrypted _ hallowed
  | plaintext eventId sender originServerTs recovered =>
    simp only [Watched.step, TimelineCall.redacts, List.append_nil, TimelineCall.apply,
      applyDecryptedPlaintext]
    cases hrel : recovered.contribution? eventId sender originServerTs with
    | some relating => exact h.2.applyDecryptedRelation relating
    | none => exact h.2.setDecryptedEvent _ _ (hallowed hrel)

/-- A row in redacted form is refused as a forward source. -/
theorem forwardSource_of_redacted (hrow : t.itemByEventId id = some row)
    (hred : row.redacted = true) :
    t.forwardSource id = .error .redacted := by
  simp only [Timeline.forwardSource, hrow, hred, Bool.true_or, if_true]
  rfl

theorem Watched.Sound.hides (h : w.Sound) : w.Hides := by
  intro id hmem
  have hform : ∀ row ∈ w.timeline.items, row.eventId = some id → RedactedForm row := by
    intro row hrow hid
    obtain ⟨i, hi⟩ := List.mem_iff_getElem?.1 hrow
    exact h.2.form hi hid hmem
  refine ⟨hform, ?_⟩
  cases hidx : w.timeline.byEventId[id]? with
  | none =>
    refine ⟨.missing, ?_⟩
    simp only [Timeline.forwardSource, Timeline.itemByEventId, hidx, Option.bind_none]
    rfl
  | some idx =>
    obtain ⟨row, hrow, hid⟩ := Option.bind_eq_some_iff.1 ((h.2.indexed id idx).1 hidx)
    refine ⟨.redacted, forwardSource_of_redacted ?_
      (hform row (List.mem_of_getElem? hrow) hid).redacted⟩
    rw [Timeline.itemByEventId, hidx, Option.bind_some, hrow]

theorem Watched.sound_initial : Watched.Sound {} := by
  refine ⟨⟨RowIndex.inRange_empty _, RowIndex.inRange_empty _⟩, RowIndex.indexes_empty, ?_, ?_⟩
  · intro i row id hrow
    simp at hrow
  · intro id hwait
    simp at hwait

/-- In every run whose calls are all allowed, a redacted event shows only its redacted form
and is refused as a forward source, in every state from its redaction on. -/
theorem hides_of_meets (calls : List TimelineCall)
    (hmeets : Trace.Meets Watched.step Watched.Allows {} calls) :
    Trace.Throughout Watched.step Watched.Hides {} calls :=
  Trace.throughout_of_meets Watched.Sound (fun _ _ hallowed h => h.step hallowed)
    (fun _ h => h.hides) hmeets Watched.sound_initial

/-! A message whose key arrives after its redaction. -/

def plainMessage : RawEvent :=
  { eventId := ⟨"$m"⟩, eventType := eventRoomMessage, sender := ⟨"@a:h"⟩, originServerTs := 1
    content := .obj [("msgtype", .str "m.text"), ("body", .str "secret")] }

def sealedMessage : RawEvent :=
  { plainMessage with
    eventType := eventRoomEncrypted
    content := .obj [("algorithm", .str "m.megolm.v1.aes-sha2"), ("ciphertext", .str "c"),
      ("session_id", .str "s")] }

def redactionOf (target : String) : RawEvent :=
  { eventId := ⟨"$r"⟩, eventType := eventRoomRedaction, sender := ⟨"@a:h"⟩, originServerTs := 2
    content := .obj [("redacts", .str target)] }

def keyAfterRedaction : List TimelineCall :=
  [.event sealedMessage, .undecryptable ⟨"$m"⟩ "MissingSession", .event (redactionOf "$m"),
    .plaintext ⟨"$m"⟩ ⟨"@a:h"⟩ 1 ⟨eventRoomMessage, plainMessage.content⟩]

/-- An older page brings a message whose redaction waits, and later it is delivered again as
redacted. -/
theorem hides_when_the_message_follows :
    Trace.Throughout Watched.step Watched.Hides {}
      [.event (redactionOf "$m"), .backPage [plainMessage] none,
        .event { plainMessage with unsigned := { redactedBecause := true } }] :=
  hides_of_meets _ (by decide +kernel)

/-- The decryption writes the text into the redacted row. -/
theorem not_hides_keyAfterRedaction :
    ¬ Trace.Throughout Watched.step Watched.Hides {} keyAfterRedaction ∧
      ((Trace.run Watched.step {} keyAfterRedaction).timeline.items.map fun row =>
        (row.eventId, row.redacted, row.content)) =
          [(some ⟨"$m"⟩, true, .text { body := "secret" })] := by
  have hrow : ((Trace.run Watched.step {} keyAfterRedaction).timeline.items.map fun row =>
      (row.eventId, row.redacted, row.content)) =
        [(some ⟨"$m"⟩, true, .text { body := "secret" })] := by decide +kernel
  refine ⟨fun h => ?_, hrow⟩
  obtain ⟨row, hitems, hshown⟩ := List.map_eq_singleton_iff.1 hrow
  obtain ⟨hid, -, hcontent⟩ : row.eventId = some ⟨"$m"⟩ ∧ row.redacted = true ∧
      row.content = .text { body := "secret" } := by simpa using hshown
  have hform := (h.last ⟨"$m"⟩ (by decide +kernel)).1 row (by simp [hitems]) hid
  rcases hform.shows with hshows | hshows | ⟨userId, membership, hshows⟩ <;>
    simp [hshows] at hcontent

end Messenger
