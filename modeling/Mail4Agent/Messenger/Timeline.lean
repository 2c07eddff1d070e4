import Mail4Agent.Messenger.RoomEvents
import Mail4Agent.Foundation.RowIndex

/-!
# A room's timeline

The rows of one room with their two indexes, the relations counted on each row, and the
relations and redactions that wait for a row which is not loaded. Rows come from sync
windows, from older pages and from local echoes; decryption and redaction change them
afterwards.

Positions found in an index are read without a range check in the source. Here a position
out of range leaves the rows alone; `Indexed.inRange` and its txn counterpart show that it
does not occur.
-/

namespace Messenger

/-! ### Rows -/

inductive SendState where
  | localEcho
  | sending
  | sent
  | failed (reason : String)
deriving DecidableEq, Repr

inductive StateChangeSummary where
  | member (userId : String) (membership : Membership) (displayname : Option String)
  | name (name : String)
  | topic (topic : String)
deriving DecidableEq, Repr

inductive ItemContent where
  | text (inner : TextLikeMessageContent)
  | notice (inner : TextLikeMessageContent)
  | emote (inner : TextLikeMessageContent)
  | encrypted (sessionId ciphertextB64 : String)
  | undecryptable (reason : String)
  | redacted
  | stateChange (summary : StateChangeSummary)
  | unknown
deriving DecidableEq, Repr

inductive Forwarded where
  | hidden
  | channel (roomId : RoomId) (roomName : String)
deriving DecidableEq, Repr

def keyForwarded : String := "forwarded"
def keyForwardedFrom : String := "forwarded_from"

/-- The forward marker of a message; a well-formed `forwarded_from` wins. -/
def parseForwarded (eventType : String) (content : Json) : Option Forwarded :=
  if eventType ≠ eventRoomMessage then none
  else
    let channel : Option Forwarded := do
      let «from» ← content.get? keyForwardedFrom
      let roomId ← ((«from».get? "room_id").bind Json.asStr?).bind RoomId.parse
      let roomName ← («from».get? "room_name").bind Json.asStr?
      return .channel roomId roomName
    channel <|>
      if (content.get? keyForwarded).bind Json.asBool? = some true then some .hidden else none

structure DecryptedEvent where
  eventType : String
  content : Json

structure GapMarker where
  prevBatch : Option String
deriving DecidableEq, Repr

structure TimelineItem where
  eventId : Option EventId
  txnId : Option TxnId
  sender : UserId
  originServerTs : Int
  eventType : String
  stateKey : Option String
  content : ItemContent
  relations : RelationsBundle
  sendState : SendState
  redacted : Bool
  rawContent : Json
  forwarded : Option Forwarded
  decrypted : Option DecryptedEvent

def textField (content : Json) (key : String) : Option String :=
  (content.get? key).bind Json.asStr?

def interpretStateChange (eventType stateKey : String) (content : Json) : ItemContent :=
  if eventType = eventRoomMember then
    .stateChange (.member stateKey (readMembership content) (textField content "displayname"))
  else if eventType = eventRoomName then
    .stateChange (.name ((textField content "name").getD ""))
  else if eventType = eventRoomTopic then
    .stateChange (.topic ((textField content "topic").getD ""))
  else .unknown

def interpretContent (eventType : String) (stateKey : Option String) (content : Json) :
    ItemContent :=
  match stateKey with
  | some stateKey => interpretStateChange eventType stateKey content
  | none =>
    if eventType = eventRoomMessage then
      match RoomMessageContent.read content with
      | some (.text inner) => .text inner
      | some (.notice inner) => .notice inner
      | some (.emote inner) => .emote inner
      | _ => .unknown
    else if eventType = eventRoomEncrypted then
      match MegolmEncryptedContent.read content with
      | some inner => .encrypted inner.sessionId inner.ciphertext
      | none => .undecryptable
          "m.room.encrypted event in a room timeline was not the megolm algorithm"
    else .unknown

/-- What the redaction rules leave of a row: a membership, and nothing of a message. -/
def contentAfterRedaction (eventType : String) (stateKey : Option String) (content : Json) :
    ItemContent :=
  if eventType = eventRoomMember then
    .stateChange (.member (stateKey.getD "") (readMembership content) none)
  else if eventType = eventRoomPowerLevels ∨ eventType = eventRoomHistoryVisibility ∨
      eventType = eventRoomCreate then .unknown
  else .redacted

/-- The pointers an event itself carries. -/
def buildOwnRelationPointers (event : RawEvent) : RelationsBundle :=
  match event.relatesTo with
  | some (.inReplyTo eventId) => { replyTo := some eventId }
  | some (.thread eventId _ reply) => { threadRoot := some eventId, replyTo := reply }
  | _ => {}

def buildItem (event : RawEvent) : TimelineItem :=
  let alreadyRedacted := event.unsigned.redactedBecause
  { eventId := some event.eventId
    txnId := event.unsigned.transactionId.map TxnId.mk
    sender := event.sender
    originServerTs := event.originServerTs
    eventType := event.eventType
    stateKey := event.stateKey
    content :=
      if alreadyRedacted then contentAfterRedaction event.eventType event.stateKey event.content
      else interpretContent event.eventType event.stateKey event.content
    relations := buildOwnRelationPointers event
    sendState := .sent
    redacted := alreadyRedacted
    rawContent := event.content
    forwarded :=
      if alreadyRedacted ∨ event.stateKey.isSome then none
      else parseForwarded event.eventType event.content
    decrypted := none }

def redactItem (item : TimelineItem) : TimelineItem :=
  { item with
    content := contentAfterRedaction item.eventType item.stateKey item.rawContent
    redacted := true
    forwarded := none
    decrypted := none }

/-- The reaction or edit an event is, by its own content. -/
def RawEvent.contribution? (event : RawEvent) : Option RelatingEvent :=
  if event.stateKey.isSome then none
  else
    match event.relatesTo with
    | some (.annotationOf target key) => some
        { eventId := event.eventId, sender := event.sender, originServerTs := event.originServerTs
          relation := .annotationOf target key }
    | some (.replace target) => some
        { eventId := event.eventId, sender := event.sender, originServerTs := event.originServerTs
          relation := .replace target, newContent := event.content.get? "m.new_content" }
    | _ => none

/-! ### The timeline -/

/-- Entries a queue of waiting relations or redactions keeps. -/
def pendingCapacity : Nat := 5000

structure Timeline where
  items : List TimelineItem := []
  byEventId : BTreeMap EventId Nat := ∅
  byTxnId : BTreeMap TxnId Nat := ∅
  relationContributions : BTreeMap EventId EventId := ∅
  relatingEventsByTarget : BTreeMap EventId (List RelatingEvent) := ∅
  pendingRelations : BTreeMap EventId (List RelatingEvent) := ∅
  pendingRelationOrder : List EventId := []
  pendingRedactions : BTreeMap EventId EventId := ∅
  pendingRedactionOrder : List EventId := []
  gap : Option GapMarker := none
  olderToken : Option String := none

namespace Timeline

def itemByEventId (t : Timeline) (eventId : EventId) : Option TimelineItem :=
  t.byEventId[eventId]?.bind (t.items[·]?)

def relatingEventsFor (t : Timeline) (target : EventId) : List RelatingEvent :=
  t.relatingEventsByTarget[target]?.getD []

/-- Rewrites one row. -/
def modifyRow (t : Timeline) (idx : Nat) (f : TimelineItem → TimelineItem) : Timeline :=
  { t with items := t.items.modify idx f }

/-- Folds a relation onto the row at `idx` and, if the row accepts it, records it. -/
def foldRelation (t : Timeline) (target : EventId) (idx : Nat) (relating : RelatingEvent) :
    Timeline :=
  match t.items[idx]? with
  | none => t
  | some row =>
    match aggregateRelation row.relations row.sender relating with
    | none => t
    | some bundle => { t with
        items := t.items.set idx { row with relations := bundle }
        relationContributions := t.relationContributions.insert relating.eventId target
        relatingEventsByTarget :=
          t.relatingEventsByTarget.insert target (t.relatingEventsFor target ++ [relating]) }

/-- Drops the oldest relation waiting for `oldest`; an entry whose target was resolved
meanwhile drops nothing. -/
def evictRelation (pending : BTreeMap EventId (List RelatingEvent)) (oldest : EventId) :
    BTreeMap EventId (List RelatingEvent) :=
  match pending[oldest]? with
  | none => pending
  | some waiting =>
    if waiting.tail.isEmpty then pending.erase oldest else pending.insert oldest waiting.tail

/-- The loop that keeps a queue at its capacity: the oldest entries leave the order, and what
they stand for is dropped. -/
def evictOldest {β : Type} (evict : β → EventId → β) : List EventId → β → List EventId × β
  | [], kept => ([], kept)
  | oldest :: rest, kept =>
    if rest.length + 1 > pendingCapacity then evictOldest evict rest (evict kept oldest)
    else (oldest :: rest, kept)

def queuePendingRelation (t : Timeline) (target : EventId) (relating : RelatingEvent) :
    Timeline :=
  let pending :=
    t.pendingRelations.insert target ((t.pendingRelations[target]?.getD []) ++ [relating])
  let kept := evictOldest evictRelation (t.pendingRelationOrder ++ [target]) pending
  { t with pendingRelations := kept.2, pendingRelationOrder := kept.1 }

/-- The first redaction that waits for a target stays. -/
def queuePendingRedaction (t : Timeline) (target redactionEventId : EventId) : Timeline :=
  if t.pendingRedactions.contains target then t
  else
    let pending := t.pendingRedactions.insert target redactionEventId
    let kept := evictOldest (fun pending oldest => pending.erase oldest)
      (t.pendingRedactionOrder ++ [target]) pending
    { t with pendingRedactions := kept.2, pendingRedactionOrder := kept.1 }

def foldOrQueueRelation (t : Timeline) (relating : RelatingEvent) : Timeline :=
  match relating.relation.target? with
  | none => t
  | some target =>
    match t.byEventId[target]? with
    | none => t.queuePendingRelation target relating
    | some idx => t.foldRelation target idx relating

def resolvePendingRedaction (t : Timeline) (eventId : EventId) (idx : Nat) : Timeline :=
  if t.pendingRedactions.contains eventId then
    { t.modifyRow idx redactItem with pendingRedactions := t.pendingRedactions.erase eventId }
  else t

def resolvePendingRelations (t : Timeline) (eventId : EventId) (idx : Nat) : Timeline :=
  match t.pendingRelations[eventId]? with
  | none => t
  | some pending => pending.foldl (fun t relating => t.foldRelation eventId idx relating)
      { t with pendingRelations := t.pendingRelations.erase eventId }

/-- What waited for `eventId` is applied to the row at `idx`: the redaction first. -/
def resolvePendingFor (t : Timeline) (eventId : EventId) (idx : Nat) : Timeline :=
  (t.resolvePendingRedaction eventId idx).resolvePendingRelations eventId idx

/-- Takes back what `target` contributed to `bundleTarget` and counts again what remains. -/
def retractContribution (t : Timeline) (target bundleTarget : EventId) : Timeline :=
  let remaining := (t.relatingEventsFor bundleTarget).filter fun relating =>
    relating.eventId ≠ target
  let t := { t with
    relationContributions := t.relationContributions.erase target
    relatingEventsByTarget :=
      if t.relatingEventsByTarget.contains bundleTarget then
        t.relatingEventsByTarget.insert bundleTarget remaining
      else t.relatingEventsByTarget }
  match t.byEventId[bundleTarget]? with
  | none => t
  | some idx => t.modifyRow idx fun row =>
      { row with relations := recomputeBundle row.sender remaining }

def applyOrQueueRedaction (t : Timeline) (redactionEventId target : EventId) : Timeline :=
  match t.byEventId[target]? with
  | some idx => t.modifyRow idx redactItem
  | none =>
    match t.relationContributions[target]? with
    | some bundleTarget => t.retractContribution target bundleTarget
    | none => t.queuePendingRedaction target redactionEventId

def applyRedaction (t : Timeline) (target : EventId) : Timeline :=
  t.applyOrQueueRedaction target target

def insertNewItem (t : Timeline) (item : TimelineItem) : Timeline :=
  let idx := t.items.length
  let t := { t with
    byEventId := RowIndex.add TimelineItem.eventId t.byEventId item idx
    byTxnId := RowIndex.add TimelineItem.txnId t.byTxnId item idx
    items := t.items ++ [item] }
  match item.eventId with
  | some eventId => t.resolvePendingFor eventId idx
  | none => t

def reconcileLocalEcho (t : Timeline) (idx : Nat) (confirmed : TimelineItem) : Timeline :=
  let t := { t with
    byEventId := RowIndex.add TimelineItem.eventId t.byEventId confirmed idx
    items := t.items.set idx confirmed }
  match confirmed.eventId with
  | some eventId => t.resolvePendingFor eventId idx
  | none => t

/-- A row off the wire takes the place of the echo with its transaction id, else of the row
with its event id, else it is new. -/
def placeItem (t : Timeline) (item : TimelineItem) : Timeline :=
  match item.txnId.bind (t.byTxnId[·]?) with
  | some idx => t.reconcileLocalEcho idx item
  | none =>
    match item.eventId.bind (t.byEventId[·]?) with
    | some idx => { t with items := t.items.set idx item }
    | none => t.insertNewItem item

/-- One event of a sync window. An encrypted event is never classified by its envelope. -/
def applyOneEvent (t : Timeline) (event : RawEvent) : Timeline :=
  if event.eventType = eventRoomRedaction then
    match readRedacts event.content with
    | some target => t.applyOrQueueRedaction event.eventId target
    | none => t
  else
    match if event.eventType ≠ eventRoomEncrypted then event.contribution? else none with
    | some relating => t.foldOrQueueRelation relating
    | none => t.placeItem (buildItem event)

def noteGap (t : Timeline) (limited : Bool) (prevBatch : Option String) : Timeline :=
  if limited then { t with gap := some ⟨prevBatch⟩ } else t

def applyTimelineBatch (t : Timeline) (events : List RawEvent) (limited : Bool)
    (prevBatch : Option String) : Timeline :=
  events.foldl applyOneEvent (t.noteGap limited prevBatch)

def pushLocalEcho (t : Timeline) (txnId : TxnId) (sender : UserId) (originServerTs : Int)
    (eventType : String) (content : ItemContent) (wireContent : Json) : Timeline :=
  t.insertNewItem
    { eventId := none, txnId := some txnId, sender, originServerTs, eventType, stateKey := none
      content, relations := {}, sendState := .localEcho, redacted := false
      rawContent := wireContent, forwarded := parseForwarded eventType wireContent
      decrypted := none }

def markSendState (t : Timeline) (txnId : TxnId) (sendState : SendState) : Timeline :=
  match t.byTxnId[txnId]? with
  | some idx => t.modifyRow idx fun row => { row with sendState }
  | none => t

def reindex (t : Timeline) : Timeline :=
  { t with
    byEventId := RowIndex.build TimelineItem.eventId t.items
    byTxnId := RowIndex.build TimelineItem.txnId t.items }

/-- One event of an older page; the rows it adds are collected beside the timeline. -/
def pageEvent (page : Timeline × List TimelineItem) (event : RawEvent) :
    Timeline × List TimelineItem :=
  if page.1.byEventId.contains event.eventId then page
  else if event.eventType = eventRoomRedaction then
    match readRedacts event.content with
    | some target => (page.1.applyOrQueueRedaction event.eventId target, page.2)
    | none => page
  else
    match event.contribution? with
    | some relating => (page.1.foldOrQueueRelation relating, page.2)
    | none => (page.1, page.2 ++ [buildItem event])

def resolveAt (t : Timeline) (idx : Nat) : Timeline :=
  match t.items[idx]?.bind TimelineItem.eventId with
  | some eventId => t.resolvePendingFor eventId idx
  | none => t

def prependRows (t : Timeline) (newItems : List TimelineItem) (endToken : Option String) :
    Timeline :=
  (List.range newItems.length).foldl resolveAt
    { t with items := newItems ++ t.items, olderToken := endToken }.reindex

/-- An older page, oldest event first. -/
def prependBackPage (t : Timeline) (events : List RawEvent) (endToken : Option String) :
    Timeline :=
  let page := events.foldl pageEvent (t, [])
  page.1.prependRows page.2 endToken

def setDecrypted (t : Timeline) (eventId : EventId) (content : ItemContent) : Timeline :=
  match t.byEventId[eventId]? with
  | some idx => t.modifyRow idx fun row => { row with content }
  | none => t

def setDecryptedEvent (t : Timeline) (eventId : EventId) (eventType : String) (content : Json) :
    Timeline :=
  match t.byEventId[eventId]? with
  | some idx => t.modifyRow idx fun row => { row with
      content := interpretContent eventType none content
      forwarded := parseForwarded eventType content
      decrypted := some { eventType, content } }
  | none => t

/-- An encrypted event that turned out to be a reaction or an edit loses its row and is
folded onto its target; `none` if there is nothing to do. -/
def applyDecryptedRelation (t : Timeline) (relating : RelatingEvent) : Option Timeline := do
  let _ ← relating.relation.target?
  let idx ← t.byEventId[relating.eventId]?
  return ({ t with items := t.items.eraseIdx idx }.reindex).foldOrQueueRelation relating

def setEchoEventId (t : Timeline) (txnId : TxnId) (eventId : EventId) : Timeline :=
  match t.byTxnId[txnId]? with
  | some idx =>
    { t.modifyRow idx fun row => { row with eventId := some eventId, sendState := .sent } with
      byEventId := t.byEventId.insert eventId idx }
  | none => t

/-! ### Forwarding -/

inductive ForwardRefusal where
  | missing
  | redacted
  | sealed
  | notForwardable (eventType : String)
deriving DecidableEq, Repr

structure ForwardSource where
  eventType : String
  content : Json

/-- The current content of a row: its plaintext, with the latest edit in place of it. -/
def currentContent (item : TimelineItem) : Json :=
  let content :=
    match item.relations.latestEdit with
    | some edit => edit.content.toValue
    | none => (item.decrypted.map DecryptedEvent.content).getD item.rawContent
  match content.get? "m.new_content" with
  | some (.obj replacement) => .obj replacement
  | _ => content

def forwardSource (t : Timeline) (eventId : EventId) : Except ForwardRefusal ForwardSource := do
  let some item := t.itemByEventId eventId | throw .missing
  if item.redacted || item.content = .redacted then throw .redacted
  match item.content with
  | .encrypted .. | .undecryptable _ => throw .sealed
  | _ =>
    let eventType := (item.decrypted.map DecryptedEvent.eventType).getD item.eventType
    if item.stateKey.isSome || eventType ≠ eventRoomMessage then throw (.notForwardable eventType)
    match currentContent item with
    | .obj fields => return { eventType, content := .obj fields }
    | _ => throw (.notForwardable eventType)

end Timeline

/-! ### What the core does with a timeline -/

structure RoomEventPlaintext where
  eventType : String
  content : Json

/-- The reaction or edit a decrypted plaintext is. -/
def RoomEventPlaintext.contribution? (plaintext : RoomEventPlaintext) (eventId : EventId)
    (sender : UserId) (originServerTs : Int) : Option RelatingEvent := do
  let relation ← RelatesTo.fromContent plaintext.content
  let _ ← relation.target?
  return { eventId, sender, originServerTs, relation
           newContent := plaintext.content.get? "m.new_content" }

def applyDecryptedPlaintext (t : Timeline) (eventId : EventId) (sender : UserId)
    (originServerTs : Int) (plaintext : RoomEventPlaintext) : Timeline :=
  match plaintext.contribution? eventId sender originServerTs with
  | some relating => (t.applyDecryptedRelation relating).getD t
  | none => t.setDecryptedEvent eventId plaintext.eventType plaintext.content

/-- The Megolm content of an event that is to be decrypted. -/
def RawEvent.sealed? (event : RawEvent) : Option MegolmEncryptedContent :=
  if event.eventType ≠ eventRoomEncrypted ∨ event.stateKey.isSome ∨
      event.unsigned.redactedBecause then none
  else MegolmEncryptedContent.read event.content

section Decrypt

variable (decrypt : RawEvent → MegolmEncryptedContent → Except String RoomEventPlaintext)

def decryptOne (t : Timeline) (event : RawEvent) : Timeline :=
  match event.sealed? with
  | none => t
  | some content =>
    match decrypt event content with
    | .ok plaintext =>
      applyDecryptedPlaintext t event.eventId event.sender event.originServerTs plaintext
    | .error reason => t.setDecrypted event.eventId (.undecryptable reason)

/-- Runs over the events just applied, whatever the window did to them meanwhile. -/
def decryptNewTimelineEvents (t : Timeline) (events : List RawEvent) : Timeline :=
  events.foldl (decryptOne decrypt) t

def ingestTimeline (t : Timeline) (events : List RawEvent) (limited : Bool)
    (prevBatch : Option String) : Timeline :=
  decryptNewTimelineEvents decrypt (t.applyTimelineBatch events limited prevBatch) events

def ingestRoomMessagesResponse (t : Timeline) (chunk : List RawEvent) (endToken : Option String) :
    Timeline :=
  decryptNewTimelineEvents decrypt (t.prependBackPage chunk.reverse endToken) chunk.reverse

end Decrypt

end Messenger
