import Mail4Agent.Foundation.Data
import Mail4Agent.Messenger.Ids

/-!
# Room events and their relations

An event as the client-server API sends it, the readers of its content, and the bundle of
relations a target collects. A reader accepts what the derived deserializers accept: an
optional field may be absent or `null`, a one-entry object with a `null` value stands for
the enumeration value it names, and `m.room.redaction` content may also be given as an array.

Of `unsigned`, the timeline reads the transaction identifier and whether the event was
redacted.
-/

namespace Messenger

/-! ### Relations -/

inductive RelatesTo where
  | annotationOf (eventId : EventId) (key : String)
  | replace (eventId : EventId)
  | thread (eventId : EventId) (isFallingBack : Bool) (inReplyTo : Option EventId)
  | inReplyTo (eventId : EventId)
  | unknown (value : Json)
deriving Repr

namespace RelatesTo

def eventIdField (value : Json) : Option EventId :=
  ((value.get? "event_id").bind Json.asStr?).bind EventId.parse

def fromValue (value : Json) : RelatesTo :=
  let parsed : Option RelatesTo :=
    match (value.get? "rel_type").bind Json.asStr? with
    | some "m.annotation" => do
      let eventId ← eventIdField value
      let key ← (value.get? "key").bind Json.asStr?
      return .annotationOf eventId key
    | some "m.replace" => (eventIdField value).map .replace
    | some "m.thread" => (eventIdField value).map fun eventId =>
      .thread eventId (((value.get? "is_falling_back").bind Json.asBool?).getD false)
        ((value.get? "m.in_reply_to").bind eventIdField)
    | none => ((value.get? "m.in_reply_to").bind eventIdField).map .inReplyTo
    | some _ => none
  parsed.getD (.unknown value)

def fromContent (content : Json) : Option RelatesTo :=
  (content.get? "m.relates_to").map fromValue

/-- The event a reaction or an edit is folded onto; other relations are not folded. -/
def target? : RelatesTo → Option EventId
  | annotationOf eventId _ | replace eventId => some eventId
  | _ => none

end RelatesTo

/-! ### Events -/

structure Unsigned where
  transactionId : Option String := none
  redactedBecause : Bool := false
deriving Repr

structure RawEvent where
  eventId : EventId
  eventType : String
  sender : UserId
  originServerTs : Int
  stateKey : Option String := none
  content : Json := .null
  unsigned : Unsigned := {}
deriving Repr

def RawEvent.relatesTo (event : RawEvent) : Option RelatesTo :=
  RelatesTo.fromContent event.content

def eventRoomMessage : String := "m.room.message"
def eventRoomEncrypted : String := "m.room.encrypted"
def eventRoomRedaction : String := "m.room.redaction"
def eventRoomMember : String := "m.room.member"
def eventRoomName : String := "m.room.name"
def eventRoomTopic : String := "m.room.topic"
def eventRoomPowerLevels : String := "m.room.power_levels"
def eventRoomHistoryVisibility : String := "m.room.history_visibility"
def eventRoomCreate : String := "m.room.create"

/-! ### Contents -/

/-- An optional text field: absent or `null`, or a text; anything else is an error. -/
def optionalText (field : Option Json) : Option (Option String) :=
  match field with
  | none | some .null => some none
  | some (.str text) => some (some text)
  | some _ => none

structure TextLikeMessageContent where
  body : String
  format : Option String := none
  formattedBody : Option String := none
deriving DecidableEq, Repr

def TextLikeMessageContent.read (value : Json) : Option TextLikeMessageContent := do
  let body ← (value.get? "body").bind Json.asStr?
  let format ← optionalText (value.get? "format")
  let formattedBody ← optionalText (value.get? "formatted_body")
  return { body, format, formattedBody }

inductive RoomMessageContent where
  | text (inner : TextLikeMessageContent)
  | notice (inner : TextLikeMessageContent)
  | emote (inner : TextLikeMessageContent)
  | unknown (value : Json)
deriving Repr

namespace RoomMessageContent

def read (value : Json) : Option RoomMessageContent :=
  match (value.get? "msgtype").bind Json.asStr? with
  | some "m.text" => (TextLikeMessageContent.read value).map .text
  | some "m.notice" => (TextLikeMessageContent.read value).map .notice
  | some "m.emote" => (TextLikeMessageContent.read value).map .emote
  | _ => some (.unknown value)

def tagged (msgtype : String) (inner : TextLikeMessageContent) : Json :=
  .obj ([("msgtype", .str msgtype), ("body", .str inner.body)] ++
    (inner.format.map fun text => ("format", Json.str text)).toList ++
    (inner.formattedBody.map fun text => ("formatted_body", Json.str text)).toList)

def toValue : RoomMessageContent → Json
  | text inner => tagged "m.text" inner
  | notice inner => tagged "m.notice" inner
  | emote inner => tagged "m.emote" inner
  | unknown value => value

end RoomMessageContent

structure MegolmEncryptedContent where
  ciphertext : String
  sessionId : String
  senderKey : Option String := none
  deviceId : Option String := none
deriving DecidableEq, Repr

/-- `m.room.encrypted` content of the Megolm algorithm. -/
def MegolmEncryptedContent.read (value : Json) : Option MegolmEncryptedContent :=
  if (value.get? "algorithm").bind Json.asStr? = some "m.megolm.v1.aes-sha2" then do
    let ciphertext ← (value.get? "ciphertext").bind Json.asStr?
    let sessionId ← (value.get? "session_id").bind Json.asStr?
    let senderKey ← optionalText (value.get? "sender_key")
    let deviceId ← optionalText (value.get? "device_id")
    return { ciphertext, sessionId, senderKey, deviceId }
  else none

/-- The event a redaction names; the id is taken as it stands. -/
def readRedacts (content : Json) : Option EventId :=
  match content with
  | .obj fields => do
    let redacts ← (fields.lookup "redacts").bind Json.asStr?
    let _ ← optionalText (fields.lookup "reason")
    return ⟨redacts⟩
  | .arr [.str redacts] => some ⟨redacts⟩
  | .arr [.str redacts, reason] => (optionalText (some reason)).map fun _ => ⟨redacts⟩
  | _ => none

inductive Membership where
  | invite | join | knock | leave | ban | unknown
deriving DecidableEq, Repr

def Membership.ofName (name : String) : Membership :=
  if name = "invite" then invite
  else if name = "join" then join
  else if name = "knock" then knock
  else if name = "leave" then leave
  else if name = "ban" then ban
  else unknown

/-- The membership a member event names; what cannot be read is unknown. -/
def readMembership (content : Json) : Membership :=
  match content.get? "membership" with
  | some (.str name) => .ofName name
  | some (.obj [(name, .null)]) => .ofName name
  | _ => .unknown

/-! ### Bundles -/

structure EditRecord where
  eventId : EventId
  content : RoomMessageContent
  originServerTs : Int
deriving Repr

structure RelationsBundle where
  reactions : BTreeMap String (BTreeSet UserId) := ∅
  latestEdit : Option EditRecord := none
  replyTo : Option EventId := none
  threadRoot : Option EventId := none

/-- A relating event; `newContent` is read for an edit only. -/
structure RelatingEvent where
  eventId : EventId
  sender : UserId
  originServerTs : Int
  relation : RelatesTo
  newContent : Option Json := none

/-- The edit an `m.replace` carries: it has to come from the target's sender and its
replacement has to be readable. -/
def editOf (originalSender : UserId) (relating : RelatingEvent) : Option EditRecord :=
  if relating.sender ≠ originalSender then none
  else (relating.newContent.bind RoomMessageContent.read).map fun content =>
    { eventId := relating.eventId, content, originServerTs := relating.originServerTs }

/-- Edits are ordered by time, then by event id. -/
def EditRecord.notBefore (candidate current : EditRecord) : Bool :=
  current.originServerTs < candidate.originServerTs ∨
    (current.originServerTs = candidate.originServerTs ∧
      current.eventId.value ≤ candidate.eventId.value)

/-- Folds one relating event onto a bundle; `none` if it is rejected. -/
def aggregateRelation (bundle : RelationsBundle) (originalSender : UserId)
    (relating : RelatingEvent) : Option RelationsBundle :=
  match relating.relation with
  | .annotationOf _ key =>
    let users := (bundle.reactions[key]?.getD ∅).insert relating.sender
    some { bundle with reactions := bundle.reactions.insert key users }
  | .replace _ => (editOf originalSender relating).map fun candidate =>
    if bundle.latestEdit.all candidate.notBefore then { bundle with latestEdit := some candidate }
    else bundle
  | .inReplyTo eventId => some { bundle with replyTo := some eventId }
  | .thread eventId _ reply => some { bundle with
      threadRoot := some eventId
      replyTo := reply <|> bundle.replyTo }
  | .unknown _ => none

def recomputeBundle (originalSender : UserId) (relatingEvents : List RelatingEvent) :
    RelationsBundle :=
  relatingEvents.foldl
    (fun bundle relating => (aggregateRelation bundle originalSender relating).getD bundle) {}

end Messenger
