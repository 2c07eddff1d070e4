import Mail4Agent.Foundation.ByteCodec
import Mail4Agent.Foundation.Page
import Mail4Agent.Mailbox.Store

/-!
# The mailbox engine

Authentication, the registry of accounts, rooms and sessions, and the operations on mail, over any
`MailStore`. An operation that changes something returns the new engine; one that is refused leaves
the store as it was. The clock and everything random are handed in, and SHA-256 is a parameter.
-/

namespace Mailbox

/-! ### Message identifiers -/

/-- A hash function with digests of 32 bytes. -/
structure Sha256 where
  hash : Bytes → Bytes
  length_hash : ∀ data, (hash data).length = 32

def textBytes (text : String) : Bytes := text.toUTF8.data.toList

def hexEncode (bytes : Bytes) : List Char :=
  bytes.flatMap fun byte => [Text.hexDigit (byte.toNat / 16), Text.hexDigit (byte.toNat % 16)]

theorem length_hexEncode (bytes : Bytes) : (hexEncode bytes).length = 2 * bytes.length := by
  induction bytes with
  | nil => rfl
  | cons byte bytes ih =>
    simp only [hexEncode, List.flatMap_cons, List.length_append, List.length_cons,
      List.length_nil] at ih ⊢
    omega

theorem isLowerHex_of_mem_hexEncode {bytes : Bytes} {c : Char} (h : c ∈ hexEncode bytes) :
    isLowerHex c = true := by
  have hdigit : ∀ d < 16, isLowerHex (Text.hexDigit d) = true := by decide
  obtain ⟨byte, -, hc⟩ := List.mem_flatMap.1 h
  have hbyte := byte.toNat_lt_size
  simp only [List.mem_cons, List.not_mem_nil, or_false] at hc
  rcases hc with rfl | rfl
  · exact hdigit _ (by simp [UInt8.size] at hbyte; omega)
  · exact hdigit _ (Nat.mod_lt _ (by decide))

/-- The text form of an address. -/
def Address.display : Address → String
  | .direct participant => participant.value
  | .session participant id => participant.value ++ "/" ++ id.value
  | .room id => "#" ++ id.value

def Address.hashed : Address → Bytes
  | .direct participant => textBytes "direct:" ++ textBytes participant.value
  | .session participant id =>
    textBytes "session:" ++ textBytes participant.value ++ [0] ++ textBytes id.value
  | .room id => textBytes "room:" ++ textBytes id.value

def MessageRef.hashed (reference : MessageRef) : Bytes :=
  textBytes reference.kind ++ [0] ++ textBytes reference.locator ++ [0] ++
    (reference.digest.map textBytes).getD [] ++ [0]

/-- What is hashed for the identifier of a message; without a key it ends in fresh random bytes. -/
def messageIdPreimage (sender : Address) (request : SendRequest) (nowUnixMs : UInt64)
    (nonce : Bytes) : Bytes :=
  textBytes sender.display ++ [0] ++ request.to.hashed ++ [0] ++ textBytes request.subject ++ [0] ++
    textBytes request.body ++ [0] ++ (request.replyTo.map fun id => textBytes id.value).getD [] ++
    [0] ++ (request.correlation.map textBytes).getD [] ++ [0] ++
    request.refs.flatMap MessageRef.hashed ++ Bytes.ofNatLE 8 nowUnixMs.toNat ++ [0] ++
    (request.idempotencyKey.map textBytes).getD nonce

/-- The identifier in the first digits of a digest. -/
def MessageId.ofDigest (sha : Sha256) (data : Bytes) : MessageId where
  value := messageIdPrefix ++ String.ofList ((hexEncode (sha.hash data)).take messageIdHexLen)
  valid := by
    have hlength : ((hexEncode (sha.hash data)).take messageIdHexLen).length = messageIdHexLen := by
      simp [length_hexEncode, sha.length_hash, messageIdHexLen]
    have hhex : ((hexEncode (sha.hash data)).take messageIdHexLen).all isLowerHex = true :=
      List.all_eq_true.2 fun c hc => isLowerHex_of_mem_hexEncode (List.mem_of_mem_take hc)
    simp only [isOpaqueId, String.toList_append, String.toList_ofList, Text.stripLead_append,
      hlength, hhex]
    decide

def deriveMessageId (sha : Sha256) (sender : Address) (request : SendRequest)
    (nowUnixMs : UInt64) (nonce : Bytes) : MessageId :=
  .ofDigest sha (messageIdPreimage sender request nowUnixMs nonce)

/-! ### Listener addresses -/

def listenerUrlMaxBytes : Nat := 512

def loopbackRefusal : String :=
  "must be an http://127.0.0.1:* or http://localhost:* URL -- this mailbox is " ++
    "a local service and never turns a message into an outbound call anywhere else"

/-- Only the machine itself may be called. -/
def validateListenerUrl (url : String) : Except MailError Unit := do
  if url.utf8ByteSize > listenerUrlMaxBytes then
    .error (.tooLarge "url" listenerUrlMaxBytes url.utf8ByteSize)
  if url.toList.any isControl then
    .error (.malformed "url" "must not contain control characters")
  match Text.stripLead "http://".toList url.toList with
  | none => .error (.malformed "url" loopbackRefusal)
  | some afterScheme =>
    let authority := afterScheme.takeWhile fun c => !(c == '/' || c == '?' || c == '#')
    if authority.contains '@' then
      .error (.malformed "url"
        "must not carry userinfo (\"user:pass@\") in a loopback listener URL")
    let host := (authority.takeWhile (· != ':')).map Char.toLower
    if host ≠ "127.0.0.1".toList ∧ host ≠ "localhost".toList then
      .error (.malformed "url" loopbackRefusal)

/-! ### The engine -/

/-- Creation time, then identifier. -/
def Message.order (message : Message) : Nat ×ₗ String :=
  toLex (message.createdAtUnixMs.toNat, message.messageId.value)

structure ParticipantPermissions where
  maySend : Bool := false
  mayRead : Bool := false
  operator : Bool := false

structure MailboxEngine (S : Type) where
  store : S

/-- A failing store is named by its operation only. -/
def storeUnavailable {α : Type} (operation : String) (result : Except StoreError α) :
    Except MailError α :=
  result.mapError fun _ => .storeUnavailable operation

namespace MailboxEngine

variable {S : Type} [MailStore S] (sha : Sha256) (engine : MailboxEngine S)

def authenticate (presentedSecret : String) : Except MailError ParticipantId := do
  let digest := sha.hash (textBytes presentedSecret)
  let found ← storeUnavailable "find_participant_by_digest"
    (MailStore.findParticipantByDigest engine.store digest)
  match found with
  | none => .error (.permissionDenied "mail:authenticate")
  | some (id, record) =>
    if record.secretDigest = digest then .ok id
    else .error (.permissionDenied "mail:authenticate")

def requireParticipant (id : ParticipantId) : Except MailError ParticipantRecord := do
  let found ← storeUnavailable "get_participant" (MailStore.getParticipant engine.store id)
  match found with
  | some record => .ok record
  | none => .error (.unknownParticipant id)

/-- `secret` is the one that is generated, and handed back. -/
def registerParticipant (id : ParticipantId) (label : Option String)
    (permissions : ParticipantPermissions) (secret : String) :
    Except MailError (String × MailboxEngine S) := do
  (Participant.mk id label).validate
  let existing ← storeUnavailable "get_participant" (MailStore.getParticipant engine.store id)
  if existing.isSome then
    .error (.malformed "participant" ("participant \"" ++ id.value ++ "\" is already registered"))
  let record : ParticipantRecord := {
    label
    secretDigest := sha.hash (textBytes secret)
    maySend := permissions.maySend
    mayRead := permissions.mayRead
    operator := permissions.operator
    listenerUrl := none }
  let store ← storeUnavailable "register_participant"
    (MailStore.registerParticipant engine.store id record)
  return (secret, ⟨store⟩)

def deregisterParticipant (id : ParticipantId) : Except MailError (MailboxEngine S) := do
  let _ ← engine.requireParticipant id
  let store ← storeUnavailable "deregister_participant"
    (MailStore.deregisterParticipant engine.store id)
  return ⟨store⟩

def rotateParticipantSecret (id : ParticipantId) (secret : String) :
    Except MailError (String × MailboxEngine S) := do
  let _ ← engine.requireParticipant id
  let store ← storeUnavailable "set_participant_secret_digest"
    (MailStore.setParticipantSecretDigest engine.store id (sha.hash (textBytes secret)))
  return (secret, ⟨store⟩)

/-- Rotating without handing the new secret to anyone. -/
def revokeParticipantSecret (id : ParticipantId) (secret : String) :
    Except MailError (MailboxEngine S) := do
  let (_, engine) ← engine.rotateParticipantSecret sha id secret
  return engine

def setListener (id : ParticipantId) (url : String) : Except MailError (MailboxEngine S) := do
  validateListenerUrl url
  let _ ← engine.requireParticipant id
  let store ← storeUnavailable "set_listener_url"
    (MailStore.setListenerUrl engine.store id (some url))
  return ⟨store⟩

def removeListener (id : ParticipantId) : Except MailError (MailboxEngine S) := do
  let _ ← engine.requireParticipant id
  let store ← storeUnavailable "set_listener_url" (MailStore.setListenerUrl engine.store id none)
  return ⟨store⟩

def createRoom (id : RoomId) (nowUnixMs : UInt64) : Except MailError (MailboxEngine S) := do
  let existing ← storeUnavailable "get_room" (MailStore.getRoom engine.store id)
  if existing.isSome then
    .error (.malformed "room" ("room \"" ++ id.value ++ "\" already exists"))
  let store ← storeUnavailable "create_room" (MailStore.createRoom engine.store id nowUnixMs)
  return ⟨store⟩

def addRoomMember (room : RoomId) (participant : ParticipantId) :
    Except MailError (MailboxEngine S) := do
  let roomRecord ← storeUnavailable "get_room" (MailStore.getRoom engine.store room)
  if roomRecord.isNone then .error (.unknownRoom room)
  let participantRecord ← storeUnavailable "get_participant"
    (MailStore.getParticipant engine.store participant)
  if participantRecord.isNone then .error (.unknownParticipant participant)
  let store ← storeUnavailable "add_room_member"
    (MailStore.addRoomMember engine.store room participant)
  return ⟨store⟩

def removeRoomMember (room : RoomId) (participant : ParticipantId) :
    Except MailError (MailboxEngine S) := do
  let roomRecord ← storeUnavailable "get_room" (MailStore.getRoom engine.store room)
  if roomRecord.isNone then .error (.unknownRoom room)
  let store ← storeUnavailable "remove_room_member"
    (MailStore.removeRoomMember engine.store room participant)
  return ⟨store⟩

/-- What a session declared about itself stays; a session keeps its account. -/
def ensureSession (account : ParticipantId) (sessionId : SessionId) (card : SessionCard)
    (nowUnixMs : UInt64) : Except MailError (SessionId × MailboxEngine S) := do
  card.validate
  sessionId.validate
  let _ ← engine.requireParticipant account
  let existing ← storeUnavailable "get_session" (MailStore.getSession engine.store sessionId)
  let declared ← match existing with
    | some record =>
      if record.account = account then .ok record.card.declared
      else .error (.sessionAccountMismatch sessionId record.account account)
    | none => .ok {}
  let merged : SessionCard := ⟨card.attested, card.corroborated, declared⟩
  merged.validate
  let store ← storeUnavailable "upsert_session"
    (MailStore.upsertSession engine.store sessionId ⟨account, merged, nowUnixMs⟩)
  return (sessionId, ⟨store⟩)

def setDeclared (session : SessionId) (workingOn role : Option String)
    (parent : Option SessionId) : Except MailError (MailboxEngine S) := do
  session.validate
  let found ← storeUnavailable "get_session" (MailStore.getSession engine.store session)
  match found with
  | none => .error (.unknownSession session)
  | some record =>
    let declared : SessionDeclared := ⟨workingOn, role, parent⟩
    declared.validate
    let store ← storeUnavailable "upsert_session"
      (MailStore.upsertSession engine.store session
        { record with card := { record.card with declared } })
    return ⟨store⟩

/-- The account an address acts as; a session has the permissions of its account. -/
def resolveIdentity (address : Address) : Except MailError (ParticipantId × ParticipantRecord) := do
  address.validate
  match address with
  | .direct participant =>
    let record ← engine.requireParticipant participant
    return (participant, record)
  | .session participant session =>
    let found ← storeUnavailable "get_session" (MailStore.getSession engine.store session)
    match found with
    | none => .error (.unknownSession session)
    | some sessionRecord =>
      if sessionRecord.account ≠ participant then
        .error (.sessionAccountMismatch session sessionRecord.account participant)
      let record ← engine.requireParticipant participant
      return (participant, record)
  | .room room =>
    .error (.malformed "address"
      ("a room (\"" ++ room.value ++ "\") cannot act as a participant identity"))

def requireReadPermission (record : ParticipantRecord) : Except MailError Unit :=
  if record.mayRead || record.operator then .ok ()
  else .error (.permissionDenied "mail:read")

/-- The recipient of a send exists. -/
def requireRecipient : Address → Except MailError Unit
  | .direct participant => do
    let found ← storeUnavailable "get_participant"
      (MailStore.getParticipant engine.store participant)
    if found.isNone then .error (.unknownParticipant participant)
  | .session participant session => do
    let found ← storeUnavailable "get_session" (MailStore.getSession engine.store session)
    match found with
    | some record =>
      if record.account ≠ participant then
        .error (.sessionAccountMismatch session record.account participant)
    | none => .error (.unknownSession session)
  | .room room => do
    let found ← storeUnavailable "get_room" (MailStore.getRoom engine.store room)
    if found.isNone then .error (.unknownRoom room)

/-- Sending to a room does not need membership. -/
def send (sender : Address) (request : SendRequest) (nowUnixMs : UInt64) (nonce : Bytes) :
    Except MailError (SendResponse × MailboxEngine S) := do
  request.validate
  let (_, senderRecord) ← engine.resolveIdentity sender
  if !senderRecord.maySend then .error (.permissionDenied "mail:send")
  engine.requireRecipient request.to
  let idempotency := request.idempotencyKey.map fun key => IdempotencyKey.mk sender key
  let messageId := deriveMessageId sha sender request nowUnixMs nonce
  let message : Message := {
    messageId
    «from» := sender
    «to» := request.to
    subject := request.subject
    body := request.body
    replyTo := request.replyTo
    correlation := request.correlation
    refs := request.refs
    createdAtUnixMs := nowUnixMs }
  message.validate
  let (outcome, store) ← storeUnavailable "insert_message"
    (MailStore.insertMessage engine.store message idempotency)
  let messageId := match outcome with
    | .inserted => messageId
    | .deduplicated existing => existing
  return (⟨messageId, sender⟩, ⟨store⟩)

/-- An operator may read what it names; others read what is addressed to them. -/
def isReadable (message : Message) (reader : Address) (account : ParticipantId)
    (record : ParticipantRecord) : Except MailError Bool := do
  if record.operator then return true
  match message.to with
  | .direct participant => return participant = account
  | .session _ _ => return reader = message.to
  | .room room =>
    let roomRecord ← storeUnavailable "get_room" (MailStore.getRoom engine.store room)
    return roomRecord.any fun roomRecord => roomRecord.members.contains account

/-- Mail to the identity itself, to its account if it is a session, and to the account's rooms. -/
def ownMessages (identity : Address) (account : ParticipantId) (sinceUnixMs : UInt64) :
    Except MailError (List Message) := do
  let messages ← storeUnavailable "messages_to_since"
    (MailStore.messagesToSince engine.store identity sinceUnixMs)
  let accountMessages ← match identity with
    | .session _ _ =>
      storeUnavailable "messages_to_since"
        (MailStore.messagesToSince engine.store (.direct account) sinceUnixMs)
    | _ => .ok []
  let rooms ← storeUnavailable "rooms_containing" (MailStore.roomsContaining engine.store account)
  let roomMessages ← rooms.mapM fun room => storeUnavailable "room_messages_since"
    (MailStore.roomMessagesSince engine.store room sinceUnixMs)
  return messages ++ accountMessages ++ roomMessages.flatten

/-- What the identity did not write and has not acknowledged. -/
def countUnread (identity : Address) (account : ParticipantId) : Except MailError UInt32 := do
  let messages ← engine.ownMessages identity account 0
  messages.foldlM (fun unread message => do
    if message.«from» = identity then return unread
    let ack ← storeUnavailable "get_ack"
      (MailStore.getAck engine.store message.messageId identity)
    return if ack.isNone then unread + 1 else unread) 0

def buildInbox (identity : Address) (account : ParticipantId) (sinceUnixMs : UInt64)
    (limit : UInt16) : Except MailError InboxPage := do
  let messages ← engine.ownMessages identity account sinceUnixMs
  let unread ← engine.countUnread identity account
  return ⟨Page.select Message.order limit.toNat messages, unread⟩

def inbox (reader : Address) (sinceUnixMs : UInt64) (limit : UInt16) :
    Except MailError InboxPage := do
  let (account, record) ← engine.resolveIdentity reader
  requireReadPermission record
  engine.buildInbox reader account sinceUnixMs limit

/-- A caller that names another address must be an operator. -/
def resolveTarget (caller target : Address) : Except MailError ParticipantId := do
  let (_, callerRecord) ← engine.resolveIdentity caller
  if caller ≠ target ∧ !callerRecord.operator then .error (.permissionDenied "mail:operator")
  let (targetAccount, targetRecord) ← engine.resolveIdentity target
  if caller = target then requireReadPermission targetRecord
  return targetAccount

def inboxOf (caller target : Address) (sinceUnixMs : UInt64) (limit : UInt16) :
    Except MailError InboxPage := do
  let account ← engine.resolveTarget caller target
  engine.buildInbox target account sinceUnixMs limit

def unreadCountOf (caller target : Address) : Except MailError UnreadCount := do
  let account ← engine.resolveTarget caller target
  let unread ← engine.countUnread target account
  return ⟨target, unread⟩

def messageGet (reader : Address) (messageId : MessageId) : Except MailError Message := do
  let (account, record) ← engine.resolveIdentity reader
  requireReadPermission record
  let found ← storeUnavailable "get_message" (MailStore.getMessage engine.store messageId)
  match found with
  | none => .error (.unknownMessage messageId)
  | some message =>
    let readable ← engine.isReadable message reader account record
    if !readable then .error (.notAddressedToYou messageId)
    return message

/-- A second acknowledgement returns the first. -/
def ack (reader : Address) (messageId : MessageId) (nowUnixMs : UInt64) :
    Except MailError (Ack × MailboxEngine S) := do
  let _ ← engine.messageGet reader messageId
  let ack : Ack := ⟨messageId, reader, nowUnixMs⟩
  ack.validate
  let (ack, store) ← storeUnavailable "record_ack" (MailStore.recordAck engine.store ack)
  return (ack, ⟨store⟩)

end MailboxEngine

end Mailbox
