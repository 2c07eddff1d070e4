import Mail4Agent.Mailbox.Api

/-!
# The mailbox's storage boundary

`MailStore` is what the mailbox engine asks of a store: one operation for each of its mutations,
and reads fine enough to be single queries. Every operation may fail. `InMemoryStore` keeps
everything in maps and never fails. Its maps have no order of their own in the source; here they
are read in the order of their keys, and no result is stated about the order of a listing.
-/

namespace Mailbox

/-- A SHA-256 digest. -/
abbrev SecretDigest := Bytes

structure StoreError where
  message : String
deriving DecidableEq, Repr

structure ParticipantRecord where
  label : Option String
  secretDigest : SecretDigest
  maySend : Bool
  mayRead : Bool
  operator : Bool
  listenerUrl : Option String
deriving DecidableEq

structure RoomRecord where
  createdAtUnixMs : UInt64
  members : BTreeSet ParticipantId

structure ParticipantSummary where
  id : ParticipantId
  label : Option String
deriving DecidableEq

structure RoomSummary where
  id : RoomId
  members : BTreeSet ParticipantId

structure SessionRecord where
  account : ParticipantId
  card : SessionCard
  lastSeenUnixMs : UInt64
deriving DecidableEq

inductive InsertMessageOutcome where
  | inserted
  | deduplicated (messageId : MessageId)
deriving DecidableEq

/-- The sender and the key of a send that may be repeated. -/
structure IdempotencyKey where
  sender : Address
  key : String
deriving DecidableEq

structure AckKey where
  messageId : MessageId
  reader : Address
deriving DecidableEq

instance : Ord IdempotencyKey :=
  ⟨compareLex (compareOn IdempotencyKey.sender) (compareOn IdempotencyKey.key)⟩
instance : Std.TransOrd IdempotencyKey :=
  inferInstanceAs (Std.TransCmp
    (compareLex (compareOn IdempotencyKey.sender) (compareOn IdempotencyKey.key)))

instance : Ord AckKey := ⟨compareLex (compareOn AckKey.messageId) (compareOn AckKey.reader)⟩
instance : Std.TransOrd AckKey :=
  inferInstanceAs (Std.TransCmp
    (compareLex (compareOn AckKey.messageId) (compareOn AckKey.reader)))

/-! ### The boundary -/

class MailStore (S : Type) where
  registerParticipant : S → ParticipantId → ParticipantRecord → Except StoreError S
  deregisterParticipant : S → ParticipantId → Except StoreError S
  setParticipantSecretDigest : S → ParticipantId → SecretDigest → Except StoreError S
  setListenerUrl : S → ParticipantId → Option String → Except StoreError S
  getParticipant : S → ParticipantId → Except StoreError (Option ParticipantRecord)
  findParticipantByDigest :
    S → SecretDigest → Except StoreError (Option (ParticipantId × ParticipantRecord))
  createRoom : S → RoomId → UInt64 → Except StoreError S
  addRoomMember : S → RoomId → ParticipantId → Except StoreError S
  removeRoomMember : S → RoomId → ParticipantId → Except StoreError S
  getRoom : S → RoomId → Except StoreError (Option RoomRecord)
  insertMessage :
    S → Message → Option IdempotencyKey → Except StoreError (InsertMessageOutcome × S)
  getMessage : S → MessageId → Except StoreError (Option Message)
  messagesToSince : S → Address → UInt64 → Except StoreError (List Message)
  roomMessagesSince : S → RoomId → UInt64 → Except StoreError (List Message)
  roomsContaining : S → ParticipantId → Except StoreError (List RoomId)
  recordAck : S → Ack → Except StoreError (Ack × S)
  getAck : S → MessageId → Address → Except StoreError (Option Ack)
  listParticipants : S → Except StoreError (List ParticipantSummary)
  listRooms : S → Except StoreError (List RoomSummary)
  getSession : S → SessionId → Except StoreError (Option SessionRecord)
  upsertSession : S → SessionId → SessionRecord → Except StoreError S
  sessionsOf : S → ParticipantId → Except StoreError (List (SessionId × SessionRecord))

/-! ### The store in memory -/

structure InMemoryStore where
  participants : BTreeMap ParticipantId ParticipantRecord
  digestIndex : BTreeMap SecretDigest ParticipantId
  rooms : BTreeMap RoomId RoomRecord
  messages : BTreeMap MessageId Message
  idempotency : BTreeMap IdempotencyKey MessageId
  acks : BTreeMap AckKey Ack
  sessions : BTreeMap SessionId SessionRecord

namespace InMemoryStore

variable (s : InMemoryStore)

def new : InMemoryStore := ⟨∅, ∅, ∅, ∅, ∅, ∅, ∅⟩

def registerParticipant (id : ParticipantId) (record : ParticipantRecord) : InMemoryStore :=
  { s with
    digestIndex := s.digestIndex.insert record.secretDigest id
    participants := s.participants.insert id record }

def deregisterParticipant (id : ParticipantId) : InMemoryStore :=
  match s.participants[id]? with
  | some record =>
    { s with
      participants := s.participants.erase id
      digestIndex := s.digestIndex.erase record.secretDigest }
  | none => s

def setParticipantSecretDigest (id : ParticipantId) (digest : SecretDigest) : InMemoryStore :=
  match s.participants[id]? with
  | some record =>
    { s with
      participants := s.participants.insert id { record with secretDigest := digest }
      digestIndex := (s.digestIndex.erase record.secretDigest).insert digest id }
  | none => s

def setListenerUrl (id : ParticipantId) (url : Option String) : InMemoryStore :=
  match s.participants[id]? with
  | some record =>
    { s with participants := s.participants.insert id { record with listenerUrl := url } }
  | none => s

def findParticipantByDigest (digest : SecretDigest) : Option (ParticipantId × ParticipantRecord) :=
  match s.digestIndex[digest]? with
  | some id => s.participants[id]?.map fun record => (id, record)
  | none => none

def createRoom (id : RoomId) (createdAtUnixMs : UInt64) : InMemoryStore :=
  { s with rooms := s.rooms.insert id ⟨createdAtUnixMs, ∅⟩ }

def addRoomMember (room : RoomId) (participant : ParticipantId) : InMemoryStore :=
  match s.rooms[room]? with
  | some record =>
    { s with rooms := s.rooms.insert room { record with
      members := record.members.insert participant } }
  | none => s

def removeRoomMember (room : RoomId) (participant : ParticipantId) : InMemoryStore :=
  match s.rooms[room]? with
  | some record =>
    { s with rooms := s.rooms.insert room { record with
      members := record.members.erase participant } }
  | none => s

/-- A repeated key gives the message of its first use. -/
def insertMessage (message : Message) (idempotency : Option IdempotencyKey) :
    InsertMessageOutcome × InMemoryStore :=
  match idempotency.bind (s.idempotency[·]?) with
  | some existing => (.deduplicated existing, s)
  | none =>
    (.inserted, { s with
      messages := s.messages.insert message.messageId message
      idempotency := match idempotency with
        | some key => s.idempotency.insert key message.messageId
        | none => s.idempotency })

def allMessages : List Message := s.messages.toList.map Prod.snd

def messagesToSince (address : Address) (sinceUnixMs : UInt64) : List Message :=
  s.allMessages.filter fun message =>
    sinceUnixMs ≤ message.createdAtUnixMs && message.to = address

def roomMessagesSince (room : RoomId) (sinceUnixMs : UInt64) : List Message :=
  s.allMessages.filter fun message =>
    sinceUnixMs ≤ message.createdAtUnixMs && message.to = .room room

def roomsContaining (participant : ParticipantId) : List RoomId :=
  (s.rooms.toList.filter fun entry => entry.2.members.contains participant).map Prod.fst

/-- The first acknowledgement stays. -/
def recordAck (ack : Ack) : Ack × InMemoryStore :=
  match s.acks[AckKey.mk ack.messageId ack.reader]? with
  | some first => (first, s)
  | none => (ack, { s with acks := s.acks.insert ⟨ack.messageId, ack.reader⟩ ack })

def upsertSession (session : SessionId) (record : SessionRecord) : InMemoryStore :=
  { s with sessions := s.sessions.insert session record }

def sessionsOf (account : ParticipantId) : List (SessionId × SessionRecord) :=
  s.sessions.toList.filter fun entry => entry.2.account = account

instance : MailStore InMemoryStore where
  registerParticipant s id record := .ok (s.registerParticipant id record)
  deregisterParticipant s id := .ok (s.deregisterParticipant id)
  setParticipantSecretDigest s id digest := .ok (s.setParticipantSecretDigest id digest)
  setListenerUrl s id url := .ok (s.setListenerUrl id url)
  getParticipant s id := .ok s.participants[id]?
  findParticipantByDigest s digest := .ok (s.findParticipantByDigest digest)
  createRoom s id createdAtUnixMs := .ok (s.createRoom id createdAtUnixMs)
  addRoomMember s room participant := .ok (s.addRoomMember room participant)
  removeRoomMember s room participant := .ok (s.removeRoomMember room participant)
  getRoom s id := .ok s.rooms[id]?
  insertMessage s message idempotency := .ok (s.insertMessage message idempotency)
  getMessage s id := .ok s.messages[id]?
  messagesToSince s address sinceUnixMs := .ok (s.messagesToSince address sinceUnixMs)
  roomMessagesSince s room sinceUnixMs := .ok (s.roomMessagesSince room sinceUnixMs)
  roomsContaining s participant := .ok (s.roomsContaining participant)
  recordAck s ack := .ok (s.recordAck ack)
  getAck s messageId reader := .ok s.acks[AckKey.mk messageId reader]?
  listParticipants s :=
    .ok (s.participants.toList.map fun entry => ⟨entry.1, entry.2.label⟩)
  listRooms s := .ok (s.rooms.toList.map fun entry => ⟨entry.1, entry.2.members⟩)
  getSession s session := .ok s.sessions[session]?
  upsertSession s session record := .ok (s.upsertSession session record)
  sessionsOf s account := .ok (s.sessionsOf account)

end InMemoryStore

end Mailbox
