import Mail4Agent.Mailbox.ReadPaths

/-!
# The mailbox in SQLite

`SqliteMailStore` is the store of the daemon: one table for each kind of thing, with the primary
keys and the unique index the schema declares. Identifiers in rows were validated when they were
written. Readers and senders of acknowledgements and repeated sends are stored as texts, and times
are signed.

A row of a repeated send is never changed. Inserting a message writes its row before the key of the
send is looked up, so a repetition finds its key only if its own identifier is free
(`repeatsOriginal_iff`).
-/

namespace Mailbox

structure IdempotencyRow where
  sender : String
  idempotencyKey : String
  messageId : MessageId
deriving DecidableEq

structure AckRow where
  messageId : MessageId
  reader : String
  ackedAtUnixMs : UInt64
deriving DecidableEq

structure SqliteMailStore where
  participants : BTreeMap ParticipantId ParticipantRecord
  rooms : BTreeMap RoomId UInt64
  roomMembers : List (RoomId × ParticipantId)
  messages : BTreeMap MessageId Message
  acks : List AckRow
  idempotency : List IdempotencyRow
  sessions : BTreeMap SessionId SessionRecord

namespace SqliteMailStore

variable (s : SqliteMailStore)

def new : SqliteMailStore := ⟨∅, ∅, [], ∅, [], [], ∅⟩

/-! ### The operations -/

def uniqueFailed (operation columns : String) : StoreError :=
  ⟨operation ++ ": UNIQUE constraint failed: " ++ columns⟩

/-- The first number that is no `i64`. -/
def i64Limit : Nat := 2 ^ 63

/-- A time is stored as an `i64`. -/
def storedTime (operation field : String) (unixMs : UInt64) : Except StoreError Unit :=
  if unixMs.toNat < i64Limit then .ok () else .error
    ⟨operation ++ ": " ++ field ++ " overflows i64"⟩

def registerParticipant (id : ParticipantId) (record : ParticipantRecord) :
    Except StoreError SqliteMailStore :=
  let operation := "register_participant(" ++ id.value ++ ")"
  if s.participants.contains id then .error (uniqueFailed operation "participants.id")
  else if s.participants.toList.any fun row => row.2.secretDigest = record.secretDigest then
    .error (uniqueFailed operation "participants.secret_digest")
  else .ok { s with participants := s.participants.insert id record }

def setParticipantSecretDigest (id : ParticipantId) (digest : SecretDigest) :
    Except StoreError SqliteMailStore :=
  match s.participants[id]? with
  | none => .ok s
  | some record =>
    if s.participants.toList.any fun row => row.1 ≠ id && row.2.secretDigest = digest then
      .error (uniqueFailed ("set_participant_secret_digest(" ++ id.value ++ ")")
        "participants.secret_digest")
    else
      .ok { s with participants := s.participants.insert id { record with secretDigest := digest } }

def setListenerUrl (id : ParticipantId) (url : Option String) : SqliteMailStore :=
  match s.participants[id]? with
  | some record =>
    { s with participants := s.participants.insert id { record with listenerUrl := url } }
  | none => s

def createRoom (id : RoomId) (createdAtUnixMs : UInt64) : Except StoreError SqliteMailStore := do
  let operation := "create_room(" ++ id.value ++ ")"
  storedTime operation "created_at_unix_ms" createdAtUnixMs
  if s.rooms.contains id then .error (uniqueFailed operation "rooms.id")
  return { s with rooms := s.rooms.insert id createdAtUnixMs }

/-- The room is a foreign key. -/
def addRoomMember (room : RoomId) (participant : ParticipantId) :
    Except StoreError SqliteMailStore :=
  if !s.rooms.contains room then
    .error ⟨"add_room_member(" ++ room.value ++ ", " ++ participant.value ++
      "): FOREIGN KEY constraint failed"⟩
  else if (room, participant) ∈ s.roomMembers then .ok s
  else .ok { s with roomMembers := s.roomMembers ++ [(room, participant)] }

def members (room : RoomId) : BTreeSet ParticipantId :=
  .ofList ((s.roomMembers.filter (·.1 = room)).map Prod.snd)

def getRoom (id : RoomId) : Option RoomRecord :=
  s.rooms[id]?.map fun createdAtUnixMs => ⟨createdAtUnixMs, s.members id⟩

/-- The message of an earlier send with this key. -/
def sentBefore (key : IdempotencyKey) : Option MessageId :=
  (s.idempotency.find? fun row =>
    row.sender = key.sender.display && row.idempotencyKey = key.key).map (·.messageId)

/-- One transaction: the row of the message, then that of the key. If the key is taken the
transaction is rolled back. -/
def insertMessage (message : Message) (idempotency : Option IdempotencyKey) :
    Except StoreError (InsertMessageOutcome × SqliteMailStore) := do
  let operation := "insert_message(" ++ message.messageId.value ++ ")"
  match message.«from» with
  | .room id =>
    .error ⟨operation ++ ": a message's `from` must not be a room address (got \"" ++ id.value ++
      "\")"⟩
  | _ =>
    storedTime operation "created_at_unix_ms" message.createdAtUnixMs
    if s.messages.contains message.messageId then
      .error (uniqueFailed operation "messages.message_id")
    match idempotency with
    | none =>
      return (.inserted, { s with messages := s.messages.insert message.messageId message })
    | some key =>
      match s.sentBefore key with
      | some existing => return (.deduplicated existing, s)
      | none =>
        return (.inserted, { s with
          messages := s.messages.insert message.messageId message
          idempotency := s.idempotency ++ [⟨key.sender.display, key.key, message.messageId⟩] })

/-- The rows with this recipient, by time. -/
def addressedSince (address : Address) (sinceUnixMs : UInt64) : List Message :=
  ((s.messages.toList.map Prod.snd).filter fun message =>
    sinceUnixMs ≤ message.createdAtUnixMs && message.to = address).mergeSort
      fun a b => a.createdAtUnixMs ≤ b.createdAtUnixMs

def messagesToSince (address : Address) (sinceUnixMs : UInt64) :
    Except StoreError (List Message) := do
  let operation := "messages_to_since(" ++ address.display ++ ")"
  storedTime operation "since_unix_ms" sinceUnixMs
  match address with
  | .room _ => .error ⟨operation ++ ": a room address must use room_messages_since instead"⟩
  | _ => return s.addressedSince address sinceUnixMs

def roomMessagesSince (room : RoomId) (sinceUnixMs : UInt64) :
    Except StoreError (List Message) := do
  storedTime ("room_messages_since(" ++ room.value ++ ")") "since_unix_ms" sinceUnixMs
  return s.addressedSince (.room room) sinceUnixMs

def ackRow (messageId : MessageId) (reader : Address) : Option AckRow :=
  s.acks.find? fun row => row.messageId = messageId && row.reader = reader.display

/-- The row that is there stays. -/
def recordAck (ack : Ack) : Except StoreError (Ack × SqliteMailStore) := do
  storedTime ("record_ack(" ++ ack.messageId.value ++ ", " ++ ack.reader.display ++ ")")
    "acked_at_unix_ms" ack.ackedAtUnixMs
  match s.ackRow ack.messageId ack.reader with
  | some row => return ({ ack with ackedAtUnixMs := row.ackedAtUnixMs }, s)
  | none =>
    return (ack, { s with
      acks := s.acks ++ [⟨ack.messageId, ack.reader.display, ack.ackedAtUnixMs⟩] })

def upsertSession (session : SessionId) (record : SessionRecord) :
    Except StoreError SqliteMailStore := do
  storedTime ("upsert_session(" ++ session.value ++ ")") "last_seen_unix_ms" record.lastSeenUnixMs
  return { s with sessions := s.sessions.insert session record }

instance : MailStore SqliteMailStore where
  registerParticipant := registerParticipant
  deregisterParticipant s id := .ok { s with participants := s.participants.erase id }
  setParticipantSecretDigest := setParticipantSecretDigest
  setListenerUrl s id url := .ok (s.setListenerUrl id url)
  getParticipant s id := .ok s.participants[id]?
  findParticipantByDigest s digest :=
    .ok (s.participants.toList.find? fun row => row.2.secretDigest = digest)
  createRoom := createRoom
  addRoomMember := addRoomMember
  removeRoomMember s room participant :=
    .ok { s with roomMembers := s.roomMembers.filter (· ≠ (room, participant)) }
  getRoom s id := .ok (s.getRoom id)
  insertMessage := insertMessage
  getMessage s id := .ok s.messages[id]?
  messagesToSince := messagesToSince
  roomMessagesSince := roomMessagesSince
  roomsContaining s participant :=
    .ok ((s.roomMembers.filter (·.2 = participant)).map Prod.fst)
  recordAck := recordAck
  getAck s messageId reader :=
    .ok ((s.ackRow messageId reader).map fun row => ⟨messageId, reader, row.ackedAtUnixMs⟩)
  listParticipants s := .ok (s.participants.toList.map fun row => ⟨row.1, row.2.label⟩)
  listRooms s := .ok (s.rooms.toList.map fun row => ⟨row.1, s.members row.1⟩)
  getSession s session := .ok s.sessions[session]?
  upsertSession := upsertSession
  sessionsOf s account := .ok (s.sessions.toList.filter fun row => row.2.account = account)

end SqliteMailStore

/-! ### Rows stay -/

namespace SqliteMailStore

variable {s s' : SqliteMailStore}

/-- What an insert does: the row and the key are new, or the key was there and nothing changes. -/
theorem insertMessage_eq_ok {message : Message} {idempotency : Option IdempotencyKey}
    {outcome : InsertMessageOutcome} :
    s.insertMessage message idempotency = .ok (outcome, s') ↔
      message.«from».account.isSome ∧ message.createdAtUnixMs.toNat < i64Limit ∧
        s.messages[message.messageId]? = none ∧
        match idempotency.bind s.sentBefore with
        | some existing => outcome = .deduplicated existing ∧ s' = s
        | none => outcome = .inserted ∧ s' = { s with
            messages := s.messages.insert message.messageId message
            idempotency := s.idempotency ++
              idempotency.toList.map fun key =>
                ⟨key.sender.display, key.key, message.messageId⟩ } := by
  have hfree : s.messages.contains message.messageId = true ↔
      ¬ s.messages[message.messageId]? = none := by
    rw [Std.ExtTreeMap.contains_eq_isSome_getElem?, Option.isSome_iff_ne_none]
  unfold insertMessage storedTime
  cases hfrom : message.«from» with
  | room => simp [Address.account]
  | _ =>
    by_cases htime : message.createdAtUnixMs.toNat < i64Limit
    · by_cases hold : s.messages[message.messageId]? = none
      · cases idempotency with
        | none =>
          simp [htime, hold, hfree, Address.account, pure, Except.pure, eq_comm (a := outcome),
            eq_comm (a := s')]
        | some key =>
          cases hkey : s.sentBefore key <;>
            simp [htime, hold, hfree, hkey, Address.account, pure, Except.pure,
              eq_comm (a := outcome), eq_comm (a := s')]
      · simp [htime, hold, hfree]
    · simp [htime]

/-- Messages stay as they are, and so do the keys of repeated sends and the rooms. A session stays
with its account. -/
structure Keeps (s s' : SqliteMailStore) : Prop where
  messages {id : MessageId} {message : Message} :
    s.messages[id]? = some message → s'.messages[id]? = some message
  idempotency : s.idempotency <+: s'.idempotency
  rooms {id : RoomId} {createdAtUnixMs : UInt64} :
    s.rooms[id]? = some createdAtUnixMs → s'.rooms[id]? = some createdAtUnixMs
  sessions {id : SessionId} {record : SessionRecord} : s.sessions[id]? = some record →
    ∃ record', s'.sessions[id]? = some record' ∧ record'.account = record.account

theorem Keeps.of_eq (hmessages : s'.messages = s.messages)
    (hidempotency : s'.idempotency = s.idempotency) (hrooms : s'.rooms = s.rooms)
    (hsessions : s'.sessions = s.sessions) : s.Keeps s' :=
  ⟨by simp [hmessages], by simp [hidempotency], by simp [hrooms],
    fun h => ⟨_, hsessions ▸ h, rfl⟩⟩

theorem Keeps.refl : s.Keeps s := .of_eq rfl rfl rfl rfl

theorem Keeps.trans {s'' : SqliteMailStore} (first : s.Keeps s') (second : s'.Keeps s'') :
    s.Keeps s'' :=
  ⟨fun h => second.messages (first.messages h), first.idempotency.trans second.idempotency,
    fun h => second.rooms (first.rooms h), fun h => by
      obtain ⟨record', hfirst, haccount⟩ := first.sessions h
      obtain ⟨record'', hsecond, haccount'⟩ := second.sessions hfirst
      exact ⟨record'', hsecond, haccount'.trans haccount⟩⟩

theorem Keeps.sentBefore (h : s.Keeps s') {key : IdempotencyKey} {id : MessageId}
    (hkey : s.sentBefore key = some id) : s'.sentBefore key = some id := by
  obtain ⟨rows, hrows⟩ := h.idempotency
  obtain ⟨row, hrow, hid⟩ := Option.map_eq_some_iff.1 hkey
  rw [SqliteMailStore.sentBefore, ← hrows, List.find?_append, hrow, Option.some_or, Option.map_some,
    hid]

theorem Keeps.insertMessage {message : Message} {key : Option IdempotencyKey}
    {outcome : InsertMessageOutcome} (h : s.insertMessage message key = .ok (outcome, s')) :
    s.Keeps s' := by
  obtain ⟨-, -, hfree, h⟩ := insertMessage_eq_ok.1 h
  split at h
  · rw [h.2]
    exact .refl
  · rw [h.2]
    refine ⟨fun {id stored} hstored => ?_, List.prefix_append _ _, fun h => h, fun h => ⟨_, h, rfl⟩⟩
    rw [getElem?_insert_ite]
    split_ifs with hid
    · simp [hid, hfree] at hstored
    · exact hstored

/-- A mutation changes one table. -/
structure Leaves (table : Table) (s s' : SqliteMailStore) : Prop where
  messages : table ≠ .messages → s'.messages = s.messages
  idempotency : table ≠ .messages → s'.idempotency = s.idempotency
  rooms : table ≠ .rooms → s'.rooms = s.rooms
  roomMembers : table ≠ .members → s'.roomMembers = s.roomMembers
  sessions : table ≠ .sessions → s'.sessions = s.sessions

theorem Leaves.mutation {table : Table} (h : Mutation s s' table) : Leaves table s s' := by
  cases h with
  | registered id record h =>
    simp only [MailStore.registerParticipant, registerParticipant] at h
    split_ifs at h
    cases h
    constructor <;> exact fun _ => rfl
  | rotated id digest h =>
    simp only [MailStore.setParticipantSecretDigest, setParticipantSecretDigest] at h
    split at h
    · cases h
      constructor <;> exact fun _ => rfl
    · split_ifs at h
      cases h
      constructor <;> exact fun _ => rfl
  | listening id url h =>
    cases h
    unfold setListenerUrl
    split <;> constructor <;> exact fun _ => rfl
  | roomCreated id nowUnixMs h =>
    obtain ⟨-, -, h⟩ := bind_eq_ok_iff.1 h
    simp only [error_bind] at h
    split_ifs at h
    cases h
    constructor <;> simp
  | memberAdded room participant h =>
    simp only [MailStore.addRoomMember, addRoomMember] at h
    split_ifs at h <;> cases h <;> constructor <;> simp
  | sessionSaved session record hkept h =>
    obtain ⟨-, -, h⟩ := bind_eq_ok_iff.1 h
    cases h
    constructor <;> simp
  | sent message key outcome h =>
    obtain ⟨-, -, -, h⟩ := insertMessage_eq_ok.1 h
    split at h <;> rw [h.2] <;> constructor <;> simp
  | acked ack kept h =>
    obtain ⟨-, -, h⟩ := bind_eq_ok_iff.1 h
    split at h <;> cases h <;> constructor <;> exact fun _ => rfl
  | deregistered id h =>
    cases h
    constructor <;> exact fun _ => rfl
  | memberRemoved room participant h =>
    cases h
    constructor <;> simp

/-- Rows of the other tables are only added, and a session is only saved for its account. -/
theorem Keeps.mutation {table : Table} (h : Mutation s s' table) : s.Keeps s' := by
  have leaves := Leaves.mutation h
  cases h with
  | sent message key outcome h => exact .insertMessage h
  | roomCreated id nowUnixMs h =>
    obtain ⟨-, -, h⟩ := bind_eq_ok_iff.1 h
    simp only [error_bind] at h
    split_ifs at h with hfree
    cases h
    refine ⟨fun h => h, List.prefix_refl _, fun {room createdAtUnixMs} hroom => ?_,
      fun h => ⟨_, h, rfl⟩⟩
    rw [getElem?_insert_ite]
    split_ifs with hsame
    · rw [Std.ExtTreeMap.contains_eq_isSome_getElem?, ← hsame, hroom] at hfree
      exact absurd rfl hfree
    · exact hroom
  | sessionSaved session record hkept h =>
    obtain ⟨-, -, h⟩ := bind_eq_ok_iff.1 h
    cases h
    refine ⟨fun h => h, List.prefix_refl _, fun h => h, fun {saved old} hold => ?_⟩
    rw [getElem?_insert_ite]
    split_ifs with hsaved
    · exact ⟨record, rfl, (hkept old (by rw [← hsaved, ← hold]; rfl)).symm⟩
    · exact ⟨old, hold, rfl⟩
  | _ =>
    exact .of_eq (leaves.messages nofun) (leaves.idempotency nofun) (leaves.rooms nofun)
      (leaves.sessions nofun)

end SqliteMailStore

namespace MailboxEngine

variable {sha : Sha256} {engine next : MailboxEngine SqliteMailStore}

theorem step_keeps (engine : MailboxEngine SqliteMailStore) (step : MailStep) :
    engine.store.Keeps (engine.step sha step).store := by
  rw [MailboxEngine.step]
  cases h : engine.perform sha step with
  | error => exact .refl
  | ok next => exact .mutation (perform_mutation h)

theorem run_keeps (steps : List MailStep) :
    engine.store.Keeps (Trace.run (step sha) engine steps).store :=
  Trace.run_invariant (fun later => engine.store.Keeps later.store)
    (fun later step h => h.trans (step_keeps later step)) (.refl) steps

/-! ### Repeated sends -/

/-- What a send is asked before its message reaches the store. -/
structure Admits (sha : Sha256) (engine : MailboxEngine SqliteMailStore) (sender : Address)
    (request : SendRequest) (nowUnixMs : UInt64) (nonce : Bytes) : Prop where
  validRequest : request.validate = .ok ()
  maySend : ∃ account record, engine.resolveIdentity sender = .ok (account, record) ∧
    record.maySend = true
  recipient : engine.requireRecipient request.to = .ok ()
  validMessage : (sentMessage sha sender request nowUnixMs nonce).validate = .ok ()
  storedTime : nowUnixMs.toNat < SqliteMailStore.i64Limit

/-- The identifier a send answers with. -/
def answered (outcome : InsertMessageOutcome) (messageId : MessageId) : MessageId :=
  match outcome with
  | .inserted => messageId
  | .deduplicated existing => existing

variable {sender : Address} {request : SendRequest} {nowUnixMs : UInt64} {nonce : Bytes}

theorem send_eq_ok {response : SendResponse} :
    engine.send sha sender request nowUnixMs nonce = .ok (response, next) ↔
      engine.Admits sha sender request nowUnixMs nonce ∧ ∃ outcome,
        engine.store.insertMessage (sentMessage sha sender request nowUnixMs nonce)
          (request.idempotencyKey.map fun key => ⟨sender, key⟩) = .ok (outcome, next.store) ∧
        response = ⟨answered outcome (deriveMessageId sha sender request nowUnixMs nonce),
          sender⟩ := by
  constructor
  · intro h
    obtain ⟨⟨⟩, hrequest, h⟩ := bind_eq_ok_iff.1 h
    obtain ⟨⟨account, record⟩, hsender, h⟩ := bind_eq_ok_iff.1 h
    simp only [error_bind] at h
    split_ifs at h with hmay
    obtain ⟨⟨⟩, hrecipient, h⟩ := bind_eq_ok_iff.1 h
    obtain ⟨⟨⟩, hvalid, h⟩ := bind_eq_ok_iff.1 h
    obtain ⟨⟨outcome, store⟩, hstore, hnext⟩ := exists_store h
    cases hnext
    have htime := (SqliteMailStore.insertMessage_eq_ok.1 hstore).2.1
    exact ⟨⟨hrequest, ⟨account, record, hsender, by simpa using hmay⟩, hrecipient, hvalid, htime⟩,
      outcome, hstore, rfl⟩
  · rintro ⟨⟨hrequest, ⟨account, record, hsender, hmay⟩, hrecipient, hvalid, -⟩, outcome, hstore,
      rfl⟩
    simp only [send, hrequest, hsender, hmay, hrecipient, ok_bind, Bool.not_true,
      Bool.false_eq_true, if_false]
    have hinsert : storeUnavailable "insert_message" (MailStore.insertMessage engine.store
        (sentMessage sha sender request nowUnixMs nonce)
        (request.idempotencyKey.map fun key => ⟨sender, key⟩)) = .ok (outcome, next.store) :=
      storeUnavailable_eq_ok.2 hstore
    simp only [sentMessage] at hvalid hinsert
    rw [hvalid, ok_bind, hinsert]
    rfl

/-- The send is answered with the identifier of the original and adds no message. -/
def RepeatsOriginal (sha : Sha256) (engine : MailboxEngine SqliteMailStore) (sender : Address)
    (request : SendRequest) (nowUnixMs : UInt64) (nonce : Bytes) (original : MessageId) : Prop :=
  ∃ next, engine.send sha sender request nowUnixMs nonce = .ok (⟨original, sender⟩, next) ∧
    next.store.messages = engine.store.messages

/-- The key of a send leads to the message it was answered with. -/
theorem sentBefore_of_send {response : SendResponse} {key : String}
    (h : engine.send sha sender request nowUnixMs nonce = .ok (response, next))
    (hkey : request.idempotencyKey = some key) :
    next.store.sentBefore ⟨sender, key⟩ = some response.messageId := by
  obtain ⟨-, outcome, hinsert, rfl⟩ := send_eq_ok.1 h
  rw [hkey, Option.map_some, SqliteMailStore.insertMessage_eq_ok, Option.bind_some] at hinsert
  obtain ⟨-, -, -, hstored⟩ := hinsert
  cases hbefore : engine.store.sentBefore ⟨sender, key⟩ with
  | some existing =>
    rw [hbefore] at hstored
    rw [hstored.2, hstored.1, hbefore, answered]
  | none =>
    rw [hbefore] at hstored
    have hnone : engine.store.idempotency.find? (fun row =>
        row.sender = sender.display && row.idempotencyKey = key) = none :=
      Option.map_eq_none_iff.1 hbefore
    rw [hstored.2, hstored.1, SqliteMailStore.sentBefore, List.find?_append, hnone]
    simp [sentMessage, answered]

/-- After a first send with a key and any operations, a send with the same key is answered with the
first message exactly if it is admitted and no message has the identifier derived for it. -/
theorem repeatsOriginal_iff {first again : SendRequest} {response : SendResponse} {key : String}
    {firstMs againMs : UInt64} {firstNonce againNonce : Bytes}
    (hfirst : engine.send sha sender first firstMs firstNonce = .ok (response, next))
    (hkey : first.idempotencyKey = some key) (hagain : again.idempotencyKey = some key)
    (steps : List MailStep) :
    (Trace.run (step sha) next steps).RepeatsOriginal sha sender again againMs againNonce
        response.messageId ↔
      (Trace.run (step sha) next steps).Admits sha sender again againMs againNonce ∧
        (Trace.run (step sha) next steps).store.messages[
          deriveMessageId sha sender again againMs againNonce]? = none := by
  have hkeeps : next.store.Keeps (Trace.run (step sha) next steps).store := run_keeps steps
  have hbefore := hkeeps.sentBefore (sentBefore_of_send hfirst hkey)
  generalize Trace.run (step sha) next steps = later at hbefore ⊢
  constructor
  · rintro ⟨last, hsend, -⟩
    obtain ⟨hadmits, outcome, hinsert, -⟩ := send_eq_ok.1 hsend
    exact ⟨hadmits, (SqliteMailStore.insertMessage_eq_ok.1 hinsert).2.2.1⟩
  · rintro ⟨hadmits, hfree⟩
    obtain ⟨account, record, hsender, -⟩ := hadmits.maySend
    refine ⟨later, send_eq_ok.2 ⟨hadmits, .deduplicated response.messageId, ?_, rfl⟩, rfl⟩
    rw [hagain, Option.map_some, SqliteMailStore.insertMessage_eq_ok, Option.bind_some, hbefore]
    refine ⟨?_, hadmits.storedTime, hfree, rfl, rfl⟩
    simp [sentMessage, account_of_resolveIdentity hsender]

/-! Alice writes to Bob twice with the same key. -/

/-- The last bytes of the data, from its end. -/
def trailingBytes : Sha256 where
  hash data := (data.reverse ++ List.replicate 32 0).take 32
  length_hash data := by simp

def keyedMail : SendRequest := ⟨.direct bob, "hi", "hello", none, none, [], some "k"⟩

def aliceAndBob : MailboxEngine SqliteMailStore :=
  Trace.run (step trailingBytes) ⟨.new⟩ [
    .registerParticipant alice none { maySend := true } "secret-a",
    .registerParticipant bob none { mayRead := true } "secret-b"]

/-- In the same millisecond the second send is refused: the row of the message is there. -/
theorem not_repeatsOriginal_sameMillisecond : ∃ response sent,
    aliceAndBob.send trailingBytes (.direct alice) keyedMail 7 [] = .ok (response, sent) ∧
      ¬ sent.RepeatsOriginal trailingBytes (.direct alice) keyedMail 7 [] response.messageId := by
  have hagain : (aliceAndBob.send trailingBytes (.direct alice) keyedMail 7 []).map (fun sent =>
      (sent.2.send trailingBytes (.direct alice) keyedMail 7 []).map Prod.fst) =
        .ok (.error (.storeUnavailable "insert_message")) := by decide +kernel
  obtain ⟨⟨response, sent⟩, hfirst, hagain⟩ := map_eq_ok_iff.1 hagain
  refine ⟨response, sent, hfirst, fun ⟨next, hsend, _⟩ => ?_⟩
  simp [hsend, Except.map] at hagain

/-- A millisecond later it is answered with the first message. -/
theorem repeatsOriginal_iff_laterMillisecond : ∃ response sent,
    aliceAndBob.send trailingBytes (.direct alice) keyedMail 7 [] = .ok (response, sent) ∧
      sent.RepeatsOriginal trailingBytes (.direct alice) keyedMail 8 [] response.messageId := by
  have hfacts : (aliceAndBob.send trailingBytes (.direct alice) keyedMail 7 []).map (fun sent =>
      ((sent.2.resolveIdentity (.direct alice)).map fun found => found.2.maySend,
        sent.2.requireRecipient keyedMail.to, sent.2.store.messages[
          deriveMessageId trailingBytes (.direct alice) keyedMail 8 []]?)) =
      .ok (.ok true, .ok (), none) := by decide +kernel
  obtain ⟨⟨response, sent⟩, hfirst, hfacts⟩ := map_eq_ok_iff.1 hfacts
  simp only [Prod.mk.injEq] at hfacts
  obtain ⟨⟨account, record⟩, hsender, hmay⟩ := map_eq_ok_iff.1 hfacts.1
  refine ⟨response, sent, hfirst, (repeatsOriginal_iff hfirst rfl rfl []).2 ⟨?_, hfacts.2.2⟩⟩
  exact ⟨by decide +kernel, ⟨account, record, hsender, hmay⟩, hfacts.2.1, by decide +kernel,
    by decide⟩

end MailboxEngine

end Mailbox
