import Mail4Agent.Messenger.GateHistory

/-!
# The working-set store

The store is the single in-memory owner of everything a device persists. Every
mutation updates the working set and marks the sealed record of the touched key
on the store's flush gate; a key is built from the record's kind and its
percent-encoded components under the device's own lead. Loading reads the records
back: keys of an unknown kind are kept verbatim and marked dirty again, keys of a
known kind with a malformed rest are refused.

The JSON library and the sealing codec are parameters of the store: `Serde` holds
the renderings of the three record kinds the store keeps as typed values, and
`RecordCodec` the sealing. Rendering these types cannot fail.
-/

namespace Messenger

/-- Which ordering class a pending request belongs to. -/
inductive Lane where
  | sync
  | toDevice
  | room (roomId : RoomId)
  | accountData
  | other
deriving DecidableEq, Repr

/-- A request tracked by the outgoing queue. -/
structure PendingRequest where
  request : OutgoingRequest
  lane : Lane
  requiredSeq : RequiredSeq
deriving Repr

/-- The next request and transaction seeds this device has never handed out. -/
structure Counters where
  nextRequestId : Nat
  nextTxnId : Nat
deriving DecidableEq, Repr

inductive StoreError where
  | decode (key : RecordKey) (reason : String)
  | codecOpen (key : RecordKey)
  | unknownRecordLayout (key : RecordKey)
deriving DecidableEq, Repr

/-- Turns a record's plaintext into bytes safe to hand a shell, and back. -/
structure RecordCodec where
  sealRecord : RecordKey → Bytes → Bytes
  openRecord : RecordKey → Bytes → Option Bytes

/-- The codec of the crate's own tests: sealing is the identity. -/
def insecurePlainCodecForTests : RecordCodec := ⟨fun _ plaintext => plaintext, fun _ => some⟩

/-- The JSON renderings of typed records; reading reports the library's message. -/
structure Serde where
  writeOrder : List String → Bytes
  readOrder : Bytes → Except String (List String)
  writePending : PendingRequest → Bytes
  readPending : Bytes → Except String PendingRequest
  writeCounters : Counters → Bytes
  readCounters : Bytes → Except String Counters

/-- The request is read back as it was written; numbers with a fraction may not be. -/
def Serde.Keeps (serde : Serde) (req : PendingRequest) : Prop :=
  serde.readPending (serde.writePending req) = .ok req

/-- How many Olm sessions are kept for one peer key. -/
def maxOlmSessionsPerDevice : Nat := 10

def kindAccount : String := "account"
def kindOlmSession : String := "olm_session"
def kindOlmSessionOrder : String := "olm_session_order"
def kindMegolmIn : String := "megolm_in"
def kindMegolmOut : String := "megolm_out"
def kindDevices : String := "devices"
def kindTrackedUser : String := "tracked_user"
def kindWithheld : String := "withheld"
def kindBackupKey : String := "backup_key"
def kindCrossSigningKeys : String := "cross_signing_keys"
def kindSyncToken : String := "sync_token"
def kindRoomState : String := "room_state"
def kindPending : String := "pending"
def kindCounters : String := "counters"

/-! ## Record keys -/

/-- The lead shared by every record of a device. -/
def keyLead (device : DeviceId) : String := "messenger/" ++ device.value ++ "/"

/-- A key of the given kind with its percent-encoded components. -/
def recordKey (device : DeviceId) (kind : String) (components : List String) : RecordKey :=
  ⟨keyLead device ++ kind ++
    String.join (components.map fun part => "/" ++ percentEncodeSegment part)⟩

def accountRecordKey (device : DeviceId) : RecordKey := recordKey device kindAccount []

def olmSessionRecordKey (device : DeviceId) (theirCurve25519 sessionId : String) : RecordKey :=
  recordKey device kindOlmSession [theirCurve25519, sessionId]

def olmSessionOrderRecordKey (device : DeviceId) (theirCurve25519 : String) : RecordKey :=
  recordKey device kindOlmSessionOrder [theirCurve25519]

def inboundGroupSessionRecordKey (device : DeviceId) (roomId : RoomId) (sessionId : String) :
    RecordKey :=
  recordKey device kindMegolmIn [roomId.value, sessionId]

def outboundGroupSessionRecordKey (device : DeviceId) (roomId : RoomId) : RecordKey :=
  recordKey device kindMegolmOut [roomId.value]

def devicesRecordKey (device : DeviceId) (userId : UserId) : RecordKey :=
  recordKey device kindDevices [userId.value]

def trackedUserRecordKey (device : DeviceId) (userId : UserId) : RecordKey :=
  recordKey device kindTrackedUser [userId.value]

def withheldRecordKey (device : DeviceId) (roomId : RoomId) (sessionId : String) : RecordKey :=
  recordKey device kindWithheld [roomId.value, sessionId]

def backupKeyRecordKey (device : DeviceId) : RecordKey := recordKey device kindBackupKey []

def crossSigningKeysRecordKey (device : DeviceId) : RecordKey :=
  recordKey device kindCrossSigningKeys []

def syncTokenRecordKey (device : DeviceId) : RecordKey := recordKey device kindSyncToken []

def roomStateRecordKey (device : DeviceId) (roomId : RoomId) : RecordKey :=
  recordKey device kindRoomState [roomId.value]

def pendingRequestRecordKey (device : DeviceId) (requestId : RequestId) : RecordKey :=
  recordKey device kindPending [requestId.value]

def countersRecordKey (device : DeviceId) : RecordKey := recordKey device kindCounters []

/-- A record key parsed into its kind and decoded components. -/
inductive RecognizedRecord where
  | account
  | olmSession (theirCurve25519 sessionId : String)
  | olmSessionOrder (theirCurve25519 : String)
  | inboundGroupSession (roomId : RoomId) (sessionId : String)
  | outboundGroupSession (roomId : RoomId)
  | devices (userId : UserId)
  | trackedUser (userId : UserId)
  | withheld (roomId : RoomId) (sessionId : String)
  | backupKey
  | crossSigningKeys
  | syncToken
  | roomState (roomId : RoomId)
  | pendingRequest (requestId : RequestId)
  | counters
deriving DecidableEq, Repr

/-- Decodes one component and converts it; either failure is a malformed key. -/
def decodeComponent {α : Type} (key : RecordKey) (parse : String → Option α)
    (encoded : List Char) : Except StoreError α :=
  match (percentDecodeSegment (String.ofList encoded)).bind parse with
  | some value => .ok value
  | none => .error (.unknownRecordLayout key)

def decodePlainSegment (key : RecordKey) : List Char → Except StoreError String :=
  decodeComponent key some

def decodeRoomId (key : RecordKey) : List Char → Except StoreError RoomId :=
  decodeComponent key RoomId.parse

def decodeUserId (key : RecordKey) : List Char → Except StoreError UserId :=
  decodeComponent key UserId.parse

/-- Kinds that take one component. -/
def parseOne {α : Type} (key : RecordKey) (component : List Char → Except StoreError α)
    (build : α → RecognizedRecord) (remainder : Option (List Char)) :
    Except StoreError (Option RecognizedRecord) :=
  match remainder with
  | none => .error (.unknownRecordLayout key)
  | some encoded => do
    let value ← component encoded
    .ok (some (build value))

/-- Kinds that take two components; the second is everything after the first slash. -/
def parseTwo {α : Type} (key : RecordKey) (component : List Char → Except StoreError α)
    (build : α → String → RecognizedRecord) (remainder : Option (List Char)) :
    Except StoreError (Option RecognizedRecord) :=
  match remainder.bind (Text.splitOnce '/') with
  | none => .error (.unknownRecordLayout key)
  | some (first, second) => do
    let value ← component first
    let sessionId ← decodePlainSegment key second
    .ok (some (build value sessionId))

/-- The kind segment and what follows its slash, as `splitn(2, '/')` cuts them. -/
def cutKind (rest : List Char) : List Char × Option (List Char) :=
  match Text.splitOnce '/' rest with
  | none => (rest, none)
  | some (kind, remainder) => (kind, some remainder)

/-- The record a kind segment and its remainder name. A plain kind followed by a
remainder is not one this store knows. -/
def parseKind (key : RecordKey) (kind : String) (remainder : Option (List Char)) :
    Except StoreError (Option RecognizedRecord) :=
  if kind = kindAccount ∧ remainder.isNone then .ok (some .account)
  else if kind = kindSyncToken ∧ remainder.isNone then .ok (some .syncToken)
  else if kind = kindBackupKey ∧ remainder.isNone then .ok (some .backupKey)
  else if kind = kindCrossSigningKeys ∧ remainder.isNone then .ok (some .crossSigningKeys)
  else if kind = kindCounters ∧ remainder.isNone then .ok (some .counters)
  else if kind = kindOlmSession then
    parseTwo key (decodePlainSegment key) RecognizedRecord.olmSession remainder
  else if kind = kindOlmSessionOrder then
    parseOne key (decodePlainSegment key) RecognizedRecord.olmSessionOrder remainder
  else if kind = kindMegolmIn then
    parseTwo key (decodeRoomId key) RecognizedRecord.inboundGroupSession remainder
  else if kind = kindMegolmOut then
    parseOne key (decodeRoomId key) RecognizedRecord.outboundGroupSession remainder
  else if kind = kindDevices then
    parseOne key (decodeUserId key) RecognizedRecord.devices remainder
  else if kind = kindTrackedUser then
    parseOne key (decodeUserId key) RecognizedRecord.trackedUser remainder
  else if kind = kindWithheld then
    parseTwo key (decodeRoomId key) RecognizedRecord.withheld remainder
  else if kind = kindRoomState then
    parseOne key (decodeRoomId key) RecognizedRecord.roomState remainder
  else if kind = kindPending then
    parseOne key (decodePlainSegment key) (fun id => .pendingRequest ⟨id⟩) remainder
  else .ok none

def parseRecordKey (device : DeviceId) (key : RecordKey) :
    Except StoreError (Option RecognizedRecord) :=
  match Text.stripLead (keyLead device).toList key.value.toList with
  | none => .ok none
  | some rest => parseKind key (String.ofList (cutKind rest).1) (cutKind rest).2

def decodeBool (key : RecordKey) : Bytes → Except StoreError Bool
  | [0] => .ok false
  | [1] => .ok true
  | other => .error (.decode key s!"expected a single 0/1 byte, got {other.length} bytes")

/-! ## The store -/

structure Store where
  deviceId : DeviceId
  codec : RecordCodec
  serde : Serde
  gate : FlushGate
  account : Option Bytes
  olmSessions : BTreeMap String (BTreeMap String Bytes)
  olmSessionOrder : BTreeMap String (List String)
  inboundGroupSessions : BTreeMap RoomId (BTreeMap String Bytes)
  outboundGroupSessions : BTreeMap RoomId Bytes
  devices : BTreeMap UserId Bytes
  trackedUsers : BTreeMap UserId Bool
  withheld : BTreeMap RoomId (BTreeMap String Bytes)
  backupKey : Option Bytes
  crossSigningKeys : Option Bytes
  syncToken : Option String
  roomState : BTreeMap RoomId Bytes
  pendingRequests : BTreeMap RequestId PendingRequest
  counters : Option Counters
  unknown : BTreeMap RecordKey Bytes

/-- `entry(outer).or_default().insert(inner, value)`. -/
def insertNested {α β γ : Type} [Ord α] [Ord β] [Std.TransOrd α] [Std.TransOrd β]
    (map : BTreeMap α (BTreeMap β γ)) (outer : α) (inner : β) (value : γ) :
    BTreeMap α (BTreeMap β γ) :=
  map.insert outer ((map.getD outer ∅).insert inner value)

namespace Store

def new (deviceId : DeviceId) (codec : RecordCodec) (serde : Serde) : Store where
  deviceId := deviceId
  codec := codec
  serde := serde
  gate := FlushGate.new
  account := none
  olmSessions := ∅
  olmSessionOrder := ∅
  inboundGroupSessions := ∅
  outboundGroupSessions := ∅
  devices := ∅
  trackedUsers := ∅
  withheld := ∅
  backupKey := none
  crossSigningKeys := none
  syncToken := none
  roomState := ∅
  pendingRequests := ∅
  counters := none
  unknown := ∅

def applyRecognized (store : Store) (recognized : RecognizedRecord) (plaintext : Bytes)
    (key : RecordKey) : Except StoreError Store :=
  match recognized with
  | .account => .ok { store with account := some plaintext }
  | .olmSession theirCurve25519 sessionId =>
    .ok { store with
      olmSessions := insertNested store.olmSessions theirCurve25519 sessionId plaintext }
  | .olmSessionOrder theirCurve25519 =>
    match store.serde.readOrder plaintext with
    | .error source => .error (.decode key s!"session order is not valid JSON: {source}")
    | .ok order =>
      .ok { store with olmSessionOrder := store.olmSessionOrder.insert theirCurve25519 order }
  | .inboundGroupSession roomId sessionId =>
    .ok { store with
      inboundGroupSessions := insertNested store.inboundGroupSessions roomId sessionId plaintext }
  | .outboundGroupSession roomId =>
    .ok { store with
      outboundGroupSessions := store.outboundGroupSessions.insert roomId plaintext }
  | .devices userId => .ok { store with devices := store.devices.insert userId plaintext }
  | .trackedUser userId => do
    let outdated ← decodeBool key plaintext
    .ok { store with trackedUsers := store.trackedUsers.insert userId outdated }
  | .withheld roomId sessionId =>
    .ok { store with withheld := insertNested store.withheld roomId sessionId plaintext }
  | .backupKey => .ok { store with backupKey := some plaintext }
  | .crossSigningKeys => .ok { store with crossSigningKeys := some plaintext }
  | .syncToken =>
    match String.fromUTF8? ⟨plaintext.toArray⟩ with
    | none => .error (.decode key "sync token is not valid UTF-8")
    | some token => .ok { store with syncToken := some token }
  | .roomState roomId => .ok { store with roomState := store.roomState.insert roomId plaintext }
  | .pendingRequest requestId =>
    match store.serde.readPending plaintext with
    | .error source => .error (.decode key s!"pending request is not valid JSON: {source}")
    | .ok req =>
      .ok { store with pendingRequests := store.pendingRequests.insert requestId req }
  | .counters =>
    match store.serde.readCounters plaintext with
    | .error source => .error (.decode key s!"counters record is not valid JSON: {source}")
    | .ok counters => .ok { store with counters := some counters }

/-- One record of `load`. -/
def loadRecord (store : Store) (record : SealedRecord) : Except StoreError Store := do
  match ← parseRecordKey store.deviceId record.key with
  | some recognized =>
    match store.codec.openRecord record.key record.bytes with
    | none => .error (.codecOpen record.key)
    | some plaintext => store.applyRecognized recognized plaintext record.key
  | none =>
    .ok { store with
      gate := store.gate.markDirty record.key record.bytes
      unknown := store.unknown.insert record.key record.bytes }

def load (records : List SealedRecord) (codec : RecordCodec) (serde : Serde)
    (deviceId : DeviceId) : Except StoreError Store :=
  records.foldlM loadRecord (new deviceId codec serde)

def markDirty (store : Store) (key : RecordKey) (plaintext : Bytes) : Store :=
  { store with gate := store.gate.markDirty key (store.codec.sealRecord key plaintext) }

def markDeleted (store : Store) (key : RecordKey) : Store :=
  { store with gate := store.gate.markDeleted key }

def takeFlushBatch (store : Store) : Option FlushBatch × Store :=
  (store.gate.takeBatch.1, { store with gate := store.gate.takeBatch.2 })

def ackFlush (store : Store) (id : Nat) : Store := { store with gate := store.gate.ack id }

def sealForRequest (store : Store) : (RequiredSeq × Option FlushBatch) × Store :=
  (store.gate.sealForRequest.1, { store with gate := store.gate.sealForRequest.2 })

def isReleased (store : Store) (required : RequiredSeq) : Bool := store.gate.isReleased required

def saveAccount (store : Store) (account : Bytes) : Store :=
  { store.markDirty (accountRecordKey store.deviceId) account with account := some account }

/-- The recency order after a session was used, and the session it pushes out. -/
def useSession (order : List String) (sessionId : String) : List String × Option String :=
  let order := order.filter (· ≠ sessionId) ++ [sessionId]
  if order.length > maxOlmSessionsPerDevice then (order.drop 1, order.head?) else (order, none)

def saveOlmSession (store : Store) (theirCurve25519 sessionId : String) (session : Bytes) :
    Store :=
  let used := useSession (store.olmSessionOrder.getD theirCurve25519 []) sessionId
  let sessions := insertNested store.olmSessions theirCurve25519 sessionId session
  let marked := (store.markDirty
    (olmSessionRecordKey store.deviceId theirCurve25519 sessionId) session).markDirty
    (olmSessionOrderRecordKey store.deviceId theirCurve25519) (store.serde.writeOrder used.1)
  let marked := { marked with
    olmSessions := sessions
    olmSessionOrder := store.olmSessionOrder.insert theirCurve25519 used.1 }
  match used.2 with
  | none => marked
  -- The pushed-out session's own record is deleted with the same flush.
  | some evicted =>
    { marked.markDeleted (olmSessionRecordKey store.deviceId theirCurve25519 evicted) with
      olmSessions := sessions.insert theirCurve25519
        ((sessions.getD theirCurve25519 ∅).erase evicted) }

def saveInboundGroupSession (store : Store) (roomId : RoomId) (sessionId : String)
    (session : Bytes) : Store :=
  { store.markDirty (inboundGroupSessionRecordKey store.deviceId roomId sessionId) session with
    inboundGroupSessions := insertNested store.inboundGroupSessions roomId sessionId session }

def saveOutboundGroupSession (store : Store) (roomId : RoomId) (session : Bytes) : Store :=
  { store.markDirty (outboundGroupSessionRecordKey store.deviceId roomId) session with
    outboundGroupSessions := store.outboundGroupSessions.insert roomId session }

def saveDevices (store : Store) (userId : UserId) (devices : Bytes) : Store :=
  { store.markDirty (devicesRecordKey store.deviceId userId) devices with
    devices := store.devices.insert userId devices }

def markUserTracked (store : Store) (userId : UserId) (outdated : Bool) : Store :=
  { store.markDirty (trackedUserRecordKey store.deviceId userId) [if outdated then 1 else 0] with
    trackedUsers := store.trackedUsers.insert userId outdated }

def saveWithheld (store : Store) (roomId : RoomId) (sessionId : String) (code : Bytes) : Store :=
  { store.markDirty (withheldRecordKey store.deviceId roomId sessionId) code with
    withheld := insertNested store.withheld roomId sessionId code }

def saveBackupKey (store : Store) (key : Bytes) : Store :=
  { store.markDirty (backupKeyRecordKey store.deviceId) key with backupKey := some key }

def saveCrossSigningKeys (store : Store) (keys : Bytes) : Store :=
  { store.markDirty (crossSigningKeysRecordKey store.deviceId) keys with
    crossSigningKeys := some keys }

def saveSyncToken (store : Store) (token : String) : Store :=
  { store.markDirty (syncTokenRecordKey store.deviceId) token.toUTF8.data.toList with
    syncToken := some token }

def saveRoomState (store : Store) (roomId : RoomId) (state : Bytes) : Store :=
  { store.markDirty (roomStateRecordKey store.deviceId roomId) state with
    roomState := store.roomState.insert roomId state }

def savePendingRequest (store : Store) (req : PendingRequest) : Store :=
  { store.markDirty (pendingRequestRecordKey store.deviceId req.request.id)
      (store.serde.writePending req) with
    pendingRequests := store.pendingRequests.insert req.request.id req }

def deletePendingRequest (store : Store) (id : RequestId) : Store :=
  if id ∈ store.pendingRequests then
    { store.markDeleted (pendingRequestRecordKey store.deviceId id) with
      pendingRequests := store.pendingRequests.erase id }
  else store

def saveCounters (store : Store) (counters : Counters) : Store :=
  { store.markDirty (countersRecordKey store.deviceId) (store.serde.writeCounters counters) with
    counters := some counters }

end Store

/-! ## Loading -/

namespace Store

/-- Every pending request is stored under its own identifier. -/
def Filed (store : Store) : Prop :=
  ∀ (id : RequestId) (req : PendingRequest),
    store.pendingRequests[id]? = some req → req.request.id = id

/-- Reading a known record touches neither the gate nor the store's parameters. -/
theorem applyRecognized_frame {store after : Store} {recognized : RecognizedRecord}
    {plaintext : Bytes} {key : RecordKey}
    (h : store.applyRecognized recognized plaintext key = .ok after) :
    after.gate = store.gate ∧ after.deviceId = store.deviceId ∧ after.codec = store.codec ∧
      after.serde = store.serde := by
  cases recognized with
  | olmSessionOrder _ =>
    simp only [applyRecognized] at h
    split at h <;> cases h
    exact ⟨rfl, rfl, rfl, rfl⟩
  | trackedUser _ =>
    simp only [applyRecognized] at h
    cases hb : decodeBool key plaintext <;> rw [hb] at h <;> cases h
    exact ⟨rfl, rfl, rfl, rfl⟩
  | syncToken =>
    simp only [applyRecognized] at h
    split at h <;> cases h
    exact ⟨rfl, rfl, rfl, rfl⟩
  | pendingRequest _ =>
    simp only [applyRecognized] at h
    split at h <;> cases h
    exact ⟨rfl, rfl, rfl, rfl⟩
  | counters =>
    simp only [applyRecognized] at h
    split at h <;> cases h
    exact ⟨rfl, rfl, rfl, rfl⟩
  | _ =>
    cases h
    exact ⟨rfl, rfl, rfl, rfl⟩

/-- One loaded record is of a kind this store knows, or is kept and marked verbatim. -/
theorem loadRecord_cases {store after : Store} {record : SealedRecord}
    (h : store.loadRecord record = .ok after) :
    (∃ recognized plaintext, parseRecordKey store.deviceId record.key = .ok (some recognized) ∧
      store.codec.openRecord record.key record.bytes = some plaintext ∧
      store.applyRecognized recognized plaintext record.key = .ok after) ∨
    (parseRecordKey store.deviceId record.key = .ok none ∧
      after = { store with
        gate := store.gate.markDirty record.key record.bytes
        unknown := store.unknown.insert record.key record.bytes }) := by
  unfold loadRecord at h
  cases hparse : parseRecordKey store.deviceId record.key with
  | error e => rw [hparse] at h; cases h
  | ok parsed =>
    rw [hparse] at h
    cases parsed with
    | none => exact .inr ⟨rfl, (Except.ok.inj h).symm⟩
    | some recognized =>
      refine .inl ?_
      cases hopen : store.codec.openRecord record.key record.bytes with
      | none => simp [hopen, bind, Except.bind] at h
      | some plaintext =>
        exact ⟨recognized, plaintext, rfl, rfl, by simpa [hopen, bind, Except.bind] using h⟩

end Store

end Messenger
