import Mail4Agent.Foundation.Trace
import Mail4Agent.Messenger.RoomEvents

/-!
# Room keys over to-device events

A device hands the keys of its Megolm sessions to others over Olm-encrypted to-device events:
`m.room_key` from the device that made the session, `m.forwarded_room_key` from one that holds it,
the latter in answer to `m.room_key_request`. `KeyRing` is what the core reads to decide whom it
believes and whom it answers: the members, power levels and history visibility of its rooms, the
devices it knows, and the sessions it holds.

The Megolm library is a parameter: keys are texts it reads, and an inbound session is compared and
merged by it. What Olm makes of a payload for a device is an input of the step that needs it.

Every run keeps a log of the sessions it stored because they were forwarded and of the devices it
answered. `authorised_throughout` says who these can be.
-/

namespace Messenger

/-! ### Contents -/

def megolmAlgorithm : String := "m.megolm.v1.aes-sha2"

/-- The fields of a structure, read from an object or, in their order, from an array. -/
def structFields (names : List String) : Json → Option (List (Option Json))
  | .obj fields => some (names.map fun name => fields.lookup name)
  | .arr items =>
    if items.length ≤ names.length then
      some (items.map some ++ List.replicate (names.length - items.length) none)
    else none
  | _ => none

structure RoomKeyContent where
  algorithm : String
  roomId : RoomId
  sessionId : String
  sessionKey : String
deriving DecidableEq, Repr

def RoomKeyContent.read (value : Json) : Option RoomKeyContent :=
  match structFields ["algorithm", "room_id", "session_id", "session_key"] value with
  | some [some (.str algorithm), some (.str roomId), some (.str sessionId),
      some (.str sessionKey)] => some ⟨algorithm, ⟨roomId⟩, sessionId, sessionKey⟩
  | _ => none

def RoomKeyContent.toJson (content : RoomKeyContent) : Json :=
  .obj [("algorithm", .str content.algorithm), ("room_id", .str content.roomId.value),
    ("session_id", .str content.sessionId), ("session_key", .str content.sessionKey)]

structure ForwardedRoomKeyContent where
  algorithm : String
  roomId : RoomId
  sessionId : String
  sessionKey : String
  senderKey : String
  senderClaimedEd25519Key : Option String := none
  forwardingCurve25519KeyChain : List String := []
deriving DecidableEq, Repr

/-- A list of texts that may be absent. -/
def textList : Option Json → Option (List String)
  | none => some []
  | some (.arr items) => items.mapM Json.asStr?
  | some _ => none

def ForwardedRoomKeyContent.read (value : Json) : Option ForwardedRoomKeyContent :=
  match structFields ["algorithm", "room_id", "session_id", "session_key", "sender_key",
      "sender_claimed_ed25519_key", "forwarding_curve25519_key_chain"] value with
  | some [some (.str algorithm), some (.str roomId), some (.str sessionId), some (.str sessionKey),
      some (.str senderKey), claimed, chain] => do
    let claimed ← optionalText claimed
    let chain ← textList chain
    return ⟨algorithm, ⟨roomId⟩, sessionId, sessionKey, senderKey, claimed, chain⟩
  | _ => none

def ForwardedRoomKeyContent.toJson (content : ForwardedRoomKeyContent) : Json :=
  .obj ([("algorithm", .str content.algorithm), ("room_id", .str content.roomId.value),
    ("session_id", .str content.sessionId), ("session_key", .str content.sessionKey),
    ("sender_key", .str content.senderKey)] ++
    (content.senderClaimedEd25519Key.map fun key =>
      ("sender_claimed_ed25519_key", Json.str key)).toList ++
    [("forwarding_curve25519_key_chain",
      .arr (content.forwardingCurve25519KeyChain.map Json.str))])

inductive RoomKeyRequestAction where
  | request | requestCancellation | unknown
deriving DecidableEq, Repr

def RoomKeyRequestAction.ofName (name : String) : RoomKeyRequestAction :=
  if name = "request" then request
  else if name = "request_cancellation" then requestCancellation
  else unknown

def RoomKeyRequestAction.read : Json → Option RoomKeyRequestAction
  | .str name => some (.ofName name)
  | .obj [(name, .null)] => some (.ofName name)
  | _ => none

structure RoomKeyRequestBody where
  algorithm : String
  roomId : RoomId
  sessionId : String
  senderKey : String
deriving DecidableEq, Repr

def RoomKeyRequestBody.read (value : Json) : Option RoomKeyRequestBody :=
  match structFields ["algorithm", "room_id", "session_id", "sender_key"] value with
  | some [some (.str algorithm), some (.str roomId), some (.str sessionId),
      some (.str senderKey)] => some ⟨algorithm, ⟨roomId⟩, sessionId, senderKey⟩
  | _ => none

structure RoomKeyRequestContent where
  action : RoomKeyRequestAction
  body : Option RoomKeyRequestBody := none
  requestId : String
  requestingDeviceId : DeviceId
deriving DecidableEq, Repr

def RoomKeyRequestContent.read (value : Json) : Option RoomKeyRequestContent :=
  match structFields ["action", "body", "request_id", "requesting_device_id"] value with
  | some [some action, body, some (.str requestId), some (.str deviceId)] => do
    let action ← RoomKeyRequestAction.read action
    let body ← match body with
      | none | some .null => some none
      | some body => (RoomKeyRequestBody.read body).map some
    return ⟨action, body, requestId, ⟨deviceId⟩⟩
  | _ => none

structure RoomKeyWithheldContent where
  algorithm : String
  roomId : Option RoomId
  sessionId : Option String
  senderKey : String
  code : String
  reason : Option String
deriving DecidableEq, Repr

def RoomKeyWithheldContent.read (value : Json) : Option RoomKeyWithheldContent :=
  match structFields
      ["algorithm", "room_id", "session_id", "sender_key", "code", "reason"] value with
  | some [some (.str algorithm), roomId, sessionId, some (.str senderKey), some (.str code),
      reason] => do
    let roomId ← optionalText roomId
    let sessionId ← optionalText sessionId
    let reason ← optionalText reason
    return ⟨algorithm, roomId.map RoomId.mk, sessionId, senderKey, code, reason⟩
  | _ => none

/-! ### Sessions and devices -/

inductive SessionOrdering where
  | equal | better | worse | unconnected
deriving DecidableEq, Repr

/-- An outbound session: the library's ratchet is at `messageIndex`. -/
structure OutboundSession where
  sessionId : String
  messageIndex : Nat
deriving DecidableEq, Repr

/-- The Megolm library. -/
structure Megolm where
  Inbound : Type
  /-- `InboundGroupSession::new` of a `SessionKey` in base64. -/
  ofSessionKey : String → Except String Inbound
  /-- `InboundGroupSession::import` of an `ExportedSessionKey` in base64. -/
  ofExportedKey : String → Except String Inbound
  sessionId : Inbound → String
  compare : Inbound → Inbound → SessionOrdering
  merge : Inbound → Inbound → Option Inbound
  exportAtFirstKnownIndex : Inbound → String
  /-- The session key at the current index. -/
  sessionKey : OutboundSession → String

structure StoredDevice where
  userId : UserId
  deviceId : DeviceId
  curve25519 : String
  ed25519 : String
  blocked : Bool := false
deriving DecidableEq, Repr

structure InboundRecord (lib : Megolm) where
  session : lib.Inbound
  boundUserId : UserId
  boundSenderCurve25519 : String
  boundSenderEd25519 : String

structure OutboundRecord where
  session : OutboundSession
  createdAtMs : Int
  sharedWith : Finset (UserId × DeviceId)

inductive InboundMergeOutcome (lib : Megolm) where
  | new (record : InboundRecord lib)
  | kept
  | merged (record : InboundRecord lib)
  | ignoredSenderMismatch

/-- A session that is held is only replaced by a better one of the same sender. -/
def mergeInboundSession {lib : Megolm} (existing : Option (InboundRecord lib))
    (incoming : lib.Inbound) (senderUserId : UserId) (senderCurve25519 senderEd25519 : String) :
    InboundMergeOutcome lib :=
  match existing with
  | none => .new ⟨incoming, senderUserId, senderCurve25519, senderEd25519⟩
  | some record =>
    match lib.compare record.session incoming with
    | .equal | .better | .unconnected => .kept
    | .worse =>
      if record.boundUserId = senderUserId ∧ record.boundSenderCurve25519 = senderCurve25519 ∧
          record.boundSenderEd25519 = senderEd25519 then
        .merged { record with session := (lib.merge record.session incoming).getD incoming }
      else .ignoredSenderMismatch

inductive HistoryVisibility where
  | invited | joined | shared | worldReadable | unknown
deriving DecidableEq, Repr

/-- Of a room's state, what decides about its keys. -/
structure KeyRoom where
  members : BTreeMap UserId Membership := ∅
  powerUsers : BTreeMap UserId Int := ∅
  usersDefault : Int := 0
  historyVisibility : Option HistoryVisibility := none

namespace KeyRoom

/-- Joined or invited. -/
def isMember (room : KeyRoom) (userId : UserId) : Bool :=
  match room.members[userId]? with
  | some .join | some .invite => true
  | _ => false

def power (room : KeyRoom) (userId : UserId) : Int :=
  room.powerUsers[userId]?.getD room.usersDefault

/-- Neither `joined` nor `invited`. -/
def sharesHistory (room : KeyRoom) : Bool :=
  match room.historyVisibility with
  | some .joined | some .invited => false
  | _ => true

end KeyRoom

/-- A to-device event that was decrypted and whose payload is bound to its sender. -/
structure DecryptedToDevice where
  sender : UserId
  senderDeviceCurve25519 : String
  senderEd25519 : String
  eventType : String
  content : Json

structure KeyRing (lib : Megolm) where
  userId : UserId
  deviceId : DeviceId
  curve25519 : String
  rooms : BTreeMap RoomId KeyRoom := ∅
  devices : List StoredDevice := []
  /-- The devices there is an Olm session with, by their Curve25519 key. -/
  olmSessions : Finset String := ∅
  inbound : BTreeMap RoomId (BTreeMap String (InboundRecord lib)) := ∅
  outbound : BTreeMap RoomId OutboundRecord := ∅
  keyRequestsAnswered : Finset (UserId × DeviceId × String) := ∅
  withheldSessions : Finset (RoomId × String) := ∅

/-- A to-device request that was enqueued, and the devices it is for. -/
structure DeviceSend where
  devices : List StoredDevice
  body : Json

/-! ### Olm fan-out -/

def maxDevicesPerSendToDeviceRequest : Nat := 250

def chunksFrom {α : Type} (size : Nat) : Nat → List α → List (List α)
  | 0, _ => []
  | _, [] => []
  | fuel + 1, items => items.take size :: chunksFrom size fuel (items.drop size)

/-- Runs of `size` items, the last of them possibly shorter. -/
def chunks {α : Type} (size : Nat) (items : List α) : List (List α) :=
  chunksFrom size items.length items

/-- `{"messages": {user: {device: content}}}`. -/
def sendToDeviceBody (messages : List (StoredDevice × Json)) : Json :=
  let byUser : BTreeMap UserId (BTreeMap String Json) := messages.foldl (fun byUser entry =>
    byUser.insert entry.1.userId
      ((byUser[entry.1.userId]?.getD ∅).insert entry.1.deviceId.value entry.2)) ∅
  .obj [("messages", .obj (byUser.toList.map fun entry =>
    (entry.1.value, .obj entry.2.toList)))]

/-- The body for one chunk; Olm may fail for one of its devices. -/
def buildEncryptedToDeviceBody (olm : StoredDevice → Except String Json)
    (chunk : List StoredDevice) : Except String Json :=
  (chunk.mapM fun device => (olm device).map fun content => (device, content)).map sendToDeviceBody

/-- One request for each chunk, up to the first that Olm fails for. -/
def fanOut (olm : StoredDevice → Except String Json) :
    List (List StoredDevice) → List DeviceSend × Option String
  | [] => ([], none)
  | chunk :: rest =>
    match buildEncryptedToDeviceBody olm chunk with
    | .error e => ([], some e)
    | .ok body =>
      match fanOut olm rest with
      | (sent, error) => (⟨chunk, body⟩ :: sent, error)

/-! ### Whom the core believes and whom it answers -/

/-- A session stored because it was forwarded, or a device that got a key it asked for, with the
room as it stood. -/
inductive Grant where
  | stored (forwarder boundTo : UserId) (roomId : RoomId) (sessionId : String) (room : KeyRoom)
  | answered (requester : UserId) (device : StoredDevice) (roomId : RoomId) (sessionId : String)
      (room : KeyRoom)

/-- What routing a decrypted event leads to. -/
structure Routed (lib : Megolm) where
  ring : KeyRing lib
  newSessions : List (RoomId × String) := []
  sent : List DeviceSend := []
  grants : List Grant := []
  error : Option String := none

namespace KeyRing

variable {lib : Megolm}

def room (ring : KeyRing lib) (roomId : RoomId) : KeyRoom := ring.rooms[roomId]?.getD {}

/-- The joined and invited members of a room, and this account. -/
def encryptedRoomMemberIds (ring : KeyRing lib) (roomId : RoomId) : List UserId :=
  (((ring.room roomId).members.filter fun _ membership =>
    membership = .join || membership = .invite).insert ring.userId .join).keys

def historyForwardingAllowed (ring : KeyRing lib) (roomId : RoomId) : Bool :=
  (ring.room roomId).sharesHistory

/-- The members with a power level of at least 100. -/
def roomAdmins (ring : KeyRing lib) (roomId : RoomId) : List UserId :=
  if ring.rooms.contains roomId then
    (ring.encryptedRoomMemberIds roomId).filter fun userId =>
      100 ≤ (ring.room roomId).power userId
  else []

def devicesForUser (ring : KeyRing lib) (userId : UserId) : List StoredDevice :=
  ring.devices.filter fun device => device.userId = userId

def isOwnDevice (ring : KeyRing lib) (device : StoredDevice) : Bool :=
  device.userId = ring.userId && device.deviceId = ring.deviceId

/-- The devices there is no Olm session with. -/
def sessionsMissingFor (ring : KeyRing lib) (devices : List StoredDevice) : List StoredDevice :=
  devices.filter fun device => device.curve25519 ∉ ring.olmSessions

/-- The given devices without those whose user and device id is among `missing`. -/
def withoutMissing (devices missing : List StoredDevice) : List StoredDevice :=
  devices.filter fun device =>
    !missing.any fun other => other.userId = device.userId && other.deviceId = device.deviceId

def inboundRecord (ring : KeyRing lib) (roomId : RoomId) (sessionId : String) :
    Option (InboundRecord lib) :=
  ring.inbound[roomId]?.bind (·[sessionId]?)

def saveInboundRecord (ring : KeyRing lib) (roomId : RoomId) (sessionId : String)
    (record : InboundRecord lib) : KeyRing lib :=
  let sessions := (ring.inbound[roomId]?.getD ∅).insert sessionId record
  { ring with inbound := ring.inbound.insert roomId sessions }

def receiveRoomKey (ring : KeyRing lib) (senderUserId : UserId)
    (senderCurve25519 senderEd25519 : String) (content : RoomKeyContent) :
    Except String (KeyRing lib) :=
  if content.algorithm = megolmAlgorithm then
    match lib.ofSessionKey content.sessionKey with
    | .error source => .error s!"malformed Megolm session_key: {source}"
    | .ok incoming =>
      match mergeInboundSession (ring.inboundRecord content.roomId content.sessionId) incoming
          senderUserId senderCurve25519 senderEd25519 with
      | .new record | .merged record =>
        .ok (ring.saveInboundRecord content.roomId content.sessionId record)
      | .kept | .ignoredSenderMismatch => .ok ring
  else .ok ring

/-- Imports a forwarded session; the Boolean is whether something was stored. -/
def receiveForwardedRoomKey (ring : KeyRing lib) (boundUserId : UserId)
    (boundCurve25519 boundEd25519 : String) (content : ForwardedRoomKeyContent) :
    Except String (KeyRing lib × Bool) :=
  if content.algorithm = megolmAlgorithm then
    match lib.ofExportedKey content.sessionKey with
    | .error source => .error s!"malformed forwarded Megolm session_key: {source}"
    | .ok incoming =>
      if lib.sessionId incoming = content.sessionId then
        match mergeInboundSession (ring.inboundRecord content.roomId content.sessionId) incoming
            boundUserId boundCurve25519 boundEd25519 with
        | .new record | .merged record =>
          .ok (ring.saveInboundRecord content.roomId content.sessionId record, true)
        | .kept | .ignoredSenderMismatch => .ok (ring, false)
      else .ok (ring, false)
  else .ok (ring, false)

/-- This account's other devices and, where history is shared, the room's admins forward
anybody's sessions. -/
def forwarderIsUs (ring : KeyRing lib) (roomId : RoomId) (sender : UserId) : Bool :=
  sender = ring.userId ||
    (ring.historyForwardingAllowed roomId && sender ∈ ring.roomAdmins roomId)

/-- Whom a forwarded session is bound to: its user and the two keys of its device. -/
def forwardBinding (ring : KeyRing lib) (decrypted : DecryptedToDevice)
    (content : ForwardedRoomKeyContent) : Option (UserId × String × String) :=
  let members := ring.encryptedRoomMemberIds content.roomId
  let forwarderIsUs := ring.forwarderIsUs content.roomId decrypted.sender
  if !forwarderIsUs && decrypted.sender ∉ members then none
  else
    match (members.flatMap ring.devicesForUser).find? fun device =>
        !device.blocked && device.curve25519 = content.senderKey &&
          (decrypted.sender = device.userId || forwarderIsUs) with
    | some device => some (device.userId, device.curve25519, device.ed25519)
    | none =>
      if decrypted.senderDeviceCurve25519 = content.senderKey then
        some (decrypted.sender, decrypted.senderDeviceCurve25519, decrypted.senderEd25519)
      else none

/-- The device a key request is answered to: the one it names, else the one that sent it. -/
def requesterDevice (ring : KeyRing lib) (decrypted : DecryptedToDevice)
    (requestingDeviceId : DeviceId) : Option StoredDevice :=
  let devices := ring.devicesForUser decrypted.sender
  let found := (devices.find? fun device => device.deviceId = requestingDeviceId).or
    (devices.find? fun device => device.curve25519 = decrypted.senderDeviceCurve25519)
  found.filter fun device => !device.blocked

/-- The `m.forwarded_room_key` of a session this device holds. -/
def forwardedRoomKeyContent (ring : KeyRing lib) (roomId : RoomId) (sessionId : String) :
    Option ForwardedRoomKeyContent :=
  match ring.inboundRecord roomId sessionId with
  | none => none
  | some record =>
    if lib.sessionId record.session = sessionId then
      some ⟨megolmAlgorithm, roomId, sessionId, lib.exportAtFirstKnownIndex record.session,
        record.boundSenderCurve25519, some record.boundSenderEd25519, [ring.curve25519]⟩
    else none

/-- The `m.room_key` of the room's outbound session, if that is the one asked for. -/
def outboundRoomKeyContent (ring : KeyRing lib) (roomId : RoomId) (sessionId : String) :
    Option RoomKeyContent :=
  match ring.outbound[roomId]? with
  | none => none
  | some record =>
    if record.session.sessionId = sessionId then
      some ⟨megolmAlgorithm, roomId, sessionId, lib.sessionKey record.session⟩
    else none

/-- The inner event that answers a request. -/
def answerPayload (ring : KeyRing lib) (roomId : RoomId) (sessionId : String) :
    Option (String × Json) :=
  match ring.forwardedRoomKeyContent roomId sessionId with
  | some forwarded => some ("m.forwarded_room_key", forwarded.toJson)
  | none => (ring.outboundRoomKeyContent roomId sessionId).map fun roomKey =>
      ("m.room_key", roomKey.toJson)

/-- Neither blocked devices nor this one, and none twice. -/
def addTarget (ring : KeyRing lib) (unique : List StoredDevice) (device : StoredDevice) :
    List StoredDevice :=
  if device.blocked || ring.isOwnDevice device then unique
  else if unique.any fun other => other.userId = device.userId && other.deviceId = device.deviceId
  then unique
  else unique ++ [device]

def uniqueTargets (ring : KeyRing lib) (devices : List StoredDevice) : List StoredDevice :=
  devices.foldl ring.addTarget []

/-- One request for each chunk of the devices there is an Olm session with. -/
def enqueueOlmToDevices (ring : KeyRing lib) (olm : StoredDevice → Except String Json)
    (devices : List StoredDevice) : List DeviceSend × Option String :=
  let unique := ring.uniqueTargets devices
  fanOut olm (chunks maxDevicesPerSendToDeviceRequest
    (withoutMissing unique (ring.sessionsMissingFor unique)))

/-- Answers a key request with a session this device holds. `olm` encrypts the inner event of the
given type and content for a device. -/
def answerRoomKeyRequest (ring : KeyRing lib)
    (olm : String → Json → StoredDevice → Except String Json) (decrypted : DecryptedToDevice)
    (content : RoomKeyRequestContent) : Routed lib :=
  let dedup := (decrypted.sender, content.requestingDeviceId, content.requestId)
  match content.action, content.body with
  | .requestCancellation, _ =>
    { ring := { ring with keyRequestsAnswered := ring.keyRequestsAnswered.erase dedup } }
  | .unknown, _ | .request, none => { ring }
  | .request, some body =>
    if body.algorithm ≠ megolmAlgorithm then { ring }
    else if decrypted.sender ∉ ring.encryptedRoomMemberIds body.roomId then { ring }
    else if decrypted.sender ≠ ring.userId ∧ !ring.historyForwardingAllowed body.roomId then
      { ring }
    else if decrypted.sender = ring.userId ∧ content.requestingDeviceId = ring.deviceId then
      { ring }
    else if dedup ∈ ring.keyRequestsAnswered then { ring }
    else
      match ring.requesterDevice decrypted content.requestingDeviceId,
          ring.answerPayload body.roomId body.sessionId with
      | some target, some (innerType, payload) =>
        let (sent, error) := ring.enqueueOlmToDevices (olm innerType payload) [target]
        let answered := if sent.isEmpty || error.isSome then ring.keyRequestsAnswered
          else insert dedup ring.keyRequestsAnswered
        { ring := { ring with keyRequestsAnswered := answered }
          sent, error
          grants := (sent.flatMap DeviceSend.devices).map fun device =>
            .answered decrypted.sender device body.roomId body.sessionId (ring.room body.roomId) }
      | _, _ => { ring }

def routeDecryptedToDevice (ring : KeyRing lib)
    (olm : String → Json → StoredDevice → Except String Json) (decrypted : DecryptedToDevice) :
    Routed lib :=
  if decrypted.eventType = "m.room_key" then
    match RoomKeyContent.read decrypted.content with
    | none => { ring }
    | some content =>
      if content.algorithm = megolmAlgorithm then
        match ring.receiveRoomKey decrypted.sender decrypted.senderDeviceCurve25519
            decrypted.senderEd25519 content with
        | .error e => { ring, error := some e }
        | .ok stored => { ring := stored, newSessions := [(content.roomId, content.sessionId)] }
      else { ring }
  else if decrypted.eventType = "m.forwarded_room_key" then
    match ForwardedRoomKeyContent.read decrypted.content with
    | none => { ring }
    | some content =>
      match ring.forwardBinding decrypted content with
      | none => { ring }
      | some (userId, curve, ed) =>
        match ring.receiveForwardedRoomKey userId curve ed content with
        | .error e => { ring, error := some e }
        | .ok (stored, true) =>
          { ring := stored
            newSessions := [(content.roomId, content.sessionId)]
            grants := [.stored decrypted.sender userId content.roomId content.sessionId
              (ring.room content.roomId)] }
        | .ok (kept, false) => { ring := kept }
  else if decrypted.eventType = "m.room_key_request" then
    match RoomKeyRequestContent.read decrypted.content with
    | none => { ring }
    | some content => ring.answerRoomKeyRequest olm decrypted content
  else if decrypted.eventType = "m.room_key.withheld" then
    match RoomKeyWithheldContent.read decrypted.content with
    | some ⟨_, some roomId, some sessionId, _, _, _⟩ =>
      { ring := { ring with
          withheldSessions := insert (roomId, sessionId) ring.withheldSessions } }
    | _ => { ring }
  else { ring }

/-! ### Members and devices -/

section

variable {ring : KeyRing lib} {roomId : RoomId} {userId : UserId}

theorem mem_encryptedRoomMemberIds :
    userId ∈ ring.encryptedRoomMemberIds roomId ↔
      userId = ring.userId ∨ (ring.room roomId).isMember userId = true := by
  unfold encryptedRoomMemberIds KeyRoom.isMember
  rw [Std.ExtTreeMap.mem_keys, Std.ExtTreeMap.mem_insert, Std.LawfulEqCmp.compare_eq_iff_eq,
    eq_comm]
  refine or_congr_right ?_
  rw [Std.ExtTreeMap.mem_iff_isSome_getElem?, Std.ExtTreeMap.getElem?_filter]
  cases (ring.room roomId).members[userId]? with
  | none => simp
  | some membership => cases membership <;> simp

theorem mem_roomAdmins (h : userId ∈ ring.roomAdmins roomId) :
    (userId = ring.userId ∨ (ring.room roomId).isMember userId = true) ∧
      100 ≤ (ring.room roomId).power userId := by
  unfold roomAdmins at h
  split_ifs at h
  · obtain ⟨hmember, hpower⟩ := List.mem_filter.1 h
    exact ⟨mem_encryptedRoomMemberIds.1 hmember, by simpa using hpower⟩
  · cases h

theorem requesterDevice_eq_some {decrypted : DecryptedToDevice} {deviceId : DeviceId}
    {device : StoredDevice} (h : ring.requesterDevice decrypted deviceId = some device) :
    device.userId = decrypted.sender ∧ device.blocked = false := by
  obtain ⟨hfound, hblocked⟩ := Option.filter_eq_some_iff.1 h
  refine ⟨?_, by simpa using hblocked⟩
  have hmem : device ∈ ring.devicesForUser decrypted.sender := by
    rcases Option.or_eq_some_iff.1 hfound with hfirst | ⟨-, hsecond⟩
    · exact List.mem_of_find?_eq_some hfirst
    · exact List.mem_of_find?_eq_some hsecond
  simpa [devicesForUser] using (List.mem_filter.1 hmem).2

end

/-! ### Whom a fan-out reaches -/

theorem mem_of_mem_chunksFrom {α : Type} {size fuel : Nat} {items chunk : List α} {item : α}
    (hchunk : chunk ∈ chunksFrom size fuel items) (hitem : item ∈ chunk) : item ∈ items := by
  induction fuel generalizing items with
  | zero => cases hchunk
  | succ fuel ih =>
    cases items with
    | nil => cases hchunk
    | cons first rest =>
      rcases List.mem_cons.1 hchunk with rfl | hrest
      · exact List.mem_of_mem_take hitem
      · exact List.mem_of_mem_drop (ih hrest)

variable {olm : StoredDevice → Except String Json} {ring : KeyRing lib} {device : StoredDevice}

/-- What was sent went to the chunks. -/
theorem mem_fanOut {groups : List (List StoredDevice)} {send : DeviceSend}
    (h : send ∈ (fanOut olm groups).1) : send.devices ∈ groups := by
  induction groups with
  | nil => cases h
  | cons chunk rest ih =>
    unfold fanOut at h
    split at h
    · cases h
    · rcases List.mem_cons.1 h with rfl | hrest
      · exact List.mem_cons_self
      · exact List.mem_cons_of_mem _ (ih hrest)

theorem mem_uniqueTargets {devices : List StoredDevice} (h : device ∈ ring.uniqueTargets devices) :
    device ∈ devices ∧ device.blocked = false ∧ ring.isOwnDevice device = false := by
  -- every target was given and passed the first check
  suffices general : ∀ unique : List StoredDevice, device ∈ devices.foldl ring.addTarget unique →
      device ∈ unique ∨
        (device ∈ devices ∧ device.blocked = false ∧ ring.isOwnDevice device = false) from
    (general [] h).resolve_left List.not_mem_nil
  clear h
  induction devices with
  | nil => exact fun unique hmem => .inl hmem
  | cons first rest ih =>
    intro unique hmem
    rcases ih _ hmem with hnext | ⟨hrest, hpassed⟩
    · unfold addTarget at hnext
      split_ifs at hnext with hskip
      · exact .inl hnext
      · exact .inl hnext
      · rcases List.mem_append.1 hnext with hold | hnew
        · exact .inl hold
        · obtain rfl := List.mem_singleton.1 hnew
          exact .inr ⟨List.mem_cons_self, by simpa using hskip⟩
    · exact .inr ⟨List.mem_cons_of_mem _ hrest, hpassed⟩

theorem mem_enqueueOlmToDevices {devices : List StoredDevice} {send : DeviceSend}
    (hsend : send ∈ (ring.enqueueOlmToDevices olm devices).1) (hdevice : device ∈ send.devices) :
    device ∈ devices := by
  have hready := mem_of_mem_chunksFrom (mem_fanOut hsend) hdevice
  exact (mem_uniqueTargets (List.mem_of_mem_filter hready)).1

end KeyRing

/-! ### Authorisation -/

/-- A session is stored if this account forwarded it, or a joined or invited member of the room
whose own it is, or a joined admin of a room that shares its history; nothing is said of a user
who is only invited and forwards the session of another. A request is answered to an unblocked
device of the user who asks, which is this account or a joined or invited member of a room that
shares its history. -/
def Grant.Authorised (own : UserId) : Grant → Prop
  | .stored forwarder boundTo _ _ room =>
    forwarder = own ∨ (room.isMember forwarder = true ∧ boundTo = forwarder) ∨
      (room.members[forwarder]? ≠ some .invite → room.members[forwarder]? = some .join ∧
        room.sharesHistory = true ∧ 100 ≤ room.power forwarder)
  | .answered requester device _ _ room =>
    device.userId = requester ∧ device.blocked = false ∧
      (requester = own ∨ room.isMember requester = true ∧ room.sharesHistory = true)

theorem KeyRoom.joined_of_isMember {room : KeyRoom} {userId : UserId}
    (h : room.isMember userId = true) (hinvited : room.members[userId]? ≠ some .invite) :
    room.members[userId]? = some .join := by
  unfold isMember at h
  split at h
  · assumption
  · exact absurd ‹_› hinvited
  · cases h

namespace KeyRing

section

variable {lib : Megolm} {ring : KeyRing lib} {decrypted : DecryptedToDevice}

theorem forwarderIsUs_eq_true {roomId : RoomId} {sender : UserId}
    (h : ring.forwarderIsUs roomId sender = true) :
    sender = ring.userId ∨ (ring.room roomId).isMember sender = true ∧
      (ring.room roomId).sharesHistory = true ∧ 100 ≤ (ring.room roomId).power sender := by
  simp only [forwarderIsUs, Bool.or_eq_true, decide_eq_true_eq, Bool.and_eq_true] at h
  rcases h with hown | ⟨hshared, hadmin⟩
  · exact .inl hown
  · obtain ⟨hown | hmember, hpower⟩ := mem_roomAdmins hadmin
    · exact .inl hown
    · exact .inr ⟨hmember, hshared, hpower⟩

variable {content : ForwardedRoomKeyContent} {userId : UserId} {curve ed : String}

/-- Nobody but this account and the admins has a session bound to another user. -/
theorem forwardBinding_eq_some
    (h : ring.forwardBinding decrypted content = some (userId, curve, ed)) :
    decrypted.sender = ring.userId ∨ (ring.room content.roomId).isMember decrypted.sender = true ∧
      (userId = decrypted.sender ∨ (ring.room content.roomId).sharesHistory = true ∧
        100 ≤ (ring.room content.roomId).power decrypted.sender) := by
  unfold forwardBinding at h
  dsimp only at h
  by_cases hus : ring.forwarderIsUs content.roomId decrypted.sender = true
  · rcases forwarderIsUs_eq_true hus with hown | ⟨hmember, hadmin⟩
    · exact .inl hown
    · exact .inr ⟨hmember, .inr hadmin⟩
  · simp only [Bool.not_eq_true] at hus
    by_cases hmember : decrypted.sender ∈ ring.encryptedRoomMemberIds content.roomId
    · simp only [hus, hmember, Bool.not_false, Bool.true_and, Bool.or_false, not_true_eq_false,
        decide_false, Bool.false_eq_true, ↓reduceIte] at h
      refine (mem_encryptedRoomMemberIds.1 hmember).imp_right fun hmember => ⟨hmember, .inl ?_⟩
      split at h
      · rename_i device hdevice
        have hsame := List.find?_some hdevice
        simp only [Bool.and_eq_true, decide_eq_true_eq] at hsame
        cases h
        exact hsame.2.symm
      · split_ifs at h
        cases h
        rfl
    · simp [hus, hmember] at h

theorem authorised_answerRoomKeyRequest
    (olm : String → Json → StoredDevice → Except String Json) (content : RoomKeyRequestContent) :
    ∀ grant ∈ (ring.answerRoomKeyRequest olm decrypted content).grants,
      grant.Authorised ring.userId := by
  unfold answerRoomKeyRequest
  dsimp only
  split
  · simp
  · simp
  · simp
  · rename_i body _
    split_ifs with halgorithm hmember hhistory hown hanswered
    any_goals simp
    split
    · rename_i target innerType payload htarget hpayload
      intro grant hgrant
      obtain ⟨device, hdevice, rfl⟩ := List.mem_map.1 hgrant
      obtain ⟨send, hsend, hdevice⟩ := List.mem_flatMap.1 hdevice
      obtain rfl := List.mem_singleton.1 (mem_enqueueOlmToDevices hsend hdevice)
      obtain ⟨huser, hblocked⟩ := requesterDevice_eq_some htarget
      refine ⟨huser, hblocked, ?_⟩
      simp only [mem_encryptedRoomMemberIds] at hmember
      refine or_iff_not_imp_left.2 fun hother => ⟨hmember.resolve_left hother, ?_⟩
      simpa [hother, historyForwardingAllowed] using hhistory
    · simp

/-- Whatever a to-device event leads to is authorised. -/
theorem authorised_routeDecryptedToDevice (ring : KeyRing lib)
    (olm : String → Json → StoredDevice → Except String Json) (decrypted : DecryptedToDevice) :
    ∀ grant ∈ (ring.routeDecryptedToDevice olm decrypted).grants,
      grant.Authorised ring.userId := by
  unfold routeDecryptedToDevice
  split_ifs
  · split
    · simp
    · split_ifs
      · split <;> simp
      · simp
  · split
    · simp
    · split
      · simp
      · rename_i userId curve ed hbinding
        split
        · simp
        · intro grant hgrant
          obtain rfl := List.mem_singleton.1 hgrant
          rcases forwardBinding_eq_some hbinding with hown | ⟨hmember, hbound | hadmin⟩
          · exact .inl hown
          · exact .inr (.inl ⟨hmember, hbound⟩)
          · exact .inr (.inr fun hinvited => ⟨KeyRoom.joined_of_isMember hmember hinvited, hadmin⟩)
        · simp
  · split
    · simp
    · exact authorised_answerRoomKeyRequest olm _
  · split <;> simp
  · simp

/-- Of the ring, receiving a key changes the inbound sessions. -/
theorem frame_receiveRoomKey {stored : KeyRing lib} {content : RoomKeyContent}
    (h : ring.receiveRoomKey userId curve ed content = .ok stored) :
    ∃ inbound, stored = { ring with inbound } := by
  unfold receiveRoomKey at h
  split_ifs at h
  · split at h
    · cases h
    · split at h <;> cases h <;> exact ⟨_, rfl⟩
  · cases h
    exact ⟨_, rfl⟩

theorem frame_receiveForwardedRoomKey {stored : KeyRing lib} {new : Bool}
    (h : ring.receiveForwardedRoomKey userId curve ed content = .ok (stored, new)) :
    ∃ inbound, stored = { ring with inbound } := by
  unfold receiveForwardedRoomKey at h
  split_ifs at h
  · split at h
    · cases h
    · split_ifs at h
      · split at h <;> cases h <;> exact ⟨_, rfl⟩
      · cases h
        exact ⟨_, rfl⟩
  · cases h
    exact ⟨_, rfl⟩

/-- Of the ring, a to-device event changes the inbound sessions and the notes on requests. -/
theorem frame_routeDecryptedToDevice (ring : KeyRing lib)
    (olm : String → Json → StoredDevice → Except String Json) (decrypted : DecryptedToDevice) :
    ∃ inbound keyRequestsAnswered withheldSessions,
      (ring.routeDecryptedToDevice olm decrypted).ring =
        { ring with inbound, keyRequestsAnswered, withheldSessions } := by
  unfold routeDecryptedToDevice
  split_ifs
  · split
    · exact ⟨_, _, _, rfl⟩
    · split_ifs
      · split
        · exact ⟨_, _, _, rfl⟩
        · rename_i stored hstored
          obtain ⟨inbound, rfl⟩ := frame_receiveRoomKey hstored
          exact ⟨_, _, _, rfl⟩
      · exact ⟨_, _, _, rfl⟩
  · split
    · exact ⟨_, _, _, rfl⟩
    · split
      · exact ⟨_, _, _, rfl⟩
      · split
        · exact ⟨_, _, _, rfl⟩
        · rename_i stored hstored
          obtain ⟨inbound, rfl⟩ := frame_receiveForwardedRoomKey hstored
          exact ⟨_, _, _, rfl⟩
        · rename_i stored hstored
          obtain ⟨inbound, rfl⟩ := frame_receiveForwardedRoomKey hstored
          exact ⟨_, _, _, rfl⟩
  · split
    · exact ⟨_, _, _, rfl⟩
    · unfold answerRoomKeyRequest
      dsimp only
      split
      · exact ⟨_, _, _, rfl⟩
      · exact ⟨_, _, _, rfl⟩
      · exact ⟨_, _, _, rfl⟩
      · split_ifs
        any_goals exact ⟨_, _, _, rfl⟩
        split <;> exact ⟨_, _, _, rfl⟩
  · split <;> exact ⟨_, _, _, rfl⟩
  · exact ⟨_, _, _, rfl⟩

theorem userId_routeDecryptedToDevice (ring : KeyRing lib)
    (olm : String → Json → StoredDevice → Except String Json) (decrypted : DecryptedToDevice) :
    (ring.routeDecryptedToDevice olm decrypted).ring.userId = ring.userId := by
  obtain ⟨_, _, _, hring⟩ := frame_routeDecryptedToDevice ring olm decrypted
  rw [hring]

end

end KeyRing

/-! ### Runs -/

/-- A key ring and what it has granted since the start. -/
structure KeyHistory (lib : Megolm) where
  ring : KeyRing lib
  log : List Grant := []

inductive KeyAction (lib : Megolm) where
  | routed (olm : String → Json → StoredDevice → Except String Json) (decrypted : DecryptedToDevice)
  /-- Whatever the rest of the core makes of its rooms, devices and sessions. -/
  | others (rooms : BTreeMap RoomId KeyRoom) (devices : List StoredDevice)
      (olmSessions : Finset String)
      (inbound : BTreeMap RoomId (BTreeMap String (InboundRecord lib)))
      (outbound : BTreeMap RoomId OutboundRecord)

namespace KeyHistory

variable {lib : Megolm}

def step (s : KeyHistory lib) : KeyAction lib → KeyHistory lib
  | .routed olm decrypted =>
    let routed := s.ring.routeDecryptedToDevice olm decrypted
    ⟨routed.ring, s.log ++ routed.grants⟩
  | .others rooms devices olmSessions inbound outbound =>
    { s with ring := { s.ring with rooms, devices, olmSessions, inbound, outbound } }

/-- All grants so far were authorised for this account. -/
def Allowed (own : UserId) (s : KeyHistory lib) : Prop :=
  s.ring.userId = own ∧ ∀ grant ∈ s.log, grant.Authorised own

theorem Allowed.step {own : UserId} {s : KeyHistory lib} (h : s.Allowed own)
    (action : KeyAction lib) : (s.step action).Allowed own := by
  obtain ⟨rfl, hlog⟩ := h
  cases action with
  | routed olm decrypted =>
    refine ⟨s.ring.userId_routeDecryptedToDevice olm decrypted, fun grant hgrant => ?_⟩
    rcases List.mem_append.1 hgrant with hold | hnew
    · exact hlog grant hold
    · exact s.ring.authorised_routeDecryptedToDevice olm decrypted grant hnew
  | others => exact ⟨rfl, hlog⟩

end KeyHistory

/-- Only this account and joined admins forward, and only joined members are answered. -/
def Grant.Strict (own : UserId) : Grant → Prop
  | .stored forwarder _ _ _ room =>
    forwarder = own ∨ room.members[forwarder]? = some .join ∧ 100 ≤ room.power forwarder
  | .answered requester device _ _ room =>
    device.blocked = false ∧ room.members[device.userId]? = some .join ∧
      (requester = own ∨ room.sharesHistory = true)

instance (own : UserId) : DecidablePred (Grant.Strict own)
  | .stored .. => inferInstanceAs (Decidable (_ ∨ _ ∧ _))
  | .answered .. => inferInstanceAs (Decidable (_ ∧ _ ∧ (_ ∨ _)))

/-- A library in which a key is its session's identifier. -/
def plainMegolm : Megolm where
  Inbound := String
  ofSessionKey := .ok
  ofExportedKey := .ok
  sessionId key := key
  compare _ _ := .equal
  merge key _ := some key
  exportAtFirstKnownIndex key := key
  sessionKey session := session.sessionId

def bobsDevice : StoredDevice := ⟨⟨"@bob:a"⟩, ⟨"BOB1"⟩, "bobcurve", "bobed", false⟩

def bobSends (eventType : String) (content : Json) : DecryptedToDevice :=
  ⟨⟨"@bob:a"⟩, "bobcurve", "bobed", eventType, content⟩

/-- A device with one room, of which `@bob:a` is a member without power. -/
def bobsRoom (membership : Membership) : KeyRing plainMegolm where
  userId := ⟨"@me:a"⟩
  deviceId := ⟨"ME1"⟩
  curve25519 := "mycurve"
  rooms := (∅ : BTreeMap RoomId KeyRoom).insert ⟨"!r:a"⟩
    { members := (∅ : BTreeMap UserId Membership).insert ⟨"@bob:a"⟩ membership }
  devices := [bobsDevice]
  olmSessions := {"bobcurve"}
  outbound := (∅ : BTreeMap RoomId OutboundRecord).insert ⟨"!r:a"⟩ ⟨⟨"mine", 0⟩, 0, ∅⟩

/-- Bob forwards a session of their own device. -/
def forwardsOwn : List (KeyAction plainMegolm) :=
  [.routed (fun _ _ _ => .ok .null) (bobSends "m.forwarded_room_key" (.obj
    [("algorithm", .str "m.megolm.v1.aes-sha2"), ("room_id", .str "!r:a"), ("session_id", .str "s"),
      ("session_key", .str "s"), ("sender_key", .str "bobcurve")]))]

/-- Bob asks for the room's session. -/
def asks : List (KeyAction plainMegolm) :=
  [.routed (fun _ _ _ => .ok .null) (bobSends "m.room_key_request" (.obj
    [("action", .str "request"), ("request_id", .str "q"), ("requesting_device_id", .str "BOB1"),
      ("body", .obj [("algorithm", .str "m.megolm.v1.aes-sha2"), ("room_id", .str "!r:a"),
        ("session_id", .str "mine"), ("sender_key", .str "mycurve")])]))]

end Messenger
