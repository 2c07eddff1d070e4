import Mail4Agent.Messenger.KeyRing

/-!
# To-device events of a sync response

The to-device events of a response come first in its ingest. Each is an envelope that Olm opens for
this device, and the payload inside is routed to the key ring. An envelope that cannot be opened is
dropped, one from a device this account does not know yet waits in a list in memory until the next
`/keys/query` is answered, and an error of the routing ends the ingest.

Olm is a parameter, as is what the other sections of a response do. Events are numbered as they are
delivered. The records of the store carry, for the proofs only, the numbers of the events that were
processed and of those whose response has its token saved.
-/

namespace Messenger

/-! ### Envelopes -/

structure ToDeviceEvent where
  sender : UserId
  eventType : String
  content : Json

def olmAlgorithm : String := "m.olm.v1.curve25519-aes-sha2"

structure OlmCiphertextInfo where
  messageType : Nat
  body : String

def OlmCiphertextInfo.read (value : Json) : Option OlmCiphertextInfo :=
  match structFields ["type", "body"] value with
  | some [some (.int messageType), some (.str body)] =>
    if 0 ≤ messageType ∧ messageType ≤ 255 then some ⟨messageType.toNat, body⟩ else none
  | _ => none

structure OlmEncryptedContent where
  senderKey : String
  ciphertext : List (String × OlmCiphertextInfo)

/-- `RoomEncryptedContent::Olm`; any other content is none. -/
def OlmEncryptedContent.read (value : Json) : Option OlmEncryptedContent :=
  if (value.get? "algorithm").bind Json.asStr? = some olmAlgorithm then
    match structFields ["sender_key", "ciphertext"] value with
    | some [some (.str senderKey), some (.obj entries)] => do
      let ciphertext ← entries.mapM fun entry =>
        (OlmCiphertextInfo.read entry.2).map fun info => (entry.1, info)
      return ⟨senderKey, ciphertext⟩
    | _ => none
  else none

structure OlmPlaintextPayload where
  eventType : String
  content : Json
  sender : UserId
  senderDevice : DeviceId
  keysEd25519 : String
  recipient : UserId
  recipientKeysEd25519 : String

/-- `{"ed25519": key}`. -/
def readPlaintextKeys (value : Json) : Option String :=
  match structFields ["ed25519"] value with
  | some [some (.str ed25519)] => some ed25519
  | _ => none

def OlmPlaintextPayload.read (value : Json) : Option OlmPlaintextPayload :=
  match structFields ["type", "content", "sender", "sender_device", "keys", "recipient",
      "recipient_keys"] value with
  | some [some (.str eventType), some content, some (.str sender), some (.str senderDevice),
      some keys, some (.str recipient), some recipientKeys] => do
    let keys ← readPlaintextKeys keys
    let recipientKeys ← readPlaintextKeys recipientKeys
    return ⟨eventType, content, ⟨sender⟩, ⟨senderDevice⟩, keys, ⟨recipient⟩, recipientKeys⟩
  | _ => none

/-! ### Olm -/

/-- The Olm library with the account and the sessions it keeps in the store. -/
structure Olm where
  State : Type
  Message : Type
  /-- From base64 and the message type. -/
  decodeMessage : OlmCiphertextInfo → Except String Message
  isPreKey : Message → Bool
  /-- The sessions with a device, the most recently used first. -/
  decryptKnown : State → String → Message → Option (State × Bytes)
  createInboundSession : State → String → Message → Except String (State × Bytes)
  parsePayload : Bytes → Option Json
  /-- The envelope of an inner event for a device there is a session with. -/
  encrypt : State → String → Json → StoredDevice → Except String Json
  afterSends : State → List DeviceSend → State

inductive OlmDecryptError where
  | notAddressedToUs
  | malformedCiphertext
  | noMatchingSession
  | sessionEstablishment
  | unknownSenderDevice
  | payloadMismatch
  | invalidPayload
deriving DecidableEq, Repr

def isUnknownSender : Except OlmDecryptError DecryptedToDevice → Bool
  | .error .unknownSenderDevice => true
  | _ => false

/-- What the store holds. `processed` and `covered` are not part of it: they number the events
that were processed, and those whose response has its token saved. -/
structure Records (olm : Olm) (lib : Megolm) where
  ring : KeyRing lib
  account : olm.State
  trackedUsers : BTreeMap UserId Bool := ∅
  requests : List DeviceSend := []
  syncToken : Option String := none
  processed : Finset Nat := ∅
  covered : Finset Nat := ∅

namespace Records

variable {olm : Olm} {lib : Megolm}

/-- A known session opens the message, or a pre-key message makes a new one. -/
def openMessage (records : Records olm lib) (senderKey : String) (message : olm.Message) :
    Except OlmDecryptError (olm.State × Bytes) :=
  match olm.decryptKnown records.account senderKey message with
  | some opened => .ok opened
  | none =>
    if olm.isPreKey message then
      match olm.createInboundSession records.account senderKey message with
      | .error _ => .error .sessionEstablishment
      | .ok opened => .ok opened
    else .error .noMatchingSession

/-- The payload must name this account, its key, the event's sender and that device's key. -/
def checkPayload (ring : KeyRing lib) (ourEd25519 : String) (eventSender : UserId)
    (device : StoredDevice) (payload : OlmPlaintextPayload) :
    Except OlmDecryptError DecryptedToDevice :=
  if payload.recipient ≠ ring.userId then .error .payloadMismatch
  else if payload.recipientKeysEd25519 ≠ ourEd25519 then .error .payloadMismatch
  else if payload.sender ≠ eventSender then .error .payloadMismatch
  else if payload.keysEd25519 ≠ device.ed25519 then .error .payloadMismatch
  else .ok ⟨payload.sender, device.curve25519, device.ed25519, payload.eventType, payload.content⟩

/-- `OlmSessionManager::decrypt_to_device`. The sender's device is looked up before any session
is touched; a user with an unknown device is marked outdated. -/
def decryptToDevice (records : Records olm lib) (ourEd25519 : String) (eventSender : UserId)
    (content : OlmEncryptedContent) :
    Records olm lib × Except OlmDecryptError DecryptedToDevice :=
  match content.ciphertext.lookup records.ring.curve25519 with
  | none => (records, .error .notAddressedToUs)
  | some info =>
    match olm.decodeMessage info with
    | .error _ => (records, .error .malformedCiphertext)
    | .ok message =>
      match (records.ring.devicesForUser eventSender).find? fun device =>
          device.curve25519 = content.senderKey with
      | none =>
        ({ records with trackedUsers := records.trackedUsers.insert eventSender true },
          .error .unknownSenderDevice)
      | some device =>
        match records.openMessage content.senderKey message with
        | .error e => (records, .error e)
        | .ok (account, plaintext) =>
          let ring := { records.ring with
            olmSessions := insert content.senderKey records.ring.olmSessions }
          ({ records with account, ring },
            match (olm.parsePayload plaintext).bind OlmPlaintextPayload.read with
            | none => .error .invalidPayload
            | some payload => checkPayload ring ourEd25519 eventSender device payload)

/-- What a start keeps of the key ring: answered requests and withheld sessions are in memory. -/
def reload (records : Records olm lib) : Records olm lib :=
  let ring := { records.ring with keyRequestsAnswered := ∅, withheldSessions := ∅ }
  { records with ring }

end Records

/-! ### The events of a response -/

/-- An event with its number among all that were delivered. -/
structure Delivery where
  number : Nat
  event : ToDeviceEvent

/-- The part of the core that takes to-device events. `batches` are the records as they stood
when each batch since the start was drained, `disk` those the start found. -/
structure Inbox (olm : Olm) (lib : Megolm) where
  ed25519 : String
  records : Records olm lib
  unknownSenderRetry : List Delivery := []
  delivered : Nat := 0
  batches : List (Records olm lib) := []
  disk : Records olm lib

/-- What the rest of the core does to the records, and the requests it enqueues. -/
inductive OtherChange (olm : Olm) (lib : Megolm) where
  | store (rooms : BTreeMap RoomId KeyRoom) (devices : List StoredDevice)
      (olmSessions : Finset String)
      (inbound : BTreeMap RoomId (BTreeMap String (InboundRecord lib)))
      (outbound : BTreeMap RoomId OutboundRecord) (trackedUsers : BTreeMap UserId Bool)
      (account : olm.State)
  | enqueue (send : DeviceSend)

structure ToDeviceSync (olm : Olm) (lib : Megolm) where
  events : List ToDeviceEvent
  /-- The sections after the to-device events, and the error that ended them. -/
  others : Inbox olm lib → List (OtherChange olm lib) × Option String
  nextBatch : String

def unknownSenderRetryCapacity : Nat := 256

namespace Inbox

variable {olm : Olm} {lib : Megolm}

/-- Draining a batch. -/
def drain (s : Inbox olm lib) : Inbox olm lib := { s with batches := s.batches ++ [s.records] }

/-- A request is enqueued after what came before it was drained. -/
def enqueue (s : Inbox olm lib) (send : DeviceSend) : Inbox olm lib :=
  let records := { s.records with requests := s.records.requests ++ [send] }
  { s.drain with records }

def change (s : Inbox olm lib) : OtherChange olm lib → Inbox olm lib
  | .store rooms devices olmSessions inbound outbound trackedUsers account =>
    let ring := { s.records.ring with rooms, devices, olmSessions, inbound, outbound }
    { s with records := { s.records with ring, trackedUsers, account } }
  | .enqueue send => s.enqueue send

/-- The event needs no further work. -/
def settle (s : Inbox olm lib) (delivery : Delivery) : Inbox olm lib :=
  let records := { s.records with processed := insert delivery.number s.records.processed }
  { s with records }

/-- The oldest events make room. -/
def queueUnknownSenderRetry (s : Inbox olm lib) (delivery : Delivery) : Inbox olm lib :=
  let queue := s.unknownSenderRetry ++ [delivery]
  { s with unknownSenderRetry := queue.drop (queue.length - unknownSenderRetryCapacity) }

def saveAccount (s : Inbox olm lib) (account : olm.State) : Inbox olm lib :=
  { s with records := { s.records with account } }

def saveRing (s : Inbox olm lib) (ring : KeyRing lib) : Inbox olm lib :=
  { s with records := { s.records with ring } }

/-- The sessions that encrypt an answer are saved before it is enqueued. -/
def routeDecryptedToDevice (s : Inbox olm lib) (delivery : Delivery)
    (decrypted : DecryptedToDevice) : Inbox olm lib × Option String :=
  let routed := s.records.ring.routeDecryptedToDevice (olm.encrypt s.records.account) decrypted
  let sender := s.saveAccount (olm.afterSends s.records.account routed.sent)
  let after := (routed.sent.foldl enqueue sender).saveRing routed.ring
  match routed.error with
  | some e => (after, some e)
  | none => (after.settle delivery, none)

/-- `process_to_device_event` and its error. -/
def processToDeviceEvent (s : Inbox olm lib) (delivery : Delivery) :
    Inbox olm lib × Option String :=
  if delivery.event.eventType ≠ "m.room.encrypted" then (s.settle delivery, none)
  else
    match OlmEncryptedContent.read delivery.event.content with
    | none => (s.settle delivery, none)
    | some content =>
      match s.records.decryptToDevice s.ed25519 delivery.event.sender content with
      | (records, .ok decrypted) => { s with records }.routeDecryptedToDevice delivery decrypted
      | (records, .error .unknownSenderDevice) =>
        ({ s with records }.queueUnknownSenderRetry delivery, none)
      -- A replay, a malformed envelope or a payload for somebody else.
      | (records, .error _) => ({ s with records }.settle delivery, none)

/-- The events in turn, up to the first error. -/
def processAll (s : Inbox olm lib) : List Delivery → Inbox olm lib × Option String
  | [] => (s, none)
  | delivery :: rest =>
    match s.processToDeviceEvent delivery with
    | (s, some e) => (s, some e)
    | (s, none) => s.processAll rest

def deliveries (s : Inbox olm lib) (events : List ToDeviceEvent) : List Delivery :=
  events.mapIdx fun i event => ⟨s.delivered + i, event⟩

/-- The numbers are taken when a response arrives. -/
def arrive (s : Inbox olm lib) (events : List ToDeviceEvent) : Inbox olm lib :=
  { s with delivered := s.delivered + events.length }

def saveSyncToken (s : Inbox olm lib) (nextBatch : String) (deliveries : List Delivery) :
    Inbox olm lib :=
  let covered := s.records.covered ∪ (deliveries.map Delivery.number).toFinset
  { s with records := { s.records with syncToken := some nextBatch, covered } }

/-- `ingest_sync` and its error. -/
def ingestSync (s : Inbox olm lib) (response : ToDeviceSync olm lib) :
    Inbox olm lib × Option String :=
  let deliveries := s.deliveries response.events
  match (s.arrive response.events).processAll deliveries with
  | (s, some e) => (s, some e)
  | (s, none) =>
    match response.others s with
    | (changes, some e) => (changes.foldl change s, some e)
    | (changes, none) =>
      ((changes.foldl change s).saveSyncToken response.nextBatch deliveries, none)

/-- The waiting events are taken out of the list and processed in turn. -/
def retryUnknownSenderQueue (s : Inbox olm lib) : Inbox olm lib × Option String :=
  { s with unknownSenderRetry := [] }.processAll s.unknownSenderRetry

end Inbox

/-! ### What the routing refuses -/

namespace KeyRing

variable {lib : Megolm} {ring : KeyRing lib} {decrypted : DecryptedToDevice}

/-- A request that is answered, the device that gets the answer and what is in it. -/
def Owes (ring : KeyRing lib) (decrypted : DecryptedToDevice) (content : RoomKeyRequestContent)
    (target : StoredDevice) (inner : String × Json) : Prop :=
  ∃ body, content.action = .request ∧ content.body = some body ∧
    body.algorithm = megolmAlgorithm ∧ decrypted.sender ∈ ring.encryptedRoomMemberIds body.roomId ∧
    (decrypted.sender = ring.userId ∨ ring.historyForwardingAllowed body.roomId = true) ∧
    ¬ (decrypted.sender = ring.userId ∧ content.requestingDeviceId = ring.deviceId) ∧
    (decrypted.sender, content.requestingDeviceId, content.requestId) ∉ ring.keyRequestsAnswered ∧
    ring.requesterDevice decrypted content.requestingDeviceId = some target ∧
    ring.answerPayload body.roomId body.sessionId = some inner ∧
    ring.isOwnDevice target = false ∧ target.curve25519 ∈ ring.olmSessions

/-- A room key or forwarded key that the library cannot read, or a request whose answer Olm
cannot encrypt. -/
def Refuses (ring : KeyRing lib) (olm : String → Json → StoredDevice → Except String Json)
    (decrypted : DecryptedToDevice) : Prop :=
  (decrypted.eventType = "m.room_key" ∧ ∃ content,
    RoomKeyContent.read decrypted.content = some content ∧ content.algorithm = megolmAlgorithm ∧
      ∃ e, lib.ofSessionKey content.sessionKey = .error e) ∨
  (decrypted.eventType = "m.forwarded_room_key" ∧ ∃ content,
    ForwardedRoomKeyContent.read decrypted.content = some content ∧
      (ring.forwardBinding decrypted content).isSome = true ∧
      content.algorithm = megolmAlgorithm ∧ ∃ e, lib.ofExportedKey content.sessionKey = .error e) ∨
  (decrypted.eventType = "m.room_key_request" ∧ ∃ content,
    RoomKeyRequestContent.read decrypted.content = some content ∧ ∃ target inner,
      ring.Owes decrypted content target inner ∧ ∃ e, olm inner.1 inner.2 target = .error e)

/-- Olm is asked for one device if it is not this one, not blocked and there is a session. -/
theorem enqueueOlmToDevices_singleton (olm : StoredDevice → Except String Json)
    (target : StoredDevice) :
    (ring.enqueueOlmToDevices olm [target]).2.isSome = true ↔
      target.blocked = false ∧ ring.isOwnDevice target = false ∧
        target.curve25519 ∈ ring.olmSessions ∧ ∃ e, olm target = .error e := by
  by_cases hskip : (target.blocked || ring.isOwnDevice target) = true
  · have hunique : ring.uniqueTargets [target] = [] := by simp [uniqueTargets, addTarget, hskip]
    simp only [enqueueOlmToDevices, hunique]
    simp [withoutMissing, sessionsMissingFor, chunks, chunksFrom, fanOut]
    simp at hskip
    grind
  · have hunique : ring.uniqueTargets [target] = [target] := by
      simp [uniqueTargets, addTarget, hskip]
    simp only [Bool.or_eq_true, not_or, Bool.not_eq_true] at hskip
    simp only [enqueueOlmToDevices, hunique, hskip, true_and]
    by_cases hsession : target.curve25519 ∈ ring.olmSessions
    · cases holm : olm target <;>
        simp [withoutMissing, sessionsMissingFor, hsession, chunks, chunksFrom, fanOut,
          buildEncryptedToDeviceBody, maxDevicesPerSendToDeviceRequest, holm, Except.map, bind,
          Except.bind, pure, Except.pure]
    · simp [withoutMissing, sessionsMissingFor, hsession, chunks, chunksFrom, fanOut]

theorem answerRoomKeyRequest_error_iff
    (olm : String → Json → StoredDevice → Except String Json) (content : RoomKeyRequestContent) :
    (ring.answerRoomKeyRequest olm decrypted content).error.isSome = true ↔
      ∃ target inner, ring.Owes decrypted content target inner ∧
        ∃ e, olm inner.1 inner.2 target = .error e := by
  constructor
  · intro h
    unfold answerRoomKeyRequest at h
    dsimp only at h
    split at h
    any_goals cases h
    rename_i body haction hbody
    split_ifs at h with halgorithm hmember hhistory hown hanswered
    any_goals cases h
    split at h
    · rename_i target innerType payload htarget hpayload
      obtain ⟨-, hother, hsession, hfails⟩ := (enqueueOlmToDevices_singleton _ target).1 h
      refine ⟨target, (innerType, payload), ⟨body, haction, hbody, not_not.1 halgorithm,
        hmember, ?_, hown, hanswered, htarget, hpayload, hother, hsession⟩, hfails⟩
      by_cases hsame : decrypted.sender = ring.userId
      · exact .inl hsame
      · exact .inr (by simpa [hsame] using hhistory)
    · cases h
  · rintro ⟨target, ⟨innerType, payload⟩, ⟨body, haction, hbody, halgorithm, hmember, hhistory,
      hown, hanswered, htarget, hpayload, hother, hsession⟩, hfails⟩
    have hhidden : ¬ (decrypted.sender ≠ ring.userId ∧
        (!ring.historyForwardingAllowed body.roomId) = true) := by
      rintro ⟨hne, hforbidden⟩
      rw [hhistory.resolve_left hne] at hforbidden
      cases hforbidden
    unfold answerRoomKeyRequest
    simp only [haction, hbody]
    rw [if_neg (not_not.2 halgorithm), if_neg (not_not.2 hmember), if_neg hhidden, if_neg hown,
      if_neg hanswered, htarget, hpayload]
    exact (enqueueOlmToDevices_singleton _ target).2
      ⟨(requesterDevice_eq_some htarget).2, hother, hsession, hfails⟩

variable {userId : UserId} {curve ed : String}

theorem receiveRoomKey_error_iff {content : RoomKeyContent} :
    (∃ e, ring.receiveRoomKey userId curve ed content = .error e) ↔
      content.algorithm = megolmAlgorithm ∧
        ∃ e, lib.ofSessionKey content.sessionKey = .error e := by
  unfold receiveRoomKey
  by_cases halgorithm : content.algorithm = megolmAlgorithm
  · rw [if_pos halgorithm]
    cases lib.ofSessionKey content.sessionKey with
    | error e => simp [halgorithm]
    | ok incoming =>
      simp only [halgorithm, true_and, reduceCtorEq, exists_false, iff_false]
      split <;> simp
  · simp [halgorithm]

theorem receiveForwardedRoomKey_error_iff {content : ForwardedRoomKeyContent} :
    (∃ e, ring.receiveForwardedRoomKey userId curve ed content = .error e) ↔
      content.algorithm = megolmAlgorithm ∧
        ∃ e, lib.ofExportedKey content.sessionKey = .error e := by
  unfold receiveForwardedRoomKey
  by_cases halgorithm : content.algorithm = megolmAlgorithm
  · rw [if_pos halgorithm]
    cases lib.ofExportedKey content.sessionKey with
    | error e => simp [halgorithm]
    | ok incoming =>
      simp only [halgorithm, true_and, reduceCtorEq, exists_false, iff_false]
      split_ifs
      · split <;> simp
      · simp
  · simp [halgorithm]

/-- The routing fails for exactly what it refuses. -/
theorem routeDecryptedToDevice_error_iff
    (olm : String → Json → StoredDevice → Except String Json) :
    (ring.routeDecryptedToDevice olm decrypted).error.isSome = true ↔
      ring.Refuses olm decrypted := by
  unfold routeDecryptedToDevice Refuses
  split_ifs with hkey hforwarded hrequest hwithheld
  · simp only [hkey, true_and]
    split
    · rename_i hread
      simp [hread]
    · rename_i content hread
      have hreceive := @receiveRoomKey_error_iff lib ring decrypted.sender
        decrypted.senderDeviceCurve25519 decrypted.senderEd25519 content
      split_ifs with halgorithm
      · cases hresult : ring.receiveRoomKey decrypted.sender decrypted.senderDeviceCurve25519
            decrypted.senderEd25519 content with
        | error e => simpa [hresult, hread] using hreceive
        | ok stored => simpa [hresult, hread] using hreceive
      · simp [hread, halgorithm]
  · simp only [hforwarded, true_and]
    split
    · rename_i hread
      simp [hread]
    · rename_i content hread
      cases hbinding : ring.forwardBinding decrypted content with
      | none => simp [hread, hbinding]
      | some binding =>
        obtain ⟨userId, curve, ed⟩ := binding
        have hreceive := @receiveForwardedRoomKey_error_iff lib ring userId curve ed content
        cases hresult : ring.receiveForwardedRoomKey userId curve ed content with
        | error e => simpa [hresult, hread, hbinding] using hreceive
        | ok stored =>
          obtain ⟨stored, new⟩ := stored
          cases new <;> simpa [hresult, hread, hbinding] using hreceive
  · simp only [hrequest]
    split
    · rename_i hread
      simp [hread]
    · rename_i content hread
      rw [answerRoomKeyRequest_error_iff]
      simp [hread]
  · split <;> simp [hkey, hforwarded, hrequest]
  · simp [hkey, hforwarded, hrequest]

end KeyRing

/-! ### One event -/

/-- What processing events leaves as it was: the saved token's events stay covered, processed ones
stay processed, and the batches drained on the way have the records in between. -/
structure Inbox.Extends {olm : Olm} {lib : Megolm} (s after : Inbox olm lib) : Prop where
  covered : after.records.covered = s.records.covered
  processed : s.records.processed ⊆ after.records.processed
  batches : ∃ new, after.batches = s.batches ++ new ∧ ∀ records ∈ new,
    records.covered = s.records.covered ∧ s.records.processed ⊆ records.processed
  disk : after.disk = s.disk

namespace Inbox

variable {olm : Olm} {lib : Megolm} {s after last : Inbox olm lib}

theorem Extends.refl (s : Inbox olm lib) : s.Extends s :=
  ⟨rfl, fun _ h => h, ⟨[], by simp⟩, rfl⟩

theorem Extends.trans (first : s.Extends after) (second : after.Extends last) : s.Extends last := by
  obtain ⟨old, hold, hrecords⟩ := first.batches
  obtain ⟨new, hnew, hrecords'⟩ := second.batches
  refine ⟨second.covered.trans first.covered, first.processed.trans second.processed,
    ⟨old ++ new, by rw [hnew, hold, List.append_assoc], ?_⟩,
    second.disk.trans first.disk⟩
  intro records hmem
  rcases List.mem_append.1 hmem with hmem | hmem
  · exact hrecords records hmem
  · exact ⟨(hrecords' records hmem).1.trans first.covered,
      first.processed.trans (hrecords' records hmem).2⟩

/-- The store changes and nothing is settled. -/
theorem extends_records {records : Records olm lib} (hcovered : records.covered = s.records.covered)
    (hprocessed : records.processed = s.records.processed) : s.Extends { s with records } :=
  ⟨hcovered, hprocessed ▸ fun _ h => h, ⟨[], by simp⟩, rfl⟩

theorem extends_enqueue (s : Inbox olm lib) (send : DeviceSend) : s.Extends (s.enqueue send) :=
  ⟨rfl, fun _ h => h, ⟨[s.records], rfl, by simp⟩, rfl⟩

theorem extends_foldl_enqueue (s : Inbox olm lib) (sends : List DeviceSend) :
    s.Extends (sends.foldl enqueue s) :=
  Trace.run_invariant (fun v => s.Extends v) (fun v send h => h.trans (v.extends_enqueue send))
    (.refl s) sends

theorem extends_change (s : Inbox olm lib) (change : OtherChange olm lib) :
    s.Extends (s.change change) := by
  cases change with
  | store => exact extends_records rfl rfl
  | enqueue send => exact s.extends_enqueue send

theorem extends_foldl_change (s : Inbox olm lib) (changes : List (OtherChange olm lib)) :
    s.Extends (changes.foldl change s) :=
  Trace.run_invariant (fun v => s.Extends v) (fun v c h => h.trans (v.extends_change c))
    (.refl s) changes

theorem extends_settle (s : Inbox olm lib) (delivery : Delivery) :
    s.Extends (s.settle delivery) where
  covered := rfl
  processed := Finset.subset_insert _ _
  batches := ⟨[], (List.append_nil s.batches).symm, by simp⟩
  disk := rfl

theorem extends_queueUnknownSenderRetry (s : Inbox olm lib) (delivery : Delivery) :
    s.Extends (s.queueUnknownSenderRetry delivery) := by
  unfold queueUnknownSenderRetry
  generalize s.unknownSenderRetry ++ [delivery] = queue
  generalize queue.drop (queue.length - unknownSenderRetryCapacity) = kept
  exact ⟨rfl, fun _ h => h, ⟨[], by simp⟩, rfl⟩

theorem unknownSenderRetry_foldl_enqueue (s : Inbox olm lib) (sends : List DeviceSend) :
    (sends.foldl enqueue s).unknownSenderRetry = s.unknownSenderRetry :=
  Trace.run_invariant (fun v : Inbox olm lib => v.unknownSenderRetry = s.unknownSenderRetry)
    (fun _ send h => show (enqueue _ send).unknownSenderRetry = _ from h) rfl sends

theorem unknownSenderRetry_foldl_change (s : Inbox olm lib) (changes : List (OtherChange olm lib)) :
    (changes.foldl change s).unknownSenderRetry = s.unknownSenderRetry :=
  Trace.run_invariant (fun v : Inbox olm lib => v.unknownSenderRetry = s.unknownSenderRetry)
    (fun _ c h => by cases c <;> exact h) rfl changes

end Inbox

theorem Records.decryptToDevice_keeps {olm : Olm} {lib : Megolm} (records : Records olm lib)
    (ourEd25519 : String) (eventSender : UserId) (content : OlmEncryptedContent) :
    (records.decryptToDevice ourEd25519 eventSender content).1.covered = records.covered ∧
      (records.decryptToDevice ourEd25519 eventSender content).1.processed = records.processed := by
  unfold decryptToDevice
  split
  · exact ⟨rfl, rfl⟩
  · split
    · exact ⟨rfl, rfl⟩
    · split
      · exact ⟨rfl, rfl⟩
      · split <;> exact ⟨rfl, rfl⟩

namespace Inbox

variable {olm : Olm} {lib : Megolm} {s : Inbox olm lib} {delivery : Delivery}

/-- The event opens to something the routing refuses. -/
def Refuses (s : Inbox olm lib) (delivery : Delivery) : Prop :=
  delivery.event.eventType = "m.room.encrypted" ∧ ∃ content records decrypted,
    OlmEncryptedContent.read delivery.event.content = some content ∧
    s.records.decryptToDevice s.ed25519 delivery.event.sender content =
      (records, .ok decrypted) ∧
    records.ring.Refuses (olm.encrypt records.account) decrypted

/-- The event is an envelope for this device from one it does not know. -/
def SenderUnknown (s : Inbox olm lib) (delivery : Delivery) : Prop :=
  delivery.event.eventType = "m.room.encrypted" ∧
    (OlmEncryptedContent.read delivery.event.content).any (fun content =>
      isUnknownSender (s.records.decryptToDevice s.ed25519 delivery.event.sender content).2) = true

instance (s : Inbox olm lib) : DecidablePred s.SenderUnknown :=
  fun _ => inferInstanceAs (Decidable (_ ∧ _))

/-- What one event can do: it is settled, waits, or is refused. -/
inductive Outcome (s : Inbox olm lib) (delivery : Delivery) : Inbox olm lib × Option String → Prop
  | settled {after : Inbox olm lib} (known : ¬ s.SenderUnknown delivery)
      (accepted : ¬ s.Refuses delivery) (before : s.Extends after)
      (retry : after.unknownSenderRetry = s.unknownSenderRetry) :
      Outcome s delivery (after.settle delivery, none)
  | waits {after : Inbox olm lib} (unknown : s.SenderUnknown delivery)
      (accepted : ¬ s.Refuses delivery) (before : s.Extends after)
      (retry : after.unknownSenderRetry = s.unknownSenderRetry) :
      Outcome s delivery (after.queueUnknownSenderRetry delivery, none)
  | refused {after : Inbox olm lib} {e : String} (known : ¬ s.SenderUnknown delivery)
      (refused : s.Refuses delivery) (before : s.Extends after)
      (retry : after.unknownSenderRetry = s.unknownSenderRetry) :
      Outcome s delivery (after, some e)

theorem outcome_routeDecryptedToDevice {middle : Inbox olm lib} {decrypted : DecryptedToDevice}
    (known : ¬ s.SenderUnknown delivery)
    (hrefuses : s.Refuses delivery ↔ (middle.records.ring.routeDecryptedToDevice
      (olm.encrypt middle.records.account) decrypted).error.isSome = true)
    (before : s.Extends middle) (retry : middle.unknownSenderRetry = s.unknownSenderRetry) :
    Outcome s delivery (middle.routeDecryptedToDevice delivery decrypted) := by
  unfold routeDecryptedToDevice
  dsimp only
  generalize middle.records.ring.routeDecryptedToDevice (olm.encrypt middle.records.account)
    decrypted = routed at *
  generalize hsender : middle.saveAccount (olm.afterSends middle.records.account routed.sent) =
    sender
  have hextends : s.Extends ((routed.sent.foldl enqueue sender).saveRing routed.ring) := by
    refine ((before.trans ?_).trans (sender.extends_foldl_enqueue routed.sent)).trans
      (extends_records rfl rfl)
    exact hsender ▸ extends_records rfl rfl
  have hretry : ((routed.sent.foldl enqueue sender).saveRing routed.ring).unknownSenderRetry =
      s.unknownSenderRetry := by
    refine (sender.unknownSenderRetry_foldl_enqueue routed.sent).trans ?_
    exact hsender ▸ retry
  cases herror : routed.error with
  | some e => exact .refused known (hrefuses.2 (by simp [herror])) hextends hretry
  | none => exact .settled known (by simp [hrefuses, herror]) hextends hretry

theorem outcome_processToDeviceEvent (s : Inbox olm lib) (delivery : Delivery) :
    Outcome s delivery (s.processToDeviceEvent delivery) := by
  unfold processToDeviceEvent
  split_ifs with htype
  · exact .settled (fun h => htype h.1) (fun h => htype h.1) (.refl s) rfl
  · replace htype := not_not.1 htype
    cases hread : OlmEncryptedContent.read delivery.event.content with
    | none =>
      exact .settled (by simp [SenderUnknown, hread]) (by simp [Refuses, hread]) (.refl s) rfl
    | some content =>
      obtain ⟨hcovered, hprocessed⟩ :=
        s.records.decryptToDevice_keeps s.ed25519 delivery.event.sender content
      have hunknown : s.SenderUnknown delivery ↔ isUnknownSender
          (s.records.decryptToDevice s.ed25519 delivery.event.sender content).2 = true := by
        simp [SenderUnknown, htype, hread]
      have hrefuses : s.Refuses delivery ↔ ∃ records decrypted,
          s.records.decryptToDevice s.ed25519 delivery.event.sender content =
            (records, .ok decrypted) ∧
          records.ring.Refuses (olm.encrypt records.account) decrypted := by
        simp [Refuses, htype, hread]
      dsimp only
      generalize s.records.decryptToDevice s.ed25519 delivery.event.sender content = opened at *
      obtain ⟨records, result⟩ := opened
      have hextends : s.Extends { s with records } := extends_records hcovered hprocessed
      cases result with
      | ok decrypted =>
        have hknown : ¬ s.SenderUnknown delivery := by simp [hunknown, isUnknownSender]
        have hrefused : s.Refuses delivery ↔
            records.ring.Refuses (olm.encrypt records.account) decrypted := by
          simp [hrefuses]
        rw [← KeyRing.routeDecryptedToDevice_error_iff] at hrefused
        exact outcome_routeDecryptedToDevice hknown hrefused hextends rfl
      | error e =>
        have haccepted : ¬ s.Refuses delivery := by simp [hrefuses]
        cases e with
        | unknownSenderDevice => exact .waits (hunknown.2 rfl) haccepted hextends rfl
        | _ => exact .settled (by simp [hunknown, isUnknownSender]) haccepted hextends rfl

namespace Outcome

variable {result : Inbox olm lib × Option String}

section

variable (h : Outcome s delivery result)

include h

theorem error_iff : result.2 = none ↔ ¬ s.Refuses delivery := by
  cases h with
  | settled _ accepted => simpa using accepted
  | waits _ accepted => simpa using accepted
  | refused _ refused => simpa using refused

theorem before : s.Extends result.1 := by
  cases h with
  | settled _ _ before => exact before.trans (extends_settle _ delivery)
  | waits _ _ before => exact before.trans (extends_queueUnknownSenderRetry _ delivery)
  | refused _ _ before => exact before

theorem known (known : ¬ s.SenderUnknown delivery) :
    result.1.unknownSenderRetry = s.unknownSenderRetry ∧
      (result.2 = none → delivery.number ∈ result.1.records.processed) := by
  cases h with
  | settled _ _ _ retry => exact ⟨retry, fun _ => Finset.mem_insert_self _ _⟩
  | waits unknown => exact absurd unknown known
  | refused _ _ _ retry => exact ⟨retry, nofun⟩

end

end Outcome

/-! ### The events of a response in turn -/

/-- The state after an event, whether or not it was refused. -/
def after (s : Inbox olm lib) (delivery : Delivery) : Inbox olm lib :=
  (s.processToDeviceEvent delivery).1

theorem processAll_cons (s : Inbox olm lib) (delivery : Delivery) (rest : List Delivery) :
    s.processAll (delivery :: rest) =
      match (s.processToDeviceEvent delivery).2 with
      | some e => (s.after delivery, some e)
      | none => (s.after delivery).processAll rest := by
  rw [processAll, after]
  rcases s.processToDeviceEvent delivery with ⟨after, _ | e⟩ <;> rfl

theorem extends_processAll (s : Inbox olm lib) (deliveries : List Delivery) :
    s.Extends (s.processAll deliveries).1 := by
  induction deliveries generalizing s with
  | nil => exact .refl s
  | cons delivery rest ih =>
    have hfirst : s.Extends (s.after delivery) := (s.outcome_processToDeviceEvent delivery).before
    rw [processAll_cons]
    cases (s.processToDeviceEvent delivery).2 with
    | some e => exact hfirst
    | none => exact hfirst.trans (ih _)

/-! ### Ingesting a response -/

/-- The changes that the sections after the to-device events make. -/
def otherChanges (s : Inbox olm lib) (response : ToDeviceSync olm lib) : Inbox olm lib :=
  let after := ((s.arrive response.events).processAll (s.deliveries response.events)).1
  (response.others after).1.foldl change after

theorem ingestSync_eq (s : Inbox olm lib) (response : ToDeviceSync olm lib) :
    s.ingestSync response =
      let events := (s.arrive response.events).processAll (s.deliveries response.events)
      match events.2, (response.others events.1).2 with
      | some e, _ => (events.1, some e)
      | none, some e => (s.otherChanges response, some e)
      | none, none => ((s.otherChanges response).saveSyncToken response.nextBatch
          (s.deliveries response.events), none) := by
  unfold ingestSync otherChanges
  dsimp only
  rcases (s.arrive response.events).processAll (s.deliveries response.events) with
    ⟨after, _ | e⟩
  · dsimp only
    rcases response.others after with ⟨changes, _ | e⟩ <;> rfl
  · rfl

end Inbox

/-! ### Readable and malformed room keys -/

/-- A library that reads every key but one. -/
def strictMegolm : Megolm :=
  let read (key : String) : Except String String :=
    if key = "bad" then .error "not a session key" else .ok key
  { plainMegolm with Inbound := String, ofSessionKey := read, ofExportedKey := read }

/-- A library whose messages number the given payloads. -/
def plainOlm (payloads : List Json) : Olm where
  State := Unit
  Message := Nat
  decodeMessage info := .ok info.messageType
  isPreKey _ := true
  decryptKnown _ _ _ := none
  createInboundSession _ _ message := .ok ((), [UInt8.ofNat message])
  parsePayload bytes := bytes.head?.bind fun byte => payloads[byte.toNat]?
  encrypt _ _ _ _ := .ok .null
  afterSends _ _ := ()

/-- A room key of Bob's device for this one. -/
def roomKeyPayload (sessionKey : String) : Json :=
  .obj [("type", .str "m.room_key"), ("content", .obj [("algorithm", .str megolmAlgorithm),
      ("room_id", .str "!r:a"), ("session_id", .str "s"), ("session_key", .str sessionKey)]),
    ("sender", .str "@bob:a"), ("sender_device", .str "BOB1"),
    ("keys", .obj [("ed25519", .str "bobed")]), ("recipient", .str "@me:a"),
    ("recipient_keys", .obj [("ed25519", .str "myed")])]

def keyPayloads : List Json := [roomKeyPayload "bad", roomKeyPayload "good"]

/-- The envelope of the payload with this number. -/
def envelope (payload : Nat) : ToDeviceEvent where
  sender := ⟨"@bob:a"⟩
  eventType := "m.room.encrypted"
  content := .obj [("algorithm", .str olmAlgorithm), ("sender_key", .str "bobcurve"),
    ("ciphertext", .obj [("mycurve", .obj [("type", .int payload), ("body", .str "")])])]

/-- A start of this device that knows the given devices. -/
def freshInbox (devices : List StoredDevice) : Inbox (plainOlm keyPayloads) strictMegolm :=
  let records : Records (plainOlm keyPayloads) strictMegolm :=
    { ring := { userId := ⟨"@me:a"⟩, deviceId := ⟨"ME1"⟩, curve25519 := "mycurve", devices }
      account := () }
  { ed25519 := "myed", records, disk := records }

def syncOf (payloads : List Nat) : ToDeviceSync (plainOlm keyPayloads) strictMegolm where
  events := payloads.map envelope
  others _ := ([], none)
  nextBatch := "s1"

end Messenger
