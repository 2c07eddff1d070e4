import Mail4Agent.Messenger.StoreRun
import Mail4Agent.Messenger.Timeline
import Mail4Agent.Vodozemac.InboundGroupSession

/-!
# Inbound sessions in the store

Under a room and a session id the store keeps a Megolm session together with the sender it is bound
to and a table of the message indices seen so far. Room keys, direct, forwarded or this device's
own, make such records or improve them, and decrypting an event enters its index into the table.

Seen from the store all of this is one kind of move: a record is made in an empty slot, or the one
in the slot is replaced by one that extends it (`InboundMove`). A record that extends another is
bound to the same sender, has the same ratchet from the same index on or an earlier one, and every
entry of the other's table.
-/

namespace Messenger

open Vodozemac (Primitives GroupSession InboundGroupSession InboundGroupSessionPickle
  DecryptionError MegolmMessage)

/-! ### Records -/

/-- The event an index was first seen with. -/
structure ReplayEntry where
  eventId : EventId
  originServerTs : Int
deriving DecidableEq, Repr

structure InboundGroupSessionRecord (prim : Primitives) where
  session : InboundGroupSessionPickle prim
  boundUserId : UserId
  boundSenderCurve25519 : String
  boundSenderEd25519 : String
  replayIndex : BTreeMap UInt32 ReplayEntry

/-- A decrypted event with the room it was encrypted for. -/
structure SealedPlaintext extends RoomEventPlaintext where
  roomId : RoomId

/-- The cryptography and the formats of records and plaintexts. -/
structure MegolmEnv where
  prim : Primitives
  readRecord : Bytes → Except String (InboundGroupSessionRecord prim)
  writeRecord : InboundGroupSessionRecord prim → Bytes
  readPlaintext : Bytes → Except String SealedPlaintext

/-- Records are read as they were written, and a session key decodes to the session it was made
from. -/
structure MegolmEnv.Laws (env : MegolmEnv) : Prop where
  read_write : ∀ record, env.readRecord (env.writeRecord record) = .ok record
  decode_encode : ∀ ratchet signingKey, ∃ signature,
    env.prim.decodeSessionKey (env.prim.encodeSessionKey ratchet signingKey) =
      .ok ⟨⟨ratchet.counter, ratchet.inner, signingKey⟩, signature⟩

inductive RecordMergeOutcome (prim : Primitives) where
  | new (record : InboundGroupSessionRecord prim)
  | kept
  | merged (record : InboundGroupSessionRecord prim)
  | ignoredSenderMismatch

inductive GroupDecryptError where
  | missingSession (roomId : RoomId) (sessionId : String)
  | wrongRoom (eventRoomId plaintextRoomId : RoomId)
  | wrongSender (boundUserId eventSender : UserId)
  | replay (sessionId : String) (messageIndex : UInt32)
  | malformedCiphertext (source : String)
  | vodozemac (source : DecryptionError)
  | invalidPayload (source : String)
deriving DecidableEq, Repr

/-- An `m.room.encrypted` event of the timeline. -/
structure SealedEvent where
  roomId : RoomId
  eventId : EventId
  originServerTs : Int
  sender : UserId
  content : MegolmEncryptedContent

/-- The message index an event's ciphertext names. -/
def SealedEvent.messageIndex (prim : Primitives) (event : SealedEvent) : Option UInt32 :=
  (prim.decodeMessage event.content.ciphertext).toOption.map MegolmMessage.messageIndex

namespace GroupSessionManager

variable {prim : Primitives} (env : MegolmEnv)

/-- A record that is there is replaced only by a session that goes further back, and only if its
sender is the one the record is bound to. -/
def mergeInboundSession (existing : Option (InboundGroupSessionRecord prim))
    (incoming : InboundGroupSession prim) (senderUserId : UserId)
    (senderCurve25519 senderEd25519 : String) : RecordMergeOutcome prim :=
  match existing with
  | none => .new ⟨incoming.pickle, senderUserId, senderCurve25519, senderEd25519, ∅⟩
  | some record =>
    match (InboundGroupSession.fromPickle record.session).compare incoming with
    | (.worse, session, incoming) =>
      if record.boundUserId = senderUserId ∧ record.boundSenderCurve25519 = senderCurve25519 ∧
          record.boundSenderEd25519 = senderEd25519 then
        let merged := (session.merge incoming).getD (.fromPickle incoming.pickle)
        .merged { record with session := merged.pickle }
      else .ignoredSenderMismatch
    | _ => .kept

def loadInboundRecord (store : Store) (roomId : RoomId) (sessionId : String) :
    Except String (Option (InboundGroupSessionRecord env.prim)) :=
  match lookupNested store.inboundGroupSessions roomId sessionId with
  | none => .ok none
  | some bytes =>
    match env.readRecord bytes with
    | .ok record => .ok (some record)
    | .error source =>
      let room := roomId.value
      .error s!"decode inbound Megolm session for room {room} session {sessionId}: {source}"

def saveInboundRecord (store : Store) (roomId : RoomId) (sessionId : String)
    (record : InboundGroupSessionRecord env.prim) : Store :=
  store.saveInboundGroupSession roomId sessionId (env.writeRecord record)

/-- What both kinds of room keys end with; the Boolean is whether something was stored. -/
def storeMerged (store : Store) (roomId : RoomId) (sessionId : String)
    (incoming : InboundGroupSession env.prim) (senderUserId : UserId)
    (senderCurve25519 senderEd25519 : String) : Except String (Store × Bool) := do
  let existing ← loadInboundRecord env store roomId sessionId
  match mergeInboundSession existing incoming senderUserId senderCurve25519 senderEd25519 with
  | .new record | .merged record => .ok (saveInboundRecord env store roomId sessionId record, true)
  | .kept | .ignoredSenderMismatch => .ok (store, false)

/-- The session id in the content is taken as the name of the slot. -/
def receiveRoomKey (store : Store) (senderUserId : UserId)
    (senderCurve25519 senderEd25519 : String) (content : RoomKeyContent) : Except String Store :=
  if content.algorithm ≠ megolmAlgorithm then .ok store
  else
    match env.prim.decodeSessionKey content.sessionKey with
    | .error source => .error s!"malformed Megolm session_key: {source}"
    | .ok key =>
      (storeMerged env store content.roomId content.sessionId (.new key) senderUserId
        senderCurve25519 senderEd25519).map Prod.fst

/-- Here the session id has to be that of the key. -/
def receiveForwardedRoomKey (store : Store) (boundUserId : UserId)
    (boundCurve25519 boundEd25519 : String) (content : ForwardedRoomKeyContent) :
    Except String (Store × Bool) :=
  if content.algorithm ≠ megolmAlgorithm then .ok (store, false)
  else
    match env.prim.decodeExportedSessionKey content.sessionKey with
    | .error source => .error s!"malformed forwarded Megolm session_key: {source}"
    | .ok key =>
      let incoming := InboundGroupSession.import key
      if incoming.sessionId ≠ content.sessionId then .ok (store, false)
      else
        storeMerged env store content.roomId content.sessionId incoming boundUserId
          boundCurve25519 boundEd25519

/-- What sharing an outbound session tells about it. -/
structure OutboundSessionUpdate where
  sessionId : String
  rotated : Bool
  sessionKey : String

/-- The update names the session's id and its key at the present ratchet. -/
def OutboundSessionUpdate.of (session : GroupSession prim) (rotated : Bool) :
    OutboundSessionUpdate :=
  ⟨session.sessionId, rotated, prim.encodeSessionKey session.ratchet session.signingKey⟩

/-- The creator of a session stores it as a receiver would. -/
def adoptOwnOutboundSession (store : Store) (roomId : RoomId) (ourUserId : UserId)
    (ourCurve25519 ourEd25519 : String) (update : OutboundSessionUpdate) : Except String Store :=
  if update.rotated then
    receiveRoomKey env store ourUserId ourCurve25519 ourEd25519
      ⟨megolmAlgorithm, roomId, update.sessionId, update.sessionKey⟩
  else .ok store

def decryptEvent (store : Store) (event : SealedEvent) :
    Except GroupDecryptError (SealedPlaintext × Store) :=
  match lookupNested store.inboundGroupSessions event.roomId event.content.sessionId with
  | none => .error (.missingSession event.roomId event.content.sessionId)
  | some bytes =>
    match env.readRecord bytes with
    | .error source => .error (.invalidPayload source)
    | .ok record =>
      match env.prim.decodeMessage event.content.ciphertext with
      | .error source => .error (.malformedCiphertext source)
      | .ok message =>
        match (InboundGroupSession.fromPickle record.session).decrypt message with
        | (.error source, _) => .error (.vodozemac source)
        | (.ok decrypted, session) =>
          match env.readPlaintext decrypted.plaintext with
          | .error source => .error (.invalidPayload source)
          | .ok plaintext =>
            if plaintext.roomId ≠ event.roomId then
              .error (.wrongRoom event.roomId plaintext.roomId)
            else if record.boundUserId ≠ event.sender then
              .error (.wrongSender record.boundUserId event.sender)
            else
              match record.replayIndex[decrypted.messageIndex]? with
              | some seen =>
                if seen.eventId ≠ event.eventId ∨ seen.originServerTs ≠ event.originServerTs then
                  .error (.replay event.content.sessionId decrypted.messageIndex)
                else .ok (plaintext, store)
              | none =>
                .ok (plaintext, saveInboundRecord env store event.roomId event.content.sessionId
                  { record with
                    session := session.pickle
                    replayIndex := record.replayIndex.insert decrypted.messageIndex
                      ⟨event.eventId, event.originServerTs⟩ })

end GroupSessionManager

/-! ### Extending a record -/

/-- Same sender, same ratchet from the same index on or an earlier one, and no entry lost. -/
structure InboundGroupSessionRecord.Extends {prim : Primitives}
    (old new : InboundGroupSessionRecord prim) : Prop where
  session : old.session.Extends new.session
  boundUserId : new.boundUserId = old.boundUserId
  boundSenderCurve25519 : new.boundSenderCurve25519 = old.boundSenderCurve25519
  boundSenderEd25519 : new.boundSenderEd25519 = old.boundSenderEd25519
  replayIndex : ∀ (index : UInt32) entry, old.replayIndex[index]? = some entry →
    new.replayIndex[index]? = some entry

namespace InboundGroupSessionRecord.Extends

variable {prim : Primitives} {a b c : InboundGroupSessionRecord prim}

theorem refl (a : InboundGroupSessionRecord prim) : a.Extends a :=
  ⟨.refl _, rfl, rfl, rfl, fun _ _ h => h⟩

theorem trans (hab : a.Extends b) (hbc : b.Extends c) : a.Extends c where
  session := hab.session.trans hbc.session
  boundUserId := hbc.boundUserId.trans hab.boundUserId
  boundSenderCurve25519 := hbc.boundSenderCurve25519.trans hab.boundSenderCurve25519
  boundSenderEd25519 := hbc.boundSenderEd25519.trans hab.boundSenderEd25519
  replayIndex index entry h := hbc.replayIndex index entry (hab.replayIndex index entry h)

end InboundGroupSessionRecord.Extends

/-- The inbound sessions of the store do not change, or one record does: it is made in an empty
slot, with `fresh` of it, or extends the one in its slot. -/
inductive InboundMove (env : MegolmEnv)
    (fresh : RoomId → String → InboundGroupSessionRecord env.prim → Prop) (store : Store) :
    Store → Prop
  | keep : InboundMove env fresh store store
  | first {roomId : RoomId} {sessionId : String} {record : InboundGroupSessionRecord env.prim}
      (vacant : lookupNested store.inboundGroupSessions roomId sessionId = none)
      (made : fresh roomId sessionId record) :
      InboundMove env fresh store
        (GroupSessionManager.saveInboundRecord env store roomId sessionId record)
  | improve {roomId : RoomId} {sessionId : String} {bytes : Bytes}
      {old new : InboundGroupSessionRecord env.prim}
      (held : lookupNested store.inboundGroupSessions roomId sessionId = some bytes)
      (read : env.readRecord bytes = .ok old) (extended : old.Extends new) :
      InboundMove env fresh store
        (GroupSessionManager.saveInboundRecord env store roomId sessionId new)

theorem InboundMove.mono {env : MegolmEnv} {store after : Store}
    {fresh fresh' : RoomId → String → InboundGroupSessionRecord env.prim → Prop}
    (h : ∀ roomId sessionId record, fresh roomId sessionId record → fresh' roomId sessionId record)
    (move : InboundMove env fresh store after) : InboundMove env fresh' store after := by
  cases move with
  | keep => exact .keep
  | first vacant made => exact .first vacant (h _ _ _ made)
  | improve held read extended => exact .improve held read extended

namespace GroupSessionManager

open Vodozemac.InboundGroupSession

variable {env : MegolmEnv} {store : Store}

variable {prim : Primitives} {existing : Option (InboundGroupSessionRecord prim)}
  {incoming : InboundGroupSession prim} {userId : UserId} {curve ed : String}
  {result : Store × Bool} {content : RoomKeyContent} {plaintext : SealedPlaintext}

/-- A merged record extends the one that was there. -/
theorem mergeInboundSession_merged {record : InboundGroupSessionRecord prim}
    (h : mergeInboundSession existing incoming userId curve ed = .merged record) :
    ∃ old, existing = some old ∧ old.Extends record := by
  cases existing with
  | none => cases h
  | some old =>
    refine ⟨old, rfl, ?_⟩
    rw [mergeInboundSession] at h
    have hworse := @InboundGroupSession.compare_worse _ (.fromPickle old.session) incoming
    have hmerge := @InboundGroupSession.merge_of_worse _ (.fromPickle old.session) incoming
    generalize (fromPickle old.session).compare incoming = result
      at h hworse hmerge
    obtain ⟨ordering, session, incoming'⟩ := result
    cases ordering with
    | worse =>
      obtain ⟨merged, hmerged, hratchet, hkey⟩ := hmerge rfl
      obtain ⟨hextends, -⟩ := hworse rfl
      dsimp only at h hmerged
      split_ifs at h
      rw [hmerged, Option.getD_some] at h
      cases h
      have hsession : merged.pickle.initialRatchet = incoming.initialRatchet := hratchet
      refine ⟨⟨hkey, ?_, ?_⟩, rfl, rfl, rfl, fun _ _ h => h⟩
      · rw [hsession]
        exact hextends.first
      · rw [hsession]
        exact hextends.ratchet
    | _ => cases h

theorem mergeInboundSession_new {record : InboundGroupSessionRecord prim}
    (h : mergeInboundSession existing incoming userId curve ed = .new record) :
    existing = none ∧ record = ⟨incoming.pickle, userId, curve, ed, ∅⟩ := by
  cases existing with
  | none => exact ⟨rfl, (RecordMergeOutcome.new.inj h).symm⟩
  | some old =>
    rw [mergeInboundSession] at h
    split at h
    · split_ifs at h
    · cases h

/-- Storing a merged session is a move; a record it makes holds that session and is bound to the
given user. -/
theorem storeMerged_move {roomId : RoomId} {sessionId : String}
    {incoming : InboundGroupSession env.prim}
    (h : storeMerged env store roomId sessionId incoming userId curve ed = .ok result) :
    InboundMove env (fun room id record =>
      room = roomId ∧ id = sessionId ∧ record.session = incoming.pickle ∧
        record.boundUserId = userId) store result.1 := by
  rw [storeMerged, loadInboundRecord] at h
  cases hbytes : lookupNested store.inboundGroupSessions roomId sessionId with
  | none =>
    simp only [hbytes, bind, Except.bind] at h
    cases h
    exact .first hbytes ⟨rfl, rfl, rfl, rfl⟩
  | some bytes =>
    cases hread : env.readRecord bytes with
    | error source => simp [hbytes, hread, bind, Except.bind] at h
    | ok old =>
      simp only [hbytes, hread, bind, Except.bind] at h
      split at h
      · next record hnew => cases (mergeInboundSession_new hnew).1
      · next record hmerged =>
        cases h
        obtain ⟨old', heq, hextends⟩ := mergeInboundSession_merged hmerged
        cases heq
        exact .improve hbytes hread hextends
      all_goals
        cases h
        exact .keep

theorem receiveRoomKey_move {after : Store}
    (h : receiveRoomKey env store userId curve ed content = .ok after) :
    InboundMove env (fun roomId sessionId record => content.algorithm = megolmAlgorithm ∧
      ∃ key, env.prim.decodeSessionKey content.sessionKey = .ok key ∧ roomId = content.roomId ∧
        sessionId = content.sessionId ∧ record.session = (InboundGroupSession.new key).pickle ∧
          record.boundUserId = userId)
      store after := by
  rw [receiveRoomKey] at h
  split_ifs at h with halgorithm
  · cases h
    exact .keep
  · split at h
    · cases h
    · next key hkey =>
      cases hstored : storeMerged env store content.roomId content.sessionId (.new key) userId
          curve ed with
      | error e => simp [hstored, Except.map] at h
      | ok result =>
        rw [hstored] at h
        cases h
        exact (storeMerged_move hstored).mono fun _ _ _ made =>
          ⟨not_not.1 halgorithm, key, hkey, made⟩

/-- A room key that finds its slot empty fills it. -/
theorem receiveRoomKey_vacant (halgorithm : content.algorithm = megolmAlgorithm)
    (vacant : lookupNested store.inboundGroupSessions content.roomId content.sessionId = none)
    {key : Vodozemac.SessionKey env.prim.Part}
    (hkey : env.prim.decodeSessionKey content.sessionKey = .ok key) :
    receiveRoomKey env store userId curve ed content =
      .ok (saveInboundRecord env store content.roomId content.sessionId
        ⟨(InboundGroupSession.new key).pickle, userId, curve, ed, ∅⟩) := by
  rw [receiveRoomKey, if_neg (not_not.2 halgorithm), hkey]
  simp [storeMerged, loadInboundRecord, vacant, bind, Except.bind, Except.map, mergeInboundSession]

theorem receiveForwardedRoomKey_move {content : ForwardedRoomKeyContent}
    (h : receiveForwardedRoomKey env store userId curve ed content = .ok result) :
    InboundMove env (fun roomId sessionId record => roomId = content.roomId ∧
      sessionId = content.sessionId ∧ record.boundUserId = userId ∧
      env.prim.base64Encode record.session.signingKey = sessionId) store result.1 := by
  rw [receiveForwardedRoomKey] at h
  split_ifs at h
  · cases h
    exact .keep
  · split at h
    · cases h
    · next key hkey =>
      dsimp only at h
      split_ifs at h with hid
      · cases h
        exact .keep
      · refine (storeMerged_move h).mono ?_
        rintro _ _ record ⟨rfl, rfl, hsession, hbound⟩
        refine ⟨rfl, rfl, hbound, ?_⟩
        rw [hsession]
        exact not_not.1 hid

/-- What a decrypted event has passed: its record, read from the slot, the message
and the checks. -/
structure Decrypts (env : MegolmEnv) (store : Store) (event : SealedEvent)
    (record : InboundGroupSessionRecord env.prim) (message : MegolmMessage)
    (plaintext : SealedPlaintext) : Prop where
  held : ∃ bytes, lookupNested store.inboundGroupSessions event.roomId event.content.sessionId =
    some bytes ∧ env.readRecord bytes = .ok record
  decoded : env.prim.decodeMessage event.content.ciphertext = .ok message
  opened : ∃ decrypted, ((InboundGroupSession.fromPickle record.session).decrypt message).1 =
    .ok decrypted ∧ env.readPlaintext decrypted.plaintext = .ok plaintext
  room : plaintext.roomId = event.roomId
  sender : record.boundUserId = event.sender
  unseen : ∀ seen, record.replayIndex[message.messageIndex]? = some seen →
    seen = ⟨event.eventId, event.originServerTs⟩

/-- The record after an event was decrypted. -/
def seenRecord {prim : Primitives} (record : InboundGroupSessionRecord prim) (index : UInt32)
    (event : SealedEvent) : InboundGroupSessionRecord prim :=
  { record with
    replayIndex := record.replayIndex.insert index ⟨event.eventId, event.originServerTs⟩ }

/-- Decrypting succeeds exactly if everything is passed, and enters an index it has not seen. -/
theorem decryptEvent_ok_iff {event : SealedEvent} {after : Store} :
    decryptEvent env store event = .ok (plaintext, after) ↔
      ∃ record message, Decrypts env store event record message plaintext ∧
        after = if record.replayIndex[message.messageIndex]?.isSome then store
          else saveInboundRecord env store event.roomId event.content.sessionId
            (seenRecord record message.messageIndex event) := by
  rw [decryptEvent]
  constructor
  · intro h
    split at h
    · cases h
    · next bytes hbytes =>
      split at h
      · cases h
      · next record hread =>
        split at h
        · cases h
        · next message hmessage =>
          have hsame := (fromPickle record.session).decrypt_snd message
          split at h
          · cases h
          · next decrypted session hopened =>
            have hopened' : ((fromPickle record.session).decrypt message).1 =
                .ok decrypted := by rw [hopened]
            have hindex := (decrypt_ok hopened').1
            rw [hopened] at hsame
            have hsession : session.pickle = record.session := hsame
            split at h
            · cases h
            · next plaintext' hplaintext =>
              split_ifs at h with hroom hsender
              split at h
              · next seen hseen =>
                split_ifs at h with hother
                cases h
                rw [hindex] at hseen
                refine ⟨record, message, ⟨⟨bytes, hbytes, hread⟩, hmessage,
                  ⟨decrypted, hopened', hplaintext⟩, not_not.1 hroom, not_not.1 hsender, ?_⟩,
                  by rw [hseen]; rfl⟩
                rintro seen' hseen'
                cases hseen.symm.trans hseen'
                push Not at hother
                obtain ⟨hid, hts⟩ := hother
                cases seen
                simp_all
              · next hseen =>
                cases h
                rw [hindex] at hseen
                refine ⟨record, message, ⟨⟨bytes, hbytes, hread⟩, hmessage,
                  ⟨decrypted, hopened', hplaintext⟩, not_not.1 hroom, not_not.1 hsender, ?_⟩, ?_⟩
                · simp [hseen]
                · rw [hseen, hindex, hsession]
                  rfl
  · rintro ⟨record, message, ⟨⟨bytes, hbytes, hread⟩, hmessage, ⟨decrypted, hopened, hplaintext⟩,
      hroom, hsender, hunseen⟩, rfl⟩
    have hindex := (decrypt_ok hopened).1
    have hsame := (fromPickle record.session).decrypt_snd message
    generalize hresult : (fromPickle record.session).decrypt message = result
      at hopened hsame
    obtain ⟨outcome, session⟩ := result
    dsimp only at hopened hsame
    subst hopened
    have hsession : session.pickle = record.session := hsame
    simp only [hbytes, hread, hmessage, hresult, hplaintext, hroom, hsender, hindex, ne_eq,
      not_true_eq_false, if_false]
    cases hseen : record.replayIndex[message.messageIndex]? with
    | some seen =>
      obtain rfl := hunseen seen hseen
      simp
    | none => simp [seenRecord, hsession, hsender]

/-- Decrypting is a move that makes no record. -/
theorem decryptEvent_move {event : SealedEvent} {after : Store}
    (h : decryptEvent env store event = .ok (plaintext, after)) :
    InboundMove env (fun _ _ _ => False) store after := by
  obtain ⟨record, message, hdecrypts, rfl⟩ := decryptEvent_ok_iff.1 h
  obtain ⟨bytes, hbytes, hread⟩ := hdecrypts.held
  split_ifs with hseen
  · exact .keep
  · refine .improve hbytes hread ⟨.refl _, rfl, rfl, rfl, fun index entry hentry => ?_⟩
    rw [seenRecord, getElem?_insert_ite, if_neg]
    · exact hentry
    · rintro rfl
      simp [hentry] at hseen

/-- The record knows the event: it opens it, and has it in its table. -/
structure Seen (env : MegolmEnv) (record : InboundGroupSessionRecord env.prim)
    (event : SealedEvent) (message : MegolmMessage) (plaintext : SealedPlaintext) : Prop where
  decoded : env.prim.decodeMessage event.content.ciphertext = .ok message
  opened : ∃ decrypted, ((InboundGroupSession.fromPickle record.session).decrypt message).1 =
    .ok decrypted ∧ env.readPlaintext decrypted.plaintext = .ok plaintext
  room : plaintext.roomId = event.roomId
  sender : record.boundUserId = event.sender
  entry : record.replayIndex[message.messageIndex]? =
    some ⟨event.eventId, event.originServerTs⟩

/-- After an event was decrypted, the record in its slot knows it. -/
theorem seen_of_decryptEvent (laws : env.Laws) {event : SealedEvent} {after : Store}
    (h : decryptEvent env store event = .ok (plaintext, after)) :
    ∃ bytes record message,
      lookupNested after.inboundGroupSessions event.roomId event.content.sessionId = some bytes ∧
        env.readRecord bytes = .ok record ∧ Seen env record event message plaintext := by
  obtain ⟨record, message, hdecrypts, rfl⟩ := decryptEvent_ok_iff.1 h
  obtain ⟨bytes, hbytes, hread⟩ := hdecrypts.held
  cases hentry : record.replayIndex[message.messageIndex]? with
  | some seen =>
    obtain rfl := hdecrypts.unseen seen hentry
    exact ⟨bytes, record, message, hbytes, hread, hdecrypts.decoded, hdecrypts.opened,
      hdecrypts.room, hdecrypts.sender, hentry⟩
  | none =>
    refine ⟨_, seenRecord record message.messageIndex event, message, ?_, laws.read_write _,
      hdecrypts.decoded, hdecrypts.opened, hdecrypts.room, hdecrypts.sender, ?_⟩
    · rw [Option.isSome_none, if_neg Bool.false_ne_true, saveInboundRecord,
        Store.saveInboundGroupSession, lookupNested_insertNested, if_pos ⟨rfl, rfl⟩]
    · exact Std.ExtTreeMap.getElem?_insert_self

namespace Seen

variable {record : InboundGroupSessionRecord env.prim} {event : SealedEvent}
  {message : MegolmMessage} {plaintext : SealedPlaintext}

/-- A record that extends one that knows the event knows it too. -/
theorem extend (h : Seen env record event message plaintext)
    {new : InboundGroupSessionRecord env.prim} (extended : record.Extends new) :
    Seen env new event message plaintext := by
  obtain ⟨decrypted, hopened, hplaintext⟩ := h.opened
  have hfirst := (decrypt_ok hopened).2
  have hsame : ((fromPickle new.session).decrypt message).1 =
      ((fromPickle record.session).decrypt message).1 :=
    decrypt_of_extends extended.session hfirst
  exact ⟨h.decoded, ⟨decrypted, hsame.trans hopened, hplaintext⟩, h.room,
    extended.boundUserId.trans h.sender, extended.replayIndex _ _ h.entry⟩

variable {bytes : Bytes}
  (held : lookupNested store.inboundGroupSessions event.roomId event.content.sessionId = some bytes)
  (read : env.readRecord bytes = .ok record)

include held read

/-- An event that is known decrypts. -/
theorem decryptEvent_eq (h : Seen env record event message plaintext) :
    decryptEvent env store event = .ok (plaintext, store) := by
  refine decryptEvent_ok_iff.2 ⟨record, message, ⟨⟨bytes, held, read⟩, h.decoded, h.opened, h.room,
    h.sender, fun seen hseen => ?_⟩, ?_⟩
  · exact Option.some.inj (hseen.symm.trans h.entry)
  · simp [h.entry]

/-- Of the events with the session and the index of a known one, only those with its id and
timestamp decrypt. -/
theorem eq_of_decryptEvent (h : Seen env record event message plaintext) {other : SealedEvent}
    (hroom : other.roomId = event.roomId)
    (hsession : other.content.sessionId = event.content.sessionId)
    (hindex : other.messageIndex env.prim = event.messageIndex env.prim)
    {result : SealedPlaintext × Store} (hother : decryptEvent env store other = .ok result) :
    other.eventId = event.eventId ∧ other.originServerTs = event.originServerTs := by
  obtain ⟨record', message', hdecrypts, -⟩ := decryptEvent_ok_iff.1 hother
  obtain ⟨bytes', hbytes', hread'⟩ := hdecrypts.held
  rw [hroom, hsession, held] at hbytes'
  cases hbytes'
  cases read.symm.trans hread'
  have hsame : message'.messageIndex = message.messageIndex := by
    simpa [SealedEvent.messageIndex, hdecrypts.decoded, h.decoded, Except.toOption] using hindex
  have hentry := hdecrypts.unseen ⟨event.eventId, event.originServerTs⟩ (by rw [hsame, h.entry])
  exact ⟨(ReplayEntry.mk.inj hentry).1.symm, (ReplayEntry.mk.inj hentry).2.symm⟩

end Seen

end GroupSessionManager

end Messenger
