import Mail4Agent.Messenger.InboundSessions

/-!
# Runs of room keys and decryptions

Room keys arrive from peers, are forwarded or made by this device, events are decrypted, the store
does everything else it does, and the process restarts from what some initial part of its batches
left. Three things are shown of such runs. Every record is filed under the id of its session and
bound to the user who created it, as long as each room key that finds its slot empty comes from that
user and, if it is a direct one, names the session it carries: nothing checks that it does. Where
restarts lose nothing, a record is only ever replaced by one that extends it. And there, an index
that was decrypted for one event decrypts for no other, and for that event again and again.
-/

namespace Messenger

open Vodozemac (Primitives GroupSession InboundGroupSession MegolmMessage)
open GroupSessionManager

inductive InboundStep (prim : Primitives) where
  | roomKey (senderUserId : UserId) (senderCurve25519 senderEd25519 : String)
      (content : RoomKeyContent)
  | forwardedRoomKey (boundUserId : UserId) (boundCurve25519 boundEd25519 : String)
      (content : ForwardedRoomKeyContent)
  | adoptOwn (roomId : RoomId) (ourUserId : UserId) (ourCurve25519 ourEd25519 : String)
      (session : GroupSession prim) (rotated : Bool)
  | decrypt (event : SealedEvent)
  | store (s : StoreStep)
  | restart (kept : Nat) (records : List SealedRecord)

/-- The step writes a record of an inbound session itself. -/
def StoreStep.savesInbound : StoreStep → Bool
  | .op (.mutate (.saveInboundGroupSession ..)) => true
  | _ => false

/-- Nothing but room keys and decryptions writes inbound sessions, and the record format keeps the
requests that are saved. -/
def InboundStep.Allowed {prim : Primitives} (serde : Serde) : InboundStep prim → Prop
  | .store s => s.savesInbound = false ∧ s.Kept serde
  | _ => True

namespace Recorded

/-- What failed leaves the store as it was. -/
def withStore {ε : Type} (r : Recorded) : Except ε Store → Recorded
  | .ok store => { r with store }
  | .error _ => r

theorem withStore_batches {ε : Type} (r : Recorded) (result : Except ε Store) :
    (r.withStore result).batches = r.batches := by
  cases result <;> rfl

/-- The next process, or this one's state if there is none. -/
def reopen (r : Recorded) (kept : Nat) (records : List SealedRecord) : Recorded :=
  (r.reopen? kept records).getD r

def inboundStep (env : MegolmEnv) (r : Recorded) : InboundStep env.prim → Recorded
  | .roomKey userId curve ed content =>
    r.withStore (receiveRoomKey env r.store userId curve ed content)
  | .forwardedRoomKey userId curve ed content =>
    r.withStore ((receiveForwardedRoomKey env r.store userId curve ed content).map Prod.fst)
  | .adoptOwn roomId userId curve ed session rotated =>
    r.withStore (adoptOwnOutboundSession env r.store roomId userId curve ed (.of session rotated))
  | .decrypt event => r.withStore ((decryptEvent env r.store event).map Prod.snd)
  | .store s => r.step s
  | .restart kept records => r.reopen kept records

def inboundRun (env : MegolmEnv) (r : Recorded) (steps : List (InboundStep env.prim)) : Recorded :=
  Trace.run (inboundStep env) r steps

end Recorded

open Recorded

section Moves

variable {env : MegolmEnv}
  {fresh : RoomId → String → InboundGroupSessionRecord env.prim → Prop}

/-- A move is a mutation of the store. -/
theorem InboundMove.exists_mutation {store after : Store}
    (move : InboundMove env fresh store after) :
    after = store ∨ ∃ mutation : Mutation, after = StoreOp.run store (.mutate mutation) := by
  cases move with
  | keep => exact .inl rfl
  | @first roomId sessionId record =>
    exact .inr ⟨.saveInboundGroupSession roomId sessionId (env.writeRecord record), rfl⟩
  | @improve roomId sessionId _ _ record =>
    exact .inr ⟨.saveInboundGroupSession roomId sessionId (env.writeRecord record), rfl⟩

/-- What is in a slot after a record was saved. -/
theorem lookup_saveInboundRecord (store : Store) (roomId room : RoomId)
    (sessionId session : String) (record : InboundGroupSessionRecord env.prim) :
    lookupNested (saveInboundRecord env store roomId sessionId record).inboundGroupSessions room
        session =
      if room = roomId ∧ session = sessionId then some (env.writeRecord record)
      else lookupNested store.inboundGroupSessions room session :=
  lookupNested_insertNested ..

/-- The slot holds a record that extends the given one. -/
def Holds (env : MegolmEnv) (store : Store) (roomId : RoomId) (sessionId : String)
    (old : InboundGroupSessionRecord env.prim) : Prop :=
  ∃ bytes new, lookupNested store.inboundGroupSessions roomId sessionId = some bytes ∧
    env.readRecord bytes = .ok new ∧ old.Extends new

theorem Holds.move (laws : env.Laws) {store after : Store}
    (move : InboundMove env fresh store after) {roomId : RoomId} {sessionId : String}
    {old : InboundGroupSessionRecord env.prim} (h : Holds env store roomId sessionId old) :
    Holds env after roomId sessionId old := by
  obtain ⟨bytes, now, hbytes, hread, hextends⟩ := h
  cases move with
  | keep => exact ⟨bytes, now, hbytes, hread, hextends⟩
  | @first room session record vacant made =>
    refine ⟨bytes, now, ?_, hread, hextends⟩
    rw [lookup_saveInboundRecord, if_neg, hbytes]
    rintro ⟨rfl, rfl⟩
    cases vacant.symm.trans hbytes
  | @improve room session bytes' before after held read extended =>
    by_cases hslot : roomId = room ∧ sessionId = session
    · obtain ⟨rfl, rfl⟩ := hslot
      cases held.symm.trans hbytes
      cases read.symm.trans hread
      refine ⟨env.writeRecord after, after, ?_, laws.read_write after, hextends.trans extended⟩
      rw [lookup_saveInboundRecord, if_pos ⟨rfl, rfl⟩]
    · exact ⟨bytes, now, by rw [lookup_saveInboundRecord, if_neg hslot, hbytes], hread, hextends⟩

/-- The record is filed under the id of its session and bound to the user who created it. -/
def Owned (env : MegolmEnv) (creator : String → UserId) (sessionId : String)
    (record : InboundGroupSessionRecord env.prim) : Prop :=
  env.prim.base64Encode record.session.signingKey = sessionId ∧
    record.boundUserId = creator sessionId

/-- Every record reads, is filed under the id of its session and bound to its creator. -/
def Identified (env : MegolmEnv) (creator : String → UserId) (store : Store) : Prop :=
  ∀ roomId sessionId bytes,
    lookupNested store.inboundGroupSessions roomId sessionId = some bytes →
    ∃ record, env.readRecord bytes = .ok record ∧ Owned env creator sessionId record

variable {creator : String → UserId}

theorem identified_ignoresGate : IgnoresGate (Identified env creator) := by
  intro a b hsame h
  rw [Store.SameWorkingSet] at hsame
  rw [hsame]
  exact h

/-- A move keeps the records in their slots if one it makes belongs there. -/
theorem Identified.move (laws : env.Laws) {store after : Store}
    (move : InboundMove env (fun _ => Owned env creator) store after)
    (h : Identified env creator store) : Identified env creator after := by
  cases move with
  | keep => exact h
  | @first room session record vacant made =>
    intro roomId sessionId bytes hbytes
    rw [lookup_saveInboundRecord] at hbytes
    split_ifs at hbytes with hslot
    · obtain ⟨rfl, rfl⟩ := hslot
      cases hbytes
      exact ⟨record, laws.read_write record, made⟩
    · exact h roomId sessionId bytes hbytes
  | @improve room session bytes' before new held read extended =>
    intro roomId sessionId bytes hbytes
    rw [lookup_saveInboundRecord] at hbytes
    split_ifs at hbytes with hslot
    · obtain ⟨rfl, rfl⟩ := hslot
      cases hbytes
      obtain ⟨record, hrecord, hid, hbound⟩ := h roomId sessionId bytes' held
      cases read.symm.trans hrecord
      exact ⟨new, laws.read_write new, by rw [extended.session.signingKey, hid],
        extended.boundUserId.trans hbound⟩
    · exact h roomId sessionId bytes hbytes

end Moves

/-! ### One step -/

section Step

variable {env : MegolmEnv} {r : Recorded}

/-- What a step knows of a record it makes. -/
def InboundStep.Makes (env : MegolmEnv) : InboundStep env.prim → RoomId → String →
    InboundGroupSessionRecord env.prim → Prop
  | .roomKey userId _ _ content, roomId, sessionId, record =>
    content.algorithm = megolmAlgorithm ∧ ∃ key,
      env.prim.decodeSessionKey content.sessionKey = .ok key ∧ roomId = content.roomId ∧
        sessionId = content.sessionId ∧ record.session = (InboundGroupSession.new key).pickle ∧
          record.boundUserId = userId
  | .forwardedRoomKey userId _ _ content, roomId, sessionId, record =>
    roomId = content.roomId ∧ sessionId = content.sessionId ∧ record.boundUserId = userId ∧
      env.prim.base64Encode record.session.signingKey = sessionId
  | .adoptOwn _ userId _ _ session _, _, sessionId, record =>
    sessionId = env.prim.base64Encode session.signingKey ∧ record.boundUserId = userId ∧
      env.prim.base64Encode record.session.signingKey = sessionId
  | _, _, _, _ => False

theorem Recorded.withStore_move {ε : Type} {result : Except ε Store}
    {fresh : RoomId → String → InboundGroupSessionRecord env.prim → Prop}
    (h : ∀ after, result = .ok after → InboundMove env fresh r.store after) :
    ∃ after, InboundMove env fresh r.store after ∧
      r.withStore result = { r with store := after } := by
  cases result with
  | error e => exact ⟨r.store, .keep, rfl⟩
  | ok after => exact ⟨after, h after rfl, rfl⟩

theorem map_eq_ok {ε α β : Type} {f : α → β} {result : Except ε α} {b : β}
    (h : result.map f = .ok b) : ∃ a, result = .ok a ∧ f a = b := by
  cases result with
  | error e => cases h
  | ok a => exact ⟨a, rfl, Except.ok.inj h⟩

/-- A step is a move, a step of the store or a restart. -/
theorem Recorded.inboundStep_cases (laws : env.Laws) (r : Recorded) (s : InboundStep env.prim) :
    (∃ after, InboundMove env (s.Makes env) r.store after ∧
      r.inboundStep env s = { r with store := after }) ∨
    (∃ t, s = .store t) ∨ ∃ kept records, s = .restart kept records := by
  cases s with
  | roomKey userId curve ed content =>
    exact .inl (withStore_move fun after h => receiveRoomKey_move h)
  | forwardedRoomKey userId curve ed content =>
    refine .inl (withStore_move fun after h => ?_)
    obtain ⟨result, hresult, rfl⟩ := map_eq_ok h
    exact receiveForwardedRoomKey_move hresult
  | adoptOwn roomId userId curve ed session rotated =>
    refine .inl (withStore_move fun after h => ?_)
    rw [adoptOwnOutboundSession] at h
    split_ifs at h
    · refine (receiveRoomKey_move h).mono ?_
      rintro _ _ record ⟨-, key, hkey, -, rfl, hsession, hbound⟩
      obtain ⟨signature, hdecode⟩ := laws.decode_encode session.ratchet session.signingKey
      cases hdecode.symm.trans hkey
      refine ⟨rfl, hbound, ?_⟩
      rw [hsession]
      rfl
    · cases h
      exact .keep
  | decrypt event =>
    refine .inl (withStore_move fun after h => ?_)
    obtain ⟨⟨plaintext, store⟩, hresult, rfl⟩ := map_eq_ok h
    exact (decryptEvent_move hresult).mono fun _ _ _ => False.elim
  | store t => exact .inr (.inl ⟨t, rfl⟩)
  | restart kept records => exact .inr (.inr ⟨kept, records, rfl⟩)

/-- The other steps of the store leave the inbound sessions alone. -/
theorem Recorded.inbound_step {t : StoreStep} (h : t.savesInbound = false) :
    (r.step t).store.inboundGroupSessions = r.store.inboundGroupSessions := by
  cases t with
  | op op =>
    cases op with
    | mutate mutation =>
      cases mutation with
      | saveInboundGroupSession => cases h
      | saveOlmSession theirCurve25519 sessionId session =>
        simp only [step, StoreOp.run, Mutation.run, Store.saveOlmSession]
        split <;> rfl
      | _ => rfl
    | deletePendingRequest id =>
      simp only [step, StoreOp.run, Store.deletePendingRequest]
      split <;> rfl
    | _ => rfl
  | _ => rfl

variable {device : DeviceId} {codec : RecordCodec} {serde : Serde}

theorem true_invariant : WorkingSetInvariant fun _ => True :=
  ⟨fun _ _ _ => trivial, fun _ _ _ => trivial, fun _ _ _ _ => trivial⟩

/-- A restart fails, or loads the records that were kept. -/
theorem Recorded.reopen_cases (params : r.store.deviceId = device ∧ r.store.codec = codec ∧
    r.store.serde = serde) (kept : Nat) (records : List SealedRecord) :
    r.reopen kept records = r ∨ ∃ store, Lists records (r.directoryAfter kept) ∧
      Store.load records codec serde device = .ok store ∧
      r.reopen kept records = ⟨r.directoryAfter kept, store, []⟩ := by
  rw [reopen]
  cases hopen : r.reopen? kept records with
  | none => exact .inl rfl
  | some next =>
    obtain ⟨store, hlists, hload, rfl⟩ := reopen?_eq_some params hopen
    exact .inr ⟨store, hlists, hload, rfl⟩

theorem Reachable.inboundStep (laws : RecordLaws codec serde) (envLaws : env.Laws)
    (h : Reachable device codec serde r) {s : InboundStep env.prim}
    (hkept : ∀ t, s = .store t → t.Kept serde) :
    Reachable device codec serde (r.inboundStep env s) := by
  rcases r.inboundStep_cases envLaws s with ⟨after, move, heq⟩ | ⟨t, rfl⟩ | ⟨kept, records, rfl⟩
  · rw [heq]
    rcases move.exists_mutation with rfl | ⟨mutation, rfl⟩
    · exact h
    · exact h.step (StoreStep.kept_mutate serde mutation)
  · exact h.step (hkept t rfl)
  · rcases reopen_cases (h.sound true_invariant laws).now.params kept records with
      heq | ⟨store, lists, opened, heq⟩
    · rw [Recorded.inboundStep, heq]
      exact h
    · rw [Recorded.inboundStep, heq]
      exact .restart h kept lists opened

/-- Nothing else writes inbound sessions, the record format keeps the requests that are saved, and a
restart finds everything: nothing is pending and every batch is on disk, as in a state all of whose
batches were acknowledged. -/
def InboundStep.AtRest (r : Recorded) : InboundStep env.prim → Prop
  | .store t => t.savesInbound = false ∧ t.Kept r.store.serde
  | .restart kept _ => r.store.gate.pending = ∅ ∧ r.batches.length ≤ kept
  | _ => True

/-- Such a restart has the inbound sessions of before. -/
theorem Reachable.inbound_reopen (laws : RecordLaws codec serde)
    (h : Reachable device codec serde r) {kept : Nat} {records : List SealedRecord}
    (rest : r.store.gate.pending = ∅ ∧ r.batches.length ≤ kept) :
    (r.reopen kept records).store.inboundGroupSessions = r.store.inboundGroupSessions := by
  have hnow := (h.sound true_invariant laws).now
  rcases reopen_cases hnow.params kept records with heq | ⟨store, lists, opened, heq⟩
  · rw [heq]
  · have hdirectory : r.directoryAfter kept = r.directory := by
      rw [directoryAfter, List.take_of_length_le rest.2, directory]
    rw [rest.1, drained_empty, ← hdirectory] at hnow
    have hsame := (hnow.load true_invariant.same laws lists opened).2.same
    rw [Store.SameWorkingSet] at hsame
    rw [heq]
    dsimp only
    rw [hsame]

theorem Holds.inboundStep (laws : RecordLaws codec serde) (envLaws : env.Laws)
    (reachable : Reachable device codec serde r) {s : InboundStep env.prim} (rest : s.AtRest r)
    {roomId : RoomId} {sessionId : String} {old : InboundGroupSessionRecord env.prim}
    (h : Holds env r.store roomId sessionId old) :
    Holds env (r.inboundStep env s).store roomId sessionId old := by
  rcases r.inboundStep_cases envLaws s with ⟨after, move, heq⟩ | ⟨t, rfl⟩ | ⟨kept, records, rfl⟩
  · rw [heq]
    exact h.move envLaws move
  · rw [Holds, Recorded.inboundStep, inbound_step rest.1]
    exact h
  · rw [Holds, Recorded.inboundStep, reachable.inbound_reopen laws rest]
    exact h

/-- A room key that finds its slot empty comes from the creator of the session it is filed under,
and a direct one carries that session. What this device adopts it has created. -/
def InboundStep.FromCreator (env : MegolmEnv) (creator : String → UserId) (r : Recorded) :
    InboundStep env.prim → Prop
  | .roomKey userId _ _ content =>
    content.algorithm = megolmAlgorithm →
    lookupNested r.store.inboundGroupSessions content.roomId content.sessionId = none →
    ∀ key, env.prim.decodeSessionKey content.sessionKey = .ok key →
      env.prim.base64Encode key.sessionKey.signingKey = content.sessionId ∧
        userId = creator content.sessionId
  | .forwardedRoomKey userId _ _ content =>
    lookupNested r.store.inboundGroupSessions content.roomId content.sessionId = none →
      userId = creator content.sessionId
  | .adoptOwn _ userId _ _ session _ => userId = creator (env.prim.base64Encode session.signingKey)
  | _ => True

variable {creator : String → UserId}

/-- What such a step makes belongs in its slot. -/
theorem InboundMove.owned {s : InboundStep env.prim} (fromCreator : s.FromCreator env creator r)
    {after : Store} (move : InboundMove env (s.Makes env) r.store after) :
    InboundMove env (fun _ => Owned env creator) r.store after := by
  cases move with
  | keep => exact .keep
  | improve held read extended => exact .improve held read extended
  | first vacant made =>
    refine .first vacant ?_
    cases s with
    | roomKey userId curve ed content =>
      obtain ⟨halgorithm, key, hkey, rfl, rfl, hsession, hbound⟩ := made
      obtain ⟨hid, huser⟩ := fromCreator halgorithm vacant key hkey
      exact ⟨by rw [hsession]; exact hid, hbound.trans huser⟩
    | forwardedRoomKey userId curve ed content =>
      obtain ⟨rfl, rfl, hbound, hid⟩ := made
      exact ⟨hid, hbound.trans (fromCreator vacant)⟩
    | adoptOwn roomId userId curve ed session rotated =>
      obtain ⟨rfl, hbound, hid⟩ := made
      exact ⟨hid, hbound.trans fromCreator⟩
    | _ => exact made.elim

theorem Sound.inboundStep (laws : RecordLaws codec serde) (envLaws : env.Laws)
    (h : Sound device codec serde (Identified env creator) r) {s : InboundStep env.prim}
    (allowed : s.Allowed serde) (fromCreator : s.FromCreator env creator r) :
    Sound device codec serde (Identified env creator) (r.inboundStep env s) := by
  rcases r.inboundStep_cases envLaws s with ⟨after, move, heq⟩ | ⟨t, rfl⟩ | ⟨kept, records, rfl⟩
  · have hafter := h.now.holds.move envLaws (move.owned fromCreator)
    rw [heq]
    rcases move.exists_mutation with rfl | ⟨mutation, rfl⟩
    · exact h
    · refine h.step_of identified_ignoresGate (StoreStep.kept_mutate serde mutation)
        fun _ heq => ?_
      cases heq
      exact hafter
  · refine h.step_of identified_ignoresGate allowed.2 fun op heq => ?_
    subst heq
    have hinbound : (op.run r.store).inboundGroupSessions = r.store.inboundGroupSessions :=
      inbound_step (r := r) allowed.1
    rw [Identified, hinbound]
    exact h.now.holds
  · rcases reopen_cases h.now.params kept records with
      heq | ⟨store, lists, opened, heq⟩
    · rw [Recorded.inboundStep, heq]
      exact h
    · obtain ⟨old, snapshot⟩ := h.kept kept
      rw [Recorded.inboundStep, heq]
      exact Sound.loaded identified_ignoresGate laws snapshot lists opened

end Step

/-! ### A lawful environment -/

section DocumentEnv

def bytesToJson (bytes : Bytes) : Json := .arr (bytes.map fun byte => .int byte.toNat)

def byteOfJson? : Json → Option UInt8
  | .int byte => some (.ofNat byte.toNat)
  | _ => none

def bytesOfJson? : Json → Option Bytes
  | .arr items => items.mapM byteOfJson?
  | _ => none

theorem bytesOfJson?_bytesToJson (bytes : Bytes) : bytesOfJson? (bytesToJson bytes) = some bytes :=
  mapM_map_eq_some (f := fun byte : UInt8 => Json.int byte.toNat) (g := byteOfJson?)
    (by simp [byteOfJson?]) bytes

/-- A ratchet of numbers: its index, then its parts. -/
def ratchetToJson (ratchet : Vodozemac.Ratchet Int) : Json :=
  .arr (.int ratchet.counter.toNat :: List.ofFn fun part => .int (ratchet.inner part))

def ratchetOfJson? : Json → Option (Vodozemac.Ratchet Int)
  | .arr [.int counter, .int a, .int b, .int c, .int d] =>
    some ⟨![a, b, c, d], .ofNat counter.toNat⟩
  | _ => none

theorem ratchetOfJson?_ratchetToJson (ratchet : Vodozemac.Ratchet Int) :
    ratchetOfJson? (ratchetToJson ratchet) = some ratchet := by
  obtain ⟨inner, counter⟩ := ratchet
  have hinner : ![inner 0, inner 1, inner 2, inner 3] = inner := by
    funext part
    fin_cases part <;> rfl
  simp [ratchetOfJson?, ratchetToJson, List.ofFn, Fin.foldr, Fin.foldr.loop, hinner]

/-- A session key, or an exported one: ratchet and signing key. -/
def keyOfText (text : String) : Except String (Vodozemac.ExportedSessionKey Int) :=
  match JsonText.parse text with
  | some (.arr [ratchet, key]) =>
    match ratchetOfJson? ratchet, bytesOfJson? key with
    | some ratchet, some key => .ok ⟨ratchet.counter, ratchet.inner, key⟩
    | _, _ => .error "unexpected key"
  | _ => .error "unexpected key"

def keyText (ratchet : Vodozemac.Ratchet Int) (signingKey : Bytes) : String :=
  JsonText.render (.arr [ratchetToJson ratchet, bytesToJson signingKey])

theorem keyOfText_keyText (ratchet : Vodozemac.Ratchet Int) (signingKey : Bytes) :
    keyOfText (keyText ratchet signingKey) = .ok ⟨ratchet.counter, ratchet.inner, signingKey⟩ := by
  simp [keyOfText, keyText, JsonText.parse_render, ratchetOfJson?_ratchetToJson,
    bytesOfJson?_bytesToJson]

/-- A message in the clear: its index and its text. -/
def messageOfText (text : String) : Except String MegolmMessage :=
  match JsonText.parse text with
  | some (.arr [.int index, .str body]) => .ok ⟨3, utf8 body, .ofNat index.toNat, .truncated [], []⟩
  | _ => .error "unexpected message"

/-- Everything is accepted, and the parts of a ratchet are numbers. -/
abbrev documentPrimitives : Primitives where
  Part := Int
  partEq := inferInstance
  hash part seed := 5 * part + seed.val + 1
  base64Encode bytes := JsonText.render (bytesToJson bytes)
  verify _ _ _ := none
  verifyTruncatedMac _ _ _ := none
  decryptCipher _ ciphertext := .ok ciphertext
  encodeMessage _ _ ciphertext := ciphertext
  decodeMessage := messageOfText
  decodeSessionKey text := (keyOfText text).map fun key => ⟨key, []⟩
  decodeExportedSessionKey := keyOfText
  encodeSessionKey := keyText

def entryToJson (entry : UInt32 × ReplayEntry) : Json :=
  .arr [.int entry.1.toNat, .str entry.2.eventId.value, .int entry.2.originServerTs]

def entryOfJson? : Json → Option (UInt32 × ReplayEntry)
  | .arr [.int index, .str eventId, .int ts] => some (.ofNat index.toNat, ⟨⟨eventId⟩, ts⟩)
  | _ => none

def recordToJson (record : InboundGroupSessionRecord documentPrimitives) : Json :=
  .arr [ratchetToJson record.session.initialRatchet, bytesToJson record.session.signingKey,
    .bool record.session.signingKeyVerified, .str record.boundUserId.value,
    .str record.boundSenderCurve25519, .str record.boundSenderEd25519,
    .arr (record.replayIndex.toList.map entryToJson)]

def recordOfJson? : Json → Option (InboundGroupSessionRecord documentPrimitives)
  | .arr [ratchet, key, .bool verified, .str user, .str curve, .str ed, .arr seen] => do
    let ratchet ← ratchetOfJson? ratchet
    let key ← bytesOfJson? key
    let seen ← seen.mapM entryOfJson?
    some ⟨⟨ratchet, key, verified⟩, ⟨user⟩, curve, ed, .ofList seen compare⟩
  | _ => none

theorem recordOfJson?_recordToJson (record : InboundGroupSessionRecord documentPrimitives) :
    recordOfJson? (recordToJson record) = some record := by
  have hentries := mapM_map_eq_some (f := entryToJson) (g := entryOfJson?)
    (by simp [entryToJson, entryOfJson?]) record.replayIndex.toList
  simp [recordOfJson?, recordToJson, hentries, ofList_toList, bytesOfJson?_bytesToJson,
    ratchetOfJson?_ratchetToJson]

def plaintextOfBytes (bytes : Bytes) : Except String SealedPlaintext :=
  match fromUtf8 bytes with
  | some room => .ok { eventType := "m.room.message", content := .obj [], roomId := ⟨room⟩ }
  | none => .error "unexpected plaintext"

/-- Records are documents, and a plaintext is the name of its room. -/
abbrev documentEnv : MegolmEnv where
  prim := documentPrimitives
  readRecord := readDocument recordOfJson?
  writeRecord record := documentBytes (recordToJson record)
  readPlaintext := plaintextOfBytes

theorem documentEnv_laws : documentEnv.Laws where
  read_write record := readDocument_documentBytes (recordOfJson?_recordToJson record)
  decode_encode ratchet signingKey := by
    refine ⟨[], ?_⟩
    simp only [keyOfText_keyText, Except.map]

/-! Bob's session in a room, with the signing key `[1]`, and a key of Eve's filed under its id. -/

def sharedRoom : RoomId := ⟨"!r:a"⟩

def bobsSessionId : String := documentPrimitives.base64Encode [1]

def sharedRatchet (index : UInt32) : Vodozemac.Ratchet Int :=
  Vodozemac.Ratchet.advanceTo documentPrimitives.hash ⟨![1, 2, 3, 4], 0⟩ index

def sharedKey (index : UInt32) (signingKey : Bytes) : RoomKeyContent :=
  ⟨megolmAlgorithm, sharedRoom, bobsSessionId, keyText (sharedRatchet index) signingKey⟩

def bobShares (index : UInt32) : InboundStep documentPrimitives :=
  .roomKey ⟨"@bob:a"⟩ "curve-bob" "ed-bob" (sharedKey index [1])

def eveShares : InboundStep documentPrimitives :=
  .roomKey ⟨"@eve:a"⟩ "curve-eve" "ed-eve" (sharedKey 0 [2])

theorem decode_sharedKey (index : UInt32) (signingKey : Bytes) :
    documentPrimitives.decodeSessionKey (sharedKey index signingKey).sessionKey =
      .ok ⟨⟨(sharedRatchet index).counter, (sharedRatchet index).inner, signingKey⟩, []⟩ := by
  simp only [sharedKey, keyOfText_keyText, Except.map]

/-- Bob created the sessions of the room. -/
def bobCreates (_ : String) : UserId := ⟨"@bob:a"⟩

theorem bobShares_fromCreator (r : Recorded) (index : UInt32) :
    (bobShares index).FromCreator documentEnv bobCreates r := by
  intro _ _ key hkey
  rw [decode_sharedKey] at hkey
  cases hkey
  exact ⟨rfl, rfl⟩

theorem reachable_fresh : Reachable roundTripDevice insecurePlainCodecForTests documentSerde
    freshRecorded :=
  .first (by simp) lists_nil rfl

/-- Bob's session, shared from its sixth message on. -/
def sharedOnce : Recorded := freshRecorded.inboundStep documentEnv (bobShares 5)

def sharedRecord : InboundGroupSessionRecord documentPrimitives where
  session := ⟨sharedRatchet 5, [1], true⟩
  boundUserId := ⟨"@bob:a"⟩
  boundSenderCurve25519 := "curve-bob"
  boundSenderEd25519 := "ed-bob"
  replayIndex := ∅

theorem batches_sharedOnce : sharedOnce.batches = [] := by
  rw [sharedOnce, bobShares, inboundStep, withStore_batches, freshRecorded]

theorem reachable_sharedOnce : Reachable roundTripDevice insecurePlainCodecForTests documentSerde
    sharedOnce :=
  reachable_fresh.inboundStep documentSerde_laws documentEnv_laws fun _ heq => nomatch heq

theorem lookup_sharedOnce :
    lookupNested sharedOnce.store.inboundGroupSessions sharedRoom bobsSessionId =
      some (documentEnv.writeRecord sharedRecord) := by
  have hvacant : lookupNested freshRecorded.store.inboundGroupSessions sharedRoom bobsSessionId =
      none := by simp [lookupNested, freshRecorded, Store.new]
  have hstored : receiveRoomKey documentEnv freshRecorded.store ⟨"@bob:a"⟩ "curve-bob" "ed-bob"
      (sharedKey 5 [1]) = _ := receiveRoomKey_vacant rfl hvacant (decode_sharedKey 5 [1])
  rw [sharedOnce, bobShares, inboundStep, hstored, withStore,
    lookup_saveInboundRecord, if_pos ⟨rfl, rfl⟩]
  rfl

/-- The whole session arrives, a batch is taken, and the process restarts from it. -/
def shareAndRestart (r : Recorded) : List (InboundStep documentPrimitives) :=
  [bobShares 0, .store .takeFlushBatch, .restart 1 (diskRecords
    ((r.inboundRun documentEnv [bobShares 0, .store .takeFlushBatch]).directoryAfter 1))]

theorem meets_shareAndRestart {r : Recorded} (h : r.batches = []) :
    Trace.Meets (Recorded.inboundStep documentEnv) InboundStep.AtRest r (shareAndRestart r) := by
  refine ⟨trivial, ⟨rfl, trivial⟩, ⟨(takeFlushBatch_eq _).2.1, ?_⟩, trivial⟩
  have hbatches : (r.inboundStep documentEnv (bobShares 0)).batches = [] := by
    rw [bobShares, inboundStep, withStore_batches, h]
  simp only [inboundStep.eq_5, step, hbatches, List.nil_append]
  cases (r.inboundStep documentEnv (bobShares 0)).store.takeFlushBatch.1 <;> simp

/-- Whatever its index, a message that is known from opens. -/
theorem decrypt_document {session : InboundGroupSession documentPrimitives}
    {message : MegolmMessage} (hfirst : session.firstKnownIndex ≤ message.messageIndex)
    {mac : Bytes} (hmac : message.mac = .truncated mac) :
    (session.decrypt message).1 = .ok ⟨message.ciphertext, message.messageIndex⟩ := by
  have hfind := session.findRatchet_fst message.messageIndex
  rw [if_pos hfirst] at hfind
  rw [InboundGroupSession.decrypt]
  generalize session.findRatchet message.messageIndex = found at hfind
  obtain ⟨ratchet, moved⟩ := found
  dsimp only at hfind
  subst hfind
  simp [InboundGroupSession.verifyMac, hmac]

end DocumentEnv

/-! ### Whole runs -/

section Runs

variable {device : DeviceId} {codec : RecordCodec} {serde : Serde} {env : MegolmEnv}

/-- From the first start of a device on, every record is filed under the id of its session and bound
to its creator, if every room key that finds its slot empty comes from the creator of the session it
is filed under and carries that session. -/
theorem identified_of_fromCreator (laws : RecordLaws codec serde) (envLaws : env.Laws)
    (creator : String → UserId) {foreign : RecordMap}
    (unknown : ∀ key ∈ foreign, parseRecordKey device key = .ok none)
    {records : List SealedRecord} (lists : Lists records foreign) {store : Store}
    (opened : Store.load records codec serde device = .ok store)
    {steps : List (InboundStep env.prim)} (allowed : ∀ s ∈ steps, s.Allowed serde)
    (fromCreator : Trace.Meets (Recorded.inboundStep env) (InboundStep.FromCreator env creator)
      ⟨foreign, store, []⟩ steps) :
    Trace.Throughout (Recorded.inboundStep env) (fun r => Identified env creator r.store)
      ⟨foreign, store, []⟩ steps := by
  have hblank : Identified env creator (Store.foreignOnly device codec serde foreign) := by
    intro roomId sessionId bytes hbytes
    have hnone := @Store.foreignOnly_plain device codec serde foreign
      (.inboundGroupSession roomId sessionId)
    cases hnone.symm.trans hbytes
  have hstart : Sound device codec serde (Identified env creator) ⟨foreign, store, []⟩ :=
    Sound.loaded identified_ignoresGate laws ⟨⟨rfl, rfl, rfl⟩, Store.foreignOnly_tidy _,
      Store.foreignOnly_mirrored unknown, hblank⟩ lists opened
  have hallowed : Trace.Meets (Recorded.inboundStep env)
      (fun _ s => InboundStep.Allowed serde s) ⟨foreign, store, []⟩ steps :=
    Trace.meets_of_forall allowed
  exact Trace.throughout_of_meets (Sound device codec serde (Identified env creator))
    (fun _ _ h hsound => hsound.inboundStep laws envLaws h.1 h.2) (fun _ h => h.now.holds)
    (hallowed.and fromCreator) hstart

/-- Eve's session takes the place of Bob's, and his own key then does not change that. -/
theorem not_identified_eveShares :
    ¬ Trace.Throughout (Recorded.inboundStep documentEnv)
      (fun r => Identified documentEnv bobCreates r.store) freshRecorded [eveShares] ∧
    lookupNested (freshRecorded.inboundRun documentEnv
        [eveShares, bobShares 0]).store.inboundGroupSessions sharedRoom bobsSessionId =
      lookupNested (freshRecorded.inboundRun documentEnv
        [eveShares]).store.inboundGroupSessions sharedRoom bobsSessionId := by
  refine ⟨fun h => ?_, by decide +kernel⟩
  have hvacant : lookupNested freshRecorded.store.inboundGroupSessions sharedRoom bobsSessionId =
      none := by simp [lookupNested, freshRecorded, Store.new]
  have hstored : receiveRoomKey documentEnv freshRecorded.store ⟨"@eve:a"⟩ "curve-eve" "ed-eve"
      (sharedKey 0 [2]) = _ := receiveRoomKey_vacant rfl hvacant (decode_sharedKey 0 [2])
  have hlast := h.last
  rw [Trace.run_cons, Trace.run_nil, eveShares, inboundStep, hstored] at hlast
  obtain ⟨record, hread, hid, -⟩ := hlast sharedRoom bobsSessionId _
    (by rw [withStore, lookup_saveInboundRecord, if_pos ⟨rfl, rfl⟩])
  cases (documentEnv_laws.read_write _).symm.trans hread
  revert hid
  decide +kernel

/-- Bob's key arrives twice, better the second time, and the process restarts. -/
theorem identified_of_fromCreator_bobShares :
    Trace.Throughout (Recorded.inboundStep documentEnv)
      (fun r => Identified documentEnv bobCreates r.store) freshRecorded
      [bobShares 5, bobShares 0, .store .takeFlushBatch, .restart 1 []] := by
  refine identified_of_fromCreator documentSerde_laws documentEnv_laws bobCreates (by simp)
    lists_nil rfl ?_ ⟨bobShares_fromCreator _ 5, bobShares_fromCreator _ 0, trivial, trivial,
      trivial⟩
  simp [InboundStep.Allowed, bobShares, StoreStep.savesInbound, StoreStep.Kept]

theorem Holds.inboundRun (laws : RecordLaws codec serde) (envLaws : env.Laws) {r : Recorded}
    (reachable : Reachable device codec serde r) {roomId : RoomId} {sessionId : String}
    {old : InboundGroupSessionRecord env.prim} (h : Holds env r.store roomId sessionId old)
    {steps : List (InboundStep env.prim)}
    (rest : Trace.Meets (Recorded.inboundStep env) InboundStep.AtRest r steps) :
    Holds env (r.inboundRun env steps).store roomId sessionId old :=
  (Trace.run_invariant_of_meets
    (fun r => Reachable device codec serde r ∧ Holds env r.store roomId sessionId old)
    (fun r s hrest h => ⟨h.1.inboundStep laws envLaws fun t heq => by
        subst heq
        exact (h.1.sound true_invariant laws).now.params.2.2 ▸ hrest.2,
      h.2.inboundStep laws envLaws h.1 hrest⟩)
    rest ⟨reachable, h⟩).2

/-- Where restarts lose nothing, a record is only replaced by one that extends it. -/
theorem inboundRecord_extended (laws : RecordLaws codec serde) (envLaws : env.Laws) {r : Recorded}
    (reachable : Reachable device codec serde r) {roomId : RoomId} {sessionId : String}
    {bytes : Bytes} {old : InboundGroupSessionRecord env.prim}
    (held : lookupNested r.store.inboundGroupSessions roomId sessionId = some bytes)
    (read : env.readRecord bytes = .ok old) {steps : List (InboundStep env.prim)}
    (rest : Trace.Meets (Recorded.inboundStep env) InboundStep.AtRest r steps) :
    ∃ bytes' new,
      lookupNested (r.inboundRun env steps).store.inboundGroupSessions roomId sessionId =
        some bytes' ∧ env.readRecord bytes' = .ok new ∧ old.Extends new :=
  Holds.inboundRun laws envLaws reachable ⟨bytes, old, held, read, .refl old⟩ rest

theorem inboundRecord_extended_sharedOnce :
    ∃ bytes new, lookupNested (sharedOnce.inboundRun documentEnv
        (shareAndRestart sharedOnce)).store.inboundGroupSessions sharedRoom bobsSessionId =
      some bytes ∧ documentEnv.readRecord bytes = .ok new ∧ sharedRecord.Extends new :=
  inboundRecord_extended documentSerde_laws documentEnv_laws reachable_sharedOnce
    lookup_sharedOnce (documentEnv_laws.read_write sharedRecord)
    (meets_shareAndRestart batches_sharedOnce)

/-- Where restarts lose nothing, no event with another id or timestamp decrypts with the session
and the index of one that was decrypted, and that one keeps decrypting. -/
theorem replay_protected (laws : RecordLaws codec serde) (envLaws : env.Laws) {r : Recorded}
    (reachable : Reachable device codec serde r) {event : SealedEvent}
    {plaintext : SealedPlaintext} {after : Store}
    (decrypted : decryptEvent env r.store event = .ok (plaintext, after))
    {steps : List (InboundStep env.prim)}
    (rest : Trace.Meets (Recorded.inboundStep env) InboundStep.AtRest r
      (.decrypt event :: steps)) :
    (∀ other result, other.roomId = event.roomId →
      other.content.sessionId = event.content.sessionId →
      other.messageIndex env.prim = event.messageIndex env.prim →
      decryptEvent env (r.inboundRun env (.decrypt event :: steps)).store other = .ok result →
      other.eventId = event.eventId ∧ other.originServerTs = event.originServerTs) ∧
    ∃ store, decryptEvent env (r.inboundRun env (.decrypt event :: steps)).store event =
      .ok (plaintext, store) := by
  obtain ⟨bytes, record, message, hbytes, hread, hseen⟩ := seen_of_decryptEvent envLaws decrypted
  have hstep : r.inboundStep env (.decrypt event) = { r with store := after } := by
    rw [inboundStep, decrypted]
    rfl
  have hfirst : Holds env (r.inboundStep env (.decrypt event)).store event.roomId
      event.content.sessionId record := by
    rw [hstep]
    exact ⟨bytes, record, hbytes, hread, .refl record⟩
  have hreachable : Reachable device codec serde (r.inboundStep env (.decrypt event)) :=
    reachable.inboundStep laws envLaws fun _ heq => nomatch heq
  obtain ⟨bytes', new, hbytes', hread', hextends⟩ :=
    hfirst.inboundRun laws envLaws hreachable rest.2
  have hseen' := hseen.extend hextends
  exact ⟨fun other result hroom hsession hindex hother =>
    hseen'.eq_of_decryptEvent hbytes' hread' hroom hsession hindex hother,
    _, hseen'.decryptEvent_eq hbytes' hread'⟩

def bobsEvent : SealedEvent where
  roomId := sharedRoom
  eventId := ⟨"$1"⟩
  originServerTs := 10
  sender := ⟨"@bob:a"⟩
  content := { ciphertext := JsonText.render (.arr [.int 7, .str "!r:a"])
               sessionId := bobsSessionId }

theorem decode_bobsEvent : documentPrimitives.decodeMessage bobsEvent.content.ciphertext =
    .ok ⟨3, utf8 "!r:a", 7, .truncated [], []⟩ := by
  simp only [bobsEvent, messageOfText, JsonText.parse_render]
  rfl

theorem decrypts_bobsEvent : ∃ plaintext after,
    decryptEvent documentEnv sharedOnce.store bobsEvent = .ok (plaintext, after) := by
  have hfirst : (InboundGroupSession.fromPickle sharedRecord.session).firstKnownIndex = 5 :=
    Vodozemac.Ratchet.counter_advanceTo _ (by decide)
  refine ⟨{ eventType := "m.room.message", content := .obj [], roomId := sharedRoom }, _,
    decryptEvent_ok_iff.2 ⟨sharedRecord, _, ⟨⟨_, lookup_sharedOnce,
      documentEnv_laws.read_write sharedRecord⟩, decode_bobsEvent, ⟨_, decrypt_document ?_ rfl, ?_⟩,
      rfl, rfl, ?_⟩, rfl⟩⟩
  · rw [hfirst]
    decide
  · simp only [plaintextOfBytes, fromUtf8_utf8]
    rfl
  · simp [sharedRecord]

/-- A message of Bob's is read, his whole session arrives, and the process restarts. -/
theorem replay_protected_bobsEvent :
    ∃ later : Recorded,
      later = sharedOnce.inboundRun documentEnv (.decrypt bobsEvent ::
        shareAndRestart (sharedOnce.inboundStep documentEnv (.decrypt bobsEvent))) ∧
      (∀ other result, other.roomId = sharedRoom → other.content.sessionId = bobsSessionId →
        other.messageIndex documentPrimitives = bobsEvent.messageIndex documentPrimitives →
        decryptEvent documentEnv later.store other = .ok result →
        other.eventId = ⟨"$1"⟩ ∧ other.originServerTs = 10) ∧
      ∃ result, decryptEvent documentEnv later.store bobsEvent = .ok result := by
  obtain ⟨plaintext, after, hdecrypted⟩ := decrypts_bobsEvent
  have hbatches : (sharedOnce.inboundStep documentEnv (.decrypt bobsEvent)).batches = [] := by
    rw [inboundStep, withStore_batches, batches_sharedOnce]
  obtain ⟨honly, store, hagain⟩ := replay_protected documentSerde_laws documentEnv_laws
    reachable_sharedOnce hdecrypted ⟨trivial, meets_shareAndRestart hbatches⟩
  exact ⟨_, rfl, honly, _, hagain⟩

end Runs

end Messenger
