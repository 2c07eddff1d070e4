import Mail4Agent.Foundation.Transaction
import Mail4Agent.Server.Store

/-!
# Writes of the store

The store's write functions as transactions: the event row, the slot of the current
state it fills, and the membership row kept beside it. A statement that a table's
constraints refuse fails the whole transaction.

Power levels are read from the current state wherever they matter; the copy of them
in the membership rows is not modelled.
-/

namespace Server

open Transaction

/-- The statements of one transaction. -/
abbrev Tx (α : Type) := Transaction Db MatrixError α

/-- A request handler that commits its transactions one by one. -/
abbrev Request (α : Type) := Session Db MatrixError α

namespace Db

variable (db : Db)

/-- The slot has one row: a new event takes it over. -/
def putSlot (slot : StateSlot) : Db :=
  { db with currentState := (db.currentState.filter fun other =>
      ¬ (other.roomId = slot.roomId ∧ other.eventType = slot.eventType ∧
        other.stateKey = slot.stateKey)) ++ [slot] }

def putMember (member : RoomMember) : Db :=
  if db.roomMembers.any fun m => m.roomId = member.roomId ∧ m.userId = member.userId then
    { db with roomMembers := db.roomMembers.map fun m =>
        if m.roomId = member.roomId ∧ m.userId = member.userId then member else m }
  else { db with roomMembers := db.roomMembers ++ [member] }

end Db

namespace Store

def nextStreamId : Tx Int := do
  .change fun db => { db with streamCounter := db.streamCounter + 1 }
  .query Db.streamCounter

/-- Event ids are unique, and an event's room exists. -/
def insertEvent (event : MatrixEvent) : Tx Unit := do
  let allowed ← .query fun db =>
    (db.closedEvent event.eventId).isNone && (db.getRoom event.roomId).isSome
  if allowed then .change fun db => { db with events := db.events ++ [event] }
  else .refuse .internal

/-- The membership row follows the member event. -/
def refreshRoomMember (cfg : Config) (roomId stateKey content now : String) : Tx Unit := do
  let value ← .required (.badJson "Malformed event content") (cfg.parse content)
  let text ← .required (.invalidParam "Invalid membership: missing 'membership' field")
    ((value.get? "membership").bind Json.asStr?)
  let membership ← .required (.invalidParam ("Invalid membership: " ++ text))
    (Membership.fromWireName text)
  let userId ← .query fun db => db.userIdOf stateKey
  let userId ← .required (.notFound ("Unknown user: " ++ stateKey)) userId
  .change fun db => db.putMember { roomId, userId, membership, updatedAt := now }

/-- What refreshing the membership and power caches can refuse, and the membership
row it writes. -/
def refreshCaches (cfg : Config) (roomId eventType stateKey content now : String) : Tx Unit :=
  if eventType = "m.room.member" then refreshRoomMember cfg roomId stateKey content now
  else if eventType = "m.room.power_levels" then do
    let _ ← .required (.badJson "Malformed event content") (cfg.parse content)
    return ()
  else return ()

def putSlot (roomId eventType stateKey eventId : String) : Tx Unit :=
  .change fun db => db.putSlot { roomId, eventType, stateKey, eventId }

/-- Event row, slot of the current state, caches. -/
def applyStateEventRawInTx (cfg : Config) (eventId roomId : String) (senderUserId : Int)
    (eventType stateKey content : String) (originServerTs : Int) (now : String) :
    Tx MatrixEvent := do
  let streamId ← nextStreamId
  let event : MatrixEvent := { streamId, eventId, roomId, senderUserId, eventType,
                               stateKey := some stateKey, content, originServerTs }
  insertEvent event
  putSlot roomId eventType stateKey eventId
  refreshCaches cfg roomId eventType stateKey content now
  return event

/-- A state event of the past fills no slot. -/
def insertPastStateRow (eventId roomId : String) (senderUserId : Int)
    (eventType stateKey content : String) (originServerTs : Int) : Tx Unit := do
  let streamId ← nextStreamId
  insertEvent { streamId, eventId, roomId, senderUserId, eventType, stateKey := some stateKey,
                content, originServerTs }

/-- Points a slot at a stored event. -/
def setCurrentStateSlot (cfg : Config) (roomId eventType stateKey eventId now : String) :
    Tx Unit := do
  let event ← .query fun db => db.closedEvent eventId
  let event ← .required .internal event
  putSlot roomId eventType stateKey eventId
  refreshCaches cfg roomId eventType stateKey event.content now

/-- The relation a content declares: type, target and aggregation key. -/
def declaredRelation (content : Json) : Option (String × String × Option String) :=
  (content.get? "m.relates_to").bind fun relates =>
    match relates.get? "m.in_reply_to" with
    | some reply => ((reply.get? "event_id").bind Json.asStr?).map fun target =>
        ("m.in_reply_to", target, none)
    | none => ((relates.get? "rel_type").bind Json.asStr?).bind fun relType =>
        ((relates.get? "event_id").bind Json.asStr?).map fun target =>
          (relType, target, (relates.get? "key").bind Json.asStr?)

/-- The sender reacted to the target with this key, and the reaction stands. -/
def hasAnnotation (db : Db) (target : String) (key : Option String) (senderUserId : Int) : Bool :=
  db.relations.any fun relation =>
    relation.targetId = target ∧ relation.relType = "m.annotation" ∧ relation.aggKey = key ∧
      (db.closedEvent relation.eventId).any fun event =>
        event.senderUserId = senderUserId ∧ event.redactedBy = none

def duplicateAnnotation : MatrixError :=
  { status := 400, errcode := "M_DUPLICATE_ANNOTATION", error := "Already reacted with this key" }

def populateRelations (cfg : Config) (eventId roomId : String) (senderUserId : Int)
    (content : String) : Tx Unit := do
  match (cfg.parse content).bind declaredRelation with
  | none => return ()
  | some (relType, targetId, aggKey) =>
    let target ← .query fun db => db.closedEvent targetId
    if (target.map MatrixEvent.roomId) ≠ some roomId then
      .refuse (.invalidParam ("Invalid relation target: " ++ targetId))
    let duplicate ← .query fun db => hasAnnotation db targetId aggKey senderUserId
    if relType = "m.annotation" ∧ duplicate then .refuse duplicateAnnotation
    .change fun db => { db with
      relations := db.relations ++ [{ eventId, roomId, relType, targetId, aggKey }] }

def insertTimelineEventRawInTx (cfg : Config) (eventId roomId : String) (senderUserId : Int)
    (eventType content : String) (originServerTs : Int) (txnId : Option String) :
    Tx MatrixEvent := do
  let streamId ← nextStreamId
  let event : MatrixEvent := { streamId, eventId, roomId, senderUserId, eventType,
                               stateKey := none, content, originServerTs, txnId }
  insertEvent event
  populateRelations cfg eventId roomId senderUserId content
  return event

/-! ### What the writes change -/

section Spec

variable {cfg : Config} {db db' : Db}

theorem nextStreamId_ok {n : Int} : nextStreamId db = .ok (n, db') ↔
    db.streamCounter + 1 = n ∧ { db with streamCounter := db.streamCounter + 1 } = db' := by
  simp [nextStreamId]

variable {u : Unit} {roomId content now eventType eventId : String} {sender ts : Int}

theorem insertEvent_ok {event : MatrixEvent} : insertEvent event db = .ok (u, db') ↔
    (db.closedEvent event.eventId = none ∧ db.getRoom event.roomId ≠ none) ∧
      { db with events := db.events ++ [event] } = db' := by
  simp only [insertEvent, bind_ok, query_ok]
  constructor
  · rintro ⟨_, _, ⟨rfl, rfl⟩, h⟩
    split at h
    · rename_i hallowed
      rw [Bool.and_eq_true, Option.isNone_iff_eq_none, Option.isSome_iff_ne_none] at hallowed
      exact ⟨hallowed, change_ok.1 h⟩
    · simp at h
  · rintro ⟨h, h'⟩
    refine ⟨_, _, ⟨rfl, rfl⟩, ?_⟩
    simpa [Option.isSome_iff_ne_none, h.1, h.2] using h'

theorem refreshRoomMember_ok {key : String}
    (h : refreshRoomMember cfg roomId key content now db = .ok (u, db')) :
    ∃ userId membership, db.userIdOf key = some userId ∧
      (cfg.membershipText content).join.bind Membership.fromWireName = some membership ∧
      db' = db.putMember { roomId, userId, membership, updatedAt := now } := by
  simp only [refreshRoomMember, bind_ok, required_ok, query_ok,
    change_ok] at h
  obtain ⟨value, _, ⟨hvalue, rfl⟩, text, _, ⟨htext, rfl⟩, membership, _, ⟨hmembership, rfl⟩, _, _,
    ⟨rfl, rfl⟩, userId, _, ⟨huser, rfl⟩, rfl⟩ := h
  exact ⟨userId, membership, huser,
    by simp [Config.membershipText, hvalue, htext, hmembership], rfl⟩

/-- Refreshing the caches writes at most the membership row of a member event. -/
theorem refreshCaches_ok {key : String}
    (h : refreshCaches cfg roomId eventType key content now db = .ok (u, db')) :
    (eventType ≠ "m.room.member" ∧ db' = db) ∨
      (eventType = "m.room.member" ∧
        refreshRoomMember cfg roomId key content now db = .ok ((), db')) := by
  unfold refreshCaches at h
  split_ifs at h with hmember hpower
  · exact .inr ⟨hmember, h⟩
  · simp only [bind_ok, required_ok, pure_ok] at h
    obtain ⟨_, _, ⟨-, rfl⟩, -, rfl⟩ := h
    exact .inl ⟨hmember, rfl⟩
  · exact .inl ⟨hmember, (pure_ok.1 h).2.symm⟩

/-- Only membership rows are touched. -/
theorem refreshCaches_members {key : String}
    (h : refreshCaches cfg roomId eventType key content now db = .ok (u, db')) :
    ∃ members, db' = { db with roomMembers := members } := by
  rcases refreshCaches_ok h with ⟨-, rfl⟩ | ⟨-, h⟩
  · exact ⟨_, rfl⟩
  · obtain ⟨userId, membership, -, -, rfl⟩ := refreshRoomMember_ok h
    unfold Db.putMember
    split <;> exact ⟨_, rfl⟩

/-- A state event: its row, its slot, and what refreshing the caches makes of that. -/
theorem applyStateEventRawInTx_ok {key : String} {event : MatrixEvent}
    (h : applyStateEventRawInTx cfg eventId roomId sender eventType key content ts now db =
      .ok (event, db')) :
    event = { streamId := db.streamCounter + 1, eventId, roomId, senderUserId := sender, eventType,
              stateKey := some key, content, originServerTs := ts } ∧
      db.closedEvent eventId = none ∧ db.getRoom roomId ≠ none ∧
      ∃ slotted, slotted = Db.putSlot { db with
          streamCounter := db.streamCounter + 1, events := db.events ++ [event] }
            { roomId, eventType, stateKey := key, eventId } ∧
        refreshCaches cfg roomId eventType key content now slotted = .ok ((), db') := by
  simp only [applyStateEventRawInTx, bind_ok, nextStreamId_ok, insertEvent_ok, putSlot,
    change_ok, pure_ok] at h
  obtain ⟨_, _, ⟨rfl, rfl⟩, _, _, ⟨⟨hnew, hroom⟩, rfl⟩, _, _, rfl, _, _, hcaches, rfl, rfl⟩ := h
  exact ⟨rfl, hnew, hroom, _, rfl, hcaches⟩

theorem setCurrentStateSlot_ok {key : String}
    (h : setCurrentStateSlot cfg roomId eventType key eventId now db = .ok (u, db')) :
    ∃ event members, db.closedEvent eventId = some event ∧
      db' = { db.putSlot { roomId, eventType, stateKey := key, eventId } with
        roomMembers := members } := by
  simp only [setCurrentStateSlot, bind_ok, query_ok,
    required_ok, putSlot, change_ok] at h
  obtain ⟨_, _, ⟨rfl, rfl⟩, event, _, ⟨hevent, rfl⟩, _, _, rfl, hcaches⟩ := h
  obtain ⟨members, rfl⟩ := refreshCaches_members hcaches
  exact ⟨event, members, hevent, rfl⟩

theorem populateRelations_ok
    (h : populateRelations cfg eventId roomId sender content db = .ok (u, db')) :
    ∃ relations, db' = { db with relations := relations } := by
  cases hrel : (cfg.parse content).bind declaredRelation with
  | none =>
    simp only [populateRelations, hrel, pure_ok] at h
    exact ⟨_, h.2.symm⟩
  | some relation =>
    simp only [populateRelations, hrel, bind_ok, query_ok] at h
    obtain ⟨_, _, ⟨rfl, rfl⟩, h⟩ := h
    split_ifs at h
    · simp at h
    simp only [bind_ok, query_ok] at h
    obtain ⟨_, _, ⟨rfl, rfl⟩, h⟩ := h
    split_ifs at h
    · simp at h
    · exact ⟨_, (change_ok.1 h).symm⟩

theorem insertTimelineEventRawInTx_ok {txnId : Option String} {event : MatrixEvent}
    (h : insertTimelineEventRawInTx cfg eventId roomId sender eventType content ts txnId db =
      .ok (event, db')) :
    event = { streamId := db.streamCounter + 1, eventId, roomId, senderUserId := sender, eventType,
              stateKey := none, content, originServerTs := ts, txnId } ∧
      db.closedEvent eventId = none ∧ db.getRoom roomId ≠ none ∧
      ∃ relations, db' = { db with
        streamCounter := db.streamCounter + 1, events := db.events ++ [event],
        relations := relations } := by
  simp only [insertTimelineEventRawInTx, bind_ok, nextStreamId_ok, insertEvent_ok,
    pure_ok] at h
  obtain ⟨_, _, ⟨rfl, rfl⟩, _, _, ⟨⟨hnew, hroom⟩, rfl⟩, _, _, hrelations, rfl, rfl⟩ := h
  obtain ⟨relations, rfl⟩ := populateRelations_ok hrelations
  exact ⟨rfl, hnew, hroom, relations, rfl⟩

theorem insertPastStateRow_ok {key : String}
    (h : insertPastStateRow eventId roomId sender eventType key content ts db = .ok (u, db')) :
    ∃ event : MatrixEvent, db' = { db with
      streamCounter := db.streamCounter + 1, events := db.events ++ [event] } := by
  simp only [insertPastStateRow, bind_ok, nextStreamId_ok, insertEvent_ok] at h
  obtain ⟨_, _, ⟨rfl, rfl⟩, -, rfl⟩ := h
  exact ⟨_, rfl⟩

end Spec

end Store

end Server
