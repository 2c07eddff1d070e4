import Mail4Agent.Dag.Accept
import Mail4Agent.Foundation.Text
import Mail4Agent.Server.Writes

/-!
# Rooms with an event graph

The store side of the event graph: local events built and accepted in the writing
transaction, events received from peers, events of the past, and replicas started
from a peer's snapshot. Graph rows and the room's visible rows are written in one
transaction, so a refused event leaves neither.

`Op` lists the requests, `Op.apply` is the transaction of one of them, and its result
names the events it accepted.
-/

namespace Server

open Dag (Accepted Historic Pdu PublicKeyMap Reject StateKey StateMap Tables)

/-- What the server needs to know of itself and of the Matrix libraries. -/
structure Federation where
  rules : Dag.Rules
  signer : Dag.Signer
  isServerName : String → Bool
  isLocalServerName : String → Bool

namespace Federation

variable (fed : Federation)

def domainOf (mxid : String) : Option String :=
  ((Text.stripLead ['@'] mxid.toList).bind (Text.splitOnce ':')).map fun parts =>
    String.ofList parts.2

/-- An mxid addressed to another server. -/
def isRemoteMxid (mxid : String) : Bool :=
  (domainOf mxid).any fun domain => fed.isServerName domain && !fed.isLocalServerName domain

end Federation

namespace F3

variable (cfg : Config) (fed : Federation)

/-- A refusal of the event graph in a client's write. -/
def rejected (r : Reject) : MatrixError :=
  .forbidden ("Refused by the room's auth rules: " ++ r.text)

/-- A refusal of the event graph towards a peer. -/
def bad (r : Reject) : MatrixError := .forbidden r.text

def strOf (v : Json) (key : String) : Tx String :=
  .required (.badJson key) ((v.get? key).bind Json.asStr?)

/-- The text of the JSON reader's error is not modelled. -/
def jsonObj (v : Json) : Tx Json := .required (.badJson "not canonical JSON") v.canonicalObject?

def changeDag (f : Tables → Tables) : Tx Unit := .change fun db => { db with dag := f db.dag }

/-! ### Users -/

/-- Proxy row for a remote user: a negative id. -/
def ensureRemoteUser (field mxid : String) : Tx Int := do
  if ¬ fed.isRemoteMxid mxid then .refuse (.badJson field)
  match ← .query fun db => db.userIdOf mxid with
  | some id => return id
  | none =>
    let least ← .query fun db => (db.matrixUsers.map MatrixUser.userId).foldl min 0
    .change fun db => { db with matrixUsers := db.matrixUsers ++ [⟨least - 1, mxid⟩] }
    return least - 1

def ensureLocalUser (mxid : String) : Tx Int := do
  let id ← .query fun db => db.userIdOf mxid
  .required (.notFound "unknown local user") id

def ensureUser (field mxid : String) : Tx Int :=
  if fed.isRemoteMxid mxid then ensureRemoteUser fed field mxid else ensureLocalUser mxid

def ensureUsers (pdu : Json) : Tx Int := do
  let sender ← strOf pdu "sender"
  let uid ← ensureUser fed "sender" sender
  if (pdu.get? "type").bind Json.asStr? = some "m.room.member" then
    let key ← strOf pdu "state_key"
    let _ ← ensureUser fed "state_key" key
  return uid

/-! ### Local events -/

structure Prepared where
  eventId : String
  content : String

def joinRuleIsRestricted (db : Db) (roomId : String) : Bool :=
  (db.currentStateEvent roomId "m.room.join_rules" "").any fun event =>
    ((cfg.parse event.content).bind fun v => (v.get? "join_rule").bind Json.asStr?) =
      some "restricted"

/-- The joined local member that vouches for a join: the creator if joined, else the
one with the least id. -/
def authorisingMember (db : Db) (roomId : String) : Option String :=
  let creator := (db.getRoom roomId).map Room.creatorUserId
  let local_ := (db.roomMembersOf roomId (some .join)).filter fun m => 0 < m.userId
  (Page.select (fun m => toLex (decide (creator ≠ some m.userId), m.userId)) 1 local_).head?.bind
    fun m => db.mxidOf m.userId

/-- A join into a restricted room by someone who is neither invited nor joined names a
local member who may invite. -/
def authoriseRestrictedJoin (db : Db) (roomId sender : String) (content : Json) : Json :=
  let already := ((db.userIdOf sender).bind (db.roomMember roomId)).map RoomMember.membership
  if joinRuleIsRestricted cfg db roomId ∧ already ≠ some .invite ∧ already ≠ some .join then
    match authorisingMember db roomId with
    | some via => Json.setField "join_authorised_via_users_server" (.str via) content
    | none => content
  else content

/-- The content a local event is signed with. -/
def localContent (db : Db) (roomId sender kind : String) (stateKey : Option String)
    (content : Json) : Json :=
  let content := if kind = "m.room.create" ∧ (content.get? "creator").isNone then
    Json.setField "creator" (.str sender) content else content
  if kind = "m.room.member" ∧ stateKey = some sender ∧
      (content.get? "membership").bind Json.asStr? = some "join" ∧
      (content.get? "join_authorised_via_users_server").isNone then
    authoriseRestrictedJoin cfg db roomId sender content
  else content

/-- Builds, checks, signs and stores the event of a local user. `none`: the room has no
event graph. -/
def prepareLocal (roomId : String) (senderUserId : Int) (kind : String)
    (stateKey : Option String) (content : String) (ts : Int) :
    Tx (Option (Prepared × Accepted)) := do
  let dag ← .query Db.dag
  if ¬ dag.isF3Room roomId then return none
  let sender ← .query fun db => db.mxidOf senderUserId
  let sender ← .required (.notFound ("Unknown user: " ++ toString senderUserId)) sender
  let value ← .required (.badJson "Malformed event content") (cfg.parse content)
  let value ← .query fun db => localContent cfg db roomId sender kind stateKey value
  let acc ← .lift ((Dag.localEvent fed.rules (dag.conn fed.rules roomId) fed.signer roomId
    ts.toNat sender kind stateKey value).mapError rejected)
  let stored ← .required .internal (dag.storeAccepted roomId acc)
  changeDag fun _ => stored
  return some ({ eventId := acc.eventId, content := cfg.render value }, acc)

/-- Writes a local state event; the result names the accepted event if the room has an
event graph. -/
def applyStateEvent (eventId roomId : String) (senderUserId : Int)
    (eventType stateKey content : String) (originServerTs : Int) (now : String) :
    Tx (Option Accepted) := do
  match ← prepareLocal cfg fed roomId senderUserId eventType (some stateKey) content
      originServerTs with
  | some (p, acc) =>
    let _ ← Store.applyStateEventRawInTx cfg p.eventId roomId senderUserId eventType stateKey
      p.content originServerTs now
    return some acc
  | none =>
    let _ ← Store.applyStateEventRawInTx cfg eventId roomId senderUserId eventType stateKey
      content originServerTs now
    return none

def insertTimelineEvent (eventId roomId : String) (senderUserId : Int)
    (eventType content : String) (originServerTs : Int) (txnId : Option String) :
    Tx (Option Accepted) := do
  match ← prepareLocal cfg fed roomId senderUserId eventType none content originServerTs with
  | some (p, acc) =>
    let _ ← Store.insertTimelineEventRawInTx cfg p.eventId roomId senderUserId eventType
      p.content originServerTs txnId
    return some acc
  | none =>
    let _ ← Store.insertTimelineEventRawInTx cfg eventId roomId senderUserId eventType content
      originServerTs txnId
    return none

/-! ### Events received from peers -/

/-- The event that holds a slot of the room's current state. -/
def slotHolder (db : Db) (roomId : String) (key : StateKey) : Option String :=
  (db.currentState.find? fun slot =>
    slot.roomId = roomId ∧ slot.eventType = key.1 ∧ slot.stateKey = key.2).map StateSlot.eventId

/-- Points the slot at the resolved winner; a slot without one is left as it is. -/
def projectSlot (roomId : String) (state : StateMap) (now : String) (key : StateKey) :
    Tx Unit := do
  match state.get? key with
  | none => return ()
  | some winner =>
    let holder ← .query fun db => slotHolder db roomId key
    if holder ≠ some winner then
      Store.setCurrentStateSlot cfg roomId key.1 key.2 winner now

/-- The slots that resolution filled differently than before. -/
def changedSlots (before after : StateMap) : List StateKey :=
  (after.filter fun entry => before.get? entry.1 ≠ some entry.2).map Prod.fst

/-- Writes the room-visible rows of an accepted event. -/
def project (roomId : String) (acc : Accepted) (prevCurrent : StateMap) (senderUid : Int)
    (now : String) : Tx Unit := do
  let content := cfg.render acc.pdu.content
  match acc.pdu.stateKey with
  | some key =>
    let _ ← Store.applyStateEventRawInTx cfg acc.eventId roomId senderUid acc.pdu.kind key content
      acc.pdu.originServerTs now
    Transaction.each (projectSlot cfg roomId acc.currentState now)
      ((acc.pdu.kind, key) :: changedSlots prevCurrent acc.currentState)
  | none =>
    let _ ← Store.insertTimelineEventRawInTx cfg acc.eventId roomId senderUid acc.pdu.kind content
      acc.pdu.originServerTs none

inductive RecvErr where
  | missing (ids : List String)
  | other (e : MatrixError)

/-- The events an event needs and this server does not have. -/
def missingEvents (dag : Tables) (roomId : String) (pdu : Pdu) : List String :=
  (pdu.prevEvents ++ pdu.authEvents).filter fun id =>
    !dag.isKnown id &&
      !(pdu.authEvents.contains id && ((dag.conn fed.rules roomId).pdu id).isSome)

/-- Why a received event was not accepted. -/
def recvErr : Reject → RecvErr
  | .missingPrev id => .missing [id]
  | .missingAuth id => .missing [id]
  | r => .other (bad r)

/-- A peer's event, and the accepted event unless it was there already. -/
def receive (origin : Option String) (pdu : Json) (keys : PublicKeyMap) (now : String) :
    Transaction Db RecvErr (String × Option Accepted) := do
  let roomId ← (strOf pdu "room_id").mapError .other
  let sender ← (strOf pdu "sender").mapError .other
  if origin.any fun origin =>
      Federation.domainOf sender ≠ some origin ∨ ¬ fed.isRemoteMxid sender then
    .refuse (.other (.forbidden "sender is not a user of the sending server"))
  let dag ← .query Db.dag
  if ¬ dag.isF3Room roomId then .refuse (.other (.notFound "unknown room"))
  let obj ← (jsonObj pdu).mapError .other
  let id ← .lift ((Dag.computeEventId fed.rules obj).mapError fun r => .other (bad r))
  if dag.isKnown id then return (id, none)
  let wire ← .lift ((Pdu.fromWire fed.rules id obj).mapError fun e => .other (.badJson e))
  let missing := missingEvents fed dag roomId wire
  if missing ≠ [] then .refuse (.missing missing)
  let senderUid ← (ensureUsers fed pdu).mapError .other
  let graph := dag.conn fed.rules roomId
  let prevCurrent ← .lift ((Dag.currentState fed.rules graph).mapError fun r => .other (bad r))
  let acc ← .lift ((Dag.acceptWire fed.rules graph obj keys none).mapError recvErr)
  let stored ← .required (.other .internal) (dag.storeAccepted roomId acc)
  (changeDag fun _ =>
    if Dag.isSkeleton fed.rules acc.json then stored.markSkeleton acc.eventId else stored).mapError
      .other
  if ¬ acc.softFailed then
    (project cfg roomId acc prevCurrent senderUid now).mapError .other
  return (id, some acc)

/-! ### Events of the past -/

/-- The depth by which events of a batch are put in order. -/
def sortDepth (obj : Json) : Int :=
  match obj.get? "depth" with
  | some (.int n) => n
  | _ => 0

/-- One event of a batch, checked for its room, its signature and its id. -/
def parseOfRoom (roomId : String) (keys : PublicKeyMap) (v : Json) : Tx (String × Json) := do
  if (v.get? "room_id").bind Json.asStr? ≠ some roomId then
    .refuse (.badJson "event of another room")
  let obj ← jsonObj v
  .lift ((Dag.verifyWire fed.rules obj keys).mapError bad)
  let id ← .lift ((Dag.computeEventId fed.rules obj).mapError bad)
  return (id, obj)

def parseAll (roomId : String) (keys : PublicKeyMap) : List Json → Tx (List (String × Json))
  | [] => return []
  | v :: rest => do
    let parsed ← parseOfRoom fed roomId keys v
    let more ← parseAll roomId keys rest
    return parsed :: more

/-- The timeline row of an event of the past, unless there is one. -/
def insertPastRow (roomId : String) (uid : Int) (id : String) (pdu : Pdu) : Tx Unit := do
  let known ← .query fun db => (db.closedEvent id).isSome
  if known then return ()
  let content := cfg.render pdu.content
  match pdu.stateKey with
  | some key => Store.insertPastStateRow id roomId uid pdu.kind key content pdu.originServerTs
  | none =>
    let _ ← Store.insertTimelineEventRawInTx cfg id roomId uid pdu.kind content
      pdu.originServerTs none

/-- One event of a batch; one that has a state already is passed over. -/
def historicEvent (roomId : String) (entry : String × Json) : Tx (Option Historic) := do
  let (id, obj) := entry
  let dag ← .query Db.dag
  if (dag.groupOf id).isSome then return none
  let uid ← ensureUsers fed obj
  let h ← .lift ((Dag.acceptHistoric fed.rules (dag.conn fed.rules roomId) id obj).mapError bad)
  changeDag fun dag => dag.storeHistoric fed.rules roomId h
  insertPastRow cfg roomId uid id h.pdu
  return some h

def historicEvents (roomId : String) : List (String × Json) → Tx (List Historic)
  | [] => return []
  | entry :: rest => do
    let h ← historicEvent cfg fed roomId entry
    let more ← historicEvents roomId rest
    return h.toList ++ more

/-- Events of the past, oldest first by their depth. -/
def acceptHistory (roomId : String) (events : List Json) (keys : PublicKeyMap) :
    Tx (List Historic) := do
  let dag ← .query Db.dag
  if ¬ dag.isF3Room roomId then .refuse (.notFound "unknown room")
  let parsed ← parseAll fed roomId keys events
  historicEvents cfg fed roomId (parsed.insertionSort fun a b =>
    sortDepth a.2 < sortDepth b.2 ∨ (sortDepth a.2 = sortDepth b.2 ∧ a.1 ≤ b.1))

/-! ### Snapshots -/

def createReplicaRoom (roomId : String) (info : Json) : Tx Unit := do
  if (← .query fun db => (db.getRoom roomId).isSome) then return ()
  let text (key : String) := (info.get? key).bind Json.asStr?
  let kind ← .required (.badJson "room kind") ((text "kind").bind RoomKind.fromWireName)
  let joinRule := ((text "join_rule").bind JoinRule.fromWireName).getD .invite
  let historyVisibility :=
    ((text "history_visibility").bind HistoryVisibility.fromWireName).getD .shared
  let creator := (text "creator").getD ""
  let creatorUserId ← if fed.isRemoteMxid creator then ensureRemoteUser fed "creator" creator
    else .query fun db => (db.userIdOf creator).getD (-1)
  let isEncrypted := match info.get? "is_encrypted" with
    | some (.bool b) => b
    | _ => false
  .change fun db => { db with rooms := db.rooms ++
    [{ id := roomId, kind, creatorUserId, isEncrypted, joinRule, historyVisibility }] }

/-- A list of events in a snapshot. -/
def eventList (snap : Json) (key : String) : List Json :=
  ((snap.get? key).bind Json.asArr?).getD []

/-- The ids of the events that can be read. -/
def readableIds (events : List Json) : List String :=
  events.filterMap fun v => v.canonicalObject?.bind fun obj =>
    (Dag.computeEventId fed.rules obj).toOption

/-- The first event of each id. -/
def firstOfEachId : List (String × Json) → List (String × Json)
  | [] => []
  | entry :: rest => entry :: (firstOfEachId rest).filter fun other => other.1 ≠ entry.1

/-- Stores one event of a snapshot. A state event joins the snapshot's state. -/
def importEvent (roomId : String) (stateIds : List String) (now : String) (state : StateMap)
    (entry : String × Json) : Tx StateMap := do
  let (id, obj) := entry
  let pdu ← .lift ((Pdu.fromWire fed.rules id obj).mapError MatrixError.badJson)
  let uid ← ensureUsers fed obj
  let known ← .query fun db => (db.dag.row? id).isSome
  changeDag fun dag => dag.storeOutlier roomId pdu obj
  match pdu.slot? with
  | some slot =>
    if id ∈ stateIds then
      if ¬ known then
        let _ ← Store.applyStateEventRawInTx cfg id roomId uid slot.1 slot.2
          (cfg.render pdu.content) pdu.originServerTs now
      return state.insert slot id
    else return state
  | none => return state

def importEvents (roomId : String) (stateIds : List String) (now : String) :
    StateMap → List (String × Json) → Tx StateMap
  | state, [] => return state
  | state, entry :: rest => do
    let state ← importEvent cfg fed roomId stateIds now state entry
    importEvents roomId stateIds now state rest

/-- Placeholders of a spec invite give way to the real events. -/
def dropPlaceholders (db : Db) (roomId : String) : Db :=
  let placeholder (id : String) : Bool := (Text.stripLead "$stripped-".toList id.toList).isSome
  { db with
    currentState := db.currentState.filter fun slot =>
      ¬ (slot.roomId = roomId ∧ placeholder slot.eventId)
    events := db.events.filter fun event =>
      ¬ (event.roomId = roomId ∧ placeholder event.eventId) }

/-- The snapshot's extremities replace the room's and get the snapshot's state. -/
def snapshotTables (dag : Tables) (roomId : String) (state : StateMap) (extremities : List String) :
    Tables :=
  let group := dag.stateGroups.length
  let dag := extremities.foldl (fun dag id => dag.setEventState id group) (dag.newGroup state)
  dag.setExtremities roomId extremities

/-- Starts (or completes) a replica of a room from a peer's snapshot. -/
def importSnapshot (roomId : String) (info snap : Json) (keys : PublicKeyMap) (now : String) :
    Tx Unit := do
  let stateEvents := eventList snap "state"
  let extremityEvents := eventList snap "extremities"
  let all := stateEvents ++ extremityEvents ++ eventList snap "auth_chain"
  createReplicaRoom fed roomId info
  changeDag fun dag => dag.markRoom roomId
  let objs ← .required (.badJson "not canonical JSON") (all.mapM Json.canonicalObject?)
  let _ ← .lift ((Dag.verifyAuthChain fed.rules objs keys).mapError bad)
  let parsed ← parseAll fed roomId keys all
  let parsed := (firstOfEachId parsed).insertionSort fun a b => sortDepth a.2 ≤ sortDepth b.2
  let state ← importEvents cfg fed roomId (readableIds fed stateEvents) now [] parsed
  Transaction.each (projectSlot cfg roomId state now) (state.map Prod.fst)
  .change fun db => dropPlaceholders db roomId
  let extremityIds := readableIds fed extremityEvents
  changeDag fun dag => snapshotTables dag roomId state
    ((parsed.map Prod.fst).filter fun id => id ∈ extremityIds)

/-! ### Requests -/

inductive Op where
  | createRoom (room : Room)
  | localState (eventId roomId : String) (sender : Int) (kind key content : String) (ts : Int)
      (now : String)
  | localMessage (eventId roomId : String) (sender : Int) (kind content : String) (ts : Int)
  | receive (origin : Option String) (pdu : Json) (keys : PublicKeyMap) (now : String)
  | historic (roomId : String) (events : List Json) (keys : PublicKeyMap)
  | snapshot (roomId : String) (info snap : Json) (keys : PublicKeyMap) (now : String)

/-- A room created with an event graph; its id is new. -/
def createRoom (room : Room) : Tx Unit := do
  if (← .query fun db => (db.getRoom room.id).isSome) then .refuse .internal
  .change fun db => { db with rooms := db.rooms ++ [room] }
  changeDag fun dag => dag.markRoom room.id

/-- The request as a transaction; the result lists the events it accepted. -/
def Op.apply : Op → Transaction Db RecvErr (List Pdu)
  | createRoom room => do
    (F3.createRoom room).mapError .other
    return []
  | localState eventId roomId sender kind key content ts now => do
    let acc ← (applyStateEvent cfg fed eventId roomId sender kind key content ts now).mapError
      .other
    return (acc.map Accepted.pdu).toList
  | localMessage eventId roomId sender kind content ts => do
    let acc ← (insertTimelineEvent cfg fed eventId roomId sender kind content ts none).mapError
      .other
    return (acc.map Accepted.pdu).toList
  | receive origin pdu keys now => do
    let (_, acc) ← F3.receive cfg fed origin pdu keys now
    return (acc.map Accepted.pdu).toList
  | historic roomId events keys => do
    let done ← (acceptHistory cfg fed roomId events keys).mapError .other
    return done.map Historic.pdu
  | snapshot roomId info snap keys now => do
    (importSnapshot cfg fed roomId info snap keys now).mapError .other
    return []

/-- The database after a request; a refused one leaves it as it was. -/
def step (db : Db) (op : Op) : Db := (op.apply cfg fed).settle db

/-- The events a request accepts. -/
def accepted (db : Db) (op : Op) : List Pdu :=
  match op.apply cfg fed db with
  | .ok (pdus, _) => pdus
  | .error _ => []

end F3

end Server
