import Mail4Agent.Server.F3Projection
import Mail4Agent.Server.Rooms

/-!
# Runs of room operations

Room creation, and the operations of `Server.Rooms` as steps of one machine. Whatever an
operation decides, it changes the tables by state events written one after another
(`Puts`), by a new room row, or by dropping a membership row; the lemmas of `Puts` say what
one write does to everything an operation reads. They hold in rooms with and without an
event graph.
-/

namespace Server

open Transaction

namespace Rooms

/-! ### Creation -/

def deriveRoomKind (isDirect : Bool) (inviteCount : Nat) (visibilityPublic : Bool) :
    Except MatrixError RoomKind :=
  if isDirect then
    if inviteCount = 1 then .ok .dm
    else .error (.invalidParam "is_direct requires exactly one invite target")
  else if visibilityPublic then .ok .channel
  else .ok .group

/-- The join rule, the history visibility and whether a fresh room is encrypted. -/
def roomKindSettings : RoomKind → JoinRule × HistoryVisibility × Bool
  | .dm | .group => (.invite, .shared, true)
  | .channel => (.public, .worldReadable, false)

def validatePowerLevelOverride (kind : RoomKind) : Option Json → Except MatrixError (Option Int)
  | none => .ok none
  | some value =>
    match value.asObject? with
    | none => .error (.invalidParam "power_level_content_override must be an object")
    | some fields =>
      if fields.any fun field => field.1 ≠ "invite" then
        .error (.invalidParam "power_level_content_override only accepts the 'invite' key")
      else match fields.lookup "invite" with
        | none => .ok none
        | some level =>
          if kind ≠ .group then
            .error (.invalidParam "power_level_content_override is only accepted for group rooms")
          else if level.asI64? = some 0 then .ok (some 0)
          else if level.asI64? = some 50 then .ok (some 50)
          else .error (.invalidParam "power_level_content_override.invite must be 0 or 50")

def invitePowerLevel (kind : RoomKind) (override : Option Int) : Int :=
  if kind = .group then override.getD 50 else 50

def powerLevelsContent (creator : String) (kind : RoomKind) (inviteLevel : Int) : Json :=
  .obj [("users", .obj [(creator, .int 100)]), ("users_default", .int 0),
    ("events_default", .int (if kind = .channel then 50 else 0)), ("state_default", .int 50),
    ("ban", .int 50), ("kick", .int 50), ("redact", .int 50), ("invite", .int inviteLevel)]

def dmPairKey (a b : Int) : String := toString (min a b) ++ ":" ++ toString (max a b)

/-- A state event of a fresh room, before it has an id. -/
structure NewState where
  eventType : String
  stateKey : String
  content : Json

/-- What a room is created with. The ids are drawn by the server; `hashIds` is the feature
under which new closed rooms get an event graph. -/
structure RoomCreate where
  creator : Caller
  displayname : String
  isDirect : Bool := false
  invitees : List (Int × String) := []
  visibilityPublic : Bool := false
  powerLevelContentOverride : Option Json := none
  name : Option String := none
  topic : Option String := none
  roomType : Option String := none
  predecessor : Option (String × String) := none
  roomId : String
  eventIds : Nat → String
  now : String
  originTs : Int
  hashIds : Bool := false

namespace RoomCreate

def createContent (req : RoomCreate) : Json :=
  .obj ([("room_version", .str "11")] ++ (req.roomType.map fun t => ("type", Json.str t)).toList ++
    (req.predecessor.map fun p => ("predecessor",
      Json.obj [("room_id", .str p.1), ("event_id", .str p.2)])).toList)

/-- The creator's join and the invitations; `invitees` are user names with their labels. -/
def memberEvents (req : RoomCreate) (kind : RoomKind) (invitees : List (String × String)) :
    List NewState :=
  ⟨"m.room.member", req.creator.mxid, joinMemberContent req.displayname⟩ ::
    invitees.map fun invitee => ⟨"m.room.member", invitee.1, inviteMemberContent kind invitee.2⟩

/-- The state a room of this kind starts with. -/
def stateEvents (req : RoomCreate) (kind : RoomKind) (inviteLevel : Int)
    (invitees : List (String × String)) : List NewState :=
  let settings := roomKindSettings kind
  ⟨"m.room.create", "", req.createContent⟩ :: req.memberEvents kind invitees ++
    [⟨"m.room.power_levels", "", powerLevelsContent req.creator.mxid kind inviteLevel⟩,
      ⟨"m.room.join_rules", "", .obj [("join_rule", .str settings.1.asStr)]⟩,
      ⟨"m.room.history_visibility", "",
        .obj [("history_visibility", .str settings.2.1.asStr)]⟩] ++
    (req.name.map fun name => ⟨"m.room.name", "", .obj [("name", .str name)]⟩).toList ++
    (req.topic.map fun topic => ⟨"m.room.topic", "", .obj [("topic", .str topic)]⟩).toList ++
    (if settings.2.2 then
      [⟨"m.room.encryption", "", .obj [("algorithm", .str "m.megolm.v1.aes-sha2")]⟩] else [])

def room (req : RoomCreate) (kind : RoomKind) : Room :=
  let settings := roomKindSettings kind
  { id := req.roomId, kind, creatorUserId := req.creator.userId, isEncrypted := settings.2.2,
    joinRule := settings.1, historyVisibility := settings.2.1,
    dmPairKey := if kind = .dm then
      req.invitees.head?.map fun peer => dmPairKey req.creator.userId peer.1 else none }

end RoomCreate

/-- A room row; ids and the keys of direct rooms are unique. -/
def insertRoomRow (room : Room) : Tx Unit := do
  let taken ← .query fun db => (db.getRoom room.id).isSome ||
    room.dmPairKey.any fun key => db.rooms.any fun other => other.dmPairKey = some key
  if taken then .refuse .internal
  .change fun db => { db with rooms := db.rooms ++ [room] }

section Operations

variable (cfg : Config) (fed : Federation)

def putNewState (req : RoomCreate) : Nat → List NewState → Tx Unit
  | _, [] => return ()
  | n, event :: rest => do
    let _ ← writeState cfg fed ⟨req.eventIds n, req.now, req.originTs⟩ req.roomId
      req.creator.userId event.eventType event.stateKey (cfg.render event.content)
    putNewState req (n + 1) rest

/-- The room row, its mark as a room with an event graph, and its first state, in one
transaction. -/
def createRoomWithState (req : RoomCreate) (kind : RoomKind) (events : List NewState) :
    Tx Unit := do
  insertRoomRow (req.room kind)
  if req.hashIds ∧ ¬ (kind = .channel ∧ ¬ (req.room kind).isEncrypted) then
    .change fun db => { db with dag := db.dag.markRoom req.roomId }
  putNewState cfg fed req 0 events

/-- A direct room whose two users are both joined or invited is used again; the key of one
that is not is freed. -/
def findReusableDmRoom (key : String) (a b : Int) : Tx (Option String) := do
  let db ← .query id
  match db.rooms.find? fun room => room.dmPairKey = some key with
  | none => return none
  | some room =>
    let alive (user : Int) : Bool := db.roomMembers.any fun member => member.roomId = room.id ∧
      member.userId = user ∧ (member.membership = .join ∨ member.membership = .invite)
    if alive a && alive b then return some room.id
    .change fun db => { db with rooms := db.rooms.map fun other =>
      if other.id = room.id then { other with dmPairKey := none } else other }
    return none

def labelledInvitees (db : Db) (req : RoomCreate) : Option (List (String × String)) :=
  req.invitees.mapM fun invitee => (db.mxidOf invitee.1).map fun mxid => (mxid, invitee.2)

/-- The kind of the room and the level it is to take to invite. -/
def checkCreate (req : RoomCreate) : Except MatrixError (RoomKind × Int) := do
  if req.invitees.any fun invitee => invitee.1 = req.creator.userId then
    .error (.invalidParam "cannot invite yourself")
  let kind ← deriveRoomKind req.isDirect req.invitees.length req.visibilityPublic
  let override ← validatePowerLevelOverride kind req.powerLevelContentOverride
  return (kind, invitePowerLevel kind override)

def reuseDirectRoom (req : RoomCreate) (kind : RoomKind) : Tx (Option String) :=
  match kind, req.invitees.head? with
  | .dm, some peer => findReusableDmRoom (dmPairKey req.creator.userId peer.1) req.creator.userId
      peer.1
  | _, _ => return none

def newRoom (req : RoomCreate) (kind : RoomKind) (inviteLevel : Int) : Tx Unit := do
  let invitees ← .query fun db => labelledInvitees db req
  let invitees ← .required .internal invitees
  createRoomWithState cfg fed req kind (req.stateEvents kind inviteLevel invitees)

/-- The result is the direct room that is used again, if there is one. -/
def applyCreateRoom (req : RoomCreate) : Request (Option String) := do
  let (kind, inviteLevel) ← .lift (checkCreate req)
  match ← .commit (reuseDirectRoom req kind) with
  | some room => return some room
  | none =>
    .commit (newRoom cfg fed req kind inviteLevel)
    return none

end Operations

end Rooms

/-! ### One state write -/

/-- A field of a stored document, as its text keeps it. -/
def Config.field (cfg : Config) (content name : String) : Option Json :=
  ((cfg.parse content).bind (Json.get? name)).map Json.canonical

theorem Config.field_asStr (cfg : Config) (content name : String) :
    (cfg.field content name).bind Json.asStr? =
      ((cfg.parse content).bind (Json.get? name)).bind Json.asStr? := by
  unfold Config.field
  cases (cfg.parse content).bind (Json.get? name) <;> simp

theorem Config.Lawful.field_render {cfg : Config} (lawful : cfg.Lawful) (v : Json) (name : String) :
    cfg.field (cfg.render v) name = (v.get? name).map Json.canonical := by
  have hread := congrArg (Option.bind · (Json.get? name)) (lawful.parse_render v)
  cases hparse : cfg.parse (cfg.render v) <;> simpa [Config.field, hparse] using hread

/-- The membership a stored member event is for. -/
def Config.membership (cfg : Config) (content : String) : Option Membership :=
  ((cfg.field content "membership").bind Json.asStr?).bind Membership.fromWireName

theorem Config.membershipText_join (cfg : Config) (content : String) :
    (cfg.membershipText content).join = (cfg.field content "membership").bind Json.asStr? := by
  rw [cfg.field_asStr, Config.membershipText]
  cases cfg.parse content <;> rfl

/-- The document as it is signed: an event graph adds two fields of its own. -/
def Config.SignedAs (cfg : Config) (content signed : String) : Prop :=
  ∀ name, name ≠ "creator" → name ≠ "join_authorised_via_users_server" →
    cfg.field signed name = cfg.field content name

theorem Config.SignedAs.membership {cfg : Config} {content signed : String}
    (h : cfg.SignedAs content signed) : cfg.membership signed = cfg.membership content := by
  unfold Config.membership
  rw [h _ (by decide) (by decide)]

structure StateWrite where
  eventId : String
  roomId : String
  sender : Int
  eventType : String
  stateKey : String
  content : String
  originTs : Int
  now : String

namespace StateWrite

variable (w : StateWrite)

def event (streamId : Int) : MatrixEvent where
  streamId := streamId
  eventId := w.eventId
  roomId := w.roomId
  senderUserId := w.sender
  eventType := w.eventType
  stateKey := some w.stateKey
  content := w.content
  originServerTs := w.originTs

/-- The membership row that follows the event. -/
def member? (cfg : Config) (db : Db) : Option RoomMember :=
  if w.eventType = "m.room.member" then
    (db.userIdOf w.stateKey).bind fun userId => (cfg.membership w.content).map fun membership =>
      ⟨w.roomId, userId, membership, w.now⟩
  else none

end StateWrite

/-- The tables after a state event was written. -/
def Db.write (cfg : Config) (db : Db) (w : StateWrite) : Db :=
  let slotted := Db.putSlot { db with
    streamCounter := db.streamCounter + 1, events := db.events ++ [w.event (db.streamCounter + 1)] }
      ⟨w.roomId, w.eventType, w.stateKey, w.eventId⟩
  match w.member? cfg db with
  | some member => slotted.putMember member
  | none => slotted

/-- A state event was written; an event graph may have grown with it. -/
def Puts (cfg : Config) (db : Db) (roomId eventType key content : String) (db' : Db) : Prop :=
  ∃ (dag : Dag.Tables) (w : StateWrite),
    db' = ({ db with dag := dag } : Db).write cfg w ∧ w.roomId = roomId ∧ w.eventType = eventType ∧
      w.stateKey = key ∧ cfg.SignedAs content w.content ∧ db.closedEvent w.eventId = none ∧
      db.getRoom roomId ≠ none ∧ (eventType = "m.room.member" → (w.member? cfg db).isSome)

section Puts

variable {cfg : Config} {fed : Federation} {db db' : Db} {roomId eventType key content : String}

variable {sender ts : Int} {stateKey : Option String}

theorem applyStateEventRawInTx_write {eventId now : String} {event : MatrixEvent}
    (h : Store.applyStateEventRawInTx cfg eventId roomId sender eventType key content ts now db =
      .ok (event, db')) :
    db' = db.write cfg ⟨eventId, roomId, sender, eventType, key, content, ts, now⟩ ∧
      (eventType = "m.room.member" → (StateWrite.member?
        ⟨eventId, roomId, sender, eventType, key, content, ts, now⟩ cfg db).isSome) := by
  obtain ⟨rfl, -, -, slotted, rfl, hcaches⟩ := Store.applyStateEventRawInTx_ok h
  rcases Store.refreshCaches_ok hcaches with ⟨hother, rfl⟩ | ⟨hmember, hrow⟩
  · refine ⟨?_, fun hmember => absurd hmember hother⟩
    simp [Db.write, StateWrite.member?, hother, StateWrite.event]
  · obtain ⟨userId, membership, huser, htext, rfl⟩ := Store.refreshRoomMember_ok hrow
    have hmembership : cfg.membership content = some membership := by
      rw [Config.membership, ← Config.membershipText_join, htext]
    have huser' : db.userIdOf key = some userId := huser
    have hsome : StateWrite.member? ⟨eventId, roomId, sender, eventType, key, content, ts, now⟩ cfg
        db = some ⟨roomId, userId, membership, now⟩ := by
      simp [StateWrite.member?, hmember, huser', hmembership]
    refine ⟨?_, fun _ => by rw [hsome]; rfl⟩
    simp only [Db.write, hsome]
    rfl

/-- The content a local event is signed with keeps the fields it was given. -/
theorem get?_localContent {sender kind : String} {value : Json} {name : String}
    (hcreator : name ≠ "creator") (hvia : name ≠ "join_authorised_via_users_server") :
    (F3.localContent cfg db roomId sender kind stateKey value).get? name = value.get? name := by
  have hfirst (v : Json) : (F3.authoriseRestrictedJoin cfg db roomId sender v).get? name =
      v.get? name := by
    unfold F3.authoriseRestrictedJoin
    dsimp only
    split_ifs
    · split
      · exact Rooms.get?_setField_of_ne hvia
      · rfl
    · rfl
  unfold F3.localContent
  dsimp only
  split_ifs
  · rw [hfirst, Rooms.get?_setField_of_ne hcreator]
  · exact Rooms.get?_setField_of_ne hcreator
  · rw [hfirst]
  · rfl

theorem prepareLocal_signed (lawful : cfg.Lawful) {kind : String} {p : F3.Prepared}
    {acc : Dag.Accepted}
    (h : F3.prepareLocal cfg fed roomId sender kind stateKey content ts db =
      .ok (some (p, acc), db')) :
    cfg.SignedAs content p.content := by
  simp only [F3.prepareLocal, bind_ok, query_ok] at h
  obtain ⟨_, _, ⟨rfl, rfl⟩, h⟩ := h
  by_cases hroom : db.dag.isF3Room roomId
  case neg =>
    rw [if_pos hroom, pure_ok] at h
    cases h.1
  rw [if_neg (not_not.2 hroom)] at h
  simp only [bind_ok, query_ok, required_ok,
    lift_ok, F3.changeDag, change_ok, pure_ok] at h
  obtain ⟨_, _, ⟨rfl, rfl⟩, mxid, _, ⟨-, rfl⟩, value, _, ⟨hvalue, rfl⟩, _, _, ⟨rfl, rfl⟩, acc', _,
    -, stored, _, ⟨-, rfl⟩, _, _, rfl, hp, -⟩ := h
  cases hp
  intro name hcreator hvia
  rw [lawful.field_render, get?_localContent hcreator hvia, Config.field, hvalue, Option.bind_some]

/-- A write to the tables as they are but for the event graph. -/
theorem puts_of_raw {dag : Dag.Tables} {eventId signed now : String} {event : MatrixEvent}
    (h : Store.applyStateEventRawInTx cfg eventId roomId sender eventType key signed ts now
      { db with dag := dag } = .ok (event, db'))
    (hsigned : cfg.SignedAs content signed) : Puts cfg db roomId eventType key content db' := by
  obtain ⟨-, hnew, hroom, -⟩ := Store.applyStateEventRawInTx_ok h
  obtain ⟨hwrite, hmember⟩ := applyStateEventRawInTx_write h
  exact ⟨dag, _, hwrite, rfl, rfl, rfl, hsigned, hnew, hroom, hmember⟩

/-- A write of a room operation. -/
theorem writeState_puts (lawful : cfg.Lawful) {stamp : Rooms.Stamp} {id : String}
    (h : Rooms.writeState cfg fed stamp roomId sender eventType key content db = .ok (id, db')) :
    Puts cfg db roomId eventType key content db' := by
  simp only [Rooms.writeState, F3.applyStateEvent, bind_ok, pure_ok] at h
  obtain ⟨_, _, ⟨prepared, mid, hprepared, h⟩, -, rfl⟩ := h
  cases prepared with
  | none =>
    simp only [bind_ok, pure_ok] at h
    obtain ⟨_, _, hraw, -, rfl⟩ := h
    obtain ⟨rfl, -⟩ := F3.prepareLocal_none hprepared
    exact puts_of_raw hraw fun _ _ _ => rfl
  | some prepared =>
    simp only [bind_ok, pure_ok] at h
    obtain ⟨_, _, hraw, -, rfl⟩ := h
    have hsigned := prepareLocal_signed lawful hprepared
    rcases F3.prepareLocal_ok hprepared with ⟨hnone, -⟩ | ⟨p, acc, mxid, value, stored,
      -, -, -, -, -,
      rfl⟩
    · cases hnone
    · exact puts_of_raw hraw hsigned

end Puts

/-! ### What a write does to what is read -/

namespace Db

variable (cfg : Config) (db : Db)

/-- A field of the event that holds a slot of the room's current state. -/
def stateField (roomId eventType key name : String) : Option Json :=
  (db.currentStateEvent roomId eventType key).bind fun event => cfg.field event.content name

theorem currentStateEvent_eq (roomId eventType key : String) :
    db.currentStateEvent roomId eventType key =
      (F3.slotHolder db roomId (eventType, key)).bind db.closedEvent := by
  unfold currentStateEvent F3.slotHolder
  rw [Option.bind_map]
  rfl

end Db

section Rows

variable {α κ : Type} [DecidableEq κ] (key : α → κ)

/-- Replacing the rows of a key: where there are some, the new row is found. -/
theorem find?_map_replace (rows : List α) (row : α) (k : κ) :
    (rows.map fun r => if key r = key row then row else r).find? (fun r => key r = k) =
      if key row = k ∧ ∃ r ∈ rows, key r = k then some row else rows.find? fun r => key r = k := by
  induction rows with
  | nil => simp
  | cons first rest ih =>
    rw [List.map_cons, List.find?_cons, List.find?_cons, ih]
    by_cases hrow : key row = k
    · by_cases hfirst : key first = k
      · simp [hrow, hfirst]
      · simp [hrow, hfirst]
    · by_cases hfirst : key first = key row
      · simp [hrow, hfirst]
      · simp [hrow, hfirst]

end Rows

namespace Db

variable (cfg : Config) (db : Db)

theorem roomMember_putMember (member : RoomMember) (roomId : String) (userId : Int) :
    (db.putMember member).roomMember roomId userId =
      if member.roomId = roomId ∧ member.userId = userId then some member
      else db.roomMember roomId userId := by
  have hkey (m : RoomMember) (r : String) (u : Int) :
      (m.roomId = r ∧ m.userId = u) ↔ (m.roomId, m.userId) = (r, u) := Prod.mk_inj.symm
  have hreplaced := find?_map_replace (fun m : RoomMember => (m.roomId, m.userId)) db.roomMembers
    member (roomId, userId)
  unfold putMember roomMember
  simp only [hkey]
  by_cases hany : (db.roomMembers.any fun m =>
      decide ((m.roomId, m.userId) = (member.roomId, member.userId))) = true
  · have hsome : (member.roomId, member.userId) = (roomId, userId) →
        ∃ r ∈ db.roomMembers, (r.roomId, r.userId) = (roomId, userId) := by
      intro hmember
      simpa [hmember] using List.any_eq_true.1 hany
    rw [if_pos hany, hreplaced]
    split_ifs with hfound hmember hmember
    · rfl
    · exact absurd hfound.1 hmember
    · exact absurd ⟨hmember, hsome hmember⟩ hfound
    · rfl
  · rw [if_neg hany, List.find?_append]
    by_cases hmember : (member.roomId, member.userId) = (roomId, userId)
    · rw [if_pos hmember, List.find?_eq_none.2]
      · rw [Option.none_or, List.find?_singleton, if_pos (decide_eq_true hmember)]
      · intro r hr hfound
        refine hany (List.any_eq_true.2 ⟨r, hr, ?_⟩)
        simpa [hmember] using hfound
    · rw [if_neg hmember, List.find?_singleton, if_neg (by simpa using hmember), Option.or_none]

theorem membershipOf_putMember (member : RoomMember) (roomId : String) (userId : Int) :
    (db.putMember member).membershipOf roomId userId =
      if member.roomId = roomId ∧ member.userId = userId then some member.membership
      else db.membershipOf roomId userId := by
  unfold membershipOf
  rw [roomMember_putMember]
  split_ifs <;> rfl

theorem members_putMember (member : RoomMember)
    (h : ∀ a ∈ db.roomMembers, ∀ b ∈ db.roomMembers, a.roomId = b.roomId →
      a.userId = b.userId → a = b) :
    ∀ a ∈ (db.putMember member).roomMembers, ∀ b ∈ (db.putMember member).roomMembers,
      a.roomId = b.roomId → a.userId = b.userId → a = b := by
  unfold putMember
  split_ifs with hany
  · -- a row is the new one, or an old one of another key
    have hrow : ∀ a ∈ db.roomMembers.map fun m =>
        if m.roomId = member.roomId ∧ m.userId = member.userId then member else m,
        a = member ∨ a ∈ db.roomMembers ∧ ¬ (a.roomId = member.roomId ∧
          a.userId = member.userId) := by
      intro a ha
      obtain ⟨m, hm, rfl⟩ := List.mem_map.1 ha
      split_ifs with hkey
      · exact .inl rfl
      · exact .inr ⟨hm, hkey⟩
    intro a ha b hb hroom huser
    rcases hrow a ha with rfl | ⟨ha, hna⟩ <;> rcases hrow b hb with rfl | ⟨hb, hnb⟩
    · rfl
    · exact absurd ⟨hroom.symm, huser.symm⟩ hnb
    · exact absurd ⟨hroom, huser⟩ hna
    · exact h a ha b hb hroom huser
  · have hfresh : ∀ m ∈ db.roomMembers,
      ¬ (m.roomId = member.roomId ∧ m.userId = member.userId) := by
      intro m hm hkey
      exact hany (List.any_eq_true.2 ⟨m, hm, decide_eq_true hkey⟩)
    intro a ha b hb hroom huser
    rcases List.mem_append.1 ha with ha | ha <;> rcases List.mem_append.1 hb with hb | hb
    · exact h a ha b hb hroom huser
    · rw [List.mem_singleton.1 hb] at hroom huser
      exact absurd ⟨hroom, huser⟩ (hfresh a ha)
    · rw [List.mem_singleton.1 ha] at hroom huser
      exact absurd ⟨hroom.symm, huser.symm⟩ (hfresh b hb)
    · rw [List.mem_singleton.1 ha, List.mem_singleton.1 hb]

theorem putMember_frame (member : RoomMember) :
    ∃ members, db.putMember member = { db with roomMembers := members } := by
  unfold putMember
  split_ifs <;> exact ⟨_, rfl⟩

theorem closedEvent_snoc (event : MatrixEvent) (eventId : String) :
    ({ db with events := db.events ++ [event] } : Db).closedEvent eventId =
      (db.closedEvent eventId).or (if event.eventId = eventId then some event else none) := by
  simp only [closedEvent, List.find?_append, List.find?_singleton, decide_eq_true_eq]

end Db

/-! ### Well-formed tables -/

/-- Users have one name each and one membership row for each room, and slots and membership
rows belong to stored rooms and events. -/
structure Db.Consistent (db : Db) : Prop where
  users : ∀ userId mxid, db.mxidOf userId = some mxid ↔ db.userIdOf mxid = some userId
  members : ∀ a ∈ db.roomMembers, ∀ b ∈ db.roomMembers, a.roomId = b.roomId →
    a.userId = b.userId → a = b
  stored : ∀ roomId key eventId, F3.slotHolder db roomId key = some eventId →
    db.closedEvent eventId ≠ none
  slotRooms : ∀ roomId key, F3.slotHolder db roomId key ≠ none → db.getRoom roomId ≠ none
  memberRooms : ∀ roomId userId, db.membershipOf roomId userId ≠ none → db.getRoom roomId ≠ none

theorem Db.Consistent.sameUser {db : Db} (consistent : db.Consistent) {a b : Int} {mxid : String}
    (ha : db.mxidOf a = some mxid) (hb : db.mxidOf b = some mxid) : a = b := by
  rw [consistent.users] at ha hb
  exact Option.some.inj (ha.symm.trans hb)

namespace Puts

variable {cfg : Config} {db db' : Db} {roomId eventType key content : String}

section

variable (h : Puts cfg db roomId eventType key content db')

include h

/-- Of a write, everything but the graph and the membership rows. -/
theorem frame : ∃ dag members w, db' = { Db.putSlot { db with
      streamCounter := db.streamCounter + 1
      events := db.events ++ [StateWrite.event w (db.streamCounter + 1)] }
        ⟨roomId, eventType, key, w.eventId⟩ with dag := dag, roomMembers := members } ∧
    w.roomId = roomId ∧ w.eventType = eventType ∧ w.stateKey = key ∧
    cfg.SignedAs content w.content ∧ db.closedEvent w.eventId = none := by
  obtain ⟨dag, w, rfl, rfl, rfl, rfl, hsigned, hnew, -⟩ := h
  unfold Db.write
  split
  · rename_i member _
    obtain ⟨members, hframe⟩ := Db.putMember_frame _ member
    exact ⟨dag, members, w, hframe, rfl, rfl, rfl, hsigned, hnew⟩
  · exact ⟨dag, _, w, rfl, rfl, rfl, rfl, hsigned, hnew⟩

theorem rooms : db'.rooms = db.rooms := by
  obtain ⟨_, _, _, rfl, -⟩ := h.frame
  rfl

theorem matrixUsers : db'.matrixUsers = db.matrixUsers := by
  obtain ⟨_, _, _, rfl, -⟩ := h.frame
  rfl

theorem getRoom (r : String) : db'.getRoom r = db.getRoom r := by
  unfold Db.getRoom
  rw [h.rooms]

theorem mxidOf (userId : Int) : db'.mxidOf userId = db.mxidOf userId := by
  unfold Db.mxidOf
  rw [h.matrixUsers]

theorem userIdOf (mxid : String) : db'.userIdOf mxid = db.userIdOf mxid := by
  unfold Db.userIdOf
  rw [h.matrixUsers]

theorem room_ne_none : db.getRoom roomId ≠ none := by
  obtain ⟨-, -, -, -, -, -, -, -, hroom, -⟩ := h
  exact hroom

/-- Only the membership of the user the event is about changes. -/
theorem membershipOf (r : String) (u : Int) : db'.membershipOf r u =
    if eventType = "m.room.member" ∧ roomId = r ∧ db.userIdOf key = some u then
      cfg.membership content
    else db.membershipOf r u := by
  obtain ⟨dag, w, rfl, rfl, rfl, rfl, hsigned, -, -, hmember⟩ := h
  have huser : (({ db with dag := dag } : Db).userIdOf w.stateKey) = db.userIdOf w.stateKey := rfl
  by_cases htype : w.eventType = "m.room.member"
  · obtain ⟨member, hsome⟩ := Option.isSome_iff_exists.1 (hmember htype)
    have hrow : w.member? cfg { db with dag := dag } = some member := hsome
    simp only [StateWrite.member?, htype, if_true, Option.bind_eq_some_iff, Option.map_eq_some_iff]
      at hsome
    obtain ⟨userId, hkey, membership, htext, rfl⟩ := hsome
    simp only [Db.write, hrow, Db.membershipOf_putMember, htype, hkey, Option.some.injEq, true_and,
      ← hsigned.membership, htext]
    rfl
  · have hnone : w.member? cfg { db with dag := dag } = none := by
      simp [StateWrite.member?, htype]
    simp only [Db.write, hnone, htype, false_and, if_false]
    rfl

/-- The event is the last one of the table. -/
theorem events : ∃ event : MatrixEvent, db'.events = db.events ++ [event] ∧
    event.streamId = db.streamCounter + 1 ∧ db'.streamCounter = db.streamCounter + 1 ∧
    event.roomId = roomId ∧ event.eventType = eventType ∧ event.stateKey = some key ∧
    cfg.SignedAs content event.content := by
  obtain ⟨_, _, w, rfl, rfl, rfl, rfl, hsigned, -⟩ := h.frame
  exact ⟨w.event (db.streamCounter + 1), rfl, rfl, rfl, rfl, rfl, rfl, hsigned⟩

/-- The slot of the event is the only one that changes hands. -/
theorem slotHolder : ∃ eventId, db.closedEvent eventId = none ∧
    (∃ event, db'.closedEvent eventId = some event ∧ cfg.SignedAs content event.content ∧
      event.streamId = db.streamCounter + 1) ∧
    (∀ id, id ≠ eventId → db'.closedEvent id = db.closedEvent id) ∧
    ∀ r k, F3.slotHolder db' r k =
      if roomId = r ∧ (eventType, key) = k then some eventId else F3.slotHolder db r k := by
  obtain ⟨_, _, w, hframe, rfl, rfl, rfl, hsigned, hnew⟩ := h.frame
  have hclosed (id : String) : db'.closedEvent id = (db.closedEvent id).or
      (if w.eventId = id then some (w.event (db.streamCounter + 1)) else none) := by
    rw [hframe]
    exact Db.closedEvent_snoc db _ id
  refine ⟨w.eventId, hnew, ⟨w.event (db.streamCounter + 1), ?_, hsigned, rfl⟩, ?_, fun r k => ?_⟩
  · rw [hclosed, hnew, if_pos rfl, Option.none_or]
  · intro id hid
    rw [hclosed, if_neg (Ne.symm hid), Option.or_none]
  · rw [hframe]
    exact F3.slotHolder_putSlot _ r k

end

/-- The current state after a write. -/
theorem stateField (h : Puts cfg db roomId eventType key content db') (consistent : db.Consistent)
    {name : String} (hcreator : name ≠ "creator")
    (hvia : name ≠ "join_authorised_via_users_server") (r t k : String) :
    db'.stateField cfg r t k name =
      if roomId = r ∧ eventType = t ∧ key = k then cfg.field content name
      else db.stateField cfg r t k name := by
  obtain ⟨eventId, hnew, ⟨event, hevent, hsigned, -⟩, hold, hslots⟩ := h.slotHolder
  simp only [Db.stateField, Db.currentStateEvent_eq, hslots, Prod.mk.injEq]
  split_ifs with hslot
  · rw [Option.bind_some, hevent, Option.bind_some, hsigned name hcreator hvia]
  · cases hholder : F3.slotHolder db r (t, k) with
    | none => rfl
    | some id =>
      have hid : id ≠ eventId := fun heq => consistent.stored _ _ _ hholder (heq ▸ hnew)
      rw [Option.bind_some, Option.bind_some, hold id hid]

theorem consistent (h : Puts cfg db roomId eventType key content db')
    (consistent : db.Consistent) : db'.Consistent where
  users userId mxid := by
    rw [h.mxidOf, h.userIdOf]
    exact consistent.users userId mxid
  members := by
    obtain ⟨dag, w, rfl, -⟩ := h
    unfold Db.write
    split
    · exact Db.members_putMember _ _ consistent.members
    · exact consistent.members
  stored r k id hholder := by
    obtain ⟨eventId, hnew, ⟨event, hevent, -⟩, hold, hslots⟩ := h.slotHolder
    rw [hslots] at hholder
    by_cases hid : id = eventId
    · rw [hid, hevent]
      exact Option.some_ne_none event
    · rw [hold id hid]
      split_ifs at hholder
      · exact absurd (Option.some.inj hholder).symm hid
      · exact consistent.stored r k id hholder
  slotRooms r k hholder := by
    obtain ⟨eventId, -, -, -, hslots⟩ := h.slotHolder
    rw [h.getRoom]
    rw [hslots] at hholder
    split_ifs at hholder with hslot
    · exact hslot.1 ▸ h.room_ne_none
    · exact consistent.slotRooms r k hholder
  memberRooms r u hmember := by
    rw [h.getRoom]
    rw [h.membershipOf] at hmember
    split_ifs at hmember with hrow
    · exact hrow.2.1 ▸ h.room_ne_none
    · exact consistent.memberRooms r u hmember

end Puts

end Server
