import Mail4Agent.Server.Power

/-!
# Room operations

What a user of this server asks of a room: invite, join, leave, kick, ban, unban, put
a state event, forget. Each operation reads the room, decides, and writes at most one
state event, all under the connection it holds, so it is one transaction here.

The display names of member events come from the identity database and are arguments.
-/

namespace Server

namespace Rooms

/-- The user an operation is done for. -/
structure Caller where
  userId : Int
  mxid : String
deriving DecidableEq, Repr

/-- The event id a write draws and the clocks it reads. -/
structure Stamp where
  eventId : String
  now : String
  originTs : Int
deriving DecidableEq, Repr

/-! ### Decisions -/

def withDisplayname (content : Json) (displayname : String) : Json :=
  if displayname = "" then content else Json.setField "displayname" (.str displayname) content

def joinMemberContent (displayname : String) : Json :=
  withDisplayname (.obj [("membership", .str "join")]) displayname

/-- An invitation to a direct room says so. -/
def inviteMemberContent (kind : RoomKind) (displayname : String) : Json :=
  let content := withDisplayname (.obj [("membership", .str "invite")]) displayname
  if kind = .dm then Json.setField "is_direct" (.bool true) content else content

def checkInvitable (target : Option Membership) : Except MatrixError Unit :=
  match target with
  | some .join | some .invite => .error (.invalidParam "user is already invited or joined")
  | some .ban => .error (.forbidden "user is banned from this room")
  | some .leave | none => .ok ()

inductive TargetStateRule where
  | mustBeActiveMember | any | mustBeBanned
deriving DecidableEq, Repr

def checkTargetStateRule (rule : TargetStateRule) (target : Option Membership) :
    Except MatrixError Unit :=
  match rule with
  | .mustBeActiveMember =>
    if target = some .join ∨ target = some .invite then .ok ()
    else .error (.notFound "user is not a member of this room")
  | .mustBeBanned =>
    if target = some .ban then .ok () else .error (.invalidParam "user is not banned")
  | .any => .ok ()

/-- The printable characters of an `order`. -/
def isOrderText (text : String) : Bool :=
  text.utf8ByteSize ≤ 50 && text.toList.all fun c => 0x20 ≤ c.toNat && c.toNat ≤ 0x7e

def isServerList : Json → Bool
  | .arr servers => !servers.isEmpty && servers.all fun v => v.asStr?.any fun s => s ≠ ""
  | _ => false

/-- The rules on the content of a space link. -/
def validateSpaceState (content : Json) : Except MatrixError Unit :=
  match content with
  | .obj [] => .ok ()
  | .obj fields =>
    if ¬ (fields.lookup "via").any isServerList then
      .error (.invalidParam "via must be a non-empty list of server names")
    else if ¬ (fields.lookup "order").all fun v => v.asStr?.any isOrderText then
      .error (.invalidParam "order must be a string of at most 50 printable ASCII characters")
    else if ¬ (fields.lookup "suggested").all fun v => v matches .bool _ then
      .error (.invalidParam "suggested must be a boolean")
    else .ok ()
  | _ => .error (.invalidParam "space link content must be an object")

def checkSpaceState (cfg : Config) (eventType content : String) : Except MatrixError Unit :=
  if eventType = "m.space.child" ∨ eventType = "m.space.parent" then
    match cfg.parse content with
    | some value => validateSpaceState value
    | none => .error (.badJson "Malformed JSON")
  else .ok ()

/-- `m.room.create` is never written this way, and of the member events only the
caller's own while it stays a join. -/
def checkStateEventTypeAllowed (cfg : Config) (eventType stateKey caller content : String) :
    Except MatrixError Unit := do
  if eventType = "m.room.create" then .error (.forbidden "m.room.create cannot be modified")
  checkSpaceState cfg eventType content
  if eventType = "m.room.member" ∧
      ¬ (stateKey = caller ∧ (cfg.membershipText content).join = some "join") then
    .error (.forbidden
      "m.room.member only changes via join/leave/invite/kick/ban, except your own profile update while still joined")

def checkEncryptionStateChange (eventType : String) (alreadyEncrypted : Bool) :
    Except MatrixError Unit :=
  if eventType = "m.room.encryption" ∧ alreadyEncrypted then
    .error (.forbidden "encryption cannot be changed once set")
  else .ok ()

/-- The change of the power levels a state event makes, checked against the old ones. -/
def checkPowerLevels (cfg : Config) (levels : Json) (eventType caller content : String) :
    Except MatrixError Unit :=
  if eventType = "m.room.power_levels" then
    match cfg.parse content with
    | some new => (Power.validatePowerLevelsChange levels new caller).mapError .forbidden
    | none => .error (.badJson "Malformed JSON")
  else .ok ()

def checkStateLevel (levels : Json) (eventType caller : String) : Except MatrixError Unit :=
  if Power.userLevel levels caller < Power.eventLevel levels eventType true then
    .error (.forbidden "insufficient power level to set this state event")
  else .ok ()

def contentMaxBytes : Nat := 16 * 1024

/-- The room's join rules let in whoever is joined to one of the spaces they name. -/
def restrictedAllows (cfg : Config) (db : Db) (roomId : String) (userId : Int) : Bool :=
  ((db.currentStateEvent roomId "m.room.join_rules" "").bind fun e => cfg.parse e.content).any
    fun rules =>
      let rule := (rules.get? "join_rule").bind Json.asStr?
      let allow := match rules.get? "allow" with
        | some (.arr entries) => entries
        | _ => []
      (rule = some "restricted" ∨ rule = some "knock_restricted") ∧
        allow.any fun entry =>
          (entry.get? "type").bind Json.asStr? = some "m.room_membership" ∧
            ((entry.get? "room_id").bind Json.asStr?).any fun space =>
              db.membershipOf space userId = some .join

/-- Who may join: nobody who is banned, and without an invitation only where the join
rules let them in. A joined user has nothing to do. -/
def checkJoin (cfg : Config) (db : Db) (room : Room) (userId : Int) : Except MatrixError Unit :=
  match db.membershipOf room.id userId with
  | some .ban => .error (.forbidden "banned from this room")
  | some .join | some .invite => .ok ()
  | some .leave | none =>
    if room.joinRule = .public ∨ restrictedAllows cfg db room.id userId then .ok ()
    else .error (.forbidden "no invitation to this room")

/-! ### Operations -/

variable (cfg : Config) (fed : Federation)

/-- Writes the state event an operation has decided on; the result is its id. -/
def writeState (stamp : Stamp) (roomId : String) (sender : Int) (eventType stateKey : String)
    (content : String) : Tx String := do
  let accepted ← F3.applyStateEvent cfg fed stamp.eventId roomId sender eventType stateKey content
    stamp.originTs stamp.now
  return (accepted.map Dag.Accepted.eventId).getD stamp.eventId

/-- The result of an operation is whom to tell. -/
def applyInvite (stamp : Stamp) (roomId : String) (caller : Caller) (target : Int)
    (displayname : String) : Tx (List Int) := do
  let db ← .query id
  let room ← .required (.notFound "no such room") (db.getRoom roomId)
  .lift (requireMember (db.membershipOf roomId caller.userId))
  let levels ← .lift (db.powerLevelsOf cfg roomId)
  .lift (requirePower levels caller.mxid .invite)
  .lift (checkInvitable (db.membershipOf roomId target))
  let mxid ← .required .internal (db.mxidOf target)
  let _ ← writeState cfg fed stamp roomId caller.userId "m.room.member" mxid
    (cfg.render (inviteMemberContent room.kind displayname))
  let ids ← .query fun db => db.memberAndInvitedIds roomId
  return target :: ids

/-- A kick, a ban or an unban. -/
structure MembershipPowerAction where
  action : PowerAction
  targetRule : TargetStateRule
  newMembership : Membership

def membershipContent (membership : Membership) (reason : Option String) : Json :=
  let content := .obj [("membership", .str membership.asStr)]
  match reason with
  | some reason => Json.setField "reason" (.str reason) content
  | none => content

def applyMembershipPowerAction (change : MembershipPowerAction) (stamp : Stamp) (roomId : String)
    (caller : Caller) (target : Int) (reason : Option String) : Tx (List Int) := do
  let db ← .query id
  .lift (requireMember (db.membershipOf roomId caller.userId))
  let levels ← .lift (db.powerLevelsOf cfg roomId)
  let mxid ← .required .internal (db.mxidOf target)
  .lift (requirePowerOverTarget levels caller.mxid mxid change.action
    (change.newMembership = .leave))
  .lift (checkTargetStateRule change.targetRule (db.membershipOf roomId target))
  let _ ← writeState cfg fed stamp roomId caller.userId "m.room.member" mxid
    (cfg.render (membershipContent change.newMembership reason))
  let ids ← .query fun db => db.memberAndInvitedIds roomId
  return target :: ids

def kick : MembershipPowerAction := ⟨.kick, .mustBeActiveMember, .leave⟩

def ban : MembershipPowerAction := ⟨.ban, .any, .ban⟩

def unban : MembershipPowerAction := ⟨.ban, .mustBeBanned, .leave⟩

def applyJoin (stamp : Stamp) (roomId : String) (caller : Caller) (displayname : String) :
    Tx (List Int) := do
  let _ ← writeState cfg fed stamp roomId caller.userId "m.room.member" caller.mxid
    (cfg.render (joinMemberContent displayname))
  .query fun db => db.memberAndInvitedIds roomId

inductive JoinDecision where
  | alreadyJoined
  | joined (wake : List Int)

def decideAndApplyJoin (stamp : Stamp) (roomId : String) (caller : Caller)
    (displayname : String) : Tx JoinDecision := do
  let db ← .query id
  let room ← .required (.notFound "no such room") (db.getRoom roomId)
  .lift (checkJoin cfg db room caller.userId)
  if db.membershipOf roomId caller.userId = some .join then return .alreadyJoined
  let wake ← applyJoin cfg fed stamp roomId caller displayname
  return .joined wake

/-- An invitation is declined the same way. -/
def applyLeave (stamp : Stamp) (roomId : String) (caller : Caller) : Tx (List Int) := do
  let db ← .query id
  let membership := db.membershipOf roomId caller.userId
  if membership ≠ some .join ∧ membership ≠ some .invite then
    .refuse (.forbidden "not a member or invitee of this room")
  let _ ← writeState cfg fed stamp roomId caller.userId "m.room.member" caller.mxid
    (cfg.render (membershipContent .leave none))
  return db.memberAndInvitedIds roomId

/-- The checks of a state event put by a user. -/
def checkPutState (db : Db) (roomId : String) (caller : Caller)
    (eventType stateKey content : String) : Except MatrixError Unit := do
  requireMember (db.membershipOf roomId caller.userId)
  checkStateEventTypeAllowed cfg eventType stateKey caller.mxid content
  checkEncryptionStateChange eventType (db.currentStateEvent roomId "m.room.encryption" "").isSome
  let levels ← db.powerLevelsOf cfg roomId
  checkStateLevel levels eventType caller.mxid
  checkPowerLevels cfg levels eventType caller.mxid content

def applyPutState (stamp : Stamp) (roomId : String) (caller : Caller)
    (eventType stateKey content : String) : Tx (String × List Int) := do
  if contentMaxBytes < content.utf8ByteSize then .refuse (.invalidParam "event content too large")
  let db ← .query id
  let _ ← .required (.notFound "no such room") (db.getRoom roomId)
  .lift (checkPutState cfg db roomId caller eventType stateKey content)
  let eventId ← writeState cfg fed stamp roomId caller.userId eventType stateKey content
  let notify ← .query fun db => db.memberAndInvitedIds roomId
  return (eventId, notify)

/-- Only a left room can be forgotten. -/
def applyForget (roomId : String) (userId : Int) : Tx Unit := do
  let db ← .query id
  if db.membershipOf roomId userId ≠ some .leave then
    .refuse (.forbidden "must have left the room before forgetting it")
  .change fun db => { db with roomMembers := db.roomMembers.filter fun m =>
    ¬ (m.roomId = roomId ∧ m.userId = userId ∧ m.membership = .leave) }

/-! ### When an operation is accepted -/

section Operations

open Transaction

variable {cfg : Config} {fed : Federation} {db : Db} {stamp : Stamp} {roomId key : String}
  {room : Room} {levels : Json} {target : Int} {caller : Caller}

@[simp] theorem checkTargetStateRule_ok {rule : TargetStateRule} {membership : Option Membership}
    {u : Unit} : checkTargetStateRule rule membership = .ok u ↔
      match rule with
      | .mustBeActiveMember => membership = some .join ∨ membership = some .invite
      | .mustBeBanned => membership = some .ban
      | .any => True := by
  cases rule <;> simp [checkTargetStateRule, or_iff_not_imp_left]

theorem checkPutState_ok {eventType content : String} :
    checkPutState cfg db roomId caller eventType key content = .ok () ↔
      db.membershipOf roomId caller.userId = some .join ∧
        checkStateEventTypeAllowed cfg eventType key caller.mxid content = .ok () ∧
        checkEncryptionStateChange eventType
          (db.currentStateEvent roomId "m.room.encryption" "").isSome = .ok () ∧
        ∃ levels, db.powerLevelsOf cfg roomId = .ok levels ∧
          checkStateLevel levels eventType caller.mxid = .ok () ∧
          checkPowerLevels cfg levels eventType caller.mxid content = .ok () := by
  simp [checkPutState, Unique.exists_iff]

/-- Setting one field leaves the others. -/
theorem get?_setField_of_ne {name other : String} {value content : Json} (h : other ≠ name) :
    (Json.setField name value content).get? other = content.get? other := by
  cases content with
  | obj fields =>
    simp only [Json.setField, Json.get?, List.lookup_cons, beq_eq_false_iff_ne.2 h]
    induction fields with
    | nil => rfl
    | cons entry rest ih =>
      obtain ⟨first, field⟩ := entry
      by_cases hname : first = name
      · have hfirst : (other == first) = false := beq_eq_false_iff_ne.2 (hname ▸ h)
        simpa [hname, List.lookup_cons, hname ▸ hfirst] using ih
      · simp [hname, List.lookup_cons, ← ih]
  | _ => simp [Json.setField, Json.get?, h]

theorem get?_withDisplayname {content : Json} {displayname : String} :
    (withDisplayname content displayname).get? "membership" = content.get? "membership" := by
  unfold withDisplayname
  split
  · rfl
  · rw [get?_setField_of_ne (by decide)]

theorem asStr?_membership {membership : Membership} {reason : Option String} :
    ((membershipContent membership reason).get? "membership").bind Json.asStr? =
      some membership.asStr := by
  cases reason with
  | none => rfl
  | some reason =>
    rw [membershipContent, get?_setField_of_ne (by decide)]
    rfl

theorem asStr?_joinMemberContent {displayname : String} :
    ((joinMemberContent displayname).get? "membership").bind Json.asStr? = some "join" := by
  rw [joinMemberContent, get?_withDisplayname]
  rfl

theorem asStr?_inviteMemberContent {kind : RoomKind} {displayname : String} :
    ((inviteMemberContent kind displayname).get? "membership").bind Json.asStr? =
      some "invite" := by
  unfold inviteMemberContent
  split
  · rw [get?_setField_of_ne (by decide), get?_withDisplayname]
    rfl
  · rw [get?_withDisplayname]
    rfl

end Operations

end Rooms

end Server
