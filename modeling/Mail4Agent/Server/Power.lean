import Mail4Agent.Server.F3

/-!
# Power levels

A room's power levels are one JSON document of its current state. The functions of
this file read levels and thresholds out of it, decide who may act on whom, and check
a change of the document itself against the level of the user who makes it.
-/

namespace Server

inductive PowerAction where
  | invite | kick | ban | redact | stateDefault
deriving DecidableEq, Repr

def PowerAction.fieldAndDefault : PowerAction → String × Int
  | invite => ("invite", 50)
  | kick => ("kick", 50)
  | ban => ("ban", 50)
  | redact => ("redact", 50)
  | stateDefault => ("state_default", 50)

namespace Power

/-- An integer field of the document. -/
def field? (levels : Json) (key : String) : Option Int := (levels.get? key).bind Json.asI64?

/-- An integer entry of one of the document's maps. -/
def levelEntry (levels : Json) (table key : String) : Option Int :=
  (levels.get? table).bind fun entries => field? entries key

def userLevel (levels : Json) (mxid : String) : Int :=
  (levelEntry levels "users" mxid).getD ((field? levels "users_default").getD 0)

def eventLevel (levels : Json) (eventType : String) (isState : Bool) : Int :=
  match levelEntry levels "events" eventType with
  | some level => level
  | none =>
    if isState then (field? levels "state_default").getD 50
    else (field? levels "events_default").getD 0

def can (levels : Json) (action : PowerAction) (mxid : String) : Bool :=
  (field? levels action.fieldAndDefault.1).getD action.fieldAndDefault.2 ≤ userLevel levels mxid

/-- Acting on another user takes a level above theirs. -/
def canActOn (levels : Json) (action : PowerAction) (sender target : String)
    (selfLeave : Bool) : Bool :=
  (selfLeave && sender = target) ||
    (can levels action sender && userLevel levels target < userLevel levels sender)

/-! ### Changing the document -/

def scalarKeys : List String :=
  ["ban", "kick", "redact", "invite", "state_default", "events_default", "users_default"]

def scalarDefault (key : String) : Int :=
  if key = "events_default" ∨ key = "users_default" then 0 else 50

def rejectIfEitherSideExceeds (old new : Option Int) (senderLevel : Int) : Except String Unit :=
  if old ≠ new ∧ (old.any (senderLevel < ·) ∨ new.any (senderLevel < ·)) then
    .error "cannot change a power-level field at or above your own level"
  else .ok ()

/-- The keys of one of the document's maps, on either side of a change, in order. -/
def keysOf (old new : Json) (table : String) : List String :=
  let keys (levels : Json) := (((levels.get? table).bind Json.asObject?).getD []).map Prod.fst
  (keys old ++ keys new).dedup.insertionSort (· ≤ ·)

def checkUserLevel (old new : Json) (sender target : String) : Except String Unit :=
  if userLevel old target = userLevel new target then .ok ()
  else if target ≠ sender ∧ userLevel old sender ≤ userLevel old target then
    .error "cannot change the level of a user at or above your own level"
  else if userLevel old sender < userLevel new target then
    .error "cannot set a user's level above your own"
  else .ok ()

def validatePowerLevelsChange (old new : Json) (sender : String) : Except String Unit := do
  let senderLevel := userLevel old sender
  scalarKeys.forM fun key =>
    rejectIfEitherSideExceeds (some ((field? old key).getD (scalarDefault key)))
      (some ((field? new key).getD (scalarDefault key))) senderLevel
  (keysOf old new "events").forM fun eventType =>
    rejectIfEitherSideExceeds (levelEntry old "events" eventType)
      (levelEntry new "events" eventType)
      senderLevel
  rejectIfEitherSideExceeds (levelEntry old "notifications" "room")
    (levelEntry new "notifications" "room")
    senderLevel
  (keysOf old new "users").forM (checkUserLevel old new sender)

end Power

/-! ### Checks shared by the room operations -/

namespace Db

variable (db : Db)

def membershipOf (roomId : String) (userId : Int) : Option Membership :=
  (db.roomMember roomId userId).map RoomMember.membership

/-- The joined and invited users, who are told of a change. -/
def memberAndInvitedIds (roomId : String) : List Int :=
  (db.roomMembersOf roomId (some .join) ++ db.roomMembersOf roomId (some .invite)).map
    RoomMember.userId

/-- The room's power levels, empty if it has none. -/
def powerLevelsOf (cfg : Config) (roomId : String) : Except MatrixError Json :=
  match db.currentStateEvent roomId "m.room.power_levels" "" with
  | some event =>
    match cfg.parse event.content with
    | some levels => .ok levels
    | none => .error (.badJson "Malformed JSON")
  | none => .ok (.obj [])

end Db

def requireMember (membership : Option Membership) : Except MatrixError Unit :=
  if membership = some .join then .ok () else .error (.forbidden "not a member of this room")

def requirePower (levels : Json) (mxid : String) (action : PowerAction) :
    Except MatrixError Unit :=
  if Power.can levels action mxid then .ok ()
  else .error (.forbidden "insufficient power level for this action")

def requirePowerOverTarget (levels : Json) (caller target : String) (action : PowerAction)
    (selfLeave : Bool) : Except MatrixError Unit :=
  if Power.canActOn levels action caller target selfLeave then .ok ()
  else .error (.forbidden "insufficient power level for this action")

section Checks

variable {levels : Json} {mxid target : String} {action : PowerAction} {selfLeave : Bool} {u : Unit}

@[simp] theorem requireMember_ok {membership : Option Membership} :
    requireMember membership = .ok u ↔ membership = some .join := by
  unfold requireMember
  split <;> simp_all

@[simp] theorem requirePower_ok :
    requirePower levels mxid action = .ok u ↔ Power.can levels action mxid := by
  unfold requirePower
  split <;> simp_all

@[simp] theorem requirePowerOverTarget_ok :
    requirePowerOverTarget levels mxid target action selfLeave = .ok u ↔
      Power.canActOn levels action mxid target selfLeave := by
  unfold requirePowerOverTarget
  split <;> simp_all

end Checks

end Server
