import Mail4Agent.Foundation.Page
import Mail4Agent.Server.Db

/-!
# Queries of the store

Each function of this file is the program of statements the store runs for it. A
function that needs one statement is one `Program.query`; one that needs several,
such as reading a room's timeline out of the closed and the public table, runs
them one after another, so other connections may commit in between.

The meaning of a single statement is a function on `Db`, and `ORDER BY … LIMIT` is
`Page.select`.
-/

namespace Server

namespace Db

variable (db : Db)

def mxidOf (userId : Int) : Option String :=
  (db.matrixUsers.find? fun user => user.userId = userId).map MatrixUser.mxid

def userIdOf (mxid : String) : Option Int :=
  (db.matrixUsers.find? fun user => user.mxid = mxid).map MatrixUser.userId

def getRoom (roomId : String) : Option Room := db.rooms.find? fun room => room.id = roomId

/-- A plaintext public channel, whose timeline lives in the public table. -/
def isPublicRoom (roomId : String) : Bool :=
  db.rooms.any fun room => room.id = roomId ∧ room.kind = .channel ∧ room.isEncrypted = false

def closedEvent (eventId : String) : Option MatrixEvent :=
  db.events.find? fun event => event.eventId = eventId

def publicEvent (eventId : String) : Option MatrixEvent :=
  db.pubEvents.find? fun event => event.eventId = eventId

def currentStateEvent (roomId eventType stateKey : String) : Option MatrixEvent :=
  (db.currentState.find? fun slot =>
    slot.roomId = roomId ∧ slot.eventType = eventType ∧ slot.stateKey = stateKey).bind
    fun slot => db.closedEvent slot.eventId

def roomMember (roomId : String) (userId : Int) : Option RoomMember :=
  db.roomMembers.find? fun member => member.roomId = roomId ∧ member.userId = userId

def roomMembersOf (roomId : String) (membership : Option Membership) : List RoomMember :=
  db.roomMembers.filter fun member =>
    member.roomId = roomId ∧ ∀ m ∈ membership, member.membership = m

end Db

namespace Store

/-! ### One statement each -/

def mxidOf (userId : Int) : Prog (Option String) := .query fun db => db.mxidOf userId

def isPublicRoom (roomId : String) : Prog Bool := .query fun db => db.isPublicRoom roomId

def currentStateEvent (roomId eventType stateKey : String) : Prog (Option MatrixEvent) :=
  .query fun db => db.currentStateEvent roomId eventType stateKey

/-! ### Events -/

/-- The oldest-first page strictly after `since`. -/
def eventsInRoomAfter (roomId : String) (since : Int) (limit : Nat) :
    Prog (List MatrixEvent) := do
  let out ← .query fun db => Page.select MatrixEvent.streamId limit
    (db.events.filter fun event => event.roomId = roomId ∧ since < event.streamId)
  if ← isPublicRoom roomId then
    let posts ← .query fun db => Page.select MatrixEvent.streamId limit
      (db.pubEvents.filter fun event => event.roomId = roomId ∧ since < event.streamId)
    return Page.select MatrixEvent.streamId limit (out ++ posts)
  else return out

/-- Newest first: the key of a descending query. -/
def newestFirst (event : MatrixEvent) : Intᵒᵈ := OrderDual.toDual event.streamId

/-- The newest-first page strictly before `before`. -/
def eventsInRoomBefore (roomId : String) (before : Int) (limit : Nat) :
    Prog (List MatrixEvent) := do
  let out ← .query fun db => Page.select newestFirst limit
    (db.events.filter fun event => event.roomId = roomId ∧ event.streamId < before)
  if ← isPublicRoom roomId then
    let posts ← .query fun db => Page.select newestFirst limit
      (db.pubEvents.filter fun event => event.roomId = roomId ∧ event.streamId < before)
    return Page.select newestFirst limit (out ++ posts)
  else return out

end Store

inductive HistoryWindow where
  | nothing
  | all
  | upTo (bound : Int)
deriving DecidableEq, Repr

namespace HistoryWindow

def contains (window : HistoryWindow) (streamId : Int) : Bool :=
  match window with
  | nothing => false
  | all => true
  | upTo bound => streamId ≤ bound

theorem contains_mono {window : HistoryWindow} {a b : Int} (hle : a ≤ b)
    (h : window.contains b = true) : window.contains a = true := by
  cases window with
  | nothing => exact h
  | all => rfl
  | upTo bound =>
    simp only [contains, decide_eq_true_eq] at h ⊢
    omega

end HistoryWindow

namespace Store

/-- How much of the room's timeline the caller may read. -/
def visibleUpperBound (cfg : Config) (room : Room) (callerUserId : Int) :
    Prog HistoryWindow := do
  if room.historyVisibility = .worldReadable then return .all
  let some mxid ← mxidOf callerUserId | return .nothing
  let some memberEvent ← currentStateEvent room.id "m.room.member" mxid | return .nothing
  match cfg.membershipText memberEvent.content with
  | none => .fail (.badJson "Malformed event content")
  | some membership =>
    if membership = some "join" then return .all
    else if membership = some "leave" ∨ membership = some "ban" then
      return .upTo memberEvent.streamId
    else return .nothing

end Store

end Server
