import Mail4Agent.Dag.Tables
import Mail4Agent.Foundation.Program
import Mail4Agent.Server.Typing

/-!
# The server's database

The tables the modelled handlers read and write, one list of rows each. Enumerated columns hold the
enumeration, timestamps and JSON documents the text the row stores. Every stream-ordered table takes
its positions from one counter, kept beside the tables.

A request handler is a `Prog`: a program of statements on this database, with the
typing registry as its process memory.
-/

namespace Server

/-! ### Errors -/

structure MatrixError where
  status : Nat
  errcode : String
  error : String
deriving DecidableEq, Repr

namespace MatrixError

def forbidden (msg : String) : MatrixError :=
  { status := 403, errcode := "M_FORBIDDEN", error := msg }

def notFound (msg : String) : MatrixError :=
  { status := 404, errcode := "M_NOT_FOUND", error := msg }

def badJson (msg : String) : MatrixError :=
  { status := 400, errcode := "M_BAD_JSON", error := msg }

def invalidParam (msg : String) : MatrixError :=
  { status := 400, errcode := "M_INVALID_PARAM", error := msg }

def unknown (msg : String) : MatrixError :=
  { status := 500, errcode := "M_UNKNOWN", error := msg }

def internal : MatrixError := unknown "Internal error"

end MatrixError

/-! ### Enumerated columns -/

inductive RoomKind where
  | dm | group | channel
deriving DecidableEq, Repr

def RoomKind.fromWireName (s : String) : Option RoomKind :=
  if s = "dm" then some dm
  else if s = "group" then some group
  else if s = "channel" then some channel
  else none

inductive JoinRule where
  | invite | «public»
deriving DecidableEq, Repr

def JoinRule.asStr : JoinRule → String
  | invite => "invite"
  | «public» => "public"

def JoinRule.fromWireName (s : String) : Option JoinRule :=
  if s = "invite" then some invite
  else if s = "public" then some «public»
  else none

inductive HistoryVisibility where
  | shared | worldReadable | invited | joined
deriving DecidableEq, Repr

def HistoryVisibility.asStr : HistoryVisibility → String
  | shared => "shared"
  | worldReadable => "world_readable"
  | invited => "invited"
  | joined => "joined"

def HistoryVisibility.fromWireName (s : String) : Option HistoryVisibility :=
  if s = "shared" then some shared
  else if s = "world_readable" then some worldReadable
  else if s = "invited" then some invited
  else if s = "joined" then some joined
  else none

inductive Membership where
  | join | invite | leave | ban
deriving DecidableEq, Repr

namespace Membership

def asStr : Membership → String
  | join => "join"
  | invite => "invite"
  | leave => "leave"
  | ban => "ban"

def fromWireName (s : String) : Option Membership :=
  if s = "join" then some join
  else if s = "invite" then some invite
  else if s = "leave" then some leave
  else if s = "ban" then some ban
  else none

@[simp] theorem fromWireName_asStr (m : Membership) : fromWireName m.asStr = some m := by
  cases m <;> rfl

end Membership

/-! ### Rows -/

structure MatrixUser where
  userId : Int
  mxid : String
deriving DecidableEq, Repr

structure Room where
  id : String
  kind : RoomKind
  creatorUserId : Int
  isEncrypted : Bool
  joinRule : JoinRule
  historyVisibility : HistoryVisibility
  dmPairKey : Option String := none
deriving DecidableEq, Repr

/-- A timeline event has no state key, a state event has one. -/
structure MatrixEvent where
  streamId : Int
  eventId : String
  roomId : String
  senderUserId : Int
  eventType : String
  stateKey : Option String
  content : String
  originServerTs : Int
  txnId : Option String := none
  redacts : Option String := none
  redactedBy : Option String := none
deriving DecidableEq, Repr

/-- The event that holds one slot of a room's current state. -/
structure StateSlot where
  roomId : String
  eventType : String
  stateKey : String
  eventId : String
deriving DecidableEq, Repr

structure RoomMember where
  roomId : String
  userId : Int
  membership : Membership
  updatedAt : String
deriving DecidableEq, Repr

structure Relation where
  eventId : String
  roomId : String
  relType : String
  targetId : String
  aggKey : Option String
deriving DecidableEq, Repr

structure DeviceListChange where
  streamId : Int
  userId : Int
deriving DecidableEq, Repr

structure OneTimeKey where
  userId : Int
  deviceId : String
  keyId : String
  algorithm : String
  keyJson : String
deriving DecidableEq, Repr

structure FallbackKey where
  userId : Int
  deviceId : String
  algorithm : String
  keyId : String
  keyJson : String
  used : Bool
deriving DecidableEq, Repr

structure DeviceKeys where
  userId : Int
  deviceId : String
  algorithms : String
  keys : String
  signatures : String
deriving DecidableEq, Repr

inductive CrossSigningUsage where
  | master | selfSigning | userSigning
deriving DecidableEq, Repr

structure CrossSigningKey where
  userId : Int
  usage : CrossSigningUsage
  keyJson : String
deriving DecidableEq, Repr

structure Device where
  userId : Int
  deviceId : String
deriving DecidableEq, Repr

structure Db where
  streamCounter : Int := 0
  matrixUsers : List MatrixUser := []
  rooms : List Room := []
  events : List MatrixEvent := []
  currentState : List StateSlot := []
  roomMembers : List RoomMember := []
  relations : List Relation := []
  pubEvents : List MatrixEvent := []
  deviceListChanges : List DeviceListChange := []
  oneTimeKeys : List OneTimeKey := []
  fallbackKeys : List FallbackKey := []
  deviceKeys : List DeviceKeys := []
  crossSigningKeys : List CrossSigningKey := []
  devices : List Device := []
  dag : Dag.Tables := {}

/-! ### What the server is configured with -/

/-- The parts of the process a handler depends on besides the database: the JSON reader and printer
and the wall clock. -/
structure Config where
  parse : String → Option Json
  render : Json → String
  nowMs : Int

/-- What is written can be read back, but for the digits of a number with a fraction. -/
structure Config.Lawful (cfg : Config) : Prop where
  parse_render : ∀ v, (cfg.parse (cfg.render v)).map Json.canonical = some v.canonical

namespace Config

variable (cfg : Config)

/-- The `membership` text of a stored member event, if its content can be read. -/
def membershipText (content : String) : Option (Option String) :=
  (cfg.parse content).map fun value => (value.get? "membership").bind Json.asStr?

end Config

/-- The work of a request handler. -/
abbrev Prog (α : Type) := Program Db TypingRegistry MatrixError α

end Server
