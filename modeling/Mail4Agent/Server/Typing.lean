import Mail4Agent.Foundation.Data

/-!
# The typing registry

Who is typing is kept in memory only. Each room that somebody has typed in has an
entry with a serial taken from one counter shared by all rooms. It is the process
memory of a request handler; reading history leaves it alone.
-/

namespace Server

/-- A reading of the monotonic clock, in nanoseconds. -/
abbrev Instant := Nat

structure TypingUserState where
  expiresAt : Instant
  isActive : Bool
  lastTrueAcceptedAt : Option Instant

structure RoomTyping where
  users : BTreeMap Int TypingUserState := ∅
  serial : Nat := 0

/-- The rooms with an entry, and the last serial handed out. -/
structure TypingRegistry where
  rooms : String → Option RoomTyping
  nextGen : Nat

end Server
