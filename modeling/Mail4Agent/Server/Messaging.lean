import Mail4Agent.Server.Store
import Mail4Agent.Server.Token

/-!
# Reading a room's history

A page of a room's timeline, walked in either direction from a token, as far as its caller
may see the room.
-/

namespace Server

/-- The gate of `types` and `not_types`. -/
def passesTypeFilter (value : String) (types notTypes : Option (List String)) : Bool :=
  (∀ list ∈ types, value ∈ list) ∧ ∀ list ∈ notTypes, value ∉ list

structure EventFilter where
  types : Option (List String) := none
  notTypes : Option (List String) := none
  lazyLoadMembers : Bool := false

namespace Messaging

def messagesDefaultLimit : Int := 10

def messagesMaxLimit : Int := 100

def clampLimit (requested : Option Int) : Nat :=
  (max 1 (min (requested.getD messagesDefaultLimit) messagesMaxLimit)).toNat

/-- Tokens stand for the texts that `formatStreamToken` makes of them. -/
structure MessagesPage where
  chunk : List MatrixEvent
  start : StreamToken
  «end» : Option StreamToken

/-- The position on an event. -/
def onEvent (event : MatrixEvent) : StreamToken :=
  { streamId := event.streamId, afterEvent := false }

/-- The event lies outside what the caller sees, or at or beyond the far end asked for. -/
def hardTruncated (window : HistoryWindow) (toStream : Option Int) (dir : Direction)
    (event : MatrixEvent) : Bool :=
  ¬ window.contains event.streamId ∨
    toStream.any fun bound => match dir with
      | .backward => event.streamId ≤ bound
      | .forward => bound ≤ event.streamId

def paginateMessages (roomId : String) (window : HistoryWindow) (fromStream : Int)
    (toStream : Option Int) (dir : Direction) (limit : Nat) (filter : EventFilter) :
    Prog MessagesPage := do
  let rawPage ← match dir with
    | .backward => Store.eventsInRoomBefore roomId fromStream limit
    | .forward => Store.eventsInRoomAfter roomId fromStream limit
  let chunk := rawPage.filter fun event => ¬ hardTruncated window toStream dir event ∧
    passesTypeFilter event.eventType filter.types filter.notTypes
  let «end» :=
    if rawPage.length < limit ∨ rawPage.any (hardTruncated window toStream dir) then none
    else rawPage.getLast?.map onEvent
  return { chunk, start := { streamId := fromStream, afterEvent := false }, «end» }

end Messaging

end Server
