import Mail4Agent.Dag.Core

/-!
# The tables of the event graph

The `dag_*` tables and the functions that write them. Events are looked up by id
alone; only the forward extremities are kept by room. A state group is a snapshot of
the room state, and `eventState` names the group of the state after an event.

`conn` is the graph of one room as the acceptance code sees it.
-/

namespace Dag

structure EventRow where
  eventId : String
  roomId : String
  depth : Int
  eventType : String
  sender : String
  stateKey : Option String
  originServerTs : Int
  pdu : Json
  outlier : Bool := false
  softFailed : Bool := false
  skeleton : Bool := false

structure Tables where
  rooms : List String := []
  events : List EventRow := []
  /-- Event and predecessor. -/
  edges : List (String × String) := []
  auth : List (String × String) := []
  /-- Room and event. -/
  extremities : List (String × String) := []
  stateGroups : List StateMap := []
  eventState : List (String × Nat) := []

namespace Tables

variable (t : Tables)

def isF3Room (roomId : String) : Bool := roomId ∈ t.rooms

def markRoom (roomId : String) : Tables := { t with rooms := t.rooms.insert roomId }

def row? (id : String) : Option EventRow := t.events.find? fun row => row.eventId = id

def groupOf (id : String) : Option Nat :=
  (t.eventState.find? fun entry => entry.1 = id).map Prod.snd

def stateAfter (id : String) : Option StateMap :=
  (t.groupOf id).map fun group => t.stateGroups[group]?.getD []

def extremityIds (roomId : String) : List String :=
  ((t.extremities.filter fun entry => entry.1 = roomId).map Prod.snd).insertionSort (· ≤ ·)

/-- The stored events that can be read back. -/
def pdus (rules : Rules) : List Pdu :=
  t.events.filterMap fun row => (Pdu.fromWire rules row.eventId row.pdu).toOption

/-- The graph of one room as the acceptance code sees it. -/
def conn (rules : Rules) (roomId : String) : DagRead where
  events := t.pdus rules
  stateAfter := t.stateAfter
  extremities := t.extremityIds roomId

/-- An event that is there and is not a bare outlier. -/
def isKnown (id : String) : Bool :=
  match t.row? id with
  | some row => row.outlier = false ∨ (t.groupOf id).isSome
  | none => false

/-! ### Writing -/

def eventRow (roomId : String) (pdu : Pdu) (json : Json) (outlier softFailed skeleton : Bool) :
    EventRow where
  eventId := pdu.eventId
  roomId := roomId
  depth := pdu.depth
  eventType := pdu.kind
  sender := pdu.sender
  stateKey := pdu.stateKey
  originServerTs := pdu.originServerTs
  pdu := json
  outlier := outlier
  softFailed := softFailed
  skeleton := skeleton

def addRow (row : EventRow) : Tables := { t with events := row :: t.events }

/-- The edges of an event; those that are there already are left alone. -/
def addEdges (pdu : Pdu) : Tables :=
  { t with
    edges := (pdu.prevEvents.map fun p => (pdu.eventId, p)) ∪ t.edges
    auth := (pdu.authEvents.map fun a => (pdu.eventId, a)) ∪ t.auth }

/-- Opens a state group, which becomes the last one. -/
def newGroup (state : StateMap) : Tables := { t with stateGroups := t.stateGroups ++ [state] }

def setEventState (id : String) (group : Nat) : Tables :=
  { t with eventState := (id, group) :: t.eventState.filter fun entry => entry.1 ≠ id }

def setExtremities (roomId : String) (ids : List String) : Tables :=
  { t with extremities := ids.map (fun id => (roomId, id)) ++
      t.extremities.filter fun entry => entry.1 ≠ roomId }

/-- A message with one predecessor shares the predecessor's state group. -/
def sharedGroup (pdu : Pdu) : Option Nat :=
  match pdu.stateKey, pdu.prevEvents with
  | none, [prev] => t.groupOf prev
  | _, _ => none

/-- The state group of an event with the state `state` after it. -/
def addState (pdu : Pdu) (state : StateMap) : Tables :=
  match t.sharedGroup pdu with
  | some group => t.setEventState pdu.eventId group
  | none => (t.newGroup state).setEventState pdu.eventId t.stateGroups.length

/-- The tables with an event, its edges and its state. -/
def withEvent (row : EventRow) (pdu : Pdu) (state : StateMap) : Tables :=
  ((t.addRow row).addEdges pdu).addState pdu state

/-- Writes one accepted event. `none`: a row with its id is there already, or an
extremity is listed twice. -/
def storeAccepted (roomId : String) (acc : Accepted) : Option Tables :=
  if (t.row? acc.pdu.eventId).isSome ∨ ¬ acc.extremities.Nodup then none
  else
    let row := eventRow roomId acc.pdu acc.json false acc.softFailed false
    let stored := t.withEvent row acc.pdu acc.stateAfter
    some (if acc.softFailed then stored else stored.setExtremities roomId acc.extremities)

/-- The event was already in its redacted form when it arrived. -/
def markSkeleton (id : String) : Tables :=
  { t with events := t.events.map fun row =>
      if row.eventId = id then { row with skeleton := true } else row }

/-- Writes an event of the past. The row stays as it is if the event is there as an
outlier. -/
def storeHistoric (rules : Rules) (roomId : String) (h : Historic) : Tables :=
  let row := eventRow roomId h.pdu h.json true false (isSkeleton rules h.json)
  let stored := if (t.row? h.pdu.eventId).isSome then t else t.addRow row
  ((stored.addEdges h.pdu).newGroup h.stateAfter).setEventState h.pdu.eventId t.stateGroups.length

/-- Writes an event of a snapshot, unless it is there already. -/
def storeOutlier (roomId : String) (pdu : Pdu) (json : Json) : Tables :=
  if (t.row? pdu.eventId).isSome then t
  else (t.addRow (eventRow roomId pdu json true false false)).addEdges pdu

end Tables

end Dag
