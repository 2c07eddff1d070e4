import Mail4Agent.Foundation.Canonical
import Mail4Agent.Foundation.Worklist

/-!
# The event graph of a room

Acceptance of one event over whatever store answers `DagRead`: the rules that need
no state, the rules against the state the event's own `auth_events` describe, the
rules against the state before it, resolved from its `prev_events`, and last the
rules against the current state, where a failure only soft-fails the event.

The authorization rules, state resolution, hashing and signing belong to the Matrix
libraries. They are the fields of `Rules`; what this development assumes about them
is stated field by field in `Rules.Lawful`.
-/

namespace Dag

/-- Event type and state key. -/
abbrev StateKey := String × String

/-- Room state: the event that fills each slot. An association list, in which the
first entry of a slot counts. -/
abbrev StateMap := List (StateKey × String)

namespace StateMap

def get? (state : StateMap) (key : StateKey) : Option String :=
  (state.find? fun entry => entry.1 = key).map Prod.snd

def insert (state : StateMap) (key : StateKey) (id : String) : StateMap :=
  (key, id) :: state.filter fun entry => entry.1 ≠ key

def ids (state : StateMap) : List String := state.map Prod.snd

theorem get?_insert (state : StateMap) (key other : StateKey) (id : String) :
    (state.insert key id).get? other = if key = other then some id else state.get? other := by
  unfold insert get?
  rw [List.find?_cons, List.find?_filter]
  by_cases h : key = other
  · simp [h]
  · simp only [h, decide_false, if_false]
    congr 2
    funext entry
    by_cases he : entry.1 = other
    · simp [he, Ne.symm h]
    · simp [he]

theorem mem_of_get? {state : StateMap} {key : StateKey} {id : String}
    (h : state.get? key = some id) : (key, id) ∈ state := by
  obtain ⟨⟨k, v⟩, hfind, rfl⟩ := Option.map_eq_some_iff.1 h
  have hk := List.find?_some hfind
  have hmem := List.mem_of_find?_eq_some hfind
  simp only [decide_eq_true_eq] at hk
  rwa [← hk]

theorem mem_ids_insert {state : StateMap} {key : StateKey} {id other : String}
    (h : other ∈ (state.insert key id).ids) : other = id ∨ other ∈ state.ids := by
  obtain ⟨entry, hmem, rfl⟩ := List.mem_map.1 h
  rcases List.mem_cons.1 hmem with rfl | hmem
  · exact .inl rfl
  · exact .inr (List.mem_map_of_mem (List.mem_filter.1 hmem).1)

end StateMap

/-- The public keys of the servers that sign events, by server and key id. -/
abbrev PublicKeyMap := List (String × List (String × Bytes))

/-- A server's signing key. -/
structure Signer where
  server : String
  keyId : String
  key : Bytes
deriving DecidableEq, Repr

inductive Verified where
  | all | signatures
deriving DecidableEq, Repr

structure Pdu where
  eventId : String
  roomId : String
  sender : String
  originServerTs : Nat
  kind : String
  content : Json
  stateKey : Option String
  prevEvents : List String
  authEvents : List String
  depth : Nat
deriving BEq, Repr

/-- What the Matrix libraries do for the event graph. -/
structure Rules where
  parseRoomId : String → Except String Unit
  parseUserId : String → Except String Unit
  parseEventId : String → Except String Unit
  referenceHash : Json → Except String String
  verifyEvent : PublicKeyMap → Json → Except String Verified
  redact : Json → Except String Json
  hashAndSignEvent : Signer → Json → Except String Json
  authTypesForEvent : String → String → Option String → Json → Except String (List StateKey)
  checkStateIndependentAuthRules : Pdu → (String → Option Pdu) → Except String Unit
  checkStateDependentAuthRules : Pdu → (StateKey → Option Pdu) → Except String Unit
  resolve : List StateMap → List (List String) → (String → Option Pdu) → Except String StateMap

/-- What is assumed about the libraries. -/
structure Rules.Lawful (rules : Rules) : Prop where
  /-- The rules that need no state refuse auth events of another room. They let a create event
  pass without a look at its auth events. -/
  independent_room : ∀ {pdu : Pdu} {fetch : String → Option Pdu},
    rules.checkStateIndependentAuthRules pdu fetch = .ok () → pdu.kind ≠ "m.room.create" →
    ∀ id ∈ pdu.authEvents, ∀ auth, fetch id = some auth → auth.roomId = pdu.roomId
  /-- Resolution picks events of the forks and of their auth chains. -/
  resolve_ids : ∀ {forks : List StateMap} {chains : List (List String)}
    {fetch : String → Option Pdu} {state : StateMap}, rules.resolve forks chains fetch = .ok state →
    ∀ id ∈ state.ids, (∃ fork ∈ forks, id ∈ fork.ids) ∨ ∃ chain ∈ chains, id ∈ chain
  /-- Resolution reads no other events. -/
  resolve_congr : ∀ {forks : List StateMap} {chains : List (List String)}
    {fetch fetch' : String → Option Pdu},
    (∀ fork ∈ forks, ∀ id ∈ fork.ids, fetch id = fetch' id) →
    (∀ chain ∈ chains, ∀ id ∈ chain, fetch id = fetch' id) →
    rules.resolve forks chains fetch = rules.resolve forks chains fetch'
  /-- Signing adds hashes and signatures and leaves the rest of the event alone. -/
  sign_get? : ∀ {signer : Signer} {obj signed : Json},
    rules.hashAndSignEvent signer obj = .ok signed →
    ∀ key, key ≠ "hashes" → key ≠ "signatures" → signed.get? key = obj.get? key
  /-- The event id is a hash over the redacted event, which keeps the room and the auth
  events. -/
  hash_get? : ∀ {json json' : Json} {hash : String},
    rules.referenceHash json = .ok hash → rules.referenceHash json' = .ok hash →
    ∀ key ∈ ["room_id", "auth_events"], json.get? key = json'.get? key

/-! ### Wire events -/

namespace Pdu

variable (rules : Rules)

def required {α : Type} (key : String) (value : Option α) : Except String α :=
  value.elim (.error key) .ok

def eventIds (v : Json) (key : String) : Except String (List String) :=
  match (v.get? key).bind Json.asArr? with
  | some items => items.mapM fun item => do
      let id ← required "event id" item.asStr?
      rules.parseEventId id
      return id
  | none => .ok []

/-- Reads a wire event; the caller computed its id. -/
def fromWire (eventId : String) (v : Json) : Except String Pdu := do
  let text (key : String) := (v.get? key).bind Json.asStr?
  let roomId ← required "room_id" (text "room_id")
  rules.parseRoomId roomId
  let sender ← required "sender" (text "sender")
  rules.parseUserId sender
  let originServerTs ← required "origin_server_ts" ((v.get? "origin_server_ts").bind Json.asU64?)
  let kind ← required "type" (text "type")
  let content ← required "content" (v.get? "content")
  let prevEvents ← eventIds rules v "prev_events"
  let authEvents ← eventIds rules v "auth_events"
  return { eventId, roomId, sender, originServerTs, kind, content, stateKey := text "state_key",
           prevEvents, authEvents, depth := ((v.get? "depth").bind Json.asU64?).getD 0 }

/-- The slot a state event fills. -/
def slot? (pdu : Pdu) : Option StateKey := pdu.stateKey.map fun key => (pdu.kind, key)

/-- The room state after the event. -/
def applyTo (pdu : Pdu) (before : StateMap) : StateMap :=
  match pdu.slot? with
  | some slot => before.insert slot pdu.eventId
  | none => before

end Pdu

/-! ### Stores -/

/-- What the event graph needs from storage: the stored events, the room state after
those that have one, and the room's forward extremities. -/
structure DagRead where
  events : List Pdu
  stateAfter : String → Option StateMap
  extremities : List String

namespace DagRead

variable (db : DagRead)

def pdu (id : String) : Option Pdu := db.events.find? fun pdu => pdu.eventId = id

/-- The store plus the event being accepted, which is not written yet. -/
def withNew (pdu : Pdu) : DagRead := { db with events := pdu :: db.events }

def authEventsOf (id : String) : List String := ((db.pdu id).map Pdu.authEvents).getD []

/-- The full recursive set of auth events of `ids`, these included. The source keeps
the ids to visit on a stack, with its top at the end. -/
def authChain (ids : List String) : List String :=
  Worklist.closure (db.events.map Pdu.eventId) (fun id => (db.authEventsOf id).reverse) []
    ids.reverse

/-- The event that fills a slot of `state`. -/
def bySlot (state : StateMap) (key : StateKey) : Option Pdu := (state.get? key).bind db.pdu

/-- The state that the events `ids` describe. -/
def stateOf (ids : List String) : List (StateKey × Pdu) :=
  ids.foldl (fun state id =>
    match db.pdu id with
    | some pdu => match pdu.slot? with
      | some slot => (slot, pdu) :: state
      | none => state
    | none => state) []

end DagRead

inductive Reject where
  | malformed (e : String)
  | duplicate
  | badContentHash
  | badSignature (e : String)
  | missingPrev (id : String)
  | missingAuth (id : String)
  | auth (e : String)
  | resolve (e : String)
deriving DecidableEq, Repr

def Reject.text : Reject → String
  | malformed e => "malformed event: " ++ e
  | duplicate => "event already stored"
  | badContentHash => "content hash does not match (content was altered or already redacted)"
  | badSignature e => "signature check failed: " ++ e
  | missingPrev id => "unknown prev_event " ++ id
  | missingAuth id => "unknown auth_event " ++ id
  | auth e => "auth rules refuse the event: " ++ e
  | resolve e => "state resolution failed: " ++ e

structure Accepted where
  eventId : String
  pdu : Pdu
  json : Json
  stateAfter : StateMap
  softFailed : Bool
  extremities : List String
  currentState : StateMap
  forked : Bool

structure Historic where
  eventId : String
  pdu : Pdu
  json : Json
  stateAfter : StateMap

structure SignedEvent where
  eventId : String
  json : Json

section Accept

variable (rules : Rules) (db : DagRead)

/-- The state of one event of `ids`; `extra` is an event that is not stored yet. -/
def forkOf (extra : Option (String × StateMap)) (id : String) : Except Reject StateMap :=
  match extra.filter fun entry => entry.1 = id with
  | some entry => .ok entry.2
  | none => (db.stateAfter id).elim (.error (.missingPrev id)) .ok

def resolveStateWith (forks : List StateMap) : Except String StateMap :=
  rules.resolve forks (forks.map fun fork => db.authChain fork.ids) db.pdu

/-- Resolved room state over the states of `ids`. -/
def resolveOver (ids : List String) (extra : Option (String × StateMap)) :
    Except Reject StateMap := do
  match ← ids.mapM (forkOf db extra) with
  | [] => return []
  | [fork] => return fork
  | forks => (resolveStateWith rules db forks).mapError .resolve

/-- The room's current state: the forward extremities' states, resolved. -/
def currentState : Except Reject StateMap := resolveOver rules db db.extremities none

def computeEventId (json : Json) : Except Reject String := do
  let hash ← (rules.referenceHash json).mapError .malformed
  let id := "$" ++ hash
  (rules.parseEventId id).mapError .malformed
  return id

def skeleton (json : Json) : Except Reject Json := (rules.redact json).mapError .malformed

/-- The event is already in its redacted form. -/
def isSkeleton (json : Json) : Bool :=
  match skeleton rules json with
  | .ok s => s == json
  | .error _ => false

/-- A skeleton is accepted although its content hash cannot match any more. -/
def verifyWire (json : Json) (keys : PublicKeyMap) : Except Reject Unit :=
  match rules.verifyEvent keys json with
  | .ok .all => .ok ()
  | .ok .signatures => if isSkeleton rules json then .ok () else .error .badContentHash
  | .error e => .error (.badSignature e)

/-- The rules that need no room state: shape and auth events, and the state the
event's own auth events describe. -/
def checkAuthEvents (pdu : Pdu) : Except Reject Unit := do
  if let some id := pdu.authEvents.find? fun id => (db.pdu id).isNone then
    .error (.missingAuth id)
  (rules.checkStateIndependentAuthRules pdu (db.withNew pdu).pdu).mapError .auth
  let authState := db.stateOf pdu.authEvents
  (rules.checkStateDependentAuthRules pdu fun key => authState.lookup key).mapError .auth

/-- The checks an event of the past and a live event share: the event may follow the
state before it. Returns the state after it. -/
def checkAgainstPast (pdu : Pdu) (stateBefore : Option StateMap) : Except Reject StateMap := do
  checkAuthEvents rules db pdu
  let before ← match stateBefore with
    | some state => Except.ok state
    | none => resolveOver rules db pdu.prevEvents none
  (rules.checkStateDependentAuthRules pdu (db.bySlot before)).mapError .auth
  return pdu.applyTo before

/-- The forward extremities after a live event. -/
def nextExtremities (extremities : List String) (pdu : Pdu) : List String :=
  ((extremities.filter fun e => e ∉ pdu.prevEvents) ++ [pdu.eventId]).insertionSort (· ≤ ·)

/-- Accepts one event, already hashed, signed and id-checked by the caller. -/
def accept (eventId : String) (json : Json) (stateBefore : Option StateMap) :
    Except Reject Accepted := do
  if (db.pdu eventId).isSome then .error .duplicate
  let pdu ← (Pdu.fromWire rules eventId json).mapError .malformed
  let stateAfter ← checkAgainstPast rules db pdu stateBefore
  -- Against the current state: failing here only soft-fails.
  let current ← currentState rules db
  let allowed := rules.checkStateDependentAuthRules pdu (db.bySlot current)
  if db.extremities ≠ [] ∧ allowed.toOption.isNone then
    return { eventId, pdu, json, stateAfter, softFailed := true,
             extremities := db.extremities, currentState := current, forked := false }
  let extremities := nextExtremities db.extremities pdu
  let resolved ← resolveOver rules (db.withNew pdu) extremities (some (eventId, stateAfter))
  return { eventId, pdu, json, stateAfter, softFailed := false, extremities,
           currentState := resolved, forked := 1 < extremities.length }

/-- An event of the past: never checked against the current state, and the forward
extremities stay as they are. -/
def acceptHistoric (eventId : String) (json : Json) : Except Reject Historic := do
  let pdu ← (Pdu.fromWire rules eventId json).mapError .malformed
  let stateAfter ← checkAgainstPast rules db pdu none
  return { eventId, pdu, json, stateAfter }

/-- The events of a received chain by id; of two with one id the later one counts. -/
def chainStore (events : List Json) (keys : PublicKeyMap) : Except Reject DagRead := do
  let pdus ← events.foldlM (fun pdus json => do
    verifyWire rules json keys
    let id ← computeEventId rules json
    let pdu ← (Pdu.fromWire rules id json).mapError .malformed
    return pdu :: pdus.filter fun other => other.eventId ≠ id) []
  return { events := pdus, stateAfter := fun _ => none, extremities := [] }

/-- Re-verifies an auth chain received from a peer: signatures, ids, that every auth
event is in the set, and the rules against what the auth events describe. Returns
the ids in verified order. -/
def verifyAuthChain (events : List Json) (keys : PublicKeyMap) : Except Reject (List String) := do
  let db ← chainStore rules events keys
  let order := db.events.insertionSort fun a b =>
    a.depth < b.depth ∨ (a.depth = b.depth ∧ a.eventId ≤ b.eventId)
  order.forM (checkAuthEvents rules db)
  return order.map Pdu.eventId

/-- A peer's event. -/
def acceptWire (json : Json) (keys : PublicKeyMap) (stateBefore : Option StateMap) :
    Except Reject Accepted := do
  verifyWire rules json keys
  let id ← computeEventId rules json
  accept rules db id json stateBefore

/-- The depth of a new event on top of the forward extremities. -/
def nextDepth : Nat :=
  ((db.extremities.filterMap db.pdu).map Pdu.depth).foldl max 0 + 1

/-- The fields of a template. -/
def templateFields (roomId : String) (ts : Nat) (sender kind : String)
    (stateKey : Option String) (content : Json) (auth : List String) : List (String × Json) :=
  [("room_id", .str roomId), ("sender", .str sender), ("type", .str kind), ("content", content),
    ("origin_server_ts", .int ts), ("prev_events", .arr (db.extremities.map .str)),
    ("auth_events", .arr (auth.map .str)), ("depth", .int (nextDepth db))] ++
  stateKey.toList.map fun key => ("state_key", .str key)

/-- An unsigned event for `sender` on top of this room's graph. The text of the JSON
reader's error is not modelled. -/
def template (roomId : String) (ts : Nat) (sender kind : String) (stateKey : Option String)
    (content : Json) : Except Reject Json := do
  (rules.parseUserId sender).mapError .malformed
  let current ← currentState rules db
  let slots ← (rules.authTypesForEvent kind sender stateKey content).mapError .auth
  let auth := slots.filterMap current.get?
  match (Json.obj (templateFields db roomId ts sender kind stateKey content auth)).canonicalObject?
    with
  | some obj => return obj
  | none => .error (.malformed "not canonical JSON")

def signTemplate (signer : Signer) (obj : Json) : Except Reject SignedEvent := do
  let json ← (rules.hashAndSignEvent signer obj).mapError .malformed
  let eventId ← computeEventId rules json
  return { eventId, json }

/-- An event this server creates: template, sign, accept. -/
def localEvent (signer : Signer) (roomId : String) (ts : Nat) (sender kind : String)
    (stateKey : Option String) (content : Json) : Except Reject Accepted := do
  let obj ← template rules db roomId ts sender kind stateKey content
  let signed ← signTemplate rules signer obj
  accept rules db signed.eventId signed.json none

end Accept

end Dag
