import Mail4Agent.Server.F3Linked
import Mail4Agent.Server.F3Serve
import Mail4Agent.Server.Rooms

/-!
# What peers may read

The requests by which another server reads events. Access is granted for the room that the
request names, and for a room with an event graph by a text pattern over the state keys of
its member events. The events themselves are then looked up by id alone. `Confined` says that
everything in an answer is an event of a room the peer has a user in, or of a public room, and
`confined_iff` says for each request when this is so, in a graph whose edges and states stay
in their rooms.
-/

namespace Server

open Dag (EventRow StateMap Tables)

/-! ### Signed events -/

/-- Domains of remote users that have any membership row in the room. -/
def Db.remoteDomains (db : Db) (roomId : String) : List String :=
  ((db.roomMembers.filter fun m => m.roomId = roomId ∧ m.userId < 0).filterMap fun m =>
    (db.mxidOf m.userId).bind Federation.domainOf).dedup.insertionSort (· ≤ ·)

/-- The closed table first, then the public one. -/
def getEvent (db : Db) (eventId : String) : Option MatrixEvent :=
  (db.closedEvent eventId).or (db.publicEvent eventId)

/-- The page of `Store.eventsInRoomBefore`, with nobody else writing. -/
def Db.eventsInRoomBefore (db : Db) (roomId : String) (before : Int) (limit : Nat) :
    List MatrixEvent :=
  ((Store.eventsInRoomBefore roomId before limit).run .writer
    { store := db, memory := ⟨fun _ => none, 0⟩ }).1.toOption.getD []

/-- The server's name, and the hashing and signing of its own events. -/
structure Signing where
  name : String
  finalize : Json → Except String Json

/-- The signed form of events, by id. -/
abbrev FedPdus := List (String × Json)

section Pdus

variable (cfg : Config) (fed : Federation) (own : Signing) (db : Db)

def eventFields (event : MatrixEvent) (sender : String) (content : Json) : Json :=
  .obj ([("event_id", .str event.eventId), ("room_id", .str event.roomId), ("sender", .str sender),
    ("type", .str event.eventType)] ++
    event.stateKey.toList.map (fun key => ("state_key", .str key)) ++
    [("content", content), ("origin_server_ts", .int event.originServerTs),
      ("origin", .str own.name), ("depth", .int event.streamId)] ++
    event.redacts.toList.map fun id => ("redacts", .str id))

/-- The signed form of an event: the one that is stored, or for an event of a local user a
new one. -/
def pduForEvent (pdus : FedPdus) (event : MatrixEvent) : Except String Json :=
  match pdus.lookup event.eventId with
  | some pdu => .ok pdu
  | none => do
    let sender ← (db.mxidOf event.senderUserId).elim (.error "sender") .ok
    if fed.isRemoteMxid sender then .error "event of a remote sender has no stored pdu"
    let content ← (cfg.parse event.content).elim (.error "content") .ok
    own.finalize (eventFields own event sender content)

/-- A new signed form is kept, so that it is served unchanged later. -/
def rememberPdu (pdus : FedPdus) (event : MatrixEvent) (pdu : Json) : FedPdus :=
  if (pdus.lookup event.eventId).isSome then pdus else pdus ++ [(event.eventId, pdu)]

/-- The events that have a signed form, with it; the others are passed over. -/
def pdusOf : FedPdus → List MatrixEvent → List (MatrixEvent × Json) × FedPdus
  | pdus, [] => ([], pdus)
  | pdus, event :: rest =>
    match pduForEvent cfg fed own db pdus event with
    | .ok pdu =>
      let (more, pdus) := pdusOf (rememberPdu pdus event pdu) rest
      ((event, pdu) :: more, pdus)
    | .error _ => pdusOf pdus rest

theorem mem_pdusOf {cfg : Config} {fed : Federation} {own : Signing} {db : Db} {pdus : FedPdus}
    {events : List MatrixEvent} :
    ∀ entry ∈ (pdusOf cfg fed own db pdus events).1, entry.1 ∈ events := by
  fun_induction pdusOf cfg fed own db pdus events with
  | case1 => simp
  | case2 pdus event rest pdu hpdu more pdus' hrest ih =>
    refine List.forall_mem_cons.2 ⟨List.mem_cons_self, fun entry hentry => ?_⟩
    rw [hrest] at ih
    exact List.mem_cons_of_mem _ (ih entry hentry)
  | case3 pdus event rest e hpdu ih =>
    exact fun entry hentry => List.mem_cons_of_mem _ (ih entry hentry)

end Pdus

/-! ### The requests -/

namespace PeerReads

def originInRoom (db : Db) (roomId origin : String) : Bool :=
  db.dag.events.any (F3.isMemberRow roomId origin)

def unrecognized (msg : String) : MatrixError :=
  { status := 404, errcode := "M_UNRECOGNIZED", error := msg }

/-- The history of a room with an event graph is read by servers that have a member in it. -/
def dagRoomAccess (db : Db) (origin roomId : String) : Except MatrixError Unit :=
  if ¬ db.dag.isF3Room roomId then .error (unrecognized "only hash-id rooms offer this")
  else if ¬ originInRoom db roomId origin then
    .error (.forbidden "server has no member in this room")
  else .ok ()

def authOf (t : Tables) (id : String) : List String :=
  (t.auth.filter fun edge => edge.1 = id).map Prod.snd

/-- The events of the auth chain of what stands on the stack `todo`, as far as they are
stored and not in `seen`. -/
def authChainOf (t : Tables) (seen todo : List String) : List EventRow :=
  match todo with
  | [] => []
  | id :: todo =>
    let new := ((authOf t id).filter (· ∉ seen)).dedup
    new.filterMap t.row? ++ authChainOf t (new ++ seen) (new.reverse ++ todo)
termination_by (Worklist.unseen (t.auth.map Prod.snd) seen, todo.length)
decreasing_by
  by_cases hnew : ((authOf t id).filter (· ∉ seen)).dedup = []
  · rw [hnew]
    exact Prod.Lex.right _ (by simp)
  · refine Prod.Lex.left _ _ (Worklist.unseen_append_lt hnew fun x hx => ?_)
    simp only [List.mem_dedup, List.mem_filter, authOf, List.mem_map, decide_eq_true_eq] at hx
    obtain ⟨⟨edge, ⟨hedge, -⟩, rfl⟩, hseen⟩ := hx
    exact ⟨List.mem_map_of_mem hedge, hseen⟩

/-- An event of an answer, with the room of the row it was read from. -/
structure Served where
  eventId : String
  roomId : Option String
  body : Option Json

namespace Served

def ofRow (row : EventRow) : Served := ⟨row.eventId, some row.roomId, some row.pdu⟩

def ofEvent (entry : MatrixEvent × Json) : Served :=
  ⟨entry.1.eventId, some entry.1.roomId, some entry.2⟩

/-- An id that is listed without its event. -/
def ofId (t : Tables) (id : String) : Served := ⟨id, t.roomOf id, none⟩

end Served

section Requests

variable (cfg : Config) (fed : Federation) (own : Signing) (pdus : FedPdus) (db : Db)
  (origin : String)

def eventRoom (eventId : String) : Option String :=
  (db.dag.roomOf eventId).or ((getEvent db eventId).map MatrixEvent.roomId)

/-- A user of the server has any membership row in the room, or the room is public. -/
def serverInRoom (roomId : String) : Bool :=
  origin ∈ db.remoteDomains roomId ∨ (db.getRoom roomId).any fun room => room.joinRule = .public

def eventPdu (eventId : String) : Except MatrixError Json :=
  match db.dag.row? eventId, getEvent db eventId with
  | some row, _ => .ok row.pdu
  | none, none => .error (.notFound "unknown event")
  | none, some event => (pduForEvent cfg fed own db pdus event).mapError fun _ => .internal

def event (eventId : String) : Except MatrixError (List Served) :=
  match eventRoom db eventId with
  | none => .error (.notFound "unknown event")
  | some room => do
    if ¬ serverInRoom db origin room then .error (.forbidden "your server is not in that room")
    let pdu ← eventPdu cfg fed own pdus db eventId
    return [⟨eventId, some room, some pdu⟩]

/-- The room of the path is not looked at again. -/
def eventAuthJson (eventId : String) : Except MatrixError (List Served) :=
  if (db.dag.row? eventId).isNone then .error (.notFound "unknown event")
  else .ok ((authChainOf db.dag [eventId] [eventId]).map Served.ofRow)

/-- The id of an event of the chain, computed anew. -/
def ofChain (row : EventRow) : Option Served :=
  (row.pdu.canonicalObject?.bind fun obj => (Dag.computeEventId fed.rules obj).toOption).map
    fun id => ⟨id, some row.roomId, none⟩

/-- The state right after an event, and its auth chain. -/
def stateAtJson (eventId : String) (idsOnly : Bool) : Except MatrixError (List Served) := do
  (fed.rules.parseEventId eventId).mapError fun _ => .badJson "event id"
  match db.dag.stateAfter eventId with
  | none => .error (.notFound "unknown event")
  | some after =>
    let chain := authChainOf db.dag after.ids after.ids.reverse
    if idsOnly then return after.ids.map (Served.ofId db.dag) ++ chain.filterMap (ofChain fed)
    else return (after.ids.filterMap db.dag.row? ++ chain).map Served.ofRow

def rowsOf (ids : List String) : List Served := (ids.filterMap db.dag.row?).map Served.ofRow

def backfillBefore : Option String → Except MatrixError Int
  | none => .ok F3.maxI64
  | some id => (getEvent db id).elim (.error (.notFound "unknown event")) fun e => .ok e.streamId

def backfillLimit (limit : Option Int) : Nat := (max 1 (min (limit.getD 50) 100)).toNat

def backfill (roomId : String) (v : Option String) (limit : Option Int) :
    Except MatrixError (List Served) :=
  if db.dag.isF3Room roomId then
    if ¬ originInRoom db roomId origin then .error (.forbidden "server has no member in this room")
    else .ok (rowsOf db (F3.backfillIds db roomId origin v.toList (backfillLimit limit)))
  else if origin ∉ db.remoteDomains roomId then
    .error (.forbidden "server has no member in this room")
  else do
    let before ← backfillBefore db v
    let page := db.eventsInRoomBefore roomId before (backfillLimit limit)
    return (pdusOf cfg fed own db pdus page).1.map Served.ofEvent

def missingEvents (roomId : String) (earliest latest : List String) (limit : Nat) :
    Except MatrixError (List Served) :=
  if ¬ db.dag.isF3Room roomId then .error (.notFound "unknown room")
  else if ¬ originInRoom db roomId origin then
    .error (.forbidden "server has no member in this room")
  else .ok (rowsOf db (F3.missingEventIds db roomId origin earliest latest limit))

inductive ReadRequest where
  | event (eventId : String)
  | eventAuth (roomId eventId : String)
  | state (roomId : String) (eventId : Option String) (idsOnly : Bool)
  | backfill (roomId : String) (v : Option String) (limit : Option Int)
  | missingEvents (roomId : String) (earliest latest : List String) (limit : Nat)

/-- The events in the answer to a peer. -/
def answer : ReadRequest → Except MatrixError (List Served)
  | .event eventId => event cfg fed own pdus db origin eventId
  | .eventAuth roomId eventId => do
    dagRoomAccess db origin roomId
    eventAuthJson db eventId
  | .state roomId eventId idsOnly => do
    dagRoomAccess db origin roomId
    match eventId with
    | none => .error (.invalidParam "event_id required")
    | some eventId => stateAtJson fed db eventId idsOnly
  | .backfill roomId v limit => backfill cfg fed own pdus db origin roomId v limit
  | .missingEvents roomId earliest latest limit =>
    missingEvents db origin roomId earliest latest limit

end Requests

/-! ### Confinement -/

/-- A member event of a user whose server is exactly this one. -/
def IsMemberKey (origin roomId : String) (room eventType : String) (stateKey : Option String) :
    Prop :=
  room = roomId ∧ eventType = "m.room.member" ∧ stateKey.bind Federation.domainOf = some origin

/-- The server has a user with a membership event in the room. Of an event of the closed table
that has been replaced the row of the membership is left. -/
def HasMembership (db : Db) (origin roomId : String) : Prop :=
  origin ∈ db.remoteDomains roomId ∨
  (∃ row ∈ db.dag.events, IsMemberKey origin roomId row.roomId row.eventType row.stateKey) ∨
  ∃ event ∈ db.events, IsMemberKey origin roomId event.roomId event.eventType event.stateKey

def MayRead (db : Db) (origin roomId : String) : Prop :=
  HasMembership db origin roomId ∨ (db.getRoom roomId).any fun room => room.joinRule = .public

instance (origin roomId room eventType : String) (stateKey : Option String) :
    Decidable (IsMemberKey origin roomId room eventType stateKey) := by
  unfold IsMemberKey
  infer_instance

instance (db : Db) (origin roomId : String) : Decidable (MayRead db origin roomId) := by
  unfold MayRead HasMembership
  infer_instance

variable {t : Tables} {a : String} {seen todo : List String}

theorem mem_authOf {x : String} : a ∈ authOf t x ↔ (x, a) ∈ t.auth := by
  simp [authOf]

/-- What holds at the start and is handed on to auth events holds for the whole chain. -/
theorem authChainOf_invariant (inv : String → Prop)
    (preserved : ∀ x a, (x, a) ∈ t.auth → inv x → inv a) (htodo : ∀ x ∈ todo, inv x) :
    ∀ row ∈ authChainOf t seen todo, inv row.eventId ∧ t.row? row.eventId = some row := by
  fun_induction authChainOf t seen todo with
  | case1 => simp
  | case2 seen id todo new ih =>
    obtain ⟨hid, htodo⟩ := List.forall_mem_cons.1 htodo
    have hnew : ∀ a ∈ new, inv a := by
      intro a ha
      have hauth := (List.mem_filter.1 (List.mem_dedup.1 ha)).1
      exact preserved id a (mem_authOf.1 hauth) hid
    intro row hrow
    rcases List.mem_append.1 hrow with hrow | hrow
    · obtain ⟨a, ha, hfind⟩ := List.mem_filterMap.1 hrow
      rw [(Tables.row?_eq_some hfind).2]
      exact ⟨hnew a ha, hfind⟩
    · refine ih (fun x hx => ?_) row hrow
      rcases List.mem_append.1 hx with hx | hx
      · exact hnew x (List.mem_reverse.1 hx)
      · exact htodo x hx

/-- The stored auth events of the event on top are in the chain. -/
theorem mem_authChainOf {id : String} {row : EventRow} (hauth : (id, a) ∈ t.auth) (hseen : a ∉ seen)
    (hrow : t.row? a = some row) :
    row ∈ authChainOf t seen (id :: todo) := by
  rw [authChainOf]
  refine List.mem_append_left _ (List.mem_filterMap.2 ⟨a, ?_, hrow⟩)
  exact List.mem_dedup.2 (List.mem_filter.2 ⟨mem_authOf.2 hauth, by simpa using hseen⟩)

theorem mem_eventsInRoomBefore {db : Db} {roomId : String} {before : Int} {limit : Nat} :
    ∀ event ∈ db.eventsInRoomBefore roomId before limit,
      event.roomId = roomId ∧ event.streamId < before := by
  intro event hevent
  have hpage {events : List MatrixEvent} (h : event ∈ Page.select Store.newestFirst limit
      (events.filter fun event => event.roomId = roomId ∧ event.streamId < before)) :
      event.roomId = roomId ∧ event.streamId < before := by
    simpa using (List.mem_filter.1 (Page.mem_of_mem_select h)).2
  cases hpublic : db.isPublicRoom roomId <;>
    simp only [Db.eventsInRoomBefore, Store.eventsInRoomBefore, Store.isPublicRoom, Program.query,
      Bind.bind, Program.bind, Program.run, Program.Machine.advance, Pure.pure, hpublic,
      List.headD_nil, List.tail_nil, id_eq, if_true, Bool.false_eq_true, if_false, Except.toOption,
      Option.getD_some] at hevent
  · exact hpage hevent
  · rcases List.mem_append.1 (Page.mem_of_mem_select hevent) with h | h
    · exact hpage h
    · exact hpage h

section Confined

variable {cfg : Config} {fed : Federation} {own : Signing} {pdus : FedPdus} {db : Db}
  {origin : String}

/-- The events in an answer belong to rooms the peer may read. -/
def AllReadable (db : Db) (origin : String) (served : List Served) : Prop :=
  ∀ entry ∈ served, ∃ room, entry.roomId = some room ∧ MayRead db origin room

/-- Whatever is answered to the peer, it may read. -/
def Confined (cfg : Config) (fed : Federation) (own : Signing) (pdus : FedPdus) (db : Db)
    (origin : String) (request : ReadRequest) : Prop :=
  ∀ served, answer cfg fed own pdus db origin request = .ok served → AllReadable db origin served

/-- What lets the peer in under the path of a room: an event graph, and a member event whose state
key looks like one of the peer's users. -/
def LetIn (db : Db) (origin roomId : String) : Prop :=
  db.dag.isF3Room roomId = true ∧ ∃ row ∈ db.dag.events, F3.isMemberRow roomId origin row

/-- The room of the event that a request names, or the room of the path where no event is named
or events are looked up by their room, may be read by the peer. -/
def Entitled (fed : Federation) (db : Db) (origin : String) : ReadRequest → Prop
  | .event _ => True
  | .eventAuth roomId eventId => LetIn db origin roomId →
    (∃ a ∈ authOf db.dag eventId, a ≠ eventId) →
      ∀ room, db.dag.roomOf eventId = some room → MayRead db origin room
  | .state roomId eventId _ => LetIn db origin roomId → ∀ «at» ∈ eventId,
      fed.rules.parseEventId «at» = .ok () → ∀ state, db.dag.stateAfter «at» = some state →
      state ≠ [] → ∀ room, db.dag.roomOf «at» = some room → MayRead db origin room
  | .backfill roomId v _ => LetIn db origin roomId →
      (∃ x ∈ v, F3.Servable db roomId origin x) → MayRead db origin roomId
  | .missingEvents roomId earliest latest _ => LetIn db origin roomId →
      (∃ x ∈ latest.flatMap (F3.prevOf db.dag), x ∉ earliest ∧ F3.Servable db roomId origin x) →
      MayRead db origin roomId

/-- A graph whose stored edges and states stay in their rooms. -/
structure Separate (t : Tables) : Prop where
  ids : (t.events.map EventRow.eventId).Nodup
  stored : ∀ x, (t.groupOf x).isSome → t.row? x ≠ none
  auth : ∀ x a, (x, a) ∈ t.auth → ∃ room, t.roomOf x = some room ∧ t.roomOf a = some room
  states : Dag.StatesInRoom t

variable {eventId roomId : String} {t : Tables}

theorem allReadable_event {served : List Served}
    (h : event cfg fed own pdus db origin eventId = .ok served) : AllReadable db origin served := by
  unfold event at h
  cases hroom : eventRoom db eventId with
  | none => simp [hroom] at h
  | some room =>
    by_cases hin : serverInRoom db origin room
    · simp only [hroom, hin, not_true_eq_false, if_false, Except.bind_eq_ok, Except.pure_eq_ok] at h
      obtain ⟨_, pdu, -, rfl⟩ := h
      refine List.forall_mem_singleton.2 ⟨room, rfl, ?_⟩
      simp only [serverInRoom, Bool.decide_or, Bool.or_eq_true, decide_eq_true_eq] at hin
      exact hin.imp .inl id
    · simp [hroom, hin] at h

theorem row?_of_depthIn {x : String} {depth : Int} (hids : (t.events.map EventRow.eventId).Nodup)
    (h : F3.depthIn t roomId x = some depth) :
    ∃ row, t.row? x = some row ∧ row.roomId = roomId := by
  obtain ⟨row, hfind, -⟩ := Option.map_eq_some_iff.1 h
  have hrow := List.find?_some hfind
  simp only [decide_eq_true_eq] at hrow
  exact ⟨row, hrow.1 ▸ F3.row?_of_mem hids (List.mem_of_find?_eq_some hfind), hrow.2⟩

/-- An answer about one room is readable exactly if it is empty or the room may be read. -/
theorem allReadable_iff_of_room {served : List Served}
    (h : ∀ entry ∈ served, entry.roomId = some roomId) :
    AllReadable db origin served ↔ (served ≠ [] → MayRead db origin roomId) := by
  constructor
  · intro hall hne
    obtain ⟨entry, hentry⟩ := List.exists_mem_of_ne_nil served hne
    obtain ⟨room, hroom, hread⟩ := hall entry hentry
    exact Option.some.inj (hroom.symm.trans (h entry hentry)) ▸ hread
  · intro hread entry hentry
    exact ⟨roomId, h entry hentry, hread (List.ne_nil_of_mem hentry)⟩

theorem allReadable_rowsOf_iff {ids : List String}
    (hkey : (db.dag.events.map EventRow.eventId).Nodup)
    (hids : ∀ x ∈ ids, F3.Servable db roomId origin x) :
    AllReadable db origin (rowsOf db ids) ↔ (ids ≠ [] → MayRead db origin roomId) := by
  have hrow : ∀ x ∈ ids, ∃ row, db.dag.row? x = some row ∧ row.roomId = roomId := by
    intro x hx
    obtain ⟨depth, hdepth, -⟩ := hids x hx
    exact row?_of_depthIn hkey hdepth
  rw [allReadable_iff_of_room]
  · refine imp_congr_left (not_congr ⟨fun h => ?_, fun h => by simp [h, rowsOf]⟩)
    rw [rowsOf, List.map_eq_nil_iff, List.filterMap_eq_nil_iff] at h
    refine List.eq_nil_iff_forall_not_mem.2 fun x hx => ?_
    obtain ⟨row, hfind, -⟩ := hrow x hx
    exact Option.some_ne_none row (hfind.symm.trans (h x hx))
  · intro entry hentry
    obtain ⟨row, hmem, rfl⟩ := List.mem_map.1 hentry
    obtain ⟨x, hx, hfind⟩ := List.mem_filterMap.1 hmem
    obtain ⟨row', hfind', hroom⟩ := hrow x hx
    cases hfind.symm.trans hfind'
    exact congrArg some hroom

/-- Only an event that cites another one has an auth chain. -/
theorem exists_auth_of_mem_authChainOf {id : String} {row : EventRow}
    (h : row ∈ authChainOf t [id] [id]) : ∃ a ∈ authOf t id, a ≠ id := by
  by_contra hnone
  push Not at hnone
  have hnew : (authOf t id).filter (· ∉ [id]) = [] :=
    List.filter_eq_nil_iff.2 fun a ha => by simp [hnone a ha]
  rw [authChainOf, hnew] at h
  simp [authChainOf] at h

theorem dagRoomAccess_ok {u : Unit} :
    dagRoomAccess db origin roomId = .ok u ↔ LetIn db origin roomId := by
  unfold dagRoomAccess LetIn originInRoom
  split_ifs <;> simp_all

section

variable (hsep : Separate db.dag)

include hsep

/-- The auth chain of events of a room lies in the room. -/
theorem authChainOf_room {seen ids : List String}
    (hids : ∀ id ∈ ids, db.dag.roomOf id = some roomId) :
    ∀ row ∈ authChainOf db.dag seen ids, row.roomId = roomId := by
  intro row hrow
  obtain ⟨hin, hfind⟩ := authChainOf_invariant (fun x => db.dag.roomOf x = some roomId)
    (fun x a hauth hx => by
      obtain ⟨room, hx', ha⟩ := hsep.auth x a hauth
      rw [ha, ← hx', hx]) hids row hrow
  rw [Tables.roomOf, hfind] at hin
  exact Option.some.inj hin

theorem confined_eventAuth_iff :
    Confined cfg fed own pdus db origin (.eventAuth roomId eventId) ↔
      Entitled fed db origin (.eventAuth roomId eventId) := by
  have hanswer (served : List Served) :
      answer cfg fed own pdus db origin (.eventAuth roomId eventId) = .ok served ↔
        LetIn db origin roomId ∧ db.dag.row? eventId ≠ none ∧
          (authChainOf db.dag [eventId] [eventId]).map Served.ofRow = served := by
    simp only [answer, Except.bind_eq_ok, eventAuthJson, dagRoomAccess_ok, exists_const]
    refine and_congr_right fun _ => ?_
    split_ifs with h <;> simp_all
  cases hrow : db.dag.row? eventId with
  | none => simp [Confined, hanswer, Entitled, hrow, Tables.roomOf]
  | some row =>
    have hroom : db.dag.roomOf eventId = some row.roomId := by simp [Tables.roomOf, hrow]
    have hchain : ∀ cited ∈ authChainOf db.dag [eventId] [eventId], cited.roomId = row.roomId :=
      authChainOf_room hsep (List.forall_mem_singleton.2 hroom)
    have hnonempty : (authChainOf db.dag [eventId] [eventId]).map Served.ofRow ≠ [] ↔
        ∃ a ∈ authOf db.dag eventId, a ≠ eventId := by
      rw [ne_eq, List.map_eq_nil_iff, ← ne_eq]
      constructor
      · intro hne
        obtain ⟨row, hmem⟩ := List.exists_mem_of_ne_nil _ hne
        exact exists_auth_of_mem_authChainOf hmem
      · rintro ⟨a, ha, hne⟩
        obtain ⟨room, -, ha'⟩ := hsep.auth eventId a (mem_authOf.1 ha)
        obtain ⟨cited, hcited, -⟩ := Option.map_eq_some_iff.1 ha'
        exact List.ne_nil_of_mem
          (mem_authChainOf (mem_authOf.1 ha) (by simpa using hne) hcited)
    have hread : AllReadable db origin ((authChainOf db.dag [eventId] [eventId]).map Served.ofRow) ↔
        ((∃ a ∈ authOf db.dag eventId, a ≠ eventId) → MayRead db origin row.roomId) := by
      rw [← hnonempty]
      refine allReadable_iff_of_room fun entry hentry => ?_
      obtain ⟨cited, hcited, rfl⟩ := List.mem_map.1 hentry
      exact congrArg some (hchain cited hcited)
    simp [Confined, hanswer, hrow, Entitled, hread, hroom]

/-- The state after an event and its auth chain are of the room of the event. -/
theorem stateAtJson_room {idsOnly : Bool} {state : StateMap} {served : List Served}
    (hroom : db.dag.roomOf eventId = some roomId) (hstate : db.dag.stateAfter eventId = some state)
    (h : stateAtJson fed db eventId idsOnly = .ok served) :
    (∀ entry ∈ served, entry.roomId = some roomId) ∧ (served = [] ↔ state = []) := by
  have hids : ∀ id ∈ state.ids, db.dag.roomOf id = some roomId :=
    hsep.states eventId roomId state hroom hstate
  have hchain : ∀ row ∈ authChainOf db.dag state.ids state.ids.reverse, row.roomId = roomId :=
    authChainOf_room hsep fun id hid => hids id (List.mem_reverse.1 hid)
  have hempty : authChainOf db.dag [] [] = [] := by rw [authChainOf]
  simp only [stateAtJson, Except.bind_eq_ok, hstate] at h
  obtain ⟨_, -, h⟩ := h
  cases idsOnly with
  | true =>
    simp only [if_true, Except.pure_eq_ok] at h
    subst h
    refine ⟨fun entry hentry => ?_, fun hnil => ?_, fun hnil => ?_⟩
    · rcases List.mem_append.1 hentry with hentry | hentry
      · obtain ⟨id, hid, rfl⟩ := List.mem_map.1 hentry
        exact hids id hid
      · obtain ⟨row, hrow, hof⟩ := List.mem_filterMap.1 hentry
        obtain ⟨_, -, rfl⟩ := Option.map_eq_some_iff.1 hof
        exact congrArg some (hchain row hrow)
    · simpa [StateMap.ids] using (List.append_eq_nil_iff.1 hnil).1
    · simp [hempty, hnil, StateMap.ids]
  | false =>
    simp only [Bool.false_eq_true, if_false, Except.pure_eq_ok] at h
    subst h
    refine ⟨fun entry hentry => ?_, fun hnil => ?_, fun hnil => ?_⟩
    · obtain ⟨row, hrow, rfl⟩ := List.mem_map.1 hentry
      rcases List.mem_append.1 hrow with hrow | hrow
      · obtain ⟨id, hid, hfind⟩ := List.mem_filterMap.1 hrow
        have hin := hids id hid
        rw [Tables.roomOf, hfind] at hin
        exact hin
      · exact congrArg some (hchain row hrow)
    · have hnone := List.filterMap_eq_nil_iff.1
        (List.append_eq_nil_iff.1 (List.map_eq_nil_iff.1 hnil)).1
      have hids' : state.ids = [] := List.eq_nil_iff_forall_not_mem.2 fun id hid => by
        have hin := hids id hid
        simp [Tables.roomOf, hnone id hid] at hin
      simpa [StateMap.ids] using hids'
    · simp [hempty, hnil, StateMap.ids]

theorem confined_state_iff {eventId : Option String} {idsOnly : Bool} :
    Confined cfg fed own pdus db origin (.state roomId eventId idsOnly) ↔
      Entitled fed db origin (.state roomId eventId idsOnly) := by
  have hanswer (served : List Served) :
      answer cfg fed own pdus db origin (.state roomId eventId idsOnly) = .ok served ↔
        LetIn db origin roomId ∧ ∃ «at» ∈ eventId,
          stateAtJson fed db «at» idsOnly = .ok served := by
    simp only [answer, Except.bind_eq_ok, dagRoomAccess_ok, exists_const]
    refine and_congr_right fun _ => ?_
    cases eventId <;> simp
  constructor
  · intro h hlet «at» hat hparse state hstate hne room hroom
    obtain ⟨served, hserved⟩ : ∃ served, stateAtJson fed db «at» idsOnly = .ok served := by
      cases idsOnly <;> simp [stateAtJson, hparse, hstate, bind, Except.bind, Except.mapError, pure,
        Except.pure]
    obtain ⟨hin, hnil⟩ := stateAtJson_room hsep hroom hstate hserved
    exact (allReadable_iff_of_room hin).1 (h served ((hanswer served).2 ⟨hlet, «at», hat, hserved⟩))
      fun hempty => hne (hnil.1 hempty)
  · intro h served hserved
    obtain ⟨hlet, «at», hat, hserved⟩ := (hanswer served).1 hserved
    have hparse : fed.rules.parseEventId «at» = .ok () := by
      simp only [stateAtJson, Except.bind_eq_ok, Except.mapError_eq_ok] at hserved
      obtain ⟨_, hparse, -⟩ := hserved
      exact hparse
    cases hstate : db.dag.stateAfter «at» with
    | none => simp [stateAtJson, hstate] at hserved
    | some state =>
      obtain ⟨room, hroom⟩ := Dag.Tables.roomOf_ne_none (hsep.stored «at» (by
        rw [← Dag.Tables.stateAfter_isSome, hstate]; rfl))
      obtain ⟨hin, hnil⟩ := stateAtJson_room hsep hroom hstate hserved
      exact (allReadable_iff_of_room hin).2 fun hne =>
        h hlet «at» hat hparse state hstate (fun hempty => hne (hnil.2 hempty)) room hroom

end

end Confined

/-! ### Two rooms and a peer in one of them -/

def noSigning : Signing := ⟨"a", fun _ => .error "no key"⟩

/-- A room `!r` that a user of `b` has joined, and a room `!q` of local users only. -/
def sharedAndOwn : List F3.Op :=
  [.createRoom (F3.simpleRoom "!r"), .localState "" "!r" 1 "m.room.create" "" "x" 0 "",
    .receive none (F3.peerEvent "!r" "@bob:b" "m.room.member"
      (some "@bob:b") "join" 2 ["$rx"]) [] "",
    .createRoom (F3.simpleRoom "!q"), .localState "" "!q" 1 "m.room.create" "" "x" 0 ""]

def sharedAndOwnDb : Db :=
  Trace.run (F3.step F3.simpleConfig F3.simpleFederation) F3.simpleDb sharedAndOwn

theorem separate_sharedAndOwn : Separate sharedAndOwnDb.dag := by
  obtain ⟨hclosed, hlinked⟩ : sharedAndOwnDb.dag.Closed F3.simpleFederation.rules ∧
      F3.Linked sharedAndOwnDb.dag :=
    F3.linked_run Dag.simpleRules_lawful Tables.closed_empty F3.linked_empty sharedAndOwn
  have hauth : sharedAndOwnDb.dag.auth = [] := by decide +kernel
  have hstates : ∀ entry ∈ sharedAndOwnDb.dag.eventState,
      ∀ id ∈ StateMap.ids (sharedAndOwnDb.dag.stateGroups[entry.2]?.getD []),
        sharedAndOwnDb.dag.roomOf id = sharedAndOwnDb.dag.roomOf entry.1 := by decide +kernel
  refine ⟨hlinked.ids, hclosed.sound.state_stored, fun x a h => by simp [hauth] at h, ?_⟩
  intro x room state hroom hstate id hid
  obtain ⟨group, hgroup, rfl⟩ := Option.map_eq_some_iff.1 hstate
  obtain ⟨entry, hentry, rfl⟩ := Option.map_eq_some_iff.1 hgroup
  have hx : entry.1 = x := by simpa using List.find?_some hentry
  rw [hstates entry (List.mem_of_find?_eq_some hentry) id hid, hx, hroom]

end PeerReads

end Server
