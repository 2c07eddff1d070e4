import Mail4Agent.Foundation.Canonical
import Mail4Agent.Foundation.Decimal
import Mail4Agent.Messenger.Lanes

/-!
# The sliding-sync adapter

The engine polls with `/sync` v3 and the adapter turns its polls into sliding-sync calls. Each
poll runs on a worker of its own. The adapter's position and its to-device cursor are shared:
a worker reads and writes them between its calls, while the driver may already have given its
poll up and started another. `advance` is one uninterrupted piece of a worker's run, so that
every interleaving is a list of such pieces.

A server drops the to-device events that a position or cursor acknowledges. `covers` says which
these are, and the events of an answer carry the server's own numbers for that; neither is known
to the adapter. A worker moves both when its answer arrives, whether or not anybody still waits
for the answer, and the next poll sends them. A lost answer is acknowledged that way
(`not_onlyConsumed_lateAnswer`), unless no answer with events is lost after its values went into
the adapter (`Unwritten`).
-/

namespace Agent

open Messenger

inductive AgentError where
  | vault (text : String)
  | identity (text : String)
  | transport (text : String)
  | refused (text : String)
  | protocol (text : String)
  | store (text : String)
  | ingest (text : String)
  | needsInvite
deriving DecidableEq, Repr

namespace Sliding

/-! ### The adapter -/

inductive State where
  | undecided | on | off
deriving DecidableEq, Repr

inductive Path where
  | simplified | msc4186
deriving DecidableEq, Repr

def Path.text : Path → String
  | simplified => "/_matrix/client/unstable/org.matrix.simplified_msc3575/sync"
  | msc4186 => "/_matrix/client/unstable/org.matrix.msc4186/sync"

structure Adapter where
  state : State := .undecided
  forcedV3 : Bool := false
  path : Path := .simplified
  pos : Option String := none
  toDeviceSince : Option String := none

def Adapter.setMode (adapter : Adapter) (v3 : Bool) : Adapter := { adapter with forcedV3 := v3 }

/-- What the server offers; `versions` is the body of its answer if the answer is a 200. -/
def Adapter.decide (adapter : Adapter) (versions : Option Json) : Adapter :=
  let feature (key : String) : Bool :=
    (((versions.bind (·.get? "unstable_features")).bind (·.get? key)).bind Json.asBool?).getD false
  if adapter.forcedV3 then { adapter with state := .off }
  else if feature "org.matrix.simplified_msc3575" then
    { adapter with path := .simplified, state := .on }
  else if feature "org.matrix.msc4186" then { adapter with path := .msc4186, state := .on }
  else { adapter with state := .off }

def Adapter.body (adapter : Adapter) : Json :=
  let toDevice : Json := .obj (("enabled", .bool true) ::
    (adapter.toDeviceSince.map fun since => ("since", Json.str since)).toList)
  .obj [("conn_id", .str "m4a"),
    ("lists", .obj [("all", .obj [("ranges", .arr [.arr [.int 0, .int 99]]),
      ("timeline_limit", .int 20), ("required_state", .arr [.arr [.str "*", .str "*"]])])]),
    ("extensions", .obj [("to_device", toDevice), ("e2ee", .obj [("enabled", .bool true)]),
      ("account_data", .obj [("enabled", .bool true)])])]

def queryValue (request : OutgoingRequest) (name : String) : Option String :=
  (request.query.find? (·.1 = name)).map Prod.snd

def slidingRequest (adapter : Adapter) (request : OutgoingRequest) (pos : Option String) :
    OutgoingRequest where
  id := request.id
  method := .post
  path := adapter.path.text
  query := ("timeout", (queryValue request "timeout").getD "0") ::
    (pos.map fun value => ("pos", value)).toList
  body := some adapter.body
  kind := request.kind

/-- `Value::pointer` along names of fields. -/
def pointer (v : Json) (path : List String) : Option Json := path.foldlM (fun v key => v.get? key) v

/-- A room of a sliding-sync answer that is not an invitation. -/
def toV3Joined (room : Json) : Json :=
  let notifications := (room.get? "notification_count").bind Json.asU64?
  let highlights := (room.get? "highlight_count").bind Json.asU64?
  let timeline : Json := .obj ([("events", (room.get? "timeline").getD (.arr [])),
    ("limited", .bool (((room.get? "limited").bind Json.asBool?).getD false))] ++
    ((room.get? "prev_batch").map fun value => ("prev_batch", value)).toList)
  .obj ([("timeline", timeline),
    ("state", .obj [("events", (room.get? "required_state").getD (.arr []))])] ++
    if notifications.isSome || highlights.isSome then
      [("unread_notifications", .obj [("notification_count", .int (notifications.getD 0)),
        ("highlight_count", .int (highlights.getD 0))])]
    else [])

/-- A sliding-sync answer in the shape of a v3 `/sync` answer. -/
def toV3 (v : Json) : Json :=
  let rooms := ((v.get? "rooms").bind Json.asObject?).getD []
  let stripped (room : Json) := (room.get? "invite_state").bind Json.asArr?
  let invite := rooms.filterMap fun entry => (stripped entry.2).map fun events =>
    (entry.1, Json.obj [("invite_state", .obj [("events", .arr events)])])
  let join := rooms.filterMap fun entry =>
    if (stripped entry.2).isSome then none else some (entry.1, toV3Joined entry.2)
  let field (name : String) (path : List String) : List (String × Json) :=
    ((pointer v path).map fun value => (name, value)).toList
  let events (path : List String) : Json := .obj [("events", (pointer v path).getD (.arr []))]
  .obj ([("next_batch", .str (((v.get? "pos").bind Json.asStr?).getD "")),
    ("rooms", .obj [("join", .obj join), ("invite", .obj invite), ("leave", .obj [])]),
    ("to_device", events ["extensions", "to_device", "events"]),
    ("account_data", events ["extensions", "account_data", "global"])] ++
    field "device_lists" ["extensions", "e2ee", "device_lists"] ++
    field "device_one_time_keys_count" ["extensions", "e2ee", "device_one_time_keys_count"] ++
    field "device_unused_fallback_key_types"
      ["extensions", "e2ee", "device_unused_fallback_key_types"])

/-! ### Workers -/

/-- An answer of the server with its numbers for the to-device events in it. -/
structure Reply where
  response : HttpResponseDescriptor
  toDevice : List Nat := []

def Reply.json (reply : Reply) : Json := reply.response.body.getD .null

def Reply.errcode (reply : Reply) : Option String :=
  (reply.json.get? "errcode").bind Json.asStr?

def Reply.pos (reply : Reply) : Option String := (reply.json.get? "pos").bind Json.asStr?

def Reply.nextBatch (reply : Reply) : Option String :=
  (pointer reply.json ["extensions", "to_device", "next_batch"]).bind Json.asStr?

/-- Only a successful answer carries events. -/
def Reply.events (reply : Reply) : List Nat :=
  if reply.response.status = 200 then reply.toDevice else []

/-- A value that tells the server how far its events were taken in. -/
inductive Ack where
  | pos (value : String)
  | since (value : String)
deriving DecidableEq

def acksOf (pos since : Option String) : List Ack :=
  (pos.map Ack.pos).toList ++ (since.map Ack.since).toList

theorem mem_acksOf {ack : Ack} {pos since : Option String} :
    ack ∈ acksOf pos since ↔
      (∃ value, pos = some value ∧ .pos value = ack) ∨
        ∃ value, since = some value ∧ .since value = ack := by
  simp [acksOf]

/-- The values in a call. -/
def acksIn (call : OutgoingRequest) : List Ack :=
  acksOf (queryValue call "pos")
    ((call.body.bind (pointer · ["extensions", "to_device", "since"])).bind Json.asStr?)

theorem acksIn_slidingRequest (adapter : Adapter) (request : OutgoingRequest)
    (pos : Option String) :
    acksIn (slidingRequest adapter request pos) = acksOf pos adapter.toDeviceSince := by
  cases hpos : pos <;> cases hsince : adapter.toDeviceSince <;>
    simp [acksIn, slidingRequest, queryValue, Adapter.body, pointer, Json.get?, List.lookup, hsince,
      Json.asStr?]

def Adapter.acks (adapter : Adapter) : List Ack := acksOf adapter.pos adapter.toDeviceSince

/-- Where a worker is between two accesses to what it shares. -/
inductive Phase where
  | started
  | choosing
  | building (first : Bool) (pos : Option String)
  | waiting (first : Bool)
  | writingPos (reply : Reply)
  | writingSince (reply : Reply)
  | resettingPos
  | resettingSince
  | turningOff
  /-- Plain `/sync` v3. -/
  | plain
  | plainWaiting
  | finished (result : Except AgentError Reply)

namespace Phase

/-- The events of the answer a worker has. -/
def holds : Phase → List Nat
  | writingPos reply | writingSince reply => reply.toDevice
  | finished (.ok reply) => reply.events
  | _ => []

/-- The position a worker has chosen and not sent yet. -/
def acks : Phase → List Ack
  | building _ pos => acksOf pos none
  | _ => []

/-- The values a worker is about to put into the adapter. -/
def fresh : Phase → List Ack
  | writingPos reply => acksOf reply.pos none
  | writingSince reply => acksOf none reply.nextBatch
  | _ => []

/-- The values of the answer that are not all in the adapter yet. -/
def pending : Phase → List Ack
  | writingPos reply => acksOf reply.pos reply.nextBatch
  | writingSince reply => acksOf none reply.nextBatch
  | _ => []

/-- The events of an answer whose values may be in the adapter. -/
def written : Phase → List Nat
  | writingSince reply => reply.toDevice
  | finished (.ok reply) => reply.events
  | _ => []

def listens : Phase → Bool
  | waiting _ | plainWaiting => true
  | _ => false

end Phase

structure Worker where
  request : OutgoingRequest
  phase : Phase := .started

/-- What a piece of a worker's run leaves; `sent` has the values of the call it makes. -/
structure Outcome where
  phase : Phase
  adapter : Adapter
  sent : List Ack := []
  received : List Nat := []

/-- What a worker does with an answer to a sliding-sync call. -/
def classify (first : Bool) (reply : Reply) : Phase :=
  let status := reply.response.status
  if status = 200 then .writingPos reply
  else if status = 400 ∧ reply.errcode = some "M_UNKNOWN_POS" ∧ first then .resettingPos
  else if status = 404 ∨ status = 405 ∨ status = 501 ∨ reply.errcode = some "M_UNRECOGNIZED" then
    .turningOff
  else .finished (.ok reply)

def arrived : Except AgentError Reply → List Nat
  | .ok reply => reply.events
  | .error _ => []

/-- One piece of a worker's run; `net` is what the network gives to a worker that waits. -/
def advance (adapter : Adapter) (request : OutgoingRequest) (net : Except AgentError Reply) :
    Phase → Outcome
  | .started => { phase := if adapter.state = .on then .choosing else .plain, adapter }
  | .choosing =>
    -- a `since` from another run means nothing on this connection
    let pos := adapter.pos.filter fun pos => queryValue request "since" = some pos
    { phase := .building true pos, adapter }
  | .building first pos =>
    { phase := .waiting first, adapter, sent := acksIn (slidingRequest adapter request pos) }
  | .waiting first =>
    match net with
    | .error error => { phase := .finished (.error error), adapter }
    | .ok reply => { phase := classify first reply, adapter, received := reply.events }
  | .writingPos reply =>
    { phase := .writingSince reply, adapter := { adapter with pos := reply.pos } }
  | .writingSince reply =>
    { phase := .finished (.ok ⟨⟨200, some (toV3 reply.json)⟩, reply.toDevice⟩)
      adapter := { adapter with toDeviceSince := reply.nextBatch.or adapter.toDeviceSince } }
  | .resettingPos => { phase := .resettingSince, adapter := { adapter with pos := none } }
  | .resettingSince =>
    { phase := .building false none, adapter := { adapter with toDeviceSince := none } }
  | .turningOff => { phase := .plain, adapter := { adapter with state := .off } }
  | .plain => { phase := .plainWaiting, adapter }
  | .plainWaiting =>
    match net with
    | .error error => { phase := .finished (.error error), adapter }
    | .ok reply => { phase := .finished (.ok reply), adapter, received := reply.events }
  | .finished result => { phase := .finished result, adapter }

section Advance

variable (adapter : Adapter) (request : OutgoingRequest) (net : Except AgentError Reply)
  (phase : Phase)

theorem classify_holds (first : Bool) (reply : Reply) :
    (classify first reply).holds = reply.events := by
  simp only [classify]
  split_ifs with hok hpos hrefused
  · simp [Phase.holds, Reply.events, hok]
  · simp [Phase.holds, Reply.events, hok]
  · simp [Phase.holds, Reply.events, hok]
  · rfl

theorem classify_acks (first : Bool) (reply : Reply) : (classify first reply).acks = [] := by
  simp only [classify]
  split_ifs <;> rfl

/-- A worker keeps the answer it has until it is read. -/
theorem advance_holds :
    (advance adapter request net phase).phase.holds =
      if phase.listens then arrived net else phase.holds := by
  cases phase with
  | waiting first =>
    cases net with
    | ok reply => exact classify_holds first reply
    | error error => rfl
  | started => simp only [advance, Phase.listens]; split_ifs <;> simp_all [Phase.holds]
  | plainWaiting => cases net <;> rfl
  | _ => rfl

theorem written_subset {phase : Phase} {event : Nat} (h : event ∈ phase.written) :
    event ∈ phase.holds := by
  cases phase with
  | writingSince reply => exact h
  | finished result => cases result <;> exact h
  | _ => cases h

theorem fresh_subset {phase : Phase} {ack : Ack} (h : ack ∈ phase.fresh) : ack ∈ phase.pending := by
  cases phase with
  | writingPos reply =>
    obtain hpos | ⟨value, hvalue, -⟩ := mem_acksOf.1 h
    · exact mem_acksOf.2 (.inl hpos)
    · cases hvalue
  | writingSince reply => exact h
  | _ => cases h

variable {phase} in
theorem advance_written {event : Nat} (h : event ∈ phase.written) :
    event ∈ (advance adapter request net phase).phase.written := by
  cases phase with
  | writingSince reply => simpa [advance, Phase.written, Reply.events] using h
  | finished result => exact h
  | _ => cases h

variable {phase} in
/-- When a value goes into the adapter, the events of its answer count as written. -/
theorem advance_written_of_fresh {ack : Ack} (hack : ack ∈ phase.fresh) {event : Nat}
    (h : event ∈ phase.holds) : event ∈ (advance adapter request net phase).phase.written := by
  cases phase with
  | writingPos reply => exact h
  | writingSince reply => simpa [advance, Phase.written, Reply.events, Phase.holds] using h
  | _ => cases hack

variable {phase} in
/-- The values still to be written are those of before, or those of the answer that arrives. -/
theorem advance_pending {ack : Ack} (h : ack ∈ (advance adapter request net phase).phase.pending) :
    (phase.listens = false ∧ ack ∈ phase.pending) ∨
      (phase.listens = true ∧ ∃ reply, net = .ok reply ∧ reply.response.status = 200 ∧
        ack ∈ acksOf reply.pos reply.nextBatch) := by
  cases phase with
  | writingPos reply =>
    refine .inl ⟨rfl, ?_⟩
    obtain ⟨value, hvalue, -⟩ | hsince := mem_acksOf.1 h
    · cases hvalue
    · exact mem_acksOf.2 (.inr hsince)
  | waiting first =>
    refine .inr ⟨rfl, ?_⟩
    cases net with
    | error error => cases h
    | ok reply =>
      simp only [advance, classify] at h
      split_ifs at h with hok
      · exact ⟨reply, rfl, hok, h⟩
      all_goals cases h
  | started =>
    simp only [advance] at h
    split_ifs at h <;> cases h
  | plainWaiting => cases net <;> cases h
  | _ => cases h

/-- Whatever a worker sends, puts into the adapter or chooses was there before, but for the values
of the answer it is at. -/
theorem advance_acks {ack : Ack}
    (h : ack ∈ (advance adapter request net phase).sent ∨
      ack ∈ (advance adapter request net phase).adapter.acks ∨
      ack ∈ (advance adapter request net phase).phase.acks) :
    ack ∈ adapter.acks ∨ ack ∈ phase.acks ∨ ack ∈ phase.fresh := by
  cases phase with
  | started =>
    refine .inl ?_
    simp only [advance] at h
    split_ifs at h <;> simpa [Phase.acks] using h
  | choosing =>
    refine .inl ?_
    simp only [advance, List.not_mem_nil, false_or] at h
    refine h.elim id fun hpos => ?_
    obtain ⟨value, hvalue, rfl⟩ | ⟨value, hvalue, -⟩ := mem_acksOf.1 hpos
    · exact mem_acksOf.2 (.inl ⟨value, (Option.filter_eq_some_iff.1 hvalue).1, rfl⟩)
    · cases hvalue
  | building first pos =>
    simp only [advance, acksIn_slidingRequest, Phase.acks, List.not_mem_nil, or_false] at h ⊢
    refine h.elim (fun hsent => ?_) .inl
    obtain hpos | hsince := mem_acksOf.1 hsent
    · exact .inr (.inl (mem_acksOf.2 (.inl hpos)))
    · exact .inl (mem_acksOf.2 (.inr hsince))
  | waiting first =>
    refine .inl ?_
    cases net with
    | ok reply => simpa [advance, classify_acks] using h
    | error error => simpa [advance, Phase.acks] using h
  | writingPos reply =>
    simp only [advance, Phase.acks, List.not_mem_nil, or_false, false_or] at h ⊢
    obtain hpos | hsince := mem_acksOf.1 h
    · exact .inr (mem_acksOf.2 (.inl hpos))
    · exact .inl (mem_acksOf.2 (.inr hsince))
  | writingSince reply =>
    simp only [advance, Phase.acks, List.not_mem_nil, or_false, false_or] at h ⊢
    obtain hpos | ⟨value, hvalue, hack⟩ := mem_acksOf.1 h
    · exact .inl (mem_acksOf.2 (.inl hpos))
    · obtain hnext | ⟨-, hold⟩ := Option.or_eq_some_iff.1 hvalue
      · exact .inr (mem_acksOf.2 (.inr ⟨value, hnext, hack⟩))
      · exact .inl (mem_acksOf.2 (.inr ⟨value, hold, hack⟩))
  | resettingPos | resettingSince =>
    refine .inl ?_
    simp only [advance, Phase.acks, List.not_mem_nil, or_false, false_or] at h
    simp_all [Adapter.acks, mem_acksOf]
  | turningOff => simpa [advance, Phase.acks, Phase.fresh, Adapter.acks] using h
  | plain | finished result => simpa [advance, Phase.acks, Phase.fresh] using h
  | plainWaiting => cases net <;> simpa [advance, Phase.acks, Phase.fresh] using h

end Advance

/-! ### Polls -/

/-- The adapter with its workers. `flight` is the worker the driver waits for. `sent`, `seen` and
`handed` are not part of the program: the positions and cursors sent so far, the to-device events
that were in some answer, and those in an answer that went into the core. -/
structure Polls where
  adapter : Adapter := {}
  workers : List Worker := []
  flight : Option Nat := none
  sent : List Ack := []
  seen : List Nat := []
  handed : List Nat := []

inductive PollAction where
  | spawn (request : OutgoingRequest)
  | work (worker : Nat) (net : Except AgentError Reply)
  /-- The driver reads the channel. -/
  | harvest
  /-- The driver gives its poll up: it was abandoned or took too long. -/
  | drop
  | setMode (v3 : Bool)
  | decide (versions : Option Json)
  | restart

namespace Polls

/-- The worker the driver waits for. -/
def flying (polls : Polls) : Option Worker := polls.flight.bind (polls.workers[·]?)

def step (polls : Polls) : PollAction → Polls
  | .spawn request =>
    if polls.flight.isSome then polls
    else { polls with
      workers := polls.workers ++ [{ request }]
      flight := some polls.workers.length }
  | .work worker net =>
    match polls.workers[worker]? with
    | none => polls
    | some w =>
      let outcome := advance polls.adapter w.request net w.phase
      { polls with
        adapter := outcome.adapter
        workers := polls.workers.set worker { w with phase := outcome.phase }
        sent := polls.sent ++ outcome.sent
        seen := polls.seen ++ outcome.received }
  | .harvest =>
    match polls.flying.map Worker.phase with
    | some (.finished (.ok reply)) =>
      { polls with flight := none, handed := polls.handed ++ reply.events }
    | some (.finished (.error _)) => { polls with flight := none }
    | _ => polls
  | .drop => { polls with flight := none }
  | .setMode v3 => { polls with adapter := polls.adapter.setMode v3 }
  | .decide versions => { polls with adapter := polls.adapter.decide versions }
  | .restart => { polls with adapter := {}, workers := [], flight := none }

/-- The events of the answer that the driver can still read. -/
def waiting (polls : Polls) : List Nat := (polls.flying.map fun w => w.phase.holds).getD []

/-- The event went into the core or still can. -/
def Consumed (polls : Polls) (event : Nat) : Prop := event ∈ polls.handed ∨ event ∈ polls.waiting

/-- The value was sent, or is one that a poll may send next. -/
def Holds (polls : Polls) (ack : Ack) : Prop :=
  ack ∈ polls.sent ∨ ack ∈ polls.adapter.acks ∨ ∃ w ∈ polls.workers, ack ∈ w.phase.acks

/-- No value that was sent acknowledges an event that was only in lost answers. -/
def OnlyConsumed (covers : Ack → Nat → Bool) (polls : Polls) : Prop :=
  ∀ ack ∈ polls.sent, ∀ event ∈ polls.seen, covers ack event = true → polls.Consumed event

/-- The values of an answer acknowledge the events in it, and what was acknowledged before. -/
def Honest (covers : Ack → Nat → Bool) (polls : Polls) : PollAction → Prop
  | .work _ (.ok reply) => reply.response.status = 200 →
      ∀ ack ∈ acksOf reply.pos reply.nextBatch, ∀ event, covers ack event = true →
        event ∈ reply.toDevice ∨ ∃ old ∈ polls.sent, covers old event = true
  | _ => True

/-- A poll that was given up puts no value into the adapter, and none is given up that did so,
unless its answer has no events. -/
def Unwritten (polls : Polls) : PollAction → Prop
  | .work worker _ => ∀ w ∈ polls.workers[worker]?, w.phase.fresh ≠ [] →
      polls.flight = some worker ∨ w.phase.holds = []
  | .drop | .restart => ∀ w ∈ polls.flying, w.phase.written = []
  | _ => True

instance (polls : Polls) (action : PollAction) : Decidable (polls.Unwritten action) := by
  cases action <;> simp only [Unwritten] <;> infer_instance

/-! ### What a step keeps -/

/-- The events that were handed over, or are in the answer waited for with its values written. -/
def Kept (polls : Polls) (event : Nat) : Prop :=
  event ∈ polls.handed ∨ ∃ w, polls.flying = some w ∧ event ∈ w.phase.written

/-- The values that were sent or may be sent next acknowledge only kept events, and those of an
answer that waits to be written the events in it and what was acknowledged before. -/
structure Safe (covers : Ack → Nat → Bool) (polls : Polls) : Prop where
  held : ∀ ack, polls.Holds ack → ∀ event, covers ack event = true → polls.Kept event
  answers : ∀ w ∈ polls.workers, ∀ ack ∈ w.phase.pending, ∀ event, covers ack event = true →
    event ∈ w.phase.holds ∨ ∃ old ∈ polls.sent, covers old event = true

section Step

variable {covers : Ack → Nat → Bool} {polls polls' : Polls}

theorem Kept.consumed {event : Nat} (h : polls.Kept event) : polls.Consumed event := by
  refine h.imp_right ?_
  rintro ⟨w, hw, hevent⟩
  simpa [waiting, hw] using written_subset hevent

/-- A step with no new values and no lost events. -/
theorem Safe.of_eq (h : polls.Safe covers) (hholds : ∀ ack, polls'.Holds ack → polls.Holds ack)
    (hkept : ∀ event, polls.Kept event → polls'.Kept event) (hsent : polls'.sent = polls.sent)
    (hworkers : ∀ w ∈ polls'.workers, w ∈ polls.workers ∨ w.phase = .started) :
    polls'.Safe covers where
  held ack hack event hcovers := hkept event (h.held ack (hholds ack hack) event hcovers)
  answers w hw ack hack := by
    rw [hsent]
    rcases hworkers w hw with hold | hnew
    · exact h.answers w hold ack hack
    · rw [hnew] at hack
      cases hack

section Work

variable {worker : Nat} {net : Except AgentError Reply} {w : Worker}
  (hw : polls.workers[worker]? = some w)

include hw

theorem step_work :
    polls.step (.work worker net) =
      let outcome := advance polls.adapter w.request net w.phase
      { polls with
        adapter := outcome.adapter
        workers := polls.workers.set worker { w with phase := outcome.phase }
        sent := polls.sent ++ outcome.sent
        seen := polls.seen ++ outcome.received } := by
  simp only [step, hw]

theorem flying_work :
    (polls.step (.work worker net)).flying =
      if polls.flight = some worker then
        some { w with phase := (advance polls.adapter w.request net w.phase).phase }
      else polls.flying := by
  have hlt : worker < polls.workers.length := (List.getElem?_eq_some_iff.1 hw).1
  rw [step_work hw]
  split_ifs with hflight
  · simp [flying, hflight, hlt]
  · cases hf : polls.flight with
    | none => simp [flying, hf]
    | some other =>
      have hne : worker ≠ other := fun heq => hflight (by rw [hf, heq])
      simp [flying, hf, List.getElem?_set_ne hne]

theorem flying_of_flight (hflight : polls.flight = some worker) : polls.flying = some w := by
  simp [flying, hflight, hw]

/-- What a worker does loses no event. -/
theorem kept_work {event : Nat} (h : polls.Kept event) :
    (polls.step (.work worker net)).Kept event := by
  rcases h with hhanded | ⟨w', hw', hevent⟩
  · left
    rw [step_work hw]
    exact hhanded
  · right
    rw [flying_work hw]
    split_ifs with hflight
    · cases (flying_of_flight hw hflight).symm.trans hw'
      exact ⟨_, rfl, advance_written _ _ _ hevent⟩
    · exact ⟨w', hw', hevent⟩

theorem holds_work {ack : Ack} (h : (polls.step (.work worker net)).Holds ack) :
    polls.Holds ack ∨ ack ∈ w.phase.fresh := by
  have hmem : w ∈ polls.workers := List.mem_of_getElem? hw
  have hworker : ack ∈ polls.adapter.acks ∨ ack ∈ w.phase.acks ∨ ack ∈ w.phase.fresh →
      polls.Holds ack ∨ ack ∈ w.phase.fresh := by
    rintro (hadapter | hphase | hfresh)
    · exact .inl (.inr (.inl hadapter))
    · exact .inl (.inr (.inr ⟨w, hmem, hphase⟩))
    · exact .inr hfresh
  rw [step_work hw] at h
  obtain hsent | hadapter | ⟨w', hw', hack⟩ := h
  · obtain hsent | hsent := List.mem_append.1 hsent
    · exact .inl (.inl hsent)
    · exact hworker (advance_acks _ _ _ _ (.inl hsent))
  · exact hworker (advance_acks _ _ _ _ (.inr (.inl hadapter)))
  · obtain hw' | rfl := List.mem_or_eq_of_mem_set hw'
    · exact .inl (.inr (.inr ⟨w', hw', hack⟩))
    · exact hworker (advance_acks _ _ _ _ (.inr (.inr hack)))

/-- A value that goes into the adapter acknowledges kept events only: its poll is waited for, or
its answer has no events. -/
theorem Safe.kept_fresh (h : polls.Safe covers) (unwritten : polls.Unwritten (.work worker net))
    {ack : Ack} (hfresh : ack ∈ w.phase.fresh) {event : Nat} (hcovers : covers ack event = true) :
    (polls.step (.work worker net)).Kept event := by
  have hmem : w ∈ polls.workers := List.mem_of_getElem? hw
  rcases h.answers w hmem ack (fresh_subset hfresh) event hcovers with hevent | ⟨old, hold, hcov⟩
  · rcases unwritten w hw (List.ne_nil_of_mem hfresh) with hflight | hnone
    · right
      rw [flying_work hw, if_pos hflight]
      exact ⟨_, rfl, advance_written_of_fresh _ _ _ hfresh hevent⟩
    · rw [hnone] at hevent
      cases hevent
  · exact kept_work hw (h.held old (.inl hold) event hcov)

theorem Safe.work (h : polls.Safe covers) (honest : polls.Honest covers (.work worker net))
    (unwritten : polls.Unwritten (.work worker net)) :
    (polls.step (.work worker net)).Safe covers where
  held ack hack event hcovers := by
    rcases holds_work hw hack with hold | hfresh
    · exact kept_work hw (h.held ack hold event hcovers)
    · exact h.kept_fresh hw unwritten hfresh hcovers
  answers w' hw' ack hack event hcovers := by
    have hsent {old : Ack} (hold : old ∈ polls.sent) :
        old ∈ (polls.step (.work worker net)).sent := by
      rw [step_work hw]
      exact List.mem_append_left _ hold
    rw [step_work hw] at hw'
    rcases List.mem_or_eq_of_mem_set hw' with hw' | rfl
    · exact (h.answers w' hw' ack hack event hcovers).imp_right
        fun ⟨old, hold, hcov⟩ => ⟨old, hsent hold, hcov⟩
    · dsimp only at hack ⊢
      rw [advance_holds]
      rcases advance_pending _ _ _ hack with ⟨hdeaf, hold⟩ | ⟨hlistens, reply, rfl, hok, hnew⟩
      · rw [hdeaf]
        exact (h.answers w (List.mem_of_getElem? hw) ack hold event hcovers).imp_right
          fun ⟨old, hold, hcov⟩ => ⟨old, hsent hold, hcov⟩
      · rw [hlistens, if_pos rfl, arrived, Reply.events, if_pos hok]
        exact (honest hok ack hnew event hcovers).imp_right
          fun ⟨old, hold, hcov⟩ => ⟨old, hsent hold, hcov⟩

end Work

theorem decide_acks (adapter : Adapter) (versions : Option Json) :
    (adapter.decide versions).acks = adapter.acks := by
  simp only [Adapter.decide]
  split_ifs <;> rfl

theorem kept_harvest {event : Nat} (h : polls.Kept event) : (polls.step .harvest).Kept event := by
  rcases h with hhanded | ⟨w, hw, hevent⟩
  · simp only [step]
    split
    · exact .inl (List.mem_append_left _ hhanded)
    all_goals exact .inl hhanded
  · simp only [step, hw, Option.map_some]
    split
    · rename_i reply hphase
      rw [Option.some.inj hphase] at hevent
      exact .inl (List.mem_append_right _ hevent)
    · rename_i error hphase
      rw [Option.some.inj hphase] at hevent
      cases hevent
    · exact .inr ⟨w, hw, hevent⟩

/-- When the driver stops waiting for an answer that is not written, nothing is lost. -/
theorem kept_of_unwritten (unwritten : ∀ w ∈ polls.flying, w.phase.written = [])
    (hhanded : polls'.handed = polls.handed) {event : Nat} (h : polls.Kept event) :
    polls'.Kept event := by
  rcases h with hhanded' | ⟨w, hw, hevent⟩
  · exact .inl (hhanded ▸ hhanded')
  · rw [unwritten w hw] at hevent
    cases hevent

theorem Safe.step (h : polls.Safe covers) {action : PollAction}
    (honest : polls.Honest covers action) (unwritten : polls.Unwritten action) :
    (polls.step action).Safe covers := by
  cases action with
  | spawn request =>
    simp only [Polls.step]
    split_ifs with hflight
    · exact h
    · have hnone : polls.flying = none := by
        simp [flying, Option.not_isSome_iff_eq_none.1 hflight]
      refine h.of_eq ?_ (fun event hkept => ?_) rfl fun w hw => ?_
      · rintro ack (hsent | hadapter | ⟨w, hw, hack⟩)
        · exact .inl hsent
        · exact .inr (.inl hadapter)
        · obtain hw | hw := List.mem_append.1 hw
          · exact .inr (.inr ⟨w, hw, hack⟩)
          · obtain rfl := List.mem_singleton.1 hw
            cases hack
      · exact kept_of_unwritten (fun w hw => nomatch hnone.symm.trans hw) (by rfl) hkept
      · exact (List.mem_append.1 hw).imp_right fun hnew => by rw [List.mem_singleton.1 hnew]
  | work worker net =>
    cases hw : polls.workers[worker]? with
    | none => simpa only [Polls.step, hw] using h
    | some w => exact h.work hw honest unwritten
  | harvest =>
    have hsame : (polls.step .harvest).sent = polls.sent ∧
        (polls.step .harvest).workers = polls.workers ∧
        (polls.step .harvest).adapter = polls.adapter := by
      simp only [Polls.step]
      split <;> exact ⟨rfl, rfl, rfl⟩
    obtain ⟨hsent, hworkers, hadapter⟩ := hsame
    refine h.of_eq (fun ack hack => ?_) (fun event => kept_harvest) hsent fun w hw => .inl ?_
    · simpa only [Holds, hsent, hworkers, hadapter] using hack
    · rwa [hworkers] at hw
  | drop =>
    exact h.of_eq (fun _ => id) (fun event hkept => kept_of_unwritten unwritten (by rfl) hkept) rfl
      fun _ => .inl
  | setMode v3 => exact h.of_eq (fun _ => id) (fun _ => id) rfl fun _ => .inl
  | decide versions =>
    refine h.of_eq (fun ack hack => ?_) (fun _ => id) rfl fun _ => .inl
    simpa only [Holds, Polls.step, decide_acks] using hack
  | restart =>
    refine h.of_eq (fun ack hack => ?_) (fun event hkept =>
      kept_of_unwritten unwritten (by rfl) hkept)
      rfl fun _ hw => nomatch hw
    left
    simpa [Holds, Polls.step, Adapter.acks, acksOf] using hack

end Step

/-! ### Runs -/

theorem safe_start (covers : Ack → Nat → Bool) : ({} : Polls).Safe covers where
  held ack h := by simp [Holds, Adapter.acks, acksOf] at h
  answers _ hw := nomatch hw

/-- With a server whose values acknowledge what it has handed out, no lost event is acknowledged
in a run in which no answer with events is lost after its values went into the adapter, and none
that was lost before puts them there. -/
theorem onlyConsumed_of_unwritten (covers : Ack → Nat → Bool) {actions : List PollAction}
    (honest : Trace.Meets step (Honest covers) {} actions)
    (unwritten : Trace.Meets step Unwritten {} actions) :
    Trace.Throughout step (OnlyConsumed covers) {} actions := by
  refine Trace.throughout_of_meets (Safe covers)
    (fun polls action hboth hsafe => hsafe.step hboth.1 hboth.2) ?_
    (honest.and unwritten) (safe_start covers)
  exact fun polls hsafe ack hack event _ hcovers =>
    (hsafe.held ack (.inl hack) event hcovers).consumed

/-! ### A late answer -/

def simplifiedVersions : Json :=
  .obj [("unstable_features", .obj [("org.matrix.simplified_msc3575", .bool true)])]

def syncRequest : OutgoingRequest where
  id := .next 0
  method := .get
  path := "/_matrix/client/v3/sync"
  query := [("timeout", "30000")]
  body := none
  kind := .sync

/-- The first to-device event, with the cursor after it. -/
def firstEvent : Reply where
  response := ⟨200, some (.obj [("pos", .str "p1"),
    ("extensions", .obj [("to_device", .obj [("next_batch", .str "t1")])])])⟩
  toDevice := [1]

/-- The cursor `t1` acknowledges the first event. -/
def throughFirst : Ack → Nat → Bool
  | .since value, event => value = "t1" && event = 1
  | .pos _, _ => false

/-- A poll of a new connection, up to the point where it waits. -/
def poll (worker : Nat) : List PollAction :=
  [.spawn syncRequest, .work worker (.ok firstEvent), .work worker (.ok firstEvent),
    .work worker (.ok firstEvent)]

/-- Its answer arrives and is put into the adapter. -/
def answer (worker : Nat) : List PollAction :=
  [.work worker (.ok firstEvent), .work worker (.ok firstEvent), .work worker (.ok firstEvent)]

/-- The first poll is abandoned before its answer arrives; the second sends the cursor of that
answer. -/
theorem not_onlyConsumed_lateAnswer :
    ¬ OnlyConsumed throughFirst (Trace.run step {}
      ([.decide (some simplifiedVersions)] ++ poll 0 ++ [.drop] ++ answer 0 ++ poll 1)) := by
  intro h
  have hconsumed := h (.since "t1") (by decide +kernel) 1 (by decide +kernel) (by decide +kernel)
  exact absurd hconsumed (by simp only [Consumed]; decide +kernel)

/-- The first poll is given up when its answer has arrived and nothing of it is written; the answer
to the second one has the event again and goes into the core before the third poll. -/
theorem onlyConsumed_harvested :
    Trace.Throughout step (OnlyConsumed throughFirst) {}
      ([.decide (some simplifiedVersions)] ++ poll 0 ++ [.work 0 (.ok firstEvent), .drop] ++
        poll 1 ++ answer 1 ++ [.harvest] ++ poll 2) := by
  have hfirst (polls : Polls) (worker : Nat) :
      polls.Honest throughFirst (.work worker (.ok firstEvent)) := by
    intro _ ack hack event hcovers
    left
    obtain ⟨_, -, rfl⟩ | ⟨_, -, rfl⟩ := mem_acksOf.1 hack
    · cases hcovers
    · simpa [throughFirst, firstEvent] using (Bool.and_eq_true_iff.1 hcovers).2
  refine onlyConsumed_of_unwritten _ ?_ (by decide +kernel)
  exact ⟨trivial, trivial, hfirst _ _, hfirst _ _, hfirst _ _, hfirst _ _, trivial, trivial,
    hfirst _ _, hfirst _ _, hfirst _ _, hfirst _ _, hfirst _ _, hfirst _ _, trivial, trivial,
    hfirst _ _, hfirst _ _, hfirst _ _, trivial⟩

end Polls

end Sliding

end Agent
