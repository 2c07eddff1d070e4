import Mail4Agent.Server.F3Rooms

/-!
# Depths of new events

A local event gets the greatest depth among the forward extremities plus one. Depths
come from the events, so a peer chooses them. `template_ok_iff` says when a template can
be built: its depth, like every integer of a canonical document, has to be at most
`Json.maxSafeInt`. An accepted event of that depth is legal itself, and nothing can be
written on top of it.
-/

namespace Dag

theorem foldl_max_le_iff {depths : List Nat} {start bound : Nat} :
    depths.foldl max start ≤ bound ↔ start ≤ bound ∧ ∀ d ∈ depths, d ≤ bound := by
  induction depths generalizing start with
  | nil => simp
  | cons d rest ih =>
    rw [List.foldl_cons, ih, max_le_iff, List.forall_mem_cons, and_assoc]

/-- The depth of a new event is a canonical integer. -/
def DepthLegal (db : DagRead) : Prop := (nextDepth db : Int) ≤ Json.maxSafeInt

theorem depthLegal_iff {db : DagRead} : DepthLegal db ↔
    ∀ x ∈ db.extremities, ∀ pdu, db.pdu x = some pdu → (pdu.depth : Int) < Json.maxSafeInt := by
  have hbound : DepthLegal db ↔
      ((db.extremities.filterMap db.pdu).map Pdu.depth).foldl max 0 ≤ 2 ^ 53 - 2 := by
    unfold DepthLegal nextDepth Json.maxSafeInt
    omega
  rw [hbound, foldl_max_le_iff]
  simp only [zero_le, true_and, List.forall_mem_map, List.mem_filterMap, Json.maxSafeInt]
  constructor
  · intro h x hx pdu hpdu
    have := h pdu ⟨x, hx, hpdu⟩
    omega
  · rintro h pdu ⟨x, hx, hpdu⟩
    have := h x hx pdu hpdu
    omega

/-- Everything else a template needs. -/
structure Templatable (rules : Rules) (db : DagRead) (ts : Nat) (sender kind : String)
    (key : Option String) (content : Json) : Prop where
  user : rules.parseUserId sender = .ok ()
  current : ∃ state, currentState rules db = .ok state
  authTypes : ∃ slots, rules.authTypesForEvent kind sender key content = .ok slots
  canonical : content.isCanonical = true
  time : (ts : Int) ≤ Json.maxSafeInt

theorem isCanonical_nat {n : Nat} :
    (Json.int n).isCanonical = true ↔ (n : Int) ≤ Json.maxSafeInt := by
  rw [Json.isCanonical, decide_eq_true_iff, Json.maxSafeInt]
  omega

theorem isCanonical_ids (ids : List String) : (Json.arr (ids.map .str)).isCanonical = true := by
  rw [Json.isCanonical, Json.itemsCanonical_iff]
  simp [Json.isCanonical]

theorem templateFields_canonical {db : DagRead} {room sender kind : String} {ts : Nat}
    {key : Option String} {content : Json} {auth : List String} :
    Json.fieldsCanonical (templateFields db room ts sender kind key content auth) = true ↔
      content.isCanonical = true ∧ (ts : Int) ≤ Json.maxSafeInt ∧ DepthLegal db := by
  have hstr (text : String) : (Json.str text).isCanonical = true := by simp [Json.isCanonical]
  have hkey : ∀ field ∈ key.toList.map fun key => ("state_key", Json.str key),
      field.2.isCanonical = true := by
    intro field hfield
    obtain ⟨text, -, rfl⟩ := List.mem_map.1 hfield
    exact hstr text
  rw [Json.fieldsCanonical_iff, templateFields, List.forall_mem_append, DepthLegal]
  simp only [List.forall_mem_cons, hstr, isCanonical_ids, isCanonical_nat, List.not_mem_nil,
    false_implies, implies_true, true_and, and_true]
  exact ⟨fun h => ⟨h.1.1, h.1.2.1, h.1.2.2⟩, fun h => ⟨⟨h.1, h.2.1, h.2.2⟩, hkey⟩⟩

/-- A template is built exactly if the depth of the new event is legal and nothing else
is in the way. -/
theorem template_ok_iff {rules : Rules} {db : DagRead} {room sender kind : String} {ts : Nat}
    {key : Option String} {content : Json} :
    (∃ obj, template rules db room ts sender kind key content = .ok obj) ↔
      Templatable rules db ts sender kind key content ∧ DepthLegal db := by
  unfold template
  simp only [Except.bind_eq_ok, Except.mapError_eq_ok]
  constructor
  · rintro ⟨obj, _, huser, state, hcurrent, slots, hslots, h⟩
    split at h
    case h_2 => cases h
    rename_i found hfound
    rw [Json.canonicalObject?] at hfound
    split_ifs at hfound with hfields
    obtain ⟨hcontent, hts, hdepth⟩ := templateFields_canonical.1 hfields
    exact ⟨⟨huser, ⟨state, hcurrent⟩, ⟨slots, hslots⟩, hcontent, hts⟩, hdepth⟩
  · rintro ⟨⟨huser, ⟨state, hcurrent⟩, ⟨slots, hslots⟩, hcontent, hts⟩, hdepth⟩
    refine ⟨.obj (templateFields db room ts sender kind key content (slots.filterMap state.get?)),
      (), huser, state, hcurrent, slots, hslots, ?_⟩
    rw [Json.canonicalObject?, if_pos (templateFields_canonical.2 ⟨hcontent, hts, hdepth⟩)]
    rfl

end Dag

namespace Server.F3

open Dag (DepthLegal Pdu Tables)

variable {cfg : Config} {fed : Federation} {roomId : String}

/-- The condition on a request: an event that becomes a forward extremity of the room has
a depth below the greatest canonical integer. -/
def ShallowTips (cfg : Config) (fed : Federation) (roomId : String) (db : Db) (op : Op) : Prop :=
  ∀ x, (roomId, x) ∈ (step cfg fed db op).dag.extremities → (roomId, x) ∉ db.dag.extremities →
    ∀ pdu, ((step cfg fed db op).dag.conn fed.rules roomId).pdu x = some pdu →
      (pdu.depth : Int) < Json.maxSafeInt

/-- A request keeps the next depth legal exactly if it makes no too deep event a tip: the
tips that stay are the events they were. -/
theorem depthLegal_step_iff (lawful : fed.rules.Lawful) {db : Db} (op : Op)
    (hs : db.dag.Sound fed.rules) (before : DepthLegal (db.dag.conn fed.rules roomId)) :
    DepthLegal ((step cfg fed db op).dag.conn fed.rules roomId) ↔
      ShallowTips cfg fed roomId db op := by
  have hchange : Change fed.rules db.dag (accepted cfg fed db op) (step cfg fed db op).dag :=
    step_graph lawful op db
  have hs' := hchange.sound lawful hs
  rw [Dag.depthLegal_iff] at before ⊢
  constructor
  · intro h x hx _
    exact h x (Tables.mem_extremityIds.2 hx)
  · intro h x hx pdu hpdu
    have hx := Tables.mem_extremityIds.1 hx
    by_cases hold : (roomId, x) ∈ db.dag.extremities
    · refine before x (Tables.mem_extremityIds.2 hold) pdu ?_
      have hstored : db.dag.row? x ≠ none := by
        intro hnone
        simpa [Tables.roomOf, hnone] using hs.tip_room roomId x hold
      rw [hs.pdu_conn, ← hchange.row_kept lawful hs hstored, ← hs'.pdu_conn]
      exact hpdu
    · exact h x hx hold pdu hpdu

/-- Throughout a run the next depth is legal exactly if no request makes an event of the
greatest depth a forward extremity. In any state a template is built exactly if the next
depth is legal and nothing else is in the way. -/
theorem depth_stays_legal (lawful : fed.rules.Lawful) {db : Db} (hempty : db.dag = {})
    (roomId : String) (ops : List Op) :
    (Trace.Throughout (step cfg fed) (fun db => DepthLegal (db.dag.conn fed.rules roomId)) db ops ↔
      Trace.Meets (step cfg fed) (ShallowTips cfg fed roomId) db ops) ∧
    ∀ (db : Db) ts sender kind key content,
      (∃ obj, Dag.template fed.rules (db.dag.conn fed.rules roomId) roomId ts sender kind key
        content = .ok obj) ↔
      Dag.Templatable fed.rules (db.dag.conn fed.rules roomId) ts sender kind key content ∧
        DepthLegal (db.dag.conn fed.rules roomId) := by
  refine ⟨?_, fun db ts sender kind key content => Dag.template_ok_iff⟩
  have hs : db.dag.Sound fed.rules := hempty ▸ Tables.sound_empty
  have hinit : DepthLegal (db.dag.conn fed.rules roomId) := by
    rw [Dag.depthLegal_iff, hempty]
    intro x hx
    simp [Tables.conn, Tables.extremityIds] at hx
  have hkeep (s : Db) (op : Op) (_ : True) (hs : s.dag.Sound fed.rules) :
      (step cfg fed s op).dag.Sound fed.rules := (step_graph lawful op s).sound lawful hs
  have hexact (s : Db) (op : Op) (_ : True) (hs : s.dag.Sound fed.rules)
      (before : DepthLegal (s.dag.conn fed.rules roomId)) :
      DepthLegal ((step cfg fed s op).dag.conn fed.rules roomId) ↔
        ShallowTips cfg fed roomId s op := depthLegal_step_iff lawful op hs before
  exact Trace.throughout_iff_meets hkeep hexact (fun _ _ => trivial) hs hinit

/-- A room, and a peer's message of the greatest depth. -/
def deepMessage : List Op :=
  [.createRoom (simpleRoom "!r"), .localState "" "!r" 1 "m.room.create" "" "x" 0 "",
    .receive none (peerEvent "!r" "@bob:b" "m.room.message" none "m" (2 ^ 53 - 1) ["$rx"]) [] ""]

def afterDeepMessage : Db := Trace.run (step simpleConfig simpleFederation) simpleDb deepMessage

/-- The message is accepted, and then a member's message is refused, although only the
depth is in the way of a template. -/
theorem not_depthLegal_deepMessage :
    ¬ Trace.Throughout (step simpleConfig simpleFederation)
        (fun db => DepthLegal (db.dag.conn simpleFederation.rules "!r")) simpleDb deepMessage ∧
      Dag.Templatable simpleFederation.rules (afterDeepMessage.dag.conn simpleFederation.rules "!r")
        0 "@alice:a" "m.room.message" none (.obj []) ∧
      (accepted simpleConfig simpleFederation afterDeepMessage
        (.localMessage "" "!r" 1 "m.room.message" "n" 0)).length = 0 := by
  have hdepth : Dag.nextDepth (afterDeepMessage.dag.conn simpleFederation.rules "!r") = 2 ^ 53 := by
    decide +kernel
  have hcurrent : (Dag.currentState simpleFederation.rules
      (afterDeepMessage.dag.conn simpleFederation.rules "!r")).toOption.isSome = true := by
    decide +kernel
  refine ⟨fun h => ?_, ⟨rfl, ?_, ⟨[], rfl⟩, by decide, by decide⟩, by decide +kernel⟩
  · have hlegal : DepthLegal (afterDeepMessage.dag.conn simpleFederation.rules "!r") :=
      Trace.throughout_iff.1 h deepMessage [] (List.append_nil _).symm
    rw [DepthLegal, hdepth] at hlegal
    exact absurd hlegal (by decide)
  · cases hstate : Dag.currentState simpleFederation.rules
        (afterDeepMessage.dag.conn simpleFederation.rules "!r") with
    | ok state => exact ⟨state, rfl⟩
    | error e => simp [hstate, Except.toOption] at hcurrent

/-- The theorem at the run with the deep message. -/
theorem depth_stays_legal_deepMessage :
    (Trace.Throughout (step simpleConfig simpleFederation)
        (fun db => DepthLegal (db.dag.conn simpleFederation.rules "!r")) simpleDb deepMessage ↔
      Trace.Meets (step simpleConfig simpleFederation)
        (ShallowTips simpleConfig simpleFederation "!r") simpleDb deepMessage) ∧
    ∀ (db : Db) ts sender kind key content,
      (∃ obj, Dag.template simpleFederation.rules (db.dag.conn simpleFederation.rules "!r") "!r" ts
        sender kind key content = .ok obj) ↔
      Dag.Templatable simpleFederation.rules (db.dag.conn simpleFederation.rules "!r")
        ts sender kind
          key content ∧
        DepthLegal (db.dag.conn simpleFederation.rules "!r") :=
  depth_stays_legal Dag.simpleRules_lawful rfl "!r" deepMessage

end Server.F3
