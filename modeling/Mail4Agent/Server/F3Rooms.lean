import Mail4Agent.Dag.Rooms
import Mail4Agent.Foundation.Trace
import Mail4Agent.Server.F3Snapshot
import Mail4Agent.Server.SimpleRules

/-!
# Rooms do not mix: requests

Every request keeps the graph tables sound, a snapshot included: its events are all
checked to be of the room and to have their auth events among them, and an event that is
stored already has the same id and so the same room. A batch of past events may name events
of the batch, which are of the room; others were stored before.
-/

namespace Server.F3

open Dag.Tables
open Dag (Apart CitesOwnRoom Historic HistoricChange Pdu StateMap StatesInRoom Tables)

variable {rules : Dag.Rules} {roomId : String} {t t' : Tables}

/-! ### Events of the past -/

theorem HistoricChanges.rooms (lawful : rules.Lawful) {done : List Historic}
    (h : HistoricChanges rules roomId t done t') (hs : t.Sound rules) :
    t'.Sound rules ∧ t.Grows t' ∧
      (∀ x r, t'.roomOf x = some r → t.roomOf x = some r ∨ r = roomId) ∧
      ∀ past ∈ done, past.pdu.roomId = roomId ∧
        ∀ p ∈ past.pdu.prevEvents, ∃ r, t'.roomOf p = some r := by
  induction h with
  | nil t => exact ⟨hs, fun _ _ h => h, fun _ _ h => .inl h, by simp⟩
  | @cons t mid t' past rest first more ih =>
    have hgrows := first.grows lawful hs
    obtain ⟨hs', hgrows', hback, hrest⟩ := ih (first.sound lawful hs)
    refine ⟨hs', fun x r hx => hgrows' x r (hgrows x r hx), fun x r hx => ?_,
      List.forall_mem_cons.2 ⟨⟨first.roomId, fun p hp => ?_⟩, hrest⟩⟩
    · rcases hback x r hx with hx | rfl
      · rw [first.roomOf_eq lawful hs] at hx
        split_ifs at hx
        · exact .inr (Option.some.inj hx).symm
        · exact .inl hx
      · exact .inr rfl
    · obtain ⟨r, hr⟩ := roomOf_ne_none (hs.state_stored p (first.prev_groupOf p hp))
      exact ⟨r, hgrows' p r (hgrows p r hr)⟩

theorem HistoricChanges.apart (lawful : rules.Lawful) {done : List Historic}
    (h : HistoricChanges rules roomId t done t') (hs : t.Sound rules) (hapart : Apart rules t)
    (hcites : ∀ past ∈ done, CitesOwnRoom t past.pdu) : Apart rules t' := by
  induction h with
  | nil t => exact hapart
  | @cons t mid t' past rest first more ih =>
    obtain ⟨hfirst, hrest⟩ := List.forall_mem_cons.1 hcites
    obtain ⟨-, -, -, hroom⟩ := more.rooms lawful (first.sound lawful hs)
    refine ih (first.sound lawful hs) (first.apart lawful hs hapart hfirst) ?_
    -- What is new in `mid` is of the room.
    intro later hlater p hp r hr
    rw [first.roomOf_eq lawful hs] at hr
    split_ifs at hr
    · rw [(hroom later hlater).1]
      exact (Option.some.inj hr).symm
    · exact hrest later hlater p hp r hr

/-! ### Snapshots -/

/-- The outliers of a snapshot, read backwards. -/
structure OutliersSpec (rules : Dag.Rules) (roomId : String) (t : Tables) (pdus : List Pdu)
    (t' : Tables) : Prop where
  rows : ∀ row ∈ t'.events, row ∈ t.events ∨ ∃ pdu ∈ pdus, row.roomId = roomId ∧
    row.eventType = pdu.kind ∧ Dag.computeEventId rules row.pdu = .ok row.eventId ∧
    Pdu.fromWire rules row.eventId row.pdu = .ok pdu
  kept : ∀ x, t.row? x ≠ none → t'.row? x = t.row? x
  stored : ∀ pdu ∈ pdus, t'.row? pdu.eventId ≠ none
  source : ∀ pdu ∈ pdus, pdu.roomId = roomId ∧ ∃ json,
    Dag.computeEventId rules json = .ok pdu.eventId ∧
    Pdu.fromWire rules pdu.eventId json = .ok pdu
  stateGroups : t'.stateGroups = t.stateGroups
  eventState : t'.eventState = t.eventState
  extremities : t'.extremities = t.extremities

theorem row?_storeOutlier {pdu : Pdu} {json : Json} (x : String) :
    (t.storeOutlier roomId pdu json).row? x =
      if t.row? pdu.eventId = none ∧ pdu.eventId = x then
        some (Tables.eventRow roomId pdu json true false false)
      else t.row? x := by
  unfold storeOutlier
  cases hrow : t.row? pdu.eventId with
  | some row => simp
  | none =>
    have hadd : ((t.addRow (eventRow roomId pdu json true false false)).addEdges pdu).row? x =
        if pdu.eventId = x then some (eventRow roomId pdu json true false false)
        else t.row? x := row?_addRow _ x
    by_cases hx : pdu.eventId = x <;> simp [hadd, hx]

theorem Outliers.spec {pdus : List Pdu} (h : Outliers rules roomId t pdus t') :
    OutliersSpec rules roomId t pdus t' := by
  induction h with
  | nil t => exact ⟨fun _ h => .inl h, fun _ _ => rfl, by simp, by simp, rfl, rfl, rfl⟩
  | @cons t t' pdu json rest wire hash room more ih =>
    have hown : (t.storeOutlier roomId pdu json).row? pdu.eventId ≠ none := by
      rw [row?_storeOutlier]
      split_ifs with hcond
      · exact Option.some_ne_none _
      · exact fun hnone => hcond ⟨hnone, rfl⟩
    have hfields : (t.storeOutlier roomId pdu json).stateGroups = t.stateGroups ∧
        (t.storeOutlier roomId pdu json).eventState = t.eventState ∧
        (t.storeOutlier roomId pdu json).extremities = t.extremities := by
      unfold storeOutlier
      split <;> exact ⟨rfl, rfl, rfl⟩
    refine ⟨fun row hrow => ?_, fun x hx => ?_, List.forall_mem_cons.2 ⟨?_, ih.stored⟩,
      List.forall_mem_cons.2 ⟨⟨room, json, hash, wire⟩, ih.source⟩, ih.stateGroups.trans hfields.1,
      ih.eventState.trans hfields.2.1, ih.extremities.trans hfields.2.2⟩
    · rcases ih.rows row hrow with hrow | ⟨other, hother, hspec⟩
      · unfold storeOutlier at hrow
        split_ifs at hrow
        · exact .inl hrow
        · rcases List.mem_cons.1 hrow with rfl | hrow
          · exact .inr ⟨pdu, List.mem_cons_self, rfl, rfl, hash, wire⟩
          · exact .inl hrow
      · exact .inr ⟨other, List.mem_cons_of_mem _ hother, hspec⟩
    · have hfirst : (t.storeOutlier roomId pdu json).row? x = t.row? x := by
        rw [row?_storeOutlier, if_neg]
        rintro ⟨hnone, rfl⟩
        exact hx hnone
      rw [ih.kept x (hfirst ▸ hx), hfirst]
    · rw [ih.kept _ hown]
      exact hown

theorem foldl_setEventState (ids : List String) (group : Nat) (t : Tables) :
    ∃ eventState, (ids.foldl (fun dag id => dag.setEventState id group) t) =
        { t with eventState := eventState } ∧
      ∀ x, ({ t with eventState := eventState } : Tables).groupOf x =
        if x ∈ ids then some group else t.groupOf x := by
  induction ids generalizing t with
  | nil => exact ⟨t.eventState, rfl, fun x => by simp⟩
  | cons id rest ih =>
    obtain ⟨eventState, heq, hgroup⟩ := ih (t.setEventState id group)
    refine ⟨eventState, heq, fun x => (hgroup x).trans ?_⟩
    rw [groupOf_setEventState]
    by_cases hx : x ∈ rest
    · simp [hx]
    · by_cases hid : id = x <;> simp [hx, hid, eq_comm]

/-- The tables of an imported snapshot: the rows of its events, and the new state for its
extremities. -/
theorem snapshotTables_spec {mid : Tables} (hgroups : mid.GroupsExist) (roomId : String)
    (state : StateMap) (ids : List String) :
    (∀ x, (snapshotTables mid roomId state ids).row? x = mid.row? x) ∧
      (snapshotTables mid roomId state ids).events = mid.events ∧
      (snapshotTables mid roomId state ids).GroupsExist ∧
      (∀ x, (snapshotTables mid roomId state ids).stateAfter x =
        if x ∈ ids then some state else mid.stateAfter x) ∧
      ∀ r x, (r, x) ∈ (snapshotTables mid roomId state ids).extremities ↔
        (r = roomId ∧ x ∈ ids) ∨ (r ≠ roomId ∧ (r, x) ∈ mid.extremities) := by
  obtain ⟨eventState, hfold, hgroup⟩ :=
    foldl_setEventState ids mid.stateGroups.length (mid.newGroup state)
  have hgroups' : ({ mid.newGroup state with eventState := eventState } : Tables).GroupsExist := by
    have hset (done : List String) (u : Tables) (hu : u.GroupsExist)
        (hlt : mid.stateGroups.length < u.stateGroups.length) :
        (done.foldl (fun dag id => dag.setEventState id mid.stateGroups.length) u).GroupsExist := by
      induction done generalizing u with
      | nil => exact hu
      | cons id rest ih => exact ih _ (groupsExist_setEventState hu hlt) hlt
    rw [← hfold]
    exact hset ids _ (groupsExist_newGroup hgroups) (by simp [newGroup])
  have htables : snapshotTables mid roomId state ids =
      ({ mid.newGroup state with eventState := eventState } : Tables).setExtremities roomId ids :=
    congrArg (fun dag => setExtremities dag roomId ids) hfold
  rw [htables]
  refine ⟨fun x => rfl, rfl, hgroups', fun x => ?_, fun r x => mem_setExtremities⟩
  have hstate : (({ mid.newGroup state with eventState := eventState } : Tables).setExtremities
      roomId ids).stateAfter x = (({ mid.newGroup state with eventState := eventState } :
      Tables).groupOf x).map fun group => (mid.newGroup state).stateGroups[group]?.getD [] := rfl
  rw [hstate, hgroup]
  split_ifs
  · simp [newGroup]
  · exact stateAfter_newGroup hgroups x

namespace SnapshotChange

variable {pdus : List Pdu} {state : StateMap} {ids : List String}

/-- What a snapshot changes, in terms of the tables before it. -/
structure Effect (rules : Dag.Rules) (roomId : String) (t t' : Tables) (pdus : List Pdu)
    (state : StateMap) (ids : List String) : Prop where
  rows : ∀ row ∈ t'.events, row ∈ t.events ∨ ∃ pdu ∈ pdus, row.roomId = roomId ∧
    row.eventType = pdu.kind ∧ Dag.computeEventId rules row.pdu = .ok row.eventId ∧
    Pdu.fromWire rules row.eventId row.pdu = .ok pdu
  kept : ∀ x, t.row? x ≠ none → t'.row? x = t.row? x
  room : ∀ pdu ∈ pdus, t'.roomOf pdu.eventId = some roomId
  stateAfter : ∀ x, t'.stateAfter x = if x ∈ ids then some state else t.stateAfter x
  extremities : ∀ r x, (r, x) ∈ t'.extremities ↔
    (r = roomId ∧ x ∈ ids) ∨ (r ≠ roomId ∧ (r, x) ∈ t.extremities)
  groups : t'.GroupsExist

section

variable (lawful : rules.Lawful) (h : SnapshotChange rules roomId t t' pdus state ids)
  (hs : t.Sound rules)

include lawful h hs

theorem effect : Effect rules roomId t t' pdus state ids := by
  obtain ⟨mid, hout, rfl⟩ := h.outliers
  have hspec := hout.spec
  have hgroups : mid.GroupsExist := by
    unfold Tables.GroupsExist
    rw [hspec.eventState, hspec.stateGroups]
    exact hs.groups
  obtain ⟨hrow, hevents, hgroups', hstate, hext⟩ :=
    snapshotTables_spec hgroups roomId state ids
  refine ⟨fun row hmem => hspec.rows row (hevents ▸ hmem), fun x hx => ?_, fun pdu hpdu => ?_,
    fun x => ?_, fun r x => ?_, hgroups'⟩
  · rw [hrow]
    exact hspec.kept x hx
  · -- The row that is found is new, or it was there and has the same id.
    obtain ⟨r, hr⟩ := roomOf_ne_none (hspec.stored pdu hpdu)
    have hsame : (snapshotTables mid roomId state ids).roomOf pdu.eventId =
      mid.roomOf pdu.eventId := by
      rw [roomOf, hrow]
      rfl
    obtain ⟨row, hmem, hid, rfl⟩ := row_of_roomOf hr
    rw [hsame, hr]
    rcases hspec.rows row hmem with hold | ⟨_, _, hroom, -⟩
    · obtain ⟨hroom, json, hash, hwire⟩ := hspec.source pdu hpdu
      obtain ⟨pdu', hwire', hroom', -⟩ := (hs.row row hold).wire
      rw [← hroom', ← hroom]
      exact congrArg some (Dag.room_of_hash lawful (hid ▸ (hs.row row hold).hash) hash
        (hid ▸ hwire') hwire)
    · rw [hroom]
  · rw [hstate]
    split_ifs
    · rfl
    · simp only [stateAfter, groupOf, hspec.eventState, hspec.stateGroups]
      rfl
  · rw [hext, hspec.extremities]
    rfl

omit lawful hs in
theorem pdu_room {pdu : Pdu} (hpdu : pdu ∈ pdus) : pdu.roomId = roomId := by
  obtain ⟨mid, hout, -⟩ := h.outliers
  exact (hout.spec.source pdu hpdu).1

theorem grows : t.Grows t' := by
  intro x r hx
  rw [roomOf, (h.effect lawful hs).kept x]
  · exact hx
  · intro hnone
    simp [roomOf, hnone] at hx

theorem mem_room {x : String} (hx : x ∈ pdus.map Pdu.eventId) : t'.roomOf x = some roomId := by
  obtain ⟨pdu, hpdu, rfl⟩ := List.mem_map.1 hx
  exact (h.effect lawful hs).room pdu hpdu

theorem sound : t'.Sound rules := by
  have heffect := h.effect lawful hs
  refine hs.add (h.grows lawful hs) (fun row hrow => ?_) heffect.groups (fun x hx => ?_)
    fun r x hx => ?_
  · rcases heffect.rows row hrow with hrow | ⟨pdu, hpdu, hroom, hkind, hash, hwire⟩
    · exact .inl hrow
    · refine .inr ⟨hash, pdu, hwire, (h.pdu_room hpdu).trans hroom.symm, hkind.symm, fun a ha => ?_⟩
      exact ⟨roomId, h.mem_room lawful hs (h.auth_mem pdu hpdu a ha), fun _ =>
        (h.pdu_room hpdu).symm⟩
  · rw [← stateAfter_isSome, heffect.stateAfter] at hx
    split_ifs at hx with hids
    · refine .inr fun hnone => ?_
      have hroom := h.mem_room lawful hs (h.ids_mem x hids)
      simp [roomOf, hnone] at hroom
    · exact .inl (stateAfter_isSome ▸ hx)
  · rcases (heffect.extremities r x).1 hx with ⟨rfl, hids⟩ | ⟨-, hx⟩
    · exact .inr (h.mem_room lawful hs (h.ids_mem x hids))
    · exact .inl hx

theorem apart (hapart : Apart rules t) : Apart rules t' := by
  have heffect := h.effect lawful hs
  refine ⟨fun p hp a ha => ?_, fun x r st hx hst y hy => ?_⟩
  · obtain ⟨row, hrow, hread⟩ := List.mem_filterMap.1 hp
    rcases heffect.rows row hrow with hold | ⟨pdu, hpdu, -, -, -, hwire⟩
    · exact h.grows lawful hs a _
        (hapart.auth p (List.mem_filterMap.2 ⟨row, hold, hread⟩) a ha)
    · obtain rfl : pdu = p := by simpa [hwire, Except.toOption] using hread
      rw [h.pdu_room hpdu]
      exact h.mem_room lawful hs (h.auth_mem pdu hpdu a ha)
  · rw [heffect.stateAfter] at hst
    split_ifs at hst with hids
    · cases hst
      rw [h.mem_room lawful hs (h.ids_mem x hids)] at hx
      cases hx
      exact h.mem_room lawful hs (h.state_mem y hy)
    · have hstored := hs.state_stored x (by rw [← stateAfter_isSome, hst]; rfl)
      rw [roomOf, heffect.kept x hstored] at hx
      exact h.grows lawful hs y r (hapart.states x r st hx hst y hy)

end

end SnapshotChange

/-! ### Requests -/

namespace Change

variable {pdus : List Pdu}

section

variable (lawful : rules.Lawful) (h : Change rules t pdus t') (hs : t.Sound rules)

include lawful h hs

theorem sound : t'.Sound rules := by
  cases h with
  | graph h =>
    cases h with
    | same => exact hs
    | mark => exact ⟨fun row hrow => ⟨(hs.row row hrow).hash, (hs.row row hrow).wire⟩, hs.groups,
        hs.state_stored, hs.tip_room⟩
    | live h => exact h.sound lawful hs
    | past h => exact (h.rooms lawful hs).1
  | snapshot h => exact h.sound lawful hs

theorem grows : t.Grows t' := by
  cases h with
  | graph h =>
    cases h with
    | same => exact fun _ _ h => h
    | mark => exact fun _ _ h => h
    | live h => exact h.grows
    | past h => exact (h.rooms lawful hs).2.1
  | snapshot h => exact h.grows lawful hs

/-- The row of a stored event is never written again. -/
theorem row_kept {x : String} (hx : t.row? x ≠ none) : t'.row? x = t.row? x := by
  cases h with
  | graph h =>
    cases h with
    | same => rfl
    | mark => rfl
    | live h => exact h.row?_of_ne fun heq => hx (heq ▸ h.fresh)
    | past h =>
      induction h with
      | nil => rfl
      | cons first more ih =>
        have hfirst := first.row?_of_stored hx
        rw [ih (first.sound lawful hs) (hfirst ▸ hx), hfirst]
  | snapshot h => exact (h.effect lawful hs).kept x hx

/-- The predecessors of an accepted event are stored. -/
theorem prev_stored : ∀ pdu ∈ pdus, ∀ p ∈ pdu.prevEvents, ∃ r, t'.roomOf p = some r := by
  cases h with
  | graph h =>
    cases h with
    | same => simp
    | mark => simp
    | live h =>
      refine List.forall_mem_singleton.2 fun p hp => ?_
      obtain ⟨r, hr⟩ := roomOf_ne_none (hs.state_stored p (h.prev_groupOf p hp))
      exact ⟨r, h.grows p r hr⟩
    | past h =>
      intro pdu hpdu
      obtain ⟨past, hpast, rfl⟩ := List.mem_map.1 hpdu
      exact ((h.rooms lawful hs).2.2.2 past hpast).2
  | snapshot => simp

/-- A room that a predecessor has only after the request is the room of the event. -/
theorem prev_room :
    ∀ pdu ∈ pdus, ∀ p ∈ pdu.prevEvents, ∀ r, t'.roomOf p = some r →
      t.roomOf p = some r ∨ r = pdu.roomId := by
  cases h with
  | graph h =>
    cases h with
    | same => simp
    | mark => simp
    | live h =>
      refine List.forall_mem_singleton.2 fun p hp r hr => ?_
      rw [h.roomOf_eq] at hr
      split_ifs at hr
      · exact .inr ((Option.some.inj hr).symm.trans h.roomId.symm)
      · exact .inl hr
    | past h =>
      intro pdu hpdu p hp r hr
      obtain ⟨past, hpast, rfl⟩ := List.mem_map.1 hpdu
      obtain ⟨-, -, hback, hroom⟩ := h.rooms lawful hs
      exact (hback p r hr).imp_right fun h => h.trans (hroom past hpast).1.symm
  | snapshot => simp

theorem apart (hapart : Apart rules t) (hcites : ∀ pdu ∈ pdus, CitesOwnRoom t pdu) :
    Apart rules t' := by
  cases h with
  | graph h =>
    cases h with
    | same => exact hapart
    | mark => exact ⟨hapart.auth, hapart.states⟩
    | live h => exact h.apart lawful hs hapart (List.forall_mem_singleton.1 hcites)
    | past h =>
      exact h.apart lawful hs hapart fun past hpast => hcites _ (List.mem_map_of_mem hpast)
  | snapshot h => exact h.apart lawful hs hapart

end

end Change

variable {cfg : Config} {fed : Federation}

/-- What isolation asks of a request: the predecessors of the accepted events are stored
in the room of the event, and afterwards the states stored after the events of a room
and the room's current state consist of events of the room. -/
def KeepsRoomsApart (cfg : Config) (fed : Federation) (db : Db) (op : Op) : Prop :=
  (∀ pdu ∈ accepted cfg fed db op, ∀ p ∈ pdu.prevEvents,
    (step cfg fed db op).dag.roomOf p = some pdu.roomId) ∧
  StatesInRoom (step cfg fed db op).dag ∧
  Dag.CurrentInRoom fed.rules (step cfg fed db op).dag

/-- The condition: no accepted event names a predecessor or an auth event that is stored in
another room. -/
def NamesOwnRoom (cfg : Config) (fed : Federation) (db : Db) (op : Op) : Prop :=
  ∀ pdu ∈ accepted cfg fed db op, CitesOwnRoom db.dag pdu

/-- Of the condition, the predecessors. -/
def PrevsOfRoom (cfg : Config) (fed : Federation) (db : Db) (op : Op) : Prop :=
  ∀ pdu ∈ accepted cfg fed db op, ∀ p ∈ pdu.prevEvents, ∀ room,
    db.dag.roomOf p = some room → room = pdu.roomId

theorem keepsRoomsApart_of_namesOwnRoom (lawful : fed.rules.Lawful) {db : Db} (op : Op)
    (hs : db.dag.Sound fed.rules) (hapart : Apart fed.rules db.dag)
    (h : NamesOwnRoom cfg fed db op) :
    KeepsRoomsApart cfg fed db op ∧ Apart fed.rules (step cfg fed db op).dag := by
  have hchange : Change fed.rules db.dag (accepted cfg fed db op) (step cfg fed db op).dag :=
    step_graph lawful op db
  have hafter := hchange.apart lawful hs hapart h
  refine ⟨⟨fun pdu hpdu p hp => ?_, hafter.states,
    hafter.currentInRoom lawful (hchange.sound lawful hs)⟩, hafter⟩
  obtain ⟨r, hr⟩ := hchange.prev_stored lawful hs pdu hpdu p hp
  rcases hchange.prev_room lawful hs pdu hpdu p hp r hr with hold | rfl
  · rw [hr, h pdu hpdu p (List.mem_append_left _ hp) r hold]
  · exact hr

theorem prevsOfRoom_of_keepsRoomsApart (lawful : fed.rules.Lawful) {db : Db} (op : Op)
    (hs : db.dag.Sound fed.rules) (h : KeepsRoomsApart cfg fed db op) :
    PrevsOfRoom cfg fed db op := by
  intro pdu hpdu p hp r hr
  have hafter : (step cfg fed db op).dag.roomOf p = some r :=
    (step_graph lawful op db).grows lawful hs p r hr
  rw [h.1 pdu hpdu p hp] at hafter
  exact (Option.some.inj hafter).symm

/-- Rooms are kept apart by every request of a run in which no accepted event names a predecessor
or an auth event of another room. Conversely, where they are kept apart no accepted event names a
predecessor of another room. -/
theorem rooms_kept_apart (lawful : fed.rules.Lawful) {db : Db} (hempty : db.dag = {})
    (ops : List Op) :
    (Trace.Meets (step cfg fed) (NamesOwnRoom cfg fed) db ops →
      Trace.Meets (step cfg fed) (KeepsRoomsApart cfg fed) db ops) ∧
    (Trace.Meets (step cfg fed) (KeepsRoomsApart cfg fed) db ops →
      Trace.Meets (step cfg fed) (PrevsOfRoom cfg fed) db ops) := by
  have hsound : db.dag.Sound fed.rules := hempty ▸ sound_empty
  have hstep (s : Db) (op : Op) (hs : s.dag.Sound fed.rules) :
      (step cfg fed s op).dag.Sound fed.rules := (step_graph lawful op s).sound lawful hs
  constructor
  · intro h
    refine h.of_invariant (fun s => s.dag.Sound fed.rules ∧ Apart fed.rules s.dag)
      (fun s op hnames hinv => ?_) ⟨hsound, hempty ▸ Dag.apart_empty⟩
    have hkept := keepsRoomsApart_of_namesOwnRoom lawful op hinv.1 hinv.2 hnames
    exact ⟨hkept.1, hstep s op hinv.1, hkept.2⟩
  · intro h
    exact h.of_invariant (fun s => s.dag.Sound fed.rules) (fun s op hkeeps hs =>
      ⟨prevsOfRoom_of_keepsRoomsApart lawful op hs hkeeps, hstep s op hs⟩) hsound

/-- Two rooms with one event each. -/
def twoRooms : List Op :=
  [.createRoom (simpleRoom "!q"), .localState "" "!q" 1 "m.room.create" "" "x" 0 "",
    .createRoom (simpleRoom "!r"), .localState "" "!r" 1 "m.room.create" "" "x" 0 ""]

/-- A peer's message to `!r` on top of the event of `!q`. -/
def crossRoomMessage : Op :=
  .receive none (peerEvent "!r" "@bob:b" "m.room.message" none "m" 2 ["$qx"]) [] ""

/-- The message is accepted into `!r` and brings the state of `!q` with it. -/
theorem not_rooms_kept_apart_crossRoomMessage :
    ¬ Trace.Meets (step simpleConfig simpleFederation)
      (KeepsRoomsApart simpleConfig simpleFederation)
      simpleDb (twoRooms ++ [crossRoomMessage]) := by
  have hlast : ∃ db, Trace.run (step simpleConfig simpleFederation) simpleDb twoRooms = db ∧
      (∃ pdu ∈ accepted simpleConfig simpleFederation db crossRoomMessage,
        "$qx" ∈ pdu.prevEvents ∧ pdu.roomId = "!r") ∧
      (step simpleConfig simpleFederation db crossRoomMessage).dag.roomOf "$qx" = some "!q" :=
    ⟨_, rfl, by decide +kernel⟩
  intro h
  obtain ⟨db, hdb, ⟨pdu, hpdu, hprev, hroom⟩, hq⟩ := hlast
  have hkeeps := (Trace.meets_append.1 h).2.1
  rw [hdb] at hkeeps
  have hr := hkeeps.1 pdu hpdu "$qx" hprev
  rw [hq, hroom] at hr
  exact absurd hr (by decide)

/-- A message on top of its own room's event is kept out of the other room. -/
theorem rooms_kept_apart_twoRooms :
    Trace.Meets (step simpleConfig simpleFederation) (KeepsRoomsApart simpleConfig simpleFederation)
      simpleDb (twoRooms ++ [.localMessage "" "!r" 1 "m.room.message" "a" 0]) := by
  refine (rooms_kept_apart Dag.simpleRules_lawful rfl _).1 ?_
  have hrooms : Trace.Meets (step simpleConfig simpleFederation) (fun db op =>
      ∀ pdu ∈ accepted simpleConfig simpleFederation db op,
        ∀ x ∈ pdu.prevEvents ++ pdu.authEvents, db.dag.roomOf x = some pdu.roomId)
      simpleDb (twoRooms ++ [.localMessage "" "!r" 1 "m.room.message" "a" 0]) := by
    decide +kernel
  refine hrooms.mono fun db op h pdu hpdu x hx room hroom => ?_
  exact Option.some.inj (hroom.symm.trans (h pdu hpdu x hx))

end Server.F3
