import Mail4Agent.Dag.Change
import Mail4Agent.Dag.Resolution

/-!
# Rooms do not mix

`Sound` is what the graph tables satisfy whatever is requested: a stored event is the
event its id names, its auth events are stored, in its room unless it is a create event,
and extremities are events of their room. The predecessors are another matter: they are
looked up by id alone, and no check compares their room. As long as no accepted event
names a predecessor or an auth event of another room, the states stored after a room's
events and the room's current state consist of events of the room.
-/

namespace Dag

variable {rules : Rules} {room other : String} {t t' : Tables} {x : String}

/-- Two documents with one id are of one room. -/
theorem room_of_hash (lawful : rules.Lawful) {json json' : Json} {id : String} {pdu pdu' : Pdu}
    (h : computeEventId rules json = .ok id) (h' : computeEventId rules json' = .ok id)
    (hwire : Pdu.fromWire rules id json = .ok pdu)
    (hwire' : Pdu.fromWire rules id json' = .ok pdu') : pdu.roomId = pdu'.roomId := by
  have hroom := (Pdu.reads_of_fromWire hwire).roomId
  have hroom' := (Pdu.reads_of_fromWire hwire').roomId
  rw [computeEventId_get? lawful h h' "room_id" (by simp)] at hroom
  exact Option.some.inj (hroom.symm.trans hroom')

namespace Tables

/-- Events stay in the room they are stored in. -/
def Grows (t t' : Tables) : Prop := ∀ x room, t.roomOf x = some room → t'.roomOf x = some room

/-- The auth events are stored, in the room of the event unless it is a create event. -/
def CitesStored (t : Tables) (pdu : Pdu) : Prop :=
  ∀ a ∈ pdu.authEvents, ∃ room, t.roomOf a = some room ∧
    (pdu.kind ≠ "m.room.create" → room = pdu.roomId)

/-- A stored event is the one its id names, and its auth events are stored. -/
structure RowSound (rules : Rules) (t : Tables) (row : EventRow) : Prop where
  hash : computeEventId rules row.pdu = .ok row.eventId
  wire : ∃ pdu, Pdu.fromWire rules row.eventId row.pdu = .ok pdu ∧ pdu.roomId = row.roomId ∧
    pdu.kind = row.eventType ∧ CitesStored t pdu

structure Sound (rules : Rules) (t : Tables) : Prop where
  row : ∀ row ∈ t.events, RowSound rules t row
  groups : t.GroupsExist
  state_stored : ∀ x, (t.groupOf x).isSome → t.row? x ≠ none
  tip_room : ∀ room x, (room, x) ∈ t.extremities → t.roomOf x = some room

theorem sound_empty : Sound rules {} :=
  ⟨by simp, fun _ => by simp, fun _ => by simp [groupOf], fun _ _ => by simp⟩

theorem CitesStored.mono (hgrows : Grows t t') {pdu : Pdu} (h : CitesStored t pdu) :
    CitesStored t' pdu := by
  intro a ha
  obtain ⟨room, hroom, hown⟩ := h a ha
  exact ⟨room, hgrows a room hroom, hown⟩

theorem RowSound.mono (hgrows : Grows t t') {row : EventRow} (h : RowSound rules t row) :
    RowSound rules t' row := by
  obtain ⟨pdu, hwire, hroom, hkind, hauth⟩ := h.wire
  exact ⟨h.hash, pdu, hwire, hroom, hkind, hauth.mono hgrows⟩

theorem roomOf_ne_none : t.row? x ≠ none → ∃ room, t.roomOf x = some room := by
  intro h
  obtain ⟨row, hrow⟩ := Option.ne_none_iff_exists'.1 h
  exact ⟨row.roomId, by simp [roomOf, hrow]⟩

theorem row_of_roomOf (h : t.roomOf x = some room) :
    ∃ row ∈ t.events, row.eventId = x ∧ row.roomId = room := by
  obtain ⟨row, hrow, rfl⟩ := Option.map_eq_some_iff.1 h
  obtain ⟨hmem, hid⟩ := row?_eq_some hrow
  exact ⟨row, hmem, hid, rfl⟩

namespace Sound

variable (lawful : rules.Lawful) (hs : t.Sound rules)

include lawful hs

/-- The room of an id is the room of any document with that id. -/
theorem roomOf_eq {json : Json} {pdu : Pdu}
    (hash : computeEventId rules json = .ok pdu.eventId)
    (hwire : Pdu.fromWire rules pdu.eventId json = .ok pdu)
    (h : t.roomOf pdu.eventId = some room) : room = pdu.roomId := by
  obtain ⟨row, hrow, hid, rfl⟩ := row_of_roomOf h
  obtain ⟨pdu', hwire', hroom, -⟩ := (hs.row row hrow).wire
  rw [← hroom]
  refine room_of_hash lawful (hid ▸ (hs.row row hrow).hash) hash ?_ hwire
  rw [← hid]
  exact hwire'

theorem pdu_mem {pdu : Pdu} (h : pdu ∈ t.pdus rules) :
    t.roomOf pdu.eventId = some pdu.roomId ∧ CitesStored t pdu := by
  obtain ⟨row, hrow, hpdu⟩ := List.mem_filterMap.1 h
  obtain ⟨pdu', hwire, -, -, hauth⟩ := (hs.row row hrow).wire
  have heq : pdu' = pdu := by simpa [hwire, Except.toOption] using hpdu
  subst heq
  have hid := (Pdu.reads_of_fromWire hwire).eventId
  refine ⟨?_, hauth⟩
  obtain ⟨found, hfound⟩ := roomOf_ne_none (row?_ne_none_of_mem hrow)
  rw [hid, hfound]
  rw [← hid] at hfound hwire
  exact congrArg some (hs.roomOf_eq lawful (hid ▸ (hs.row row hrow).hash) hwire hfound)

omit lawful in
/-- A stored event can be read back from its row. -/
theorem pdu_conn (x : String) : (t.conn rules other).pdu x =
    (t.row? x).bind fun row => (Pdu.fromWire rules row.eventId row.pdu).toOption := by
  simp only [DagRead.pdu, Tables.conn, Tables.pdus, List.find?_filterMap, Tables.row?]
  congr 1
  refine List.find?_congr fun row hrow => ?_
  obtain ⟨pdu, hwire, -⟩ := (hs.row row hrow).wire
  simp [hwire, Except.toOption, (Pdu.reads_of_fromWire hwire).eventId]

/-- The auth events of an accepted event are stored once the event is. -/
theorem past_auth {pdu : Pdu} {state before : StateMap}
    (h : PastSpec rules (t.conn rules other) pdu state before) (hgrows : Grows t t')
    (hnew : t'.roomOf pdu.eventId = some pdu.roomId) : CitesStored t' pdu := by
  intro a ha
  by_cases hown : a = pdu.eventId
  · exact ⟨pdu.roomId, hown ▸ hnew, fun _ => rfl⟩
  obtain ⟨auth, hauth⟩ := Option.ne_none_iff_exists'.1 (h.authKnown a ha)
  obtain ⟨hmem, rfl⟩ := DagRead.pdu_eq_some hauth
  refine ⟨auth.roomId, hgrows _ _ (hs.pdu_mem lawful hmem).1, fun hcreate => ?_⟩
  exact lawful.independent_room h.independent hcreate _ ha auth (by
    rw [DagRead.pdu_withNew, if_neg (Ne.symm hown), hauth])

end Sound

/-- Sound tables stay sound when the new rows are. -/
theorem Sound.add (hs : t.Sound rules) (hgrows : Grows t t')
    (rows : ∀ row ∈ t'.events, row ∈ t.events ∨ RowSound rules t' row) (groups : t'.GroupsExist)
    (states : ∀ x, (t'.groupOf x).isSome → (t.groupOf x).isSome ∨ t'.row? x ≠ none)
    (tips : ∀ room x, (room, x) ∈ t'.extremities →
      (room, x) ∈ t.extremities ∨ t'.roomOf x = some room) : t'.Sound rules where
  row row hrow := (rows row hrow).elim (fun h => (hs.row row h).mono hgrows) id
  groups := groups
  state_stored x hx := by
    refine (states x hx).elim (fun h => ?_) id
    obtain ⟨room, hroom⟩ := roomOf_ne_none (hs.state_stored x h)
    intro hnone
    simpa [roomOf, hnone] using hgrows x room hroom
  tip_room room x hx := (tips room x hx).elim (fun h => hgrows x room (hs.tip_room room x h)) id

end Tables

/-! ### Accepted events -/

section Live

variable {acc : Accepted}

theorem LiveChange.roomOf_eq (h : LiveChange rules room t acc t') (x : String) :
    t'.roomOf x = if acc.pdu.eventId = x then some room else t.roomOf x := by
  unfold Tables.roomOf
  split_ifs with hx
  · obtain ⟨skeleton, hnew⟩ := h.row?_new
    rw [← hx, hnew]
    rfl
  · rw [h.row?_of_ne hx]

theorem LiveChange.grows (h : LiveChange rules room t acc t') : t.Grows t' := by
  intro x r hx
  rw [h.roomOf_eq, if_neg fun heq => ?_, hx]
  simp [Tables.roomOf, ← heq, h.fresh] at hx

theorem LiveChange.sound (lawful : rules.Lawful) (h : LiveChange rules room t acc t')
    (hs : t.Sound rules) : t'.Sound rules := by
  obtain ⟨json, hspec⟩ := h.accepted
  obtain ⟨before, hpast⟩ := hspec.past
  obtain ⟨skeleton, hevents⟩ := h.events_eq
  have hnew : t'.roomOf acc.pdu.eventId = some room := by rw [h.roomOf_eq, if_pos rfl]
  refine hs.add h.grows (fun row hrow => ?_) (h.groupsExist hs.groups) (fun x hx => ?_)
    fun r x hx => ?_
  · rw [hevents] at hrow
    rcases List.mem_cons.1 hrow with rfl | hrow
    · exact .inr ⟨h.hash, acc.pdu, hspec.json ▸ hspec.wire, h.roomId, rfl,
        hs.past_auth lawful hpast h.grows (h.roomId ▸ hnew)⟩
    · exact .inl hrow
  · rcases (h.groupOf_isSome x).1 hx with rfl | hx
    · obtain ⟨skeleton, hrow⟩ := h.row?_new
      exact .inr (by rw [hrow]; exact Option.some_ne_none _)
    · exact .inl hx
  · rcases h.mem_extremities hx with hx | ⟨rfl, rfl⟩
    · exact .inl hx
    · exact .inr hnew

end Live

section Past

variable {past : Historic}

theorem HistoricChange.roomOf_eq (lawful : rules.Lawful)
    (h : HistoricChange rules room t past t') (hs : t.Sound rules) (x : String) :
    t'.roomOf x = if past.pdu.eventId = x then some room else t.roomOf x := by
  split_ifs with hx
  · subst hx
    cases hrow : t.row? past.pdu.eventId with
    | none =>
      rw [Tables.roomOf, h.row?_new hrow]
      rfl
    | some row =>
      have hsame : t'.row? past.pdu.eventId = some row := by
        rw [Tables.row?, h.events_eq, hrow]
        exact hrow
      have hroom := hs.roomOf_eq lawful h.hash h.wire (by rw [Tables.roomOf, hrow]; rfl)
      rw [Tables.roomOf, hsame, Option.map_some, hroom, h.roomId]
  · rw [Tables.roomOf, h.row?_of_ne hx]
    rfl

theorem HistoricChange.grows (lawful : rules.Lawful) (h : HistoricChange rules room t past t')
    (hs : t.Sound rules) : t.Grows t' := by
  intro x r hx
  rw [h.roomOf_eq lawful hs]
  split_ifs with heq
  · subst heq
    rw [hs.roomOf_eq lawful h.hash h.wire hx, h.roomId]
  · exact hx

theorem HistoricChange.sound (lawful : rules.Lawful) (h : HistoricChange rules room t past t')
    (hs : t.Sound rules) : t'.Sound rules := by
  obtain ⟨before, hpast⟩ := h.past
  have hgrows := h.grows lawful hs
  have hnew : t'.roomOf past.pdu.eventId = some room := by rw [h.roomOf_eq lawful hs, if_pos rfl]
  refine hs.add hgrows (fun row hrow => ?_) (h.groupsExist hs.groups) (fun x hx => ?_)
    fun r x hx => .inl (h.extremities_eq ▸ hx)
  · rw [h.events_eq] at hrow
    split_ifs at hrow
    · exact .inl hrow
    · rcases List.mem_cons.1 hrow with rfl | hrow
      · exact .inr ⟨h.hash, past.pdu, h.wire, h.roomId, rfl,
          hs.past_auth lawful hpast hgrows (h.roomId ▸ hnew)⟩
      · exact .inl hrow
  · rw [h.groupOf_eq] at hx
    split_ifs at hx with heq
    · refine .inr fun hnone => ?_
      subst heq
      simp [Tables.roomOf, hnone] at hnew
    · exact .inl hx

end Past

/-! ### States -/

/-- The states stored after the events of a room consist of events of the room. -/
def StatesInRoom (t : Tables) : Prop :=
  ∀ x room state, t.roomOf x = some room → t.stateAfter x = some state →
    ∀ id ∈ state.ids, t.roomOf id = some room

/-- So does the room's current state. -/
def CurrentInRoom (rules : Rules) (t : Tables) : Prop :=
  ∀ room state, currentState rules (t.conn rules room) = .ok state →
    ∀ id ∈ state.ids, t.roomOf id = some room

/-- The predecessors and auth events that an event names are not stored in another room. -/
def CitesOwnRoom (t : Tables) (pdu : Pdu) : Prop :=
  ∀ x ∈ pdu.prevEvents ++ pdu.authEvents, ∀ room, t.roomOf x = some room → room = pdu.roomId

/-- Auth events and states stay in the rooms of their events. -/
structure Apart (rules : Rules) (t : Tables) : Prop where
  auth : ∀ pdu ∈ t.pdus rules, ∀ a ∈ pdu.authEvents, t.roomOf a = some pdu.roomId
  states : StatesInRoom t

theorem apart_empty : Apart rules {} := by
  refine ⟨by simp [Tables.pdus], fun x room state h => ?_⟩
  simp [Tables.roomOf, Tables.row?] at h

section Rooms

variable (lawful : rules.Lawful) (hs : t.Sound rules) (h : Apart rules t)

include lawful hs h

/-- The auth chain of an event stays in its room. -/
theorem Apart.authClosed : (t.conn rules other).AuthClosed fun x => t.roomOf x = some room := by
  intro pdu hpdu hroom a ha
  rw [h.auth pdu hpdu a ha, ← (hs.pdu_mem lawful hpdu).1, hroom]

theorem Apart.currentInRoom : CurrentInRoom rules t := by
  intro room state hcurrent
  refine resolveOver_region lawful (h.authClosed lawful hs) (fun id hid fork hfork => ?_) hcurrent
  exact h.states id room fork (hs.tip_room room id (Tables.mem_extremityIds.1 hid))
    (forkOf_none_ok.1 hfork)

/-- The state after an accepted event consists of the event and events of its room. -/
theorem Apart.past_state {pdu : Pdu} {state before : StateMap}
    (hpast : PastSpec rules (t.conn rules room) pdu state before) (hcites : CitesOwnRoom t pdu) :
    ∀ id ∈ state.ids, id = pdu.eventId ∨ t.roomOf id = some pdu.roomId := by
  have hbefore : ∀ id ∈ before.ids, t.roomOf id = some pdu.roomId := by
    refine resolveOver_region lawful (h.authClosed lawful hs) (fun p hp fork hfork => ?_)
      hpast.resolved
    obtain ⟨r, hr⟩ := Tables.roomOf_ne_none (hs.state_stored p (hpast.prev_groupOf p hp))
    exact h.states p _ fork (hcites p (List.mem_append_left _ hp) r hr ▸ hr)
      (forkOf_none_ok.1 hfork)
  intro id hid
  rw [hpast.after] at hid
  exact (Pdu.ids_applyTo hid).imp_right (hbefore id)

omit hs in
/-- Adding an event that names events of its room, with a state of the room. -/
theorem Apart.add (hs' : t'.Sound rules) (hgrows : t.Grows t') {pdu : Pdu} {state : StateMap}
    (hpdus : ∀ p ∈ t'.pdus rules, p ∈ t.pdus rules ∨ p = pdu)
    (hroom : ∀ x, t'.roomOf x = if pdu.eventId = x then some pdu.roomId else t.roomOf x)
    (hstate : ∀ x, t'.stateAfter x = if pdu.eventId = x then some state else t.stateAfter x)
    (hids : ∀ x ∈ state.ids, x = pdu.eventId ∨ t.roomOf x = some pdu.roomId)
    (hcites : CitesOwnRoom t pdu) : Apart rules t' := by
  refine ⟨fun p hp a ha => ?_, fun x r st hx hst y hy => ?_⟩
  · rcases hpdus p hp with hold | rfl
    · exact hgrows a _ (h.auth p hold a ha)
    · obtain ⟨r, hr, -⟩ := (hs'.pdu_mem lawful hp).2 a ha
      rw [hr]
      rw [hroom] at hr
      split_ifs at hr
      · exact hr.symm
      · rw [hcites a (List.mem_append_right _ ha) r hr]
  · rw [hroom] at hx
    rw [hstate] at hst
    split_ifs at hx hst with heq
    · cases hx
      cases hst
      rcases hids y hy with rfl | hy
      · rw [hroom, if_pos rfl]
      · exact hgrows y _ hy
    · exact hgrows y r (h.states x r st hx hst y hy)

theorem LiveChange.apart {acc : Accepted} (hchange : LiveChange rules room t acc t')
    (hcites : CitesOwnRoom t acc.pdu) : Apart rules t' := by
  obtain ⟨json, hspec⟩ := hchange.accepted
  obtain ⟨before, hpast⟩ := hspec.past
  refine h.add lawful (hchange.sound lawful hs) hchange.grows (fun p hp => ?_)
    (hchange.roomId ▸ hchange.roomOf_eq) (hchange.stateAfter_eq hs.groups)
    (h.past_state lawful hs hpast hcites) hcites
  rw [hchange.pdus_eq] at hp
  exact (List.mem_cons.1 hp).symm

theorem HistoricChange.apart {past : Historic} (hchange : HistoricChange rules room t past t')
    (hcites : CitesOwnRoom t past.pdu) : Apart rules t' := by
  obtain ⟨before, hpast⟩ := hchange.past
  refine h.add lawful (hchange.sound lawful hs) (hchange.grows lawful hs) (fun p hp => ?_)
    (hchange.roomId ▸ hchange.roomOf_eq lawful hs) (hchange.stateAfter_eq hs.groups)
    (h.past_state lawful hs hpast hcites) hcites
  rw [Tables.pdus, hchange.events_eq] at hp
  split_ifs at hp
  · exact .inl hp
  · obtain ⟨row, hrow, hread⟩ := List.mem_filterMap.1 hp
    rcases List.mem_cons.1 hrow with rfl | hrow
    · have hwire : Pdu.fromWire rules past.pdu.eventId past.json = .ok past.pdu := hchange.wire
      simp only [Tables.eventRow, hwire, Except.toOption, Option.some.injEq] at hread
      exact .inr hread.symm
    · exact .inl (List.mem_filterMap.2 ⟨row, hrow, hread⟩)

end Rooms

end Dag
