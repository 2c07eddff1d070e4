import Mail4Agent.Dag.Current
import Mail4Agent.Server.F3Rooms

/-!
# Links between stored events

What every request keeps, snapshots included: event ids are a key of the stored events, the
events a stored event cites as its auth events are stored, in its room unless it is a create
event, and the states after stored events consist of stored events.
-/

namespace Server.F3

open Dag.Tables
open Dag (EventRow Historic HistoricChange LiveChange Pdu StateMap Tables)

structure Linked (t : Tables) : Prop where
  ids : (t.events.map EventRow.eventId).Nodup
  auth : ∀ x a, (x, a) ∈ t.auth → ∃ row, t.row? x = some row ∧ ∃ room, t.roomOf a = some room ∧
    (row.eventType ≠ "m.room.create" → room = row.roomId)
  states : ∀ x state, t.stateAfter x = some state → ∀ id ∈ state.ids, t.row? id ≠ none

variable {rules : Dag.Rules} {roomId : String} {t t' : Tables}

theorem linked_empty : Linked {} :=
  ⟨by simp, by simp, fun _ _ h => by simp [stateAfter, groupOf] at h⟩

theorem row?_of_mem {row : EventRow} (hids : (t.events.map EventRow.eventId).Nodup)
    (hrow : row ∈ t.events) : t.row? row.eventId = some row := by
  cases hfind : t.row? row.eventId with
  | none => exact absurd hfind (row?_ne_none_of_mem hrow)
  | some found =>
    obtain ⟨hmem, hid⟩ := row?_eq_some hfind
    rw [List.inj_on_of_nodup_map hids hmem hrow hid]

theorem nodup_cons_row {row : EventRow} (hids : (t.events.map EventRow.eventId).Nodup)
    (hfresh : t.row? row.eventId = none) : ((row :: t.events).map EventRow.eventId).Nodup := by
  refine List.nodup_cons.2 ⟨fun hmem => ?_, hids⟩
  obtain ⟨other, hother, hsame⟩ := List.mem_map.1 hmem
  exact row?_ne_none_of_mem hother (hsame ▸ hfresh)

theorem mem_auth_addEdges {pdu : Pdu} {x a : String} :
    (x, a) ∈ (t.addEdges pdu).auth ↔ (x, a) ∈ t.auth ∨ (x = pdu.eventId ∧ a ∈ pdu.authEvents) := by
  simp only [addEdges, List.mem_union_iff, List.mem_map, Prod.mk.injEq]
  constructor
  · rintro (⟨b, hb, rfl, rfl⟩ | h)
    · exact .inr ⟨rfl, hb⟩
    · exact .inl h
  · rintro (h | ⟨rfl, ha⟩)
    · exact .inr h
    · exact .inl ⟨a, ha, rfl, rfl⟩

/-- Links stay as they are when the new ones lead to stored events. -/
theorem Linked.add {pdu : Pdu} (h : Linked t) (hgrows : t.Grows t')
    (hkept : ∀ x, t.row? x ≠ none → t'.row? x = t.row? x)
    (hclosed : t'.Closed rules) (hids : (t'.events.map EventRow.eventId).Nodup)
    (hauth : t'.auth = (t.addEdges pdu).auth)
    (hown : ∃ row, t'.row? pdu.eventId = some row ∧ ∀ a ∈ pdu.authEvents, ∃ room,
      t'.roomOf a = some room ∧ (row.eventType ≠ "m.room.create" → room = row.roomId)) :
    Linked t' := by
  refine ⟨hids, fun x a hxa => ?_, hclosed.states⟩
  rw [hauth, mem_auth_addEdges] at hxa
  rcases hxa with hxa | ⟨rfl, ha⟩
  · obtain ⟨row, hrow, room, hroom, hsame⟩ := h.auth x a hxa
    exact ⟨row, (hkept x (by simp [hrow])).trans hrow, room, hgrows a room hroom, hsame⟩
  · obtain ⟨row, hrow, hcited⟩ := hown
    exact ⟨row, hrow, hcited a ha⟩

/-- The row that is found under the id of a document cites what the document cites. -/
theorem cited_of_hash (lawful : rules.Lawful) (hs : t.Sound rules) {pdu : Pdu} {json : Json}
    (hash : Dag.computeEventId rules json = .ok pdu.eventId)
    (hwire : Pdu.fromWire rules pdu.eventId json = .ok pdu) (hrow : t.row? pdu.eventId ≠ none) :
    ∃ row, t.row? pdu.eventId = some row ∧ ∀ a ∈ pdu.authEvents, ∃ room,
      t.roomOf a = some room ∧ (row.eventType ≠ "m.room.create" → room = row.roomId) := by
  obtain ⟨row, hrow⟩ := Option.ne_none_iff_exists'.1 hrow
  obtain ⟨hmem, hid⟩ := row?_eq_some hrow
  obtain ⟨stored, hstored, hroom, hkind, hcites⟩ := (hs.row row hmem).wire
  have hsame : pdu.authEvents = stored.authEvents :=
    Dag.authEvents_of_hash lawful hash (hid ▸ (hs.row row hmem).hash) hwire (hid ▸ hstored)
  refine ⟨row, hrow, fun a ha => ?_⟩
  obtain ⟨room, ha, hown⟩ := hcites a (hsame ▸ ha)
  exact ⟨room, ha, fun hcreate => (hown (hkind ▸ hcreate)).trans hroom⟩

theorem Linked.live (lawful : rules.Lawful) {acc : Dag.Accepted}
    (hchange : LiveChange rules roomId t acc t') (hc : t.Closed rules) (h : Linked t) :
    Linked t' := by
  obtain ⟨json, hspec⟩ := hchange.accepted
  have hclosed := hchange.closed lawful hc
  obtain ⟨skeleton, hrow⟩ := hchange.row?_new
  refine h.add hchange.grows (fun x hx => hchange.row_kept hx) hclosed ?_ ?_
    (cited_of_hash lawful hclosed.sound hchange.hash (hspec.json ▸ hspec.wire) (by simp [hrow]))
  · obtain ⟨skeleton, hevents⟩ := hchange.events_eq
    rw [hevents]
    exact nodup_cons_row h.ids hchange.fresh
  · obtain ⟨skeleton, stored, rfl, rfl⟩ := hchange.written
    split <;> simp [withEvent, setExtremities, addEdges, addRow]

theorem Linked.historic (lawful : rules.Lawful) {past : Historic}
    (hchange : HistoricChange rules roomId t past t') (hc : t.Closed rules) (h : Linked t) :
    Linked t' := by
  have hclosed := hchange.closed lawful hc
  refine h.add (hchange.grows lawful hc.sound) (fun x hx => hchange.row?_of_stored hx) hclosed
    ?_ ?_ (cited_of_hash lawful hclosed.sound hchange.hash hchange.wire fun hnone => ?_)
  · rw [hchange.events_eq]
    split_ifs with hstored
    · exact h.ids
    · exact nodup_cons_row h.ids (Option.not_isSome_iff_eq_none.1 hstored)
  · rw [hchange.written]
    simp only [storeHistoric, setEventState, newGroup, addEdges,
      addRow]
    split <;> rfl
  · have hroom := hchange.roomOf_eq lawful hc.sound past.pdu.eventId
    simp [roomOf, hnone] at hroom

/-! ### Snapshots -/

/-- The rows and links that the outliers of a snapshot add. -/
theorem Outliers.links {pdus : List Pdu} (h : Outliers rules roomId t pdus t')
    (hids : (t.events.map EventRow.eventId).Nodup) :
    t'.rooms = t.rooms ∧ (t'.events.map EventRow.eventId).Nodup ∧
      ∀ x a, (x, a) ∈ t'.auth →
        (x, a) ∈ t.auth ∨ ∃ pdu ∈ pdus, x = pdu.eventId ∧ a ∈ pdu.authEvents := by
  induction h with
  | nil t => exact ⟨rfl, hids, fun _ _ h => .inl h⟩
  | @cons t t' pdu json rest wire hash room more ih =>
    have hstored : (t.storeOutlier roomId pdu json).rooms = t.rooms ∧
        ((t.storeOutlier roomId pdu json).events.map EventRow.eventId).Nodup ∧
        ∀ x a, (x, a) ∈ (t.storeOutlier roomId pdu json).auth →
          (x, a) ∈ t.auth ∨ (x = pdu.eventId ∧ a ∈ pdu.authEvents) := by
      unfold storeOutlier
      split_ifs with hknown
      · exact ⟨rfl, hids, fun _ _ h => .inl h⟩
      · exact ⟨rfl, nodup_cons_row hids (Option.not_isSome_iff_eq_none.1 hknown),
          fun x a h => mem_auth_addEdges.1 h⟩
    obtain ⟨hrooms, hnodup, hauth⟩ := ih hstored.2.1
    refine ⟨hrooms.trans hstored.1, hnodup, fun x a hxa => ?_⟩
    rcases hauth x a hxa with hxa | ⟨other, hother, hedge⟩
    · exact (hstored.2.2 x a hxa).imp_right fun hedge => ⟨pdu, List.mem_cons_self, hedge⟩
    · exact .inr ⟨other, List.mem_cons_of_mem _ hother, hedge⟩

theorem snapshotTables_links (mid : Tables) (state : StateMap) (ids : List String) :
    (snapshotTables mid roomId state ids).rooms = mid.rooms ∧
      (snapshotTables mid roomId state ids).events = mid.events ∧
      (snapshotTables mid roomId state ids).auth = mid.auth := by
  obtain ⟨eventState, hfold, -⟩ :=
    foldl_setEventState ids mid.stateGroups.length (mid.newGroup state)
  have htables : snapshotTables mid roomId state ids =
      ({ mid.newGroup state with eventState := eventState } : Tables).setExtremities roomId ids :=
    congrArg (fun dag => setExtremities dag roomId ids) hfold
  rw [htables]
  exact ⟨rfl, rfl, rfl⟩

namespace SnapshotChange

variable {pdus : List Pdu} {state : StateMap} {ids : List String}

theorem closed (lawful : rules.Lawful) (h : SnapshotChange rules roomId t t' pdus state ids)
    (hc : t.Closed rules) (hlinked : Linked t) : t'.Closed rules := by
  have heffect := h.effect lawful hc.sound
  have hkeep {x : String} (hx : t.row? x ≠ none) : t'.row? x ≠ none := (heffect.kept x hx).symm ▸ hx
  have hrooms : t'.rooms = (t.markRoom roomId).rooms := by
    obtain ⟨mid, hout, rfl⟩ := h.outliers
    rw [(snapshotTables_links mid state ids).1, (hout.links hlinked.ids).1]
  have hmarked (r : String) (hr : r = roomId ∨ t.isF3Room r = true) : t'.isF3Room r = true := by
    simpa [isF3Room, hrooms, markRoom] using hr
  refine ⟨h.sound lawful hc.sound, fun x st hst id hid => ?_, fun r x hx => ?_, fun r x hx => ?_⟩
  · rw [heffect.stateAfter] at hst
    split_ifs at hst
    · cases hst
      exact Dag.Tables.row?_ne_none_of_roomOf (h.mem_room lawful hc.sound (h.state_mem id hid))
    · exact hkeep (hc.states x st hst id hid)
  · rw [← stateAfter_isSome, heffect.stateAfter]
    rcases (heffect.extremities r x).1 hx with ⟨-, hids⟩ | ⟨-, hold⟩
    · rw [if_pos hids]
      rfl
    · split_ifs
      · rfl
      · rw [stateAfter_isSome]
        exact hc.tips r x hold
  · rcases (heffect.extremities r x).1 hx with ⟨rfl, -⟩ | ⟨-, hold⟩
    · exact hmarked r (.inl rfl)
    · exact hmarked r (.inr (hc.marked r x hold))

theorem linked (lawful : rules.Lawful) (h : SnapshotChange rules roomId t t' pdus state ids)
    (hc : t.Closed rules) (hlinked : Linked t) : Linked t' := by
  have hs := hc.sound
  have hgrows := h.grows lawful hs
  have hroom {x : String} (hx : x ∈ pdus.map Pdu.eventId) : t'.roomOf x = some roomId :=
    h.mem_room lawful hs hx
  have hclosed := h.closed lawful hc hlinked
  have hcited := h.auth_mem
  have hkept := (h.effect lawful hs).kept
  obtain ⟨mid, hout, rfl⟩ := h.outliers
  obtain ⟨-, hids, hauth⟩ := hout.links hlinked.ids
  obtain ⟨-, hevents, hsame⟩ := snapshotTables_links mid state ids
  refine ⟨hevents ▸ hids, fun x a hxa => ?_, hclosed.states⟩
  rcases hauth x a (hsame ▸ hxa) with hold | ⟨pdu, hpdu, rfl, ha⟩
  · obtain ⟨row, hrow, room, ha, hown⟩ := hlinked.auth x a hold
    exact ⟨row, (hkept x (by simp [hrow])).trans hrow, room, hgrows a room ha, hown⟩
  · obtain ⟨row, hrow, hin⟩ := Option.map_eq_some_iff.1 (hroom (List.mem_map_of_mem hpdu))
    exact ⟨row, hrow, roomId, hroom (hcited pdu hpdu a ha), fun _ => hin.symm⟩

end SnapshotChange

/-! ### Requests -/

theorem closed_mark (hc : t.Closed rules) : (t.markRoom roomId).Closed rules := by
  have hs := hc.sound
  refine ⟨⟨fun row hrow => ⟨(hs.row row hrow).hash, (hs.row row hrow).wire⟩, hs.groups,
    hs.state_stored, hs.tip_room⟩, hc.states, hc.tips, fun r x hx => ?_⟩
  have hmarked := hc.marked r x hx
  simp only [isF3Room, decide_eq_true_eq] at hmarked
  simp [isF3Room, markRoom, hmarked]

theorem Change.linked (lawful : rules.Lawful) {pdus : List Pdu} (h : Change rules t pdus t')
    (hc : t.Closed rules) (hlinked : Linked t) : t'.Closed rules ∧ Linked t' := by
  cases h with
  | graph h =>
    cases h with
    | same => exact ⟨hc, hlinked⟩
    | mark => exact ⟨closed_mark hc, hlinked.ids, hlinked.auth, hlinked.states⟩
    | live h => exact ⟨h.closed lawful hc, hlinked.live lawful h hc⟩
    | past h =>
      induction h with
      | nil => exact ⟨hc, hlinked⟩
      | cons first more ih => exact ih (first.closed lawful hc) (hlinked.historic lawful first hc)
  | snapshot h => exact ⟨h.closed lawful hc hlinked, h.linked lawful hc hlinked⟩

/-- The links hold in every state that requests lead to. -/
theorem linked_run {cfg : Config} {fed : Federation} (lawful : fed.rules.Lawful) {db : Db}
    (hc : db.dag.Closed fed.rules) (hlinked : Linked db.dag) (ops : List Op) :
    (Trace.run (step cfg fed) db ops).dag.Closed fed.rules ∧
      Linked (Trace.run (step cfg fed) db ops).dag :=
  Trace.run_invariant (fun db => db.dag.Closed fed.rules ∧ Linked db.dag)
    (fun db op h => (step_graph lawful op db).linked lawful h.1 h.2) ⟨hc, hlinked⟩ ops

/-- In every run from empty tables, whatever peers send: a stored event is the one its id names,
once; its auth events are stored, in its room unless it is a create event; extremities have a state
and lie in their room; and stored states consist of stored events. -/
theorem links_hold {cfg : Config} {fed : Federation} (lawful : fed.rules.Lawful) {db : Db}
    (hempty : db.dag = {}) (ops : List Op) :
    (Trace.run (step cfg fed) db ops).dag.Closed fed.rules ∧
      Linked (Trace.run (step cfg fed) db ops).dag :=
  linked_run lawful (hempty ▸ Dag.Tables.closed_empty) (hempty ▸ linked_empty) ops

/-- A message on top of another room's event brings no foreign auth event. -/
theorem links_hold_crossRoomMessage :
    Linked (Trace.run (step simpleConfig simpleFederation) simpleDb
      (twoRooms ++ [crossRoomMessage])).dag :=
  (links_hold Dag.simpleRules_lawful rfl _).2

end Server.F3
