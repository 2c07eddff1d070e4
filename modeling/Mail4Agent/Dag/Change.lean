import Mail4Agent.Dag.Accept

/-!
# What an accepted event changes

`LiveChange` and `HistoricChange` relate the tables before and after an accepted event
has been written. The lemmas say what they do to each thing the other modules look at:
the row of an id, edges, extremities, the events that can be read back, and the state
after an event.
-/

namespace Dag

open Tables

variable {rules : Rules} {room id : String} {json : Json}

namespace Tables

variable {t t' : Tables}

/-- The room an event is stored in. -/
def roomOf (t : Tables) (id : String) : Option String := (t.row? id).map EventRow.roomId

def Edge (t : Tables) (a b : String) : Prop := (a, b) ∈ t.edges

/-- Every state an event points to exists. -/
def GroupsExist (t : Tables) : Prop := ∀ entry ∈ t.eventState, entry.2 < t.stateGroups.length

theorem row?_eq_some {row : EventRow} (h : t.row? id = some row) :
    row ∈ t.events ∧ row.eventId = id :=
  ⟨List.mem_of_find?_eq_some h, by simpa using List.find?_some h⟩

theorem row?_ne_none_of_mem {row : EventRow} (h : row ∈ t.events) : t.row? row.eventId ≠ none := by
  simp only [row?, ne_eq, List.find?_eq_none, not_forall]
  exact ⟨row, h, by simp⟩

theorem row?_addRow (row : EventRow) (x : String) :
    (t.addRow row).row? x = if row.eventId = x then some row else t.row? x := by
  simp only [row?, addRow, List.find?_cons]
  by_cases h : row.eventId = x <;> simp [h]

/-- The mark lands on the row that was just added. -/
theorem markSkeleton_addRow {row : EventRow} (h : t.row? row.eventId = none) :
    (t.addRow row).markSkeleton row.eventId = t.addRow { row with skeleton := true } := by
  have hmap : (t.events.map fun other =>
      if other.eventId = row.eventId then { other with skeleton := true } else other) =
        t.events := by
    conv_rhs => rw [← List.map_id t.events]
    refine List.map_congr_left fun other hother => if_neg fun heq => ?_
    exact row?_ne_none_of_mem hother (heq ▸ h)
  simp [markSkeleton, addRow, hmap]

theorem mem_groupOf {group : Nat} (h : t.groupOf id = some group) : (id, group) ∈ t.eventState := by
  obtain ⟨⟨x, g⟩, hfind, rfl⟩ := Option.map_eq_some_iff.1 h
  have hx : x = id := by simpa using List.find?_some hfind
  rw [← hx]
  exact List.mem_of_find?_eq_some hfind

theorem groupOf_setEventState (x : String) (group : Nat) :
    (t.setEventState id group).groupOf x = if id = x then some group else t.groupOf x := by
  simp only [groupOf, setEventState, List.find?_cons, List.find?_filter]
  by_cases h : id = x
  · simp [h]
  · simp only [h, decide_false, if_false]
    congr 2
    funext entry
    by_cases he : entry.1 = x
    · simp [he, Ne.symm h]
    · simp [he]

theorem stateAfter_isSome {x : String} : (t.stateAfter x).isSome = (t.groupOf x).isSome := by
  simp [stateAfter]

theorem mem_extremityIds {x : String} : x ∈ t.extremityIds room ↔ (room, x) ∈ t.extremities := by
  simp [extremityIds, List.mem_insertionSort]

theorem mem_setExtremities {other x : String} {ids : List String} :
    (other, x) ∈ (t.setExtremities room ids).extremities ↔
      (other = room ∧ x ∈ ids) ∨ (other ≠ room ∧ (other, x) ∈ t.extremities) := by
  simp only [setExtremities, List.mem_append, List.mem_map, Prod.mk.injEq, List.mem_filter,
    decide_eq_true_eq]
  constructor
  · rintro (⟨_, hx, rfl, rfl⟩ | ⟨hx, hne⟩)
    · exact .inl ⟨rfl, hx⟩
    · exact .inr ⟨hne, hx⟩
  · rintro (⟨rfl, hx⟩ | ⟨hne, hx⟩)
    · exact .inl ⟨x, hx, rfl, rfl⟩
    · exact .inr ⟨hx, hne⟩

theorem extremityIds_setExtremities (ids : List String) (other : String) :
    (t.setExtremities room ids).extremityIds other =
      if other = room then ids.insertionSort (· ≤ ·) else t.extremityIds other := by
  simp only [extremityIds, setExtremities, List.filter_append, List.filter_map, List.filter_filter]
  by_cases h : other = room
  · subst h
    simp only [if_true]
    congr 1
    simp [Function.comp_def]
  · simp only [h, if_false]
    congr 1
    have hne : ¬ room = other := fun he => h he.symm
    simp only [Function.comp_def, hne, decide_false, List.filter_false, List.map_nil,
      List.nil_append]
    congr 1
    refine List.filter_congr fun entry _ => ?_
    by_cases he : entry.1 = other <;> simp [he, h]

theorem edge_addEdges {pdu : Pdu} {a b : String} :
    (t.addEdges pdu).Edge a b ↔ t.Edge a b ∨ (a = pdu.eventId ∧ b ∈ pdu.prevEvents) := by
  simp only [Edge, addEdges, List.mem_union_iff, List.mem_map, Prod.mk.injEq]
  constructor
  · rintro (⟨p, hp, rfl, rfl⟩ | h)
    · exact .inr ⟨rfl, hp⟩
    · exact .inl h
  · rintro (h | ⟨rfl, hb⟩)
    · exact .inr h
    · exact .inl ⟨b, hb, rfl, rfl⟩

/-! #### The state of an event -/

section AddState

variable {pdu : Pdu} {state : StateMap}

@[simp] theorem events_addState : (t.addState pdu state).events = t.events := by
  unfold addState
  split <;> rfl

@[simp] theorem edges_addState : (t.addState pdu state).edges = t.edges := by
  unfold addState
  split <;> rfl

@[simp] theorem auth_addState : (t.addState pdu state).auth = t.auth := by
  unfold addState
  split <;> rfl

@[simp] theorem rooms_addState : (t.addState pdu state).rooms = t.rooms := by
  unfold addState
  split <;> rfl

@[simp] theorem extremities_addState : (t.addState pdu state).extremities = t.extremities := by
  unfold addState
  split <;> rfl

theorem groupOf_addState (x : String) :
    ((t.addState pdu state).groupOf x).isSome = (pdu.eventId = x ∨ (t.groupOf x).isSome) := by
  unfold addState
  split <;> rw [groupOf_setEventState] <;> split <;> simp_all [newGroup, groupOf]

theorem groupsExist_setEventState {group : Nat} (h : t.GroupsExist)
    (hgroup : group < t.stateGroups.length) : (t.setEventState id group).GroupsExist := by
  intro entry hentry
  rcases List.mem_cons.1 hentry with rfl | hentry
  · exact hgroup
  · exact h entry (List.mem_filter.1 hentry).1

theorem groupsExist_newGroup (h : t.GroupsExist) : (t.newGroup state).GroupsExist := by
  intro entry hentry
  simp only [newGroup, List.length_append, List.length_singleton]
  exact Nat.lt_succ_of_lt (h entry hentry)

theorem stateAfter_setEventState (x : String) (group : Nat) :
    (t.setEventState id group).stateAfter x =
      if id = x then some (t.stateGroups[group]?.getD []) else t.stateAfter x := by
  simp only [stateAfter, groupOf_setEventState]
  split <;> rfl

/-- Opening a group does not move the states that exist. -/
theorem stateAfter_newGroup (h : t.GroupsExist) (x : String) :
    (t.newGroup state).stateAfter x = t.stateAfter x := by
  simp only [stateAfter, newGroup]
  cases hg : t.groupOf x with
  | none =>
    have hg' : groupOf { t with stateGroups := t.stateGroups ++ [state] } x = none := hg
    simp [hg']
  | some group =>
    have hlt := h _ (mem_groupOf hg)
    have hg' : groupOf { t with stateGroups := t.stateGroups ++ [state] } x = some group := hg
    simp [hg', List.getElem?_append_left hlt]

theorem sharedGroup_lt {group : Nat} (h : t.GroupsExist) (hg : t.sharedGroup pdu = some group) :
    group < t.stateGroups.length := by
  unfold sharedGroup at hg
  split at hg
  · exact h _ (mem_groupOf hg)
  · cases hg

theorem groupsExist_addState (h : t.GroupsExist) : (t.addState pdu state).GroupsExist := by
  unfold addState
  split
  · exact groupsExist_setEventState h (sharedGroup_lt h ‹_›)
  · exact groupsExist_setEventState (groupsExist_newGroup h) (by simp [newGroup])

theorem markSkeleton_addState :
    (t.addState pdu state).markSkeleton id = (t.markSkeleton id).addState pdu state := by
  have hshared : (t.markSkeleton id).sharedGroup pdu = t.sharedGroup pdu := rfl
  unfold addState
  rw [hshared]
  split <;> rfl

/-- The event gets its state, and the others keep theirs. -/
theorem stateAfter_addState (h : t.GroupsExist)
    (shared : ∀ group, t.sharedGroup pdu = some group → t.stateGroups[group]?.getD [] = state)
    (x : String) :
    (t.addState pdu state).stateAfter x =
      if pdu.eventId = x then some state else t.stateAfter x := by
  unfold addState
  split
  · rw [stateAfter_setEventState, shared _ ‹_›]
  · rw [stateAfter_setEventState, stateAfter_newGroup h]
    simp [newGroup]

end AddState

end Tables

/-- Events are accepted on top of events that have a state. -/
theorem PastSpec.prev_groupOf {t : Tables} {pdu : Pdu} {state before : StateMap}
    (h : PastSpec rules (t.conn rules room) pdu state before) :
    ∀ p ∈ pdu.prevEvents, (t.groupOf p).isSome := by
  intro p hp
  obtain ⟨fork, hfork⟩ := stateAfter_of_resolveOver h.resolved p hp
  rw [← stateAfter_isSome, show t.stateAfter p = some fork from hfork]
  rfl

/-! ### Live events -/

/-- `t'` is `t` with the accepted event of `room` written. -/
structure LiveChange (rules : Rules) (room : String) (t : Tables) (acc : Accepted) (t' : Tables) :
    Prop where
  accepted : ∃ json, AcceptSpec rules (t.conn rules room) acc.pdu.eventId json acc
  hash : computeEventId rules acc.json = .ok acc.pdu.eventId
  roomId : acc.pdu.roomId = room
  marked : t.isF3Room room = true
  fresh : t.row? acc.pdu.eventId = none
  nodup : acc.extremities.Nodup
  written : ∃ skeleton stored, stored = t.withEvent
      (Tables.eventRow room acc.pdu acc.json false acc.softFailed skeleton) acc.pdu acc.stateAfter ∧
    t' = if acc.softFailed then stored else stored.setExtremities room acc.extremities

namespace LiveChange

variable {t t' s : Tables} {acc : Accepted} {x a b : String}

theorem of_storeAccepted (hacc : AcceptSpec rules (t.conn rules room) acc.pdu.eventId json acc)
    (hhash : computeEventId rules json = .ok acc.pdu.eventId) (hroom : acc.pdu.roomId = room)
    (hmarked : t.isF3Room room = true) (h : t.storeAccepted room acc = some s) :
    LiveChange rules room t acc s ∧
      LiveChange rules room t acc (s.markSkeleton acc.pdu.eventId) := by
  unfold storeAccepted at h
  by_cases hdup : (t.row? acc.pdu.eventId).isSome ∨ ¬ acc.extremities.Nodup
  · simp [hdup] at h
  simp only [hdup, if_false, Option.some.injEq] at h
  simp only [not_or, not_not, Bool.not_eq_true, Option.isSome_eq_false_iff,
    Option.isNone_iff_eq_none] at hdup
  rw [← hacc.json] at hhash
  refine ⟨⟨⟨_, hacc⟩, hhash, hroom, hmarked, hdup.1, hdup.2, false, _, rfl, h.symm⟩,
    ⟨_, hacc⟩, hhash, hroom, hmarked, hdup.1, hdup.2, true, _, rfl, ?_⟩
  have hmark : (t.withEvent (eventRow room acc.pdu acc.json false acc.softFailed false)
      acc.pdu acc.stateAfter).markSkeleton acc.pdu.eventId =
      t.withEvent (eventRow room acc.pdu acc.json false acc.softFailed true) acc.pdu
        acc.stateAfter := by
    have hrow : (t.addRow (eventRow room acc.pdu acc.json false acc.softFailed
        false)).markSkeleton acc.pdu.eventId = t.addRow (eventRow room acc.pdu acc.json false
        acc.softFailed true) := markSkeleton_addRow hdup.1
    unfold withEvent
    rw [markSkeleton_addState]
    exact congrArg (fun u => (addEdges u acc.pdu).addState acc.pdu acc.stateAfter) hrow
  rw [← hmark, ← h]
  split <;> rfl

variable (h : LiveChange rules room t acc t')

include h

/-- The tables after the change, one by one. -/
theorem tables_eq : ∃ skeleton, t' =
    { t with
      events := eventRow room acc.pdu acc.json false acc.softFailed skeleton :: t.events
      edges := (t.addEdges acc.pdu).edges
      auth := (t.addEdges acc.pdu).auth
      extremities :=
        (if acc.softFailed then t else t.setExtremities room acc.extremities).extremities
      stateGroups := (t.addState acc.pdu acc.stateAfter).stateGroups
      eventState := (t.addState acc.pdu acc.stateAfter).eventState } := by
  obtain ⟨skeleton, stored, rfl, rfl⟩ := h.written
  have hshared (row : EventRow) :
      ((t.addRow row).addEdges acc.pdu).sharedGroup acc.pdu = t.sharedGroup acc.pdu := rfl
  refine ⟨skeleton, ?_⟩
  unfold withEvent addState
  rw [hshared]
  split <;> split <;> rfl

/-- The row of the new event. -/
theorem row?_new : ∃ skeleton, t'.row? acc.pdu.eventId =
    some (Tables.eventRow room acc.pdu acc.json false acc.softFailed skeleton) := by
  obtain ⟨skeleton, rfl⟩ := h.tables_eq
  exact ⟨skeleton, by simp [row?, eventRow]⟩

theorem events_eq : ∃ skeleton, t'.events =
    Tables.eventRow room acc.pdu acc.json false acc.softFailed skeleton :: t.events := by
  obtain ⟨skeleton, rfl⟩ := h.tables_eq
  exact ⟨skeleton, rfl⟩

theorem row?_of_ne (hx : acc.pdu.eventId ≠ x) : t'.row? x = t.row? x := by
  obtain ⟨skeleton, hevents⟩ := h.events_eq
  have hne : (eventRow room acc.pdu acc.json false acc.softFailed skeleton).eventId ≠ x := hx
  simp [row?, hevents, hne]

theorem pdus_eq : t'.pdus rules = acc.pdu :: t.pdus rules := by
  obtain ⟨skeleton, hevents⟩ := h.events_eq
  obtain ⟨json, hacc⟩ := h.accepted
  have hwire := hacc.wire
  rw [← hacc.json] at hwire
  simp [pdus, hevents, eventRow, hwire, Except.toOption]

theorem edge_iff : t'.Edge a b ↔ t.Edge a b ∨ (a = acc.pdu.eventId ∧ b ∈ acc.pdu.prevEvents) := by
  obtain ⟨-, rfl⟩ := h.tables_eq
  exact edge_addEdges

/-- Extremities change for a live event only, and in its room only. -/
theorem extremities_eq : t'.extremities =
    (if acc.softFailed then t else t.setExtremities room acc.extremities).extremities := by
  obtain ⟨-, rfl⟩ := h.tables_eq
  rfl

/-- An extremity was one before or is the new event in its room. -/
theorem mem_extremities {other : String} (hx : (other, x) ∈ t'.extremities) :
    (other, x) ∈ t.extremities ∨ (other = room ∧ x = acc.pdu.eventId) := by
  obtain ⟨json, hspec⟩ := h.accepted
  rw [h.extremities_eq] at hx
  cases hspec.outcome with
  | soft failed => exact .inl (by simpa [failed] using hx)
  | live passed next =>
    rw [passed, if_neg (by decide), mem_setExtremities] at hx
    rcases hx with ⟨rfl, hx⟩ | ⟨-, hx⟩
    · simp only [next, nextExtremities, List.mem_insertionSort, List.mem_append, List.mem_filter,
        List.mem_singleton] at hx
      exact hx.imp (fun hx => mem_extremityIds.1 hx.1) fun hx => ⟨rfl, hx⟩
    · exact .inl hx

theorem rooms_eq : t'.rooms = t.rooms := by
  obtain ⟨-, rfl⟩ := h.tables_eq
  rfl

/-- The state rows are those `addState` writes. -/
theorem state_eq :
    t'.stateGroups = (t.addState acc.pdu acc.stateAfter).stateGroups ∧
      t'.eventState = (t.addState acc.pdu acc.stateAfter).eventState := by
  obtain ⟨-, rfl⟩ := h.tables_eq
  exact ⟨rfl, rfl⟩

theorem groupOf_isSome (x : String) :
    (t'.groupOf x).isSome ↔ acc.pdu.eventId = x ∨ (t.groupOf x).isSome := by
  have hgroup : t'.groupOf x = (t.addState acc.pdu acc.stateAfter).groupOf x := by
    rw [groupOf, h.state_eq.2]
    rfl
  rw [hgroup, groupOf_addState]

theorem groupsExist (ht : t.GroupsExist) : t'.GroupsExist := by
  have hadd : (t.addState acc.pdu acc.stateAfter).GroupsExist := groupsExist_addState ht
  rwa [Tables.GroupsExist, ← h.state_eq.1, ← h.state_eq.2] at hadd

/-- A message that shares its predecessor's group has the predecessor's state. -/
theorem shared_state {group : Nat} (hgroup : t.sharedGroup acc.pdu = some group) :
    t.stateGroups[group]?.getD [] = acc.stateAfter := by
  obtain ⟨json, hacc⟩ := h.accepted
  obtain ⟨before, hpast⟩ := hacc.past
  unfold sharedGroup at hgroup
  split at hgroup
  case h_2 => cases hgroup
  rename_i prev hkey hprev
  have hresolved := hpast.resolved
  rw [hprev, resolveOver_singleton, forkOf_none_ok] at hresolved
  have hbefore : t.stateAfter prev = some before := hresolved
  rw [stateAfter, hgroup, Option.map_some, Option.some.injEq] at hbefore
  rw [hbefore, hpast.after]
  simp [Pdu.applyTo, Pdu.slot?, hkey]

theorem stateAfter_eq (ht : t.GroupsExist) (x : String) :
    t'.stateAfter x = if acc.pdu.eventId = x then some acc.stateAfter else t.stateAfter x := by
  have hstate : t'.stateAfter x = (t.addState acc.pdu acc.stateAfter).stateAfter x := by
    simp only [stateAfter, groupOf, h.state_eq.1, h.state_eq.2]
  rw [hstate]
  exact stateAfter_addState ht (fun group hgroup => h.shared_state hgroup) x

/-- Every predecessor has a state. -/
theorem prev_groupOf : ∀ p ∈ acc.pdu.prevEvents, (t.groupOf p).isSome := by
  obtain ⟨json, hacc⟩ := h.accepted
  obtain ⟨before, hpast⟩ := hacc.past
  exact hpast.prev_groupOf

end LiveChange

/-! ### Events of the past -/

/-- `t'` is `t` with the event of the past `h` of `room` written. -/
structure HistoricChange (rules : Rules) (room : String) (t : Tables) (h : Historic) (t' : Tables) :
    Prop where
  wire : Pdu.fromWire rules h.pdu.eventId h.json = .ok h.pdu
  hash : computeEventId rules h.json = .ok h.pdu.eventId
  past : ∃ before, PastSpec rules (t.conn rules room) h.pdu h.stateAfter before
  roomId : h.pdu.roomId = room
  stateless : t.groupOf h.pdu.eventId = none
  written : t' = t.storeHistoric rules room h

namespace HistoricChange

variable {t t' : Tables} {h : Historic} {x a b : String}

variable (hc : HistoricChange rules room t h t')

include hc

/-- The tables after the change, one by one. -/
theorem tables_eq : t' =
    { t with
      events := if (t.row? h.pdu.eventId).isSome then t.events
        else eventRow room h.pdu h.json true false (isSkeleton rules h.json) :: t.events
      edges := (t.addEdges h.pdu).edges
      auth := (t.addEdges h.pdu).auth
      stateGroups := t.stateGroups ++ [h.stateAfter]
      eventState := (t.setEventState h.pdu.eventId t.stateGroups.length).eventState } := by
  rw [hc.written]
  unfold storeHistoric
  split <;> rfl

theorem events_eq : t'.events = if (t.row? h.pdu.eventId).isSome then t.events
    else Tables.eventRow room h.pdu h.json true false (isSkeleton rules h.json) :: t.events :=
  congrArg Tables.events hc.tables_eq

theorem row?_of_ne (hx : h.pdu.eventId ≠ x) : t'.row? x = t.row? x := by
  rw [row?, hc.events_eq]
  split
  · rfl
  · have hne : (eventRow room h.pdu h.json true false
      (isSkeleton rules h.json)).eventId ≠ x := hx
    simp [row?, hne]

/-- A row that is there stays. -/
theorem row?_of_stored (hx : t.row? x ≠ none) : t'.row? x = t.row? x := by
  by_cases heq : h.pdu.eventId = x
  · obtain ⟨row, hrow⟩ := Option.ne_none_iff_exists'.1 hx
    subst heq
    have hevents : t'.events = t.events := by rw [hc.events_eq, hrow]; rfl
    rw [row?, hevents]
    rfl
  · exact hc.row?_of_ne heq

theorem row?_new (hfresh : t.row? h.pdu.eventId = none) :
    t'.row? h.pdu.eventId =
      some (Tables.eventRow room h.pdu h.json true false (isSkeleton rules h.json)) := by
  rw [row?, hc.events_eq, hfresh]
  simp [eventRow]

theorem edge_iff : t'.Edge a b ↔ t.Edge a b ∨ (a = h.pdu.eventId ∧ b ∈ h.pdu.prevEvents) := by
  rw [hc.tables_eq]
  exact edge_addEdges

theorem extremities_eq : t'.extremities = t.extremities := by
  rw [hc.tables_eq]

theorem state_eq :
    t'.stateGroups = t.stateGroups ++ [h.stateAfter] ∧
      t'.eventState = (t.setEventState h.pdu.eventId t.stateGroups.length).eventState := by
  rw [hc.tables_eq]
  exact ⟨rfl, rfl⟩

theorem groupOf_eq (x : String) :
    t'.groupOf x = if h.pdu.eventId = x then some t.stateGroups.length else t.groupOf x := by
  rw [← groupOf_setEventState, groupOf, groupOf, hc.state_eq.2]

theorem groupsExist (ht : t.GroupsExist) : t'.GroupsExist := by
  intro entry hentry
  rw [hc.state_eq.2] at hentry
  rw [hc.state_eq.1]
  have hset : ((t.newGroup h.stateAfter).setEventState h.pdu.eventId
      t.stateGroups.length).GroupsExist :=
    groupsExist_setEventState (groupsExist_newGroup ht) (by simp [newGroup])
  exact hset entry hentry

theorem stateAfter_eq (ht : t.GroupsExist) (x : String) :
    t'.stateAfter x = if h.pdu.eventId = x then some h.stateAfter else t.stateAfter x := by
  have hstate : t'.stateAfter x =
      ((t.newGroup h.stateAfter).setEventState h.pdu.eventId
        t.stateGroups.length).stateAfter x := by
    simp only [stateAfter, groupOf, hc.state_eq.1, hc.state_eq.2]
    rfl
  rw [hstate, stateAfter_setEventState, stateAfter_newGroup ht]
  simp [newGroup]

theorem prev_groupOf : ∀ p ∈ h.pdu.prevEvents, (t.groupOf p).isSome := by
  obtain ⟨before, hpast⟩ := hc.past
  exact hpast.prev_groupOf

end HistoricChange

end Dag
