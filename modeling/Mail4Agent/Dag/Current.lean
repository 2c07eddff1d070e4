import Mail4Agent.Dag.Rooms

/-!
# The current state of a room

How the resolved current state moves when an event is written. A live event of the room
moves it to the state acceptance computed; any other event leaves it alone, since
resolution looks only at events that are stored already. A local event is made on top of
all extremities, so it is never soft-failed, and the new state is the old one with the
event in its slot.
-/

namespace Dag

variable {rules : Rules} {room other : String} {t t' : Tables}

/-- Resolution never leaves the stored events, and every extremity has a state. -/
structure Tables.Closed (rules : Rules) (t : Tables) : Prop where
  sound : t.Sound rules
  states : ∀ x state, t.stateAfter x = some state → ∀ id ∈ state.ids, t.row? id ≠ none
  tips : ∀ room x, (room, x) ∈ t.extremities → (t.groupOf x).isSome
  marked : ∀ room x, (room, x) ∈ t.extremities → t.isF3Room room = true

theorem Tables.closed_empty : Tables.Closed rules {} :=
  ⟨sound_empty, fun _ _ h => by simp [stateAfter, groupOf] at h, fun _ _ h => by simp at h,
    fun _ _ h => by simp at h⟩

theorem Tables.row?_ne_none_of_roomOf {x : String} (h : t.roomOf x = some room) :
    t.row? x ≠ none := by
  intro hnone
  simp [Tables.roomOf, hnone] at h

theorem Tables.Sound.authClosed_stored (lawful : rules.Lawful) (hs : t.Sound rules) :
    (t.conn rules other).AuthClosed fun x => t.row? x ≠ none := by
  intro pdu hpdu _ a ha
  obtain ⟨_, hroom, -⟩ := (hs.pdu_mem lawful hpdu).2 a ha
  exact Tables.row?_ne_none_of_roomOf hroom

/-- The state after an accepted event consists of the event and stored events. -/
theorem Tables.Closed.past_state (lawful : rules.Lawful) (hc : t.Closed rules) {pdu : Pdu}
    {state before : StateMap} (h : PastSpec rules (t.conn rules room) pdu state before) :
    ∀ id ∈ state.ids, id = pdu.eventId ∨ t.row? id ≠ none := by
  have hbefore : ∀ id ∈ before.ids, t.row? id ≠ none :=
    resolveOver_region lawful (hc.sound.authClosed_stored lawful)
      (fun p _ fork hfork => hc.states p fork (forkOf_none_ok.1 hfork)) h.resolved
  intro id hid
  rw [h.after] at hid
  exact (Pdu.ids_applyTo hid).imp_right (hbefore id)

/-- A change that leaves the extremities, their states and the stored events alone leaves
the current state alone. -/
theorem currentState_congr (lawful : rules.Lawful) (hc : t.Closed rules) (hs' : t'.Sound rules)
    (hrow : ∀ x, t.row? x ≠ none → t'.row? x = t.row? x)
    (htips : t'.extremityIds room = t.extremityIds room)
    (hstate : ∀ x ∈ t.extremityIds room, t'.stateAfter x = t.stateAfter x) :
    currentState rules (t'.conn rules room) = currentState rules (t.conn rules room) := by
  have hids : (t'.conn rules room).extremities = (t.conn rules room).extremities := htips
  unfold currentState
  rw [hids]
  refine resolveOver_congr lawful (hc.sound.authClosed_stored lawful) (fun x hx => ?_)
    (fun x hx => ?_) fun x _ fork hfork => hc.states x fork (forkOf_none_ok.1 hfork)
  · rw [hs'.pdu_conn, hc.sound.pdu_conn, hrow x hx]
  · have hsame : (t'.conn rules room).stateAfter x = (t.conn rules room).stateAfter x :=
      hstate x hx
    simp only [forkOf, hsame]

/-- Resolution over one event that is not stored yet. -/
theorem resolveOver_extra {db : DagRead} {id : String} {state : StateMap} :
    resolveOver rules db [id] (some (id, state)) = .ok state := by
  unfold resolveOver
  rw [List.mapM_cons, List.mapM_nil]
  simp [forkOf, Option.filter, pure, bind, Except.pure, Except.bind]

namespace LiveChange

variable {acc : Accepted}

section

variable (h : LiveChange rules room t acc t')

include h

theorem row_kept {x : String} (hx : t.row? x ≠ none) :
    t'.row? x = t.row? x :=
  h.row?_of_ne fun heq => hx (heq ▸ h.fresh)

theorem extremityIds_other (hother : other ≠ room ∨ acc.softFailed = true) :
    t'.extremityIds other = t.extremityIds other := by
  have hids : t'.extremityIds other =
      (if acc.softFailed then t else t.setExtremities room acc.extremities).extremityIds other := by
    rw [Tables.extremityIds, h.extremities_eq]
    rfl
  rw [hids]
  split_ifs with hsoft
  · rfl
  · rw [Tables.extremityIds_setExtremities, if_neg]
    exact hother.resolve_right hsoft

/-- The extremities of the room are those acceptance computed. -/
theorem extremityIds_live (hlive : acc.softFailed = false) :
    t'.extremityIds room = acc.extremities := by
  obtain ⟨json, hspec⟩ := h.accepted
  have hids : t'.extremityIds room = (t.setExtremities room acc.extremities).extremityIds room := by
    rw [Tables.extremityIds, h.extremities_eq, hlive]
    rfl
  rw [hids, Tables.extremityIds_setExtremities, if_pos rfl]
  cases hspec.outcome with
  | soft failed => rw [hlive] at failed; cases failed
  | live _ next =>
    rw [next, nextExtremities]
    exact (List.pairwise_insertionSort _ _).insertionSort_eq

end

theorem closed (lawful : rules.Lawful) (h : LiveChange rules room t acc t') (hc : t.Closed rules) :
    t'.Closed rules := by
  obtain ⟨json, hspec⟩ := h.accepted
  obtain ⟨before, hpast⟩ := hspec.past
  have hkeep {x : String} (hx : t.row? x ≠ none) : t'.row? x ≠ none := (h.row_kept hx).symm ▸ hx
  have hnew : t'.row? acc.pdu.eventId ≠ none := by
    obtain ⟨skeleton, hrow⟩ := h.row?_new
    rw [hrow]
    exact Option.some_ne_none _
  refine ⟨h.sound lawful hc.sound, fun x state hstate id hid => ?_, fun r x hx => ?_,
    fun r x hx => ?_⟩
  · rw [h.stateAfter_eq hc.sound.groups] at hstate
    split_ifs at hstate
    · cases hstate
      rcases hc.past_state lawful hpast id hid with rfl | hid
      · exact hnew
      · exact hkeep hid
    · exact hkeep (hc.states x state hstate id hid)
  · rw [h.groupOf_isSome]
    rcases h.mem_extremities hx with hx | ⟨-, rfl⟩
    · exact .inr (hc.tips r x hx)
    · exact .inl rfl
  · rw [Tables.isF3Room, h.rooms_eq]
    rcases h.mem_extremities hx with hx | ⟨rfl, -⟩
    · exact hc.marked r x hx
    · exact h.marked

/-- Events of other rooms and soft-failed events leave the current state alone. -/
theorem current_other (lawful : rules.Lawful) (h : LiveChange rules room t acc t')
    (hc : t.Closed rules) (hother : other ≠ room ∨ acc.softFailed = true) :
    currentState rules (t'.conn rules other) = currentState rules (t.conn rules other) := by
  refine currentState_congr lawful hc (h.sound lawful hc.sound) (fun x hx => h.row_kept hx)
    (h.extremityIds_other hother) fun x hx => ?_
  rw [h.stateAfter_eq hc.sound.groups, if_neg]
  rintro rfl
  have htip := hc.tips other _ (Tables.mem_extremityIds.1 hx)
  exact hc.sound.state_stored _ htip h.fresh

/-- A live event moves the current state to what acceptance computed. -/
theorem current_live (lawful : rules.Lawful) (h : LiveChange rules room t acc t')
    (hc : t.Closed rules) (hlive : acc.softFailed = false) :
    currentState rules (t'.conn rules room) = .ok acc.currentState := by
  obtain ⟨json, hspec⟩ := h.accepted
  have hids : (t'.conn rules room).extremities = acc.extremities := h.extremityIds_live hlive
  cases hspec.outcome with
  | soft failed => rw [hlive] at failed; cases failed
  | live _ _ current =>
    rw [currentState, hids, ← current]
    have hevents : (t'.conn rules room).events = ((t.conn rules room).withNew acc.pdu).events :=
      h.pdus_eq
    have hanywhere : ((t.conn rules room).withNew acc.pdu).AuthClosed fun _ => True :=
      fun _ _ _ _ _ => trivial
    refine resolveOver_congr lawful hanywhere (fun x _ => ?_) (fun x _ => ?_)
      fun _ _ _ _ _ _ => trivial
    · rw [DagRead.pdu, DagRead.pdu, hevents]
    · -- The event that is stored now is the extra one of before.
      have hstate : (t'.conn rules room).stateAfter x = if acc.pdu.eventId = x then
          some acc.stateAfter else t.stateAfter x := h.stateAfter_eq hc.sound.groups x
      by_cases hx : acc.pdu.eventId = x
      · simp [forkOf, hstate, hx, Option.filter]
      · have hsame : (t'.conn rules room).stateAfter x =
            ((t.conn rules room).withNew acc.pdu).stateAfter x := by
          rw [hstate, if_neg hx]
          rfl
        simp [forkOf, hsame, hx, Option.filter]

/-- An event on top of all extremities is not soft-failed, and it moves the current state
by its own slot. -/
theorem current_local (h : LiveChange rules room t acc t')
    (hprev : acc.pdu.prevEvents = t.extremityIds room) :
    acc.softFailed = false ∧ ∃ before, currentState rules (t.conn rules room) = .ok before ∧
      acc.currentState = acc.pdu.applyTo before := by
  obtain ⟨json, hspec⟩ := h.accepted
  obtain ⟨before, hpast⟩ := hspec.past
  have hcurrent : currentState rules (t.conn rules room) = .ok before := by
    have hresolved := hpast.resolved
    rwa [hprev] at hresolved
  cases hspec.outcome with
  | soft _ _ current refused =>
    rw [hcurrent] at current
    cases current
    exact (refused hpast.allowed).elim
  | live passed next current =>
    refine ⟨passed, before, hcurrent, ?_⟩
    have hids : acc.extremities = [acc.pdu.eventId] := by
      rw [next, nextExtremities, hprev]
      have hnone : ((t.conn rules room).extremities.filter fun e => e ∉ t.extremityIds room) = [] :=
        List.filter_eq_nil_iff.2 fun x hx => by
          have hmem : x ∈ t.extremityIds room := hx
          simpa using hmem
      rw [hnone]
      rfl
    rw [hids, resolveOver_extra] at current
    rw [← Except.ok.inj current, hpast.after]

end LiveChange

namespace HistoricChange

variable {past : Historic}

theorem rooms_eq (h : HistoricChange rules room t past t') : t'.rooms = t.rooms := by
  rw [h.written]
  simp only [Tables.storeHistoric, Tables.setEventState, Tables.newGroup, Tables.addEdges,
    Tables.addRow]
  split <;> rfl

theorem closed (lawful : rules.Lawful) (h : HistoricChange rules room t past t')
    (hc : t.Closed rules) : t'.Closed rules := by
  obtain ⟨before, hpast⟩ := h.past
  have hkeep {x : String} (hx : t.row? x ≠ none) : t'.row? x ≠ none :=
    (h.row?_of_stored hx).symm ▸ hx
  have hs' := h.sound lawful hc.sound
  have hgroup : (t'.groupOf past.pdu.eventId).isSome := by rw [h.groupOf_eq, if_pos rfl]; rfl
  refine ⟨hs', fun x state hstate id hid => ?_, fun r x hx => ?_, fun r x hx => ?_⟩
  · rw [h.stateAfter_eq hc.sound.groups] at hstate
    split_ifs at hstate
    · cases hstate
      rcases hc.past_state lawful hpast id hid with rfl | hid
      · exact hs'.state_stored _ hgroup
      · exact hkeep hid
    · exact hkeep (hc.states x state hstate id hid)
  · rw [h.groupOf_eq]
    split_ifs
    · rfl
    · exact hc.tips r x (h.extremities_eq ▸ hx)
  · rw [Tables.isF3Room, h.rooms_eq]
    exact hc.marked r x (h.extremities_eq ▸ hx)

theorem current (lawful : rules.Lawful) (h : HistoricChange rules room t past t')
    (hc : t.Closed rules) (other : String) :
    currentState rules (t'.conn rules other) = currentState rules (t.conn rules other) := by
  refine currentState_congr lawful hc (h.sound lawful hc.sound)
    (fun x hx => h.row?_of_stored hx) ?_ fun x hx => ?_
  · rw [Tables.extremityIds, h.extremities_eq]
    rfl
  · rw [h.stateAfter_eq hc.sound.groups, if_neg]
    rintro rfl
    have htip := hc.tips other _ (Tables.mem_extremityIds.1 hx)
    rw [h.stateless] at htip
    cases htip

end HistoricChange

end Dag
