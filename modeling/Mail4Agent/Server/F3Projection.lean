import Mail4Agent.Dag.Current
import Mail4Agent.Server.F3Tips

/-!
# The current state table and the resolved state

The `current_state` table is patched event by event, and the resolved current state is
computed from the graph. `Effect` says what a request does to both. Local events are made
on top of all extremities and move both by one slot. A received state event fills the
slots that resolution filled differently, but a slot that resolution emptied keeps its
row; a received message changes no row at all, whatever resolution makes of the forks it
leaves behind.
-/

namespace Server.F3

open Transaction
open Dag (Accepted Historic LiveChange Pdu StateKey StateMap Tables)

variable {cfg : Config} {fed : Federation} {db db' : Db} {roomId id : String} {acc : Accepted}
  {done : List Historic} {op : Op} {rules : Dag.Rules} {t t' : Tables}

/-! ### Agreement of one table with one state -/

theorem get?_of_notMem_changedSlots {before after : StateMap} {key : StateKey}
    (hget : after.get? key = some id) (hkey : key ∉ changedSlots before after) :
    before.get? key = some id := by
  by_contra hne
  exact hkey (List.mem_map.2 ⟨(key, id), List.mem_filter.2
    ⟨StateMap.mem_of_get? hget, by simpa using hne⟩, rfl⟩)

/-- The slots a received event must not empty: those filled before and, for a state
event, its own. A message must leave every slot as it was. -/
def Projectable (pdu : Pdu) (before after : StateMap) : Prop :=
  match pdu.slot? with
  | none => ∀ key, after.get? key = before.get? key
  | some slot => ∀ key, key = slot ∨ before.get? key ≠ none → after.get? key ≠ none

theorem projected_iff {before : StateMap} {table : StateKey → Option String}
    (htable : ∀ key, table key = before.get? key) :
    (∀ key, projected acc before table key = acc.currentState.get? key) ↔
      Projectable acc.pdu before acc.currentState := by
  unfold projected Projectable
  cases acc.pdu.slot? with
  | none => exact forall_congr' fun key => by rw [htable, eq_comm]
  | some slot =>
    dsimp only
    constructor
    · rintro h key hkey hnone
      have hown := h key
      rw [hnone, Option.none_or, ite_self] at hown
      by_cases hslot : slot = key
      · simp [hslot] at hown
      · rw [if_neg hslot, htable] at hown
        exact (hkey.resolve_left fun h => hslot h.symm) hown
    · intro h key
      cases hget : acc.currentState.get? key with
      | some id =>
        by_cases hmem : key ∈ slot :: changedSlots before acc.currentState
        · rw [if_pos hmem, Option.some_or]
        · rw [List.mem_cons, not_or] at hmem
          rw [if_neg (by simpa using hmem), if_neg (Ne.symm hmem.1), htable]
          exact get?_of_notMem_changedSlots hget hmem.2
      | none =>
        have hbefore := fun hkey => h key hkey hget
        rw [Option.none_or, ite_self, if_neg fun hslot => hbefore (.inl hslot.symm), htable]
        by_contra hne
        exact hbefore (.inr hne)

/-! ### Agreement along a run -/

/-- The table of a room with an event graph has exactly the slots of the resolved current
state. -/
def Agrees (fed : Federation) (roomId : String) (db : Db) : Prop :=
  db.dag.isF3Room roomId = true →
    ∃ state, Dag.currentState fed.rules (db.dag.conn fed.rules roomId) = .ok state ∧
      ∀ key, slotHolder db roomId key = state.get? key

/-- What holds between requests: the graph is closed, and a room that does not exist has
no rows. -/
structure Ready (fed : Federation) (db : Db) : Prop where
  closed : db.dag.Closed fed.rules
  grounded : Grounded db.dag
  homeless : ∀ r, db.getRoom r = none → ∀ k, slotHolder db r k = none

theorem getRoom_append {room : Room} {rest : Db} {r : String}
    (h : ({ rest with rooms := rest.rooms ++ [room] } : Db).getRoom r = none) :
    rest.getRoom r = none := by
  unfold Db.getRoom at h ⊢
  rw [List.find?_append, Option.or_eq_none_iff] at h
  exact h.1

theorem HistoricChanges.closed (lawful : rules.Lawful) (h : HistoricChanges rules roomId t done t')
    (hc : t.Closed rules) (room : String) :
    t'.Closed rules ∧ t'.rooms = t.rooms ∧ Dag.currentState rules (t'.conn rules room) =
      Dag.currentState rules (t.conn rules room) := by
  induction h with
  | nil t => exact ⟨hc, rfl, rfl⟩
  | cons first more ih =>
    obtain ⟨hc', hrooms, hcurrent⟩ := ih (first.closed lawful hc)
    exact ⟨hc', hrooms.trans first.rooms_eq, hcurrent.trans (first.current lawful hc room)⟩

theorem ownSlot_eq {pdu : Pdu} {before : StateMap} {table : StateKey → Option String}
    (htable : ∀ key, table key = before.get? key) (key : StateKey) :
    ownSlot pdu table key = (pdu.applyTo before).get? key := by
  unfold ownSlot Pdu.applyTo
  cases pdu.slot? with
  | none => simp [htable]
  | some slot => simp [StateMap.get?_insert, htable]

theorem projectable_applyTo (pdu : Pdu) (before : StateMap) :
    Projectable pdu before (pdu.applyTo before) := by
  unfold Projectable Pdu.applyTo
  cases pdu.slot? with
  | none => exact fun _ => rfl
  | some slot =>
    intro key hkey
    rw [StateMap.get?_insert]
    split_ifs with hslot
    · exact Option.some_ne_none _
    · exact hkey.resolve_left fun h => hslot h.symm

namespace Effect

variable {pdus : List Pdu}

theorem homeless_of_stored (hhome : ∀ r, db.getRoom r = none → ∀ k, slotHolder db r k = none)
    (rooms : db'.rooms = db.rooms)
    (table : ∀ r k, db.getRoom r = none → slotHolder db' r k = slotHolder db r k) (r : String)
    (hr : db'.getRoom r = none) (k : StateKey) : slotHolder db' r k = none := by
  rw [Db.getRoom, rooms] at hr
  rw [table r k hr, hhome r hr k]

theorem ready (lawful : fed.rules.Lawful) (h : Effect fed db pdus db') (hready : Ready fed db)
    (hground : Grounded db'.dag) : Ready fed db' := by
  obtain ⟨hc, -, hhome⟩ := hready
  cases h with
  | same => exact ⟨hc, hground, hhome⟩
  | created room fresh =>
    refine ⟨⟨?_, hc.states, hc.tips, fun r x hx => ?_⟩, hground,
      fun r hr k => hhome r (getRoom_append hr) k⟩
    · exact ⟨fun row hrow => ⟨(hc.sound.row row hrow).hash, (hc.sound.row row hrow).wire⟩,
        hc.sound.groups, hc.sound.state_stored, hc.sound.tip_room⟩
    · have hmarked := hc.marked r x hx
      simp only [Tables.isF3Room, Tables.markRoom, decide_eq_true_eq] at hmarked ⊢
      exact decide_eq_true (List.mem_insert_of_mem hmarked)
  | legacy room graph rooms stored unmarked table =>
    exact ⟨graph ▸ hc, hground, homeless_of_stored hhome rooms fun r k hr =>
      table r k fun h => stored (h ▸ hr)⟩
  | localEvent room acc graph prev rooms stored table =>
    exact ⟨graph.closed lawful hc, hground, homeless_of_stored hhome rooms fun r k hr =>
      (table r k).trans (if_neg fun h : room = r => stored (h ▸ hr))⟩
  | softFailed room acc graph failed rooms table =>
    exact ⟨graph.closed lawful hc, hground, homeless_of_stored hhome rooms fun r k _ => table r k⟩
  | received room acc before graph passed current rooms stored table =>
    exact ⟨graph.closed lawful hc, hground, homeless_of_stored hhome rooms fun r k hr =>
      (table r k).trans (if_neg fun h : room = r => stored (h ▸ hr))⟩
  | past room done graph rooms table =>
    exact ⟨(graph.closed lawful hc room).1, hground, homeless_of_stored hhome rooms fun r k _ =>
      table r k⟩

/-- A request that moves neither the table nor the current state of the room keeps their
agreement. -/
theorem agrees_of_same (hP : Agrees fed roomId db)
    (hmarked : db'.dag.isF3Room roomId = true → db.dag.isF3Room roomId = true)
    (hcurrent : Dag.currentState fed.rules (db'.dag.conn fed.rules roomId) =
      Dag.currentState fed.rules (db.dag.conn fed.rules roomId))
    (htable : ∀ k, slotHolder db' roomId k = slotHolder db roomId k) : Agrees fed roomId db' := by
  intro h
  obtain ⟨state, hstate, hagree⟩ := hP (hmarked h)
  exact ⟨state, hcurrent.trans hstate, fun k => (htable k).trans (hagree k)⟩

/-- A live event of another room, or a soft-failed one, is neither seen in the room nor
moves it. -/
theorem agrees_of_other (lawful : fed.rules.Lawful) (hc : db.dag.Closed fed.rules)
    (hP : Agrees fed roomId db) {room : String}
    (graph : LiveChange fed.rules room db.dag acc db'.dag)
    (hother : roomId ≠ room ∨ acc.softFailed = true)
    (htable : ∀ k, slotHolder db' roomId k = slotHolder db roomId k) :
    acc.pdu.eventId ∉ liveEvents db'.dag roomId ∧ Agrees fed roomId db' := by
  refine ⟨?_, agrees_of_same hP (by rw [Tables.isF3Room, graph.rooms_eq]; exact id)
    (graph.current_other lawful hc hother) htable⟩
  rw [live_change graph, if_neg]
  · rintro ⟨row, hrow, -⟩
    rw [graph.fresh] at hrow
    cases hrow
  · rintro ⟨hroom, hlive⟩
    exact hother.elim (fun h => h hroom) fun h => by rw [hlive] at h; cases h

/-- A new room starts empty on both sides. -/
theorem agrees_created (hready : Ready fed db) (hP : Agrees fed roomId db) {room : Room}
    (fresh : db.getRoom room.id = none) :
    Agrees fed roomId { db with rooms := db.rooms ++ [room], dag := db.dag.markRoom room.id } := by
  by_cases hold : db.dag.isF3Room roomId = true
  · exact agrees_of_same hP (fun _ => hold) rfl fun _ => rfl
  · intro hnew
    have hid : roomId = room.id := by
      simp only [Tables.isF3Room, Tables.markRoom, decide_eq_true_eq,
        List.mem_insert_iff] at hnew hold
      exact hnew.resolve_right hold
    have hnone : db.dag.extremityIds roomId = [] := by
      rw [List.eq_nil_iff_forall_not_mem]
      intro x hx
      exact hold (hready.closed.marked roomId x (Tables.mem_extremityIds.1 hx))
    have hids : ((db.dag.markRoom room.id).conn fed.rules roomId).extremities = [] := hnone
    refine ⟨[], by rw [Dag.currentState, hids]; rfl, fun key => ?_⟩
    exact hready.homeless roomId (hid ▸ fresh) key

theorem agrees_iff (lawful : fed.rules.Lawful) (h : Effect fed db pdus db') (hready : Ready fed db)
    (hP : Agrees fed roomId db) :
    Agrees fed roomId db' ↔ ∀ pdu ∈ pdus, pdu.eventId ∈ liveEvents db'.dag roomId →
      ∀ before after, Dag.currentState fed.rules (db.dag.conn fed.rules roomId) = .ok before →
        Dag.currentState fed.rules (db'.dag.conn fed.rules roomId) = .ok after →
        Projectable pdu before after := by
  have hc := hready.closed
  cases h with
  | same => exact ⟨fun _ => by simp, fun _ => hP⟩
  | created room fresh => exact ⟨fun _ => by simp, fun _ => agrees_created hready hP fresh⟩
  | legacy room graph rooms stored unmarked table =>
    refine ⟨fun _ => by simp, fun _ hmarked => ?_⟩
    rw [graph] at hmarked
    have hroom : roomId ≠ room := fun h => unmarked (h ▸ hmarked)
    exact agrees_of_same hP (fun _ => hmarked) (by rw [graph]) (fun k => table roomId k hroom)
      (graph ▸ hmarked)
  | localEvent room acc graph prev rooms stored table =>
    obtain ⟨hlive, before, hbefore, hafter⟩ := graph.current_local prev
    rw [List.forall_mem_singleton]
    by_cases hroom : roomId = room
    · subst hroom
      have hcurrent := graph.current_live lawful hc hlive
      obtain ⟨state, hstate, hagree⟩ := hP graph.marked
      rw [hbefore] at hstate
      cases hstate
      refine ⟨fun _ _ b a hb ha => ?_, fun _ _ => ⟨_, hcurrent, fun k => ?_⟩⟩
      · rw [hbefore] at hb
        rw [hcurrent, hafter] at ha
        cases hb
        cases ha
        exact projectable_applyTo acc.pdu before
      · rw [table, if_pos rfl, hafter]
        exact ownSlot_eq hagree k
    · obtain ⟨hnot, hagrees⟩ := agrees_of_other lawful hc hP graph (.inl hroom)
        fun k => by rw [table, if_neg (Ne.symm hroom)]
      exact ⟨fun _ hmem => (hnot hmem).elim, fun _ => hagrees⟩
  | softFailed room acc graph failed rooms table =>
    obtain ⟨hnot, hagrees⟩ := agrees_of_other lawful hc hP graph (.inr failed) (table roomId)
    rw [List.forall_mem_singleton]
    exact ⟨fun _ hmem => (hnot hmem).elim, fun _ => hagrees⟩
  | received room acc before graph passed current rooms stored table =>
    rw [List.forall_mem_singleton]
    by_cases hroom : roomId = room
    · subst hroom
      have hcurrent := graph.current_live lawful hc passed
      obtain ⟨state, hstate, hagree⟩ := hP graph.marked
      rw [current] at hstate
      cases hstate
      have hmem : acc.pdu.eventId ∈ liveEvents db'.dag roomId := by
        rw [live_change graph, if_pos ⟨rfl, passed⟩]
        exact Set.mem_insert _ _
      have hmarked' : db'.dag.isF3Room roomId = true := by
        rw [Tables.isF3Room, graph.rooms_eq]
        exact graph.marked
      have hiff : (∀ k, projected acc before (slotHolder db roomId) k =
          acc.currentState.get? k) ↔ Projectable acc.pdu before acc.currentState :=
        projected_iff hagree
      refine ⟨fun h _ b a hb ha => ?_, fun h _ => ⟨_, hcurrent, fun k => ?_⟩⟩
      · obtain ⟨state, hstate, htable⟩ := h hmarked'
        rw [hcurrent] at hstate ha
        rw [current] at hb
        cases hstate
        cases ha
        cases hb
        refine hiff.1 fun k => ?_
        rw [← htable, table, if_pos rfl]
      · rw [table, if_pos rfl]
        exact hiff.2 (h hmem before acc.currentState current hcurrent) k
    · obtain ⟨hnot, hagrees⟩ := agrees_of_other lawful hc hP graph (.inl hroom)
        fun k => by rw [table, if_neg (Ne.symm hroom)]
      exact ⟨fun _ hmem => (hnot hmem).elim, fun _ => hagrees⟩
  | past room done graph rooms table =>
    obtain ⟨-, hrooms, hcurrent⟩ := graph.closed lawful hc roomId
    obtain ⟨-, -, -, -, hdone⟩ := past_keeps roomId hready.grounded graph
    refine ⟨fun _ pdu hpdu hmem => ?_, fun _ => agrees_of_same hP ?_ hcurrent (table roomId)⟩
    · obtain ⟨past, hpast, rfl⟩ := List.mem_map.1 hpdu
      exact (hdone past hpast hmem).elim
    · rw [Tables.isF3Room, hrooms]
      exact id

end Effect

/-- The condition on a request: resolution empties no slot that was filled before, nor
that of the accepted event; and if the accepted event is a message, it moves no slot. -/
def DropsNoSlot (cfg : Config) (fed : Federation) (roomId : String) (db : Db) (op : Op) : Prop :=
  ∀ pdu ∈ accepted cfg fed db op, pdu.eventId ∈ liveEvents (step cfg fed db op).dag roomId →
    ∀ before after, Dag.currentState fed.rules (db.dag.conn fed.rules roomId) = .ok before →
      Dag.currentState fed.rules ((step cfg fed db op).dag.conn fed.rules roomId) = .ok after →
      Projectable pdu before after

/-- The user `@bob:b` names the room, and on a branch beside that they are banned. -/
def renameAndBan : List Op :=
  [.createRoom (simpleRoom "!r"), .localState "" "!r" 1 "m.room.create" "" "x" 0 "",
    .receive none (peerEvent "!r" "@bob:b" "m.room.name" (some "") "name" 2 ["$rx"]) [] "",
    .receive none (peerEvent "!r" "@dave:d" "m.room.member" (some "@bob:b") "ban" 2 ["$rx"]) [] ""]

end Server.F3
