import Mail4Agent.Server.F3Change

/-!
# What the requests do to the event graph and the current state table

`Effect` says what a request other than a snapshot does to the graph, the rooms and the
`current_state` table, and `GraphChange` is its part about the graph. A batch of past
events is a run of `HistoricChange`s and leaves the table alone.
-/

namespace Server.F3

open Transaction
open Dag (Accepted Historic HistoricChange LiveChange Pdu PublicKeyMap StateKey StateMap Tables)

variable {cfg : Config} {fed : Federation} {db db' : Db} {roomId : String}

/-! ### The table -/

section Replace

variable {α : Type} {rows : List α} {row : α} {p r : α → Prop} [DecidablePred p] [DecidablePred r]

/-- A row that takes the place of those it collides with is found where they were. -/
theorem find?_replace (hp : p row) (h : ∀ other, p other → r other) :
    ((rows.filter fun other => ¬ r other) ++ [row]).find? (fun other => p other) = some row := by
  rw [List.find?_append, List.find?_eq_none.2, Option.none_or]
  · simp [hp]
  · intro other hother hfound
    have hkept := (List.mem_filter.1 hother).2
    exact of_decide_eq_true hkept (h other (of_decide_eq_true hfound))

theorem find?_replace_other (hp : ¬ p row) (h : ∀ other, p other → ¬ r other) :
    ((rows.filter fun other => ¬ r other) ++ [row]).find? (fun other => p other) =
      rows.find? fun other => p other := by
  rw [List.find?_append, List.find?_filter]
  have hsame : (rows.find? fun other => decide (¬ r other) = true ∧ decide (p other) = true) =
      rows.find? fun other => p other := by
    refine List.find?_congr fun other _ => ?_
    by_cases hother : p other
    · simp [hother, h other hother]
    · simp [hother]
  rw [hsame]
  simp [hp]

end Replace

theorem slotHolder_putSlot (slot : StateSlot) (room : String) (key : StateKey) :
    slotHolder (db.putSlot slot) room key =
      if slot.roomId = room ∧ (slot.eventType, slot.stateKey) = key then some slot.eventId
      else slotHolder db room key := by
  unfold slotHolder Db.putSlot
  split_ifs with hslot
  · obtain ⟨rfl, rfl⟩ := hslot
    rw [find?_replace ⟨rfl, rfl, rfl⟩ fun other h => h]
    rfl
  · rw [find?_replace_other]
    · exact fun h => hslot ⟨h.1, Prod.ext h.2.1 h.2.2⟩
    · rintro other ⟨hroom, htype, hkey⟩ ⟨hroom', htype', hkey'⟩
      exact hslot ⟨hroom'.symm.trans hroom,
        Prod.ext (htype'.symm.trans htype) (hkey'.symm.trans hkey)⟩

variable {eventId eventType content now id : String} {sender ts uid : Int} {txnId : Option String}
  {state : StateMap} {u : Unit} {acc : Accepted} {result : Option Accepted}
  {keys : PublicKeyMap} {done : List Historic} {op : Op} {rules : Dag.Rules} {t t' : Tables}

theorem applyStateEventRawInTx_table {key : String} {event : MatrixEvent}
    (h : Store.applyStateEventRawInTx cfg eventId roomId sender eventType key content ts now db =
      .ok (event, db')) :
    db'.rooms = db.rooms ∧ db.getRoom roomId ≠ none ∧ ∀ r k, slotHolder db' r k =
      if roomId = r ∧ (eventType, key) = k then some eventId else slotHolder db r k := by
  obtain ⟨-, -, hroom, slotted, rfl, hcaches⟩ := Store.applyStateEventRawInTx_ok h
  obtain ⟨members, rfl⟩ := Store.refreshCaches_members hcaches
  exact ⟨rfl, hroom, fun r k => slotHolder_putSlot _ r k⟩

theorem insertTimelineEventRawInTx_table {event : MatrixEvent}
    (h : Store.insertTimelineEventRawInTx cfg eventId roomId sender eventType content ts txnId db =
      .ok (event, db')) :
    db'.rooms = db.rooms ∧ db.getRoom roomId ≠ none ∧
      ∀ r k, slotHolder db' r k = slotHolder db r k := by
  obtain ⟨-, -, hroom, relations, rfl⟩ := Store.insertTimelineEventRawInTx_ok h
  exact ⟨rfl, hroom, fun _ _ => rfl⟩

/-- A slot with a winner ends up with the winner. -/
theorem projectSlot_table {key : StateKey}
    (h : projectSlot cfg roomId state now key db = .ok (u, db')) :
    db'.rooms = db.rooms ∧ ∀ r k, slotHolder db' r k =
      if roomId = r ∧ k = key then (state.get? k).or (slotHolder db r k) else
        slotHolder db r k := by
  unfold projectSlot at h
  cases hget : state.get? key with
  | none =>
    simp only [hget, pure_ok] at h
    obtain ⟨-, rfl⟩ := h
    refine ⟨rfl, fun r k => ?_⟩
    split_ifs with hk
    · rw [hk.2, hget, Option.none_or]
    · rfl
  | some winner =>
    simp only [hget, bind_ok, query_ok] at h
    obtain ⟨_, _, ⟨rfl, rfl⟩, h⟩ := h
    split_ifs at h with hholder
    · obtain ⟨event, members, -, rfl⟩ := Store.setCurrentStateSlot_ok h
      refine ⟨rfl, fun r k => (slotHolder_putSlot _ r k).trans ?_⟩
      by_cases hk : roomId = r ∧ k = key
      · obtain ⟨rfl, rfl⟩ := hk
        simp [hget]
      · rw [if_neg hk, if_neg fun hk' => hk ⟨hk'.1, hk'.2.symm⟩]
    · obtain ⟨-, rfl⟩ := pure_ok.1 h
      refine ⟨rfl, fun r k => ?_⟩
      split_ifs with hk
      · obtain ⟨rfl, rfl⟩ := hk
        rw [hget, not_not.1 hholder, Option.some_or]
      · rfl

theorem each_projectSlot_table {keys : List StateKey}
    (h : Transaction.each (projectSlot cfg roomId state now) keys db = .ok (u, db')) :
    db'.rooms = db.rooms ∧ ∀ r k, slotHolder db' r k =
      if roomId = r ∧ k ∈ keys then (state.get? k).or (slotHolder db r k) else
        slotHolder db r k := by
  induction keys generalizing db with
  | nil =>
    obtain ⟨-, rfl⟩ := pure_ok.1 h
    exact ⟨rfl, fun r k => by simp⟩
  | cons key rest ih =>
    simp only [each, bind_ok] at h
    obtain ⟨_, mid, hfirst, hrest⟩ := h
    obtain ⟨hrooms, htable⟩ := projectSlot_table hfirst
    obtain ⟨hrooms', htable'⟩ := ih hrest
    refine ⟨hrooms'.trans hrooms, fun r k => ?_⟩
    rw [htable', htable]
    by_cases hroom : roomId = r
    · by_cases hk : k = key
      · by_cases hrest : k ∈ rest <;> cases state.get? k <;> simp [hroom, hk]
      · by_cases hrest : k ∈ rest <;> simp [hroom, hk, hrest]
    · simp [hroom]

/-- The rows of a room after a received event was projected. -/
def projected (acc : Accepted) (before : StateMap) (table : StateKey → Option String)
    (key : StateKey) : Option String :=
  match acc.pdu.slot? with
  | none => table key
  | some slot =>
    let own := if slot = key then some acc.pdu.eventId else table key
    if key ∈ slot :: changedSlots before acc.currentState then (acc.currentState.get? key).or own
    else own

theorem project_table {before : StateMap} (hid : acc.eventId = acc.pdu.eventId)
    (h : project cfg roomId acc before uid now db = .ok (u, db')) :
    db'.rooms = db.rooms ∧ db.getRoom roomId ≠ none ∧ ∀ r k, slotHolder db' r k =
      if roomId = r then projected acc before (slotHolder db r) k else slotHolder db r k := by
  unfold project at h
  cases hkey : acc.pdu.stateKey with
  | none =>
    simp only [hkey, bind_ok, pure_ok] at h
    obtain ⟨_, _, hraw, -, rfl⟩ := h
    obtain ⟨hrooms, hroom, htable⟩ := insertTimelineEventRawInTx_table hraw
    exact ⟨hrooms, hroom, fun r k => by simp [htable, projected, Pdu.slot?, hkey]⟩
  | some key =>
    simp only [hkey, bind_ok] at h
    obtain ⟨_, mid, hraw, heach⟩ := h
    obtain ⟨hrooms, hroom, htable⟩ := applyStateEventRawInTx_table hraw
    obtain ⟨hrooms', htable'⟩ := each_projectSlot_table heach
    refine ⟨hrooms'.trans hrooms, hroom, fun r k => ?_⟩
    rw [htable', htable, hid]
    by_cases hr : roomId = r <;> simp [hr, projected, Pdu.slot?, hkey]

/-! ### Events of the past -/

/-- Tables and rooms do not see the events of the past. -/
def SameTable (db db' : Db) : Prop :=
  db'.rooms = db.rooms ∧ ∀ r k, slotHolder db' r k = slotHolder db r k

theorem SameTable.refl (db : Db) : SameTable db db := ⟨rfl, fun _ _ => rfl⟩

theorem SameTable.trans {a b c : Db} (hab : SameTable a b) (hbc : SameTable b c) : SameTable a c :=
  ⟨hbc.1.trans hab.1, fun r k => (hbc.2 r k).trans (hab.2 r k)⟩

theorem insertPastRow_table {pdu : Pdu}
    (h : insertPastRow cfg roomId uid id pdu db = .ok (u, db')) : SameTable db db' := by
  simp only [insertPastRow, bind_ok, query_ok] at h
  obtain ⟨_, _, ⟨rfl, rfl⟩, h⟩ := h
  split_ifs at h
  · obtain ⟨-, rfl⟩ := pure_ok.1 h
    exact .refl db
  cases hkey : pdu.stateKey with
  | some key =>
    simp only [hkey] at h
    obtain ⟨event, rfl⟩ := Store.insertPastStateRow_ok h
    exact ⟨rfl, fun _ _ => rfl⟩
  | none =>
    simp only [hkey, bind_ok, pure_ok] at h
    obtain ⟨_, _, hraw, -, rfl⟩ := h
    obtain ⟨hrooms, -, htable⟩ := insertTimelineEventRawInTx_table hraw
    exact ⟨hrooms, htable⟩

/-- Past events are written one after another. -/
inductive HistoricChanges (rules : Dag.Rules) (roomId : String) :
    Tables → List Historic → Tables → Prop
  | nil (t : Tables) : HistoricChanges rules roomId t [] t
  | cons {t t' t'' : Tables} {h : Historic} {rest : List Historic}
      (first : HistoricChange rules roomId t h t')
      (more : HistoricChanges rules roomId t' rest t'') :
      HistoricChanges rules roomId t (h :: rest) t''

/-- A parsed event carries the id of its document and names the room. -/
structure ParsedEvent (fed : Federation) (roomId : String) (entry : String × Json) : Prop where
  canonical : entry.2.isCanonical = true
  id : Dag.computeEventId fed.rules entry.2 = .ok entry.1
  room : (entry.2.get? "room_id").bind Json.asStr? = some roomId

theorem parseAll_ok {events : List Json} {parsed : List (String × Json)}
    (h : parseAll fed roomId keys events db = .ok (parsed, db')) :
    db' = db ∧ parsed.map Prod.snd = events ∧ ∀ entry ∈ parsed, ParsedEvent fed roomId entry := by
  induction events generalizing parsed db with
  | nil =>
    obtain ⟨rfl, rfl⟩ := pure_ok.1 h
    simp
  | cons v rest ih =>
    simp only [parseAll, parseOfRoom, bind_ok, pure_ok] at h
    obtain ⟨entry, mid, hentry, more, _, hmore, rfl, rfl⟩ := h
    split_ifs at hentry with hroom
    · simp at hentry
    simp only [bind_ok, lift_ok, Except.mapError_eq_ok,
      pure_ok] at hentry
    obtain ⟨obj, _, hobj, _, _, ⟨-, rfl⟩, id, _, ⟨hid, rfl⟩, rfl, rfl⟩ := hentry
    obtain ⟨rfl, hcanonical, rfl⟩ := jsonObj_ok hobj
    obtain ⟨rfl, rfl, hall⟩ := ih hmore
    refine ⟨rfl, rfl, List.forall_mem_cons.2 ⟨⟨hcanonical, hid, not_not.1 hroom⟩, hall⟩⟩

theorem historicEvent_ok {entry : String × Json} {result : Option Historic}
    (hentry : ParsedEvent fed roomId entry)
    (h : historicEvent cfg fed roomId entry db = .ok (result, db')) :
    (result = none ∧ db' = db) ∨
      ∃ h, result = some h ∧ HistoricChange fed.rules roomId db.dag h db'.dag ∧
        SameTable db db' := by
  simp only [historicEvent, bind_ok, query_ok] at h
  obtain ⟨_, _, ⟨rfl, rfl⟩, h⟩ := h
  split_ifs at h with hstate
  · obtain ⟨rfl, rfl⟩ := pure_ok.1 h
    exact .inl ⟨rfl, rfl⟩
  simp only [bind_ok, lift_ok, Except.mapError_eq_ok, changeDag,
    change_ok, pure_ok] at h
  obtain ⟨uid, mid, husers, past, _, ⟨hpast, rfl⟩, _, _, rfl, _, _, hrow, rfl, rfl⟩ := h
  obtain ⟨users, rfl⟩ := ensureUsers_ok husers
  obtain ⟨hwire, hjson, hspec⟩ := Dag.acceptHistoric_ok hpast
  have hreads := Dag.Pdu.reads_of_fromWire hwire
  obtain ⟨hrooms, htable⟩ := insertPastRow_table hrow
  refine .inr ⟨past, rfl, ⟨?_, ?_, hspec, ?_, ?_, insertPastRow_dag _ _ _ hrow⟩, hrooms, htable⟩
  · rw [hreads.eventId, hjson]
    exact hwire
  · rw [hreads.eventId, hjson]
    exact hentry.id
  · exact Option.some.inj (hreads.roomId.symm.trans hentry.room)
  · rw [hreads.eventId]
    simpa using hstate

theorem historicEvents_ok {entries : List (String × Json)}
    (hentries : ∀ entry ∈ entries, ParsedEvent fed roomId entry)
    (h : historicEvents cfg fed roomId entries db = .ok (done, db')) :
    HistoricChanges fed.rules roomId db.dag done db'.dag ∧ SameTable db db' := by
  induction entries generalizing done db with
  | nil =>
    obtain ⟨rfl, rfl⟩ := pure_ok.1 h
    exact ⟨.nil _, .refl db⟩
  | cons entry rest ih =>
    obtain ⟨hentry, hrest⟩ := List.forall_mem_cons.1 hentries
    simp only [historicEvents, bind_ok, pure_ok] at h
    obtain ⟨result, mid, hfirst, more, _, hmore, rfl, rfl⟩ := h
    obtain ⟨hmore, hsame'⟩ := ih hrest hmore
    rcases historicEvent_ok hentry hfirst with ⟨rfl, rfl⟩ | ⟨past, rfl, hchange, hsame⟩
    · exact ⟨hmore, hsame'⟩
    · exact ⟨.cons hchange hmore, hsame.trans hsame'⟩

theorem acceptHistory_ok {events : List Json}
    (h : acceptHistory cfg fed roomId events keys db = .ok (done, db')) :
    HistoricChanges fed.rules roomId db.dag done db'.dag ∧ SameTable db db' := by
  simp only [acceptHistory, bind_ok, query_ok] at h
  obtain ⟨_, _, ⟨rfl, rfl⟩, h⟩ := h
  by_cases hroom : db.dag.isF3Room roomId
  case neg =>
    rw [if_pos hroom] at h
    simp at h
  rw [if_neg (not_not.2 hroom), bind_ok] at h
  obtain ⟨parsed, mid, hparsed, h⟩ := h
  obtain ⟨rfl, -, hall⟩ := parseAll_ok hparsed
  exact historicEvents_ok (fun entry hentry => hall entry ((List.mem_insertionSort _).1 hentry)) h

/-! ### Requests -/

/-- The table after an event that moves nothing but its own slot. -/
def ownSlot (pdu : Pdu) (table : StateKey → Option String) (key : StateKey) : Option String :=
  if pdu.slot? = some key then some pdu.eventId else table key

/-- What a request other than a snapshot does to the graph, the rooms and the table. -/
inductive Effect (fed : Federation) (db : Db) : List Pdu → Db → Prop
  | same : Effect fed db [] db
  | created (room : Room) (fresh : db.getRoom room.id = none) :
      Effect fed db [] { db with rooms := db.rooms ++ [room], dag := db.dag.markRoom room.id }
  | legacy {db' : Db} (room : String) (graph : db'.dag = db.dag) (rooms : db'.rooms = db.rooms)
      (stored : db.getRoom room ≠ none) (unmarked : ¬ db.dag.isF3Room room = true)
      (table : ∀ r k, r ≠ room → slotHolder db' r k = slotHolder db r k) : Effect fed db [] db'
  | localEvent {db' : Db} (room : String) (acc : Accepted)
      (graph : LiveChange fed.rules room db.dag acc db'.dag)
      (prev : acc.pdu.prevEvents = db.dag.extremityIds room) (rooms : db'.rooms = db.rooms)
      (stored : db.getRoom room ≠ none)
      (table : ∀ r k, slotHolder db' r k =
        if room = r then ownSlot acc.pdu (slotHolder db r) k else slotHolder db r k) :
      Effect fed db [acc.pdu] db'
  | softFailed {db' : Db} (room : String) (acc : Accepted)
      (graph : LiveChange fed.rules room db.dag acc db'.dag) (failed : acc.softFailed = true)
      (rooms : db'.rooms = db.rooms) (table : ∀ r k, slotHolder db' r k = slotHolder db r k) :
      Effect fed db [acc.pdu] db'
  | received {db' : Db} (room : String) (acc : Accepted) (before : StateMap)
      (graph : LiveChange fed.rules room db.dag acc db'.dag) (passed : acc.softFailed = false)
      (current : Dag.currentState fed.rules (db.dag.conn fed.rules room) = .ok before)
      (rooms : db'.rooms = db.rooms) (stored : db.getRoom room ≠ none)
      (table : ∀ r k, slotHolder db' r k =
        if room = r then projected acc before (slotHolder db r) k else slotHolder db r k) :
      Effect fed db [acc.pdu] db'
  | past {db' : Db} (room : String) (done : List Historic)
      (graph : HistoricChanges fed.rules room db.dag done db'.dag) (rooms : db'.rooms = db.rooms)
      (table : ∀ r k, slotHolder db' r k = slotHolder db r k) :
      Effect fed db (done.map Historic.pdu) db'

theorem applyStateEvent_effect (lawful : fed.rules.Lawful) {kind key : String}
    (h : applyStateEvent cfg fed eventId roomId sender kind key content ts now db =
      .ok (result, db')) :
    Effect fed db (result.map Accepted.pdu).toList db' := by
  simp only [applyStateEvent, bind_ok] at h
  obtain ⟨prepared, mid, hprepared, h⟩ := h
  cases prepared with
  | none =>
    simp only [bind_ok, pure_ok] at h
    obtain ⟨_, after, hraw, rfl, rfl⟩ := h
    obtain ⟨rfl, hunmarked⟩ := prepareLocal_none hprepared
    obtain ⟨hrooms, hstored, htable⟩ := applyStateEventRawInTx_table hraw
    refine .legacy roomId (applyStateEventRawInTx_dag _ _ _ hraw) hrooms hstored hunmarked
      fun r k hr => ?_
    rw [htable, if_neg fun h => hr h.1.symm]
  | some prepared =>
    simp only [bind_ok, pure_ok] at h
    obtain ⟨_, after, hraw, rfl, rfl⟩ := h
    obtain ⟨dag, rfl, hlive, hid, hprev, hslot⟩ := prepareLocal_live lawful hprepared
    have hdag : after.dag = dag := applyStateEventRawInTx_dag _ _ _ hraw
    obtain ⟨hrooms, hstored, htable⟩ := applyStateEventRawInTx_table hraw
    refine .localEvent roomId _ (hdag.symm ▸ hlive) hprev hrooms hstored fun r k => ?_
    rw [htable, hid]
    by_cases hr : roomId = r
    · by_cases hk : (kind, key) = k
      · simp [hr, hk, ownSlot, hslot]
      · simp only [hr, hk, ownSlot, hslot, Option.map_some, Option.some.injEq, and_false, if_false,
          if_true]
        rfl
    · simp only [hr, false_and, if_false]
      rfl

theorem insertTimelineEvent_effect (lawful : fed.rules.Lawful) {kind : String}
    (h : insertTimelineEvent cfg fed eventId roomId sender kind content ts txnId db =
      .ok (result, db')) :
    Effect fed db (result.map Accepted.pdu).toList db' := by
  simp only [insertTimelineEvent, bind_ok] at h
  obtain ⟨prepared, mid, hprepared, h⟩ := h
  cases prepared with
  | none =>
    simp only [bind_ok, pure_ok] at h
    obtain ⟨_, after, hraw, rfl, rfl⟩ := h
    obtain ⟨rfl, hunmarked⟩ := prepareLocal_none hprepared
    obtain ⟨hrooms, hstored, htable⟩ := insertTimelineEventRawInTx_table hraw
    exact .legacy roomId (insertTimelineEventRawInTx_dag _ _ _ hraw) hrooms hstored hunmarked
      fun r k _ => htable r k
  | some prepared =>
    simp only [bind_ok, pure_ok] at h
    obtain ⟨_, after, hraw, rfl, rfl⟩ := h
    obtain ⟨dag, rfl, hlive, -, hprev, hslot⟩ := prepareLocal_live lawful hprepared
    have hdag : after.dag = dag := insertTimelineEventRawInTx_dag _ _ _ hraw
    obtain ⟨hrooms, hstored, htable⟩ := insertTimelineEventRawInTx_table hraw
    refine .localEvent roomId _ (hdag.symm ▸ hlive) hprev hrooms hstored fun r k => ?_
    rw [htable]
    simp only [ownSlot, hslot, Option.map_none, reduceCtorEq, if_false, ite_self]
    rfl

theorem receive_effect {origin : Option String} {pdu : Json}
    (h : receive cfg fed origin pdu keys now db = .ok ((id, result), db')) :
    Effect fed db (result.map Accepted.pdu).toList db' := by
  rcases receive_ok h with ⟨rfl, rfl⟩ | ⟨acc, rfl, hspec⟩
  · exact .same
  obtain ⟨mid, dag, uid, before, ⟨users, rfl⟩, hlive, hcurrent, ⟨hsoft, rfl⟩ | ⟨hsoft, hproject⟩⟩ :=
    hspec.written
  · exact .softFailed _ acc hlive hsoft rfl fun _ _ => rfl
  · have hdag : db'.dag = dag := project_dag _ _ _ hproject
    obtain ⟨hrooms, hstored, htable⟩ := project_table hspec.accepted.eventId_eq hproject
    exact .received _ acc before (hdag.symm ▸ hlive) hsoft hcurrent hrooms hstored htable

def Op.isSnapshot : Op → Bool
  | snapshot .. => true
  | _ => false

/-- Every request other than a snapshot has one of these effects. -/
theorem apply_effect (lawful : fed.rules.Lawful) (hop : op.isSnapshot = false) {pdus : List Pdu}
    (h : op.apply cfg fed db = .ok (pdus, db')) : Effect fed db pdus db' := by
  cases op with
  | createRoom room =>
    simp only [Op.apply, createRoom, bind_ok, mapError_ok,
      query_ok, pure_ok] at h
    obtain ⟨_, _, ⟨_, _, ⟨rfl, rfl⟩, h⟩, rfl, rfl⟩ := h
    split_ifs at h with hexists
    · simp at h
    · simp only [bind_ok, change_ok, changeDag] at h
      obtain ⟨_, _, rfl, rfl⟩ := h
      exact .created room (by simpa using hexists)
  | localState eventId roomId sender kind key content ts now =>
    simp only [Op.apply, bind_ok, mapError_ok, pure_ok] at h
    obtain ⟨result, _, h, rfl, rfl⟩ := h
    exact applyStateEvent_effect lawful h
  | localMessage eventId roomId sender kind content ts =>
    simp only [Op.apply, bind_ok, mapError_ok, pure_ok] at h
    obtain ⟨result, _, h, rfl, rfl⟩ := h
    exact insertTimelineEvent_effect lawful h
  | receive origin pdu keys now =>
    simp only [Op.apply, bind_ok, pure_ok] at h
    obtain ⟨⟨id, result⟩, _, h, rfl, rfl⟩ := h
    exact receive_effect h
  | historic roomId events keys =>
    simp only [Op.apply, bind_ok, mapError_ok, pure_ok] at h
    obtain ⟨done, _, h, rfl, rfl⟩ := h
    obtain ⟨hchanges, hrooms, htable⟩ := acceptHistory_ok h
    exact .past roomId done hchanges hrooms htable
  | snapshot => cases hop

/-- A refused request changes nothing and accepts nothing. -/
theorem step_effect (lawful : fed.rules.Lawful) (hop : op.isSnapshot = false) (db : Db) :
    Effect fed db (accepted cfg fed db op) (step cfg fed db op) := by
  rcases settle_cases (op.apply cfg fed) db with ⟨e, herr, hsame⟩ | ⟨pdus, hok⟩
  · rw [step, hsame, accepted, herr]
    exact .same
  · have hpdus : accepted cfg fed db op = pdus := by rw [accepted, hok]
    rw [hpdus]
    exact apply_effect lawful hop hok

/-- What a request other than a snapshot does to the graph, and the events it accepts. -/
inductive GraphChange (rules : Dag.Rules) : Tables → List Pdu → Tables → Prop
  | same (t : Tables) : GraphChange rules t [] t
  | mark (t : Tables) (roomId : String) : GraphChange rules t [] (t.markRoom roomId)
  | live {t t' : Tables} {roomId : String} {acc : Accepted}
      (change : LiveChange rules roomId t acc t') : GraphChange rules t [acc.pdu] t'
  | past {t t' : Tables} {roomId : String} {done : List Historic}
      (changes : HistoricChanges rules roomId t done t') :
      GraphChange rules t (done.map Historic.pdu) t'

theorem Effect.graph {pdus : List Pdu} (h : Effect fed db pdus db') :
    GraphChange fed.rules db.dag pdus db'.dag := by
  cases h with
  | same => exact .same _
  | created room => exact .mark _ _
  | legacy room graph =>
    rw [graph]
    exact .same _
  | localEvent room acc graph => exact .live graph
  | softFailed room acc graph => exact .live graph
  | received room acc before graph => exact .live graph
  | past room done graph => exact .past graph

theorem step_change (lawful : fed.rules.Lawful) (hop : op.isSnapshot = false) (db : Db) :
    GraphChange fed.rules db.dag (accepted cfg fed db op) (step cfg fed db op).dag :=
  (step_effect lawful hop db).graph

end Server.F3
