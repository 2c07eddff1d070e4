import Mail4Agent.Dag.Change
import Mail4Agent.Server.F3

/-!
# What the requests do to the event graph

Every request is traced to changes of the graph tables: a local event and a received
event are one `LiveChange` or none, a batch of past events is a run of
`HistoricChange`s. The rows outside the graph are written by functions that leave the
graph alone.
-/

namespace Dag

variable {rules : Rules} {db : DagRead} {room : String}

/-- A local event names its room, its slot and the extremities it is made on top of. -/
theorem localEvent_ok (lawful : rules.Lawful) {signer : Signer} {ts : Nat}
    {sender kind : String} {key : Option String} {content : Json} {acc : Accepted}
    (h : localEvent rules db signer room ts sender kind key content = .ok acc) :
    (∃ json, AcceptSpec rules db acc.pdu.eventId json acc ∧
        computeEventId rules json = .ok acc.pdu.eventId) ∧ acc.pdu.roomId = room ∧
      acc.pdu.prevEvents = db.extremities ∧ acc.pdu.slot? = key.map fun key => (kind, key) := by
  unfold localEvent at h
  simp only [Except.bind_eq_ok] at h
  obtain ⟨obj, htemplate, signed, hsigned, haccept⟩ := h
  have hacc := accept_ok haccept
  have hreads := Pdu.reads_of_fromWire hacc.wire
  -- The template's fields survive signing.
  unfold signTemplate at hsigned
  simp only [Except.bind_eq_ok, Except.mapError_eq_ok, Except.pure_eq_ok] at hsigned
  obtain ⟨json, hjson, id, hid, rfl⟩ := hsigned
  have hsign := lawful.sign_get? hjson
  unfold template at htemplate
  simp only [Except.bind_eq_ok, Except.mapError_eq_ok] at htemplate
  obtain ⟨_, -, current, -, slots, -, htemplate⟩ := htemplate
  split at htemplate
  case h_2 => cases htemplate
  rename_i obj' hcanonical
  obtain rfl := Except.pure_eq_ok.1 htemplate
  obtain ⟨rfl, -⟩ := Json.canonicalObject?_eq_some hcanonical
  refine ⟨⟨_, hreads.eventId ▸ hacc, hreads.eventId ▸ hid⟩, ?_, ?_, ?_⟩
  · have hroom := hreads.roomId
    rw [hsign _ (by decide) (by decide)] at hroom
    simpa [Json.get?, templateFields, List.lookup, Json.asStr?, eq_comm] using hroom
  · refine Pdu.eventIds_of_arr hreads.prevEvents ?_
    rw [hsign _ (by decide) (by decide)]
    simp [Json.get?, templateFields, List.lookup]
  · have hkind := hreads.kind
    have hkey := hreads.stateKey
    rw [hsign _ (by decide) (by decide)] at hkind hkey
    have hkind' : acc.pdu.kind = kind := by
      simpa [Json.get?, templateFields, List.lookup, Json.asStr?, eq_comm] using hkind
    have hkey' : acc.pdu.stateKey = key := by
      rw [hkey]
      cases key <;> simp [Json.get?, templateFields, List.lookup, Json.asStr?]
    rw [Pdu.slot?, hkind', hkey']

end Dag

namespace Server.F3

open Transaction
open Dag (Accepted AcceptSpec Historic HistoricChange LiveChange Pdu PublicKeyMap StateKey StateMap
  Tables)

variable {cfg : Config} {fed : Federation} {db db' : Db} {roomId : String}

/-! ### Rows outside the graph -/

variable {v : Json} {uid sender ts : Int} {now eventId eventType content id : String}
  {txnId origin : Option String} {acc : Accepted} {keys : PublicKeyMap} {result : Option Accepted}
  {done : List Historic} {op : Op}

theorem strOf_ok {key text : String} : strOf v key db = .ok (text, db') ↔
    (v.get? key).bind Json.asStr? = some text ∧ db = db' := by
  simp [strOf]

theorem jsonObj_ok {obj : Json} (h : jsonObj v db = .ok (obj, db')) :
    obj = v ∧ obj.isCanonical = true ∧ db = db' := by
  obtain ⟨hobj, rfl⟩ := required_ok.1 h
  obtain ⟨rfl, hcanonical⟩ := Json.canonicalObject?_eq_some hobj
  exact ⟨rfl, hcanonical, rfl⟩

/-- Looking up or adding users touches the users only. -/
def SameButUsers (db db' : Db) : Prop := ∃ users, db' = { db with matrixUsers := users }

theorem SameButUsers.refl (db : Db) : SameButUsers db db := ⟨_, rfl⟩

theorem SameButUsers.trans {a b c : Db} (hab : SameButUsers a b) (hbc : SameButUsers b c) :
    SameButUsers a c := by
  obtain ⟨u, rfl⟩ := hab
  obtain ⟨v, rfl⟩ := hbc
  exact ⟨v, rfl⟩

theorem ensureUser_ok {field mxid : String} {id : Int}
    (h : ensureUser fed field mxid db = .ok (id, db')) : SameButUsers db db' := by
  unfold ensureUser at h
  split_ifs at h with hremote
  · simp only [ensureRemoteUser, hremote, not_true_eq_false, if_false, bind_ok,
      query_ok] at h
    obtain ⟨found, _, ⟨hfound, rfl⟩, h⟩ := h
    cases found with
    | some found =>
      obtain ⟨-, rfl⟩ := pure_ok.1 h
      exact .refl db
    | none =>
      simp only [bind_ok, query_ok, change_ok,
        pure_ok] at h
      obtain ⟨_, _, ⟨rfl, rfl⟩, _, _, rfl, -, rfl⟩ := h
      exact ⟨_, rfl⟩
  · simp only [ensureLocalUser, bind_ok, query_ok,
      required_ok] at h
    obtain ⟨_, _, ⟨-, rfl⟩, -, rfl⟩ := h
    exact .refl db

theorem ensureUsers_ok {pdu : Json} (h : ensureUsers fed pdu db = .ok (uid, db')) :
    SameButUsers db db' := by
  simp only [ensureUsers, bind_ok, strOf_ok] at h
  obtain ⟨_, _, ⟨-, rfl⟩, _, mid, hsender, h⟩ := h
  have hsender := ensureUser_ok hsender
  split_ifs at h
  · simp only [bind_ok, strOf_ok, pure_ok] at h
    obtain ⟨_, _, ⟨-, rfl⟩, _, _, hkey, -, rfl⟩ := h
    exact hsender.trans (ensureUser_ok hkey)
  · obtain ⟨-, rfl⟩ := pure_ok.1 h
    exact hsender

theorem projectSlot_dag {state : StateMap} {key : StateKey} :
    Transaction.Keeps (Transaction.Same Db.dag) (projectSlot cfg roomId state now key) := by
  intro s u t h
  unfold projectSlot at h
  cases hget : state.get? key with
  | none =>
    simp only [hget, pure_ok] at h
    exact congrArg Db.dag h.2.symm
  | some winner =>
    simp only [hget, bind_ok, query_ok] at h
    obtain ⟨_, _, ⟨-, rfl⟩, h⟩ := h
    split_ifs at h
    · obtain ⟨_, _, -, rfl⟩ := Store.setCurrentStateSlot_ok h
      rfl
    · exact congrArg Db.dag (pure_ok.1 h).2.symm

theorem applyStateEventRawInTx_dag {key : String} :
    Transaction.Keeps (Transaction.Same Db.dag)
      (Store.applyStateEventRawInTx cfg eventId roomId sender eventType key content ts now) := by
  intro s event t h
  obtain ⟨-, -, -, slotted, rfl, hcaches⟩ := Store.applyStateEventRawInTx_ok h
  obtain ⟨members, rfl⟩ := Store.refreshCaches_members hcaches
  rfl

theorem insertTimelineEventRawInTx_dag :
    Transaction.Keeps (Transaction.Same Db.dag)
      (Store.insertTimelineEventRawInTx cfg eventId roomId sender eventType content ts txnId) := by
  intro s event t h
  obtain ⟨-, -, -, relations, rfl⟩ := Store.insertTimelineEventRawInTx_ok h
  rfl

theorem project_dag {prevCurrent : StateMap} :
    Transaction.Keeps (Transaction.Same Db.dag)
      (project cfg roomId acc prevCurrent uid now) := by
  unfold project
  cases acc.pdu.stateKey with
  | some key =>
    exact applyStateEventRawInTx_dag.bind fun _ => .each (fun _ => projectSlot_dag) _
  | none => exact insertTimelineEventRawInTx_dag.bind fun _ => keeps_pure _

theorem insertPastRow_dag {pdu : Pdu} :
    Transaction.Keeps (Transaction.Same Db.dag) (insertPastRow cfg roomId uid id pdu) := by
  unfold insertPastRow
  refine (keeps_query _).bind fun known => ?_
  split_ifs
  · exact keeps_pure _
  cases pdu.stateKey with
  | some key =>
    intro s u t h
    obtain ⟨event, rfl⟩ := Store.insertPastStateRow_ok h
    rfl
  | none => exact insertTimelineEventRawInTx_dag.bind fun _ => keeps_pure _

/-! ### Live events -/

/-- A local event is accepted and stored, unless its room has no event graph. -/
theorem prepareLocal_ok {kind : String} {key : Option String}
    {result : Option (Prepared × Accepted)}
    (h : prepareLocal cfg fed roomId sender kind key content ts db = .ok (result, db')) :
    (result = none ∧ db' = db ∧ ¬ db.dag.isF3Room roomId = true) ∨
      ∃ p acc mxid value stored, result = some (p, acc) ∧ p.eventId = acc.eventId ∧
        db.dag.isF3Room roomId = true ∧
        Dag.localEvent fed.rules (db.dag.conn fed.rules roomId) fed.signer roomId ts.toNat mxid kind
          key value = .ok acc ∧
        db.dag.storeAccepted roomId acc = some stored ∧ db' = { db with dag := stored } := by
  simp only [prepareLocal, bind_ok, query_ok] at h
  obtain ⟨_, _, ⟨rfl, rfl⟩, h⟩ := h
  by_cases hroom : db.dag.isF3Room roomId
  case neg =>
    rw [if_pos hroom, pure_ok] at h
    exact .inl ⟨h.1.symm, h.2.symm, hroom⟩
  rw [if_neg (not_not.2 hroom)] at h
  simp only [bind_ok, query_ok, required_ok,
    lift_ok, Except.mapError_eq_ok, changeDag, change_ok,
    pure_ok] at h
  obtain ⟨_, _, ⟨rfl, rfl⟩, mxid, _, ⟨-, rfl⟩, value, _, ⟨-, rfl⟩, _, _, ⟨rfl, rfl⟩, acc, _,
    ⟨hacc, rfl⟩, stored, _, ⟨hstored, rfl⟩, _, _, rfl, rfl, rfl⟩ := h
  exact .inr ⟨_, acc, mxid, _, stored, rfl, rfl, hroom, hacc, hstored, rfl⟩

/-- A received event that was accepted, read backwards: the graph takes it, and unless it
was soft-failed the room-visible rows follow. -/
structure ReceiveSpec (cfg : Config) (fed : Federation) (pdu : Json) (now : String) (db : Db)
    (acc : Accepted) (db' : Db) : Prop where
  canonical : pdu.isCanonical = true
  accepted : AcceptSpec fed.rules (db.dag.conn fed.rules acc.pdu.roomId) acc.pdu.eventId pdu acc
  written : ∃ mid dag uid prevCurrent, SameButUsers db mid ∧
    LiveChange fed.rules acc.pdu.roomId db.dag acc dag ∧
    Dag.currentState fed.rules (db.dag.conn fed.rules acc.pdu.roomId) = .ok prevCurrent ∧
    ((acc.softFailed = true ∧ db' = { mid with dag := dag }) ∨
      (acc.softFailed = false ∧
        project cfg acc.pdu.roomId acc prevCurrent uid now { mid with dag := dag } = .ok ((), db')))

theorem receive_ok {pdu : Json}
    (h : receive cfg fed origin pdu keys now db = .ok ((id, result), db')) :
    (result = none ∧ db' = db) ∨
      ∃ acc, result = some acc ∧ ReceiveSpec cfg fed pdu now db acc db' := by
  simp only [receive, bind_ok, mapError_ok, strOf_ok] at h
  obtain ⟨room, _, ⟨hroom, rfl⟩, sender, _, ⟨-, rfl⟩, h⟩ := h
  split_ifs at h
  · simp at h
  simp only [bind_ok, query_ok] at h
  obtain ⟨_, _, ⟨rfl, rfl⟩, h⟩ := h
  by_cases hf3 : db.dag.isF3Room room
  case neg =>
    rw [if_pos hf3] at h
    simp at h
  rw [if_neg (not_not.2 hf3)] at h
  simp only [bind_ok, mapError_ok, lift_ok,
    Except.mapError_eq_ok] at h
  obtain ⟨obj, _, hobj, id', _, ⟨hid, rfl⟩, h⟩ := h
  obtain ⟨rfl, hcanonical, rfl⟩ := jsonObj_ok hobj
  split_ifs at h with hknown
  · rw [pure_ok] at h
    obtain ⟨hresult, rfl⟩ := h
    cases hresult
    exact .inl ⟨rfl, rfl⟩
  simp only [bind_ok, lift_ok, Except.mapError_eq_ok] at h
  obtain ⟨wire, _, ⟨-, rfl⟩, h⟩ := h
  split_ifs at h with hmissing
  · simp at h
  simp only [bind_ok, mapError_ok, lift_ok,
    Except.mapError_eq_ok, required_ok, changeDag, change_ok] at h
  obtain ⟨uid, mid, husers, prevCurrent, _, ⟨hcurrent, rfl⟩, acc, _, ⟨hacc, rfl⟩, stored, _,
    ⟨hstored, rfl⟩, _, _, rfl, h⟩ := h
  obtain ⟨id'', hhash, hspec⟩ := Dag.acceptWire_ok hacc
  have hreads := Dag.Pdu.reads_of_fromWire hspec.wire
  cases hroom.symm.trans hreads.roomId
  rw [← hreads.eventId] at hspec hhash
  have hlive := LiveChange.of_storeAccepted hspec hhash rfl hf3 hstored
  -- The skeleton flag does not matter for what follows.
  have hchange : ∃ dag, dag = (if Dag.isSkeleton fed.rules acc.json then
      stored.markSkeleton acc.eventId else stored) ∧
      LiveChange fed.rules acc.pdu.roomId db.dag acc dag := by
    refine ⟨_, rfl, ?_⟩
    rw [hspec.eventId_eq]
    split_ifs
    · exact hlive.2
    · exact hlive.1
  obtain ⟨dag, hdag, hchange⟩ := hchange
  rw [← hdag] at h
  cases hsoft : acc.softFailed with
  | true =>
    simp only [hsoft, not_true_eq_false, if_false, pure_ok] at h
    obtain ⟨hresult, rfl⟩ := h
    cases hresult
    exact .inr ⟨acc, rfl, hcanonical, hspec, mid, dag, uid, prevCurrent, ensureUsers_ok husers,
      hchange, hcurrent, .inl ⟨hsoft, rfl⟩⟩
  | false =>
    simp only [hsoft, Bool.false_eq_true, not_false_eq_true, if_true, bind_ok,
      mapError_ok, pure_ok] at h
    obtain ⟨_, _, hproject, hresult, rfl⟩ := h
    cases hresult
    exact .inr ⟨acc, rfl, hcanonical, hspec, mid, dag, uid, prevCurrent, ensureUsers_ok husers,
      hchange, hcurrent, .inr ⟨hsoft, hproject⟩⟩

theorem prepareLocal_none {kind : String} {key : Option String}
    (h : prepareLocal cfg fed roomId sender kind key content ts db = .ok (none, db')) :
    db' = db ∧ ¬ db.dag.isF3Room roomId = true := by
  rcases prepareLocal_ok h with ⟨-, h⟩ | ⟨_, _, _, _, _, hsome, -⟩
  · exact h
  · cases hsome

/-- A local event is written to the graph before the room-visible rows. -/
theorem prepareLocal_live (lawful : fed.rules.Lawful) {kind : String} {key : Option String}
    {p : Prepared}
    (h : prepareLocal cfg fed roomId sender kind key content ts db = .ok (some (p, acc), db')) :
    ∃ dag, db' = { db with dag := dag } ∧ LiveChange fed.rules roomId db.dag acc dag ∧
      p.eventId = acc.pdu.eventId ∧ acc.pdu.prevEvents = db.dag.extremityIds roomId ∧
      acc.pdu.slot? = key.map fun key => (kind, key) := by
  rcases prepareLocal_ok h with ⟨hnone, -⟩ | ⟨p', acc', mxid, value, stored, hsome, hid, hmarked,
    hlocal, hstored, rfl⟩
  · cases hnone
  · cases hsome
    obtain ⟨⟨json, hspec, hhash⟩, hroom, hprev, hslot⟩ := Dag.localEvent_ok lawful hlocal
    refine ⟨stored, rfl, (LiveChange.of_storeAccepted hspec hhash hroom hmarked hstored).1, ?_,
      hprev, hslot⟩
    rw [hid, hspec.eventId_eq]

end Server.F3
