import Mail4Agent.Dag.Tables
import Mail4Agent.Foundation.Transaction

/-!
# What acceptance says

A successful `accept` or `acceptHistoric` read backwards: which checks passed, where
the new state comes from, and what the extremities become. Then the same for the
tables: which rows, edges, states and extremities there are once an accepted event
has been written, in terms of those before.
-/

namespace Dag

variable {rules : Rules} {db : DagRead} {id : String} {json : Json}

/-! ### Wire events -/

namespace Pdu

variable {pdu : Pdu}

theorem required_eq_ok {α : Type} {key : String} {value : Option α} {a : α} :
    required key value = .ok a ↔ value = some a := by
  cases value <;> simp [required]

theorem eventIds_of_arr {v : Json} {key : String} {ids found : List String}
    (h : eventIds rules v key = .ok found) (hv : v.get? key = some (.arr (ids.map .str))) :
    found = ids := by
  simp only [eventIds, hv, Option.bind_some, Json.asArr?] at h
  rw [Except.mapM_eq_ok, List.forall₂_map_left_iff] at h
  have hmem : List.Forall₂ (· = ·) ids found := h.imp fun a b hab => by
    simp only [Except.bind_eq_ok, required_eq_ok, Json.asStr?, Option.some.injEq,
      Except.pure_eq_ok] at hab
    obtain ⟨_, rfl, _, -, rfl⟩ := hab
    rfl
  exact (List.forall₂_eq_eq_eq ▸ hmem).symm

/-- Where the fields of a parsed event come from. -/
structure Reads (rules : Rules) (id : String) (v : Json) (pdu : Pdu) : Prop where
  eventId : pdu.eventId = id
  roomId : (v.get? "room_id").bind Json.asStr? = some pdu.roomId
  sender : (v.get? "sender").bind Json.asStr? = some pdu.sender
  kind : (v.get? "type").bind Json.asStr? = some pdu.kind
  stateKey : pdu.stateKey = (v.get? "state_key").bind Json.asStr?
  prevEvents : eventIds rules v "prev_events" = .ok pdu.prevEvents
  authEvents : eventIds rules v "auth_events" = .ok pdu.authEvents
  depth : pdu.depth = ((v.get? "depth").bind Json.asU64?).getD 0

theorem reads_of_fromWire (h : fromWire rules id json = .ok pdu) : Reads rules id json pdu := by
  unfold fromWire at h
  simp only [Except.bind_eq_ok, Except.pure_eq_ok, required_eq_ok] at h
  obtain ⟨room, hroom, _, -, sender, hsender, _, -, ts, -, kind, hkind, content, -,
    prev, hprev, auth, hauth, rfl⟩ := h
  exact ⟨rfl, hroom, hsender, hkind, rfl, hprev, hauth, rfl⟩

theorem ids_applyTo {before : StateMap} {other : String} (h : other ∈ (pdu.applyTo before).ids) :
    other = pdu.eventId ∨ other ∈ before.ids := by
  unfold applyTo at h
  split at h
  · exact StateMap.mem_ids_insert h
  · exact .inr h

end Pdu

theorem DagRead.pdu_eq_some {pdu : Pdu} (h : db.pdu id = some pdu) :
    pdu ∈ db.events ∧ pdu.eventId = id :=
  ⟨List.mem_of_find?_eq_some h, by simpa using List.find?_some h⟩

theorem DagRead.pdu_ne_none_of_mem {pdu : Pdu} (h : pdu ∈ db.events) :
    db.pdu pdu.eventId ≠ none := by
  simp only [DagRead.pdu, ne_eq, List.find?_eq_none, not_forall]
  exact ⟨pdu, h, by simp⟩

theorem DagRead.pdu_withNew (pdu : Pdu) (other : String) :
    (db.withNew pdu).pdu other = if pdu.eventId = other then some pdu else db.pdu other := by
  simp only [DagRead.pdu, DagRead.withNew, List.find?_cons]
  by_cases h : pdu.eventId = other <;> simp [h]

/-- Documents with one id agree on what the hash covers. -/
theorem computeEventId_get? (lawful : rules.Lawful) {json' : Json}
    (h : computeEventId rules json = .ok id) (h' : computeEventId rules json' = .ok id) :
    ∀ key ∈ ["room_id", "auth_events"], json.get? key = json'.get? key := by
  unfold computeEventId at h h'
  simp only [Except.bind_eq_ok, Except.mapError_eq_ok, Except.pure_eq_ok] at h h'
  obtain ⟨hash, hhash, _, -, rfl⟩ := h
  obtain ⟨hash', hhash', _, -, heq⟩ := h'
  have hsame : hash' = hash := String.toList_injective (by simpa using congrArg String.toList heq)
  exact lawful.hash_get? hhash (hsame ▸ hhash')

/-- Two documents with one id cite the same auth events. -/
theorem authEvents_of_hash (lawful : rules.Lawful) {json' : Json} {pdu pdu' : Pdu}
    (h : computeEventId rules json = .ok id) (h' : computeEventId rules json' = .ok id)
    (hwire : Pdu.fromWire rules id json = .ok pdu)
    (hwire' : Pdu.fromWire rules id json' = .ok pdu') : pdu.authEvents = pdu'.authEvents := by
  have hauth := (Pdu.reads_of_fromWire hwire).authEvents
  have hauth' := (Pdu.reads_of_fromWire hwire').authEvents
  unfold Pdu.eventIds at hauth hauth'
  rw [computeEventId_get? lawful h h' "auth_events" (by simp)] at hauth
  exact Except.ok.inj (hauth.symm.trans hauth')

/-! ### Resolution -/

section Resolve

variable {ids : List String} {extra : Option (String × StateMap)} {state : StateMap}

/-- Resolution succeeds over events that have a state, and returns nothing, the one
state there is, or what the library resolves them to. -/
theorem resolveOver_ok (h : resolveOver rules db ids extra = .ok state) :
    ∃ forks, ids.mapM (forkOf db extra) = .ok forks ∧
      (state = [] ∨ forks = [state] ∨ resolveStateWith rules db forks = .ok state) := by
  unfold resolveOver at h
  rw [Except.bind_eq_ok] at h
  obtain ⟨forks, hforks, h⟩ := h
  refine ⟨forks, hforks, ?_⟩
  match forks, h with
  | [], h => exact .inl (Except.pure_eq_ok.1 h).symm
  | [fork], h =>
    rw [Except.pure_eq_ok] at h
    exact .inr (.inl (by rw [h]))
  | _ :: _ :: _, h => exact .inr (.inr (by simpa using h))

theorem resolveOver_singleton : resolveOver rules db [id] none = forkOf db none id := by
  unfold resolveOver
  rw [List.mapM_cons, List.mapM_nil]
  cases forkOf db none id <;> rfl

theorem forkOf_none_ok {fork : StateMap} :
    forkOf db none id = .ok fork ↔ db.stateAfter id = some fork := by
  cases h : db.stateAfter id <;> simp [forkOf, h]

/-- Without an extra event every id has a stored state. -/
theorem stateAfter_of_resolveOver (h : resolveOver rules db ids none = .ok state) :
    ∀ id ∈ ids, ∃ fork, db.stateAfter id = some fork := by
  obtain ⟨forks, hforks, -⟩ := resolveOver_ok h
  intro id hid
  obtain ⟨fork, -, hfork⟩ := (Except.exists_of_mapM_eq_ok hforks).1 id hid
  exact ⟨fork, forkOf_none_ok.1 hfork⟩

end Resolve

/-! ### Acceptance -/

/-- The checks of the past read backwards. -/
structure PastSpec (rules : Rules) (db : DagRead) (pdu : Pdu) (stateAfter before : StateMap) :
    Prop where
  authKnown : ∀ id ∈ pdu.authEvents, db.pdu id ≠ none
  independent : rules.checkStateIndependentAuthRules pdu (db.withNew pdu).pdu = .ok ()
  resolved : resolveOver rules db pdu.prevEvents none = .ok before
  allowed : rules.checkStateDependentAuthRules pdu (db.bySlot before) = .ok ()
  after : stateAfter = pdu.applyTo before

theorem checkAuthEvents_ok {pdu : Pdu} (h : checkAuthEvents rules db pdu = .ok ()) :
    (∀ id ∈ pdu.authEvents, db.pdu id ≠ none) ∧
      rules.checkStateIndependentAuthRules pdu (db.withNew pdu).pdu = .ok () := by
  unfold checkAuthEvents at h
  cases hfind : pdu.authEvents.find? fun id => (db.pdu id).isNone with
  | some a => simp [hfind] at h
  | none =>
    simp only [hfind, Except.bind_eq_ok, Except.mapError_eq_ok] at h
    obtain ⟨_, hindep, -⟩ := h
    refine ⟨fun id hid hnone => ?_, hindep⟩
    simpa [hnone] using List.find?_eq_none.1 hfind id hid

theorem checkAgainstPast_ok {pdu : Pdu} {stateAfter : StateMap}
    (h : checkAgainstPast rules db pdu none = .ok stateAfter) :
    ∃ before, PastSpec rules db pdu stateAfter before := by
  unfold checkAgainstPast at h
  simp only [Except.bind_eq_ok, Except.mapError_eq_ok, Except.pure_eq_ok] at h
  obtain ⟨_, hauth, before, hbefore, _, hallowed, rfl⟩ := h
  obtain ⟨hknown, hindep⟩ := checkAuthEvents_ok hauth
  exact ⟨before, hknown, hindep, hbefore, hallowed, rfl⟩

/-- A soft-failed event leaves the extremities alone; any other takes the place of
those among its predecessors. -/
inductive Outcome (rules : Rules) (db : DagRead) (acc : Accepted) : Prop
  | soft (failed : acc.softFailed = true) (same : acc.extremities = db.extremities)
      (current : currentState rules db = .ok acc.currentState)
      (refused : rules.checkStateDependentAuthRules acc.pdu (db.bySlot acc.currentState) ≠ .ok ())
  | live (passed : acc.softFailed = false)
      (next : acc.extremities = nextExtremities db.extremities acc.pdu)
      (current : resolveOver rules (db.withNew acc.pdu) acc.extremities
        (some (acc.pdu.eventId, acc.stateAfter)) = .ok acc.currentState)

/-- Acceptance read backwards. -/
structure AcceptSpec (rules : Rules) (db : DagRead) (id : String) (json : Json) (acc : Accepted) :
    Prop where
  fresh : db.pdu id = none
  wire : Pdu.fromWire rules id json = .ok acc.pdu
  eventId_eq : acc.eventId = acc.pdu.eventId
  json : acc.json = json
  past : ∃ before, PastSpec rules db acc.pdu acc.stateAfter before
  outcome : Outcome rules db acc

theorem accept_ok {acc : Accepted} (h : accept rules db id json none = .ok acc) :
    AcceptSpec rules db id json acc := by
  unfold accept at h
  cases hdup : db.pdu id with
  | some _ => simp [hdup] at h
  | none =>
    simp only [hdup, Option.isSome_none, Bool.false_eq_true, if_false, Except.bind_eq_ok,
      Except.mapError_eq_ok] at h
    obtain ⟨pdu, hwire, after, hpast, current, hcurrent, h⟩ := h
    have hid : pdu.eventId = id := (Pdu.reads_of_fromWire hwire).eventId
    split_ifs at h with hsoft
    · cases (Except.pure_eq_ok.1 h)
      refine ⟨hdup, hwire, hid.symm, rfl, checkAgainstPast_ok hpast, .soft rfl rfl hcurrent ?_⟩
      intro hok
      simp [hok, Except.toOption] at hsoft
    · simp only [Except.bind_eq_ok, Except.pure_eq_ok] at h
      obtain ⟨resolved, hresolved, rfl⟩ := h
      refine ⟨hdup, hwire, hid.symm, rfl, checkAgainstPast_ok hpast, .live rfl rfl ?_⟩
      rw [hid]
      exact hresolved

theorem acceptWire_ok {acc : Accepted} {keys : PublicKeyMap}
    (h : acceptWire rules db json keys none = .ok acc) :
    ∃ id, computeEventId rules json = .ok id ∧ AcceptSpec rules db id json acc := by
  unfold acceptWire at h
  simp only [Except.bind_eq_ok] at h
  obtain ⟨_, -, id, hid, h⟩ := h
  exact ⟨id, hid, accept_ok h⟩

theorem acceptHistoric_ok {h : Historic} (hok : acceptHistoric rules db id json = .ok h) :
    Pdu.fromWire rules id json = .ok h.pdu ∧ h.json = json ∧
      ∃ before, PastSpec rules db h.pdu h.stateAfter before := by
  unfold acceptHistoric at hok
  simp only [Except.bind_eq_ok, Except.mapError_eq_ok, Except.pure_eq_ok] at hok
  obtain ⟨pdu, hwire, after, hpast, rfl⟩ := hok
  exact ⟨hwire, rfl, checkAgainstPast_ok hpast⟩

end Dag
