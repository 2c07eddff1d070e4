import Mail4Agent.Server.F3Snapshot
import Mail4Agent.Server.SimpleRules

/-!
# The order of a verified auth chain

The events of a received chain are checked against the chain as a whole and listed by the depths
their senders wrote. So the depths do not matter for the verdict, but an event comes behind its auth
events only if they say so (`authFirst_iff`).
-/

namespace Dag

variable {rules : Rules} {keys : PublicKeyMap} {events : List Json} {db : DagRead} {pdu : Pdu}

/-- The auth events of an event are in the set, and the auth rules allow it on them. -/
structure Authorised (rules : Rules) (db : DagRead) (pdu : Pdu) : Prop where
  closed : ∀ id ∈ pdu.authEvents, db.pdu id ≠ none
  independent : rules.checkStateIndependentAuthRules pdu (db.withNew pdu).pdu = .ok ()
  dependent : rules.checkStateDependentAuthRules pdu
    (fun key => (db.stateOf pdu.authEvents).lookup key) = .ok ()

theorem checkAuthEvents_iff : checkAuthEvents rules db pdu = .ok () ↔ Authorised rules db pdu := by
  unfold checkAuthEvents
  cases hfind : pdu.authEvents.find? fun id => (db.pdu id).isNone with
  | some id =>
    have hmissing := List.find?_some hfind
    simp only [Except.bind_eq_ok, reduceCtorEq, false_and, exists_false, false_iff]
    exact fun h => h.closed id (List.mem_of_find?_eq_some hfind) (by simpa using hmissing)
  | none =>
    have hclosed : ∀ id ∈ pdu.authEvents, db.pdu id ≠ none := by
      simpa [Option.isSome_iff_ne_none] using List.find?_eq_none.1 hfind
    simp only [Except.bind_eq_ok, Except.mapError_eq_ok]
    constructor
    · rintro ⟨_, hindependent, hdependent⟩
      exact ⟨hclosed, hindependent, hdependent⟩
    · exact fun h => ⟨(), h.independent, h.dependent⟩

/-- The chain has one event for each id. -/
theorem nodup_chainStore (h : chainStore rules events keys = .ok db) :
    (db.events.map Pdu.eventId).Nodup := by
  unfold chainStore at h
  rw [Except.bind_eq_ok] at h
  obtain ⟨pdus, hpdus, h⟩ := h
  cases Except.pure_eq_ok.1 h
  change events.foldlM (chainStep rules keys) [] = .ok pdus at hpdus
  suffices hstart : ∀ start : List Pdu, (start.map Pdu.eventId).Nodup →
      events.foldlM (chainStep rules keys) start = .ok pdus → (pdus.map Pdu.eventId).Nodup from
    hstart [] List.nodup_nil hpdus
  clear hpdus
  induction events with
  | nil =>
    intro start hnodup hpdus
    rwa [← Except.pure_eq_ok.1 hpdus]
  | cons json rest ih =>
    intro start hnodup hpdus
    simp only [List.foldlM_cons, chainStep, Except.bind_eq_ok, Except.mapError_eq_ok,
      Except.pure_eq_ok] at hpdus
    obtain ⟨_, ⟨_, -, id, -, pdu, hwire, rfl⟩, hrest⟩ := hpdus
    refine ih (pdu :: start.filter fun other => other.eventId ≠ id) ?_ hrest
    rw [List.map_cons, (Pdu.reads_of_fromWire hwire).eventId]
    exact List.nodup_cons.2 ⟨by simp, hnodup.sublist (List.filter_sublist.map _)⟩

/-- The events in the order of the listing. -/
def chainOrder (db : DagRead) : List Pdu :=
  db.events.insertionSort fun a b => a.depth < b.depth ∨ (a.depth = b.depth ∧ a.eventId ≤ b.eventId)

/-- A chain is verified if each of its events is authorised, in whatever order. -/
theorem verifyAuthChain_iff (h : chainStore rules events keys = .ok db) {order : List String} :
    verifyAuthChain rules events keys = .ok order ↔
      (∀ pdu ∈ db.events, Authorised rules db pdu) ∧ (chainOrder db).map Pdu.eventId = order := by
  have hbind : verifyAuthChain rules events keys = (do
      (chainOrder db).forM (checkAuthEvents rules db)
      return (chainOrder db).map Pdu.eventId) := by
    rw [verifyAuthChain, h]
    rfl
  have hchecks : (chainOrder db).forM (checkAuthEvents rules db) = .ok () ↔
      ∀ pdu ∈ db.events, Authorised rules db pdu := by
    rw [Except.forM_eq_ok]
    simp only [checkAuthEvents_iff, chainOrder, List.mem_insertionSort]
  rw [hbind, Except.bind_eq_ok]
  simp only [Unique.exists_iff, Except.pure_eq_ok, ← hchecks]

/-- The order of depths and ids. -/
def Pdu.Before (a b : Pdu) : Prop :=
  a.depth < b.depth ∨ (a.depth = b.depth ∧ a.eventId < b.eventId)

instance : DecidableRel Pdu.Before := fun _ _ => inferInstanceAs (Decidable (_ ∨ _))

theorem pairwise_chainOrder (hnodup : (db.events.map Pdu.eventId).Nodup) :
    (chainOrder db).Pairwise Pdu.Before := by
  let le (a b : Pdu) : Prop := a.depth < b.depth ∨ (a.depth = b.depth ∧ a.eventId ≤ b.eventId)
  have : Std.Total le := ⟨fun a b => by
    have := le_total a.eventId b.eventId
    grind⟩
  have : IsTrans Pdu le := ⟨fun a b c hab hbc => by
    have := @le_trans _ _ a.eventId b.eventId c.eventId
    grind⟩
  have hle : (chainOrder db).Pairwise le := List.pairwise_insertionSort le db.events
  have hne : (chainOrder db).Pairwise (·.eventId ≠ ·.eventId) :=
    (List.perm_insertionSort _ _).symm.pairwise (List.pairwise_map.1 hnodup) Ne.symm
  exact (hle.and hne).imp fun ⟨h, hid⟩ => h.imp_right fun h => ⟨h.1, lt_of_le_of_ne h.2 hid⟩

/-- Two events of the chain stand in the order of their depths and ids. -/
theorem sublist_chainOrder_iff (hnodup : (db.events.map Pdu.eventId).Nodup) {a b : Pdu}
    (ha : a ∈ db.events) (hb : b ∈ db.events) :
    [a.eventId, b.eventId].Sublist ((chainOrder db).map Pdu.eventId) ↔ a.Before b := by
  have hbefore (x y : Pdu) (h : [x, y].Sublist (chainOrder db)) : x.Before y :=
    List.pairwise_iff_forall_sublist.1 (pairwise_chainOrder hnodup) h
  have hmem (pdu : Pdu) : pdu ∈ chainOrder db ↔ pdu ∈ db.events := List.mem_insertionSort _
  constructor
  · intro h
    obtain ⟨pair, hpair, hids⟩ := List.sublist_map_iff.1 h
    obtain ⟨x, y, rfl⟩ := List.length_eq_two.1 (by simpa using (congrArg List.length hids).symm)
    obtain ⟨hx, hy⟩ : a.eventId = x.eventId ∧ b.eventId = y.eventId := by simpa using hids
    have hsame := List.inj_on_of_nodup_map hnodup
    rw [hsame ha ((hmem x).1 (hpair.subset (by simp))) hx,
      hsame hb ((hmem y).1 (hpair.subset (by simp))) hy]
    exact hbefore x y hpair
  · intro h
    obtain ⟨front, back, hsplit⟩ := List.append_of_mem ((hmem a).2 ha)
    have hb := (hmem b).2 hb
    rw [hsplit, List.mem_append, List.mem_cons] at hb
    have hasymm : ¬ b.Before a := by
      have := lt_asymm (a := a.eventId) (b := b.eventId)
      grind [Pdu.Before]
    rcases hb with hb | rfl | hb
    · refine absurd (hbefore b a ?_) hasymm
      rw [hsplit]
      exact (List.singleton_sublist.2 hb).append (List.singleton_sublist.2 List.mem_cons_self)
    · exact absurd h hasymm
    · rw [hsplit]
      exact (((List.singleton_sublist.2 hb).cons_cons a).trans
        (List.sublist_append_right _ _)).map Pdu.eventId

/-- Every event comes behind its auth events, and these are authorised. -/
def AuthFirst (rules : Rules) (db : DagRead) (order : List String) : Prop :=
  ∀ pdu ∈ db.events, ∀ id ∈ pdu.authEvents, [id, pdu.eventId].Sublist order ∧
    ∃ auth ∈ db.events, auth.eventId = id ∧ Authorised rules db auth

/-- Authorised events are accepted whatever their depths are, and they are listed behind their auth
events exactly if the depths put the auth events first. -/
theorem authFirst_iff (h : chainStore rules events keys = .ok db) :
    ((∀ order, verifyAuthChain rules events keys = .ok order → AuthFirst rules db order) ∧
      ((∀ pdu ∈ db.events, Authorised rules db pdu) →
        ∃ order, verifyAuthChain rules events keys = .ok order)) ↔
    ((∀ pdu ∈ db.events, Authorised rules db pdu) → ∀ pdu ∈ db.events, ∀ auth ∈ db.events,
      auth.eventId ∈ pdu.authEvents → auth.Before pdu) := by
  have hnodup := nodup_chainStore h
  simp only [verifyAuthChain_iff h]
  constructor
  · rintro ⟨hfirst, -⟩ hall pdu hpdu auth hauth hid
    exact (sublist_chainOrder_iff hnodup hauth hpdu).1 (hfirst _ ⟨hall, rfl⟩ pdu hpdu _ hid).1
  · intro hdepths
    refine ⟨?_, fun hall => ⟨_, hall, rfl⟩⟩
    rintro _ ⟨hall, rfl⟩ pdu hpdu id hid
    obtain ⟨auth, hfound⟩ := Option.ne_none_iff_exists'.1 ((hall pdu hpdu).closed id hid)
    obtain ⟨hauth, rfl⟩ := DagRead.pdu_eq_some hfound
    exact ⟨(sublist_chainOrder_iff hnodup hauth hpdu).2 (hdepths hall pdu hpdu auth hauth hid),
      auth, hauth, rfl, hall auth hauth⟩

/-- The simple rules with ids from the contents. -/
def namedRules : Rules :=
  { simpleRules with referenceHash := fun json => .ok (eventName json) }

/-- A member event at depth 1 that names a create event at the given depth. -/
def joinOf (depth : Int) : List Json :=
  [Server.F3.peerEvent "!r" "@b:b" "m.room.create" (some "") "c" depth [],
    Json.setField "auth_events" (.arr [.str "$c"])
      (Server.F3.peerEvent "!r" "@b:b" "m.room.member" (some "@b:b") "m" 1 [])]

/-- The member event is listed before the create event it rests on. -/
theorem not_authFirst_deepCreate : ∃ db, chainStore namedRules (joinOf 5) [] = .ok db ∧
    verifyAuthChain namedRules (joinOf 5) [] = .ok ["$m", "$c"] ∧
    ¬ AuthFirst namedRules db ["$m", "$c"] := by
  refine ⟨_, rfl, by decide +kernel, fun hfirst => ?_⟩
  exact absurd (hfirst _ List.mem_cons_self "$c" (by decide +kernel)).1 (by decide +kernel)

theorem authFirst_iff_shallowCreate : ∃ db, chainStore namedRules (joinOf 0) [] = .ok db ∧
    AuthFirst namedRules db ["$c", "$m"] := by
  refine ⟨_, rfl, ((@authFirst_iff namedRules [] (joinOf 0) _ rfl).2 ?_).1 _ ?_⟩
  · intro _
    decide +kernel
  · decide +kernel

end Dag
