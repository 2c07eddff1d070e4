import Mail4Agent.Server.F3Effect

/-!
# What a snapshot does to the event graph

An imported snapshot stores its events as outliers, all of one room and with every
auth event among them, gives its extremities the snapshot's state and makes them the
room's. With it every request has a relation between the graph before and after:
`step_graph` is `step_change` for all requests.
-/

namespace Dag

variable {rules : Rules} {keys : PublicKeyMap}

/-- The events of a chain are those of its documents. -/
structure ChainSpec (rules : Rules) (events : List Json) (db : DagRead) : Prop where
  sources : ∀ pdu ∈ db.events, ∃ json ∈ events, computeEventId rules json = .ok pdu.eventId ∧
    Pdu.fromWire rules pdu.eventId json = .ok pdu
  holds : ∀ json ∈ events, ∃ pdu ∈ db.events, computeEventId rules json = .ok pdu.eventId

/-- Adding one document of a chain. -/
def chainStep (rules : Rules) (keys : PublicKeyMap) (pdus : List Pdu) (json : Json) :
    Except Reject (List Pdu) := do
  verifyWire rules json keys
  let id ← computeEventId rules json
  let pdu ← (Pdu.fromWire rules id json).mapError .malformed
  return pdu :: pdus.filter fun other => other.eventId ≠ id

/-- The chain grows by the documents; no id is lost on the way. -/
theorem chainStep_foldlM {events : List Json} {start pdus : List Pdu}
    (h : events.foldlM (chainStep rules keys) start = .ok pdus) :
    (∀ pdu ∈ pdus, pdu ∈ start ∨ ∃ json ∈ events, computeEventId rules json = .ok pdu.eventId ∧
        Pdu.fromWire rules pdu.eventId json = .ok pdu) ∧
      (∀ pdu ∈ start, ∃ other ∈ pdus, other.eventId = pdu.eventId) ∧
      ∀ json ∈ events, ∃ pdu ∈ pdus, computeEventId rules json = .ok pdu.eventId := by
  induction events generalizing start with
  | nil =>
    cases Except.pure_eq_ok.1 h
    exact ⟨fun pdu h => .inl h, fun pdu h => ⟨pdu, h, rfl⟩, by simp⟩
  | cons json rest ih =>
    simp only [List.foldlM_cons, chainStep, Except.bind_eq_ok, Except.mapError_eq_ok,
      Except.pure_eq_ok] at h
    obtain ⟨mid, ⟨_, -, id, hid, pdu, hwire, rfl⟩, hrest⟩ := h
    obtain ⟨hsource, hkeep, hholds⟩ := ih hrest
    have heventId := (Pdu.reads_of_fromWire hwire).eventId
    refine ⟨fun other hother => ?_, fun other hother => ?_, List.forall_mem_cons.2 ⟨?_, hholds⟩⟩
    · rcases hsource other hother with hmid | ⟨json', hjson', hspec⟩
      · rcases List.mem_cons.1 hmid with rfl | hmid
        · exact .inr ⟨json, List.mem_cons_self, heventId ▸ hid, heventId ▸ hwire⟩
        · exact .inl (List.mem_filter.1 hmid).1
      · exact .inr ⟨json', List.mem_cons_of_mem _ hjson', hspec⟩
    · by_cases hsame : other.eventId = id
      · obtain ⟨found, hfound, heq⟩ := hkeep pdu List.mem_cons_self
        exact ⟨found, hfound, by rw [heq, heventId, hsame]⟩
      · exact hkeep other (List.mem_cons_of_mem _ (List.mem_filter.2 ⟨hother,
          by simpa using hsame⟩))
    · obtain ⟨found, hfound, heq⟩ := hkeep pdu List.mem_cons_self
      exact ⟨found, hfound, by rw [heq, heventId, hid]⟩

theorem chainStore_ok {events : List Json} {db : DagRead}
    (h : chainStore rules events keys = .ok db) : ChainSpec rules events db := by
  unfold chainStore at h
  rw [Except.bind_eq_ok] at h
  obtain ⟨pdus, hpdus, h⟩ := h
  cases Except.pure_eq_ok.1 h
  obtain ⟨hsource, -, hholds⟩ := chainStep_foldlM hpdus
  exact ⟨fun pdu hpdu => (hsource pdu hpdu).resolve_left List.not_mem_nil, hholds⟩

/-- In a verified chain the auth events of every document are ids of documents. -/
theorem verifyAuthChain_ok (lawful : rules.Lawful) {events : List Json} {order : List String}
    (h : verifyAuthChain rules events keys = .ok order) {json : Json} (hjson : json ∈ events)
    {pdu : Pdu} (hhash : computeEventId rules json = .ok pdu.eventId)
    (hwire : Pdu.fromWire rules pdu.eventId json = .ok pdu) :
    ∀ a ∈ pdu.authEvents, ∃ json' ∈ events, computeEventId rules json' = .ok a := by
  unfold verifyAuthChain at h
  simp only [Except.bind_eq_ok, Except.pure_eq_ok] at h
  obtain ⟨db, hdb, _, hall, -⟩ := h
  have hspec := chainStore_ok hdb
  obtain ⟨other, hother, hid⟩ := hspec.holds json hjson
  obtain ⟨json', hjson', hhash', hwire'⟩ := hspec.sources other hother
  -- The checked event may come from another document with the same id.
  have hsame : other.eventId = pdu.eventId := Except.ok.inj (hid.symm.trans hhash)
  have hauth : other.authEvents = pdu.authEvents :=
    authEvents_of_hash lawful (hsame ▸ hhash') hhash (hsame ▸ hwire') hwire
  intro a ha
  have hchecked := Except.forM_eq_ok.1 hall other ((List.mem_insertionSort _).2 hother)
  obtain ⟨found, hfound⟩ := Option.ne_none_iff_exists'.1
    ((checkAuthEvents_ok hchecked).1 a (hauth ▸ ha))
  obtain ⟨hmem, rfl⟩ := DagRead.pdu_eq_some hfound
  obtain ⟨json'', hjson'', hhash'', -⟩ := hspec.sources found hmem
  exact ⟨json'', hjson'', hhash''⟩

end Dag

namespace Server.F3

open Transaction
open Dag (Pdu PublicKeyMap StateMap Tables)

variable {cfg : Config} {fed : Federation} {db db' : Db} {roomId : String}

/-! ### The events of a snapshot -/

/-- The events of a snapshot are written one after another as outliers. -/
inductive Outliers (rules : Dag.Rules) (roomId : String) : Tables → List Pdu → Tables → Prop
  | nil (t : Tables) : Outliers rules roomId t [] t
  | cons {t t' : Tables} {pdu : Pdu} {json : Json} {rest : List Pdu}
      (wire : Pdu.fromWire rules pdu.eventId json = .ok pdu)
      (hash : Dag.computeEventId rules json = .ok pdu.eventId) (room : pdu.roomId = roomId)
      (more : Outliers rules roomId (t.storeOutlier roomId pdu json) rest t') :
      Outliers rules roomId t (pdu :: rest) t'

/-- An imported snapshot read backwards. -/
structure SnapshotChange (rules : Dag.Rules) (roomId : String) (t t' : Tables) (pdus : List Pdu)
    (state : StateMap) (ids : List String) : Prop where
  outliers : ∃ mid, Outliers rules roomId (t.markRoom roomId) pdus mid ∧
    t' = snapshotTables mid roomId state ids
  auth_mem : ∀ pdu ∈ pdus, ∀ a ∈ pdu.authEvents, a ∈ pdus.map Pdu.eventId
  state_mem : ∀ id ∈ state.ids, id ∈ pdus.map Pdu.eventId
  ids_mem : ∀ id ∈ ids, id ∈ pdus.map Pdu.eventId

variable {entries : List (String × Json)} {stateIds : List String} {now : String}
  {state state' : StateMap} {info : Json}

theorem firstOfEachId_sub : ∀ entry ∈ firstOfEachId entries, entry ∈ entries := by
  induction entries with
  | nil => simp [firstOfEachId]
  | cons first rest ih =>
    refine List.forall_mem_cons.2 ⟨List.mem_cons_self, fun entry hentry => ?_⟩
    exact List.mem_cons_of_mem _ (ih entry (List.mem_filter.1 hentry).1)

theorem id_mem_firstOfEachId :
    ∀ entry ∈ entries, entry.1 ∈ (firstOfEachId entries).map Prod.fst := by
  induction entries with
  | nil => simp
  | cons first rest ih =>
    refine List.forall_mem_cons.2 ⟨by simp [firstOfEachId], fun entry hentry => ?_⟩
    obtain ⟨found, hfound, heq⟩ := List.mem_map.1 (ih entry hentry)
    by_cases hsame : found.1 = first.1
    · simp [firstOfEachId, ← heq, hsame]
    · refine List.mem_map.2 ⟨found, List.mem_cons_of_mem _ (List.mem_filter.2 ⟨hfound, ?_⟩), heq⟩
      simpa using hsame

theorem importEvent_ok {entry : String × Json} (hentry : ParsedEvent fed roomId entry)
    (h : importEvent cfg fed roomId stateIds now state entry db = .ok (state', db')) :
    ∃ pdu, pdu.eventId = entry.1 ∧ Pdu.fromWire fed.rules pdu.eventId entry.2 = .ok pdu ∧
      pdu.roomId = roomId ∧ db'.dag = db.dag.storeOutlier roomId pdu entry.2 ∧
      ∀ id ∈ state'.ids, id = entry.1 ∨ id ∈ state.ids := by
  simp only [importEvent, bind_ok, lift_ok, Except.mapError_eq_ok,
    query_ok, changeDag, change_ok] at h
  obtain ⟨pdu, _, ⟨hwire, rfl⟩, uid, mid, husers, known, _, ⟨-, rfl⟩, _, stored, hstored, h⟩ := h
  have hreads := Pdu.reads_of_fromWire hwire
  obtain ⟨users, rfl⟩ := ensureUsers_ok husers
  have hdag : stored.dag = db.dag.storeOutlier roomId pdu entry.2 := by rw [← hstored]
  refine ⟨pdu, hreads.eventId, hreads.eventId.symm ▸ hwire,
    Option.some.inj (hreads.roomId.symm.trans hentry.room), ?_⟩
  cases hslot : pdu.slot? with
  | none =>
    simp only [hslot, pure_ok] at h
    obtain ⟨rfl, rfl⟩ := h
    exact ⟨hdag, fun id hid => .inr hid⟩
  | some slot =>
    simp only [hslot] at h
    by_cases hmem : entry.1 ∈ stateIds
    · rw [if_pos hmem] at h
      split_ifs at h
      · obtain ⟨rfl, rfl⟩ := pure_ok.1 h
        exact ⟨hdag, fun id hid => StateMap.mem_ids_insert hid⟩
      · simp only [bind_ok, pure_ok] at h
        obtain ⟨_, after, hraw, rfl, rfl⟩ := h
        have hsame : after.dag = stored.dag := applyStateEventRawInTx_dag _ _ _ hraw
        exact ⟨hsame.trans hdag, fun id hid => StateMap.mem_ids_insert hid⟩
    · rw [if_neg hmem] at h
      obtain ⟨rfl, rfl⟩ := pure_ok.1 h
      exact ⟨hdag, fun id hid => .inr hid⟩

theorem importEvents_ok (hentries : ∀ entry ∈ entries, ParsedEvent fed roomId entry)
    (h : importEvents cfg fed roomId stateIds now state entries db = .ok (state', db')) :
    ∃ pdus, Outliers fed.rules roomId db.dag pdus db'.dag ∧
      List.Forall₂ (fun pdu entry => pdu.eventId = entry.1 ∧
        Pdu.fromWire fed.rules pdu.eventId entry.2 = .ok pdu) pdus entries ∧
      ∀ id ∈ state'.ids, id ∈ entries.map Prod.fst ∨ id ∈ state.ids := by
  induction entries generalizing state db with
  | nil =>
    obtain ⟨rfl, rfl⟩ := pure_ok.1 h
    exact ⟨[], .nil _, .nil, fun id hid => .inr hid⟩
  | cons entry rest ih =>
    obtain ⟨hentry, hrest⟩ := List.forall_mem_cons.1 hentries
    rw [importEvents, bind_ok] at h
    obtain ⟨mid, mdb, hfirst, h⟩ := h
    obtain ⟨pdu, hid, hwire, hroom, hdag, hids⟩ := importEvent_ok hentry hfirst
    obtain ⟨pdus, hpdus, hall, hids'⟩ := ih hrest h
    rw [hdag] at hpdus
    refine ⟨pdu :: pdus, .cons hwire (hid ▸ hentry.id) hroom hpdus, .cons ⟨hid, hwire⟩ hall,
      fun id hid => ?_⟩
    rcases hids' id hid with h | h
    · exact .inl (List.mem_cons_of_mem _ h)
    · exact (hids id h).imp_left fun h => List.mem_cons.2 (.inl h)

theorem createReplicaRoom_dag :
    Transaction.Keeps (Transaction.Same Db.dag) (createReplicaRoom fed roomId info) := by
  have hremote (field mxid : String) :
      Transaction.Keeps (Transaction.Same Db.dag) (ensureRemoteUser fed field mxid) := by
    intro s id t h
    have hensure : ensureUser fed field mxid s = .ok (id, t) := by
      unfold ensureUser
      split_ifs with hremote
      · exact h
      · simp [ensureRemoteUser, hremote, bind_ok] at h
    obtain ⟨users, rfl⟩ := ensureUser_ok hensure
    rfl
  unfold createReplicaRoom
  refine (keeps_query _).bind fun known => ?_
  split_ifs
  · exact keeps_pure _
  refine (keeps_required _ _).bind fun kind => ?_
  dsimp only
  split_ifs
  · refine (hremote _ _).bind fun creator => ?_
    exact keeps_change fun _ => rfl
  · refine (keeps_query _).bind fun creator => ?_
    exact keeps_change fun _ => rfl

/-- Reading the documents of a snapshot leaves them as they are. -/
theorem mapM_canonicalObject? {events objs : List Json}
    (h : events.mapM Json.canonicalObject? = some objs) : objs = events := by
  induction events generalizing objs with
  | nil => simpa using h.symm
  | cons v rest ih =>
    simp only [List.mapM_cons, Option.bind_eq_bind, Option.bind_eq_some_iff, Option.pure_def,
      Option.some.injEq] at h
    obtain ⟨obj, hobj, objs', hrest, rfl⟩ := h
    rw [(Json.canonicalObject?_eq_some hobj).1, ih hrest]

theorem importSnapshot_ok (lawful : fed.rules.Lawful) {snap : Json} {keys : PublicKeyMap}
    (h : importSnapshot cfg fed roomId info snap keys now db = .ok ((), db')) :
    ∃ pdus state ids, SnapshotChange fed.rules roomId db.dag db'.dag pdus state ids := by
  simp only [importSnapshot, bind_ok, changeDag, change_ok,
    required_ok, lift_ok, Except.mapError_eq_ok] at h
  obtain ⟨_, created, hcreated, _, _, rfl, objs, _, ⟨hobjs, rfl⟩, order, _, ⟨horder, rfl⟩, parsed,
    _, hparsed, state, imported, himported, _, slotted, hslots, _, _, rfl, rfl⟩ := h
  obtain ⟨rfl, hmap, hall⟩ := parseAll_ok hparsed
  obtain rfl := mapM_canonicalObject? hobjs
  generalize hsorted : ((firstOfEachId parsed).insertionSort fun a b =>
    sortDepth a.2 ≤ sortDepth b.2) = sorted at himported
  have hsub : ∀ entry ∈ sorted, entry ∈ parsed := by
    intro entry hentry
    rw [← hsorted] at hentry
    exact firstOfEachId_sub entry ((List.mem_insertionSort _).1 hentry)
  obtain ⟨pdus, hout, hpdus, hstate⟩ :=
    importEvents_ok (fun entry hentry => hall entry (hsub entry hentry)) himported
  have hids : pdus.map Pdu.eventId = sorted.map Prod.fst := by
    rw [← List.forall₂_eq_eq_eq, List.forall₂_map_left_iff, List.forall₂_map_right_iff]
    exact hpdus.imp fun _ _ h => h.1
  have hmem : ∀ entry ∈ parsed, entry.1 ∈ pdus.map Pdu.eventId := by
    intro entry hentry
    rw [hids, ← hsorted]
    have hfirst := id_mem_firstOfEachId entry hentry
    simpa [List.mem_map, List.mem_insertionSort] using hfirst
  have hdag : slotted.dag = imported.dag :=
    Transaction.Keeps.each (fun _ => projectSlot_dag) _ _ _ _ hslots
  have hcreated' : created.dag = db.dag := createReplicaRoom_dag _ _ _ hcreated
  refine ⟨pdus, state, (sorted.map Prod.fst).filter fun id =>
    id ∈ readableIds fed (eventList snap "extremities"),
    ⟨imported.dag, hcreated' ▸ hout, ?_⟩, ?_, ?_, ?_⟩
  · exact congrArg (fun dag => snapshotTables dag roomId state _) hdag
  · intro pdu hpdu a ha
    obtain ⟨entry, hentry, hid, hwire⟩ : ∃ entry ∈ sorted, pdu.eventId = entry.1 ∧
        Pdu.fromWire fed.rules pdu.eventId entry.2 = .ok pdu := by
      obtain ⟨i, hi, rfl⟩ := List.getElem_of_mem hpdu
      have hi' : i < sorted.length := hpdus.length_eq ▸ hi
      exact ⟨sorted[i], List.getElem_mem hi', hpdus.get hi hi'⟩
    have hparsedEntry := hall entry (hsub entry hentry)
    obtain ⟨json', hjson', hhash'⟩ := Dag.verifyAuthChain_ok lawful horder
      (hmap ▸ List.mem_map_of_mem (hsub entry hentry)) (hid ▸ hparsedEntry.id) hwire a ha
    rw [← hmap] at hjson'
    obtain ⟨other, hother, rfl⟩ := List.mem_map.1 hjson'
    rw [Except.ok.inj (hhash'.symm.trans (hall other hother).id)]
    exact hmem other hother
  · intro id hid
    rw [hids]
    exact (hstate id hid).resolve_right (by simp [StateMap.ids])
  · intro id hid
    rw [hids]
    exact hsorted ▸ (List.mem_filter.1 hid).1

/-! ### Requests -/

/-- What a request does to the graph. -/
inductive Change (rules : Dag.Rules) : Tables → List Pdu → Tables → Prop
  | graph {t t' : Tables} {pdus : List Pdu} (change : GraphChange rules t pdus t') :
      Change rules t pdus t'
  | snapshot {t t' : Tables} {roomId : String} {pdus : List Pdu} {state : StateMap}
      {ids : List String} (change : SnapshotChange rules roomId t t' pdus state ids) :
      Change rules t [] t'

theorem step_graph (lawful : fed.rules.Lawful) (op : Op) (db : Db) :
    Change fed.rules db.dag (accepted cfg fed db op) (step cfg fed db op).dag := by
  by_cases hop : op.isSnapshot = false
  · exact .graph (step_change lawful hop db)
  cases op with
  | snapshot roomId info snap keys now =>
    rcases settle_cases ((Op.snapshot roomId info snap keys now).apply cfg fed) db with
      ⟨e, herr, hsame⟩ | ⟨pdus, hok⟩
    · rw [step, hsame, accepted, herr]
      exact .graph (.same _)
    · have hpdus : accepted cfg fed db (.snapshot roomId info snap keys now) = pdus := by
        rw [accepted, hok]
      rw [hpdus]
      simp only [Op.apply, bind_ok, mapError_ok, pure_ok] at hok
      obtain ⟨_, after, himport, rfl, hafter⟩ := hok
      obtain ⟨chain, state, ids, hchange⟩ := importSnapshot_ok lawful himport
      rw [hafter] at hchange
      exact .snapshot hchange
  | _ => simp [Op.isSnapshot] at hop

end Server.F3
