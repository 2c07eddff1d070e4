import Mail4Agent.Dag.Accept

/-!
# What resolution reads

State resolution looks at the events of the states it merges and at their auth
chains. A region that no auth event leaves therefore contains everything resolution
can pick and everything it looks at: `resolveOver_region` bounds the result, and
`resolveOver_congr` says that two stores alike on the region resolve alike.
-/

namespace Dag

variable {rules : Rules} {db db' : DagRead} {region : String → Prop}

/-- The auth events of the events in the region are in the region. -/
def DagRead.AuthClosed (db : DagRead) (region : String → Prop) : Prop :=
  ∀ pdu ∈ db.events, region pdu.eventId → ∀ a ∈ pdu.authEvents, region a

theorem DagRead.AuthClosed.authEventsOf (hclosed : db.AuthClosed region) {x : String}
    (hx : region x) : ∀ a ∈ db.authEventsOf x, region a := by
  intro a ha
  unfold DagRead.authEventsOf at ha
  cases hpdu : db.pdu x with
  | none => simp [hpdu] at ha
  | some pdu =>
    obtain ⟨hmem, rfl⟩ := DagRead.pdu_eq_some hpdu
    exact hclosed pdu hmem hx a (by simpa [hpdu] using ha)

theorem DagRead.authChain_region (hclosed : db.AuthClosed region) {ids : List String}
    (hids : ∀ id ∈ ids, region id) : ∀ x ∈ db.authChain ids, region x := by
  refine Worklist.closure_invariant region (fun x _ hx a ha => ?_) (by simp) fun x hx => ?_
  · exact hclosed.authEventsOf hx a (List.mem_reverse.1 ha)
  · exact hids x (List.mem_reverse.1 hx)

theorem DagRead.mem_events_map {x : String} : x ∈ db.events.map Pdu.eventId ↔ db.pdu x ≠ none := by
  constructor
  · intro h
    obtain ⟨pdu, hmem, rfl⟩ := List.mem_map.1 h
    exact DagRead.pdu_ne_none_of_mem hmem
  · intro h
    obtain ⟨pdu, hpdu⟩ := Option.ne_none_iff_exists'.1 h
    obtain ⟨hmem, rfl⟩ := DagRead.pdu_eq_some hpdu
    exact List.mem_map_of_mem hmem

theorem DagRead.authChain_congr (hclosed : db.AuthClosed region)
    (same : ∀ x, region x → db'.pdu x = db.pdu x) {ids : List String}
    (hids : ∀ id ∈ ids, region id) : db'.authChain ids = db.authChain ids := by
  refine Worklist.closure_congr region (fun x hx => ⟨?_, ?_⟩) (fun x _ hx a ha => ?_)
    fun x hx => hids x (List.mem_reverse.1 hx)
  · rw [DagRead.mem_events_map, DagRead.mem_events_map, same x hx]
  · simp only [DagRead.authEventsOf, same x hx]
  · exact hclosed.authEventsOf hx a (List.mem_reverse.1 ha)

section

variable (lawful : rules.Lawful) (hclosed : db.AuthClosed region)

include lawful hclosed

theorem resolveStateWith_region {forks : List StateMap} {state : StateMap}
    (hforks : ∀ fork ∈ forks, ∀ id ∈ fork.ids, region id)
    (h : resolveStateWith rules db forks = .ok state) : ∀ id ∈ state.ids, region id := by
  intro id hid
  rcases lawful.resolve_ids h id hid with ⟨fork, hfork, hid⟩ | ⟨chain, hchain, hid⟩
  · exact hforks fork hfork id hid
  · obtain ⟨fork, hfork, rfl⟩ := List.mem_map.1 hchain
    exact DagRead.authChain_region hclosed (hforks fork hfork) id hid

theorem resolveStateWith_congr {forks : List StateMap}
    (same : ∀ x, region x → db'.pdu x = db.pdu x)
    (hforks : ∀ fork ∈ forks, ∀ id ∈ fork.ids, region id) :
    resolveStateWith rules db' forks = resolveStateWith rules db forks := by
  have hchains : (forks.map fun fork => db'.authChain fork.ids) =
      forks.map fun fork => db.authChain fork.ids :=
    List.map_congr_left fun fork hfork =>
      DagRead.authChain_congr hclosed same (hforks fork hfork)
  rw [resolveStateWith, resolveStateWith, hchains]
  refine lawful.resolve_congr (fun fork hfork id hid => ?_) fun chain hchain id hid => ?_
  · exact same id (hforks fork hfork id hid)
  · obtain ⟨fork, hfork, rfl⟩ := List.mem_map.1 hchain
    exact same id (DagRead.authChain_region hclosed (hforks fork hfork) id hid)

/-- Resolution stays in the region of the states it merges. -/
theorem resolveOver_region {ids : List String} {extra : Option (String × StateMap)}
    {state : StateMap}
    (hforks : ∀ id ∈ ids, ∀ fork, forkOf db extra id = .ok fork → ∀ x ∈ fork.ids, region x)
    (h : resolveOver rules db ids extra = .ok state) : ∀ x ∈ state.ids, region x := by
  obtain ⟨forks, hmap, hcases⟩ := resolveOver_ok h
  have hforks' : ∀ fork ∈ forks, ∀ x ∈ fork.ids, region x := by
    intro fork hfork
    obtain ⟨id, hid, hforkOf⟩ := (Except.exists_of_mapM_eq_ok hmap).2 fork hfork
    exact hforks id hid fork hforkOf
  rcases hcases with rfl | rfl | hresolve
  · simp [StateMap.ids]
  · exact hforks' state (List.mem_singleton_self _)
  · exact resolveStateWith_region lawful hclosed hforks' hresolve

/-- Two stores that agree on the region and on the states of `ids` resolve them alike. -/
theorem resolveOver_congr {ids : List String} {extra extra' : Option (String × StateMap)}
    (same : ∀ x, region x → db'.pdu x = db.pdu x)
    (hforkOf : ∀ id ∈ ids, forkOf db' extra' id = forkOf db extra id)
    (hforks : ∀ id ∈ ids, ∀ fork, forkOf db extra id = .ok fork → ∀ x ∈ fork.ids, region x) :
    resolveOver rules db' ids extra' = resolveOver rules db ids extra := by
  have hmap : ids.mapM (forkOf db' extra') = ids.mapM (forkOf db extra) :=
    Except.mapM_congr hforkOf
  unfold resolveOver
  rw [hmap]
  cases hforks' : ids.mapM (forkOf db extra) with
  | error e => rfl
  | ok forks =>
    match forks, hforks' with
    | [], _ => rfl
    | [fork], _ => rfl
    | first :: second :: rest, hforks' =>
      have hall : ∀ fork ∈ first :: second :: rest, ∀ x ∈ fork.ids, region x := by
        intro fork hfork
        obtain ⟨id, hid, hforkOf'⟩ := (Except.exists_of_mapM_eq_ok hforks').2 fork hfork
        exact hforks id hid fork hforkOf'
      change (resolveStateWith rules db' _).mapError _ = (resolveStateWith rules db _).mapError _
      rw [resolveStateWith_congr lawful hclosed same hall]

end

end Dag
