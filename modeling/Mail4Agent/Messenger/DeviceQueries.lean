import Mail4Agent.Messenger.DeviceTracker

/-!
# Marks and queries in flight

A user is marked outdated when a sync says that their devices changed, and a `/keys/query` response
that lists the user takes the mark away. The response may answer a query from before the mark.

`QueryHistory` keeps, beside the store, the users that were marked since each query in flight was
issued, and the users that are due: marked, and in no response to a query issued since.
`renews_iff_meets` says exactly when nobody who is due loses the mark.
-/

namespace Messenger

namespace DeviceStore

theorem trackedUsers_foldl_mark (store : DeviceStore) (userIds : List UserId) (outdated : Bool)
    (userId : UserId) :
    (userIds.foldl (fun store userId => store.markUserTracked userId outdated)
      store).trackedUsers[userId]? =
        if userId ∈ userIds then some outdated else store.trackedUsers[userId]? := by
  induction userIds generalizing store with
  | nil => simp
  | cons marked rest ih =>
    rw [List.foldl_cons, ih]
    simp only [markUserTracked, Std.ExtTreeMap.getElem?_insert, List.mem_cons,
      Std.LawfulEqCmp.compare_eq_iff_eq, eq_comm (a := userId)]
    split_ifs <;> simp_all

theorem trackedUsers_onDeviceLists (store : DeviceStore) (changed left : List UserId)
    {userId : UserId} (hleft : userId ∉ left) :
    (store.onDeviceLists changed left).trackedUsers[userId]? =
      if userId ∈ changed then some true else store.trackedUsers[userId]? := by
  unfold onDeviceLists
  rw [trackedUsers_foldl_mark, trackedUsers_foldl_mark, if_neg]
  simp [hleft]

theorem trackedUsers_onKeysQueryResponse (crypto : DeviceCrypto) (store : DeviceStore)
    (body : KeysQueryBody) (userId : UserId) :
    (store.onKeysQueryResponse crypto body).1.trackedUsers[userId]? =
      if userId ∈ body then some false else store.trackedUsers[userId]? := by
  have hlisted : userId ∈ body ↔ userId ∈ body.toList.map Prod.fst := by
    rw [Std.ExtTreeMap.map_fst_toList_eq_keys, Std.ExtTreeMap.mem_keys]
  rw [if_congr hlisted rfl rfl]
  unfold onKeysQueryResponse
  generalize body.toList = entries
  generalize ({} : KeysQueryOutcome) = outcome
  induction entries generalizing store outcome with
  | nil => simp
  | cons entry rest ih =>
    rw [List.foldl_cons, ih]
    simp only [resolveUser, markUserTracked, saveDevices, Std.ExtTreeMap.getElem?_insert,
      List.map_cons, List.mem_cons, Std.LawfulEqCmp.compare_eq_iff_eq, eq_comm (a := userId)]
    split_ifs <;> simp_all

theorem mem_outdatedTrackedUsers {store : DeviceStore} {userId : UserId} :
    userId ∈ store.outdatedTrackedUsers ↔ store.trackedUsers[userId]? = some true := by
  unfold outdatedTrackedUsers
  rw [Std.ExtTreeMap.mem_keys, Std.ExtTreeMap.mem_iff_isSome_getElem?,
    Std.ExtTreeMap.getElem?_filter]
  cases store.trackedUsers[userId]? <;> simp

end DeviceStore

/-- A query in flight: whom it asks about, and who was marked since it was issued. -/
structure DeviceQuery where
  named : List UserId
  marked : Finset UserId := ∅
deriving DecidableEq

structure QueryHistory where
  store : DeviceStore := {}
  queries : BTreeMap RequestId DeviceQuery := ∅
  due : Finset UserId := ∅

inductive QueryAction where
  /-- The `device_lists` of a sync, and the query that follows them. -/
  | sync (changed left : List UserId) (id : RequestId)
  /-- Members who joined an encrypted room, members nobody tracked, a sender whose device is not
  known. -/
  | mark (userIds : List UserId)
  /-- The query of a send, or of a sync in which members joined. -/
  | query (id : RequestId)
  | answer (id : RequestId) (body : KeysQueryBody)
  | refused (id : RequestId)

namespace QueryHistory

def onDeviceLists (h : QueryHistory) (changed left : List UserId) : QueryHistory where
  store := h.store.onDeviceLists changed left
  queries := h.queries.map fun _ query =>
    { query with marked := (query.marked ∪ changed.toFinset) \ left.toFinset }
  due := (h.due ∪ changed.toFinset) \ left.toFinset

/-- One query for every outdated user, nothing if none is. -/
def enqueueKeysQuery (h : QueryHistory) (id : RequestId) : QueryHistory :=
  if h.store.outdatedTrackedUsers.isEmpty then h
  else { h with queries := h.queries.insert id { named := h.store.outdatedTrackedUsers } }

def step (crypto : DeviceCrypto) (h : QueryHistory) : QueryAction → QueryHistory
  | .sync changed left id => (h.onDeviceLists changed left).enqueueKeysQuery id
  | .mark userIds => h.onDeviceLists userIds []
  | .query id => h.enqueueKeysQuery id
  | .answer id body =>
    match h.queries[id]? with
    | none => h
    | some query =>
      { store := (h.store.onKeysQueryResponse crypto body).1
        queries := h.queries.erase id
        -- the answer is news of those who were not marked since the query was issued
        due := h.due.filter fun userId => ¬ (userId ∈ body ∧ userId ∉ query.marked) }
  | .refused id => { h with queries := h.queries.erase id }

/-- Everybody who is due is marked outdated. -/
def Marked (h : QueryHistory) : Prop := ∀ userId ∈ h.due, h.store.trackedUsers[userId]? = some true

/-- No response lists a user who is due because they were marked after its query was issued. -/
def Timely (h : QueryHistory) : QueryAction → Prop
  | .answer id body => ∀ query ∈ h.queries[id]?, ∀ userId ∈ h.due,
      userId ∈ query.marked → userId ∉ body
  | _ => True

section

variable {crypto : DeviceCrypto} {h : QueryHistory}

theorem Marked.onDeviceLists (hmarked : h.Marked) (changed left : List UserId) :
    (h.onDeviceLists changed left).Marked := by
  intro userId hdue
  simp only [QueryHistory.onDeviceLists, Finset.mem_sdiff, Finset.mem_union,
    List.mem_toFinset] at hdue ⊢
  obtain ⟨hdue, hleft⟩ := hdue
  rw [DeviceStore.trackedUsers_onDeviceLists _ _ _ hleft]
  split_ifs with hchanged
  · rfl
  · exact hmarked userId (hdue.resolve_right hchanged)

theorem Marked.enqueueKeysQuery (hmarked : h.Marked) (id : RequestId) :
    (h.enqueueKeysQuery id).Marked := by
  unfold QueryHistory.enqueueKeysQuery
  split_ifs
  · exact hmarked
  · exact hmarked

/-- A step keeps the marks of those who are due exactly if it is timely. -/
theorem Marked.step_iff (hmarked : h.Marked) (action : QueryAction) :
    (h.step crypto action).Marked ↔ h.Timely action := by
  cases action with
  | sync changed left id =>
    exact iff_of_true ((hmarked.onDeviceLists changed left).enqueueKeysQuery id) trivial
  | mark userIds => exact iff_of_true (hmarked.onDeviceLists userIds []) trivial
  | query id => exact iff_of_true (hmarked.enqueueKeysQuery id) trivial
  | refused id => exact iff_of_true hmarked trivial
  | answer id body =>
    unfold Timely
    simp only [QueryHistory.step]
    cases h.queries[id]? with
    | none => simpa using hmarked
    | some query =>
      simp only [Option.mem_some_iff, forall_eq', Marked, Finset.mem_filter,
        DeviceStore.trackedUsers_onKeysQueryResponse]
      refine forall_congr' fun userId => ?_
      constructor
      · intro htracked hdue hsince hlisted
        have := htracked ⟨hdue, fun hnews => hnews.2 hsince⟩
        simp [hlisted] at this
      · rintro htimely ⟨hdue, hold⟩
        have hnot : userId ∉ body := fun hlisted =>
          htimely hdue (not_not.1 fun hsince => hold ⟨hlisted, hsince⟩) hlisted
        rw [if_neg hnot]
        exact hmarked userId hdue

/-- The query of a sync asks about everybody who is due. -/
theorem Marked.named (hmarked : h.Marked) (changed left : List UserId) (id : RequestId)
    {userId : UserId} (hdue : userId ∈ (h.step crypto (.sync changed left id)).due) :
    ∃ query ∈ (h.step crypto (.sync changed left id)).queries[id]?, userId ∈ query.named := by
  have hdue' : userId ∈ (h.onDeviceLists changed left).due := by
    simp only [QueryHistory.step, QueryHistory.enqueueKeysQuery] at hdue
    split_ifs at hdue <;> exact hdue
  have houtdated := DeviceStore.mem_outdatedTrackedUsers.2
    (hmarked.onDeviceLists changed left userId hdue')
  have hsome : (h.onDeviceLists changed left).store.outdatedTrackedUsers.isEmpty ≠ true :=
    fun hnil => by simp [List.isEmpty_iff.1 hnil] at houtdated
  simp only [QueryHistory.step, QueryHistory.enqueueKeysQuery, if_neg hsome]
  exact ⟨_, Std.ExtTreeMap.getElem?_insert_self, houtdated⟩

end

/-- Everybody who is due is marked, and the next sync asks about them. -/
def Renews (crypto : DeviceCrypto) (h : QueryHistory) : Prop :=
  h.Marked ∧ ∀ changed left id, ∀ userId ∈ (h.step crypto (.sync changed left id)).due,
    ∃ query ∈ (h.step crypto (.sync changed left id)).queries[id]?, userId ∈ query.named

theorem renews_iff_marked {crypto : DeviceCrypto} {h : QueryHistory} : h.Renews crypto ↔ h.Marked :=
  ⟨And.left, fun hmarked => ⟨hmarked, fun changed left id _ => hmarked.named changed left id⟩⟩

/-- A user who is marked outdated after a query was issued stays so until a later query is
answered, and is asked about again, along exactly those runs in which no answer to an earlier query
lists them. -/
theorem renews_iff_meets (crypto : DeviceCrypto) (actions : List QueryAction) :
    Trace.Throughout (step crypto) (Renews crypto) {} actions ↔
      Trace.Meets (step crypto) Timely {} actions := by
  refine Trace.throughout_iff_meets_of_exact (fun h action hrenews => ?_) actions
    (renews_iff_marked.2 (by simp [Marked]))
  exact renews_iff_marked.trans (hrenews.1.step_iff action)

/-- Bob's devices change twice; the query of the first change is answered, the one of the second is
refused, and another sync comes. -/
def changedTwice : List QueryAction :=
  [.sync [⟨"@bob:a"⟩] [] (.next 0), .sync [⟨"@bob:a"⟩] [] (.next 1),
    .answer (.next 0) ((∅ : KeysQueryBody).insert ⟨"@bob:a"⟩ (ListHistory.bobsKeys "one")),
    .refused (.next 1), .sync [] [] (.next 2)]

/-- Nobody asks about bob's second change. -/
theorem not_renews_changedTwice :
    (Trace.run (step ListHistory.trustingCrypto) {} changedTwice).due = {⟨"@bob:a"⟩} ∧
      (Trace.run (step ListHistory.trustingCrypto) {} changedTwice).queries.isEmpty = true ∧
      ¬ Trace.Throughout (step ListHistory.trustingCrypto) (Renews ListHistory.trustingCrypto) {}
        changedTwice := by
  have hdue : (Trace.run (step ListHistory.trustingCrypto) {} changedTwice).due =
      {⟨"@bob:a"⟩} := by decide +kernel
  have htracked : (Trace.run (step ListHistory.trustingCrypto) {}
      changedTwice).store.trackedUsers[(⟨"@bob:a"⟩ : UserId)]? = some false := by decide +kernel
  refine ⟨hdue, by decide +kernel, fun h => ?_⟩
  have hbob := h.last.1 ⟨"@bob:a"⟩ (by simp [hdue])
  rw [htracked] at hbob
  cases hbob

end QueryHistory

end Messenger
