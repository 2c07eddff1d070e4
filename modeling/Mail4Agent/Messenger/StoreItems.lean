import Mail4Agent.Messenger.PersistLog
import Mail4Agent.Messenger.RecordItems

/-!
# The working set and its records

Seen from its records, a store is a map from items to plaintexts (`Store.plain`),
and every operation on it writes or deletes a few items (`StoreOp.changes`). What
an operation marks on the flush gate are the same changes, sealed and filed under
the items' keys. A directory mirrors a store if it holds, for every item of the
store, the sealed plaintext under the item's key, the records of unknown kind
verbatim, and nothing else (`Mirrors`). Operations keep the mirror, and loading
the records of a mirror gives back the store, except for its gate.
-/

namespace Messenger

/-! ## Maps of maps -/

section Nested

variable {α β γ : Type} [Ord α] [Ord β] [Std.TransOrd α]

/-- The value of an inner key of a map of maps. -/
def lookupNested [Std.TransOrd β] (map : BTreeMap α (BTreeMap β γ)) (outer : α)
    (inner : β) : Option γ :=
  map[outer]?.bind (·[inner]?)

/-- Every inner map has an entry. -/
def NoneEmpty (map : BTreeMap α (BTreeMap β γ)) : Prop := ∀ outer : α, map[outer]? ≠ some ∅

theorem noneEmpty_empty : NoneEmpty (∅ : BTreeMap α (BTreeMap β γ)) := by simp [NoneEmpty]

variable [Std.TransOrd β]

theorem NoneEmpty.insertNested {map : BTreeMap α (BTreeMap β γ)} (h : NoneEmpty map) (outer : α)
    (inner : β) (value : γ) : NoneEmpty (Messenger.insertNested map outer inner value) := by
  intro o
  rw [Messenger.insertNested, Std.ExtTreeMap.getElem?_insert]
  split
  · simp
  · exact h o

variable [Std.LawfulEqOrd α] [Std.LawfulEqOrd β]

theorem lookupNested_insertNested [DecidableEq α] [DecidableEq β]
    (map : BTreeMap α (BTreeMap β γ)) (outer o : α) (inner i : β) (value : γ) :
    lookupNested (insertNested map outer inner value) o i =
      if o = outer ∧ i = inner then some value else lookupNested map o i := by
  rw [lookupNested, insertNested, getElem?_insert_ite]
  by_cases ho : o = outer
  · subst ho
    rw [if_pos rfl, Option.bind_some, getElem?_insert_ite, Std.ExtTreeMap.getD_eq_getD_getElem?]
    by_cases hi : i = inner
    · simp [hi]
    · rw [if_neg hi, if_neg (by simp [hi]), lookupNested]
      cases map[o]? <;> simp
  · rw [if_neg ho, if_neg (by simp [ho]), lookupNested]

/-- Without empty inner maps, equal lookups make equal maps. -/
theorem NoneEmpty.ext {a b : BTreeMap α (BTreeMap β γ)} (ha : NoneEmpty a) (hb : NoneEmpty b)
    (h : ∀ o i, lookupNested a o i = lookupNested b o i) : a = b := by
  have hnone : ∀ {a b : BTreeMap α (BTreeMap β γ)}, NoneEmpty b →
      (∀ o i, lookupNested a o i = lookupNested b o i) → ∀ o : α, a[o]? = none → b[o]? = none := by
    intro a b hb h o ho
    cases hsome : b[o]? with
    | none => rfl
    | some sessions =>
      refine absurd hsome fun hsome => hb o (hsome.trans (congrArg some ?_))
      apply Std.ExtTreeMap.ext_getElem?
      intro i
      simpa [lookupNested, ho, hsome] using (h o i).symm
  apply Std.ExtTreeMap.ext_getElem?
  intro o
  cases hao : a[o]? with
  | none => exact (hnone hb h o hao).symm
  | some left =>
    cases hbo : b[o]? with
    | none => exact absurd (hnone ha (fun o i => (h o i).symm) o hbo) (by simp [hao])
    | some right =>
      refine congrArg some (Std.ExtTreeMap.ext_getElem? fun i => ?_)
      simpa [lookupNested, hao, hbo] using h o i

/-- Erasing an entry of an inner map that has another one. -/
theorem lookupNested_eraseInner [DecidableEq α] [DecidableEq β]
    (map : BTreeMap α (BTreeMap β γ)) (outer o : α) (inner i : β) :
    lookupNested (map.insert outer ((map.getD outer ∅).erase inner)) o i =
      if o = outer ∧ i = inner then none else lookupNested map o i := by
  rw [lookupNested, getElem?_insert_ite]
  by_cases ho : o = outer
  · subst ho
    rw [if_pos rfl, Option.bind_some, getElem?_erase_ite, Std.ExtTreeMap.getD_eq_getD_getElem?]
    by_cases hi : i = inner
    · simp [hi]
    · rw [if_neg hi, if_neg (by simp [hi]), lookupNested]
      cases map[o]? <;> simp
  · rw [if_neg ho, if_neg (by simp [ho]), lookupNested]

theorem NoneEmpty.eraseInner [DecidableEq α] [DecidableEq β] {map : BTreeMap α (BTreeMap β γ)}
    (h : NoneEmpty map) {outer : α} {inner other : β} (hne : other ≠ inner)
    (hother : lookupNested map outer other ≠ none) :
    NoneEmpty (map.insert outer ((map.getD outer ∅).erase inner)) := by
  intro o ho
  by_cases heq : o = outer
  · subst heq
    have hlook := lookupNested_eraseInner map o o inner other
    rw [if_neg (by simp [hne]), lookupNested, ho] at hlook
    exact hother (by simpa using hlook.symm)
  · rw [getElem?_insert_ite, if_neg heq] at ho
    exact h o ho

end Nested

/-! ## The store as a map of items -/

/-- A written plaintext, or a deletion. -/
abbrev ItemChange := RecognizedRecord × Option Bytes

/-- The items after some changes. -/
def applyItems (items : RecognizedRecord → Option Bytes) (changes : List ItemChange) :
    RecognizedRecord → Option Bytes :=
  changes.foldl (fun items change => Function.update items change.1 change.2) items

namespace Store

variable (store : Store)

/-- The plaintext of an item's record. -/
def plain : RecognizedRecord → Option Bytes
  | .account => store.account
  | .olmSession theirCurve25519 sessionId =>
    lookupNested store.olmSessions theirCurve25519 sessionId
  | .olmSessionOrder theirCurve25519 =>
    store.olmSessionOrder[theirCurve25519]?.map store.serde.writeOrder
  | .inboundGroupSession roomId sessionId =>
    lookupNested store.inboundGroupSessions roomId sessionId
  | .outboundGroupSession roomId => store.outboundGroupSessions[roomId]?
  | .devices userId => store.devices[userId]?
  | .trackedUser userId => store.trackedUsers[userId]?.map fun outdated =>
    [if outdated then 1 else 0]
  | .withheld roomId sessionId => lookupNested store.withheld roomId sessionId
  | .backupKey => store.backupKey
  | .crossSigningKeys => store.crossSigningKeys
  | .syncToken => store.syncToken.map fun token => token.toUTF8.data.toList
  | .roomState roomId => store.roomState[roomId]?
  | .pendingRequest requestId => store.pendingRequests[requestId]?.map store.serde.writePending
  | .counters => store.counters.map store.serde.writeCounters

/-- No map of sessions is empty, and the record format keeps every pending request. -/
structure Tidy : Prop where
  olmSessions : NoneEmpty store.olmSessions
  inboundGroupSessions : NoneEmpty store.inboundGroupSessions
  withheld : NoneEmpty store.withheld
  pendingRequests : ∀ (id : RequestId) (req : PendingRequest),
    store.pendingRequests[id]? = some req → store.serde.Keeps req

variable {store} in
/-- Other parts of a store do not matter for that. -/
theorem Tidy.of_eq {after : Store} (tidy : store.Tidy)
    (holm : after.olmSessions = store.olmSessions)
    (hinbound : after.inboundGroupSessions = store.inboundGroupSessions)
    (hwithheld : after.withheld = store.withheld)
    (hpending : after.pendingRequests = store.pendingRequests)
    (hserde : after.serde = store.serde) : after.Tidy where
  olmSessions := holm ▸ tidy.olmSessions
  inboundGroupSessions := hinbound ▸ tidy.inboundGroupSessions
  withheld := hwithheld ▸ tidy.withheld
  pendingRequests id req h := by
    rw [hserde]
    exact tidy.pendingRequests id req (hpending ▸ h)

/-- Equal but for the flush gate. -/
def SameWorkingSet (a b : Store) : Prop := a = { b with gate := a.gate }

/-- The change of a record that a change of its item makes. -/
def markOf (change : ItemChange) : Mark :=
  (change.1.key store.deviceId,
    match change.2 with
    | some plaintext =>
      .write (store.codec.sealRecord (change.1.key store.deviceId) plaintext)
    | none => .delete)

end Store

/-- The operations of the store that change its working set. -/
inductive StoreOp where
  | mutate (mutation : Mutation)
  | savePendingRequest (req : PendingRequest)
  | deletePendingRequest (id : RequestId)
  | saveCounters (counters : Counters)

namespace StoreOp

def run (store : Store) : StoreOp → Store
  | .mutate mutation => mutation.run store
  | .savePendingRequest req => store.savePendingRequest req
  | .deletePendingRequest id => store.deletePendingRequest id
  | .saveCounters counters => store.saveCounters counters

/-- The items an operation writes and deletes, in order. -/
def changes (store : Store) : StoreOp → List ItemChange
  | .mutate (.saveAccount account) => [(.account, some account)]
  | .mutate (.saveOlmSession theirCurve25519 sessionId session) =>
    let used := Store.useSession (store.olmSessionOrder.getD theirCurve25519 []) sessionId
    [(.olmSession theirCurve25519 sessionId, some session),
      (.olmSessionOrder theirCurve25519, some (store.serde.writeOrder used.1))] ++
      (used.2.map fun evicted => (.olmSession theirCurve25519 evicted, none)).toList
  | .mutate (.saveInboundGroupSession roomId sessionId session) =>
    [(.inboundGroupSession roomId sessionId, some session)]
  | .mutate (.saveOutboundGroupSession roomId session) =>
    [(.outboundGroupSession roomId, some session)]
  | .mutate (.saveDevices userId devices) => [(.devices userId, some devices)]
  | .mutate (.markUserTracked userId outdated) =>
    [(.trackedUser userId, some [if outdated then 1 else 0])]
  | .mutate (.saveWithheld roomId sessionId code) => [(.withheld roomId sessionId, some code)]
  | .mutate (.saveBackupKey key) => [(.backupKey, some key)]
  | .mutate (.saveCrossSigningKeys keys) => [(.crossSigningKeys, some keys)]
  | .mutate (.saveSyncToken token) => [(.syncToken, some token.toUTF8.data.toList)]
  | .mutate (.saveRoomState roomId state) => [(.roomState roomId, some state)]
  | .savePendingRequest req =>
    [(.pendingRequest req.request.id, some (store.serde.writePending req))]
  | .deletePendingRequest id =>
    if id ∈ store.pendingRequests then [(.pendingRequest id, none)] else []
  | .saveCounters counters => [(.counters, some (store.serde.writeCounters counters))]

/-- Only the maps of the working set and the gate change. -/
theorem run_frame (store : Store) (op : StoreOp) :
    (op.run store).deviceId = store.deviceId ∧ (op.run store).codec = store.codec ∧
      (op.run store).serde = store.serde ∧ (op.run store).unknown = store.unknown := by
  cases op with
  | mutate mutation =>
    cases mutation with
    | saveOlmSession theirCurve25519 sessionId session =>
      simp only [run, Mutation.run, Store.saveOlmSession]
      split <;> exact ⟨rfl, rfl, rfl, rfl⟩
    | _ => exact ⟨rfl, rfl, rfl, rfl⟩
  | deletePendingRequest id =>
    simp only [run, Store.deletePendingRequest]
    split <;> exact ⟨rfl, rfl, rfl, rfl⟩
  | _ => exact ⟨rfl, rfl, rfl, rfl⟩

/-- The gate is given the sealed changes. -/
theorem run_gate (store : Store) (op : StoreOp) :
    (op.run store).gate = ((op.changes store).map store.markOf).foldl
      (fun gate mark => gate.mark mark.1 mark.2) store.gate := by
  cases op with
  | mutate mutation =>
    cases mutation with
    | saveOlmSession theirCurve25519 sessionId session =>
      simp only [run, changes, Mutation.run, Store.saveOlmSession]
      generalize Store.useSession (store.olmSessionOrder.getD theirCurve25519 []) sessionId = used
      cases used.2 <;> rfl
    | _ => rfl
  | deletePendingRequest id =>
    simp only [run, changes, Store.deletePendingRequest]
    split <;> rfl
  | _ => rfl

/-- The session pushed out of an order is not the one that was used. -/
theorem evicted_ne {order : List String} {sessionId evicted : String}
    (h : (Store.useSession order sessionId).2 = some evicted) : evicted ≠ sessionId := by
  have hkept : ∀ kept : List String, kept = order.filter (· ≠ sessionId) →
      maxOlmSessionsPerDevice < (kept ++ [sessionId]).length →
      (kept ++ [sessionId]).head? = some evicted → evicted ≠ sessionId := by
    rintro kept hkept hlong hhead rfl
    cases kept with
    | nil => simp [maxOlmSessionsPerDevice] at hlong
    | cons first kept =>
      obtain rfl : first = evicted := by simpa using hhead
      have hmem : first ∈ order.filter (· ≠ first) := hkept ▸ List.mem_cons_self ..
      simp at hmem
  simp only [Store.useSession] at h
  split at h
  · next hlong => exact hkept _ rfl hlong h
  · cases h

theorem run_plain (store : Store) (op : StoreOp) :
    (op.run store).plain = applyItems store.plain (op.changes store) := by
  cases op with
  | mutate mutation =>
    cases mutation with
    | saveOlmSession theirCurve25519 sessionId session =>
      simp only [run, Mutation.run, Store.saveOlmSession, changes]
      generalize hused : Store.useSession (store.olmSessionOrder.getD theirCurve25519 [])
        sessionId = used
      funext item
      cases hevicted : used.2 with
      | none =>
        cases item <;> simp [Store.plain, applyItems, Store.markDirty, Function.update,
          lookupNested_insertNested, getElem?_insert_ite, apply_ite (Option.map _)]
      | some evicted =>
        have hne := evicted_ne (hused ▸ hevicted)
        cases item <;> simp [Store.plain, applyItems, Store.markDirty, Store.markDeleted,
          Function.update, lookupNested_insertNested, lookupNested_eraseInner, getElem?_insert_ite,
          apply_ite (Option.map _)]
    | _ =>
      funext item
      cases item <;> simp [run, Mutation.run, Store.plain, changes, applyItems,
        Store.saveAccount, Store.saveInboundGroupSession, Store.saveOutboundGroupSession,
        Store.saveDevices, Store.markUserTracked, Store.saveWithheld, Store.saveBackupKey,
        Store.saveCrossSigningKeys, Store.saveSyncToken, Store.saveRoomState, Store.markDirty,
        Function.update, lookupNested_insertNested, getElem?_insert_ite, apply_ite (Option.map _)]
  | deletePendingRequest id =>
    simp only [run, changes, Store.deletePendingRequest]
    split
    · funext item
      cases item <;> simp [Store.plain, applyItems, Store.markDeleted, Function.update,
        getElem?_erase_ite, apply_ite (Option.map _)]
    · rfl
  | savePendingRequest req =>
    funext item
    cases item <;> simp [run, Store.plain, changes, applyItems, Store.savePendingRequest,
      Store.markDirty, Function.update, getElem?_insert_ite, apply_ite (Option.map _)]
  | saveCounters counters =>
    funext item
    cases item <;> simp [run, Store.plain, changes, applyItems, Store.saveCounters,
      Store.markDirty, Function.update]

/-- A request that the operation saves is kept by the record format. -/
def Kept (serde : Serde) : StoreOp → Prop
  | .savePendingRequest req => serde.Keeps req
  | _ => True

theorem run_tidy {store : Store} (tidy : store.Tidy) {op : StoreOp} (kept : op.Kept store.serde) :
    (op.run store).Tidy := by
  cases op with
  | mutate mutation =>
    cases mutation with
    | saveOlmSession theirCurve25519 sessionId session =>
      simp only [run, Mutation.run, Store.saveOlmSession]
      generalize hused : Store.useSession (store.olmSessionOrder.getD theirCurve25519 [])
        sessionId = used
      have hsessions := tidy.olmSessions.insertNested theirCurve25519 sessionId session
      cases hevicted : used.2 with
      | none =>
        exact ⟨hsessions, tidy.inboundGroupSessions, tidy.withheld, tidy.pendingRequests⟩
      | some evicted =>
        have hne := evicted_ne (hused ▸ hevicted)
        refine ⟨hsessions.eraseInner hne.symm ?_, tidy.inboundGroupSessions, tidy.withheld,
          tidy.pendingRequests⟩
        simp [lookupNested_insertNested]
    | saveInboundGroupSession roomId sessionId session =>
      exact ⟨tidy.olmSessions, tidy.inboundGroupSessions.insertNested _ _ _, tidy.withheld,
        tidy.pendingRequests⟩
    | saveWithheld roomId sessionId code =>
      exact ⟨tidy.olmSessions, tidy.inboundGroupSessions, tidy.withheld.insertNested _ _ _,
        tidy.pendingRequests⟩
    | _ => exact tidy.of_eq rfl rfl rfl rfl rfl
  | savePendingRequest req =>
    refine { tidy with pendingRequests := fun id other h => ?_ }
    change (store.pendingRequests.insert req.request.id req)[id]? = some other at h
    rw [getElem?_insert_ite] at h
    split_ifs at h
    · exact Option.some.inj h ▸ kept
    · exact tidy.pendingRequests id other h
  | deletePendingRequest id =>
    simp only [run, Store.deletePendingRequest]
    split
    · refine { tidy with pendingRequests := fun other req h => ?_ }
      rw [getElem?_erase_ite] at h
      split_ifs at h
      exact tidy.pendingRequests other req h
    · exact tidy
  | saveCounters counters => exact tidy.of_eq rfl rfl rfl rfl rfl

end StoreOp

end Messenger
