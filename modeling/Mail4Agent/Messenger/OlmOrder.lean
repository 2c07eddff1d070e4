import Mail4Agent.Messenger.StoreRun

/-!
# The bound on Olm sessions

For every peer key the store keeps the sessions and, next to them, their ids in
order of use. Saving a session moves its id to the end of the order and pushes the
first one out once there are more than ten. The order and the sessions name the
same ids, in every store of a device and in what any initial part of its batches
leaves. A session that is pushed out is deleted with the next batch, unless it is
saved again before that batch is taken.
-/

namespace Messenger

namespace Store

def olmOrder (store : Store) (theirCurve25519 : String) : List String :=
  store.olmSessionOrder.getD theirCurve25519 []

/-- The order of a peer's sessions lists each of the stored ones once, and no more than ten. -/
structure OrdersPeer (store : Store) (theirCurve25519 : String) : Prop where
  nodup : (store.olmOrder theirCurve25519).Nodup
  bounded : (store.olmOrder theirCurve25519).length ≤ maxOlmSessionsPerDevice
  stored : ∀ sessionId, sessionId ∈ store.olmOrder theirCurve25519 ↔
    (lookupNested store.olmSessions theirCurve25519 sessionId).isSome

def OlmOrdered (store : Store) : Prop := ∀ theirCurve25519, store.OrdersPeer theirCurve25519

end Store

/-! ## One use of a session -/

section UseSession

variable {order : List String} {sessionId : String}

/-- The id of the used session moves to the end. -/
theorem nodup_moved (h : order.Nodup) : (order.filter (· ≠ sessionId) ++ [sessionId]).Nodup := by
  rw [List.nodup_append]
  refine ⟨h.filter _, List.nodup_singleton _, fun a ha b hb => ?_⟩
  rw [List.mem_singleton.1 hb]
  simpa using (List.mem_filter.1 ha).2

theorem useSession_nodup (h : order.Nodup) : (Store.useSession order sessionId).1.Nodup := by
  simp only [Store.useSession]
  split
  · exact (List.drop_sublist ..).nodup (nodup_moved h)
  · exact nodup_moved h

theorem useSession_length (h : order.length ≤ maxOlmSessionsPerDevice) :
    (Store.useSession order sessionId).1.length ≤ maxOlmSessionsPerDevice := by
  have hfilter := List.length_filter_le (fun id => decide (id ≠ sessionId)) order
  simp only [Store.useSession]
  split
  · rw [List.length_drop, List.length_append, List.length_singleton]
    omega
  · next hshort => exact not_lt.1 hshort

/-- After a use the order names the used session and the others, except the one pushed out. -/
theorem mem_useSession (h : order.Nodup) (id : String) :
    id ∈ (Store.useSession order sessionId).1 ↔
      (id = sessionId ∨ id ∈ order) ∧ (Store.useSession order sessionId).2 ≠ some id := by
  have hmoved : ∀ id, id ∈ order.filter (· ≠ sessionId) ++ [sessionId] ↔
      id = sessionId ∨ id ∈ order := by
    intro id
    simp only [List.mem_append, List.mem_filter, List.mem_singleton, decide_eq_true_eq]
    tauto
  have hnodup : (order.filter (· ≠ sessionId) ++ [sessionId]).Nodup := nodup_moved h
  simp only [Store.useSession, ← hmoved]
  generalize order.filter (· ≠ sessionId) ++ [sessionId] = moved at hnodup
  split
  · cases moved with
    | nil => simp
    | cons first rest =>
      rw [List.nodup_cons] at hnodup
      simp only [List.drop_one, List.tail_cons, List.mem_cons, List.head?_cons, ne_eq,
        Option.some.injEq]
      constructor
      · exact fun hmem => ⟨.inr hmem, fun heq => hnodup.1 (heq ▸ hmem)⟩
      · rintro ⟨rfl | hmem, hne⟩
        · exact absurd rfl hne
        · exact hmem
  · simp

end UseSession

/-! ## Every store of a device -/

namespace Store

variable (store : Store) (theirCurve25519 sessionId : String) (session : Bytes)

theorem olmOrder_saveOlmSession (peer : String) :
    (store.saveOlmSession theirCurve25519 sessionId session).olmOrder peer =
      if peer = theirCurve25519 then
        (useSession (store.olmOrder theirCurve25519) sessionId).1 else store.olmOrder peer := by
  have hinsert : (store.saveOlmSession theirCurve25519 sessionId session).olmSessionOrder =
      store.olmSessionOrder.insert theirCurve25519
        (useSession (store.olmOrder theirCurve25519) sessionId).1 := by
    simp only [saveOlmSession]
    split <;> rfl
  rw [olmOrder, hinsert, Std.ExtTreeMap.getD_eq_getD_getElem?, getElem?_insert_ite]
  split
  · rfl
  · rw [olmOrder, Std.ExtTreeMap.getD_eq_getD_getElem?]

theorem olmSessions_saveOlmSession (peer id : String) :
    lookupNested (store.saveOlmSession theirCurve25519 sessionId session).olmSessions peer id =
      if peer = theirCurve25519 ∧
          (useSession (store.olmOrder theirCurve25519) sessionId).2 = some id then none
      else if peer = theirCurve25519 ∧ id = sessionId then some session
      else lookupNested store.olmSessions peer id := by
  have hitem := congrFun (StoreOp.run_plain store
    (.mutate (.saveOlmSession theirCurve25519 sessionId session))) (.olmSession peer id)
  refine Eq.trans (b := applyItems store.plain _ (.olmSession peer id)) hitem ?_
  have hchanges : StoreOp.changes store
      (.mutate (.saveOlmSession theirCurve25519 sessionId session)) =
      [(.olmSession theirCurve25519 sessionId, some session), (.olmSessionOrder theirCurve25519,
        some (store.serde.writeOrder (useSession (store.olmOrder theirCurve25519) sessionId).1))] ++
        ((useSession (store.olmOrder theirCurve25519) sessionId).2.map fun evicted =>
          (.olmSession theirCurve25519 evicted, none)).toList := rfl
  rw [hchanges]
  cases (useSession (store.olmOrder theirCurve25519) sessionId).2 with
  | none => simp [applyItems, Function.update, plain]
  | some evicted => simp [applyItems, Function.update, plain, @eq_comm _ evicted]

variable {store}

/-- Saving a session keeps the orders in step with the sessions. -/
theorem OlmOrdered.saveOlmSession (h : store.OlmOrdered) :
    (store.saveOlmSession theirCurve25519 sessionId session).OlmOrdered := by
  intro peer
  have hpeer := h peer
  by_cases hsame : peer = theirCurve25519
  · subst hsame
    refine ⟨?_, ?_, fun id => ?_⟩
    · rw [olmOrder_saveOlmSession, if_pos rfl]
      exact useSession_nodup hpeer.nodup
    · rw [olmOrder_saveOlmSession, if_pos rfl]
      exact useSession_length hpeer.bounded
    · rw [olmOrder_saveOlmSession, if_pos rfl, mem_useSession hpeer.nodup, hpeer.stored,
        olmSessions_saveOlmSession]
      by_cases hevicted : (useSession (store.olmOrder peer) sessionId).2 = some id
      · simp [hevicted]
      · by_cases hid : id = sessionId <;> simp [hevicted, hid]
  · refine ⟨?_, ?_, fun id => ?_⟩
    · rw [olmOrder_saveOlmSession, if_neg hsame]
      exact hpeer.nodup
    · rw [olmOrder_saveOlmSession, if_neg hsame]
      exact hpeer.bounded
    · rw [olmOrder_saveOlmSession, if_neg hsame, hpeer.stored, olmSessions_saveOlmSession]
      simp [hsame]

theorem OlmOrdered.congr {a b : Store} (horder : a.olmSessionOrder = b.olmSessionOrder)
    (hsessions : a.olmSessions = b.olmSessions) (h : b.OlmOrdered) : a.OlmOrdered := by
  intro peer
  have horder' : a.olmOrder peer = b.olmOrder peer := by rw [olmOrder, olmOrder, horder]
  refine ⟨?_, ?_, fun id => ?_⟩
  · rw [horder']; exact (h peer).nodup
  · rw [horder']; exact (h peer).bounded
  · rw [horder', hsessions]; exact (h peer).stored id

/-- The orders are an invariant of the working set. -/
theorem olmOrdered_invariant : WorkingSetInvariant OlmOrdered where
  blank store _ hblank := by
    intro peer
    have horder : store.olmOrder peer = [] := by
      have hitem := hblank (.olmSessionOrder peer)
      rw [plain, Option.map_eq_none_iff] at hitem
      rw [olmOrder, Std.ExtTreeMap.getD_eq_getD_getElem?, hitem, Option.getD_none]
    refine ⟨by simp [horder], by simp [horder], fun id => ?_⟩
    have hitem : lookupNested store.olmSessions peer id = none := hblank (.olmSession peer id)
    simp [horder, hitem]
  run store op h := by
    cases op with
    | mutate mutation =>
      cases mutation with
      | saveOlmSession theirCurve25519 sessionId session => exact OlmOrdered.saveOlmSession _ _ _ h
      | _ => exact OlmOrdered.congr (b := store) rfl rfl h
    | deletePendingRequest id =>
      simp only [StoreOp.run, deletePendingRequest]
      split <;> exact OlmOrdered.congr (b := store) rfl rfl h
    | _ => exact OlmOrdered.congr (b := store) rfl rfl h
  same a b hsame h := by
    rw [SameWorkingSet] at hsame
    exact OlmOrdered.congr (by rw [hsame]) (by rw [hsame]) h

end Store

/-! ## What is pushed out -/

/-- The operation saves this session of this peer. -/
def StoreStep.savesOlm (theirCurve25519 sessionId : String) : StoreStep → Prop
  | .op (.mutate (.saveOlmSession peer id _)) => peer = theirCurve25519 ∧ id = sessionId
  | _ => False

/-- The step takes a batch. -/
def StoreStep.takes : StoreStep → Bool
  | .takeFlushBatch | .sealForRequest => true
  | _ => false

namespace Recorded

variable {r : Recorded} {theirCurve25519 sessionId : String}

/-- A session is marked for deletion. -/
def Doomed (r : Recorded) (theirCurve25519 sessionId : String) : Prop :=
  r.store.gate.pending[olmSessionRecordKey r.store.deviceId theirCurve25519 sessionId]? =
    some .delete

/-- The pending change of an item after an operation is the last one it made. -/
theorem pending_marks (store : Store) (gate : FlushGate) (changes : List ItemChange)
    (item : RecognizedRecord) {op : PendingOp}
    (h : gate.pending[item.key store.deviceId]? = some op)
    (kept : ∀ plaintext, (item, plaintext) ∈ changes → (store.markOf (item, plaintext)).2 = op) :
    ((changes.map store.markOf).foldl (fun gate mark => gate.mark mark.1 mark.2)
      gate).pending[item.key store.deviceId]? = some op := by
  induction changes using List.reverseRecOn with
  | nil => exact h
  | append_singleton changes change ih =>
    obtain ⟨changed, plaintext⟩ := change
    have hbefore := ih fun plaintext hmem => kept plaintext (List.mem_append_left _ hmem)
    rw [List.map_append, List.foldl_append, List.map_singleton, List.foldl_cons, List.foldl_nil,
      FlushGate.mark_pending, getElem?_insert_ite]
    split
    · next heq =>
      obtain rfl := RecognizedRecord.key_injective store.deviceId heq
      exact congrArg some (kept plaintext (by simp))
    · exact hbefore

/-- The save that pushes a session out marks it for deletion. -/
theorem doomed_of_evicted (session : Bytes) {evicted : String}
    (h : (Store.useSession (r.store.olmOrder theirCurve25519) sessionId).2 = some evicted) :
    (r.step (.op (.mutate (.saveOlmSession theirCurve25519 sessionId session)))).Doomed
      theirCurve25519 evicted := by
  rw [Store.olmOrder] at h
  simp only [Doomed, step, StoreOp.run, Mutation.run, Store.saveOlmSession, h]
  exact Std.ExtTreeMap.getElem?_insert_self

section

variable (h : r.Doomed theirCurve25519 sessionId)

include h

/-- A deletion stays marked until a batch is taken or the session is saved again. -/
theorem Doomed.step {s : StoreStep} (quiet : s.takes = false)
    (unsaved : ¬ s.savesOlm theirCurve25519 sessionId) :
    (r.step s).Doomed theirCurve25519 sessionId := by
  cases s with
  | op op =>
    obtain ⟨hdevice, -⟩ := op.run_frame r.store
    simp only [Doomed, Recorded.step, hdevice, op.run_gate r.store]
    refine pending_marks r.store r.store.gate (op.changes r.store)
      (.olmSession theirCurve25519 sessionId) h fun plaintext hmem => ?_
    cases plaintext with
    | none => rfl
    | some plaintext =>
      refine absurd ?_ unsaved
      cases op with
      | mutate mutation =>
        cases mutation with
        | saveOlmSession peer id session =>
          have hitem : peer = theirCurve25519 ∧ id = sessionId := by
            simp only [StoreOp.changes, List.cons_append, List.nil_append, List.mem_cons,
              Prod.mk.injEq, RecognizedRecord.olmSession.injEq, Option.mem_toList,
              Option.map_eq_some_iff, reduceCtorEq, false_and, and_false, exists_false,
              or_false] at hmem
            exact ⟨hmem.1.1.symm, hmem.1.2.symm⟩
          exact hitem
        | _ => simp [StoreOp.changes] at hmem
      | deletePendingRequest id =>
        simp only [StoreOp.changes] at hmem
        split at hmem <;> simp at hmem
      | _ => simp [StoreOp.changes] at hmem
  | takeFlushBatch => cases quiet
  | sealForRequest => cases quiet
  | ackFlush id => exact h

theorem Doomed.run {steps : List StoreStep} (quiet : ∀ s ∈ steps, s.takes = false)
    (unsaved : ∀ s ∈ steps, ¬ s.savesOlm theirCurve25519 sessionId) :
    (r.run steps).Doomed theirCurve25519 sessionId := by
  induction steps generalizing r with
  | nil => exact h
  | cons s steps ih =>
    rw [List.forall_mem_cons] at quiet unsaved
    exact ih (h.step quiet.1 unsaved.1) quiet.2 unsaved.2

/-- The next batch deletes it, and its record is gone. -/
theorem Doomed.taken :
    (∃ batch, r.store.takeFlushBatch.1 = some batch ∧
      olmSessionRecordKey r.store.deviceId theirCurve25519 sessionId ∈ batch.deletes) ∧
      (r.step .takeFlushBatch).directory[olmSessionRecordKey r.store.deviceId theirCurve25519
        sessionId]? = none := by
  rw [Doomed] at h
  rcases r.store.gate.takeBatch_cases with ⟨hempty, -⟩ | ⟨-, htake⟩
  · rw [hempty] at h
    simp at h
  · refine ⟨⟨.drain r.store.gate.nextBatchId r.store.gate.pending, ?_, ?_⟩, ?_⟩
    · rw [Store.takeFlushBatch, htake]
    · exact (FlushBatch.mem_drain_deletes _ _).2 h
    · rw [r.takeFlushBatch_eq.1, getElem?_drained, h]
      rfl

end

end Recorded

/-! ## The bound -/

/-- The save of a session and the steps up to the next batch. -/
def Recorded.saveThen (r : Recorded) (theirCurve25519 sessionId : String) (session : Bytes)
    (steps : List StoreStep) : Recorded :=
  (r.step (.op (.mutate (.saveOlmSession theirCurve25519 sessionId session)))).run steps

/-- In every store of a device, and in one loaded from any initial part of its batches, the
order of each peer's sessions has no duplicates, at most ten entries and exactly the stored
ids. A session pushed out by a save and not saved again before the next batch is taken is
deleted by that batch. -/
theorem olmSessions_bounded {device : DeviceId} {codec : RecordCodec} {serde : Serde}
    (laws : RecordLaws codec serde) {r : Recorded} (reachable : Reachable device codec serde r) :
    r.store.OlmOrdered ∧
    (∀ kept records store, Lists records (r.directoryAfter kept) →
      Store.load records codec serde device = .ok store → store.OlmOrdered) ∧
    ∀ theirCurve25519 sessionId session evicted,
      (Store.useSession (r.store.olmOrder theirCurve25519) sessionId).2 = some evicted →
      ∀ steps : List StoreStep, (∀ s ∈ steps, s.takes = false) →
        (∀ s ∈ steps, ¬ s.savesOlm theirCurve25519 evicted) →
        (∃ batch, (r.saveThen theirCurve25519 sessionId session steps).store.takeFlushBatch.1 =
            some batch ∧ olmSessionRecordKey device theirCurve25519 evicted ∈ batch.deletes) ∧
          ((r.saveThen theirCurve25519 sessionId session steps).step
            .takeFlushBatch).directory[olmSessionRecordKey device theirCurve25519 evicted]? =
              none := by
  have hsound := reachable.sound Store.olmOrdered_invariant laws
  refine ⟨hsound.now.holds, fun kept records store lists opened => ?_, ?_⟩
  · obtain ⟨old, snapshot⟩ := hsound.kept kept
    exact (snapshot.load Store.olmOrdered_invariant.same laws lists opened).1.holds
  · intro theirCurve25519 sessionId session evicted hevicted steps quiet unsaved
    have hdoomed := (Recorded.doomed_of_evicted session hevicted).run quiet unsaved
    have hdevice : (r.saveThen theirCurve25519 sessionId session steps).store.deviceId = device :=
      ((Recorded.run_frame _ steps).2.1.trans (r.step_frame _).2.1).trans hsound.now.params.1
    rw [← hdevice]
    exact hdoomed.taken

/-- As many sessions of one peer as there is room for. -/
def tenSaves : List StoreStep :=
  ["0", "1", "2", "3", "4", "5", "6", "7", "8", "9"].map fun id =>
    .op (.mutate (.saveOlmSession "curve" id [1]))

theorem reachable_tenSaves : Reachable roundTripDevice insecurePlainCodecForTests documentSerde
    (freshRecorded.run tenSaves) := by
  have hfirst : Reachable roundTripDevice insecurePlainCodecForTests documentSerde freshRecorded :=
    .first (by simp) lists_nil rfl
  have hkept : ∀ s ∈ tenSaves, s.Kept documentSerde := by
    intro s hs
    obtain ⟨id, -, rfl⟩ := List.mem_map.1 hs
    exact StoreStep.kept_mutate _ _
  have hall : Trace.Throughout Recorded.step
      (Reachable roundTripDevice insecurePlainCodecForTests documentSerde) freshRecorded tenSaves :=
    Trace.throughout_of_invariant (fun r s hs (h : Reachable roundTripDevice
      insecurePlainCodecForTests documentSerde r) => h.step hs) (fun _ h => h) hkept hfirst
  exact hall.last

/-- The eleventh session pushes the first one out; if that one is saved again at once, the next
batch writes it instead of deleting it. -/
theorem not_deleted_savedAgain :
    Reachable roundTripDevice insecurePlainCodecForTests documentSerde
      (freshRecorded.run tenSaves) ∧
    (Store.useSession ((freshRecorded.run tenSaves).store.olmOrder "curve") "10").2 = some "0" ∧
    ¬ (∃ batch, ((freshRecorded.run tenSaves).saveThen "curve" "10" [1]
        [.op (.mutate (.saveOlmSession "curve" "0" [2]))]).store.takeFlushBatch.1 = some batch ∧
      olmSessionRecordKey roundTripDevice "curve" "0" ∈ batch.deletes) := by
  refine ⟨reachable_tenSaves, by decide +kernel, ?_⟩
  rintro ⟨batch, hbatch, hmem⟩
  have heval : (((freshRecorded.run tenSaves).saveThen "curve" "10" [1]
      [.op (.mutate (.saveOlmSession "curve" "0" [2]))]).store.takeFlushBatch.1.map
        fun batch => decide (olmSessionRecordKey roundTripDevice "curve" "0" ∈ batch.deletes)) =
      some false := by decide +kernel
  rw [hbatch, Option.map_some, decide_eq_true hmem] at heval
  cases heval

/-- The eleventh session, and the account saved before the batch. -/
theorem olmSessions_bounded_tenSaves :
    (freshRecorded.run tenSaves).store.OlmOrdered ∧
    (((freshRecorded.run tenSaves).saveThen "curve" "10" [1]
      [.op (.mutate (.saveAccount [3]))]).step .takeFlushBatch).directory[olmSessionRecordKey
        roundTripDevice "curve" "0"]? = none := by
  have h := olmSessions_bounded documentSerde_laws reachable_tenSaves
  refine ⟨h.1, (h.2.2 "curve" "10" [1] "0" (by decide +kernel) _ ?_ ?_).2⟩
  · simp [StoreStep.takes]
  · simp [StoreStep.savesOlm]

end Messenger
