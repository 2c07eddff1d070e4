import Mail4Agent.Messenger.PersistLog

/-!
# The record log after a crash

A gate is marked and drained for a while, and the frame of every batch is appended
to the log. A crash leaves a prefix of the log's bytes. `replay_cut` says what a
boot makes of it: exactly the changes of the batches whose frames are complete,
performed in order on top of the snapshot, and the end of the last complete frame
as the length to keep.
-/

namespace Messenger

/-- A call on a gate. -/
inductive GateCall where
  | markDirty (key : RecordKey) (bytes : Bytes)
  | markDeleted (key : RecordKey)
  | takeBatch

/-- A gate with the batches that were taken from it, oldest first. -/
structure GateRun where
  gate : FlushGate
  batches : List FlushBatch

def GateRun.step (run : GateRun) : GateCall → GateRun
  | .markDirty key bytes => { run with gate := run.gate.markDirty key bytes }
  | .markDeleted key => { run with gate := run.gate.markDeleted key }
  | .takeBatch => ⟨run.gate.takeBatch.2, run.batches ++ run.gate.takeBatch.1.toList⟩

def gateRun (calls : List GateCall) : GateRun := Trace.run GateRun.step ⟨FlushGate.new, []⟩ calls

/-- Changes grouped by the batch that takes them, and the changes not taken yet. -/
def mutationStep (groups : List (List Mark) × List Mark) : GateCall → List (List Mark) × List Mark
  | .markDirty key bytes => (groups.1, groups.2 ++ [(key, .write bytes)])
  | .markDeleted key => (groups.1, groups.2 ++ [(key, .delete)])
  | .takeBatch => if groups.2 = [] then groups else (groups.1 ++ [groups.2], [])

/-- The changes each batch of a run stands for, in the order they were made. -/
def mutationsPerBatch (calls : List GateCall) : List (List Mark) :=
  (calls.foldl mutationStep ([], [])).1

/-- The batches drain the groups of changes, numbered from zero. -/
theorem gateRun_batches (calls : List GateCall) :
    (gateRun calls).batches =
      (mutationsPerBatch calls).mapIdx fun id changes => .drain id (lastOps changes) := by
  have general : ∀ calls : List GateCall,
      (gateRun calls).batches =
          (mutationsPerBatch calls).mapIdx (fun id changes => .drain id (lastOps changes)) ∧
        (gateRun calls).gate.pending = lastOps (calls.foldl mutationStep ([], [])).2 ∧
        (gateRun calls).gate.nextBatchId = (mutationsPerBatch calls).length := by
    intro calls
    induction calls using List.reverseRecOn with
    | nil => exact ⟨rfl, rfl, rfl⟩
    | append_singleton calls call ih =>
      obtain ⟨hbatches, hpending, hnext⟩ := ih
      simp only [gateRun, Trace.run_snoc, mutationsPerBatch, List.foldl_append, List.foldl_cons,
        List.foldl_nil] at hbatches hpending hnext ⊢
      generalize Trace.run GateRun.step ⟨FlushGate.new, []⟩ calls = run at hbatches hpending hnext ⊢
      generalize calls.foldl mutationStep ([], []) = groups at hbatches hpending hnext ⊢
      cases call with
      | markDirty key bytes =>
        exact ⟨hbatches, by simp [GateRun.step, mutationStep, FlushGate.markDirty, FlushGate.mark,
          lastOps_snoc, hpending], hnext⟩
      | markDeleted key =>
        exact ⟨hbatches, by simp [GateRun.step, mutationStep, FlushGate.markDeleted,
          FlushGate.mark, lastOps_snoc, hpending], hnext⟩
      | takeBatch =>
        rcases run.gate.takeBatch_cases with ⟨hempty, htake⟩ | ⟨hfull, htake⟩
        · have hnone : groups.2 = [] := lastOps_eq_empty_iff.1 (hpending.symm.trans hempty)
          simpa [GateRun.step, mutationStep, htake, hnone] using ⟨hbatches, hnone ▸ hpending, hnext⟩
        · have hsome : groups.2 ≠ [] := fun h =>
            hfull (hpending.trans (lastOps_eq_empty_iff.2 h))
          simp [GateRun.step, mutationStep, htake, hsome, hbatches, hpending, hnext, lastOps]
  exact (general calls).1

/-- Performing the first batches is performing their changes. -/
theorem foldl_applyTo_drain_mapIdx (map : RecordMap) (groups : List (List Mark)) (start : Nat) :
    (groups.mapIdx fun id changes => FlushBatch.drain (start + id) (lastOps changes)).foldl
      FlushBatch.applyTo map = applyMarks map groups.flatten := by
  induction groups generalizing map start with
  | nil => rfl
  | cons changes groups ih =>
    have := ih (applyMarks map changes) (start + 1)
    simp only [List.mapIdx_cons, List.foldl_cons, Nat.add_zero, applyTo_drain_lastOps,
      List.flatten_cons, applyMarks_append]
    simpa [Nat.add_assoc, Nat.add_comm 1] using this

/-- A snapshot's frame, as a batch without deletions. -/
def snapshotBatch (records : RecordMap) : FlushBatch where
  id := 0
  records := records.toList.map fun entry => ⟨entry.1, entry.2⟩
  deletes := []

theorem encodeSnapshot_eq (digest : Digest) (records : RecordMap) :
    encodeSnapshot digest records = encodeBatch digest (snapshotBatch records) := by
  simp [encodeSnapshot, snapshotPayload, encodeBatch, FlushBatch.payload, snapshotBatch,
    Function.comp_def]

/-- Performing a snapshot on nothing restores it. -/
theorem applyTo_snapshotBatch (records : RecordMap) :
    (snapshotBatch records).applyTo ∅ = records := by
  have hdistinct : (snapshotBatch records).records.Pairwise fun a b => a.key ≠ b.key :=
    List.pairwise_map.2 (BTreeMap.toList_pairwise_ne records)
  apply Std.ExtTreeMap.ext_getElem?
  intro key
  refine (getElem?_foldl_insert (snapshotBatch records).records ∅ key hdistinct).trans ?_
  cases hfind : (snapshotBatch records).records.find? fun record => record.key = key with
  | some record =>
    obtain ⟨entry, hentry, rfl⟩ := List.mem_map.1 (List.mem_of_find?_eq_some hfind)
    have hkey : entry.1 = key := by simpa using List.find?_some hfind
    subst hkey
    exact (Std.ExtTreeMap.mem_toList_iff_getElem?_eq_some.1 hentry).symm
  | none =>
    cases hlook : records[key]? with
    | none => simp
    | some value =>
      have hmem : (⟨key, value⟩ : SealedRecord) ∈ (snapshotBatch records).records :=
        List.mem_map.2 ⟨(key, value), Std.ExtTreeMap.mem_toList_iff_getElem?_eq_some.2 hlook, rfl⟩
      exact absurd (List.find?_eq_none.1 hfind _ hmem) (by simp)

/-- What a boot replays ahead of the log: nothing, or the frame of a snapshot. -/
def SnapshotBytes (digest : Digest) (bytes : Bytes) (snapshot : RecordMap) : Prop :=
  (bytes = [] ∧ snapshot = ∅) ∨
    (bytes = encodeSnapshot digest snapshot ∧ (snapshotPayload snapshot).length < 2 ^ 32)

/-- For every run of the gate and every cut of the log of its frames, replaying the cut over a
snapshot performs exactly the changes of the batches whose frames are complete, and reports
the end of the last of them. -/
theorem replay_cut (digest : Digest) (calls : List GateCall) (n : Nat) {bytes : Bytes}
    {snapshot : RecordMap} (base : SnapshotBytes digest bytes snapshot)
    (short : ∀ batch ∈ (gateRun calls).batches, batch.payload.length < 2 ^ 32) :
    let frames := (gateRun calls).batches.map (encodeBatch digest)
    let complete := FrameLog.completeIn n frames
    replay digest (bytes ++ frames.flatten.take n) =
      (applyMarks snapshot ((mutationsPerBatch calls).take complete).flatten,
        bytes.length + (frames.take complete).flatten.length) := by
  intro frames complete
  have hlog : (logReader digest).fold DecodedFrame.applyTo (bytes ++ frames.flatten.take n)
      snapshot bytes.length =
      (applyMarks snapshot ((mutationsPerBatch calls).take complete).flatten,
        bytes.length + (frames.take complete).flatten.length) := by
    refine ((framing digest).fold_cut short bytes n snapshot).trans (Prod.ext ?_ rfl)
    simp only [FlushBatch.applyTo_view]
    change ((gateRun calls).batches.take complete).foldl FlushBatch.applyTo snapshot = _
    have htake : (gateRun calls).batches.take complete =
        ((mutationsPerBatch calls).take complete).mapIdx fun id changes =>
          .drain id (lastOps changes) := by
      rw [gateRun_batches]
      apply List.ext_getElem?
      intro i
      simp only [List.getElem?_take, List.getElem?_mapIdx]
      split <;> rfl
    rw [htake]
    simpa using foldl_applyTo_drain_mapIdx snapshot ((mutationsPerBatch calls).take complete) 0
  rcases base with ⟨rfl, rfl⟩ | ⟨rfl, hsmall⟩
  · exact hlog
  · rw [encodeSnapshot_eq] at hlog ⊢
    have hread := (framing digest).whole (snapshotBatch snapshot) [] (frames.flatten.take n) (by
      simpa [FlushBatch.payload, snapshotBatch, snapshotPayload, Function.comp_def] using hsmall)
    rw [← hlog, replay]
    refine (FrameLog.Reader.fold_of_some hread).trans ?_
    rw [FlushBatch.applyTo_view, applyTo_snapshotBatch]
    simp

/-- A digest that tells nothing apart. -/
def zeroDigest : Digest := ⟨fun _ => List.replicate hashLen 0, fun _ => by simp⟩

/-- A record is written and then deleted. -/
def writeThenDelete : List GateCall :=
  [.markDirty ⟨"k"⟩ [7], .takeBatch, .markDeleted ⟨"k"⟩, .takeBatch]

/-- The crash tears the frame of the deletion: the record is still there. -/
theorem replay_torn_delete :
    replay zeroDigest (encodeSnapshot zeroDigest ∅ ++
      (((gateRun writeThenDelete).batches.map (encodeBatch zeroDigest)).flatten.take 100)) =
        ((∅ : RecordMap).insert ⟨"k"⟩ [7], 114) := by
  have base : SnapshotBytes zeroDigest (encodeSnapshot zeroDigest ∅) ∅ := .inr ⟨rfl, by decide⟩
  refine (replay_cut zeroDigest writeThenDelete 100 base (by decide)).trans (Prod.ext ?_ ?_)
  · rfl
  · decide

end Messenger
