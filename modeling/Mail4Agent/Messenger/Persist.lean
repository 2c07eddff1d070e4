import Mail4Agent.Messenger.Wire

/-!
# The flush gate

The gate collects record writes and deletions until they are drained into a
numbered batch, and remembers which batches the shell has not acknowledged yet.
A request is sealed against the gate when it is enqueued: it is given the number
of the newest batch that can hold a mutation made before it, and it may be sent
once no batch up to that number is unacknowledged.

Batch numbers are natural numbers here; the program counts them in a `u64` that
starts at zero with every process.
-/

namespace Messenger

/-- A storage key for one sealed record. -/
@[ext]
structure RecordKey where
  value : String
deriving DecidableEq, Repr

instance : Ord RecordKey := ⟨compareOn RecordKey.value⟩
instance : Std.TransOrd RecordKey := inferInstanceAs (Std.TransCmp (compareOn RecordKey.value))
instance : Std.LawfulEqOrd RecordKey where
  eq_of_compare h := RecordKey.ext (Std.LawfulEqOrd.eq_of_compare h)

structure SealedRecord where
  key : RecordKey
  bytes : Bytes
deriving DecidableEq, Repr

/-- One flush unit: writes and deletions the shell performs together. -/
structure FlushBatch where
  id : Nat
  records : List SealedRecord
  deletes : List RecordKey
deriving DecidableEq, Repr

/-- The latest pending change of one key. -/
inductive PendingOp where
  | write (bytes : Bytes)
  | delete
deriving DecidableEq, Repr

/-- The newest batch a request waits for; `none` waits for nothing. -/
structure RequiredSeq where
  seq : Option Nat
deriving DecidableEq, Repr

structure FlushGate where
  nextBatchId : Nat
  pending : BTreeMap RecordKey PendingOp
  unackedBatches : Finset Nat

/-- The batch that drains `pending`, in key order. -/
def FlushBatch.drain (id : Nat) (pending : BTreeMap RecordKey PendingOp) : FlushBatch where
  id := id
  records := pending.toList.filterMap fun entry =>
    match entry.2 with
    | .write bytes => some ⟨entry.1, bytes⟩
    | .delete => none
  deletes := pending.toList.filterMap fun entry =>
    match entry.2 with
    | .write _ => none
    | .delete => some entry.1

namespace FlushGate

def new : FlushGate := ⟨0, ∅, ∅⟩

def mark (gate : FlushGate) (key : RecordKey) (op : PendingOp) : FlushGate :=
  { gate with pending := gate.pending.insert key op }

def markDirty (gate : FlushGate) (key : RecordKey) (bytes : Bytes) : FlushGate :=
  gate.mark key (.write bytes)

def markDeleted (gate : FlushGate) (key : RecordKey) : FlushGate :=
  gate.mark key .delete

def takeBatch (gate : FlushGate) : Option FlushBatch × FlushGate :=
  if gate.pending.isEmpty then (none, gate)
  else
    (some (.drain gate.nextBatchId gate.pending),
      { nextBatchId := gate.nextBatchId + 1
        pending := ∅
        unackedBatches := insert gate.nextBatchId gate.unackedBatches })

def ack (gate : FlushGate) (id : Nat) : FlushGate :=
  { gate with unackedBatches := gate.unackedBatches.erase id }

def sealForRequest (gate : FlushGate) : (RequiredSeq × Option FlushBatch) × FlushGate :=
  if gate.pending.isEmpty then
    -- `checked_sub(1)`: before the first batch there is nothing to wait for.
    ((⟨if gate.nextBatchId = 0 then none else some (gate.nextBatchId - 1)⟩, none), gate)
  else
    match gate.takeBatch with
    | (batch, gate) => ((⟨batch.map FlushBatch.id⟩, batch), gate)

def isReleased (gate : FlushGate) (required : RequiredSeq) : Bool :=
  match required.seq with
  | none => true
  | some seq => decide (∀ id ∈ gate.unackedBatches, ¬ id ≤ seq)

end FlushGate

/-- The record map of a store directory. -/
abbrev RecordMap := BTreeMap RecordKey Bytes

/-- One pending change performed on a record map. -/
def PendingOp.applyTo (map : RecordMap) (key : RecordKey) : PendingOp → RecordMap
  | .write bytes => map.insert key bytes
  | .delete => map.erase key

/-- The value of a key after its last change, if there was one. -/
def PendingOp.outcome (old : Option Bytes) : Option PendingOp → Option Bytes
  | some (.write bytes) => some bytes
  | some .delete => none
  | none => old

/-- What a shell does with a batch: every write, then every deletion. -/
def FlushBatch.applyTo (map : RecordMap) (batch : FlushBatch) : RecordMap :=
  batch.deletes.foldl (fun map key => map.erase key)
    (batch.records.foldl (fun map record => map.insert record.key record.bytes) map)

/-- The change a batch carries for a key. -/
def FlushBatch.entry (batch : FlushBatch) (key : RecordKey) : Option PendingOp :=
  if key ∈ batch.deletes then some .delete
  else (batch.records.find? fun record => record.key = key).map fun record => .write record.bytes

namespace FlushGate

variable (gate : FlushGate)

@[simp] theorem mark_nextBatchId (key : RecordKey) (op : PendingOp) :
    (gate.mark key op).nextBatchId = gate.nextBatchId := rfl

@[simp] theorem mark_pending (key : RecordKey) (op : PendingOp) :
    (gate.mark key op).pending = gate.pending.insert key op := rfl

@[simp] theorem mark_unackedBatches (key : RecordKey) (op : PendingOp) :
    (gate.mark key op).unackedBatches = gate.unackedBatches := rfl

@[simp] theorem ack_nextBatchId (id : Nat) : (gate.ack id).nextBatchId = gate.nextBatchId := rfl

@[simp] theorem ack_pending (id : Nat) : (gate.ack id).pending = gate.pending := rfl

@[simp] theorem ack_unackedBatches (id : Nat) :
    (gate.ack id).unackedBatches = gate.unackedBatches.erase id := rfl

/-- Taking a batch either finds nothing pending or drains everything pending. -/
theorem takeBatch_cases :
    (gate.pending = ∅ ∧ gate.takeBatch = (none, gate)) ∨
    (gate.pending ≠ ∅ ∧ gate.takeBatch =
      (some (.drain gate.nextBatchId gate.pending),
        ⟨gate.nextBatchId + 1, ∅, insert gate.nextBatchId gate.unackedBatches⟩)) := by
  by_cases h : gate.pending = ∅
  · exact .inl ⟨h, by simp [takeBatch, h]⟩
  · exact .inr ⟨h, by simp [takeBatch, h]⟩

/-- Sealing drains like `takeBatch`; the request waits for the newest batch. -/
theorem sealForRequest_eq :
    gate.sealForRequest =
      ((⟨if gate.takeBatch.2.nextBatchId = 0 then none
          else some (gate.takeBatch.2.nextBatchId - 1)⟩, gate.takeBatch.1), gate.takeBatch.2) := by
  rcases gate.takeBatch_cases with ⟨h, ht⟩ | ⟨h, ht⟩
  · simp [sealForRequest, ht, h]
  · simp [sealForRequest, ht, h, FlushBatch.drain]

variable {gate}

theorem isReleased_iff {required : RequiredSeq} :
    gate.isReleased required = true ↔
      ∀ seq, required.seq = some seq → ∀ id ∈ gate.unackedBatches, seq < id := by
  rcases required with ⟨_ | seq⟩
  · simp [isReleased]
  · simp [isReleased]

end FlushGate

/-! ## Draining and applying -/

theorem PendingOp.getElem?_applyTo (map : RecordMap) (key k : RecordKey) (op : PendingOp) :
    (op.applyTo map key)[k]? = if key = k then outcome none (some op) else map[k]? := by
  cases op <;> simp [PendingOp.applyTo, PendingOp.outcome, Std.ExtTreeMap.getElem?_insert,
    Std.ExtTreeMap.getElem?_erase]

/-- Inserting records with distinct keys puts exactly those records in front of the map. -/
theorem getElem?_foldl_insert (records : List SealedRecord) (map : RecordMap) (k : RecordKey)
    (distinct : records.Pairwise fun a b => a.key ≠ b.key) :
    (records.foldl (fun map record => map.insert record.key record.bytes) map)[k]? =
      match records.find? fun record => record.key = k with
      | some record => some record.bytes
      | none => map[k]? := by
  induction records generalizing map with
  | nil => rfl
  | cons record records ih =>
    obtain ⟨hne, hrest⟩ := List.pairwise_cons.1 distinct
    rw [List.foldl_cons, ih _ hrest, List.find?_cons]
    by_cases hk : record.key = k
    · have hnone : records.find? (fun record => record.key = k) = none := by
        rw [List.find?_eq_none]
        intro other hother
        simpa [← hk] using (hne other hother).symm
      simp [hk, hnone]
    · simp [hk, Std.ExtTreeMap.getElem?_insert]

theorem getElem?_foldl_erase (deletes : List RecordKey) (map : RecordMap) (k : RecordKey) :
    (deletes.foldl (fun map key => map.erase key) map)[k]? =
      if k ∈ deletes then none else map[k]? := by
  induction deletes generalizing map with
  | nil => simp
  | cons key deletes ih =>
    rw [List.foldl_cons, ih, Std.ExtTreeMap.getElem?_erase]
    by_cases hk : key = k
    · simp [hk]
    · simp [hk, Ne.symm hk]

namespace FlushBatch

variable (id : Nat) (pending : BTreeMap RecordKey PendingOp)

@[simp] theorem drain_id : (drain id pending).id = id := rfl

theorem mem_drain_deletes {k : RecordKey} :
    k ∈ (drain id pending).deletes ↔ pending[k]? = some .delete := by
  rw [← Std.ExtTreeMap.mem_toList_iff_getElem?_eq_some]
  simp only [drain, List.mem_filterMap]
  constructor
  · rintro ⟨⟨key, op⟩, hmem, heq⟩
    cases op with
    | write bytes => cases heq
    | delete => cases heq; exact hmem
  · intro h
    exact ⟨_, h, rfl⟩

theorem mem_drain_records {record : SealedRecord} :
    record ∈ (drain id pending).records ↔ pending[record.key]? = some (.write record.bytes) := by
  rw [← Std.ExtTreeMap.mem_toList_iff_getElem?_eq_some]
  simp only [drain, List.mem_filterMap]
  constructor
  · rintro ⟨⟨key, op⟩, hmem, heq⟩
    cases op with
    | write bytes => cases heq; exact hmem
    | delete => cases heq
  · intro h
    exact ⟨_, h, rfl⟩

theorem drain_records_distinct : (drain id pending).records.Pairwise fun a b => a.key ≠ b.key := by
  refine List.Pairwise.filterMap _ ?_ (BTreeMap.toList_pairwise_ne pending)
  rintro ⟨k₁, op₁⟩ ⟨k₂, op₂⟩ hne r₁ h₁ r₂ h₂
  cases op₁ <;> cases op₂ <;> cases h₁ <;> cases h₂
  exact hne

/-- The records of a drained batch, looked up by key. -/
theorem find?_drain_records (k : RecordKey) :
    (drain id pending).records.find? (fun record => record.key = k) =
      match pending[k]? with
      | some (.write bytes) => some ⟨k, bytes⟩
      | _ => none := by
  cases hfind : (drain id pending).records.find? fun record => record.key = k with
  | none =>
    rw [List.find?_eq_none] at hfind
    split
    · next bytes h =>
      have := hfind ⟨k, bytes⟩ ((mem_drain_records id pending).2 h)
      simp at this
    · rfl
  | some record =>
    have hkey : record.key = k := by simpa using List.find?_some hfind
    have hmem := (mem_drain_records id pending).1 (List.mem_of_find?_eq_some hfind)
    rw [hkey] at hmem
    rw [hmem, ← hkey]

/-- A drained batch carries for each key exactly what was pending for it. -/
theorem entry_drain (k : RecordKey) : (drain id pending).entry k = pending[k]? := by
  rw [entry, find?_drain_records]
  by_cases h : pending[k]? = some .delete
  · rw [if_pos ((mem_drain_deletes id pending).2 h), h]
  · rw [if_neg (mt (mem_drain_deletes id pending).1 h)]
    match hop : pending[k]? with
    | none => rfl
    | some (.write bytes) => rfl
    | some .delete => exact absurd hop h

theorem getElem?_applyTo_drain (map : RecordMap) (k : RecordKey) :
    ((drain id pending).applyTo map)[k]? = PendingOp.outcome map[k]? pending[k]? := by
  rw [applyTo, getElem?_foldl_erase,
    getElem?_foldl_insert _ _ _ (drain_records_distinct id pending),
    find?_drain_records]
  by_cases h : pending[k]? = some .delete
  · rw [if_pos ((mem_drain_deletes id pending).2 h), h, PendingOp.outcome]
  · rw [if_neg (mt (mem_drain_deletes id pending).1 h)]
    match hop : pending[k]? with
    | none => rfl
    | some (.write bytes) => rfl
    | some .delete => exact absurd hop h

end FlushBatch

end Messenger
