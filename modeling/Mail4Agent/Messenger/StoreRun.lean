import Mail4Agent.Foundation.JsonText
import Mail4Agent.Messenger.RoundTrip

/-!
# Runs of the store and the records they leave

A process performs operations on its store, drains batches from it and is told
which were written. The directory it leaves is what it found with the batches
taken performed in order. Between the batches, the directory lags behind the
working set by the pending changes; right after a batch it mirrors the working
set, and so does every directory an initial part of the batches leaves with
respect to the working set of that time.
-/

namespace Messenger

open Store

inductive StoreStep where
  | op (op : StoreOp)
  | takeFlushBatch
  | sealForRequest
  | ackFlush (id : Nat)

/-- A request that the step saves is kept by the record format. -/
def StoreStep.Kept (serde : Serde) : StoreStep → Prop
  | .op operation => operation.Kept serde
  | _ => True

theorem StoreStep.kept_mutate (serde : Serde) (mutation : Mutation) :
    StoreStep.Kept serde (.op (.mutate mutation)) :=
  trivial

/-- A store, the directory it was loaded from and the batches taken since. -/
structure Recorded where
  disk : RecordMap
  store : Store
  batches : List FlushBatch

namespace Recorded

def step (r : Recorded) : StoreStep → Recorded
  | .op op => { r with store := op.run r.store }
  | .takeFlushBatch =>
    { r with
      store := r.store.takeFlushBatch.2
      batches := r.batches ++ r.store.takeFlushBatch.1.toList }
  | .sealForRequest =>
    { r with
      store := r.store.sealForRequest.2
      batches := r.batches ++ r.store.sealForRequest.1.2.toList }
  | .ackFlush id => { r with store := r.store.ackFlush id }

def run (r : Recorded) (steps : List StoreStep) : Recorded := Trace.run step r steps

/-- The directory after the first `kept` batches. -/
def directoryAfter (r : Recorded) (kept : Nat) : RecordMap :=
  (r.batches.take kept).foldl FlushBatch.applyTo r.disk

/-- The directory after all batches taken. -/
def directory (r : Recorded) : RecordMap := r.batches.foldl FlushBatch.applyTo r.disk

/-- The working set is mirrored by the directory with the pending changes performed. -/
structure Consistent (r : Recorded) : Prop where
  tidy : r.store.Tidy
  mirrored : r.store.Mirrored (drained r.directory r.store.gate.pending)

/-- A new process reads the records of the kept batches, in some order. -/
def reopen? (r : Recorded) (kept : Nat) (records : List SealedRecord) : Option Recorded :=
  if records.Perm (diskRecords (r.directoryAfter kept)) then
    match Store.load records r.store.codec r.store.serde r.store.deviceId with
    | .ok store => some ⟨r.directoryAfter kept, store, []⟩
    | .error _ => none
  else none

variable {r : Recorded}

theorem reopen?_eq_some {device : DeviceId} {codec : RecordCodec} {serde : Serde} {next : Recorded}
    (params : r.store.deviceId = device ∧ r.store.codec = codec ∧ r.store.serde = serde)
    {kept : Nat} {records : List SealedRecord} (h : r.reopen? kept records = some next) :
    ∃ store, Lists records (r.directoryAfter kept) ∧
      Store.load records codec serde device = .ok store ∧
      next = ⟨r.directoryAfter kept, store, []⟩ := by
  obtain ⟨rfl, rfl, rfl⟩ := params
  rw [reopen?] at h
  split_ifs at h with hperm
  split at h
  · next store hload =>
    refine ⟨store, fun record => ?_, hload, (Option.some.inj h).symm⟩
    exact hperm.mem_iff.trans (lists_diskRecords _ record)
  · cases h

theorem step_sealForRequest (r : Recorded) : r.step .sealForRequest = r.step .takeFlushBatch := by
  simp [step, sealForRequest, takeFlushBatch, FlushGate.sealForRequest_eq]

/-- Taking a batch moves the pending changes into the directory. -/
theorem takeFlushBatch_eq (r : Recorded) :
    (r.step .takeFlushBatch).directory = drained r.directory r.store.gate.pending ∧
      (r.step .takeFlushBatch).store.gate.pending = ∅ ∧
      (r.step .takeFlushBatch).store.SameWorkingSet r.store := by
  rcases r.store.gate.takeBatch_cases with ⟨hnone, htake⟩ | ⟨-, htake⟩
  · refine ⟨?_, ?_, rfl⟩
    · simp [step, directory, takeFlushBatch, htake, hnone, drained_empty]
    · simpa [step, takeFlushBatch, htake] using hnone
  · refine ⟨?_, ?_, rfl⟩
    · simp only [step, directory, takeFlushBatch, htake, Option.toList_some,
        List.foldl_append, List.foldl_cons, List.foldl_nil]
      rfl
    · simp [step, takeFlushBatch, htake]

/-- A step keeps the device, the codec, the record formats and the unknown records. -/
theorem step_frame (r : Recorded) (s : StoreStep) :
    (r.step s).disk = r.disk ∧ (r.step s).store.deviceId = r.store.deviceId ∧
      (r.step s).store.codec = r.store.codec ∧ (r.step s).store.serde = r.store.serde ∧
      (r.step s).store.unknown = r.store.unknown := by
  cases s with
  | op op => exact ⟨rfl, op.run_frame r.store⟩
  | _ => exact ⟨rfl, rfl, rfl, rfl, rfl⟩

theorem Consistent.step (h : r.Consistent) {s : StoreStep} (kept : s.Kept r.store.serde) :
    (r.step s).Consistent := by
  have htake : (r.step .takeFlushBatch).Consistent := by
    obtain ⟨hdirectory, hpending, -⟩ := r.takeFlushBatch_eq
    refine ⟨h.tidy.of_eq rfl rfl rfl rfl rfl, ?_⟩
    rw [hdirectory, hpending, drained_empty]
    exact h.mirrored
  cases s with
  | op op => exact ⟨StoreOp.run_tidy h.tidy kept, op.run_mirrored h.mirrored⟩
  | takeFlushBatch => exact htake
  | sealForRequest => rw [step_sealForRequest]; exact htake
  | ackFlush id =>
    exact ⟨h.tidy.of_eq rfl rfl rfl rfl rfl, h.mirrored⟩

theorem Consistent.run (h : r.Consistent) {steps : List StoreStep}
    (kept : ∀ s ∈ steps, s.Kept r.store.serde) : (r.run steps).Consistent := by
  induction steps generalizing r with
  | nil => exact h
  | cons s steps ih =>
    rw [List.forall_mem_cons] at kept
    refine ih (h.step kept.1) fun t ht => ?_
    rw [(r.step_frame s).2.2.2.1]
    exact kept.2 t ht

theorem run_frame (r : Recorded) (steps : List StoreStep) :
    (r.run steps).disk = r.disk ∧ (r.run steps).store.deviceId = r.store.deviceId ∧
      (r.run steps).store.codec = r.store.codec ∧ (r.run steps).store.serde = r.store.serde ∧
      (r.run steps).store.unknown = r.store.unknown := by
  refine Trace.run_invariant (fun s : Recorded => s.disk = r.disk ∧
    s.store.deviceId = r.store.deviceId ∧ s.store.codec = r.store.codec ∧
    s.store.serde = r.store.serde ∧ s.store.unknown = r.store.unknown) (fun s i h => ?_)
    ⟨rfl, rfl, rfl, rfl, rfl⟩ steps
  obtain ⟨hdisk, hdevice, hcodec, hserde, hunknown⟩ := s.step_frame i
  exact ⟨hdisk.trans h.1, hdevice.trans h.2.1, hcodec.trans h.2.2.1, hserde.trans h.2.2.2.1,
    hunknown.trans h.2.2.2.2⟩

end Recorded

/-! ## Restarts from an initial part of the batches -/

section Reachable

variable {device : DeviceId} {codec : RecordCodec} {serde : Serde}

/-- The states of a device over all its processes. The first one finds nothing, or records of
unknown kind; each later one finds what some initial part of the batches of the one before
left. -/
inductive Reachable (device : DeviceId) (codec : RecordCodec) (serde : Serde) : Recorded → Prop
  | first {foreign : RecordMap} {records : List SealedRecord} {store : Store}
      (unknown : ∀ key ∈ foreign, parseRecordKey device key = .ok none)
      (lists : Lists records foreign)
      (opened : Store.load records codec serde device = .ok store) :
      Reachable device codec serde ⟨foreign, store, []⟩
  | step {r : Recorded} (before : Reachable device codec serde r) {s : StoreStep}
      (kept : s.Kept serde) : Reachable device codec serde (r.step s)
  | restart {r : Recorded} {records : List SealedRecord} {store : Store}
      (before : Reachable device codec serde r) (kept : Nat)
      (lists : Lists records (r.directoryAfter kept))
      (opened : Store.load records codec serde device = .ok store) :
      Reachable device codec serde ⟨r.directoryAfter kept, store, []⟩

/-- A working set that holds nothing but unknown records. -/
def Store.foreignOnly (device : DeviceId) (codec : RecordCodec) (serde : Serde)
    (foreign : RecordMap) : Store :=
  { Store.new device codec serde with unknown := foreign }

theorem Store.foreignOnly_plain (foreign : RecordMap) (item : RecognizedRecord) :
    (Store.foreignOnly device codec serde foreign).plain item = none := by
  cases item <;> simp [plain, foreignOnly, new, lookupNested]

theorem Store.foreignOnly_tidy (foreign : RecordMap) :
    (Store.foreignOnly device codec serde foreign).Tidy :=
  ⟨noneEmpty_empty, noneEmpty_empty, noneEmpty_empty, by simp [foreignOnly, new]⟩

theorem Store.foreignOnly_mirrored {foreign : RecordMap}
    (unknown : ∀ key ∈ foreign, parseRecordKey device key = .ok none) :
    (Store.foreignOnly device codec serde foreign).Mirrored foreign where
  items item := by
    rw [foreignOnly_plain, Option.map_none, ← Option.not_isSome_iff_eq_none,
      ← Std.ExtTreeMap.mem_iff_isSome_getElem?]
    exact fun hmem => parseRecordKey_key_ne device item (unknown _ hmem)
  unknown _ _ := rfl
  only_unknown := unknown
  nothing_else key hmem := .inr (unknown key hmem)

/-- A property of the working set alone. -/
def IgnoresGate (Q : Store → Prop) : Prop := ∀ a b : Store, a.SameWorkingSet b → Q b → Q a

/-- What holds of a store without items, is kept by operations and does not look at the gate. -/
structure WorkingSetInvariant (Q : Store → Prop) : Prop where
  blank : ∀ store : Store, store.Tidy → (∀ item, store.plain item = none) → Q store
  run : ∀ (store : Store) (op : StoreOp), Q store → Q (op.run store)
  same : ∀ a b : Store, a.SameWorkingSet b → Q b → Q a

/-- A working set with the invariant that a directory mirrors. -/
structure Snapshot (device : DeviceId) (codec : RecordCodec) (serde : Serde) (Q : Store → Prop)
    (disk : RecordMap) (store : Store) : Prop where
  params : store.deviceId = device ∧ store.codec = codec ∧ store.serde = serde
  tidy : store.Tidy
  mirrored : store.Mirrored disk
  holds : Q store

variable {Q Q' : Store → Prop} {disk : RecordMap} {store old : Store} {records : List SealedRecord}
  {r : Recorded}

theorem Snapshot.mono (h : ∀ store, Q store → Q' store)
    (snapshot : Snapshot device codec serde Q disk store) :
    Snapshot device codec serde Q' disk store :=
  ⟨snapshot.params, snapshot.tidy, snapshot.mirrored, h store snapshot.holds⟩

/-- A store loaded from a snapshot is one. -/
theorem Snapshot.load (same : IgnoresGate Q) (laws : RecordLaws codec serde)
    (snapshot : Snapshot device codec serde Q disk old) (lists : Lists records disk)
    (opened : Store.load records codec serde device = .ok store) :
    Snapshot device codec serde Q disk store ∧ store.LoadedFrom old disk := by
  obtain ⟨⟨rfl, rfl, rfl⟩, tidy, mirrored, holds⟩ := snapshot
  have hparses := parses_of_load mirrored lists opened
  obtain ⟨loaded, hload, hfrom⟩ := load_of_mirrored laws tidy mirrored lists hparses
  cases hload.symm.trans opened
  have hsame := hfrom.same
  rw [Store.SameWorkingSet] at hsame
  exact ⟨⟨⟨by rw [hsame], by rw [hsame], by rw [hsame]⟩, hfrom.tidy, hfrom.mirrored,
    same _ _ hfrom.same holds⟩, hfrom⟩

/-- The store and every directory it may be restarted from have the invariant. -/
structure Sound (device : DeviceId) (codec : RecordCodec) (serde : Serde) (Q : Store → Prop)
    (r : Recorded) : Prop where
  now : Snapshot device codec serde Q (drained r.directory r.store.gate.pending) r.store
  kept : ∀ n, ∃ old, Snapshot device codec serde Q (r.directoryAfter n) old

theorem Sound.mono (h : ∀ store, Q store → Q' store) (sound : Sound device codec serde Q r) :
    Sound device codec serde Q' r :=
  ⟨sound.now.mono h, fun n => (sound.kept n).imp fun _ snapshot => snapshot.mono h⟩

theorem Sound.consistent (h : Sound device codec serde Q r) : r.Consistent :=
  ⟨h.now.tidy, h.now.mirrored⟩

theorem Sound.loaded (same : IgnoresGate Q) (laws : RecordLaws codec serde)
    (snapshot : Snapshot device codec serde Q disk old) (lists : Lists records disk)
    (opened : Store.load records codec serde device = .ok store) :
    Sound device codec serde Q ⟨disk, store, []⟩ := by
  obtain ⟨hsnapshot, hfrom⟩ := snapshot.load same laws lists opened
  refine ⟨⟨hsnapshot.params, hsnapshot.tidy, ?_, hsnapshot.holds⟩, fun n => ⟨old, ?_⟩⟩
  · rw [Recorded.directory, List.foldl_nil, hfrom.drained_eq]
    exact hsnapshot.mirrored
  · rw [Recorded.directoryAfter, List.take_nil, List.foldl_nil]
    exact snapshot

theorem Sound.now_step (h : Sound device codec serde Q r) {s : StoreStep} (kept : s.Kept serde)
    (holds : Q (r.step s).store) :
    Snapshot device codec serde Q (drained (r.step s).directory (r.step s).store.gate.pending)
      (r.step s).store := by
  have hconsistent : (r.step s).Consistent := h.consistent.step (h.now.params.2.2 ▸ kept)
  obtain ⟨-, hdevice, hcodec, hserde, -⟩ := r.step_frame s
  exact ⟨⟨hdevice.trans h.now.params.1, hcodec.trans h.now.params.2.1,
    hserde.trans h.now.params.2.2⟩, hconsistent.tidy, hconsistent.mirrored, holds⟩

theorem Sound.takeFlushBatch (same : IgnoresGate Q) (h : Sound device codec serde Q r) :
    Sound device codec serde Q (r.step .takeFlushBatch) := by
  obtain ⟨-, hpending, hsame⟩ := r.takeFlushBatch_eq
  have hkept : StoreStep.Kept serde .takeFlushBatch := trivial
  have hnow := h.now_step hkept (same _ _ hsame h.now.holds)
  refine ⟨hnow, fun n => ?_⟩
  rw [hpending, drained_empty] at hnow
  by_cases hn : n ≤ r.batches.length
  · refine (h.kept n).imp fun old hold => ?_
    rwa [Recorded.directoryAfter, Recorded.step, List.take_append_of_le_length hn]
  · -- The new batch is kept too: the directory mirrors the present working set.
    have hall : (r.step .takeFlushBatch).directoryAfter n = (r.step .takeFlushBatch).directory := by
      rw [Recorded.directoryAfter, List.take_of_length_le, Recorded.directory]
      have : r.store.takeFlushBatch.1.toList.length ≤ 1 := by
        cases r.store.takeFlushBatch.1 <;> simp
      simp only [Recorded.step, List.length_append]
      omega
    exact ⟨_, hall ▸ hnow⟩

/-- A step whose operation, if it is one, keeps the property. -/
theorem Sound.step_of (same : IgnoresGate Q) (h : Sound device codec serde Q r) {s : StoreStep}
    (kept : s.Kept serde) (holds : ∀ op, s = .op op → Q (op.run r.store)) :
      Sound device codec serde Q (r.step s) := by
  cases s with
  | op op => exact ⟨h.now_step kept (holds op rfl), h.kept⟩
  | takeFlushBatch => exact h.takeFlushBatch same
  | sealForRequest => rw [Recorded.step_sealForRequest]; exact h.takeFlushBatch same
  | ackFlush id => exact ⟨h.now_step kept (same _ _ rfl h.now.holds), h.kept⟩

theorem Sound.step (inv : WorkingSetInvariant Q) (h : Sound device codec serde Q r)
    {s : StoreStep} (kept : s.Kept serde) : Sound device codec serde Q (r.step s) :=
  h.step_of inv.same kept fun op _ => inv.run _ op h.now.holds

/-- An invariant of the working set holds in every store a device ever has, and in what any
initial part of its batches leaves. -/
theorem Reachable.sound (inv : WorkingSetInvariant Q) (laws : RecordLaws codec serde)
    (h : Reachable device codec serde r) :
    Sound device codec serde Q r := by
  induction h with
  | first unknown lists opened =>
    exact Sound.loaded inv.same laws ⟨⟨rfl, rfl, rfl⟩, foreignOnly_tidy _,
      foreignOnly_mirrored unknown, inv.blank _ (foreignOnly_tidy _)
        (foreignOnly_plain _)⟩ lists opened
  | step before kept ih => exact ih.step inv kept
  | restart before kept lists opened ih =>
    obtain ⟨old, snapshot⟩ := ih.kept kept
    exact Sound.loaded inv.same laws snapshot lists opened

end Reachable

/-! ## Which identifiers a run leaves on disk -/

/-- The item an operation is about. -/
def StoreOp.item : StoreOp → RecognizedRecord
  | .mutate (.saveAccount _) => .account
  | .mutate (.saveOlmSession theirCurve25519 sessionId _) => .olmSession theirCurve25519 sessionId
  | .mutate (.saveInboundGroupSession roomId sessionId _) => .inboundGroupSession roomId sessionId
  | .mutate (.saveOutboundGroupSession roomId _) => .outboundGroupSession roomId
  | .mutate (.saveDevices userId _) => .devices userId
  | .mutate (.markUserTracked userId _) => .trackedUser userId
  | .mutate (.saveWithheld roomId sessionId _) => .withheld roomId sessionId
  | .mutate (.saveBackupKey _) => .backupKey
  | .mutate (.saveCrossSigningKeys _) => .crossSigningKeys
  | .mutate (.saveSyncToken _) => .syncToken
  | .mutate (.saveRoomState roomId _) => .roomState roomId
  | .savePendingRequest req => .pendingRequest req.request.id
  | .deletePendingRequest id => .pendingRequest id
  | .saveCounters _ => .counters

/-- The identifiers an operation names pass their parsers. -/
def StoreStep.parses : StoreStep → Bool
  | .op operation => operation.item.parses
  | _ => true

theorem applyItems_snoc (items : RecognizedRecord → Option Bytes) (changes : List ItemChange)
    (change : ItemChange) :
    applyItems items (changes ++ [change]) =
      Function.update (applyItems items changes) change.1 change.2 := by
  simp [applyItems]

variable {items : RecognizedRecord → Option Bytes} {α : Type}

/-- An item that is not deleted stays, and a written one is there. -/
theorem applyItems_ne_none {changes : List ItemChange} {item : RecognizedRecord}
    (kept : (item, none) ∉ changes)
    (h : items item ≠ none ∨ ∃ plaintext, (item, some plaintext) ∈ changes) :
    applyItems items changes item ≠ none := by
  induction changes using List.reverseRecOn with
  | nil =>
    rcases h with h | ⟨_, hmem⟩
    · exact h
    · cases hmem
  | append_singleton changes change ih =>
    obtain ⟨changed, value⟩ := change
    rw [applyItems_snoc, Function.update_apply]
    split
    · next heq =>
      rintro rfl
      exact kept (by simp [heq])
    · next hne =>
      refine ih (fun hmem => kept (List.mem_append_left _ hmem)) (h.imp_right ?_)
      rintro ⟨plaintext, hmem⟩
      refine ⟨plaintext, (List.mem_append.1 hmem).resolve_right fun hlast => hne ?_⟩
      exact congrArg Prod.fst (List.mem_singleton.1 hlast)

/-- An item that is there was there before or was written. -/
theorem applyItems_eq_some {changes : List ItemChange} {item : RecognizedRecord} {plaintext : Bytes}
    (h : applyItems items changes item = some plaintext) :
    items item = some plaintext ∨ (item, some plaintext) ∈ changes := by
  induction changes using List.reverseRecOn with
  | nil => exact .inl h
  | append_singleton changes change ih =>
    obtain ⟨changed, value⟩ := change
    rw [applyItems_snoc, Function.update_apply] at h
    split at h
    · next heq =>
      subst heq h
      exact .inr (by simp)
    · exact (ih h).imp_right (List.mem_append_left _)

namespace StoreOp

variable {store : Store} {op : StoreOp}

/-- Only sessions with a peer and pending requests are deleted. -/
theorem parses_of_deleted {item : RecognizedRecord} (h : (item, none) ∈ op.changes store) :
    item.parses = true := by
  cases op with
  | mutate mutation =>
    cases mutation with
    | saveOlmSession theirCurve25519 sessionId session =>
      simp only [changes, List.mem_append, List.mem_cons, Prod.mk.injEq, reduceCtorEq, and_false,
        List.not_mem_nil, or_self, false_or, Option.mem_toList, Option.map_eq_some_iff] at h
      obtain ⟨evicted, -, rfl, -⟩ := h
      rfl
    | _ => simp [changes] at h
  | deletePendingRequest id =>
    simp only [changes] at h
    split at h
    · obtain rfl : item = .pendingRequest id := by simpa using h
      rfl
    · cases h
  | _ => simp [changes] at h

/-- What is written is the operation's item or has no identifier to parse. -/
theorem written {item : RecognizedRecord} {plaintext : Bytes}
    (h : (item, some plaintext) ∈ op.changes store) : item = op.item ∨ item.parses = true := by
  cases op with
  | mutate mutation =>
    cases mutation with
    | saveOlmSession theirCurve25519 sessionId session =>
      simp only [changes, List.cons_append, List.nil_append, List.mem_cons, Prod.mk.injEq,
        Option.mem_toList, Option.map_eq_some_iff, reduceCtorEq, and_false, exists_false,
        or_false] at h
      rcases h with ⟨rfl, -⟩ | ⟨rfl, -⟩
      · exact .inl rfl
      · exact .inr rfl
    | _ =>
      simp only [changes, List.mem_singleton, Prod.mk.injEq] at h
      exact .inl h.1
  | deletePendingRequest id =>
    simp only [changes] at h
    split at h <;> simp at h
  | _ =>
    simp only [changes, List.mem_singleton, Prod.mk.injEq] at h
    exact .inl h.1

/-- An identifier that does not parse is written all the same. -/
theorem item_written (h : op.item.parses = false) (store : Store) :
    ∃ plaintext, (op.item, some plaintext) ∈ op.changes store := by
  cases op with
  | mutate mutation => cases mutation <;> simp [item, changes] at h ⊢
  | _ => cases h

end StoreOp

namespace Recorded

/-- Every identifier in the working set passes its parser. -/
def Parses (r : Recorded) : Prop :=
  ∀ item : RecognizedRecord, r.store.plain item ≠ none → item.parses = true

variable {r : Recorded}

theorem plain_step_of_ne_op {s : StoreStep} (h : ∀ op, s ≠ .op op) :
    (r.step s).store.plain = r.store.plain := by
  funext item
  cases s with
  | op op => exact absurd rfl (h op)
  | _ => cases item <;> rfl

/-- One step keeps the identifiers parseable exactly if its own one is. -/
theorem parses_step_iff (h : r.Parses) (s : StoreStep) : (r.step s).Parses ↔ s.parses = true := by
  cases s with
  | op op =>
    have hplain : ((r.step (.op op)).store).plain = applyItems r.store.plain (op.changes r.store) :=
      op.run_plain r.store
    constructor
    · intro hafter
      by_contra hbad
      have hitem : op.item.parses = false := by simpa [StoreStep.parses] using hbad
      refine hbad (hafter op.item ?_)
      rw [hplain]
      refine applyItems_ne_none (fun hdeleted => ?_) (.inr (StoreOp.item_written hitem r.store))
      exact absurd (StoreOp.parses_of_deleted hdeleted) (by simp [hitem])
    · intro hitem item hsome
      obtain ⟨plaintext, hsome⟩ := Option.ne_none_iff_exists'.1 hsome
      rw [hplain] at hsome
      rcases applyItems_eq_some hsome with hold | hnew
      · exact h item (by simp [hold])
      · rcases StoreOp.written hnew with rfl | hparses
        · exact hitem
        · exact hparses
  | _ =>
    refine ⟨fun _ => rfl, fun _ item hsome => h item ?_⟩
    rwa [plain_step_of_ne_op (by simp)] at hsome

/-- An identifier that does not parse stays in the working set. -/
theorem not_parses_step (h : ¬ r.Parses) (s : StoreStep) : ¬ (r.step s).Parses := by
  simp only [Parses, not_forall] at h ⊢
  obtain ⟨item, hsome, hbad⟩ := h
  refine ⟨item, ?_, hbad⟩
  cases s with
  | op op =>
    have hplain : ((r.step (.op op)).store).plain = applyItems r.store.plain (op.changes r.store) :=
      op.run_plain r.store
    rw [hplain]
    exact applyItems_ne_none (fun hdeleted =>
      hbad (StoreOp.parses_of_deleted hdeleted)) (.inl hsome)
  | _ => rwa [plain_step_of_ne_op (by simp)]

/-- A run keeps the identifiers parseable exactly if each of its operations names only such. -/
theorem parses_run_iff (h : r.Parses) (steps : List StoreStep) :
    (r.run steps).Parses ↔ ∀ s ∈ steps, s.parses = true := by
  have hbad : ∀ (steps : List StoreStep) {r : Recorded}, ¬ r.Parses → ¬ (r.run steps).Parses :=
    fun steps _ h => Trace.run_invariant (fun r => ¬ Parses r)
      (fun _ s h => not_parses_step h s) h steps
  induction steps generalizing r with
  | nil => simpa [run] using h
  | cons s steps ih =>
    rw [List.forall_mem_cons]
    by_cases hs : s.parses = true
    · have hnext : (r.run (s :: steps)).Parses ↔ ∀ s ∈ steps, s.parses = true :=
        ih ((parses_step_iff h s).2 hs)
      rw [hnext]
      exact ⟨fun hrest => ⟨hs, hrest⟩, And.right⟩
    · refine iff_of_false ?_ fun hall => hs hall.1
      exact hbad steps (mt (parses_step_iff h s).1 hs)

end Recorded

/-! ## The round trip -/

/-- What is asked of the store and its keys: after a run and a last batch, the records of the
batches give the working set back; different items have different keys, and an item's key is
read as the item; unknown records stay as they are; a malformed key is refused. -/
structure RoundTrips (r : Recorded) (steps : List StoreStep) (item : RecognizedRecord)
    (key : RecordKey) : Prop where
  reproduces : ∀ records, Lists records ((r.run steps).step .takeFlushBatch).directory →
    ∃ loaded, Store.load records r.store.codec r.store.serde r.store.deviceId = .ok loaded ∧
      loaded.SameWorkingSet (r.run steps).store
  distinct : ∀ a b : RecognizedRecord, a.key r.store.deviceId = b.key r.store.deviceId → a = b
  inverts : parseRecordKey r.store.deviceId (item.key r.store.deviceId) = .ok (some item)
  survives : ∀ other, parseRecordKey r.store.deviceId other = .ok none →
    ((r.run steps).step .takeFlushBatch).directory[other]? = r.store.unknown[other]?
  refused : Malformed r.store.deviceId key →
    parseRecordKey r.store.deviceId key = .error (.unknownRecordLayout key)

/-- A store that has just read records of unknown kind has nothing else. -/
theorem Recorded.consistent_foreign {codec : RecordCodec} {serde : Serde} {device : DeviceId}
    (laws : RecordLaws codec serde) {foreign : RecordMap}
    (unknown : ∀ key ∈ foreign, parseRecordKey device key = .ok none)
    {records : List SealedRecord} (lists : Lists records foreign) {store : Store}
    (opened : Store.load records codec serde device = .ok store) :
    (⟨∅, store, []⟩ : Recorded).Consistent ∧ (⟨∅, store, []⟩ : Recorded).Parses ∧
      store.unknown = foreign ∧ store.deviceId = device ∧ store.codec = codec ∧
      store.serde = serde := by
  obtain ⟨loaded, hload, hloaded⟩ := load_of_mirrored laws
    (foreignOnly_tidy foreign) (foreignOnly_mirrored unknown) lists
    (by simp [foreignOnly_plain])
  cases hload.symm.trans opened
  have hsame := hloaded.same
  rw [Store.SameWorkingSet] at hsame
  have hpending : drained ∅ store.gate.pending = foreign := by
    refine Std.ExtTreeMap.ext_getElem? fun key => ?_
    rw [getElem?_drained, hloaded.gate, hsame]
    dsimp only [foreignOnly]
    cases foreign[key]? <;> simp [PendingOp.outcome]
  refine ⟨⟨hloaded.tidy, ?_⟩, ?_, by rw [hsame]; rfl, by rw [hsame]; rfl, by rw [hsame]; rfl,
    by rw [hsame]; rfl⟩
  · rw [Recorded.directory, List.foldl_nil, hpending]
    exact hloaded.mirrored
  · intro item hsome
    dsimp only at hsome
    rw [hsame] at hsome
    refine absurd ?_ hsome
    have := @Store.foreignOnly_plain device codec serde foreign item
    cases item <;> exact this

/-- If the record format keeps every request that is saved, the round trip holds exactly if every
operation names room and user identifiers that pass their parsers, the item does, and no surplus
segment of the key is read. -/
theorem roundTrips_iff {codec : RecordCodec} {serde : Serde} {device : DeviceId}
    (laws : RecordLaws codec serde) {foreign : RecordMap}
    (unknown : ∀ key ∈ foreign, parseRecordKey device key = .ok none)
    {records : List SealedRecord} (lists : Lists records foreign) {store : Store}
    (opened : Store.load records codec serde device = .ok store) {steps : List StoreStep}
    (kept : ∀ s ∈ steps, s.Kept serde) (item : RecognizedRecord) (key : RecordKey) :
    RoundTrips ⟨∅, store, []⟩ steps item key ↔
      (∀ s ∈ steps, s.parses = true) ∧ item.parses = true ∧ ¬ ReadsSurplus device key := by
  obtain ⟨hstart, hparses, -, hdevice, hcodec, hserde⟩ :=
    Recorded.consistent_foreign laws unknown lists opened
  have hinverts : parseRecordKey device (item.key device) = .ok (some item) ↔
      item.parses = true := by
    rw [parseRecordKey_key]
    split <;> simp_all
  generalize hfinal : (⟨∅, store, []⟩ : Recorded).run steps = final
  have hconsistent : final.Consistent := hfinal ▸ hstart.run (hserde ▸ kept)
  obtain ⟨-, hfdevice, hfcodec, hfserde, hfunknown⟩ : _ ∧ _ :=
    hfinal ▸ Recorded.run_frame ⟨∅, store, []⟩ steps
  obtain ⟨hdirectory, -, -⟩ := final.takeFlushBatch_eq
  have hmirrored : final.store.Mirrored (final.step .takeFlushBatch).directory := by
    rw [hdirectory]
    exact hconsistent.mirrored
  have hload : (∀ records, Lists records (final.step .takeFlushBatch).directory →
      ∃ loaded, load records store.codec store.serde store.deviceId = .ok loaded ∧
        loaded.SameWorkingSet final.store) ↔ ∀ s ∈ steps, s.parses = true := by
    rw [← Recorded.parses_run_iff hparses steps, hfinal]
    dsimp only at hfdevice hfcodec hfserde
    rw [← hfdevice, ← hfcodec, ← hfserde]
    constructor
    · intro h
      obtain ⟨loaded, hloaded, -⟩ := h _ (lists_diskRecords _)
      exact parses_of_load hmirrored (lists_diskRecords _) hloaded
    · intro h records hlists
      obtain ⟨loaded, hloaded, hfrom⟩ := load_of_mirrored
        (by rw [hfcodec, hfserde, hcodec, hserde]; exact laws) hconsistent.tidy hmirrored hlists h
      exact ⟨loaded, hloaded, hfrom.same⟩
  constructor
  · intro h
    refine ⟨hload.1 (hfinal ▸ h.reproduces), hinverts.1 (hdevice ▸ h.inverts), ?_⟩
    exact refused_iff_not_readsSurplus.1 (hdevice ▸ h.refused)
  · rintro ⟨hsteps, hitem, hkey⟩
    subst hdevice
    exact
      { reproduces := hfinal ▸ hload.2 hsteps
        distinct := fun _ _ => RecognizedRecord.key_injective _
        inverts := hinverts.2 hitem
        survives := fun other hother => by
          rw [hfinal, hmirrored.unknown other (by rw [hfdevice]; exact hother), hfunknown]
        refused := refused_iff_not_readsSurplus.2 hkey }

/-! ## A lawful record format -/

/-- Pending requests as documents, field by field. -/
def PendingRequest.toJson (req : PendingRequest) : Json :=
  .arr [.str req.request.id.value, .int req.request.method.ctorIdx, .str req.request.path,
    .arr (req.request.query.map fun entry => .arr [.str entry.1, .str entry.2]),
    .arr req.request.body.toList, .int req.request.kind.ctorIdx,
    match req.lane with
    | .sync => .int 0
    | .toDevice => .int 1
    | .room roomId => .str roomId.value
    | .accountData => .int 2
    | .other => .int 3,
    req.requiredSeq.seq.elim .null fun seq => .int seq]

def Lane.ofJson? : Json → Option Lane
  | .int 0 => some .sync
  | .int 1 => some .toDevice
  | .str roomId => some (.room ⟨roomId⟩)
  | .int 2 => some .accountData
  | .int 3 => some .other
  | _ => none

def queryOfJson? : Json → Option (String × String)
  | .arr [.str name, .str value] => some (name, value)
  | _ => none

def seqOfJson? : Json → Option RequiredSeq
  | .null => some ⟨none⟩
  | .int seq => some ⟨some seq.toNat⟩
  | _ => none

def PendingRequest.ofJson? : Json → Option PendingRequest
  | .arr [.str id, .int method, .str path, .arr query, .arr body, .int kind, lane, seq] => do
    let query ← query.mapM queryOfJson?
    let lane ← Lane.ofJson? lane
    let seq ← seqOfJson? seq
    some ⟨⟨⟨id⟩, .ofNat method.toNat, path, query, body.head?, .ofNat kind.toNat⟩, lane, seq⟩
  | _ => none

theorem mapM_map_eq_some {β : Type} {f : α → β} {g : β → Option α}
    (hg : ∀ item, g (f item) = some item) (items : List α) :
    (items.map f).mapM g = some items := by
  induction items with
  | nil => rfl
  | cons item items ih => simp [hg, ih]

theorem PendingRequest.ofJson?_toJson (req : PendingRequest) : ofJson? req.toJson = some req := by
  obtain ⟨⟨⟨id⟩, method, path, query, body, kind⟩, lane, ⟨seq⟩⟩ := req
  have hmethod : HttpMethod.ofNat method.ctorIdx = method := by cases method <;> rfl
  have hkind : OutgoingRequestKind.ofNat kind.ctorIdx = kind := by cases kind <;> rfl
  have hquery := mapM_map_eq_some (g := queryOfJson?)
    (f := fun entry : String × String => .arr [.str entry.1, .str entry.2]) (fun _ => rfl) query
  cases lane <;> cases seq <;>
    simp [toJson, ofJson?, Lane.ofJson?, seqOfJson?, hquery, hmethod, hkind]

/-- Bytes of a document, and the document in them. -/
def documentBytes (document : Json) : Bytes := utf8 (JsonText.render document)

def bytesDocument (bytes : Bytes) : Option Json := (fromUtf8 bytes).bind JsonText.parse

theorem bytesDocument_documentBytes (document : Json) :
    bytesDocument (documentBytes document) = some document := by
  simp [bytesDocument, documentBytes, fromUtf8_utf8, JsonText.parse_render]

def readDocument {α : Type} (read : Json → Option α) (bytes : Bytes) : Except String α :=
  ((bytesDocument bytes).bind read).elim (.error "unexpected document") .ok

theorem readDocument_documentBytes {read : Json → Option α} {document : Json} {value : α}
    (h : read document = some value) : readDocument read (documentBytes document) = .ok value := by
  simp [readDocument, bytesDocument_documentBytes, h]

def Counters.ofJson? : Json → Option Counters
  | .arr [.int request, .int txn] => some ⟨request.toNat, txn.toNat⟩
  | _ => none

def orderOfJson? : Json → Option (List String)
  | .arr items => items.mapM Json.asStr?
  | _ => none

/-- Every typed record as a document. -/
def documentSerde : Serde where
  writeOrder order := documentBytes (.arr (order.map .str))
  readOrder := readDocument orderOfJson?
  writePending req := documentBytes req.toJson
  readPending := readDocument PendingRequest.ofJson?
  writeCounters c := documentBytes (.arr [.int c.nextRequestId, .int c.nextTxnId])
  readCounters := readDocument Counters.ofJson?

theorem documentSerde_keeps (req : PendingRequest) : documentSerde.Keeps req :=
  readDocument_documentBytes req.ofJson?_toJson

theorem documentSerde_laws : RecordLaws insecurePlainCodecForTests documentSerde where
  open_seal _ _ := rfl
  read_order order := by
    refine readDocument_documentBytes ?_
    exact mapM_map_eq_some (f := .str) (g := Json.asStr?) (fun _ => rfl) order
  read_counters c := readDocument_documentBytes (by simp [Counters.ofJson?])

/-! ## Where the round trip fails -/

def roundTripDevice : DeviceId := ⟨"DEV1"⟩

/-- A new device. -/
def freshRecorded : Recorded where
  disk := ∅
  store := .new roundTripDevice insecurePlainCodecForTests documentSerde
  batches := []

/-- The state of a room whose identifier names no server. -/
def saveServerless : StoreStep := .op (.mutate (.saveRoomState ⟨"!abc"⟩ [1]))

/-- The account key with one segment too many. -/
def longAccountKey : RecordKey := ⟨"messenger/DEV1/account/old"⟩

/-- A request key with one segment too many. -/
def longPendingKey : RecordKey := ⟨"messenger/DEV1/pending/req/1"⟩

theorem lists_nil : Lists [] ∅ := by simp [Lists]

/-- After the state of such a room was saved the directory does not load any more. A bare kind
with a further segment counts as unknown, a surplus segment as part of the last component. -/
theorem not_roundTrips_saveServerless :
    (∃ e, Store.load
      (diskRecords ((freshRecorded.run [saveServerless]).step .takeFlushBatch).directory)
      insecurePlainCodecForTests documentSerde roundTripDevice = .error e) ∧
    ¬ RoundTrips freshRecorded [saveServerless] .account (accountRecordKey roundTripDevice) ∧
    (Malformed roundTripDevice longAccountKey ∧
      parseRecordKey roundTripDevice longAccountKey = .ok none) ∧
    (Malformed roundTripDevice longPendingKey ∧
      parseRecordKey roundTripDevice longPendingKey =
        .ok (some (.pendingRequest ⟨"req/1"⟩))) := by
  have hload : (load
      (diskRecords ((freshRecorded.run [saveServerless]).step .takeFlushBatch).directory)
      insecurePlainCodecForTests documentSerde roundTripDevice).toOption.isNone = true := by
    decide +kernel
  have herror : ∃ e, load
      (diskRecords ((freshRecorded.run [saveServerless]).step .takeFlushBatch).directory)
      insecurePlainCodecForTests documentSerde roundTripDevice = .error e := by
    revert hload
    cases load
      (diskRecords ((freshRecorded.run [saveServerless]).step .takeFlushBatch).directory)
      insecurePlainCodecForTests documentSerde roundTripDevice with
    | error e => exact fun _ => ⟨e, rfl⟩
    | ok loaded => intro h; cases h
  refine ⟨herror, fun h => ?_, ⟨⟨"account", [['o', 'l', 'd']], [], ?_, ?_, rfl⟩, ?_⟩,
    ⟨⟨"pending", [['r', 'e', 'q'], ['1']], [.plain], ?_, ?_, rfl⟩, ?_⟩⟩
  · obtain ⟨e, he⟩ := herror
    obtain ⟨loaded, hloaded, -⟩ := h.reproduces _ (lists_diskRecords _)
    cases he.symm.trans hloaded
  all_goals decide +kernel

/-- A run over several kinds with a request deleted again, between two batches. -/
def mixedSteps : List StoreStep :=
  [.op (.mutate (.saveRoomState ⟨"!abc:example.org"⟩ [1])), .takeFlushBatch,
    .op (.mutate (.saveOlmSession "curve" "session/1" [2])),
    .op (.savePendingRequest ⟨.sync (.next 0) none none, .sync, ⟨none⟩⟩),
    .op (.savePendingRequest ⟨.sync ⟨"req"⟩ none none, .sync, ⟨none⟩⟩),
    .op (.saveCounters ⟨1, 2⟩), .op (.deletePendingRequest ⟨"req"⟩)]

theorem roundTrips_mixedSteps :
    RoundTrips freshRecorded mixedSteps (.olmSession "curve" "session/1")
      (pendingRequestRecordKey roundTripDevice ⟨"req/1"⟩) := by
  have hkept : ∀ s ∈ mixedSteps, s.Kept documentSerde := by
    simp [mixedSteps, StoreStep.Kept, StoreOp.Kept, documentSerde_keeps]
  refine (roundTrips_iff documentSerde_laws (by simp) lists_nil rfl hkept _ _).2
    ⟨by decide, by decide, ?_⟩
  rintro ⟨kind, texts, shape, hsegments, hshape, hlength, -⟩
  have heval : segmentsOf roundTripDevice (pendingRequestRecordKey roundTripDevice ⟨"req/1"⟩) =
      some ("pending", ["req%2F1".toList]) := by decide +kernel
  cases heval.symm.trans hsegments
  have hplain : layout "pending" = some [.plain] := by decide
  cases hplain.symm.trans hshape
  exact absurd hlength (by decide)

end Messenger
