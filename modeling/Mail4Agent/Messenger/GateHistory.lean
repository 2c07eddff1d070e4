import Mail4Agent.Foundation.Trace
import Mail4Agent.Messenger.Persist

/-!
# Histories of the flush gate

A history lists what happened to one gate since the process started: the changes
marked on it, the batches drained from it and the acknowledgements it was given.
`FlushGate.History events gate` says that `gate` is what these events lead to;
it records for each drained batch the one the gate really produced.

Everything the gate remembers is a function of its history. What is pending is
the last change of every key since the latest batch; batch numbers count the
drained batches; a batch is unacknowledged exactly when its number has not been
acknowledged since it was drained. The barrier and the record log are proved from
these four facts and never look at the gate's own fields.
-/

namespace Messenger

/-- A change marked on the gate. -/
abbrev Mark := RecordKey × PendingOp

inductive GateEvent where
  | marked (key : RecordKey) (op : PendingOp)
  | sealed (batch : FlushBatch)
  | acked (id : Nat)
deriving DecidableEq, Repr

/-- The changes listed in a history, oldest first. -/
def marks (events : List GateEvent) : List Mark :=
  events.filterMap fun
    | .marked key op => some (key, op)
    | _ => none

/-- The batches drained in a history, oldest first. -/
def seals (events : List GateEvent) : List FlushBatch :=
  events.filterMap fun
    | .sealed batch => some batch
    | _ => none

/-- One more event for the grouping of changes into batches. -/
def groupStep (groups : List (List Mark) × List Mark) : GateEvent → List (List Mark) × List Mark
  | .marked key op => (groups.1, groups.2 ++ [(key, op)])
  | .sealed _ => (groups.1 ++ [groups.2], [])
  | .acked _ => groups

/-- The changes of a history grouped by the batch that drained them, and those that
no batch has drained yet. -/
def groups (events : List GateEvent) : List (List Mark) × List Mark :=
  events.foldl groupStep ([], [])

/-- The changes drained by each batch. -/
def epochs (events : List GateEvent) : List (List Mark) := (groups events).1

/-- The changes made since the latest batch. -/
def openMarks (events : List GateEvent) : List Mark := (groups events).2

/-- The last change of a key in a list of changes. -/
def lastOp (key : RecordKey) (changes : List Mark) : Option PendingOp :=
  (changes.reverse.find? fun change => change.1 = key).map Prod.snd

/-- The pending set a list of changes leaves behind. -/
def lastOps (changes : List Mark) : BTreeMap RecordKey PendingOp :=
  changes.foldl (fun pending change => pending.insert change.1 change.2) ∅

/-- The record map after performing changes one after another. -/
def applyMarks (map : RecordMap) (changes : List Mark) : RecordMap :=
  changes.foldl (fun map change => change.2.applyTo map change.1) map

/-- The batch with number `id` has been drained and not acknowledged since. -/
def awaiting (id : Nat) : List GateEvent → Bool :=
  Trace.since
    (fun | .sealed batch => batch.id == id | _ => false)
    (fun | .acked other => other == id | _ => false)

/-- `gate` is the state that `events` lead to from a new gate. -/
inductive FlushGate.History : List GateEvent → FlushGate → Prop
  | new : History [] FlushGate.new
  | marked {events gate} (key : RecordKey) (op : PendingOp) (before : History events gate) :
      History (events ++ [.marked key op]) (gate.mark key op)
  | sealed {events gate} {batch : FlushBatch} {after : FlushGate} (before : History events gate)
      (taken : gate.takeBatch = (some batch, after)) :
      History (events ++ [.sealed batch]) after
  | acked {events gate} (id : Nat) (before : History events gate) :
      History (events ++ [.acked id]) (gate.ack id)

@[simp] theorem marks_append (a b : List GateEvent) : marks (a ++ b) = marks a ++ marks b :=
  List.filterMap_append

@[simp] theorem seals_append (a b : List GateEvent) : seals (a ++ b) = seals a ++ seals b :=
  List.filterMap_append

section

variable (events : List GateEvent)

include events

theorem groups_snoc (event : GateEvent) :
    groups (events ++ [event]) = groupStep (groups events) event := by
  simp [groups]

@[simp] theorem openMarks_marked (key : RecordKey) (op : PendingOp) :
    openMarks (events ++ [.marked key op]) = openMarks events ++ [(key, op)] := by
  simp [openMarks, groups_snoc, groupStep]

@[simp] theorem openMarks_sealed (batch : FlushBatch) :
    openMarks (events ++ [.sealed batch]) = [] := by
  simp [openMarks, groups_snoc, groupStep]

@[simp] theorem openMarks_acked (id : Nat) :
    openMarks (events ++ [.acked id]) = openMarks events := by
  simp [openMarks, groups_snoc, groupStep]

@[simp] theorem epochs_marked (key : RecordKey) (op : PendingOp) :
    epochs (events ++ [.marked key op]) = epochs events := by
  simp [epochs, groups_snoc, groupStep]

@[simp] theorem epochs_sealed (batch : FlushBatch) :
    epochs (events ++ [.sealed batch]) = epochs events ++ [openMarks events] := by
  simp [epochs, openMarks, groups_snoc, groupStep]

@[simp] theorem epochs_acked (id : Nat) :
    epochs (events ++ [.acked id]) = epochs events := by
  simp [epochs, groups_snoc, groupStep]

/-- Up to the next batch every change stays open. -/
theorem openMarks_append_of_no_seal {rest : List GateEvent} (h : ∀ batch, .sealed batch ∉ rest) :
    openMarks (events ++ rest) = openMarks events ++ marks rest := by
  induction rest using List.reverseRecOn with
  | nil => simp [marks]
  | append_singleton rest event ih =>
    have hrest := ih fun batch hb => h batch (List.mem_append_left _ hb)
    rw [← List.append_assoc, marks_append]
    cases event with
    | marked key op => rw [openMarks_marked, hrest, List.append_assoc]; rfl
    | sealed batch => exact absurd (by simp) (h batch)
    | acked id => rw [openMarks_acked, hrest]; simp [marks]

end

theorem lastOps_snoc (changes : List Mark) (change : Mark) :
    lastOps (changes ++ [change]) = (lastOps changes).insert change.1 change.2 := by
  simp [lastOps]

/-- What is pending for a key is its last change. -/
theorem getElem?_lastOps (changes : List Mark) (key : RecordKey) :
    (lastOps changes)[key]? = lastOp key changes := by
  induction changes using List.reverseRecOn with
  | nil => simp [lastOps, lastOp]
  | append_singleton changes change ih =>
    rw [lastOps_snoc, Std.ExtTreeMap.getElem?_insert, ih, lastOp, lastOp]
    by_cases h : change.1 = key <;> simp [h]

theorem lastOps_eq_empty_iff {changes : List Mark} : lastOps changes = ∅ ↔ changes = [] := by
  constructor
  · intro h
    by_contra hne
    obtain ⟨rest, change, rfl⟩ := (List.eq_nil_or_concat' changes).resolve_left hne
    have hlook := getElem?_lastOps (rest ++ [change]) change.1
    rw [h] at hlook
    simp [lastOp] at hlook
  · rintro rfl
    rfl

/-- Changes older than a change of the same key do not show. -/
theorem lastOp_append_cons (older newer : List Mark) (key : RecordKey) (op : PendingOp) :
    lastOp key (older ++ (key, op) :: newer) = lastOp key ((key, op) :: newer) := by
  simp only [lastOp, List.reverse_append, List.reverse_cons, List.find?_append]
  cases h : newer.reverse.find? (fun change => change.1 = key) <;> simp

theorem getElem?_applyMarks (map : RecordMap) (changes : List Mark) (key : RecordKey) :
    (applyMarks map changes)[key]? = PendingOp.outcome map[key]? (lastOp key changes) := by
  induction changes using List.reverseRecOn with
  | nil => rfl
  | append_singleton changes change ih =>
    obtain ⟨k, op⟩ := change
    have hsnoc : applyMarks map (changes ++ [(k, op)]) = op.applyTo (applyMarks map changes) k := by
      simp [applyMarks]
    rw [hsnoc, PendingOp.getElem?_applyTo, ih, lastOp, lastOp]
    by_cases h : k = key
    · cases op <;> simp [h, PendingOp.outcome]
    · simp [h]

theorem applyMarks_append (map : RecordMap) (a b : List Mark) :
    applyMarks map (a ++ b) = applyMarks (applyMarks map a) b :=
  List.foldl_append

/-- Applying a drained batch is performing the changes it was drained from. -/
theorem applyTo_drain_lastOps (map : RecordMap) (id : Nat) (changes : List Mark) :
    (FlushBatch.drain id (lastOps changes)).applyTo map = applyMarks map changes := by
  apply Std.ExtTreeMap.ext_getElem?
  intro key
  rw [FlushBatch.getElem?_applyTo_drain, getElem?_lastOps, getElem?_applyMarks]

namespace FlushGate.History

variable {events : List GateEvent} {gate : FlushGate}

theorem pending_eq (h : History events gate) : gate.pending = lastOps (openMarks events) := by
  induction h with
  | new => rfl
  | marked key op _ ih => rw [mark_pending, ih, openMarks_marked, lastOps_snoc]
  | @sealed events gate batch after _ taken ih =>
    rcases gate.takeBatch_cases with ⟨_, ht⟩ | ⟨_, ht⟩
    · simp [ht] at taken
    · obtain ⟨_, rfl⟩ := Prod.mk.inj (taken.symm.trans ht)
      rw [openMarks_sealed]
      rfl
  | acked id _ ih => rw [ack_pending, ih, openMarks_acked]

theorem nextBatchId_eq (h : History events gate) : gate.nextBatchId = (seals events).length := by
  induction h with
  | new => rfl
  | marked key op _ ih => simp [ih, seals]
  | @sealed events gate batch after _ taken ih =>
    rcases gate.takeBatch_cases with ⟨_, ht⟩ | ⟨_, ht⟩
    · simp [ht] at taken
    · obtain ⟨_, rfl⟩ := Prod.mk.inj (taken.symm.trans ht)
      simp [ih, seals]
  | acked id _ ih => simp [ih, seals]

/-- Every initial part of a history is a history. -/
theorem initial {rest : List GateEvent} (h : History (events ++ rest) gate) :
    ∃ earlier, History events earlier := by
  induction rest using List.reverseRecOn generalizing gate with
  | nil => exact ⟨gate, by simpa using h⟩
  | append_singleton rest event ih =>
    rw [← List.append_assoc] at h
    generalize hall : events ++ rest ++ [event] = all at h
    cases h with
    | new => simp at hall
    | marked key op before =>
      obtain ⟨rfl, -⟩ := List.append_inj' hall rfl
      exact ih before
    | sealed before taken =>
      obtain ⟨rfl, -⟩ := List.append_inj' hall rfl
      exact ih before
    | acked id before =>
      obtain ⟨rfl, -⟩ := List.append_inj' hall rfl
      exact ih before

/-- A batch holds the changes made since the batch before it, and there were some. -/
theorem sealed_eq {batch : FlushBatch} {rest : List GateEvent}
    (h : History (events ++ .sealed batch :: rest) gate) :
    batch = .drain (seals events).length (lastOps (openMarks events)) ∧ openMarks events ≠ [] := by
  rw [← List.singleton_append, ← List.append_assoc] at h
  obtain ⟨earlier, hist⟩ := h.initial
  generalize hall : events ++ [GateEvent.sealed batch] = all at hist
  cases hist with
  | new => simp at hall
  | marked key op before => simp at hall
  | acked id before => simp at hall
  | @sealed events' gate' batch' after before taken =>
    obtain ⟨rfl, hbatch⟩ := List.append_inj' hall rfl
    obtain rfl : batch = batch' := by simpa using hbatch
    rcases gate'.takeBatch_cases with ⟨_, ht⟩ | ⟨hne, ht⟩
    · simp [ht] at taken
    · obtain ⟨hb, -⟩ := Prod.mk.inj (taken.symm.trans ht)
      rw [before.pending_eq] at hb hne
      rw [before.nextBatchId_eq] at hb
      exact ⟨Option.some.inj hb, fun hnil => hne (lastOps_eq_empty_iff.2 hnil)⟩

/-- The gate keeps exactly the batches that wait for their acknowledgement. -/
theorem mem_unackedBatches_iff (h : History events gate) (id : Nat) :
    id ∈ gate.unackedBatches ↔ awaiting id events = true := by
  induction h with
  | new => simp [FlushGate.new, awaiting]
  | marked key op _ ih => simpa [awaiting] using ih
  | @sealed events gate batch after before taken ih =>
    rcases gate.takeBatch_cases with ⟨_, ht⟩ | ⟨_, ht⟩
    · simp [ht] at taken
    · obtain ⟨hb, rfl⟩ := Prod.mk.inj (taken.symm.trans ht)
      cases hb
      simp only [awaiting, Trace.since_snoc, Finset.mem_insert, FlushBatch.drain_id] at ih ⊢
      rw [ih]
      grind
  | acked other _ ih =>
    simp only [awaiting, Trace.since_snoc, ack_unackedBatches, Finset.mem_erase] at ih ⊢
    rw [ih]
    grind

/-- The batches of a history are the drained groups of changes, numbered in order. -/
theorem seals_eq (h : History events gate) :
    seals events = (epochs events).mapIdx fun id changes => .drain id (lastOps changes) := by
  induction h with
  | new => rfl
  | marked key op _ ih => simpa [seals] using ih
  | @sealed events gate batch after before taken ih =>
    have hlen : (seals events).length = (epochs events).length := by rw [ih]; simp
    obtain ⟨rfl, -⟩ := (before.sealed taken).sealed_eq
    rw [seals_append, epochs_sealed, List.mapIdx_append, ← ih, ← hlen]
    simp [seals]
  | acked id _ ih => simpa [seals] using ih

end FlushGate.History

end Messenger
