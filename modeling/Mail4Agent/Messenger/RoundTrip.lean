import Mail4Agent.Messenger.StoreItems

/-!
# Loading what was flushed

A directory mirrors a store if it holds, for every item of the store, the sealed
plaintext under the item's key, the records of unknown kind verbatim, and nothing
else. The changes an operation marks keep the mirror between the working set and
the directory as it will be once the pending changes are drained. Loading the
records of a mirror, in whatever order they are listed, gives the working set back
as soon as every room and user identifier in it passes its own parser; one that
does not makes the whole directory unreadable.
-/

namespace Messenger

/-- What the libraries behind the codec and the record formats promise: values are read
back as they were written. -/
structure RecordLaws (codec : RecordCodec) (serde : Serde) : Prop where
  open_seal : ∀ key plaintext,
    codec.openRecord key (codec.sealRecord key plaintext) = some plaintext
  read_order : ∀ order, serde.readOrder (serde.writeOrder order) = .ok order
  read_counters : ∀ counters, serde.readCounters (serde.writeCounters counters) = .ok counters

/-! ## Directories that mirror a working set -/

/-- The records of a directory. -/
def diskRecords (disk : RecordMap) : List SealedRecord :=
  disk.toList.map fun entry => ⟨entry.1, entry.2⟩

/-- The directory holds the items sealed under their keys, the unknown records, and no more. -/
structure Mirrors (device : DeviceId) (codec : RecordCodec)
    (plain : RecognizedRecord → Option Bytes) (foreign disk : RecordMap) : Prop where
  items : ∀ item : RecognizedRecord, disk[item.key device]? =
    (plain item).map (codec.sealRecord (item.key device))
  unknown : ∀ key, parseRecordKey device key = .ok none → disk[key]? = foreign[key]?
  only_unknown : ∀ key ∈ foreign, parseRecordKey device key = .ok none
  nothing_else : ∀ key ∈ disk, (∃ item : RecognizedRecord, key = item.key device) ∨
    parseRecordKey device key = .ok none

def Store.Mirrored (store : Store) (disk : RecordMap) : Prop :=
  Mirrors store.deviceId store.codec store.plain store.unknown disk

/-- A directory with the pending changes of a gate performed. -/
def drained (disk : RecordMap) (pending : BTreeMap RecordKey PendingOp) : RecordMap :=
  (FlushBatch.drain 0 pending).applyTo disk

theorem getElem?_drained (disk : RecordMap) (pending : BTreeMap RecordKey PendingOp)
    (key : RecordKey) : (drained disk pending)[key]? = PendingOp.outcome disk[key]? pending[key]? :=
  FlushBatch.getElem?_applyTo_drain ..

theorem drained_empty (disk : RecordMap) : drained disk ∅ = disk := by
  apply Std.ExtTreeMap.ext_getElem?
  intro key
  simp [getElem?_drained, PendingOp.outcome]

/-- One more pending change is performed last. -/
theorem drained_insert (disk : RecordMap) (pending : BTreeMap RecordKey PendingOp)
    (key : RecordKey) (op : PendingOp) :
    drained disk (pending.insert key op) = op.applyTo (drained disk pending) key := by
  apply Std.ExtTreeMap.ext_getElem?
  intro other
  rw [getElem?_drained, getElem?_insert_ite, PendingOp.getElem?_applyTo, getElem?_drained]
  by_cases h : other = key
  · subst h
    cases op <;> simp [PendingOp.outcome]
  · rw [if_neg h, if_neg (Ne.symm h)]

namespace Mirrors

variable {device : DeviceId} {codec : RecordCodec} {plain : RecognizedRecord → Option Bytes}
  {foreign disk : RecordMap}

/-- A change of an item, made on both sides. -/
theorem change (mirrors : Mirrors device codec plain foreign disk) (item : RecognizedRecord)
    (plaintext : Option Bytes) {op : PendingOp}
    (hop : PendingOp.outcome none (some op) =
      plaintext.map (codec.sealRecord (item.key device))) :
    Mirrors device codec (Function.update plain item plaintext) foreign
      (op.applyTo disk (item.key device)) where
  items other := by
    rw [PendingOp.getElem?_applyTo, Function.update_apply]
    by_cases h : other = item
    · rw [if_pos (h ▸ rfl), if_pos h, hop, h]
    · rw [if_neg fun hkey => h (RecognizedRecord.key_injective device hkey).symm, if_neg h,
        mirrors.items]
  unknown key hkey := by
    rw [PendingOp.getElem?_applyTo, if_neg, mirrors.unknown key hkey]
    rintro rfl
    exact parseRecordKey_key_ne device item hkey
  only_unknown := mirrors.only_unknown
  nothing_else key hmem := by
    by_cases h : item.key device = key
    · exact .inl ⟨item, h.symm⟩
    · refine mirrors.nothing_else key ?_
      rw [Std.ExtTreeMap.mem_iff_isSome_getElem?] at hmem ⊢
      rwa [PendingOp.getElem?_applyTo, if_neg h] at hmem

end Mirrors

/-- Marking the changes of items keeps the mirror of the drained directory. -/
theorem Mirrors.marks {store : Store} {plain : RecognizedRecord → Option Bytes}
    {foreign disk : RecordMap} {gate : FlushGate}
    (mirrors : Mirrors store.deviceId store.codec plain foreign (drained disk gate.pending))
    (changes : List ItemChange) :
    Mirrors store.deviceId store.codec (applyItems plain changes) foreign
      (drained disk ((changes.map store.markOf).foldl (fun gate mark => gate.mark mark.1 mark.2)
        gate).pending) := by
  induction changes generalizing plain gate with
  | nil => exact mirrors
  | cons change changes ih =>
    have hmarked : ∀ mark : Mark, drained disk (gate.mark mark.1 mark.2).pending =
        mark.2.applyTo (drained disk gate.pending) mark.1 := fun mark => drained_insert ..
    refine ih ?_
    rw [hmarked]
    refine mirrors.change change.1 change.2 ?_
    cases hplain : change.2 <;> simp [Store.markOf, PendingOp.outcome, hplain]

/-- An operation keeps the mirror. -/
theorem StoreOp.run_mirrored {store : Store} {disk : RecordMap}
    (mirrored : store.Mirrored (drained disk store.gate.pending)) (op : StoreOp) :
    (op.run store).Mirrored (drained disk (op.run store).gate.pending) := by
  obtain ⟨hdevice, hcodec, -, hunknown⟩ := op.run_frame store
  rw [Store.Mirrored, hdevice, hcodec, hunknown, op.run_plain store, op.run_gate store]
  exact Mirrors.marks mirrored _

/-! ## Loading a mirror -/

/-- Loading a known record writes its item. -/
theorem Store.applyRecognized_of_plain {target found : Store}
    (laws : RecordLaws target.codec target.serde) (targetTidy : target.Tidy)
    (serde_eq : found.serde = target.serde) {item : RecognizedRecord} {plaintext : Bytes}
    (h : target.plain item = some plaintext)
    (key : RecordKey) :
    ∃ after, found.applyRecognized item plaintext key = .ok after ∧
      after.plain = Function.update found.plain item (some plaintext) ∧
      after.unknown = found.unknown ∧ (found.Tidy → after.Tidy) := by
  cases item with
  | olmSessionOrder theirCurve25519 =>
    obtain ⟨order, -, rfl⟩ := Option.map_eq_some_iff.1 h
    refine ⟨{ found with
      olmSessionOrder := found.olmSessionOrder.insert theirCurve25519 order }, ?_, ?_, rfl,
      (·.of_eq rfl rfl rfl rfl rfl)⟩
    · simp [applyRecognized, serde_eq, laws.read_order]
    · funext other
      cases other <;> simp [plain, Function.update, getElem?_insert_ite, serde_eq,
        apply_ite (Option.map _)]
  | trackedUser userId =>
    obtain ⟨outdated, -, rfl⟩ := Option.map_eq_some_iff.1 h
    refine ⟨{ found with trackedUsers := found.trackedUsers.insert userId outdated }, ?_, ?_, rfl,
      (·.of_eq rfl rfl rfl rfl rfl)⟩
    · cases outdated <;> rfl
    · funext other
      cases other <;> simp [plain, Function.update, getElem?_insert_ite, apply_ite (Option.map _)]
  | syncToken =>
    obtain ⟨token, -, rfl⟩ := Option.map_eq_some_iff.1 h
    refine ⟨{ found with syncToken := some token }, ?_, ?_, rfl,
      (·.of_eq rfl rfl rfl rfl rfl)⟩
    · have hread : String.fromUTF8? ⟨token.toUTF8.data.toList.toArray⟩ = some token :=
        fromUtf8_utf8 token
      simp only [applyRecognized, hread]
    · funext other
      cases other <;> simp [plain, Function.update]
  | pendingRequest requestId =>
    obtain ⟨req, hreq, rfl⟩ := Option.map_eq_some_iff.1 h
    have hkeeps : target.serde.Keeps req := targetTidy.pendingRequests requestId req hreq
    refine ⟨{ found with pendingRequests := found.pendingRequests.insert requestId req }, ?_, ?_,
      rfl, fun tidy => { tidy with pendingRequests := fun id other hother => ?_ }⟩
    · simp [applyRecognized, serde_eq, show target.serde.readPending _ = _ from hkeeps]
    · funext other
      cases other <;> simp [plain, Function.update, getElem?_insert_ite, serde_eq,
        apply_ite (Option.map _)]
    · rw [getElem?_insert_ite] at hother
      split_ifs at hother
      · rw [show found.serde = target.serde from serde_eq, ← Option.some.inj hother]
        exact hkeeps
      · exact tidy.pendingRequests id other hother
  | counters =>
    obtain ⟨counters, -, rfl⟩ := Option.map_eq_some_iff.1 h
    refine ⟨{ found with counters := some counters }, ?_, ?_, rfl,
      (·.of_eq rfl rfl rfl rfl rfl)⟩
    · simp [applyRecognized, serde_eq, laws.read_counters]
    · funext other
      cases other <;> simp [plain, Function.update, serde_eq]
  | olmSession theirCurve25519 sessionId =>
    refine ⟨_, rfl, ?_, rfl, fun tidy => ⟨tidy.olmSessions.insertNested _ _ _,
      tidy.inboundGroupSessions, tidy.withheld, tidy.pendingRequests⟩⟩
    funext other
    cases other <;> simp [plain, Function.update, lookupNested_insertNested]
  | inboundGroupSession roomId sessionId =>
    refine ⟨_, rfl, ?_, rfl, fun tidy => ⟨tidy.olmSessions,
      tidy.inboundGroupSessions.insertNested _ _ _, tidy.withheld, tidy.pendingRequests⟩⟩
    funext other
    cases other <;> simp [plain, Function.update, lookupNested_insertNested]
  | withheld roomId sessionId =>
    refine ⟨_, rfl, ?_, rfl, fun tidy => ⟨tidy.olmSessions, tidy.inboundGroupSessions,
      tidy.withheld.insertNested _ _ _, tidy.pendingRequests⟩⟩
    funext other
    cases other <;> simp [plain, Function.update, lookupNested_insertNested]
  | _ =>
    refine ⟨_, rfl, ?_, rfl, (·.of_eq rfl rfl rfl rfl rfl)⟩
    funext other
    cases other <;> simp [plain, Function.update, getElem?_insert_ite]

/-- What loading has collected of `target` after the records with these keys. -/
structure Gathered (target : Store) (keys : List RecordKey) (found : Store) : Prop where
  params : found.deviceId = target.deviceId ∧ found.codec = target.codec ∧
    found.serde = target.serde
  items : ∀ item : RecognizedRecord,
    found.plain item = if item.key target.deviceId ∈ keys then target.plain item else none
  unknown : ∀ key : RecordKey,
    found.unknown[key]? = if key ∈ keys then target.unknown[key]? else none
  tidy : found.Tidy
  /-- Exactly the unknown records wait to be written again. -/
  gate : ∀ key : RecordKey, found.gate.pending[key]? = found.unknown[key]?.map PendingOp.write

namespace Gathered

variable {target found : Store} {keys : List RecordKey} {disk : RecordMap}

theorem new (target : Store) :
    Gathered target [] (Store.new target.deviceId target.codec target.serde) where
  params := ⟨rfl, rfl, rfl⟩
  items item := by cases item <;> simp [Store.plain, Store.new, lookupNested]
  unknown := by simp [Store.new]
  tidy := ⟨noneEmpty_empty, noneEmpty_empty, noneEmpty_empty, by simp [Store.new]⟩
  gate := by simp [Store.new, FlushGate.new]

/-- One more record of the mirror. -/
theorem loadRecord (gathered : Gathered target keys found)
    (laws : RecordLaws target.codec target.serde) (tidy : target.Tidy)
    (mirrored : target.Mirrored disk) {record : SealedRecord}
    (listed : disk[record.key]? = some record.bytes)
    (parses : ∀ item : RecognizedRecord, target.plain item ≠ none → item.parses = true) :
    ∃ after, found.loadRecord record = .ok after ∧
      Gathered target (keys ++ [record.key]) after := by
  obtain ⟨hdevice, hcodec, hserde⟩ := gathered.params
  rcases mirrored.nothing_else record.key (mem_of_getElem? listed) with ⟨item, hkey⟩ | hunknown
  · have hrecord := mirrored.items item
    rw [← hkey, listed, eq_comm, Option.map_eq_some_iff] at hrecord
    obtain ⟨plaintext, hplain, hbytes⟩ := hrecord
    obtain ⟨after, hafter, hitems, hunknown, htidy⟩ :=
      Store.applyRecognized_of_plain laws tidy hserde hplain record.key
    obtain ⟨hgate, hdevice', hcodec', hserde'⟩ := Store.applyRecognized_frame hafter
    refine ⟨after, ?_, ?_⟩
    · have hparse : parseRecordKey found.deviceId record.key = .ok (some item) := by
        rw [hdevice, hkey, parseRecordKey_key, if_pos (parses item (by simp [hplain]))]
      have hopen : found.codec.openRecord record.key record.bytes = some plaintext := by
        rw [hcodec, ← hbytes, laws.open_seal]
      simp [Store.loadRecord, hparse, hopen, hafter, bind, Except.bind]
    · refine ⟨⟨hdevice'.trans hdevice, hcodec'.trans hcodec, hserde'.trans hserde⟩, fun other => ?_,
        fun key => ?_, htidy gathered.tidy, fun key => by rw [hgate, hunknown, gathered.gate]⟩
      · rw [hitems, Function.update_apply, gathered.items]
        by_cases h : other = item
        · simp [h, hplain, hkey]
        · have hne : other.key target.deviceId ≠ record.key := fun heq =>
            h (RecognizedRecord.key_injective _ (heq.trans hkey))
          simp [h, hne]
      · rw [hunknown, gathered.unknown]
        by_cases h : key = record.key
        · have hnone : target.unknown[key]? = none := by
            rw [← Option.not_isSome_iff_eq_none, ← Std.ExtTreeMap.mem_iff_isSome_getElem?]
            intro hin
            exact parseRecordKey_key_ne _ item (hkey ▸ h ▸ mirrored.only_unknown key hin)
          simp [hnone]
        · simp [h]
  · have hbytes : target.unknown[record.key]? = some record.bytes := by
      rw [← mirrored.unknown record.key hunknown, listed]
    have hparse : parseRecordKey found.deviceId record.key = .ok none := by rw [hdevice, hunknown]
    refine ⟨{ found with
      gate := found.gate.markDirty record.key record.bytes
      unknown := found.unknown.insert record.key record.bytes },
      by simp [Store.loadRecord, hparse, bind, Except.bind], ?_⟩
    refine ⟨gathered.params, fun item => ?_, fun key => ?_, ?_, fun key => ?_⟩
    · have hne : item.key target.deviceId ≠ record.key := fun heq =>
        parseRecordKey_key_ne _ item (heq ▸ hunknown)
      have hitem := gathered.items item
      cases item <;> simpa [Store.plain, hne] using hitem
    · dsimp only
      rw [getElem?_insert_ite, gathered.unknown]
      by_cases h : key = record.key
      · simp [h, hbytes]
      · simp [h]
    · exact gathered.tidy.of_eq rfl rfl rfl rfl rfl
    · dsimp only [FlushGate.markDirty]
      rw [FlushGate.mark_pending, getElem?_insert_ite, getElem?_insert_ite, gathered.gate]
      split <;> rfl

theorem foldlM (laws : RecordLaws target.codec target.serde) (tidy : target.Tidy)
    (mirrored : target.Mirrored disk)
    (parses : ∀ item : RecognizedRecord, target.plain item ≠ none → item.parses = true) :
    ∀ (records : List SealedRecord) {keys : List RecordKey} {found : Store},
      Gathered target keys found → (∀ record ∈ records, disk[record.key]? = some record.bytes) →
      ∃ loaded, records.foldlM Store.loadRecord found = .ok loaded ∧
        Gathered target (keys ++ records.map SealedRecord.key) loaded
  | [], keys, found, gathered, _ => ⟨found, rfl, by simpa using gathered⟩
  | record :: records, keys, found, gathered, listed => by
    obtain ⟨after, hafter, hgathered⟩ :=
      gathered.loadRecord laws tidy mirrored (listed record (List.mem_cons_self ..)) parses
    obtain ⟨loaded, hloaded, hall⟩ := Gathered.foldlM laws tidy mirrored parses records hgathered
      fun other hother => listed other (List.mem_cons_of_mem _ hother)
    refine ⟨loaded, ?_, by simpa using hall⟩
    rw [List.foldlM_cons, hafter]
    exact hloaded

end Gathered

/-- Two tidy stores with the same items and unknown records have the same working set. -/
theorem Store.sameWorkingSet_of_plain {a b : Store} (laws : RecordLaws b.codec b.serde)
    (params : a.deviceId = b.deviceId ∧ a.codec = b.codec ∧ a.serde = b.serde)
    (hplain : a.plain = b.plain) (hunknown : a.unknown = b.unknown) (ha : a.Tidy) (hb : b.Tidy) :
    a.SameWorkingSet b := by
  obtain ⟨hdevice, hcodec, hserde⟩ := params
  have hitem := fun item => congrFun hplain item
  have horder : a.olmSessionOrder = b.olmSessionOrder := by
    refine Std.ExtTreeMap.ext_getElem? fun theirCurve25519 => ?_
    have h := hitem (.olmSessionOrder theirCurve25519)
    simp only [plain, hserde] at h
    refine Option.map_injective (fun x y hxy => ?_) h
    exact Except.ok.inj ((laws.read_order x).symm.trans (hxy ▸ laws.read_order y))
  have htracked : a.trackedUsers = b.trackedUsers := by
    refine Std.ExtTreeMap.ext_getElem? fun userId => ?_
    refine Option.map_injective (fun x y hxy => ?_) (hitem (.trackedUser userId))
    revert hxy
    cases x <;> cases y <;> simp
  have htoken : a.syncToken = b.syncToken := by
    refine Option.map_injective (fun x y hxy => ?_) (hitem .syncToken)
    exact Option.some.inj ((fromUtf8_utf8 x).symm.trans ((congrArg fromUtf8 hxy).trans
      (fromUtf8_utf8 y)))
  have hpending : a.pendingRequests = b.pendingRequests := by
    refine Std.ExtTreeMap.ext_getElem? fun requestId => ?_
    have h := hitem (.pendingRequest requestId)
    simp only [plain, hserde] at h
    have hkept := ha.pendingRequests requestId
    have hkept' := hb.pendingRequests requestId
    rw [hserde] at hkept
    cases hx : a.pendingRequests[requestId]? <;> cases hy : b.pendingRequests[requestId]? <;>
      simp only [hx, hy, Option.map_some, Option.map_none, reduceCtorEq, Option.some.injEq] at h ⊢
    have hread : b.serde.readPending _ = _ := hkept _ hx
    rw [h] at hread
    exact Except.ok.inj (hread.symm.trans (hkept' _ hy))
  have hcounters : a.counters = b.counters := by
    have h := hitem .counters
    simp only [plain, hserde] at h
    refine Option.map_injective (fun x y hxy => ?_) h
    exact Except.ok.inj ((laws.read_counters x).symm.trans (hxy ▸ laws.read_counters y))
  have holm := ha.olmSessions.ext hb.olmSessions fun o i => hitem (.olmSession o i)
  have hinbound := ha.inboundGroupSessions.ext hb.inboundGroupSessions
    fun o i => hitem (.inboundGroupSession o i)
  have hwithheld := ha.withheld.ext hb.withheld fun o i => hitem (.withheld o i)
  have houtbound := Std.ExtTreeMap.ext_getElem? fun roomId => hitem (.outboundGroupSession roomId)
  have hdevices := Std.ExtTreeMap.ext_getElem? fun userId => hitem (.devices userId)
  have hrooms := Std.ExtTreeMap.ext_getElem? fun roomId => hitem (.roomState roomId)
  have haccount := hitem .account
  have hbackup := hitem .backupKey
  have hsigning := hitem .crossSigningKeys
  cases a
  cases b
  simp only [SameWorkingSet, Store.mk.injEq, plain] at *
  simp_all

/-- The records are those of the directory, in some order. -/
def Lists (records : List SealedRecord) (disk : RecordMap) : Prop :=
  ∀ record : SealedRecord, record ∈ records ↔ disk[record.key]? = some record.bytes

theorem lists_diskRecords (disk : RecordMap) : Lists (diskRecords disk) disk := by
  rintro ⟨key, bytes⟩
  rw [diskRecords, List.mem_map]
  constructor
  · rintro ⟨entry, hentry, heq⟩
    cases heq
    exact Std.ExtTreeMap.mem_toList_iff_getElem?_eq_some.1 hentry
  · intro h
    exact ⟨(key, bytes), Std.ExtTreeMap.mem_toList_iff_getElem?_eq_some.2 h, rfl⟩

namespace Store

variable {store loaded : Store} {disk : RecordMap} {records : List SealedRecord}

/-- What a store that was just loaded from a directory has to do with it. -/
structure LoadedFrom (loaded store : Store) (disk : RecordMap) : Prop where
  same : loaded.SameWorkingSet store
  tidy : loaded.Tidy
  mirrored : loaded.Mirrored disk
  gate : ∀ key : RecordKey, loaded.gate.pending[key]? = loaded.unknown[key]?.map PendingOp.write

/-- Loading a mirror of a store gives the store back. -/
theorem load_of_mirrored (laws : RecordLaws store.codec store.serde) (tidy : store.Tidy)
    (mirrored : store.Mirrored disk) (lists : Lists records disk)
    (parses : ∀ item : RecognizedRecord, store.plain item ≠ none → item.parses = true) :
    ∃ loaded, Store.load records store.codec store.serde store.deviceId = .ok loaded ∧
      loaded.LoadedFrom store disk := by
  obtain ⟨loaded, hload, gathered⟩ := Gathered.foldlM laws tidy mirrored parses records
    (Gathered.new store) fun record hrecord => (lists record).1 hrecord
  have hkeys : ∀ key, key ∈ disk ↔ key ∈ records.map SealedRecord.key := by
    intro key
    rw [Std.ExtTreeMap.mem_iff_isSome_getElem?, Option.isSome_iff_exists, List.mem_map]
    constructor
    · rintro ⟨bytes, hbytes⟩
      exact ⟨⟨key, bytes⟩, (lists ⟨key, bytes⟩).2 hbytes, rfl⟩
    · rintro ⟨record, hrecord, rfl⟩
      exact ⟨record.bytes, (lists record).1 hrecord⟩
  have hplain : loaded.plain = store.plain := by
    funext item
    rw [gathered.items, List.nil_append]
    split
    · rfl
    · next hnot =>
      rw [← hkeys, Std.ExtTreeMap.mem_iff_isSome_getElem?, mirrored.items, Option.isSome_map,
        Option.not_isSome_iff_eq_none] at hnot
      exact hnot.symm
  have hunknown : loaded.unknown = store.unknown := by
    refine Std.ExtTreeMap.ext_getElem? fun key => ?_
    rw [gathered.unknown, List.nil_append]
    split
    · rfl
    · next hnot =>
      by_contra hne
      have hmem : key ∈ store.unknown := by
        rw [Std.ExtTreeMap.mem_iff_isSome_getElem?, Option.isSome_iff_ne_none]
        exact fun h => hne h.symm
      refine hnot ((hkeys key).1 ?_)
      rw [Std.ExtTreeMap.mem_iff_isSome_getElem?] at hmem ⊢
      rwa [mirrored.unknown key (mirrored.only_unknown key
        (Std.ExtTreeMap.mem_iff_isSome_getElem?.2 hmem))]
  obtain ⟨hdevice, hcodec, hserde⟩ := gathered.params
  refine ⟨loaded, hload, sameWorkingSet_of_plain laws gathered.params hplain hunknown gathered.tidy
    tidy, gathered.tidy, ?_, gathered.gate⟩
  rw [Mirrored, hdevice, hcodec, hplain, hunknown]
  exact mirrored

/-- What is marked for the next batch stands in the directory already. -/
theorem LoadedFrom.drained_eq (from_disk : loaded.LoadedFrom store disk) :
    drained disk loaded.gate.pending = disk := by
  refine Std.ExtTreeMap.ext_getElem? fun key => ?_
  rw [getElem?_drained, from_disk.gate]
  cases hbytes : loaded.unknown[key]? with
  | none => rfl
  | some bytes =>
    have hunknown := from_disk.mirrored.only_unknown key (mem_of_getElem? hbytes)
    rw [from_disk.mirrored.unknown key hunknown, hbytes]
    rfl

/-- A directory that loads has no refused key. -/
theorem parse_ne_error_of_load {codec : RecordCodec} {serde : Serde} {device : DeviceId}
    (h : Store.load records codec serde device = .ok loaded) {record : SealedRecord}
    (hrecord : record ∈ records) (e : StoreError) :
      parseRecordKey device record.key ≠ .error e := by
  have hfold : ∀ (records : List SealedRecord) {found : Store}, found.deviceId = device →
      records.foldlM loadRecord found = .ok loaded → record ∈ records →
      parseRecordKey device record.key ≠ .error e := by
    intro records
    induction records with
    | nil => intro _ _ _ hmem; cases hmem
    | cons first records ih =>
      intro found hdevice hload hmem hrefused
      rw [List.foldlM_cons] at hload
      cases hfirst : found.loadRecord first with
      | error e => rw [hfirst] at hload; cases hload
      | ok after =>
        rw [hfirst] at hload
        rcases List.mem_cons.1 hmem with rfl | hmem
        · rw [loadRecord, hdevice, hrefused] at hfirst
          cases hfirst
        · refine ih ?_ hload hmem hrefused
          rcases loadRecord_cases hfirst with ⟨_, _, _, _, happly⟩ | ⟨_, rfl⟩
          · exact (applyRecognized_frame happly).2.1.trans hdevice
          · exact hdevice
  exact hfold records rfl h hrecord

/-- A mirror that loads has only identifiers that pass their parsers. -/
theorem parses_of_load (mirrored : store.Mirrored disk) (lists : Lists records disk)
    (h : Store.load records store.codec store.serde store.deviceId = .ok loaded)
    (item : RecognizedRecord) (hplain : store.plain item ≠ none) : item.parses = true := by
  obtain ⟨plaintext, hplain⟩ := Option.ne_none_iff_exists'.1 hplain
  have hrecord := mirrored.items item
  rw [hplain, Option.map_some] at hrecord
  by_contra hparses
  have hparse := parseRecordKey_key store.deviceId item
  rw [if_neg hparses] at hparse
  exact parse_ne_error_of_load h ((lists ⟨_, _⟩).2 hrecord) _ hparse

end Store

end Messenger
