import Mail4Agent.Foundation.ByteCodec
import Mail4Agent.Foundation.FrameLog
import Mail4Agent.Messenger.GateHistory

/-!
# The record log

A batch is written as one frame: the length of its payload in four bytes, the
digest of the payload in thirty-two, and the payload. Replaying a log reads
frames from its start, performs the writes and then the deletions of each, and
stops at the first frame that is cut short, whose digest does not match, or whose
payload has another shape. It returns the record map and the number of bytes read.

The digest is a parameter; all that is used of it is that its length is fixed.
Lengths are written as `u32`: a payload of `2 ^ 32` bytes or more would be written
with a wrong length, so the results ask for shorter payloads.
-/

namespace Messenger

def hashLen : Nat := 32

/-- A digest of fixed length. -/
structure Digest where
  hash : Bytes → Bytes
  length_hash : ∀ payload, (hash payload).length = hashLen

/-! ## Writing -/

def writeU32 (value : Nat) : Bytes := Bytes.ofNatLE 4 value

def writeU64 (value : Nat) : Bytes := Bytes.ofNatLE 8 value

def writeBytes (bytes : Bytes) : Bytes := writeU32 bytes.length ++ bytes

/-- `str::as_bytes`. -/
def utf8 (s : String) : Bytes := s.toUTF8.data.toList

def encodeRecord (record : String × Bytes) : Bytes :=
  writeBytes (utf8 record.1) ++ writeBytes record.2

def encodeDelete (key : String) : Bytes := writeBytes (utf8 key)

def encodePayload (batchId : Nat) (records : List (String × Bytes)) (deletes : List String) :
    Bytes :=
  writeU64 batchId ++ (writeU32 records.length ++ ((records.map encodeRecord).flatten ++
    (writeU32 deletes.length ++ (deletes.map encodeDelete).flatten)))

def frameFromPayload (digest : Digest) (payload : Bytes) : Bytes :=
  writeU32 payload.length ++ (digest.hash payload ++ payload)

/-- The payload of a batch's frame. -/
def FlushBatch.payload (batch : FlushBatch) : Bytes :=
  encodePayload batch.id (batch.records.map fun record => (record.key.value, record.bytes))
    (batch.deletes.map RecordKey.value)

def encodeBatch (digest : Digest) (batch : FlushBatch) : Bytes :=
  frameFromPayload digest batch.payload

/-- The payload of a snapshot's frame: every live record, nothing deleted. -/
def snapshotPayload (records : RecordMap) : Bytes :=
  encodePayload 0 (records.toList.map fun entry => (entry.1.value, entry.2)) []

def encodeSnapshot (digest : Digest) (records : RecordMap) : Bytes :=
  frameFromPayload digest (snapshotPayload records)

/-! ## Reading -/

-- Cursor sums that would overflow a `usize` lie behind the end of any byte slice, where the
-- bounds check refuses them as well.

def readU32 (bytes : Bytes) (pos : Nat) : Option (Nat × Nat) :=
  (Bytes.slice bytes pos (pos + 4)).map fun field => (Bytes.toNatLE field, pos + 4)

def readU64 (bytes : Bytes) (pos : Nat) : Option (Nat × Nat) :=
  (Bytes.slice bytes pos (pos + 8)).map fun field => (Bytes.toNatLE field, pos + 8)

def readBytes (bytes : Bytes) (pos : Nat) : Option (Bytes × Nat) := do
  let (len, pos) ← readU32 bytes pos
  let field ← Bytes.slice bytes pos (pos + len)
  return (field, pos + len)

/-- `String::from_utf8`. -/
def fromUtf8 (bytes : Bytes) : Option String := String.fromUTF8? ⟨bytes.toArray⟩

/-- Read `count` records. -/
def readRecords (payload : Bytes) : Nat → Nat → Option (List (String × Bytes) × Nat)
  | 0, pos => some ([], pos)
  | count + 1, pos => do
    let (key, pos) ← readBytes payload pos
    let key ← fromUtf8 key
    let (value, pos) ← readBytes payload pos
    let (rest, pos) ← readRecords payload count pos
    return ((key, value) :: rest, pos)

/-- Read `count` deletions. -/
def readDeletes (payload : Bytes) : Nat → Nat → Option (List String × Nat)
  | 0, pos => some ([], pos)
  | count + 1, pos => do
    let (key, pos) ← readBytes payload pos
    let key ← fromUtf8 key
    let (rest, pos) ← readDeletes payload count pos
    return (key :: rest, pos)

abbrev DecodedFrame := List (String × Bytes) × List String

def decodePayload (payload : Bytes) : Option DecodedFrame := do
  let (_batchId, pos) ← readU64 payload 0
  let (recordCount, pos) ← readU32 payload pos
  let (records, pos) ← readRecords payload recordCount pos
  let (deleteCount, pos) ← readU32 payload pos
  let (deletes, pos) ← readDeletes payload deleteCount pos
  if pos ≠ payload.length then none else return (records, deletes)

/-- The body of the replay loop up to the point where a frame is accepted. -/
def nextFrame (digest : Digest) (bytes : Bytes) (pos : Nat) : Option (DecodedFrame × Nat) := do
  let (payloadLen, headerEnd) ← readU32 bytes pos
  let hashEnd := headerEnd + hashLen
  let payloadEnd := hashEnd + payloadLen
  let storedHash ← Bytes.slice bytes headerEnd hashEnd
  let payload ← Bytes.slice bytes hashEnd payloadEnd
  if digest.hash payload ≠ storedHash then none
  else
    let frame ← decodePayload payload
    return (frame, payloadEnd)

/-- Writes first, then deletions. -/
def DecodedFrame.applyTo (map : RecordMap) (frame : DecodedFrame) : RecordMap :=
  frame.2.foldl (fun map key => map.erase ⟨key⟩)
    (frame.1.foldl (fun map record => map.insert ⟨record.1⟩ record.2) map)

theorem readU32_eq_some {bytes : Bytes} {pos value stop : Nat}
    (h : readU32 bytes pos = some (value, stop)) : stop = pos + 4 := by
  obtain ⟨field, -, heq⟩ := Option.map_eq_some_iff.1 h
  exact (congrArg Prod.snd heq).symm

theorem nextFrame_advances {digest : Digest} {bytes : Bytes} {pos stop : Nat}
    {frame : DecodedFrame} (h : nextFrame digest bytes pos = some (frame, stop)) :
    pos < stop ∧ stop ≤ bytes.length := by
  simp only [nextFrame, bind, Option.bind_eq_some_iff] at h
  obtain ⟨⟨payloadLen, headerEnd⟩, hheader, storedHash, -, payload, hpayload, h⟩ := h
  split at h
  · cases h
  · obtain ⟨decoded, -, h⟩ := Option.bind_eq_some_iff.1 h
    cases h
    have := readU32_eq_some hheader
    have := (Bytes.slice_bounds hpayload).2
    dsimp only at this ⊢
    omega

/-- The reader of the replay loop. -/
def logReader (digest : Digest) : FrameLog.Reader UInt8 DecodedFrame where
  next := nextFrame digest
  advances := nextFrame_advances

def replay (digest : Digest) (bytes : Bytes) : RecordMap × Nat :=
  (logReader digest).fold DecodedFrame.applyTo bytes ∅ 0

/-! ## What is written is read -/

@[simp] theorem length_writeU32 (value : Nat) : (writeU32 value).length = 4 :=
  Bytes.length_ofNatLE 4 value

@[simp] theorem length_writeU64 (value : Nat) : (writeU64 value).length = 8 :=
  Bytes.length_ofNatLE 8 value

@[simp] theorem length_writeBytes (bytes : Bytes) :
    (writeBytes bytes).length = 4 + bytes.length := by
  simp [writeBytes]

theorem fromUtf8_utf8 (s : String) : fromUtf8 (utf8 s) = some s := by
  have : (⟨(utf8 s).toArray⟩ : ByteArray) = s.toUTF8 := by simp [utf8]
  rw [fromUtf8, this]
  exact Text.fromUTF8_toUTF8 s

section Fields

variable (front rest : Bytes)

theorem readU32_append (value : Nat) (h : value < 2 ^ 32) :
    readU32 (front ++ (writeU32 value ++ rest)) front.length = some (value, front.length + 4) := by
  have hslice := Bytes.slice_append front (writeU32 value) rest
  rw [length_writeU32] at hslice
  rw [readU32, hslice, Option.map_some, writeU32, Bytes.toNatLE_ofNatLE]
  rw [Nat.mod_eq_of_lt (by simpa using h)]

theorem readU64_append (value : Nat) :
    readU64 (front ++ (writeU64 value ++ rest)) front.length =
      some (value % 256 ^ 8, front.length + 8) := by
  have hslice := Bytes.slice_append front (writeU64 value) rest
  rw [length_writeU64] at hslice
  rw [readU64, hslice, Option.map_some, writeU64, Bytes.toNatLE_ofNatLE]

theorem readBytes_append (bytes : Bytes) (h : bytes.length < 2 ^ 32) :
    readBytes (front ++ (writeBytes bytes ++ rest)) front.length =
      some (bytes, front.length + (writeBytes bytes).length) := by
  have hlen := readU32_append front (bytes ++ rest) bytes.length h
  have hslice := Bytes.slice_append (front ++ writeU32 bytes.length) bytes rest
  simp only [List.length_append, length_writeU32, List.append_assoc] at hslice
  simp only [readBytes, writeBytes, List.append_assoc, hlen, Option.bind_eq_bind,
    Option.bind_some, hslice, List.length_append, length_writeU32]
  rw [Nat.add_assoc]
  rfl

end Fields

theorem readRecords_append (records : List (String × Bytes)) (front rest : Bytes)
    (h : (records.map encodeRecord).flatten.length < 2 ^ 32) :
    readRecords (front ++ ((records.map encodeRecord).flatten ++ rest)) records.length
        front.length =
      some (records, front.length + (records.map encodeRecord).flatten.length) := by
  induction records generalizing front with
  | nil => simp [readRecords]
  | cons record records ih =>
    obtain ⟨key, value⟩ := record
    have hlen : (((key, value) :: records).map encodeRecord).flatten.length =
        (writeBytes (utf8 key)).length + ((writeBytes value).length +
          (records.map encodeRecord).flatten.length) := by
      simp [encodeRecord, Nat.add_assoc]
    rw [hlen] at h
    have hkey := readBytes_append front (writeBytes value ++
      ((records.map encodeRecord).flatten ++ rest)) (utf8 key) (by simp at h; omega)
    have hvalue := readBytes_append (front ++ writeBytes (utf8 key))
      ((records.map encodeRecord).flatten ++ rest) value (by simp at h; omega)
    have hrest := ih (front ++ (writeBytes (utf8 key) ++ writeBytes value)) (by omega)
    simp only [List.length_append, List.append_assoc] at hvalue hrest
    simp only [List.map_cons, List.flatten_cons, encodeRecord, List.append_assoc,
      List.length_cons, readRecords, hkey, Option.bind_eq_bind, Option.bind_some, fromUtf8_utf8,
      hvalue, Nat.add_assoc, hrest, List.length_append]
    rfl

theorem readDeletes_append (deletes : List String) (front rest : Bytes)
    (h : (deletes.map encodeDelete).flatten.length < 2 ^ 32) :
    readDeletes (front ++ ((deletes.map encodeDelete).flatten ++ rest)) deletes.length
        front.length =
      some (deletes, front.length + (deletes.map encodeDelete).flatten.length) := by
  induction deletes generalizing front with
  | nil => simp [readDeletes]
  | cons key deletes ih =>
    have hlen : ((key :: deletes).map encodeDelete).flatten.length =
        (writeBytes (utf8 key)).length + (deletes.map encodeDelete).flatten.length := by
      simp [encodeDelete]
    rw [hlen] at h
    have hkey := readBytes_append front ((deletes.map encodeDelete).flatten ++ rest)
      (utf8 key) (by simp at h; omega)
    have hrest := ih (front ++ writeBytes (utf8 key)) (by omega)
    simp only [List.length_append, List.append_assoc] at hrest
    simp only [List.map_cons, List.flatten_cons, encodeDelete, List.append_assoc,
      List.length_cons, readDeletes, hkey, Option.bind_eq_bind, Option.bind_some, fromUtf8_utf8,
      Nat.add_assoc, hrest, List.length_append]
    rfl

/-- A list of fields is no longer than its encoding. -/
theorem length_le_flatten {α : Type} (encode : α → Bytes) (items : List α)
    (h : ∀ item ∈ items, 1 ≤ (encode item).length) :
    items.length ≤ (items.map encode).flatten.length := by
  induction items with
  | nil => simp
  | cons item items ih =>
    have := h item (by simp)
    have := ih fun other hother => h other (List.mem_cons_of_mem _ hother)
    simp only [List.length_cons, List.map_cons, List.flatten_cons, List.length_append]
    omega

theorem decodePayload_encodePayload (batchId : Nat) (records : List (String × Bytes))
    (deletes : List String) (h : (encodePayload batchId records deletes).length < 2 ^ 32) :
    decodePayload (encodePayload batchId records deletes) = some (records, deletes) := by
  have hlen : (encodePayload batchId records deletes).length =
      8 + (4 + ((records.map encodeRecord).flatten.length +
        (4 + (deletes.map encodeDelete).flatten.length))) := by
    simp only [encodePayload, List.length_append, length_writeU64, length_writeU32]
  rw [hlen] at h
  have hrecords : records.length ≤ (records.map encodeRecord).flatten.length :=
    length_le_flatten _ _ fun record _ => by simp [encodeRecord]; omega
  have hdeletes : deletes.length ≤ (deletes.map encodeDelete).flatten.length :=
    length_le_flatten _ _ fun key _ => by simp [encodeDelete]; omega
  -- The five fields, each read at the cursor where the one before it ended.
  have h₁ := readU64_append [] (writeU32 records.length ++ ((records.map encodeRecord).flatten ++
    (writeU32 deletes.length ++ (deletes.map encodeDelete).flatten))) batchId
  have h₂ := readU32_append (writeU64 batchId) ((records.map encodeRecord).flatten ++
    (writeU32 deletes.length ++ (deletes.map encodeDelete).flatten)) records.length
    (by omega)
  have h₃ := readRecords_append records (writeU64 batchId ++ writeU32 records.length)
    (writeU32 deletes.length ++ (deletes.map encodeDelete).flatten) (by omega)
  have h₄ := readU32_append (writeU64 batchId ++ (writeU32 records.length ++
    (records.map encodeRecord).flatten)) (deletes.map encodeDelete).flatten
    deletes.length (by omega)
  have h₅ := readDeletes_append deletes (writeU64 batchId ++ (writeU32 records.length ++
    ((records.map encodeRecord).flatten ++ writeU32 deletes.length))) [] (by omega)
  simp only [List.nil_append, List.append_nil, List.append_assoc, List.length_append,
    List.length_nil, length_writeU64, length_writeU32, Nat.zero_add,
    Nat.add_assoc] at h₁ h₂ h₃ h₄ h₅
  simp only [decodePayload, hlen]
  simp only [encodePayload, h₁, h₂, h₃, h₄, h₅, Option.bind_eq_bind, Option.bind_some,
    Nat.reduceAdd]
  rw [if_neg (fun hne => hne rfl)]
  rfl

/-! ## Frames -/

section Frames

variable (digest : Digest)

@[simp] theorem length_frameFromPayload (payload : Bytes) :
    (frameFromPayload digest payload).length = 4 + (hashLen + payload.length) := by
  simp [frameFromPayload, digest.length_hash]

/-- A whole frame is found, wherever it stands in a log. -/
theorem nextFrame_whole {payload : Bytes} {frame : DecodedFrame} (front rest : Bytes)
    (h : payload.length < 2 ^ 32) (decoded : decodePayload payload = some frame) :
    nextFrame digest (front ++ (frameFromPayload digest payload ++ rest)) front.length =
      some (frame, front.length + (frameFromPayload digest payload).length) := by
  have hheader := readU32_append front (digest.hash payload ++ (payload ++ rest)) payload.length h
  have hhash := Bytes.slice_append (front ++ writeU32 payload.length) (digest.hash payload)
    (payload ++ rest)
  have hpayload := Bytes.slice_append
    (front ++ (writeU32 payload.length ++ digest.hash payload)) payload rest
  simp only [List.append_assoc, List.length_append, length_writeU32, digest.length_hash,
    ← Nat.add_assoc] at hhash hpayload
  rw [length_frameFromPayload]
  simp only [nextFrame, frameFromPayload, List.append_assoc, hheader, Option.bind_eq_bind,
    Option.bind_some, hhash, hpayload, decoded, ← Nat.add_assoc]
  rw [if_neg (fun hne => hne rfl)]
  rfl

/-- A frame that is cut short is not found: its payload would end behind the log. -/
theorem nextFrame_torn {payload : Bytes} (front : Bytes) (n : Nat) (h : payload.length < 2 ^ 32)
    (hn : n < (frameFromPayload digest payload).length) :
    nextFrame digest (front ++ (frameFromPayload digest payload).take n) front.length = none := by
  rw [length_frameFromPayload] at hn
  by_cases hshort : n < 4
  · have hnone : readU32 (front ++ (frameFromPayload digest payload).take n)
      front.length = none := by
      rw [readU32, Bytes.slice_eq_none, Option.map_none]
      simp only [List.length_append, List.length_take, length_frameFromPayload]
      omega
    simp [nextFrame, hnone]
  · have hcut : (frameFromPayload digest payload).take n =
        writeU32 payload.length ++ (digest.hash payload ++ payload).take (n - 4) := by
      rw [frameFromPayload, List.take_append, length_writeU32,
        List.take_of_length_le (by simp; omega)]
    have hheader := readU32_append front ((digest.hash payload ++ payload).take (n - 4))
      payload.length h
    have hnone : Bytes.slice (front ++ (writeU32 payload.length ++
        (digest.hash payload ++ payload).take (n - 4))) (front.length + 4 + hashLen)
          (front.length + 4 + hashLen + payload.length) = none := by
      apply Bytes.slice_eq_none
      simp only [List.length_append, List.length_take, length_writeU32, digest.length_hash]
      omega
    rw [hcut]
    simp only [nextFrame, hheader, Option.bind_eq_bind, Option.bind_some, hnone, Option.bind_none,
      Option.bind_fun_none]

/-- What the log shows of a batch. -/
def FlushBatch.view (batch : FlushBatch) : DecodedFrame :=
  (batch.records.map fun record => (record.key.value, record.bytes),
    batch.deletes.map RecordKey.value)

/-- Batches with payloads below `2 ^ 32` bytes are framed. -/
theorem framing : FrameLog.Framing (logReader digest) (encodeBatch digest) FlushBatch.view
    (fun batch => batch.payload.length < 2 ^ 32) where
  whole _ front rest h :=
    nextFrame_whole digest front rest h (decodePayload_encodePayload _ _ _ h)
  torn _ front n h hn := nextFrame_torn digest front n h hn

end Frames

/-- Replaying the frame of a batch performs the batch. -/
theorem FlushBatch.applyTo_view (batch : FlushBatch) (map : RecordMap) :
    batch.view.applyTo map = batch.applyTo map := by
  simp [DecodedFrame.applyTo, FlushBatch.view, FlushBatch.applyTo, List.foldl_map]

end Messenger
