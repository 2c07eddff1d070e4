import Mail4Agent.Foundation.Data
import Mail4Agent.Messenger.Ids

/-!
# Requests, responses and path segments

An `OutgoingRequest` is one HTTP call the messenger core asks its shell to make.
Response bodies are kept as the result of parsing them as JSON, which is the only
way the queue looks at them; a body that is not JSON is `none`.

Identifiers are percent-encoded byte by byte before they become part of a path or
of a storage key. The encoded text holds no slash, and decoding it gives the
original string back, so a key can be cut at its slashes and read again.
-/

namespace Messenger

/-- Bytes that stand for themselves in a path segment. -/
def isUnreserved (b : UInt8) : Bool :=
  (0x41 ≤ b && b ≤ 0x5A) || (0x61 ≤ b && b ≤ 0x7A) || (0x30 ≤ b && b ≤ 0x39) ||
    b == 0x2D || b == 0x2E || b == 0x5F || b == 0x7E

/-- The upper-case digit printed by `{:02X}` for a value below sixteen. -/
def upperHexDigit (d : Nat) : Char :=
  if d < 10 then Char.ofNat (48 + d) else Char.ofNat (55 + d)

def percentEncodeByte (b : UInt8) : List Char :=
  if isUnreserved b then [Char.ofNat b.toNat]
  else ['%', upperHexDigit (b.toNat / 16), upperHexDigit (b.toNat % 16)]

def percentEncodeSegment (segment : String) : String :=
  String.ofList (segment.toUTF8.data.toList.flatMap percentEncodeByte)

/-- Undoes the escapes; an incomplete or malformed escape is an error. -/
def percentDecodeBytes : List UInt8 → Option (List UInt8)
  | [] => some []
  | b :: rest =>
    if b = 0x25 then
      match rest with
      | h :: l :: rest =>
        match Text.fromStrRadix 255 [Char.ofNat h.toNat, Char.ofNat l.toNat] with
        | none => none
        | some n => (percentDecodeBytes rest).map (UInt8.ofNat n :: ·)
      | _ => none
    else (percentDecodeBytes rest).map (b :: ·)

def percentDecodeSegment (segment : String) : Option String :=
  match percentDecodeBytes segment.toUTF8.data.toList with
  | none => none
  | some bytes => String.fromUTF8? ⟨bytes.toArray⟩

inductive HttpMethod where
  | get | post | put
deriving DecidableEq, Repr

inductive OutgoingRequestKind where
  | sync | keysUpload | keysQuery | keysClaim | keysChanges | sendToDevice | signingKeysUpload
  | signaturesUpload | roomSend | roomRedact | roomState | roomMessages | roomMembers | createRoom
  | joinRoom | leaveRoom | invite | kick | setState | typing | receipt | readMarkers | accountData
  | roomAccountData | profile | userDirectorySearch | publicRooms | backupVersion | backupKeys
deriving DecidableEq, Repr

structure OutgoingRequest where
  id : RequestId
  method : HttpMethod
  path : String
  query : List (String × String)
  body : Option Json
  kind : OutgoingRequestKind
deriving Repr

/-- The inline filter every sync request carries. -/
def syncFilter : String := "\x7b\"room\":\x7b\"include_leave\":true\x7d\x7d"

def OutgoingRequest.sync (id : RequestId) (since : Option String) (timeoutMs : Option Nat) :
    OutgoingRequest where
  id := id
  method := .get
  path := "/_matrix/client/v3/sync"
  query := [("filter", syncFilter)] ++ (since.map fun s => ("since", s)).toList ++
    (timeoutMs.map fun ms => ("timeout", toString ms)).toList
  body := none
  kind := .sync

/-- A `PUT` whose path ends in percent-encoded parameters. -/
def OutgoingRequest.put (id : RequestId) (path : String) (body : Json)
    (kind : OutgoingRequestKind) : OutgoingRequest where
  id := id
  method := .put
  path := path
  query := []
  body := some body
  kind := kind

def OutgoingRequest.sendToDevice (id : RequestId) (eventType : String) (txnId : TxnId)
    (body : Json) : OutgoingRequest :=
  .put id ("/_matrix/client/v3/sendToDevice/" ++ percentEncodeSegment eventType ++ "/" ++
    percentEncodeSegment txnId.value) body .sendToDevice

/-- A response handed back by the shell; `body` is the parsed body. -/
structure HttpResponseDescriptor where
  status : Nat
  body : Option Json
deriving Repr

/-- The `errcode` and `error` of an error body; `error` defaults to the empty text. -/
def HttpResponseDescriptor.matrixError (response : HttpResponseDescriptor) :
    Option (String × String) := do
  let value ← response.body
  let errcode ← (value.get? "errcode").bind Json.asStr?
  some (errcode, ((value.get? "error").bind Json.asStr?).getD "")

/-! ## Percent encoding round trip -/

/-- The bytes of an ASCII text are its code points. -/
def asciiBytes (text : List Char) : List UInt8 := text.map fun c => UInt8.ofNat c.toNat

theorem toUTF8_ofList_ascii {text : List Char} (h : ∀ c ∈ text, c.toNat ≤ 127) :
    (String.ofList text).toUTF8.data.toList = asciiBytes text := by
  have single : ∀ c : Char, c.toNat ≤ 127 → String.utf8EncodeChar c = [UInt8.ofNat c.toNat] := by
    intro c hc
    exact if_pos hc
  change (String.ofList text).toByteArray.data.toList = _
  rw [String.toByteArray_ofList, List.utf8Encode, List.data_toByteArray, asciiBytes,
    List.map_eq_flatMap]
  exact List.flatMap_congr fun c hc => single c (h c hc)

/-- One byte, escaped or not, is read back before the rest is looked at. -/
theorem percentDecodeBytes_encodeByte (b : UInt8) (rest : List UInt8) :
    percentDecodeBytes (asciiBytes (percentEncodeByte b) ++ rest) =
      (percentDecodeBytes rest).map (b :: ·) := by
  have plain : ∀ n < 256, isUnreserved (UInt8.ofNat n) = true →
      UInt8.ofNat (Char.ofNat n).toNat = UInt8.ofNat n ∧ UInt8.ofNat n ≠ 0x25 := by
    decide +kernel
  have escaped : ∀ n < 256, Text.fromStrRadix 255
      [Char.ofNat (UInt8.ofNat (upperHexDigit (n / 16)).toNat).toNat,
        Char.ofNat (UInt8.ofNat (upperHexDigit (n % 16)).toNat).toNat] = some n := by
    decide +kernel
  by_cases h : isUnreserved b = true
  · obtain ⟨hchar, hne⟩ := plain b.toNat b.toNat_lt_size (by simpa using h)
    simp only [UInt8.ofNat_toNat] at hchar hne
    simp only [percentEncodeByte, h, asciiBytes, List.map_cons, List.map_nil, hchar,
      List.cons_append, List.nil_append, if_true]
    rw [percentDecodeBytes.eq_def]
    exact if_neg hne
  · have hpercent : UInt8.ofNat '%'.toNat = 0x25 := by decide
    simp only [percentEncodeByte, h, asciiBytes, List.map_cons, List.map_nil, List.cons_append,
      List.nil_append, hpercent, Bool.false_eq_true, if_false]
    rw [percentDecodeBytes, if_pos rfl]
    simp only [escaped b.toNat b.toNat_lt_size, UInt8.ofNat_toNat]

theorem percentDecodeBytes_encode (bytes : List UInt8) :
    percentDecodeBytes (asciiBytes (bytes.flatMap percentEncodeByte)) = some bytes := by
  induction bytes with
  | nil => rfl
  | cons b bytes ih =>
    have happend : asciiBytes ((b :: bytes).flatMap percentEncodeByte) =
        asciiBytes (percentEncodeByte b) ++ asciiBytes (bytes.flatMap percentEncodeByte) := by
      simp [asciiBytes]
    rw [happend, percentDecodeBytes_encodeByte, ih, Option.map_some]

theorem percentEncodeByte_chars (b : UInt8) :
    ∀ c ∈ percentEncodeByte b, c.toNat ≤ 127 ∧ c ≠ '/' := by
  have all : ∀ n < 256, (percentEncodeByte (UInt8.ofNat n)).all
      (fun c => c.toNat ≤ 127 && c != '/') = true := by
    decide +kernel
  simpa using all b.toNat b.toNat_lt_size

theorem slash_notMem_percentEncodeSegment (segment : String) :
    '/' ∉ (percentEncodeSegment segment).toList := by
  rw [percentEncodeSegment, String.toList_ofList, List.mem_flatMap]
  rintro ⟨b, _, hc⟩
  exact (percentEncodeByte_chars b _ hc).2 rfl

/-- Decoding an encoded segment gives the segment back. -/
theorem percentDecodeSegment_encode (segment : String) :
    percentDecodeSegment (percentEncodeSegment segment) = some segment := by
  have hascii : ∀ c ∈ segment.toUTF8.data.toList.flatMap percentEncodeByte, c.toNat ≤ 127 := by
    intro c hc
    obtain ⟨b, _, hb⟩ := List.mem_flatMap.1 hc
    exact (percentEncodeByte_chars b c hb).1
  rw [percentDecodeSegment, percentEncodeSegment, toUTF8_ofList_ascii hascii,
    percentDecodeBytes_encode]
  have hbytes : (⟨segment.toUTF8.data.toList.toArray⟩ : ByteArray) = segment.toUTF8 := by simp
  change String.fromUTF8? ⟨segment.toUTF8.data.toList.toArray⟩ = some segment
  rw [hbytes, Text.fromUTF8_toUTF8]

end Messenger
