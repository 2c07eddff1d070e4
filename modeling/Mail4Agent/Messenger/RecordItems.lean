import Mail4Agent.Messenger.RecordKeys

/-!
# Items, their keys and the layout of a key

An item is what one record of the store stands for: the account, one session, the
state of one room. Every item has the key its own key function builds, different
items have different keys, and `parseRecordKey` leads from the key of an item back
to the item exactly if the room or user identifier in it passes its own parser;
identifiers read off the wire need not (`parseRecordKey_key`).

The layout of a key is the kind segment and the segments after it, cut at every
slash. A kind takes a fixed list of components. `Malformed` compares a key with
that list; the parser does not count segments, it cuts off as many as it needs
and reads what is left as the last component (`ReadsSurplus`).
-/

namespace Messenger

namespace RecognizedRecord

/-- The identifiers in an item's key, in order. -/
def components : RecognizedRecord → List String
  | .olmSession theirCurve25519 sessionId => [theirCurve25519, sessionId]
  | .olmSessionOrder theirCurve25519 => [theirCurve25519]
  | .inboundGroupSession roomId sessionId => [roomId.value, sessionId]
  | .outboundGroupSession roomId => [roomId.value]
  | .devices userId => [userId.value]
  | .trackedUser userId => [userId.value]
  | .withheld roomId sessionId => [roomId.value, sessionId]
  | .roomState roomId => [roomId.value]
  | .pendingRequest requestId => [requestId.value]
  | .account | .backupKey | .crossSigningKeys | .syncToken | .counters => []

/-- The key the store files an item under. -/
def key (device : DeviceId) : RecognizedRecord → RecordKey
  | .account => accountRecordKey device
  | .olmSession theirCurve25519 sessionId => olmSessionRecordKey device theirCurve25519 sessionId
  | .olmSessionOrder theirCurve25519 => olmSessionOrderRecordKey device theirCurve25519
  | .inboundGroupSession roomId sessionId => inboundGroupSessionRecordKey device roomId sessionId
  | .outboundGroupSession roomId => outboundGroupSessionRecordKey device roomId
  | .devices userId => devicesRecordKey device userId
  | .trackedUser userId => trackedUserRecordKey device userId
  | .withheld roomId sessionId => withheldRecordKey device roomId sessionId
  | .backupKey => backupKeyRecordKey device
  | .crossSigningKeys => crossSigningKeysRecordKey device
  | .syncToken => syncTokenRecordKey device
  | .roomState roomId => roomStateRecordKey device roomId
  | .pendingRequest requestId => pendingRequestRecordKey device requestId
  | .counters => countersRecordKey device

/-- The room or user identifier of an item passes its own parser. -/
def parses : RecognizedRecord → Bool
  | .inboundGroupSession roomId _ | .outboundGroupSession roomId | .withheld roomId _
  | .roomState roomId => (RoomId.parse roomId.value).isSome
  | .devices userId | .trackedUser userId => (UserId.parse userId.value).isSome
  | _ => true

theorem key_eq (device : DeviceId) (item : RecognizedRecord) :
    item.key device = recordKey device item.kind item.components := by
  cases item <;> rfl

theorem slash_notMem_kind (item : RecognizedRecord) : '/' ∉ item.kind.toList := by
  cases item <;> simp only [kind] <;> decide

/-- The item a kind and its identifiers stand for. -/
def ofParts (kind : String) : List String → Option RecognizedRecord
  | [] => [account, backupKey, crossSigningKeys, syncToken, counters].find? (·.kind = kind)
  | [id] => [olmSessionOrder id, outboundGroupSession ⟨id⟩, devices ⟨id⟩, trackedUser ⟨id⟩,
      roomState ⟨id⟩, pendingRequest ⟨id⟩].find? (·.kind = kind)
  | [id, sessionId] => [olmSession id sessionId, inboundGroupSession ⟨id⟩ sessionId,
      withheld ⟨id⟩ sessionId].find? (·.kind = kind)
  | _ => none

theorem ofParts_components (item : RecognizedRecord) :
    ofParts item.kind item.components = some item := by
  cases item <;>
    simp [ofParts, components, kind, kindAccount, kindOlmSession, kindOlmSessionOrder, kindMegolmIn,
      kindMegolmOut, kindDevices, kindTrackedUser, kindWithheld, kindBackupKey,
      kindCrossSigningKeys, kindSyncToken, kindRoomState, kindPending, kindCounters]

end RecognizedRecord

/-! ## Keys of items -/

section Keys

variable (device : DeviceId)

theorem percentEncodeSegment_injective : Function.Injective percentEncodeSegment := by
  intro a b h
  have hdecoded := percentDecodeSegment_encode a
  rw [h, percentDecodeSegment_encode] at hdecoded
  exact (Option.some.inj hdecoded).symm

/-- The texts between the slashes of a key, from the kind on. -/
def keySegments (kind : String) (components : List String) : List (List Char) :=
  kind.toList :: components.map fun part => (percentEncodeSegment part).toList

theorem toList_recordKey_eq (kind : String) (components : List String) :
    (recordKey device kind components).value.toList =
      (keyLead device).toList ++ ['/'].intercalate (keySegments kind components) := by
  rw [toList_recordKey, keySegments, Text.intercalate_cons, componentText, List.map_map]
  rfl

theorem splitOn_keySegments {kind : String} (plain : '/' ∉ kind.toList)
    (components : List String) :
    (['/'].intercalate (keySegments kind components)).splitOn '/' =
      keySegments kind components := by
  refine List.splitOn_intercalate '/' (fun segment hmem => ?_) (by simp [keySegments])
  rcases List.mem_cons.1 hmem with rfl | hmem
  · exact plain
  · obtain ⟨part, -, rfl⟩ := List.mem_map.1 hmem
    exact slash_notMem_percentEncodeSegment part

/-- A key determines its kind and components. -/
theorem recordKey_injective {kind kind' : String} {components components' : List String}
    (plain : '/' ∉ kind.toList) (plain' : '/' ∉ kind'.toList)
    (h : recordKey device kind components = recordKey device kind' components') :
    kind = kind' ∧ components = components' := by
  have htext := congrArg (·.value.toList) h
  rw [toList_recordKey_eq, toList_recordKey_eq] at htext
  have hcut := congrArg (List.splitOn '/') (List.append_cancel_left htext)
  rw [splitOn_keySegments plain, splitOn_keySegments plain', keySegments, keySegments,
    List.cons.injEq] at hcut
  refine ⟨String.toList_injective hcut.1, List.map_injective_iff.2 ?_ hcut.2⟩
  exact fun a b hab => percentEncodeSegment_injective (String.toList_injective hab)

/-- Different items have different keys. -/
theorem RecognizedRecord.key_injective {a b : RecognizedRecord} (h : a.key device = b.key device) :
    a = b := by
  rw [key_eq, key_eq] at h
  obtain ⟨hkind, hcomponents⟩ :=
    recordKey_injective device a.slash_notMem_kind b.slash_notMem_kind h
  have hparts := ofParts_components a
  rw [hkind, hcomponents, ofParts_components] at hparts
  exact (Option.some.inj hparts).symm

theorem decodePlainSegment_encode (key : RecordKey) (part : String) :
    decodePlainSegment key (percentEncodeSegment part).toList = .ok part := by
  simp [decodePlainSegment, decodeComponent, percentDecodeSegment_encode]

theorem decodeRoomId_encode (key : RecordKey) (id : RoomId) :
    decodeRoomId key (percentEncodeSegment id.value).toList =
      if (RoomId.parse id.value).isSome then .ok id else .error (.unknownRecordLayout key) := by
  rw [decodeRoomId, decodeComponent, String.ofList_toList, percentDecodeSegment_encode,
    Option.bind_some]
  cases h : RoomId.parse id.value with
  | none => rfl
  | some found =>
    have hfound : found = id := by
      cases found; cases id
      exact congrArg RoomId.mk (RoomId.parse_value h)
    simp [hfound]

theorem decodeUserId_encode (key : RecordKey) (id : UserId) :
    decodeUserId key (percentEncodeSegment id.value).toList =
      if (UserId.parse id.value).isSome then .ok id else .error (.unknownRecordLayout key) := by
  rw [decodeUserId, decodeComponent, String.ofList_toList, percentDecodeSegment_encode,
    Option.bind_some]
  cases h : UserId.parse id.value with
  | none => rfl
  | some found =>
    have hfound : found = id := by
      cases found; cases id
      exact congrArg UserId.mk (UserId.parse_value h)
    simp [hfound]

/-- The key of an item is read as that item if its identifier passes its parser; otherwise
it is refused. -/
theorem parseRecordKey_key (item : RecognizedRecord) :
    parseRecordKey device (item.key device) =
      if item.parses then .ok (some item) else .error (.unknownRecordLayout (item.key device)) := by
  have hone : ∀ part : String, (componentText [part]).tail = (percentEncodeSegment part).toList :=
    fun part => by simp [componentText]
  have htwo : ∀ part text : String, Text.splitOnce '/' (componentText [part, text]).tail =
      some ((percentEncodeSegment part).toList, (percentEncodeSegment text).toList) := by
    intro part text
    have := Text.splitOnce_append (slash_notMem_percentEncodeSegment part)
      (percentEncodeSegment text).toList
    simpa [componentText] using this
  rw [RecognizedRecord.key_eq, parseRecordKey_recordKey device item.slash_notMem_kind]
  generalize recordKey device item.kind item.components = key
  cases item <;> simp [parseKind, RecognizedRecord.kind, RecognizedRecord.components,
    RecognizedRecord.parses, kindAccount, kindOlmSession, kindOlmSessionOrder, kindMegolmIn,
    kindMegolmOut, kindDevices, kindTrackedUser, kindWithheld, kindBackupKey,
    kindCrossSigningKeys, kindSyncToken, kindRoomState, kindPending, kindCounters, parseOne,
    parseTwo, hone, htwo, decodePlainSegment_encode, decodeRoomId_encode, decodeUserId_encode,
    bind, Except.bind]
  case inboundGroupSession id _ | outboundGroupSession id | withheld id _ | roomState id =>
    by_cases h : (RoomId.parse id.value).isSome <;> simp [h]
  case devices id | trackedUser id => by_cases h : (UserId.parse id.value).isSome <;> simp [h]

/-- The key of an item is never taken for one of an unknown kind. -/
theorem parseRecordKey_key_ne (item : RecognizedRecord) :
    parseRecordKey device (item.key device) ≠ .ok none := by
  rw [parseRecordKey_key]
  split <;> simp

end Keys

/-! ## The layout of a key -/

/-- What a component of a key holds. -/
inductive Component where
  | plain
  | room
  | user
deriving DecidableEq, Repr

/-- The text decodes to a value of the component. -/
def Component.accepts (component : Component) (text : List Char) : Bool :=
  match component, percentDecodeSegment (String.ofList text) with
  | _, none => false
  | .plain, some _ => true
  | .room, some decoded => (RoomId.parse decoded).isSome
  | .user, some decoded => (UserId.parse decoded).isSome

/-- The kinds of this store and the components each takes. -/
def layouts : List (String × List Component) :=
  [(kindAccount, []), (kindOlmSession, [.plain, .plain]), (kindOlmSessionOrder, [.plain]),
    (kindMegolmIn, [.room, .plain]), (kindMegolmOut, [.room]), (kindDevices, [.user]),
    (kindTrackedUser, [.user]), (kindWithheld, [.room, .plain]), (kindBackupKey, []),
    (kindCrossSigningKeys, []), (kindSyncToken, []), (kindRoomState, [.room]),
    (kindPending, [.plain]), (kindCounters, [])]

def layout (kind : String) : Option (List Component) := layouts.lookup kind

/-- Each segment is one component. -/
def fits : List Component → List (List Char) → Bool
  | [], [] => true
  | component :: shape, text :: texts => component.accepts text && fits shape texts
  | _, _ => false

/-- As `fits`, with everything from the last component on read as one text. -/
def fitsLoosely : List Component → List (List Char) → Bool
  | [], _ => true
  | _ :: _, [] => false
  | [component], text :: texts => component.accepts (['/'].intercalate (text :: texts))
  | component :: shape, text :: texts => component.accepts text && fitsLoosely shape texts

/-- The kind of a key of this device, and the segments after it. -/
def segmentsOf (device : DeviceId) (key : RecordKey) : Option (String × List (List Char)) :=
  match Text.stripLead (keyLead device).toList key.value.toList with
  | none => none
  | some rest =>
    match rest.splitOn '/' with
    | [] => none
    | kind :: texts => some (String.ofList kind, texts)

/-- The kind is one of this store and the segments after it are not its components. -/
def Malformed (device : DeviceId) (key : RecordKey) : Prop :=
  ∃ kind texts shape, segmentsOf device key = some (kind, texts) ∧ layout kind = some shape ∧
    fits shape texts = false

/-- The key has more segments than its kind has components and is read all the same. -/
def ReadsSurplus (device : DeviceId) (key : RecordKey) : Prop :=
  ∃ kind texts shape, segmentsOf device key = some (kind, texts) ∧ layout kind = some shape ∧
    shape.length < texts.length ∧ fitsLoosely shape texts = true

section Layout

variable {device : DeviceId} {key : RecordKey}

variable {texts : List (List Char)} {α : Type} {component : Component}
  {decode : List Char → Except StoreError α} {shape : List Component}

/-- The cut of a key at every slash, against the cut the parser makes. -/
theorem parseRecordKey_of_segmentsOf {kind : String}
    (h : segmentsOf device key = some (kind, texts)) :
    parseRecordKey device key =
      parseKind key kind (if texts = [] then none else some (['/'].intercalate texts)) := by
  rw [segmentsOf] at h
  split at h
  · cases h
  · next rest hrest =>
    split at h
    · cases h
    · next head tails hcut =>
      obtain ⟨rfl, rfl⟩ := Prod.mk.inj (Option.some.inj h)
      have hplain : '/' ∉ head :=
        Text.notMem_of_mem_splitOn (hcut ▸ List.mem_cons_self .. : head ∈ rest.splitOn '/')
      have hjoin : ['/'].intercalate (head :: tails) = rest := by
        rw [← hcut, List.intercalate_splitOn]
      have hkind : cutKind rest =
          (head, if tails = [] then none else some (['/'].intercalate tails)) := by
        rw [← hjoin]
        cases tails with
        | nil => simp [cutKind, List.intercalate, Text.splitOnce_of_notMem hplain]
        | cons text tails =>
          rw [List.intercalate_cons_cons, List.append_assoc, cutKind, List.singleton_append,
            Text.splitOnce_append hplain]
          simp
      rw [parseRecordKey, hrest]
      simp only [hkind]

/-- What the parser asks of the text after the kind. -/
def reads : List Component → Option (List Char) → Bool
  | [], _ => true
  | _ :: _, none => false
  | [component], some text => component.accepts text
  | [first, second], some text =>
    match Text.splitOnce '/' text with
    | none => false
    | some (head, rest) => first.accepts head && second.accepts rest
  | _, _ => false

theorem reads_nil (remainder : Option (List Char)) : reads [] remainder = true := rfl

/-- The decoder of a component of this sort refuses exactly the texts it does not accept. -/
def Component.Decodes {α : Type} (component : Component) (key : RecordKey)
    (decode : List Char → Except StoreError α) : Prop :=
  ∀ text, (decode text = .error (.unknownRecordLayout key) ∧ component.accepts text = false) ∨
    ∃ value, decode text = .ok value ∧ component.accepts text = true

theorem decodes_plain : Component.plain.Decodes key (decodePlainSegment key) := by
  intro text
  rw [decodePlainSegment, decodeComponent, Component.accepts.eq_def]
  cases percentDecodeSegment (String.ofList text) <;> simp

theorem decodes_room : Component.room.Decodes key (decodeRoomId key) := by
  intro text
  rw [decodeRoomId, decodeComponent, Component.accepts.eq_def]
  cases percentDecodeSegment (String.ofList text) with
  | none => simp
  | some decoded => cases h : RoomId.parse decoded <;> simp [h]

theorem decodes_user : Component.user.Decodes key (decodeUserId key) := by
  intro text
  rw [decodeUserId, decodeComponent, Component.accepts.eq_def]
  cases percentDecodeSegment (String.ofList text) with
  | none => simp
  | some decoded => cases h : UserId.parse decoded <;> simp [h]

theorem parseOne_error_iff (decodes : component.Decodes key decode) (build : α → RecognizedRecord)
    (remainder : Option (List Char)) :
    parseOne key decode build remainder = .error (.unknownRecordLayout key) ↔
      reads [component] remainder = false := by
  cases remainder with
  | none => simp [parseOne, reads]
  | some text =>
    rw [reads, parseOne]
    rcases decodes text with ⟨hdecode, haccepts⟩ | ⟨value, hdecode, haccepts⟩ <;>
      simp [hdecode, haccepts, bind, Except.bind]

theorem parseTwo_error_iff (decodes : component.Decodes key decode)
    (build : α → String → RecognizedRecord) (remainder : Option (List Char)) :
    parseTwo key decode build remainder = .error (.unknownRecordLayout key) ↔
      reads [component, .plain] remainder = false := by
  cases remainder with
  | none => simp [parseTwo, reads]
  | some text =>
    rw [reads, parseTwo, Option.bind_some]
    cases Text.splitOnce '/' text with
    | none => simp
    | some parts =>
      rcases decodes parts.1 with ⟨hfirst, haccepts⟩ | ⟨value, hfirst, haccepts⟩
      · simp [hfirst, haccepts, bind, Except.bind]
      · rcases @decodes_plain key parts.2 with ⟨hsecond, hplain⟩ | ⟨text, hsecond, hplain⟩ <;>
          simp [hfirst, haccepts, hsecond, hplain, bind, Except.bind]

/-- A kind of this store refuses a remainder that is not its components. -/
theorem parseKind_error_iff (kind : String) (remainder : Option (List Char)) :
    parseKind key kind remainder = .error (.unknownRecordLayout key) ↔
      ∃ shape, layout kind = some shape ∧ reads shape remainder = false := by
  by_cases known : kind ∈ layouts.map Prod.fst
  · have hbare : ∀ bare : RecognizedRecord, (if remainder.isNone = true then
        Except.ok (some bare) else .ok none : Except StoreError (Option RecognizedRecord)) ≠
          .error (.unknownRecordLayout key) := by
      intro bare
      split <;> simp
    simp only [layouts, List.map_cons, List.map_nil, List.mem_cons, List.not_mem_nil,
      or_false] at known
    rcases known with rfl | rfl | rfl | rfl | rfl | rfl | rfl | rfl | rfl | rfl | rfl | rfl | rfl |
      rfl <;>
    simp only [parseKind, layout, layouts, kindAccount, kindOlmSession, kindOlmSessionOrder,
      kindMegolmIn, kindMegolmOut, kindDevices, kindTrackedUser, kindWithheld, kindBackupKey,
      kindCrossSigningKeys, kindSyncToken, kindRoomState, kindPending, kindCounters,
      List.lookup_cons, String.reduceEq, String.reduceBEq, false_and, true_and, if_true, if_false,
      Option.some.injEq, exists_eq_left', reads_nil, hbare, Bool.true_eq_false]
    exacts [parseTwo_error_iff decodes_plain _ _, parseOne_error_iff decodes_plain _ _,
      parseTwo_error_iff decodes_room _ _, parseOne_error_iff decodes_room _ _,
      parseOne_error_iff decodes_user _ _, parseOne_error_iff decodes_user _ _,
      parseTwo_error_iff decodes_room _ _, parseOne_error_iff decodes_room _ _,
      parseOne_error_iff decodes_plain _ _]
  · have hlayout : layout kind = none := by
      rw [layout, List.lookup_eq_none_iff]
      intro entry hmem
      rw [bne_iff_ne]
      rintro rfl
      exact known (List.mem_map_of_mem hmem)
    have hkind : parseKind key kind remainder = .ok none := by
      simp only [layouts, List.map_cons, List.map_nil, List.mem_cons, List.not_mem_nil, or_false,
        not_or] at known
      simp [parseKind, known]
    simp [hkind, hlayout]

theorem length_layout_le {kind : String} (h : layout kind = some shape) : shape.length ≤ 2 := by
  obtain ⟨before, after, hsplit, -⟩ := List.lookup_eq_some_iff.1 h
  have hall : ∀ entry ∈ layouts, entry.2.length ≤ 2 := by decide
  exact hall (kind, shape) (by rw [hsplit]; simp)

/-- Reading what follows the kind is reading its segments loosely. -/
theorem reads_eq_fitsLoosely (short : shape.length ≤ 2) (plain : ∀ text ∈ texts, '/' ∉ text) :
    reads shape (if texts = [] then none else some (['/'].intercalate texts)) =
      fitsLoosely shape texts := by
  match shape, texts with
  | [], _ => simp [reads, fitsLoosely]
  | _ :: _, [] => simp [reads, fitsLoosely]
  | [_], _ :: _ => simp [reads, fitsLoosely]
  | [first, second], [text] =>
    have hnone := Text.splitOnce_of_notMem (plain text (by simp))
    simp [reads, fitsLoosely, hnone]
  | [first, second], text :: next :: texts =>
    have hcut := Text.splitOnce_append (plain text (by simp)) (['/'].intercalate (next :: texts))
    simp [reads, fitsLoosely, hcut]
  | _ :: _ :: _ :: _, _ :: _ => simp at short

theorem slash_notMem_of_segmentsOf {kind : String}
    (h : segmentsOf device key = some (kind, texts)) :
    ∀ text ∈ texts, '/' ∉ text := by
  rw [segmentsOf] at h
  split at h
  · cases h
  · next rest _ =>
    split at h
    · cases h
    · next head tails hcut =>
      cases h
      intro text hmem
      have hpiece : text ∈ rest.splitOn '/' := hcut ▸ List.mem_cons_of_mem _ hmem
      exact Text.notMem_of_mem_splitOn hpiece

/-- A key is refused exactly if its kind is one of this store and does not read, even
loosely, as its components. -/
theorem parseRecordKey_error_iff :
    parseRecordKey device key = .error (.unknownRecordLayout key) ↔
      ∃ kind texts shape, segmentsOf device key = some (kind, texts) ∧ layout kind = some shape ∧
        fitsLoosely shape texts = false := by
  cases hsegments : segmentsOf device key with
  | none =>
    have hparse : parseRecordKey device key = .ok none := by
      rw [segmentsOf] at hsegments
      rw [parseRecordKey]
      cases hlead : Text.stripLead (keyLead device).toList key.value.toList with
      | none => rfl
      | some rest =>
        rw [hlead] at hsegments
        dsimp only at hsegments
        split at hsegments
        · next hcut => exact absurd hcut (List.splitOnP_ne_nil _ _)
        · cases hsegments
    simp [hparse]
  | some parts =>
    obtain ⟨kind, texts⟩ := parts
    rw [parseRecordKey_of_segmentsOf hsegments, parseKind_error_iff]
    constructor
    · rintro ⟨shape, hshape, hreads⟩
      refine ⟨kind, texts, shape, rfl, hshape, ?_⟩
      rwa [← reads_eq_fitsLoosely (length_layout_le hshape) (slash_notMem_of_segmentsOf hsegments)]
    · rintro ⟨_, _, shape, ⟨⟩, hshape, hfits⟩
      refine ⟨shape, hshape, ?_⟩
      rwa [reads_eq_fitsLoosely (length_layout_le hshape) (slash_notMem_of_segmentsOf hsegments)]

/-- With one segment for each component the two readings agree. -/
theorem fitsLoosely_eq_fits (h : texts.length = shape.length) :
    fitsLoosely shape texts = fits shape texts := by
  induction shape generalizing texts with
  | nil =>
    obtain rfl := List.length_eq_zero_iff.1 h
    rfl
  | cons component shape ih =>
    obtain ⟨text, texts, rfl⟩ := List.exists_cons_of_length_eq_add_one h
    have hlength : texts.length = shape.length := by simpa using h
    cases shape with
    | nil =>
      obtain rfl := List.length_eq_zero_iff.1 hlength
      simp [fitsLoosely, fits, List.intercalate]
    | cons next shape => rw [fitsLoosely, fits, ih hlength]; simp

theorem fitsLoosely_of_length_lt (h : texts.length < shape.length) :
    fitsLoosely shape texts = false := by
  induction shape generalizing texts with
  | nil => simp at h
  | cons component shape ih =>
    cases texts with
    | nil => rfl
    | cons text texts =>
      cases shape with
      | nil => simp at h
      | cons next shape =>
        rw [fitsLoosely, ih (by simpa using h), Bool.and_false]
        simp

theorem length_eq_of_fits (h : fits shape texts = true) : texts.length = shape.length := by
  induction shape generalizing texts with
  | nil => cases texts <;> simp_all [fits]
  | cons component shape ih =>
    cases texts with
    | nil => simp [fits] at h
    | cons text texts =>
      simp only [fits, Bool.and_eq_true] at h
      simp [ih h.2]

/-- A malformed key is refused unless its surplus segments read as part of the last component. -/
theorem refused_iff_not_readsSurplus :
    (Malformed device key → parseRecordKey device key = .error (.unknownRecordLayout key)) ↔
      ¬ ReadsSurplus device key := by
  rw [parseRecordKey_error_iff]
  constructor
  · rintro h ⟨kind, texts, shape, hsegments, hshape, hlength, hloose⟩
    have hmalformed : fits shape texts = false := by
      rw [← Bool.not_eq_true]
      exact fun hfits => hlength.ne (length_eq_of_fits hfits).symm
    obtain ⟨kind', texts', shape', hsegments', hshape', hrefused⟩ :=
      h ⟨kind, texts, shape, hsegments, hshape, hmalformed⟩
    cases hsegments.symm.trans hsegments'
    cases hshape.symm.trans hshape'
    exact Bool.false_ne_true (hrefused.symm.trans hloose)
  · rintro h ⟨kind, texts, shape, hsegments, hshape, hmalformed⟩
    refine ⟨kind, texts, shape, hsegments, hshape, ?_⟩
    rcases lt_trichotomy texts.length shape.length with hlt | heq | hgt
    · exact fitsLoosely_of_length_lt hlt
    · rwa [fitsLoosely_eq_fits heq]
    · rw [← Bool.not_eq_true]
      exact fun hloose => h ⟨kind, texts, shape, hsegments, hshape, hgt, hloose⟩

end Layout

end Messenger
