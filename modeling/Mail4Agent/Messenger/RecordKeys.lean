import Mail4Agent.Messenger.QueueRun

/-!
# Record keys and what they parse to

A record key is a lead naming the device, a kind and percent-encoded components.
No component contains a slash, so a key parses to the kind it was built with. The
counters key is the only one that parses to the counters; of the keys the store
writes, only those of pending requests parse to a pending request.
-/

namespace Messenger

variable (device : DeviceId)

/-- What follows the kind segment of a key. -/
def componentText (components : List String) : List Char :=
  (components.map fun part => '/' :: (percentEncodeSegment part).toList).flatten

theorem toList_recordKey (kind : String) (components : List String) :
    (recordKey device kind components).value.toList =
      (keyLead device).toList ++ (kind.toList ++ componentText components) := by
  have hjoin : ∀ parts : List String,
      (String.join (parts.map fun part => "/" ++ percentEncodeSegment part)).toList =
        componentText parts := by
    intro parts
    induction parts with
    | nil => rfl
    | cons part parts ih => simp [componentText] at ih ⊢; simp [ih]
  simp [recordKey, hjoin]

/-- A key parses by the kind it was built with. -/
theorem parseRecordKey_recordKey {kind : String} (plain : '/' ∉ kind.toList)
    (components : List String) :
    parseRecordKey device (recordKey device kind components) =
      parseKind (recordKey device kind components) kind
        (if components = [] then none else some (componentText components).tail) := by
  rw [parseRecordKey, toList_recordKey, Text.stripLead_append]
  have hcut : cutKind (kind.toList ++ componentText components) =
      (kind.toList, if components = [] then none else some (componentText components).tail) := by
    cases components with
    | nil => simp [cutKind, componentText, Text.splitOnce_of_notMem plain]
    | cons part parts => simp [cutKind, componentText, Text.splitOnce_append plain]
  simp only [hcut, String.ofList_toList]

/-- The kind segment of a record's keys. -/
def RecognizedRecord.kind : RecognizedRecord → String
  | .account => kindAccount
  | .olmSession _ _ => kindOlmSession
  | .olmSessionOrder _ => kindOlmSessionOrder
  | .inboundGroupSession _ _ => kindMegolmIn
  | .outboundGroupSession _ => kindMegolmOut
  | .devices _ => kindDevices
  | .trackedUser _ => kindTrackedUser
  | .withheld _ _ => kindWithheld
  | .backupKey => kindBackupKey
  | .crossSigningKeys => kindCrossSigningKeys
  | .syncToken => kindSyncToken
  | .roomState _ => kindRoomState
  | .pendingRequest _ => kindPending
  | .counters => kindCounters

end Messenger
