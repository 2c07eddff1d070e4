import Mail4Agent.Messenger.KeyRing

/-!
# Device lists

A `/keys/query` response replaces the device lists of the users it names. A device is trusted when
its identifier is seen for the first time, a device whose keys changed is not trusted any more, and
a block stays. What was seen before is what the stored list says, and a list holds only what the
last response listed: a device that one response leaves out is, for the next one that lists it, a
device that was never seen.

`ListHistory` logs every device that is stored and every device the user verifies.
`respected_iff_meets` says exactly when blocks and changed keys are respected along a run.
-/

namespace Messenger

/-! ### One device of a response -/

def StoredDevice.key (device : StoredDevice) : UserId × DeviceId :=
  (device.userId, device.deviceId)

/-- A device with what it says about itself and whether the user trusts it. -/
structure TrackedDevice extends StoredDevice where
  algorithms : List String
  displayName : Option String
  verified : Bool
deriving DecidableEq, Repr

def TrackedDevice.identity (device : TrackedDevice) : String × String :=
  (device.curve25519, device.ed25519)

structure DeviceKeysObject where
  userId : UserId
  deviceId : DeviceId
  algorithms : List String
  keys : List (String × String)
  displayName : Option String

/-- An object of texts that may be absent. -/
def textFields : Option Json → Option (List (String × String))
  | none => some []
  | some (.obj fields) => fields.mapM fun entry => entry.2.asStr?.map (entry.1, ·)
  | some _ => none

def DeviceKeysObject.read (value : Json) : Option DeviceKeysObject :=
  match structFields ["user_id", "device_id", "algorithms", "keys", "unsigned"] value with
  | some [some (.str userId), some (.str deviceId), algorithms, keys, unsigned] => do
    let algorithms ← textList algorithms
    let keys ← textFields keys
    let displayName ← match unsigned.map (structFields ["device_display_name"]) with
      | none => some none
      | some (some [name]) => optionalText name
      | some _ => none
    return ⟨⟨userId⟩, ⟨deviceId⟩, algorithms, keys, displayName⟩
  | _ => none

/-- What the libraries check: the two kinds of key in base64, and the signature of an object under
a user, a key identifier and a key. -/
structure DeviceCrypto where
  ed25519FromBase64 : String → Except String String
  curve25519FromBase64 : String → Except String String
  verifyJsonSignature : Json → String → String → String → Except String Unit

def mismatch (field inObject mapKey : String) : String :=
  field ++ " \"" ++ inObject ++ "\" in the object does not match the map key \"" ++ mapKey ++ "\""

/-- An object is accepted under the user and device it names, with a signature of its own key. -/
def DeviceCrypto.verifyDevice (crypto : DeviceCrypto) (userId : UserId) (deviceId : DeviceId)
    (raw : Json) : Except String TrackedDevice := do
  let parsed ← (DeviceKeysObject.read raw).elim (.error "malformed device_keys object") .ok
  if parsed.userId ≠ userId then
    throw (mismatch "user_id" parsed.userId.value userId.value)
  if parsed.deviceId ≠ deviceId then
    throw (mismatch "device_id" parsed.deviceId.value deviceId.value)
  let keyId := "ed25519:" ++ deviceId.value
  let ed25519Text ← (parsed.keys.lookup keyId).elim
    (.error "missing the device's own ed25519 key") .ok
  let ed25519 ← (crypto.ed25519FromBase64 ed25519Text).mapError ("malformed ed25519 key: " ++ ·)
  let curve25519Text ← (parsed.keys.lookup ("curve25519:" ++ deviceId.value)).elim
    (.error "missing the device's own curve25519 key") .ok
  let curve25519 ← (crypto.curve25519FromBase64 curve25519Text).mapError
    ("malformed curve25519 key: " ++ ·)
  (crypto.verifyJsonSignature raw userId.value keyId ed25519).mapError
    ("self-signature failed to verify: " ++ ·)
  return { userId, deviceId, curve25519, ed25519, blocked := false
           algorithms := parsed.algorithms, displayName := parsed.displayName, verified := false }

variable {device : TrackedDevice}

theorem DeviceCrypto.verifyDevice_eq_ok {crypto : DeviceCrypto} {userId : UserId}
    {deviceId : DeviceId} {raw : Json} (h : crypto.verifyDevice userId deviceId raw = .ok device) :
    device.key = (userId, deviceId) ∧ device.blocked = false := by
  unfold verifyDevice at h
  simp only [bind, Except.bind, pure, Except.pure] at h
  repeat' (split at h <;> try cases h)
  exact ⟨rfl, rfl⟩

inductive DeviceVerdict where
  | accepted
  | keyChanged
  | dropped (reason : String)
deriving DecidableEq, Repr

/-- What becomes of a device that a response lists: `known` is its record so far. -/
def mergeDevice (known : Option TrackedDevice) :
    Except String TrackedDevice → Option TrackedDevice × DeviceVerdict
  | .ok candidate =>
    match known with
    | some known =>
      if known.identity ≠ candidate.identity then
        (some { candidate with verified := false, blocked := known.blocked }, .keyChanged)
      else (some { candidate with verified := known.verified, blocked := known.blocked }, .accepted)
    | none => (some { candidate with verified := true }, .accepted)
  | .error reason => (known, .dropped reason)

/-- A device that stays on the list keeps its block, and if it is trusted it was so with the same
keys; a device that is new on the list is trusted. -/
theorem mergeDevice_eq_some {known : Option TrackedDevice} {verdict : Except String TrackedDevice}
    (h : (mergeDevice known verdict).1 = some device) :
    (∃ stored, known = some stored ∧ stored.blocked = device.blocked ∧
      (device.verified = true → stored.verified = true ∧ stored.identity = device.identity) ∧
      (device = stored ∨ ∃ candidate, verdict = .ok candidate ∧ device.key = candidate.key)) ∨
    ∃ candidate, known = none ∧ verdict = .ok candidate ∧
      device = { candidate with verified := true } := by
  cases verdict with
  | error reason => exact .inl ⟨device, h, rfl, fun hverified => ⟨hverified, rfl⟩, .inl rfl⟩
  | ok candidate =>
    cases known with
    | none =>
      cases h
      exact .inr ⟨candidate, rfl, rfl, rfl⟩
    | some stored =>
      simp only [mergeDevice] at h
      split_ifs at h with hchanged
      · cases h
        exact .inl ⟨stored, rfl, rfl, nofun, .inr ⟨candidate, rfl, rfl⟩⟩
      · cases h
        exact .inl ⟨stored, rfl, rfl, fun hverified => ⟨hverified, not_not.1 hchanged⟩,
          .inr ⟨candidate, rfl, rfl⟩⟩

/-! ### Lists -/

/-- `device_keys` of a response. -/
abbrev KeysQueryBody := BTreeMap UserId (BTreeMap DeviceId Json)

structure KeysQueryOutcome where
  resolvedUsers : List UserId := []
  verdicts : List ((UserId × DeviceId) × DeviceVerdict) := []
deriving Repr

/-- The device lists and, of each tracked user, whether the list is outdated. -/
structure DeviceStore where
  devices : BTreeMap UserId (List TrackedDevice) := ∅
  trackedUsers : BTreeMap UserId Bool := ∅

namespace DeviceStore

def devicesForUser (store : DeviceStore) (userId : UserId) : List TrackedDevice :=
  store.devices[userId]?.getD []

def markUserTracked (store : DeviceStore) (userId : UserId) (outdated : Bool) : DeviceStore :=
  { store with trackedUsers := store.trackedUsers.insert userId outdated }

def saveDevices (store : DeviceStore) (userId : UserId) (devices : List TrackedDevice) :
    DeviceStore :=
  { store with devices := store.devices.insert userId devices }

/-- The `device_lists` of a sync. Somebody who left is not asked for again. -/
def onDeviceLists (store : DeviceStore) (changed left : List UserId) : DeviceStore :=
  let marked := changed.foldl (fun store userId => store.markUserTracked userId true) store
  (left.filter fun userId => marked.trackedUsers.contains userId).foldl
    (fun store userId => store.markUserTracked userId false) marked

def outdatedTrackedUsers (store : DeviceStore) : List UserId :=
  (store.trackedUsers.filter fun _ outdated => outdated).keys

/-- The device of the list, if there is one. -/
def known (store : DeviceStore) (userId : UserId) (deviceId : DeviceId) : Option TrackedDevice :=
  (store.devicesForUser userId).find? fun device => device.deviceId = deviceId

/-- The devices of a user that a response lists, with what becomes of each. -/
def mergeUser (crypto : DeviceCrypto) (store : DeviceStore) (userId : UserId)
    (devicesById : BTreeMap DeviceId Json) :
    List (DeviceId × Option TrackedDevice × DeviceVerdict) :=
  devicesById.toList.map fun entry =>
    (entry.1, mergeDevice (store.known userId entry.1)
      (crypto.verifyDevice userId entry.1 entry.2))

/-- One user of a response: the list becomes what the response lists. -/
def resolveUser (crypto : DeviceCrypto) (store : DeviceStore)
    (entry : UserId × BTreeMap DeviceId Json) : DeviceStore :=
  (store.saveDevices entry.1 ((store.mergeUser crypto entry.1 entry.2).filterMap
    (·.2.1))).markUserTracked entry.1 false

def onKeysQueryResponse (crypto : DeviceCrypto) (store : DeviceStore) (body : KeysQueryBody) :
    DeviceStore × KeysQueryOutcome :=
  body.toList.foldl (fun resolved entry =>
    (resolved.1.resolveUser crypto entry,
      { resolvedUsers := resolved.2.resolvedUsers ++ [entry.1]
        verdicts := resolved.2.verdicts ++
          (resolved.1.mergeUser crypto entry.1 entry.2).map fun device =>
            ((entry.1, device.1), device.2.2) })) (store, {})

/-- The user verifies or blocks a device of a list. -/
def updateDevice (store : DeviceStore) (userId : UserId) (deviceId : DeviceId)
    (f : TrackedDevice → TrackedDevice) : DeviceStore :=
  store.saveDevices userId ((store.devicesForUser userId).map fun device =>
    if device.deviceId = deviceId then f device else device)

end DeviceStore

/-! ### What was stored before -/

inductive DeviceEvent where
  | saved (device : TrackedDevice)
  | verified (key : UserId × DeviceId)
deriving DecidableEq

/-- Of all that was stored before under its identifier: if it was blocked, this device is, and if
its keys were others, this device is trusted only because the user verified it since. -/
def Follows (log : List DeviceEvent) (device : TrackedDevice) : Prop :=
  ∀ first earlier rest, log = first ++ .saved earlier :: rest → earlier.key = device.key →
    (earlier.blocked = true → device.blocked = true) ∧
      (device.verified = true → earlier.identity ≠ device.identity →
        .verified device.key ∈ rest)

def DeviceEvent.Respects (log : List DeviceEvent) : DeviceEvent → Prop
  | .saved device => Follows log device
  | .verified _ => True

/-- Blocks stay and changed keys are not trusted. -/
abbrev Respected (log : List DeviceEvent) : Prop := Trace.Always DeviceEvent.Respects log

/-- The device is the last one stored under its identifier. -/
def Latest (log : List DeviceEvent) (device : TrackedDevice) : Prop :=
  ∃ before after, log = before ++ .saved device :: after ∧
    ∀ other, .saved other ∈ after → other.key ≠ device.key

section Log

variable {log : List DeviceEvent} {device stored : TrackedDevice}

/-- What is stored in place of the latest record with the same block, and with the same keys if it
is trusted, follows all that came before. -/
theorem Respected.follows_latest (h : Respected log) (hlatest : Latest log stored)
    (hkey : stored.key = device.key) (hblocked : stored.blocked = true → device.blocked = true)
    (hverified : device.verified = true →
      stored.verified = true ∧ stored.identity = device.identity) : Follows log device := by
  obtain ⟨before, after, rfl, hafter⟩ := hlatest
  intro first earlier rest heq hearlier
  obtain ⟨middle, rfl, hbefore⟩ | ⟨more, hfirst, hrest⟩ := Trace.append_eq_cut heq
  · -- it was stored before the latest record
    obtain ⟨hblock, htrust⟩ := h _ _ _ rfl first earlier middle hbefore (hearlier.trans hkey.symm)
    refine ⟨fun hearlier => hblocked (hblock hearlier), fun htrusted hne => ?_⟩
    obtain ⟨hstored, hsame⟩ := hverified htrusted
    exact List.mem_append_left _ (hkey ▸ htrust hstored (hsame ▸ hne))
  · cases more with
    | nil =>
      -- it is the latest record
      obtain ⟨hsaved, rfl⟩ := List.cons.inj hrest
      cases hsaved
      exact ⟨hblocked, fun htrusted hne => absurd (hverified htrusted).2 hne⟩
    | cons event more =>
      obtain ⟨rfl, hafter'⟩ := List.cons.inj hrest
      refine absurd (hearlier.trans hkey.symm) (hafter earlier ?_)
      simp [hafter']

/-- What is stored under other identifiers does not matter. -/
theorem follows_append {new : List TrackedDevice} (hnew : ∀ other ∈ new, other.key ≠ device.key) :
    Follows (log ++ new.map .saved) device ↔ Follows log device := by
  constructor
  · intro h first earlier rest heq hkey
    obtain ⟨hblock, htrust⟩ := h first earlier (rest ++ new.map .saved) (by simp [heq]) hkey
    exact ⟨hblock, fun htrusted hne => by simpa using htrust htrusted hne⟩
  · intro h first earlier rest heq hkey
    obtain ⟨middle, rfl, hlog⟩ | ⟨more, -, hrest⟩ := Trace.append_eq_cut heq
    · obtain ⟨hblock, htrust⟩ := h first earlier middle hlog hkey
      exact ⟨hblock, fun htrusted hne => List.mem_append_left _ (htrust htrusted hne)⟩
    · have hmem : DeviceEvent.saved earlier ∈ new.map DeviceEvent.saved := by simp [hrest]
      obtain ⟨other, hother, heq'⟩ := List.mem_map.1 hmem
      cases heq'
      exact absurd hkey (hnew earlier hother)

/-- A list of different devices is stored. -/
theorem respected_append {new : List TrackedDevice} (hkeys : (new.map (·.key)).Nodup) :
    Respected (log ++ new.map .saved) ↔ Respected log ∧ ∀ device ∈ new, Follows log device := by
  induction new using List.reverseRecOn with
  | nil => simp
  | append_singleton new device ih =>
    rw [List.map_append, List.nodup_append] at hkeys
    obtain ⟨hnodup, -, hdisjoint⟩ := hkeys
    have hother : ∀ other ∈ new, other.key ≠ device.key := fun other hother =>
      hdisjoint _ (List.mem_map_of_mem hother) _ (by simp)
    have hsnoc : Respected (log ++ new.map .saved ++ [.saved device]) ↔
        Respected (log ++ new.map .saved) ∧ Follows (log ++ new.map .saved) device :=
      ⟨fun h => ⟨h.of_append, h _ _ [] rfl⟩, fun h => h.1.snoc h.2⟩
    rw [List.map_append, ← List.append_assoc, List.map_singleton, hsnoc, ih hnodup,
      follows_append hother, and_assoc]
    simp [or_imp, forall_and]

theorem Latest.append {new : List TrackedDevice} (h : Latest log device)
    (hnew : ∀ other ∈ new, other.key ≠ device.key) : Latest (log ++ new.map .saved) device := by
  obtain ⟨before, after, rfl, hafter⟩ := h
  refine ⟨before, after ++ new.map .saved, by simp, fun other hother => ?_⟩
  obtain hold | hmem := List.mem_append.1 hother
  · exact hafter other hold
  · obtain ⟨found, hfound, heq⟩ := List.mem_map.1 hmem
    cases heq
    exact hnew other hfound

theorem latest_of_mem {new : List TrackedDevice} (hkeys : (new.map (·.key)).Nodup)
    (hdevice : device ∈ new) : Latest (log ++ new.map .saved) device := by
  obtain ⟨front, back, rfl⟩ := List.append_of_mem hdevice
  refine ⟨log ++ front.map .saved, back.map .saved, by simp, fun other hother heq => ?_⟩
  obtain ⟨found, hfound, heq'⟩ := List.mem_map.1 hother
  cases heq'
  rw [List.map_append, List.map_cons, List.nodup_append, List.nodup_cons] at hkeys
  exact hkeys.2.1.1 (heq ▸ List.mem_map_of_mem hfound)

theorem Latest.verified (h : Latest log device) (key : UserId × DeviceId) :
    Latest (log ++ [.verified key]) device := by
  obtain ⟨before, after, rfl, hafter⟩ := h
  exact ⟨before, after ++ [.verified key], by simp, by simpa using hafter⟩

/-- The user's word comes after all that was stored. -/
theorem Respected.follows_verified (h : Respected log) (hlatest : Latest log device)
    {key : UserId × DeviceId} (hkey : device.key = key) :
    Follows (log ++ [.verified key]) { device with verified := true } := by
  intro first earlier rest heq hearlier
  obtain ⟨middle, rfl, hlog⟩ | ⟨more, -, hrest⟩ := Trace.append_eq_cut heq
  · have hfollows : Follows log device :=
      h.follows_latest hlatest rfl id fun hverified => ⟨hverified, rfl⟩
    refine ⟨(hfollows first earlier middle hlog hearlier).1, fun _ _ => ?_⟩
    exact List.mem_append_right _ (List.mem_singleton.2 (congrArg DeviceEvent.verified hkey))
  · cases more with
    | nil => cases hrest
    | cons event more =>
      obtain ⟨-, hnil⟩ := List.cons.inj hrest
      simp at hnil

/-- A device that is trusted although no record of it is there: none of those before was blocked,
and each had its keys, or the user verified it since. -/
def Admits (log : List DeviceEvent) (device : TrackedDevice) : Prop :=
  ∀ first earlier rest, log = first ++ .saved earlier :: rest → earlier.key = device.key →
    earlier.blocked = false ∧
      (earlier.identity = device.identity ∨ .verified device.key ∈ rest)

theorem follows_iff_admits (hblocked : device.blocked = false) :
    Follows log { device with verified := true } ↔ Admits log device := by
  refine forall₅_congr fun first earlier rest _ _ => and_congr ?_ ?_
  · simp [hblocked]
  · simp [TrackedDevice.identity, StoredDevice.key, or_iff_not_imp_left]

end Log

/-! ### Runs -/

structure ListHistory where
  store : DeviceStore := {}
  log : List DeviceEvent := []

inductive ListAction where
  | deviceLists (changed left : List UserId)
  /-- One user of a response. -/
  | resolve (userId : UserId) (devicesById : BTreeMap DeviceId Json)
  | verify (userId : UserId) (deviceId : DeviceId)
  | block (userId : UserId) (deviceId : DeviceId)

namespace ListHistory

/-- The device list of the user is stored anew. -/
def saved (h : ListHistory) (userId : UserId) (store : DeviceStore) : ListHistory :=
  { store, log := h.log ++ (store.devicesForUser userId).map .saved }

def step (crypto : DeviceCrypto) (h : ListHistory) : ListAction → ListHistory
  | .deviceLists changed left => { h with store := h.store.onDeviceLists changed left }
  | .resolve userId devicesById =>
    h.saved userId (h.store.resolveUser crypto (userId, devicesById))
  | .verify userId deviceId =>
    if (h.store.known userId deviceId).isSome then
      ListHistory.saved { h with log := h.log ++ [.verified (userId, deviceId)] } userId
        (h.store.updateDevice userId deviceId fun device => { device with verified := true })
    else h
  | .block userId deviceId => h.saved userId
      (h.store.updateDevice userId deviceId fun device => { device with blocked := true })

/-- The devices of a list are the user's, different from each other, and the latest stored. -/
structure Consistent (h : ListHistory) : Prop where
  owner {userId : UserId} {device : TrackedDevice} :
    device ∈ h.store.devicesForUser userId → device.userId = userId
  nodup (userId : UserId) : ((h.store.devicesForUser userId).map (·.deviceId)).Nodup
  latest {userId : UserId} {device : TrackedDevice} :
    device ∈ h.store.devicesForUser userId → Latest h.log device

/-- A device that is on no list is trusted at first sight only if no record of it was blocked or
had other keys. -/
def Remembers (crypto : DeviceCrypto) (h : ListHistory) : ListAction → Prop
  | .resolve userId devicesById => ∀ entry ∈ devicesById.toList, ∀ candidate,
      crypto.verifyDevice userId entry.1 entry.2 = .ok candidate →
        h.store.known userId entry.1 = none → Admits h.log candidate
  | _ => True

section

variable {crypto : DeviceCrypto} {h : ListHistory} {userId : UserId} {deviceId : DeviceId}

theorem devicesForUser_saveDevices (store : DeviceStore) (userId other : UserId)
    (devices : List TrackedDevice) :
    (store.saveDevices userId devices).devicesForUser other =
      if userId = other then devices else store.devicesForUser other := by
  unfold DeviceStore.devicesForUser DeviceStore.saveDevices
  rw [Std.ExtTreeMap.getElem?_insert]
  by_cases heq : userId = other <;> simp [heq]

theorem devicesForUser_onDeviceLists (store : DeviceStore) (changed left : List UserId)
    (userId : UserId) :
    (store.onDeviceLists changed left).devicesForUser userId = store.devicesForUser userId := by
  have hmarks (outdated : Bool) (userIds : List UserId) (store : DeviceStore) :
      (userIds.foldl (fun store userId => store.markUserTracked userId outdated) store).devices =
        store.devices := by
    induction userIds generalizing store with
    | nil => rfl
    | cons userId rest ih => exact ih _
  unfold DeviceStore.devicesForUser DeviceStore.onDeviceLists
  rw [hmarks, hmarks]

theorem nodup_keys {devices : List TrackedDevice}
    (howner : ∀ device ∈ devices, device.userId = userId)
    (hnodup : (devices.map (·.deviceId)).Nodup) : (devices.map (·.key)).Nodup := by
  have hkeys : devices.map (·.key) = (devices.map (·.deviceId)).map (userId, ·) := by
    rw [List.map_map]
    exact List.map_congr_left fun device hdevice =>
      by simp [StoredDevice.key, howner device hdevice]
  rw [hkeys]
  exact hnodup.map fun _ _ heq => (Prod.mk.inj heq).2

variable {store : DeviceStore} {f : TrackedDevice → TrackedDevice} {device : TrackedDevice}

/-- A list of different devices of the user is stored. -/
theorem Consistent.saved (hc : Consistent h)
    (hothers : ∀ other, other ≠ userId → store.devicesForUser other = h.store.devicesForUser other)
    (howner : ∀ device ∈ store.devicesForUser userId, device.userId = userId)
    (hnodup : ((store.devicesForUser userId).map (·.deviceId)).Nodup) :
    Consistent (h.saved userId store) := by
  refine ⟨fun {other device} hdevice => ?_, fun other => ?_, fun {other device} hdevice => ?_⟩
  · by_cases heq : other = userId
    · exact heq ▸ howner device (heq ▸ hdevice)
    · exact hc.owner (hothers other heq ▸ hdevice)
  · by_cases heq : other = userId
    · exact heq ▸ hnodup
    · exact (hothers other heq).symm ▸ hc.nodup other
  · by_cases heq : other = userId
    · exact latest_of_mem (nodup_keys howner hnodup) (heq ▸ hdevice)
    · have hold : device ∈ h.store.devicesForUser other := hothers other heq ▸ hdevice
      refine (hc.latest hold).append fun new hnew hkey => heq ?_
      rw [← hc.owner hold, ← howner new hnew]
      exact (Prod.mk.inj hkey).1.symm

theorem Consistent.respected_saved (hrespected : Respected h.log)
    (howner : ∀ device ∈ store.devicesForUser userId, device.userId = userId)
    (hnodup : ((store.devicesForUser userId).map (·.deviceId)).Nodup) :
    Respected (h.saved userId store).log ↔
      ∀ device ∈ store.devicesForUser userId, Follows h.log device :=
  (respected_append (nodup_keys howner hnodup)).trans (and_iff_right hrespected)

/-! The user verifies or blocks a device. -/

theorem devicesForUser_updateDevice (store : DeviceStore) (f : TrackedDevice → TrackedDevice) :
    (store.updateDevice userId deviceId f).devicesForUser userId =
      (store.devicesForUser userId).map fun device =>
        if device.deviceId = deviceId then f device else device := by
  simp [DeviceStore.updateDevice, devicesForUser_saveDevices]

/-- Changing only marks of a device of the list. -/
theorem Consistent.updated (hc : Consistent h) (hkey : ∀ device, (f device).key = device.key) :
    (∀ device ∈ (h.store.updateDevice userId deviceId f).devicesForUser userId,
      device.userId = userId) ∧
    (((h.store.updateDevice userId deviceId f).devicesForUser userId).map (·.deviceId)).Nodup := by
  have hsame (device : TrackedDevice) :
      (if device.deviceId = deviceId then f device else device).key = device.key := by
    split_ifs
    · exact hkey device
    · rfl
  rw [devicesForUser_updateDevice]
  refine ⟨?_, ?_⟩
  · simp only [List.forall_mem_map]
    exact fun device hdevice => (congrArg Prod.fst (hsame device)).trans (hc.owner hdevice)
  · rw [List.map_map]
    have hids : (h.store.devicesForUser userId).map ((·.deviceId) ∘ fun device =>
        if device.deviceId = deviceId then f device else device) =
          (h.store.devicesForUser userId).map (·.deviceId) :=
      List.map_congr_left fun device _ => congrArg Prod.snd (hsame device)
    exact hids ▸ hc.nodup userId

/-! One user of a response. -/

theorem devicesForUser_resolveUser_of_ne (store : DeviceStore) (crypto : DeviceCrypto)
    (devicesById : BTreeMap DeviceId Json) {other : UserId} (hother : other ≠ userId) :
    (store.resolveUser crypto (userId, devicesById)).devicesForUser other =
      store.devicesForUser other :=
  (devicesForUser_saveDevices ..).trans (if_neg (Ne.symm hother))

theorem devicesForUser_resolveUser (store : DeviceStore) (crypto : DeviceCrypto) (userId : UserId)
    (devicesById : BTreeMap DeviceId Json) :
    (store.resolveUser crypto (userId, devicesById)).devicesForUser userId =
      (store.mergeUser crypto userId devicesById).filterMap (·.2.1) :=
  (devicesForUser_saveDevices ..).trans (if_pos rfl)

theorem mem_devicesForUser_of_known {stored : TrackedDevice}
    (h : store.known userId deviceId = some stored) :
    stored ∈ store.devicesForUser userId ∧ stored.deviceId = deviceId :=
  ⟨List.mem_of_find?_eq_some h, by simpa using List.find?_some h⟩

theorem mem_mergeUser {devicesById : BTreeMap DeviceId Json} :
    device ∈ (store.mergeUser crypto userId devicesById).filterMap (·.2.1) ↔
      ∃ entry ∈ devicesById.toList, (mergeDevice (store.known userId entry.1)
        (crypto.verifyDevice userId entry.1 entry.2)).1 = some device := by
  simp [DeviceStore.mergeUser, List.mem_filterMap]

theorem Consistent.key_mergeDevice (hc : Consistent h) {raw : Json}
    (hdevice : (mergeDevice (h.store.known userId deviceId)
      (crypto.verifyDevice userId deviceId raw)).1 = some device) :
    device.key = (userId, deviceId) := by
  obtain ⟨stored, hknown, -, -, rfl | ⟨candidate, hcandidate, hkey⟩⟩ |
      ⟨candidate, -, hcandidate, rfl⟩ := mergeDevice_eq_some hdevice
  · obtain ⟨hmem, hid⟩ := mem_devicesForUser_of_known hknown
    exact Prod.ext (hc.owner hmem) hid
  · exact hkey.trans (DeviceCrypto.verifyDevice_eq_ok hcandidate).1
  · exact (DeviceCrypto.verifyDevice_eq_ok hcandidate).1

theorem map_filterMap_sublist {α β γ : Type} {f : α → Option β} {g : β → γ} {key : α → γ}
    {items : List α} (hkey : ∀ item ∈ items, ∀ found, f item = some found → g found = key item) :
    ((items.filterMap f).map g).Sublist (items.map key) := by
  induction items with
  | nil => exact List.Sublist.slnil
  | cons item rest ih =>
    have ih := ih fun other hother => hkey other (List.mem_cons_of_mem _ hother)
    cases hitem : f item with
    | none =>
      rw [List.filterMap_cons_none hitem]
      exact ih.cons _
    | some found =>
      rw [List.filterMap_cons_some hitem, List.map_cons, List.map_cons,
        hkey item List.mem_cons_self found hitem]
      exact ih.cons_cons _

theorem Consistent.merged (hc : Consistent h) (crypto : DeviceCrypto) (userId : UserId)
    (devicesById : BTreeMap DeviceId Json) :
    (∀ device ∈ (h.store.resolveUser crypto (userId, devicesById)).devicesForUser userId,
      device.userId = userId) ∧
    (((h.store.resolveUser crypto (userId, devicesById)).devicesForUser userId).map
      (·.deviceId)).Nodup := by
  rw [devicesForUser_resolveUser]
  refine ⟨fun device hdevice => ?_, ?_⟩
  · obtain ⟨entry, -, hmerged⟩ := mem_mergeUser.1 hdevice
    exact (Prod.mk.inj (hc.key_mergeDevice hmerged)).1
  · have hids : (devicesById.toList.map Prod.fst).Nodup :=
      List.pairwise_map.2 devicesById.toList_pairwise_ne
    refine List.Nodup.sublist ?_ hids
    rw [DeviceStore.mergeUser, List.filterMap_map]
    refine map_filterMap_sublist fun entry _ device hdevice => ?_
    exact (Prod.mk.inj (hc.key_mergeDevice hdevice)).2

/-- The devices that a response lists follow what was stored exactly if those that are new on the
list do. -/
theorem Consistent.follows_merged (hc : Consistent h) (hrespected : Respected h.log)
    (devicesById : BTreeMap DeviceId Json) :
    (∀ device ∈ (h.store.resolveUser crypto (userId, devicesById)).devicesForUser userId,
      Follows h.log device) ↔ h.Remembers crypto (.resolve userId devicesById) := by
  rw [devicesForUser_resolveUser]
  constructor
  · intro hfollows entry hentry candidate hcandidate hknown
    refine (follows_iff_admits (DeviceCrypto.verifyDevice_eq_ok hcandidate).2).1 (hfollows _ ?_)
    refine mem_mergeUser.2 ⟨entry, hentry, ?_⟩
    rw [hknown, hcandidate]
    rfl
  · intro hremembers device hdevice
    obtain ⟨entry, hentry, hmerged⟩ := mem_mergeUser.1 hdevice
    have hkey := hc.key_mergeDevice hmerged
    obtain ⟨stored, hknown, hblocked, hverified, -⟩ | ⟨candidate, hknown, hcandidate, rfl⟩ :=
      mergeDevice_eq_some hmerged
    · obtain ⟨hmem, hid⟩ := mem_devicesForUser_of_known hknown
      have hkey' : stored.key = device.key := (Prod.ext (hc.owner hmem) hid).trans hkey.symm
      exact hrespected.follows_latest (hc.latest hmem) hkey' (fun h => hblocked ▸ h) hverified
    · exact (follows_iff_admits (DeviceCrypto.verifyDevice_eq_ok hcandidate).2).2
        (hremembers entry hentry candidate hcandidate hknown)

/-! Steps. -/

section

variable (hc : Consistent h)

include hc

theorem Consistent.verifiedEvent (key : UserId × DeviceId) :
    Consistent { h with log := h.log ++ [.verified key] } :=
  ⟨hc.owner, hc.nodup, fun hdevice => (hc.latest hdevice).verified key⟩

theorem Consistent.update (hkey : ∀ device, (f device).key = device.key) :
    Consistent (h.saved userId (h.store.updateDevice userId deviceId f)) := by
  obtain ⟨howner, hnodup⟩ := hc.updated hkey
  refine hc.saved (fun other hother => ?_) howner hnodup
  simp [DeviceStore.updateDevice, devicesForUser_saveDevices, Ne.symm hother]

theorem Consistent.step (action : ListAction) :
    Consistent (h.step crypto action) := by
  cases action with
  | deviceLists changed left =>
    have hsame := devicesForUser_onDeviceLists h.store changed left
    exact ⟨fun hdevice => hc.owner (hsame _ ▸ hdevice), fun userId => (hsame _).symm ▸ hc.nodup _,
      fun hdevice => hc.latest (hsame _ ▸ hdevice)⟩
  | resolve userId devicesById =>
    obtain ⟨howner, hnodup⟩ := hc.merged crypto userId devicesById
    exact hc.saved (fun other => devicesForUser_resolveUser_of_ne _ crypto _) howner hnodup
  | verify userId deviceId =>
    simp only [ListHistory.step]
    split_ifs
    · exact (hc.verifiedEvent _).update fun _ => rfl
    · exact hc
  | block userId deviceId => exact hc.update fun _ => rfl

theorem Consistent.respected_update (hrespected : Respected h.log)
    (hkey : ∀ device, (f device).key = device.key)
    (hf : ∀ device ∈ h.store.devicesForUser userId, device.deviceId = deviceId →
      Follows h.log (f device)) :
    Respected (h.saved userId (h.store.updateDevice userId deviceId f)).log := by
  obtain ⟨howner, hnodup⟩ := hc.updated hkey
  refine (Consistent.respected_saved hrespected howner hnodup).2 ?_
  rw [devicesForUser_updateDevice]
  simp only [List.forall_mem_map]
  intro device hdevice
  split_ifs with hid
  · exact hf device hdevice hid
  · exact hrespected.follows_latest (hc.latest hdevice) rfl id fun hverified => ⟨hverified, rfl⟩

/-- A step keeps blocks and distrust exactly if it remembers the devices it trusts at first
sight. -/
theorem Consistent.respected_step_iff (hrespected : Respected h.log) (action : ListAction) :
    Respected (h.step crypto action).log ↔ h.Remembers crypto action := by
  cases action with
  | deviceLists changed left => exact iff_of_true hrespected trivial
  | resolve userId devicesById =>
    obtain ⟨howner, hnodup⟩ := hc.merged crypto userId devicesById
    exact (Consistent.respected_saved hrespected howner hnodup).trans
      (hc.follows_merged hrespected devicesById)
  | verify userId deviceId =>
    refine iff_of_true ?_ trivial
    simp only [ListHistory.step]
    split_ifs
    · refine (hc.verifiedEvent _).respected_update (hrespected.snoc trivial) (fun _ => rfl) ?_
      intro device hdevice hid
      have hkey : device.key = (userId, deviceId) := Prod.ext (hc.owner hdevice) hid
      exact hrespected.follows_verified (hc.latest hdevice) hkey
    · exact hrespected
  | block userId deviceId =>
    refine iff_of_true (hc.respected_update hrespected (fun _ => rfl) ?_) trivial
    intro device hdevice _
    exact hrespected.follows_latest (hc.latest hdevice) rfl (fun _ => rfl)
      fun hverified => ⟨hverified, rfl⟩

end

end

theorem consistent_empty : Consistent {} :=
  ⟨by simp [DeviceStore.devicesForUser], by simp [DeviceStore.devicesForUser],
    by simp [DeviceStore.devicesForUser]⟩

/-- Blocks stay and changed keys are not trusted along exactly those runs in which no device that
was blocked, or had other keys, is met again as one that was never seen. -/
theorem respected_iff_meets (crypto : DeviceCrypto) (actions : List ListAction) :
    Trace.Throughout (step crypto) (Respected ·.log) {} actions ↔
      Trace.Meets (step crypto) (Remembers crypto) {} actions :=
  Trace.throughout_iff_meets (fun _ action _ hc => Consistent.step hc action)
    (fun _ action _ hc hrespected => hc.respected_step_iff hrespected action)
    (fun _ _ => trivial) consistent_empty Trace.always_nil

/-- Everything is signed well. -/
def trustingCrypto : DeviceCrypto := ⟨.ok, .ok, fun _ _ _ _ => .ok ()⟩

def bobsKeys (curve25519 : String) : BTreeMap DeviceId Json :=
  (∅ : BTreeMap DeviceId Json).insert ⟨"BOB1"⟩ (.obj [("user_id", .str "@bob:a"),
    ("device_id", .str "BOB1"),
    ("keys", .obj [("ed25519:BOB1", .str "ed"), ("curve25519:BOB1", .str curve25519)])])

/-- Bob's device is blocked; one response leaves it out, and the next one lists it with another
key. -/
def leftOut : List ListAction :=
  [.resolve ⟨"@bob:a"⟩ (bobsKeys "one"), .block ⟨"@bob:a"⟩ ⟨"BOB1"⟩, .resolve ⟨"@bob:a"⟩ ∅,
    .resolve ⟨"@bob:a"⟩ (bobsKeys "two")]

def bobsRecord (curve25519 : String) (blocked : Bool) : TrackedDevice where
  userId := ⟨"@bob:a"⟩
  deviceId := ⟨"BOB1"⟩
  curve25519 := curve25519
  ed25519 := "ed"
  blocked := blocked
  algorithms := []
  displayName := none
  verified := true

/-- The device is neither blocked nor distrusted. -/
theorem not_respected_leftOut :
    (Trace.run (step trustingCrypto) {} leftOut).log = [.saved (bobsRecord "one" false),
        .saved (bobsRecord "one" true), .saved (bobsRecord "two" false)] ∧
      ¬ Trace.Throughout (step trustingCrypto) (Respected ·.log) {} leftOut := by
  have hlog : (Trace.run (step trustingCrypto) {} leftOut).log =
      [.saved (bobsRecord "one" false), .saved (bobsRecord "one" true),
        .saved (bobsRecord "two" false)] := by decide +kernel
  refine ⟨hlog, fun h => ?_⟩
  have hlast := h.last
  rw [hlog] at hlast
  obtain ⟨hblocked, -⟩ := hlast [_, _] _ [] rfl [_] _ [] rfl rfl
  exact absurd (hblocked rfl) (by decide)

end ListHistory

end Messenger
