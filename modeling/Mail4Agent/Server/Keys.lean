import Mail4Agent.Foundation.Text
import Mail4Agent.Foundation.Trace
import Mail4Agent.Server.Writes

/-!
# Uploading and claiming device keys

A device uploads its identity keys, a batch of one-time keys and a fallback key for
each algorithm. A claim takes the one-time key with the lowest id out of the store, or
hands out the fallback key, which stays, when none is left.

`Ledger` records the one-time keys that claims have returned along a run of uploads and
claims. The store alone cannot tell a key that was claimed from one it has never seen,
so a key is returned at most once only as long as no upload carries it again.
-/

namespace Server

open Transaction

namespace Db

variable (db : Db)

def deviceKeysFor (userId : Int) (deviceId : String) : Option DeviceKeys :=
  db.deviceKeys.find? fun row => row.userId = userId ∧ row.deviceId = deviceId

def oneTimeKey (userId : Int) (deviceId keyId : String) : Option OneTimeKey :=
  db.oneTimeKeys.find? fun row =>
    row.userId = userId ∧ row.deviceId = deviceId ∧ row.keyId = keyId

def lowestOneTimeKey (userId : Int) (deviceId algorithm : String) : Option OneTimeKey :=
  (Page.select OneTimeKey.keyId 1 (db.oneTimeKeys.filter fun row =>
    row.userId = userId ∧ row.deviceId = deviceId ∧ row.algorithm = algorithm)).head?

def fallbackKey (userId : Int) (deviceId algorithm : String) : Option FallbackKey :=
  db.fallbackKeys.find? fun row =>
    row.userId = userId ∧ row.deviceId = deviceId ∧ row.algorithm = algorithm

def countOneTimeKeys (userId : Int) (deviceId : String) : List (String × Nat) :=
  let algorithms := (db.oneTimeKeys.filter fun row =>
    row.userId = userId ∧ row.deviceId = deviceId).map OneTimeKey.algorithm
  algorithms.dedup.map fun algorithm => (algorithm, algorithms.count algorithm)

end Db

namespace Keys

/-! ### The key tables -/

def upsertDeviceKeys (row : DeviceKeys) : Tx Unit := do
  .change fun db => { db with deviceKeys := (db.deviceKeys.filter fun other =>
    ¬ (other.userId = row.userId ∧ other.deviceId = row.deviceId)) ++ [row] }
  let streamId ← Store.nextStreamId
  .change fun db => { db with
    deviceListChanges := db.deviceListChanges ++ [{ streamId, userId := row.userId }] }

def clearDeviceOneTimeMaterial (userId : Int) (deviceId : String) : Request Unit := do
  .commit (.change fun db => { db with oneTimeKeys := db.oneTimeKeys.filter fun row =>
    ¬ (row.userId = userId ∧ row.deviceId = deviceId) })
  .commit (.change fun db => { db with fallbackKeys := db.fallbackKeys.filter fun row =>
    ¬ (row.userId = userId ∧ row.deviceId = deviceId) })

/-- A key id that is stored already is accepted with the same key only. -/
def addOneTimeKey (row : OneTimeKey) : Tx Unit := do
  match ← .query fun db => db.oneTimeKey row.userId row.deviceId row.keyId with
  | none => .change fun db => { db with oneTimeKeys := db.oneTimeKeys ++ [row] }
  | some existing =>
    if existing.keyJson = row.keyJson then return ()
    else .refuse (.invalidParam
      ("One-time key " ++ row.keyId ++ " already exists with different content"))

/-- All of the batch or nothing of it. -/
def addOneTimeKeys (rows : List OneTimeKey) : Tx Unit := Transaction.each addOneTimeKey rows

def upsertFallbackKey (row : FallbackKey) : Tx Unit :=
  .change fun db => { db with fallbackKeys := (db.fallbackKeys.filter fun other =>
    ¬ (other.userId = row.userId ∧ other.deviceId = row.deviceId ∧
      other.algorithm = row.algorithm)) ++ [row] }

/-- What a claim hands out. -/
inductive ClaimedKey where
  | oneTime (row : OneTimeKey)
  | fallback (row : FallbackKey)
deriving DecidableEq, Repr

namespace ClaimedKey

def keyId : ClaimedKey → String
  | oneTime row => row.keyId
  | fallback row => row.keyId

def keyJson : ClaimedKey → String
  | oneTime row => row.keyJson
  | fallback row => row.keyJson

end ClaimedKey

def claimOneTimeKey (userId : Int) (deviceId algorithm : String) : Tx (Option ClaimedKey) := do
  match ← .query fun db => db.lowestOneTimeKey userId deviceId algorithm with
  | some row =>
    .change fun db => { db with oneTimeKeys := db.oneTimeKeys.erase row }
    return some (.oneTime row)
  | none =>
    match ← .query fun db => db.fallbackKey userId deviceId algorithm with
    | none => return none
    | some row =>
      .change fun db => { db with fallbackKeys := db.fallbackKeys.map fun other =>
        if other.userId = userId ∧ other.deviceId = deviceId ∧ other.algorithm = algorithm then
          { other with used := true }
        else other }
      return some (.fallback row)

/-! ### `/keys/upload` -/

structure KeysUploadRequest where
  deviceKeys : Option Json := none
  oneTimeKeys : Option (BTreeMap String Json) := none
  fallbackKeys : Option (BTreeMap String Json) := none

def checkDeviceKeysOwnership (deviceKeys : Json) (callerMxid callerDeviceId : String) :
    Except MatrixError Unit :=
  let userId := (deviceKeys.get? "user_id").bind Json.asStr?
  let deviceId := (deviceKeys.get? "device_id").bind Json.asStr?
  if userId ≠ some callerMxid ∨ deviceId ≠ some callerDeviceId then
    .error (.invalidParam "device_keys.user_id/device_id must name the authenticated caller")
  else .ok ()

inductive DeviceKeysUploadAction where
  | insert | noop | reset
deriving DecidableEq, Repr

/-- Only the identity keys are compared. -/
def decideDeviceKeysUpload (cfg : Config) (existingKeysJson : Option String)
    (newKeysValue : Json) : Except MatrixError DeviceKeysUploadAction :=
  match existingKeysJson with
  | none => .ok .insert
  | some text => match cfg.parse text with
    | none => .error (.badJson "Malformed JSON")
    | some existing => .ok (if existing == newKeysValue then .noop else .reset)

def splitAlgorithmKeyId (fullId : String) : Except MatrixError (String × String) :=
  match Text.splitOnce ':' fullId.toList with
  | none => .error (.invalidParam ("malformed one-time key id: " ++ fullId))
  | some (algorithm, keyId) =>
    if algorithm = [] ∨ keyId = [] then
      .error (.invalidParam ("malformed one-time key id: " ++ fullId))
    else .ok (String.ofList algorithm, String.ofList keyId)

structure KeysUploadOutcome where
  otkCounts : List (String × Nat)
  deviceKeysChanged : Bool

section Upload

variable (cfg : Config) (callerUserId : Int) (callerMxid callerDeviceId : String)

/-- The identity part of an upload: whether the identity changed. -/
def applyDeviceKeys (deviceKeys : Json) : Request Bool := do
  .lift (checkDeviceKeysOwnership deviceKeys callerMxid callerDeviceId)
  let newKeysValue := (deviceKeys.get? "keys").getD .null
  let existing ← .query fun db => db.deviceKeysFor callerUserId callerDeviceId
  let action ← .lift (decideDeviceKeysUpload cfg (existing.map DeviceKeys.keys) newKeysValue)
  if action = .noop then return false
  if action = .reset then clearDeviceOneTimeMaterial callerUserId callerDeviceId
  .commit (upsertDeviceKeys
    { userId := callerUserId, deviceId := callerDeviceId
      algorithms := cfg.render ((deviceKeys.get? "algorithms").getD (.arr []))
      keys := cfg.render newKeysValue
      signatures := cfg.render ((deviceKeys.get? "signatures").getD (.obj [])) })
  return true

/-- The row an uploaded one-time key is stored as. -/
def oneTimeKeyRow (entry : String × Json) : Except MatrixError OneTimeKey := do
  let (algorithm, _) ← splitAlgorithmKeyId entry.1
  return { userId := callerUserId, deviceId := callerDeviceId, keyId := entry.1, algorithm
           keyJson := cfg.render entry.2 }

/-- Every id is checked before the batch is written. -/
def applyOneTimeKeys (oneTimeKeys : BTreeMap String Json) : Request Unit := do
  let batch ← .lift (oneTimeKeys.toList.mapM (oneTimeKeyRow cfg callerUserId callerDeviceId))
  .commit (addOneTimeKeys batch)

def applyFallbackKey (entry : String × Json) : Request Unit := do
  let (algorithm, _) ← .lift (splitAlgorithmKeyId entry.1)
  .commit (upsertFallbackKey { userId := callerUserId, deviceId := callerDeviceId, algorithm
                               keyId := entry.1, keyJson := cfg.render entry.2, used := false })

/-- Each fallback key is checked and written on its own. -/
def applyFallbackKeys (fallbackKeys : BTreeMap String Json) : Request Unit := do
  let _ ← Session.each (applyFallbackKey cfg callerUserId callerDeviceId) fallbackKeys.toList

def applyKeysUpload (request : KeysUploadRequest) : Request KeysUploadOutcome := do
  let deviceKeysChanged ← request.deviceKeys.elim (pure false)
    (applyDeviceKeys cfg callerUserId callerMxid callerDeviceId)
  request.oneTimeKeys.elim (pure ()) (applyOneTimeKeys cfg callerUserId callerDeviceId)
  request.fallbackKeys.elim (pure ()) (applyFallbackKeys cfg callerUserId callerDeviceId)
  let otkCounts ← .query fun db => db.countOneTimeKeys callerUserId callerDeviceId
  return { otkCounts, deviceKeysChanged }

end Upload

/-! ### `/keys/claim` -/

structure ClaimedDevice where
  deviceId : String
  key : ClaimedKey
  value : Json

abbrev KeysClaim := BTreeMap String (BTreeMap String String)

section Claim

variable (cfg : Config)

def claimDevice (userId : Int) (target : String × String) : Request (Option ClaimedDevice) := do
  let (deviceId, algorithm) := target
  match ← .commit (claimOneTimeKey userId deviceId algorithm) with
  | none => return none
  | some key =>
    match cfg.parse key.keyJson with
    | none => .lift (.error (.badJson "Malformed JSON"))
    | some value => return some { deviceId, key, value }

def claimUser (visible : Int → Bool) (target : String × BTreeMap String String) :
    Request (String × List ClaimedDevice) := do
  let (mxid, perDevice) := target
  match (← .query fun db => db.userIdOf mxid).filter visible with
  | none => return (mxid, [])
  | some userId =>
    let devices ← Session.each (claimDevice cfg userId) perDevice.toList
    return (mxid, devices.reduceOption)

/-- Users and devices without a key are left out of the response. -/
def buildKeysClaimVisible (visible : Int → Bool) (requested : KeysClaim) :
    Request (List (String × List ClaimedDevice)) := do
  let users ← Session.each (claimUser cfg visible) requested.toList
  return users.filter fun user => ¬ user.2.isEmpty

end Claim

/-! ### One-time keys of the store -/

/-- A one-time key as its users know it: the device, the key id and the key. -/
structure KeyToken where
  userId : Int
  deviceId : String
  keyId : String
  keyJson : String
deriving DecidableEq, Repr

def token (row : OneTimeKey) : KeyToken :=
  { userId := row.userId, deviceId := row.deviceId, keyId := row.keyId, keyJson := row.keyJson }

def stored (db : Db) : List KeyToken := db.oneTimeKeys.map token

/-- The one-time keys an upload carries. -/
def KeysUploadRequest.tokens (request : KeysUploadRequest) (cfg : Config) (callerUserId : Int)
    (callerDeviceId : String) : List KeyToken :=
  (request.oneTimeKeys.elim [] Std.ExtTreeMap.toList).map fun entry =>
    { userId := callerUserId, deviceId := callerDeviceId, keyId := entry.1
      keyJson := cfg.render entry.2 }

/-- A fallback key is handed out without being used up. -/
def ClaimedKey.tokens : ClaimedKey → List KeyToken
  | .oneTime row => [token row]
  | .fallback _ => []

/-- The one-time keys of one user in a response. -/
def userTokens (user : String × List ClaimedDevice) : List KeyToken :=
  user.2.flatMap fun device => device.key.tokens

/-- The one-time keys a claim returns. -/
def responseTokens (response : List (String × List ClaimedDevice)) : List KeyToken :=
  response.flatMap userTokens

/-- Each key stays stored once, and what is new is in `added`. -/
def Restocks (added : List KeyToken) (db db' : Db) : Prop :=
  (stored db).Nodup → (stored db').Nodup ∧ ∀ key ∈ stored db', key ∈ stored db ∨ key ∈ added

section Restocks

variable {added : List KeyToken} {db db' : Db}

instance : Std.Refl (Restocks added) := ⟨fun _ h => ⟨h, fun _ => .inl⟩⟩

instance : IsTrans Db (Restocks added) where
  trans := by
    intro a b c hab hbc ha
    obtain ⟨hb, hab⟩ := hab ha
    obtain ⟨hc, hbc⟩ := hbc hb
    exact ⟨hc, fun key hkey => (hbc key hkey).elim (hab key) .inr⟩

theorem Restocks.of_sublist (h : (db'.oneTimeKeys).Sublist db.oneTimeKeys) :
    Restocks added db db' := by
  have hstored : (stored db').Sublist (stored db) := h.map token
  exact fun hnodup => ⟨hnodup.sublist hstored, fun key hkey => .inl (hstored.subset hkey)⟩

theorem Restocks.of_eq (h : db'.oneTimeKeys = db.oneTimeKeys) : Restocks added db db' :=
  .of_sublist (h ▸ .refl _)

/-- The id of a new key is not in use. -/
theorem addOneTimeKey_restocks {row : OneTimeKey} (hrow : token row ∈ added) :
    (addOneTimeKey row).Keeps (Restocks added) := by
  intro db _ db' h
  simp only [addOneTimeKey, bind_ok, query_ok] at h
  obtain ⟨_, _, ⟨rfl, rfl⟩, h⟩ := h
  cases hexisting : db.oneTimeKey row.userId row.deviceId row.keyId with
  | some existing =>
    simp only [hexisting] at h
    split at h
    · exact .of_eq (by rw [(pure_ok.1 h).2])
    · simp at h
  | none =>
    simp only [hexisting, change_ok] at h
    have hfresh : token row ∉ stored db := by
      intro hmem
      obtain ⟨other, hother, heq⟩ := List.mem_map.1 hmem
      have := List.find?_eq_none.1 hexisting other hother
      simp only [token, KeyToken.mk.injEq] at heq
      simp [heq] at this
    subst h
    intro hnodup
    simp only [stored, List.map_append, List.map_cons, List.map_nil] at hfresh hnodup ⊢
    refine ⟨List.concat_eq_append ▸ hnodup.concat hfresh, fun key hkey => ?_⟩
    rcases List.mem_append.1 hkey with hold | hnew
    · exact .inl hold
    · exact .inr (List.mem_singleton.1 hnew ▸ hrow)

theorem addOneTimeKeys_restocks {rows : List OneTimeKey} (hrows : ∀ row ∈ rows, token row ∈ added) :
    (addOneTimeKeys rows).Keeps (Restocks added) := by
  unfold addOneTimeKeys
  induction rows with
  | nil => exact keeps_pure ()
  | cons row rest ih =>
    obtain ⟨hrow, hrest⟩ := List.forall_mem_cons.1 hrows
    exact (addOneTimeKey_restocks hrow).bind fun _ => ih hrest

theorem upsertDeviceKeys_restocks (row : DeviceKeys) :
    (upsertDeviceKeys row).Keeps (Restocks added) := by
  refine (keeps_change fun _ => .of_eq rfl).bind fun _ => ?_
  have hnext : Store.nextStreamId.Keeps (Restocks added) :=
    (keeps_change fun _ => .of_eq rfl).bind fun _ => keeps_query _
  exact hnext.bind fun _ => keeps_change fun _ => .of_eq rfl

theorem clearDeviceOneTimeMaterial_restocks (userId : Int) (deviceId : String) :
    (clearDeviceOneTimeMaterial userId deviceId).Keeps (Restocks added) := by
  refine (Session.keeps_commit ?_).bind fun _ => Session.keeps_commit ?_
  · exact keeps_change fun _ => .of_sublist List.filter_sublist
  · exact keeps_change fun _ => .of_eq rfl

variable (cfg : Config) (userId : Int) (mxid deviceId : String)

theorem applyDeviceKeys_restocks (deviceKeys : Json) :
    (applyDeviceKeys cfg userId mxid deviceId deviceKeys).Keeps (Restocks added) := by
  refine (Session.keeps_lift _).bind fun _ => (Session.keeps_query _).bind fun _ =>
    (Session.keeps_lift _).bind fun action => ?_
  have hstore : ∀ row, Session.Keeps (Restocks added) (do
      .commit (upsertDeviceKeys row)
      return true) := fun row =>
    (Session.keeps_commit (upsertDeviceKeys_restocks row)).bind fun _ => Session.keeps_pure _
  cases action with
  | noop => exact Session.keeps_pure false
  | insert => exact hstore _
  | reset => exact (clearDeviceOneTimeMaterial_restocks _ _).bind fun _ => hstore _

theorem applyOneTimeKeys_restocks (keys : BTreeMap String Json)
    (hadded : ∀ entry ∈ keys.toList,
      KeyToken.mk userId deviceId entry.1 (cfg.render entry.2) ∈ added) :
    (applyOneTimeKeys cfg userId deviceId keys).Keeps (Restocks added) := by
  intro db
  simp only [applyOneTimeKeys]
  cases hbatch : keys.toList.mapM (oneTimeKeyRow cfg userId deviceId) with
  | error e => exact refl db
  | ok batch =>
    refine Session.keeps_commit (addOneTimeKeys_restocks ?_) db
    intro row hrow
    obtain ⟨entry, hentry, hrow⟩ := (Except.exists_of_mapM_eq_ok hbatch).2 row hrow
    simp only [oneTimeKeyRow, Except.bind_eq_ok, Except.pure_eq_ok] at hrow
    obtain ⟨_, -, rfl⟩ := hrow
    exact hadded entry hentry

theorem applyFallbackKeys_restocks (keys : BTreeMap String Json) :
    (applyFallbackKeys cfg userId deviceId keys).Keeps (Restocks added) := by
  refine (Session.Keeps.each (fun entry => ?_) _).bind fun _ => Session.keeps_pure _
  refine (Session.keeps_lift _).bind fun _ => Session.keeps_commit ?_
  exact keeps_change fun _ => .of_eq rfl

/-- An upload stores no one-time key that it does not carry. -/
theorem applyKeysUpload_restocks (request : KeysUploadRequest) :
    (applyKeysUpload cfg userId mxid deviceId request).Keeps
      (Restocks (request.tokens cfg userId deviceId)) := by
  refine Session.Keeps.bind ?_ fun _ => Session.Keeps.bind ?_ fun _ => Session.Keeps.bind ?_
    fun _ => (Session.keeps_query _).bind fun _ => Session.keeps_pure _
  · cases request.deviceKeys with
    | none => exact Session.keeps_pure _
    | some deviceKeys => exact applyDeviceKeys_restocks _ _ _ _ _
  · cases hkeys : request.oneTimeKeys with
    | none => exact Session.keeps_pure _
    | some keys =>
      refine applyOneTimeKeys_restocks _ _ _ _ fun entry hentry => ?_
      rw [KeysUploadRequest.tokens, hkeys]
      exact List.mem_map_of_mem hentry
  · cases request.fallbackKeys with
    | none => exact Session.keeps_pure _
    | some keys => exact applyFallbackKeys_restocks _ _ _ _

end Restocks

/-! ### What a claim takes out of the store -/

section Claims

variable (cfg : Config)

theorem mem_of_lowestOneTimeKey {db : Db} {userId : Int} {deviceId algorithm : String}
    {row : OneTimeKey} (h : db.lowestOneTimeKey userId deviceId algorithm = some row) :
    row ∈ db.oneTimeKeys := by
  have hpage := List.mem_of_head? h
  exact (List.mem_filter.1 (Page.mem_of_mem_select hpage)).1

theorem claimOneTimeKey_takes (userId : Int) (deviceId algorithm : String) :
    Session.Takes stored [] (fun key : Option ClaimedKey => key.elim [] ClaimedKey.tokens)
      (.commit (claimOneTimeKey userId deviceId algorithm)) := by
  refine Session.takes_commit fun db key db' h => ?_
  simp only [claimOneTimeKey, bind_ok, query_ok] at h
  obtain ⟨_, _, ⟨rfl, rfl⟩, h⟩ := h
  cases hrow : db.lowestOneTimeKey userId deviceId algorithm with
  | some row =>
    simp only [hrow, bind_ok, change_ok, pure_ok] at h
    obtain ⟨_, _, rfl, rfl, rfl⟩ := h
    exact (List.perm_cons_erase (mem_of_lowestOneTimeKey hrow)).symm.map token
  | none =>
    simp only [hrow, bind_ok, query_ok] at h
    obtain ⟨_, _, ⟨rfl, rfl⟩, h⟩ := h
    cases hfallback : db.fallbackKey userId deviceId algorithm with
    | none =>
      simp only [hfallback, pure_ok] at h
      obtain ⟨rfl, rfl⟩ := h
      exact .refl _
    | some row =>
      simp only [hfallback, bind_ok, change_ok, pure_ok] at h
      obtain ⟨_, _, rfl, rfl, rfl⟩ := h
      exact .refl _

theorem claimDevice_takes (userId : Int) (target : String × String) :
    Session.Takes stored [] (fun device : Option ClaimedDevice =>
      device.elim [] fun device => device.key.tokens) (claimDevice cfg userId target) := by
  refine (claimOneTimeKey_takes userId target.1 target.2).bind fun key => ?_
  cases key with
  | none => exact Session.takes_pure none
  | some key =>
    dsimp only
    split
    · exact Session.takes_error _
    · exact Session.takes_pure _

private theorem flatMap_reduceOption (devices : List (Option ClaimedDevice)) :
    userTokens ("", devices.reduceOption) =
      devices.flatMap fun device => device.elim [] fun device => device.key.tokens := by
  induction devices with
  | nil => rfl
  | cons device rest ih =>
    cases device with
    | none => simpa [userTokens] using ih
    | some device => simpa [userTokens] using ih

private theorem responseTokens_filter (users : List (String × List ClaimedDevice)) :
    responseTokens (users.filter fun user => ¬ user.2.isEmpty) = users.flatMap userTokens := by
  induction users with
  | nil => rfl
  | cons user rest ih =>
    unfold responseTokens at ih ⊢
    by_cases hempty : user.2 = []
    · simpa [hempty, userTokens] using ih
    · simpa [hempty] using ih

theorem claimUser_takes (visible : Int → Bool) (target : String × BTreeMap String String) :
    Session.Takes stored [] userTokens (claimUser cfg visible target) := by
  refine (Session.takes_query _).bind fun userId => ?_
  split
  · exact Session.takes_pure (target.1, [])
  · refine (Session.Takes.each (claimDevice_takes cfg _) _).bind fun devices => ?_
    rw [← flatMap_reduceOption]
    exact Session.takes_pure (target.1, devices.reduceOption)

/-- The one-time keys that a claim returns leave the store. -/
theorem buildKeysClaimVisible_takes (visible : Int → Bool) (requested : KeysClaim) :
    Session.Takes stored [] responseTokens (buildKeysClaimVisible cfg visible requested) := by
  refine (Session.Takes.each (claimUser_takes cfg visible) _).bind fun users => ?_
  rw [← responseTokens_filter]
  exact Session.takes_pure _

end Claims

/-! ### Runs of uploads and claims -/

/-- The database, and the one-time keys that claims have returned so far. -/
structure Ledger where
  db : Db
  handed : List KeyToken := []

inductive Op where
  | upload (userId : Int) (mxid deviceId : String) (request : KeysUploadRequest)
  | claim (visible : Int → Bool) (requested : KeysClaim)

def step (cfg : Config) (ledger : Ledger) : Op → Ledger
  | .upload userId mxid deviceId request =>
    { ledger with db := (applyKeysUpload cfg userId mxid deviceId request ledger.db).2 }
  | .claim visible requested =>
    let (response, db) := buildKeysClaimVisible cfg visible requested ledger.db
    { db, handed := ledger.handed ++ Session.carried responseTokens response }

/-- No upload carries a one-time key that a claim has returned before it. -/
def CarriesUnspent (cfg : Config) (ledger : Ledger) : Op → Prop
  | .upload userId _ deviceId request =>
    ∀ key ∈ request.tokens cfg userId deviceId, key ∉ ledger.handed
  | .claim _ _ => True

/-- Each one-time key was returned once at most. -/
def HandedOnce (ledger : Ledger) : Prop := ledger.handed.Nodup

/-- Each one-time key is stored once or was returned once. -/
def Accounted (ledger : Ledger) : Prop := (ledger.handed ++ stored ledger.db).Nodup

variable {cfg : Config}

theorem accounted_upload {ledger : Ledger} {userId : Int} {mxid deviceId : String}
    {request : KeysUploadRequest}
    (hunspent : CarriesUnspent cfg ledger (.upload userId mxid deviceId request))
    (h : Accounted ledger) :
      Accounted (step cfg ledger (.upload userId mxid deviceId request)) := by
  obtain ⟨hhanded, hstored, hapart⟩ := List.nodup_append.1 h
  obtain ⟨hstored', hsource⟩ := applyKeysUpload_restocks cfg userId mxid deviceId request _ hstored
  refine List.nodup_append.2 ⟨hhanded, hstored', fun spent hspent key hkey heq => ?_⟩
  rcases hsource key hkey with hold | hnew
  · exact hapart spent hspent key hold heq
  · exact hunspent key hnew (heq ▸ hspent)

theorem accounted_claim {ledger : Ledger} {visible : Int → Bool} {requested : KeysClaim}
    (h : Accounted ledger) : Accounted (step cfg ledger (.claim visible requested)) := by
  obtain ⟨lost, hlost⟩ := buildKeysClaimVisible_takes cfg visible requested ledger.db
  rw [List.nil_append] at hlost
  have hall := (hlost.append_left ledger.handed).nodup_iff.2 h
  refine hall.sublist ?_
  unfold step
  rw [List.append_assoc, List.append_assoc]
  exact ((List.sublist_append_right _ _).append_left _).append_left _

theorem accounted_step {ledger : Ledger} {op : Op} (hunspent : CarriesUnspent cfg ledger op)
    (h : Accounted ledger) : Accounted (step cfg ledger op) := by
  cases op with
  | upload userId mxid deviceId request => exact accounted_upload hunspent h
  | claim visible requested => exact accounted_claim h

/-- In a run in which no upload carries a key that was returned before, no one-time key is
returned by two claims. -/
theorem oneTimeKeys_handed_once {db : Db} (hdistinct : (stored db).Nodup) {ops : List Op}
    (hunspent : Trace.Meets (step cfg) (CarriesUnspent cfg) { db } ops) :
    Trace.Throughout (step cfg) HandedOnce { db } ops :=
  Trace.throughout_of_meets Accounted (fun _ _ => accounted_step)
    (fun _ haccounted => (List.nodup_append.1 haccounted).1) hunspent hdistinct

/-! ### A key that is uploaded again after it was claimed -/

/-- Documents are plain texts. -/
def textConfig : Config where
  parse text := some (.str text)
  render value := value.asStr?.getD ""
  nowMs := 0

def aliceDb : Db := { matrixUsers := [⟨1, "@alice:a"⟩] }

/-- Alice's device uploads one key. -/
def uploadKey (keyId key : String) : Op :=
  .upload 1 "@alice:a" "D"
    { oneTimeKeys := some ((∅ : BTreeMap String Json).insert keyId (.str key)) }

/-- Somebody who sees every user claims a key of Alice's device. -/
def claimKey : Op :=
  .claim (fun _ => true) ((∅ : KeysClaim).insert "@alice:a"
    ((∅ : BTreeMap String String).insert "D" "curve"))

/-- The response to the first upload is lost, a peer claims the key, and the device sends
its upload again. The key is gone from the store, so it is stored anew. -/
theorem not_handedOnce_retriedUpload :
    ¬ Trace.Throughout (step textConfig) HandedOnce { db := aliceDb }
      [uploadKey "curve:1" "K", claimKey, uploadKey "curve:1" "K", claimKey] := by
  intro h
  have hend := Trace.throughout_iff.1 h _ [] (List.append_nil _).symm
  revert hend
  unfold HandedOnce
  decide +kernel

theorem oneTimeKeys_handed_once_twoKeys :
    (Trace.run (step textConfig) { db := aliceDb }
      [uploadKey "curve:1" "K", claimKey, uploadKey "curve:2" "L", claimKey]).handed =
        [⟨1, "D", "curve:1", "K"⟩, ⟨1, "D", "curve:2", "L"⟩] ∧
      Trace.Throughout (step textConfig) HandedOnce { db := aliceDb }
        [uploadKey "curve:1" "K", claimKey, uploadKey "curve:2" "L", claimKey] := by
  refine ⟨by decide +kernel, oneTimeKeys_handed_once (by decide +kernel) ⟨?_, trivial, ?_, trivial,
    trivial⟩⟩
  · unfold CarriesUnspent uploadKey
    decide +kernel
  · unfold CarriesUnspent uploadKey
    decide +kernel

end Keys

end Server
