import Mail4Agent.Messenger.StoreRun
import Mail4Agent.Vodozemac.AccountKeys

/-!
# Publishing one-time and fallback keys

With every sync the server tells how many one-time keys of this device it has and whether it still
has an unused fallback key. The account then generates what is missing, unless keys it generated
before still wait, and every key that waits goes into a `/keys/upload` request. A successful answer
marks everything that waits at that moment as published, whatever the request carried.

`publishedTruthfully_iff_carried` says when that is no lie: exactly as long as each successful
answer finds nothing waiting but keys its own request, or one answered before, carried. Two uploads
may be under way at once, and between them a key may be generated.
-/

namespace Messenger

open Vodozemac (Account AccountPickle FallbackKey IdentityKeys KeyId PublicKey)

/-! ### The account -/

structure OlmAccountState where
  account : Account
  deviceKeysPublished : Bool

structure AccountRecord where
  account : AccountPickle
  deviceKeysPublished : Bool

/-- Whose account it is, signatures and encodings. -/
structure AccountEnv where
  userId : UserId
  deviceId : DeviceId
  /-- The account's signature of a document in its canonical form, in base64. -/
  sign : IdentityKeys → Json → String
  /-- A key id in base64; different ids have different texts. -/
  keyIdText : KeyId → String
  readRecord : Bytes → Except String AccountRecord
  writeRecord : AccountRecord → Bytes

/-- Records are read as they were written. -/
def AccountEnv.Lawful (env : AccountEnv) : Prop :=
  ∀ record, env.readRecord (env.writeRecord record) = .ok record

def signedCurve25519 : String := "signed_curve25519"

def supportedAlgorithms : List String := ["m.olm.v1.curve25519-aes-sha2", "m.megolm.v1.aes-sha2"]

def OutgoingRequest.keysUpload (id : RequestId) (body : Json) : OutgoingRequest where
  id := id
  method := .post
  path := "/_matrix/client/v3/keys/upload"
  query := []
  body := some body
  kind := .keysUpload

namespace OlmAccountState

variable (env : AccountEnv) (state : OlmAccountState)

def record : AccountRecord := ⟨state.account.pickle, state.deviceKeysPublished⟩

def ofRecord (record : AccountRecord) : OlmAccountState :=
  ⟨.fromPickle record.account, record.deviceKeysPublished⟩

def save (store : Store) : Store := store.saveAccount (env.writeRecord state.record)

/-- The stored account, or a new one, which is stored at once. -/
def loadOrCreate (store : Store) (fresh : IdentityKeys) :
    Except String (OlmAccountState × Store) :=
  match store.account with
  | some bytes =>
    match env.readRecord bytes with
    | .ok record => .ok (ofRecord record, store)
    | .error source => .error s!"decode pickled Olm account: {source}"
  | none =>
    let state : OlmAccountState := ⟨.new fresh, false⟩
    .ok (state, state.save env store)

def oneTimeKeyTarget : Nat := Vodozemac.publicMaxOneTimeKeys / 2

/-- The signature of a document without signatures, as its last member. -/
def signatures (fields : List (String × Json)) : Json :=
  .obj [(env.userId.value, .obj [("ed25519:" ++ env.deviceId.value,
    .str (env.sign state.account.identityKeys (.obj fields)))])]

def deviceKeysJson : Json :=
  let keys := Json.obj [
    ("curve25519:" ++ env.deviceId.value, .str state.account.identityKeys.curve25519),
    ("ed25519:" ++ env.deviceId.value, .str state.account.identityKeys.ed25519)]
  let device := [("algorithms", Json.arr (supportedAlgorithms.map .str)),
    ("device_id", .str env.deviceId.value), ("keys", keys)]
  let user := ("user_id", Json.str env.userId.value)
  .obj (device ++ [("signatures", state.signatures env (device ++ [user])), user])

def signedOneTimeKeyJson (publicKey : PublicKey) (fallback : Bool) : Json :=
  let fields := (if fallback then [("fallback", Json.bool true)] else []) ++
    [("key", Json.str publicKey)]
  .obj (fields ++ [("signatures", state.signatures env fields)])

/-- Signed keys under their ids. -/
def signedKeys (keys : List (KeyId × PublicKey)) (fallback : Bool) : Json :=
  .obj (keys.map fun entry =>
    (signedCurve25519 ++ ":" ++ env.keyIdText entry.1,
      state.signedOneTimeKeyJson env entry.2 fallback))

/-- The fallback key that is not published. -/
def waitingFallbackKeys : List (KeyId × PublicKey) :=
  (state.account.fallbackKeys.unpublishedFallbackKey.map fun key => (key.keyId, key.key)).toList

/-- Keys are generated only when none of their kind wait. `fresh` are the keys that are drawn, as
many as are asked for. -/
def onSyncCounts (publishedCount : Nat) (unusedFallbackKeyTypes : List String)
    (fresh : Nat → PublicKey) (freshFallback : PublicKey) (store : Store) :
    OlmAccountState × Store :=
  let missing := if state.account.unpublishedOneTimeKeys.isEmpty then
    oneTimeKeyTarget - publishedCount else 0
  let topped := { state with
    account := state.account.generateOneTimeKeys ((List.range missing).map fresh) }
  let generatesFallback :=
    signedCurve25519 ∉ unusedFallbackKeyTypes ∧ topped.waitingFallbackKeys = []
  let topped := if generatesFallback then
    { topped with account := topped.account.generateFallbackKey freshFallback } else topped
  (topped, if missing ≠ 0 ∨ generatesFallback then topped.save env store else store)

def keysUploadBody : Json :=
  .obj ((if state.deviceKeysPublished then [] else
      [("device_keys", state.deviceKeysJson env)]) ++
    (if state.waitingFallbackKeys = [] then [] else
      [("fallback_keys", state.signedKeys env state.waitingFallbackKeys true)]) ++
    (if state.account.unpublishedOneTimeKeys = [] then [] else
      [("one_time_keys", state.signedKeys env state.account.unpublishedOneTimeKeys false)]))

def keysUploadRequest (id : RequestId) : Option OutgoingRequest :=
  if state.deviceKeysPublished ∧ state.account.unpublishedOneTimeKeys = [] ∧
      state.waitingFallbackKeys = [] then none
  else some (.keysUpload id (state.keysUploadBody env))

def forgetPublishedDeviceKeys : OlmAccountState := { state with deviceKeysPublished := false }

def onKeysUploadResponse (store : Store) : OlmAccountState × Store :=
  let state : OlmAccountState := ⟨state.account.markKeysAsPublished, true⟩
  (state, state.save env store)

/-- A pre-key message uses a one-time key up; whether it is genuine is given. -/
def createInboundSession (oneTimeKey : PublicKey) (genuine : Bool) (store : Store) :
    OlmAccountState × Store :=
  if state.account.findOneTimeKey oneTimeKey && genuine then
    let state := { state with account := state.account.removeOneTimeKey oneTimeKey }
    (state, state.save env store)
  else (state, store)

end OlmAccountState

open OlmAccountState

/-! ### What a request carries -/

/-- The keys in one section of an upload. -/
def sectionKeys (body : Json) (name : String) : List PublicKey :=
  match body.get? name with
  | some (.obj entries) => entries.filterMap fun entry => (entry.2.get? "key").bind Json.asStr?
  | _ => []

def carriedKeys (body : Json) : List PublicKey :=
  sectionKeys body "fallback_keys" ++ sectionKeys body "one_time_keys"

section Carried

variable (env : AccountEnv) (state : OlmAccountState)

theorem key_signedOneTimeKeyJson (key : PublicKey) (fallback : Bool) :
    ((state.signedOneTimeKeyJson env key fallback).get? "key").bind Json.asStr? = some key := by
  cases fallback <;>
    simp [signedOneTimeKeyJson, Json.get?, Json.asStr?, List.lookup]

theorem filterMap_signedKeys (keys : List (KeyId × PublicKey)) (fallback : Bool) :
    (keys.map fun entry => (signedCurve25519 ++ ":" ++ env.keyIdText entry.1,
      state.signedOneTimeKeyJson env entry.2 fallback)).filterMap
        (fun entry => (entry.2.get? "key").bind Json.asStr?) = keys.map Prod.snd := by
  simp [List.filterMap_map, key_signedOneTimeKeyJson]

theorem sectionKeys_fallback :
    sectionKeys (state.keysUploadBody env) "fallback_keys" =
      state.waitingFallbackKeys.map Prod.snd := by
  have hkeys := filterMap_signedKeys env state state.waitingFallbackKeys true
  rw [keysUploadBody, sectionKeys, Json.get?]
  split_ifs <;> simp_all [List.lookup, signedKeys]

theorem sectionKeys_oneTime :
    sectionKeys (state.keysUploadBody env) "one_time_keys" =
      state.account.unpublishedOneTimeKeys.map Prod.snd := by
  have hkeys := filterMap_signedKeys env state state.account.unpublishedOneTimeKeys false
  rw [keysUploadBody, sectionKeys, Json.get?]
  split_ifs <;> simp_all [List.lookup, signedKeys]

/-- An upload carries exactly the keys that wait. -/
theorem mem_carriedKeys_iff (key : PublicKey) :
    key ∈ carriedKeys (state.keysUploadBody env) ↔
      Account.Unpublished state.account.pickle key := by
  rw [carriedKeys, List.mem_append, sectionKeys_fallback, sectionKeys_oneTime, or_comm]
  refine or_congr ?_ ?_
  · rw [List.mem_map]
    constructor
    · rintro ⟨⟨id, key⟩, hmem, rfl⟩
      exact ⟨id, Std.ExtTreeMap.mem_toList_iff_getElem?_eq_some.1 hmem⟩
    · rintro ⟨id, hid⟩
      exact ⟨(id, key), Std.ExtTreeMap.mem_toList_iff_getElem?_eq_some.2 hid, rfl⟩
  · simp [waitingFallbackKeys, Vodozemac.FallbackKeys.Unpublished,
      Account.pickle]

end Carried

/-! ### Runs -/

inductive PublishStep where
  /-- A sync tells the counts, and an upload of what then waits is enqueued. -/
  | sync (publishedCount : Nat) (unusedFallbackKeyTypes : List String) (fresh : Nat → PublicKey)
      (freshFallback : PublicKey) (id : RequestId)
  /-- An upload is answered with success, or fails for good. -/
  | uploaded (id : RequestId)
  | uploadFailed (id : RequestId)
  | preKey (oneTimeKey : PublicKey) (genuine : Bool)
  | republishDeviceKeys
  | store (s : StoreStep)
  | restart (kept : Nat) (records : List SealedRecord) (fresh : IdentityKeys)

/-- The step writes an account itself. -/
def StoreStep.savesAccount : StoreStep → Bool
  | .op (.mutate (.saveAccount _)) => true
  | _ => false

/-- Nothing but the account's own operations writes it, and the record format keeps the requests
that are saved. -/
def PublishStep.Allowed (serde : Serde) : PublishStep → Prop
  | .store s => s.savesAccount = false ∧ s.Kept serde
  | _ => True

/-- The account, its store, the uploads whose answers the core will know, and the bodies of those
that were answered with success. -/
structure Publisher where
  recorded : Recorded
  account : OlmAccountState
  uploads : BTreeMap RequestId OutgoingRequest
  confirmed : List Json

namespace Publisher

variable (env : AccountEnv)

/-- The account after one of its operations, and what that did to the store. -/
def withAccount (p : Publisher) (result : OlmAccountState × Store) : Publisher :=
  { p with account := result.1, recorded := { p.recorded with store := result.2 } }

def step (p : Publisher) : PublishStep → Publisher
  | .sync publishedCount types fresh freshFallback id =>
    let p := p.withAccount
      (p.account.onSyncCounts env publishedCount types fresh freshFallback p.recorded.store)
    match p.account.keysUploadRequest env id with
    | some request => { p with uploads := p.uploads.insert id request }
    | none => p
  | .uploaded id =>
    match p.uploads[id]? with
    | some request =>
      let p := p.withAccount (p.account.onKeysUploadResponse env p.recorded.store)
      { p with
        uploads := p.uploads.erase id
        confirmed := p.confirmed ++ request.body.toList }
    | none => p
  | .uploadFailed id => { p with uploads := p.uploads.erase id }
  | .preKey oneTimeKey genuine =>
    p.withAccount (p.account.createInboundSession env oneTimeKey genuine p.recorded.store)
  | .republishDeviceKeys => { p with account := p.account.forgetPublishedDeviceKeys }
  | .store s => { p with recorded := p.recorded.step s }
  | .restart kept records fresh =>
    -- A restored request has no kind, so the answer to an old upload is not taken for one.
    match p.recorded.reopen? kept records with
    | some recorded =>
      match OlmAccountState.loadOrCreate env recorded.store fresh with
      | .ok (account, store) =>
        { p with recorded := { recorded with store }, account, uploads := ∅ }
      | .error _ => p
    | none => p

/-- Some request that was answered with success carried the key. -/
def Confirmed (confirmed : List Json) (key : PublicKey) : Prop :=
  ∃ body ∈ confirmed, key ∈ carriedKeys body

/-- Every key marked as published was carried by an upload that was answered with success. -/
def Truthful (confirmed : List Json) (account : AccountPickle) : Prop :=
  ∀ key, Account.Published account key → Confirmed confirmed key

/-- The stored account can be read and is truthful. -/
def StoredTruthfully (confirmed : List Json) (store : Store) : Prop :=
  ∀ bytes, store.account = some bytes →
    ∃ record, env.readRecord bytes = .ok record ∧ Truthful confirmed record.account

variable {env}

variable {confirmed : List Json} {store : Store} {state : OlmAccountState}

theorem Confirmed.append {key : PublicKey} (h : Confirmed confirmed key) (more : List Json) :
    Confirmed (confirmed ++ more) key := by
  obtain ⟨body, hbody, hkey⟩ := h
  exact ⟨body, List.mem_append_left _ hbody, hkey⟩

theorem Truthful.append {account : AccountPickle} (h : Truthful confirmed account)
    (more : List Json) : Truthful (confirmed ++ more) account :=
  fun key hkey => (h key hkey).append more

theorem StoredTruthfully.append (h : StoredTruthfully env confirmed store) (more : List Json) :
    StoredTruthfully env (confirmed ++ more) store := by
  intro bytes hbytes
  obtain ⟨record, hread, htruthful⟩ := h bytes hbytes
  exact ⟨record, hread, htruthful.append more⟩

theorem storedTruthfully_ignoresGate (confirmed : List Json) :
    IgnoresGate (StoredTruthfully env confirmed) := by
  intro a b hsame h
  rw [Store.SameWorkingSet] at hsame
  rw [hsame]
  exact h

theorem storedTruthfully_save (lawful : env.Lawful) (h : Truthful confirmed state.account.pickle)
    (store : Store) :
    StoredTruthfully env confirmed (state.save env store) := by
  intro bytes hbytes
  cases hbytes
  exact ⟨state.record, lawful _, h⟩

/-- An operation of the account leaves the store alone or saves the account in it. -/
def Saves (env : AccountEnv) (store : Store) (result : OlmAccountState × Store) : Prop :=
  result.2 = store ∨ result.2 = result.1.save env store

theorem saves_onSyncCounts (state : OlmAccountState) (publishedCount : Nat) (types : List String)
    (fresh : Nat → PublicKey) (freshFallback : PublicKey) (store : Store) :
    Saves env store (state.onSyncCounts env publishedCount types fresh freshFallback store) := by
  simp only [Saves, onSyncCounts]
  split_ifs
  all_goals first | exact .inl rfl | exact .inr rfl

theorem saves_createInboundSession (state : OlmAccountState) (oneTimeKey : PublicKey)
    (genuine : Bool) (store : Store) :
    Saves env store (state.createInboundSession env oneTimeKey genuine store) := by
  rw [createInboundSession]
  split_ifs
  · exact .inr rfl
  · exact .inl rfl

theorem published_onSyncCounts {publishedCount : Nat} {types : List String}
    {fresh : Nat → PublicKey} {freshFallback : PublicKey} {key : PublicKey}
    (h : Account.Published (state.onSyncCounts env publishedCount types fresh freshFallback
      store).1.account.pickle key) :
    Account.Published state.account.pickle key := by
  simp only [onSyncCounts] at h
  split_ifs at h
  all_goals first
    | exact Account.published_generateOneTimeKeys (Account.published_generateFallbackKey h)
    | exact Account.published_generateOneTimeKeys h

theorem published_createInboundSession {oneTimeKey : PublicKey} {genuine : Bool} {key : PublicKey}
    (h : Account.Published
      (state.createInboundSession env oneTimeKey genuine store).1.account.pickle key) :
    Account.Published state.account.pickle key := by
  rw [createInboundSession] at h
  split_ifs at h
  · exact Account.published_removeOneTimeKey h
  · exact h

/-- A truthful account over a store that is truthful now and in all the directories. -/
structure Inv (device : DeviceId) (codec : RecordCodec) (serde : Serde) (env : AccountEnv)
    (p : Publisher) : Prop where
  stored : Sound device codec serde (StoredTruthfully env p.confirmed) p.recorded
  account : Truthful p.confirmed p.account.account.pickle

variable {device : DeviceId} {codec : RecordCodec} {serde : Serde} {p : Publisher}

/-- An operation of the account that leaves it truthful. -/
theorem Inv.withAccount (inv : Inv device codec serde env p) (lawful : env.Lawful)
    {result : OlmAccountState × Store} (saves : Saves env p.recorded.store result)
    (truthful : Truthful p.confirmed result.1.account.pickle) :
    Inv device codec serde env (p.withAccount result) := by
  refine ⟨?_, truthful⟩
  rcases saves with hsame | hsaved
  · simp only [Publisher.withAccount, hsame]
    exact inv.stored
  · simp only [Publisher.withAccount, hsaved]
    exact inv.stored.step_of (storedTruthfully_ignoresGate p.confirmed)
      (StoreStep.kept_mutate serde (.saveAccount (env.writeRecord result.1.record)))
        fun op heq => by
        cases heq
        exact storedTruthfully_save lawful truthful p.recorded.store

/-- The account that is loaded, or made, over a truthful store. -/
theorem Inv.started (lawful : env.Lawful) {recorded : Recorded}
    (h : Sound device codec serde (StoredTruthfully env confirmed) recorded) {fresh : IdentityKeys}
    {account : OlmAccountState}
    (started : OlmAccountState.loadOrCreate env recorded.store fresh = .ok (account, store))
    (uploads : BTreeMap RequestId OutgoingRequest) :
    Inv device codec serde env ⟨{ recorded with store }, account, uploads, confirmed⟩ := by
  rw [loadOrCreate] at started
  split at started
  · next bytes hbytes =>
    obtain ⟨record, hread, htruthful⟩ := h.now.holds bytes hbytes
    rw [hread] at started
    cases started
    exact ⟨h, htruthful⟩
  · cases started
    -- A new account has no published key, so it may as well be saved over any account at all.
    have hnew : Truthful confirmed (Account.new fresh).pickle :=
      fun key hkey => absurd hkey (Account.not_published_new fresh key)
    let state : OlmAccountState := ⟨.new fresh, false⟩
    exact Inv.withAccount (p := ⟨recorded, state, uploads, confirmed⟩) ⟨h, hnew⟩ lawful
      (.inr rfl : Saves env recorded.store (state, state.save env recorded.store)) hnew

theorem Inv.append (inv : Inv device codec serde env p) (more : List Json) :
    Inv device codec serde env { p with confirmed := p.confirmed ++ more } :=
  ⟨inv.stored.mono fun _ h => h.append more, inv.account.append more⟩

/-- The other steps of the store leave the account alone. -/
theorem account_step {r : Recorded} {s : StoreStep} (h : s.savesAccount = false) :
    (r.step s).store.account = r.store.account := by
  cases s with
  | op op =>
    cases op with
    | mutate mutation =>
      cases mutation with
      | saveAccount => cases h
      | saveOlmSession theirCurve25519 sessionId session =>
        simp only [Recorded.step, StoreOp.run, Mutation.run, Store.saveOlmSession]
        split <;> rfl
      | _ => rfl
    | deletePendingRequest id =>
      simp only [Recorded.step, StoreOp.run, Store.deletePendingRequest]
      split <;> rfl
    | _ => rfl
  | _ => rfl

/-- A successful answer finds nothing waiting but keys that its request, or one answered before,
carried. -/
def FindsCarried (p : Publisher) : PublishStep → Prop
  | .uploaded id => ∀ request, p.uploads[id]? = some request →
    ∀ key, Account.Unpublished p.account.account.pickle key →
      Confirmed (p.confirmed ++ request.body.toList) key
  | _ => True

theorem Inv.step (laws : RecordLaws codec serde) (lawful : env.Lawful) {s : PublishStep}
    (allowed : s.Allowed serde) (carried : p.FindsCarried s) (inv : Inv device codec serde env p) :
    Inv device codec serde env (p.step env s) := by
  cases s with
  | sync publishedCount types fresh freshFallback id =>
    have hnext := inv.withAccount lawful
      (saves_onSyncCounts p.account publishedCount types fresh freshFallback p.recorded.store)
      fun key hkey => inv.account key (published_onSyncCounts hkey)
    simp only [Publisher.step]
    split
    · exact ⟨hnext.stored, hnext.account⟩
    · exact hnext
  | uploaded id =>
    simp only [Publisher.step]
    split
    · next request hrequest =>
      have htruthful : Truthful (p.confirmed ++ request.body.toList)
          p.account.account.markKeysAsPublished.pickle := by
        intro key hkey
        rcases Account.published_mark_iff.1 hkey with hbefore | hwaiting
        · exact (inv.account key hbefore).append _
        · exact carried request hrequest key hwaiting
      have hnext := (inv.append request.body.toList).withAccount lawful
        (.inr rfl : Saves env _ (p.account.onKeysUploadResponse env p.recorded.store)) htruthful
      exact ⟨hnext.stored, hnext.account⟩
    · exact inv
  | uploadFailed id => exact ⟨inv.stored, inv.account⟩
  | preKey oneTimeKey genuine =>
    exact inv.withAccount lawful
      (saves_createInboundSession p.account oneTimeKey genuine p.recorded.store)
      fun key hkey => inv.account key (published_createInboundSession hkey)
  | republishDeviceKeys => exact ⟨inv.stored, inv.account⟩
  | store s =>
    refine ⟨inv.stored.step_of (storedTruthfully_ignoresGate _) allowed.2 fun op heq => ?_,
      inv.account⟩
    subst heq
    have haccount : (op.run p.recorded.store).account = p.recorded.store.account :=
      account_step (r := p.recorded) allowed.1
    rw [StoredTruthfully, haccount]
    exact inv.stored.now.holds
  | restart kept records fresh =>
    simp only [Publisher.step]
    split
    · next recorded hopen =>
      obtain ⟨store, lists, opened, rfl⟩ := Recorded.reopen?_eq_some inv.stored.now.params hopen
      obtain ⟨old, snapshot⟩ := inv.stored.kept kept
      have hloaded := Sound.loaded (storedTruthfully_ignoresGate p.confirmed) laws snapshot lists
        opened
      split
      · next account store hstart => exact Inv.started lawful hloaded hstart ∅
      · exact inv
    · exact inv

/-- An upload that is answered before anything else becomes waiting. -/
theorem findsCarried_of_current {id : RequestId}
    (h : p.uploads[id]? = some (.keysUpload id (p.account.keysUploadBody env))) :
    p.FindsCarried (.uploaded id) := by
  intro request hrequest key hkey
  cases h.symm.trans hrequest
  exact ⟨p.account.keysUploadBody env, by simp [OutgoingRequest.keysUpload],
    (mem_carriedKeys_iff env p.account key).2 hkey⟩

/-- From the first start of a device on, every key that is marked as published was carried by an
upload that was answered with success, exactly if every such answer finds nothing waiting but keys
that its request, or one answered before, carried. -/
theorem publishedTruthfully_iff_carried (laws : RecordLaws codec serde) (lawful : env.Lawful)
    {foreign : RecordMap} (unknown : ∀ key ∈ foreign, parseRecordKey device key = .ok none)
    {records : List SealedRecord} (lists : Lists records foreign) {loaded store : Store}
    (opened : Store.load records codec serde device = .ok loaded) {fresh : IdentityKeys}
    {account : OlmAccountState}
    (started : OlmAccountState.loadOrCreate env loaded fresh = .ok (account, store))
    {steps : List PublishStep} (allowed : ∀ s ∈ steps, s.Allowed serde) :
    Trace.Throughout (Publisher.step env)
        (fun p => Truthful p.confirmed p.account.account.pickle)
        ⟨⟨foreign, store, []⟩, account, ∅, []⟩ steps ↔
      Trace.Meets (Publisher.step env) FindsCarried
        ⟨⟨foreign, store, []⟩, account, ∅, []⟩ steps := by
  have hblank : StoredTruthfully env [] (Store.foreignOnly device codec serde foreign) := by
    intro bytes hbytes
    have hnone := @Store.foreignOnly_plain device codec serde foreign .account
    cases hnone.symm.trans hbytes
  have hloaded : Sound device codec serde (StoredTruthfully env []) ⟨foreign, loaded, []⟩ :=
    Sound.loaded (storedTruthfully_ignoresGate []) laws ⟨⟨rfl, rfl, rfl⟩, Store.foreignOnly_tidy _,
      Store.foreignOnly_mirrored unknown, hblank⟩ lists opened
  refine Trace.throughout_iff_meets_of_inv (Inv device codec serde env)
    (PublishStep.Allowed serde) (fun _ h => h.account) (fun _ _ hallowed hcarried h =>
      h.step laws lawful hallowed hcarried) ?_
    allowed (Inv.started lawful hloaded started ∅)
  intro p s _ _ hafter
  cases s with
  | uploaded id =>
    intro request hrequest key hkey
    simp only [Publisher.step, hrequest] at hafter
    exact hafter key (Account.published_mark_iff.2 (.inr hkey))
  | _ => trivial

end Publisher

/-! ### Where the mark lies -/

section DocumentAccount

def keyEntryToJson (entry : KeyId × PublicKey) : Json :=
  .arr [.int entry.1.toNat, .str entry.2]

def keyEntryOfJson? : Json → Option (KeyId × PublicKey)
  | .arr [.int id, .str key] => some (.ofNat id.toNat, key)
  | _ => none

def fallbackToJson (key : FallbackKey) : Json :=
  .arr [.int key.keyId.toNat, .str key.key, .bool key.published]

def fallbackOfJson? : Json → Option FallbackKey
  | .arr [.int id, .str key, .bool published] => some ⟨.ofNat id.toNat, key, published⟩
  | _ => none

theorem fallbackOfJson?_fallbackToJson (key : FallbackKey) :
    fallbackOfJson? (fallbackToJson key) = some key := by
  simp [fallbackOfJson?, fallbackToJson]

/-- A key that may be absent, as a list. -/
def fallbacksOfJson? (items : List Json) : Option (Option FallbackKey) :=
  (items.mapM fallbackOfJson?).map List.head?

theorem fallbacksOfJson?_toList (key : Option FallbackKey) :
    fallbacksOfJson? (key.toList.map fallbackToJson) = some key := by
  have hkeys := mapM_map_eq_some fallbackOfJson?_fallbackToJson key.toList
  rw [fallbacksOfJson?, hkeys]
  cases key <;> rfl

/-- Unpublished keys that are not held are refused. -/
def oneTimeKeysOf? (nextKeyId : KeyId) (unpublished held : BTreeMap KeyId PublicKey) :
    Option Vodozemac.OneTimeKeysPickle :=
  if h : ∀ entry ∈ unpublished.toList, held[entry.1]? = some entry.2 then
    some ⟨nextKeyId, unpublished, held, fun id key hkey =>
      h (id, key) (Std.ExtTreeMap.mem_toList_iff_getElem?_eq_some.2 hkey)⟩
  else none

theorem oneTimeKeysOf?_eq (keys : Vodozemac.OneTimeKeysPickle) :
    oneTimeKeysOf? keys.nextKeyId keys.unpublishedPublicKeys keys.privateKeys = some keys := by
  have hheld : ∀ entry ∈ keys.unpublishedPublicKeys.toList,
      keys.privateKeys[entry.1]? = some entry.2 := fun entry hentry =>
    keys.held entry.1 entry.2 (Std.ExtTreeMap.mem_toList_iff_getElem?_eq_some.1 hentry)
  rw [oneTimeKeysOf?, dif_pos hheld]

def AccountRecord.toJson (record : AccountRecord) : Json :=
  let keys := record.account.oneTimeKeys
  let fallbacks := record.account.fallbackKeys
  .arr [.str record.account.identityKeys.curve25519, .str record.account.identityKeys.ed25519,
    .int keys.nextKeyId.toNat, .arr (keys.unpublishedPublicKeys.toList.map keyEntryToJson),
    .arr (keys.privateKeys.toList.map keyEntryToJson), .int fallbacks.keyId.toNat,
    .arr (fallbacks.fallbackKey.toList.map fallbackToJson),
    .arr (fallbacks.previousFallbackKey.toList.map fallbackToJson),
    .bool record.deviceKeysPublished]

def AccountRecord.ofJson? : Json → Option AccountRecord
  | .arr [.str curve, .str ed, .int next, .arr unpublished, .arr held, .int fallbackId,
      .arr fallback, .arr previous, .bool published] => do
    let unpublished ← unpublished.mapM keyEntryOfJson?
    let held ← held.mapM keyEntryOfJson?
    let keys ← oneTimeKeysOf? (.ofNat next.toNat) (.ofList unpublished compare)
      (.ofList held compare)
    let fallback ← fallbacksOfJson? fallback
    let previous ← fallbacksOfJson? previous
    some ⟨⟨⟨curve, ed⟩, keys, ⟨.ofNat fallbackId.toNat, fallback, previous⟩⟩, published⟩
  | _ => none

theorem AccountRecord.ofJson?_toJson (record : AccountRecord) :
    ofJson? record.toJson = some record := by
  have hentry (entry : KeyId × PublicKey) :
      keyEntryOfJson? (keyEntryToJson entry) = some entry := by
    simp [keyEntryOfJson?, keyEntryToJson]
  have hentries (keys : BTreeMap KeyId PublicKey) := mapM_map_eq_some hentry keys.toList
  simp [ofJson?, toJson, hentries, ofList_toList, fallbacksOfJson?_toList, oneTimeKeysOf?_eq]

/-- Records are documents, and the signature of a document is its own text. -/
abbrev documentAccount : AccountEnv where
  userId := ⟨"@bob:a"⟩
  deviceId := roundTripDevice
  sign _ document := JsonText.render document
  keyIdText id := toString id.toNat
  readRecord := readDocument AccountRecord.ofJson?
  writeRecord record := documentBytes record.toJson

theorem documentAccount_lawful : documentAccount.Lawful :=
  fun record => readDocument_documentBytes record.ofJson?_toJson

def bobsIdentity : IdentityKeys := ⟨"curve-bob", "ed-bob"⟩

def newAccount : OlmAccountState := ⟨.new bobsIdentity, false⟩

/-- A new device with its new account. -/
def firstStart : Publisher where
  recorded := { freshRecorded with store := newAccount.save documentAccount freshRecorded.store }
  account := newAccount
  uploads := ∅
  confirmed := []

/-- One one-time key is missing, and the server has a fallback key. -/
def topUp : PublishStep := .sync 24 [signedCurve25519] (fun _ => "one-time") "unused" ⟨"1"⟩

/-- The fallback key was used. -/
def renewFallback : PublishStep := .sync 24 [] (fun _ => "unused") "fallback" ⟨"2"⟩

/-- The first upload is answered while the second one, with a new fallback key, is under way, and
that key counts as published. -/
theorem not_publishedTruthfully_firstAnswer :
    ¬ Trace.Throughout (Publisher.step documentAccount)
      (fun p => Publisher.Truthful p.confirmed p.account.account.pickle) firstStart
      [topUp, renewFallback, .uploaded ⟨"1"⟩] := by
  intro h
  have hmark : (Trace.run (Publisher.step documentAccount) firstStart
      [topUp, renewFallback, .uploaded ⟨"1"⟩]).account.account.fallbackKeys.fallbackKey =
        some ⟨0, "fallback", true⟩ := by decide +kernel
  have hcarried : (Trace.run (Publisher.step documentAccount) firstStart
      [topUp, renewFallback, .uploaded ⟨"1"⟩]).confirmed.map carriedKeys = [["one-time"]] := by
    decide +kernel
  obtain ⟨body, hbody, hkey⟩ := h.last "fallback" (.inr ⟨_, .inl hmark, rfl, rfl⟩)
  have hbodies := List.mem_map_of_mem (f := carriedKeys) hbody
  rw [hcarried, List.mem_singleton] at hbodies
  rw [hbodies] at hkey
  revert hkey
  decide

/-- Each upload is answered before the next sync. -/
theorem publishedTruthfully_iff_carried_answeredAtOnce :
    Trace.Throughout (Publisher.step documentAccount)
      (fun p => Publisher.Truthful p.confirmed p.account.account.pickle) firstStart
      [topUp, .uploaded ⟨"1"⟩, renewFallback, .uploaded ⟨"2"⟩] := by
  refine (Publisher.publishedTruthfully_iff_carried documentSerde_laws documentAccount_lawful
    (by simp) lists_nil rfl rfl ?_).2 ⟨trivial, ?_, trivial, ?_, trivial⟩
  · simp [topUp, renewFallback, PublishStep.Allowed]
  · exact @Publisher.findsCarried_of_current documentAccount _ ⟨"1"⟩ rfl
  · exact @Publisher.findsCarried_of_current documentAccount _ ⟨"2"⟩ rfl

end DocumentAccount

end Messenger
