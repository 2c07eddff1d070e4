import Mail4Agent.Foundation.Data

/-!
# One-time and fallback keys of an Olm account

An account keeps its one-time keys by id, and beside them those that are not published yet; of
fallback keys it keeps the present and the previous one, each with a mark. A secret key is named by
its public part, and new ones are given, since they are random.

Only marking everything as published publishes a key (`Account.published_mark_iff`). Everything
else that happens to an account publishes nothing.
-/

namespace Vodozemac

/-- A Curve25519 public key, in base64. -/
abbrev PublicKey := String

abbrev KeyId := UInt64

def publicMaxOneTimeKeys : Nat := 50

def maxOneTimeKeys : Nat := 100 * publicMaxOneTimeKeys

/-- The keys as they are stored. What is unpublished is a key that is held. -/
structure OneTimeKeysPickle where
  nextKeyId : KeyId
  unpublishedPublicKeys : BTreeMap KeyId PublicKey
  privateKeys : BTreeMap KeyId PublicKey
  held : ∀ (id : KeyId) (key : PublicKey),
    unpublishedPublicKeys[id]? = some key → privateKeys[id]? = some key

structure OneTimeKeys extends OneTimeKeysPickle where
  keyIdsByKey : BTreeMap PublicKey KeyId

structure FallbackKey where
  keyId : KeyId
  key : PublicKey
  published : Bool
deriving DecidableEq, Repr

structure FallbackKeys where
  keyId : KeyId := 0
  fallbackKey : Option FallbackKey := none
  previousFallbackKey : Option FallbackKey := none
deriving DecidableEq, Repr

structure IdentityKeys where
  curve25519 : PublicKey
  ed25519 : String
deriving DecidableEq, Repr

structure Account where
  identityKeys : IdentityKeys
  oneTimeKeys : OneTimeKeys
  fallbackKeys : FallbackKeys

structure AccountPickle where
  identityKeys : IdentityKeys
  oneTimeKeys : OneTimeKeysPickle
  fallbackKeys : FallbackKeys

namespace OneTimeKeys

def empty : OneTimeKeys where
  nextKeyId := 0
  unpublishedPublicKeys := ∅
  privateKeys := ∅
  held := by simp
  keyIdsByKey := ∅

/-- The index by key is made again; of two ids with one key the larger one stays. -/
def fromPickle (pickle : OneTimeKeysPickle) : OneTimeKeys :=
  { pickle with
    keyIdsByKey := pickle.privateKeys.foldl (fun byKey id key => byKey.insert key id) ∅ }

def markAsPublished (keys : OneTimeKeys) : OneTimeKeys :=
  { keys with unpublishedPublicKeys := ∅, held := by simp }

/-- The keys without the one of an id. -/
def eraseId (keys : OneTimeKeys) (id : KeyId) (byKey : BTreeMap PublicKey KeyId) : OneTimeKeys where
  nextKeyId := keys.nextKeyId
  unpublishedPublicKeys := keys.unpublishedPublicKeys.erase id
  privateKeys := keys.privateKeys.erase id
  held other key h := by
    rw [getElem?_erase_ite] at h ⊢
    split_ifs at h ⊢
    exact keys.held other key h
  keyIdsByKey := byKey

def removeSecretKey (keys : OneTimeKeys) (key : PublicKey) : OneTimeKeys :=
  match keys.keyIdsByKey[key]? with
  | some id => keys.eraseId id (keys.keyIdsByKey.erase key)
  | none => keys

/-- A full store loses its oldest key. -/
def makeSpace (keys : OneTimeKeys) : OneTimeKeys :=
  if maxOneTimeKeys ≤ keys.privateKeys.size then
    match keys.privateKeys.minKey? with
    | some id =>
      keys.eraseId id (match keys.privateKeys[id]? with
        | some key => keys.keyIdsByKey.erase key
        | none => keys.keyIdsByKey)
    | none => keys
  else keys

def insertSecretKey (keys : OneTimeKeys) (id : KeyId) (key : PublicKey) : OneTimeKeys :=
  let keys := keys.makeSpace
  { nextKeyId := keys.nextKeyId
    unpublishedPublicKeys := keys.unpublishedPublicKeys.insert id key
    privateKeys := keys.privateKeys.insert id key
    held := fun other value h => by
      rw [getElem?_insert_ite] at h ⊢
      split_ifs at h ⊢
      · exact h
      · exact keys.held other value h
    keyIdsByKey := keys.keyIdsByKey.insert key id }

def generateOneTimeKey (keys : OneTimeKeys) (key : PublicKey) : OneTimeKeys :=
  let keys := keys.insertSecretKey keys.nextKeyId key
  { keys with nextKeyId := keys.nextKeyId + 1 }

def generate (keys : OneTimeKeys) (fresh : List PublicKey) : OneTimeKeys :=
  fresh.foldl generateOneTimeKey keys

/-- A key that is held and not among the unpublished ones. -/
def Published (keys : OneTimeKeysPickle) (key : PublicKey) : Prop :=
  ∃ id : KeyId, keys.privateKeys[id]? = some key ∧ keys.unpublishedPublicKeys[id]? = none

def Unpublished (keys : OneTimeKeysPickle) (key : PublicKey) : Prop :=
  ∃ id : KeyId, keys.unpublishedPublicKeys[id]? = some key

variable {keys : OneTimeKeys} {key : PublicKey}

theorem published_mark_iff : Published keys.markAsPublished.toOneTimeKeysPickle key ↔
    Published keys.toOneTimeKeysPickle key ∨ Unpublished keys.toOneTimeKeysPickle key := by
  constructor
  · rintro ⟨id, hprivate, -⟩
    cases hunpublished : keys.unpublishedPublicKeys[id]? with
    | none => exact .inl ⟨id, hprivate, hunpublished⟩
    | some other =>
      cases (keys.held id other hunpublished).symm.trans hprivate
      exact .inr ⟨id, hunpublished⟩
  · rintro (⟨id, hprivate, -⟩ | ⟨id, hunpublished⟩)
    · exact ⟨id, hprivate, by simp [markAsPublished]⟩
    · exact ⟨id, keys.held id key hunpublished, by simp [markAsPublished]⟩

theorem published_eraseId {id : KeyId} {byKey : BTreeMap PublicKey KeyId}
    (h : Published (keys.eraseId id byKey).toOneTimeKeysPickle key) :
    Published keys.toOneTimeKeysPickle key := by
  obtain ⟨other, hprivate, hunpublished⟩ := h
  simp only [eraseId, getElem?_erase_ite] at hprivate hunpublished
  split_ifs at hprivate hunpublished
  exact ⟨other, hprivate, hunpublished⟩

theorem published_removeSecretKey {removed : PublicKey}
    (h : Published (keys.removeSecretKey removed).toOneTimeKeysPickle key) :
    Published keys.toOneTimeKeysPickle key := by
  rw [removeSecretKey] at h
  split at h
  · exact published_eraseId h
  · exact h

theorem published_makeSpace (h : Published keys.makeSpace.toOneTimeKeysPickle key) :
    Published keys.toOneTimeKeysPickle key := by
  rw [makeSpace] at h
  split_ifs at h
  · split at h
    · exact published_eraseId h
    · exact h
  · exact h

theorem published_insertSecretKey {id : KeyId} {new : PublicKey}
    (h : Published (keys.insertSecretKey id new).toOneTimeKeysPickle key) :
    Published keys.toOneTimeKeysPickle key := by
  obtain ⟨other, hprivate, hunpublished⟩ := h
  simp only [insertSecretKey, getElem?_insert_ite] at hprivate hunpublished
  split_ifs at hprivate hunpublished
  exact published_makeSpace ⟨other, hprivate, hunpublished⟩

theorem published_generate {fresh : List PublicKey}
    (h : Published (keys.generate fresh).toOneTimeKeysPickle key) :
    Published keys.toOneTimeKeysPickle key := by
  induction fresh using List.reverseRecOn with
  | nil => exact h
  | append_singleton fresh new ih =>
    rw [generate, List.foldl_append, List.foldl_cons, List.foldl_nil] at h
    exact ih (published_insertSecretKey h)

end OneTimeKeys

namespace FallbackKeys

def markAsPublished (keys : FallbackKeys) : FallbackKeys :=
  { keys with fallbackKey := keys.fallbackKey.map fun key => { key with published := true } }

def generateFallbackKey (keys : FallbackKeys) (key : PublicKey) : FallbackKeys where
  keyId := keys.keyId + 1
  previousFallbackKey := keys.fallbackKey
  fallbackKey := some ⟨keys.keyId, key, false⟩

def unpublishedFallbackKey (keys : FallbackKeys) : Option FallbackKey :=
  keys.fallbackKey.filter fun key => !key.published

def Published (keys : FallbackKeys) (key : PublicKey) : Prop :=
  ∃ fallback, (keys.fallbackKey = some fallback ∨ keys.previousFallbackKey = some fallback) ∧
    fallback.published = true ∧ fallback.key = key

def Unpublished (keys : FallbackKeys) (key : PublicKey) : Prop :=
  ∃ fallback, keys.unpublishedFallbackKey = some fallback ∧ fallback.key = key

variable {keys : FallbackKeys} {key : PublicKey}

theorem published_mark_iff :
    keys.markAsPublished.Published key ↔ keys.Published key ∨ keys.Unpublished key := by
  simp only [Published, Unpublished, markAsPublished, unpublishedFallbackKey]
  cases keys.fallbackKey with
  | none => simp
  | some fallback =>
    cases hmark : fallback.published with
    | true => simp [hmark, or_and_right, exists_or]
    | false =>
      simp only [Option.map_some, Option.some.injEq, or_and_right, exists_or, exists_eq_left',
        hmark, Option.filter_some, Bool.not_false, if_true, Bool.false_eq_true, false_and,
        false_or, true_and]
      exact or_comm

theorem published_generate {new : PublicKey} (h : (keys.generateFallbackKey new).Published key) :
    keys.Published key := by
  obtain ⟨fallback, hfallback | hfallback, hmark, rfl⟩ := h
  · cases hfallback
    cases hmark
  · exact ⟨fallback, .inl hfallback, hmark, rfl⟩

end FallbackKeys

namespace Account

/-- An account with nothing but its identity. -/
def new (identityKeys : IdentityKeys) : Account := ⟨identityKeys, .empty, {}⟩

def pickle (account : Account) : AccountPickle :=
  ⟨account.identityKeys, account.oneTimeKeys.toOneTimeKeysPickle, account.fallbackKeys⟩

def fromPickle (pickle : AccountPickle) : Account :=
  ⟨pickle.identityKeys, .fromPickle pickle.oneTimeKeys, pickle.fallbackKeys⟩

/-- The one-time keys that are not published, by id. -/
def unpublishedOneTimeKeys (account : Account) : List (KeyId × PublicKey) :=
  account.oneTimeKeys.unpublishedPublicKeys.toList

def generateOneTimeKeys (account : Account) (fresh : List PublicKey) : Account :=
  { account with oneTimeKeys := account.oneTimeKeys.generate fresh }

def generateFallbackKey (account : Account) (fresh : PublicKey) : Account :=
  { account with fallbackKeys := account.fallbackKeys.generateFallbackKey fresh }

def markKeysAsPublished (account : Account) : Account :=
  { account with
    oneTimeKeys := account.oneTimeKeys.markAsPublished
    fallbackKeys := account.fallbackKeys.markAsPublished }

/-- The secret key of a public one. -/
def findOneTimeKey (account : Account) (key : PublicKey) : Bool :=
  (account.oneTimeKeys.keyIdsByKey[key]?.bind fun id =>
    account.oneTimeKeys.privateKeys[id]?).isSome ||
  account.fallbackKeys.fallbackKey.any (·.key = key) ||
  account.fallbackKeys.previousFallbackKey.any (·.key = key)

def removeOneTimeKey (account : Account) (key : PublicKey) : Account :=
  { account with oneTimeKeys := account.oneTimeKeys.removeSecretKey key }

/-- The account has the key and does not count it among those to be uploaded. -/
def Published (pickle : AccountPickle) (key : PublicKey) : Prop :=
  OneTimeKeys.Published pickle.oneTimeKeys key ∨ pickle.fallbackKeys.Published key

def Unpublished (pickle : AccountPickle) (key : PublicKey) : Prop :=
  OneTimeKeys.Unpublished pickle.oneTimeKeys key ∨ pickle.fallbackKeys.Unpublished key

variable {account : Account} {key : PublicKey}

theorem not_published_new (identityKeys : IdentityKeys) (key : PublicKey) :
    ¬ Published (new identityKeys).pickle key := by
  simp [Published, OneTimeKeys.Published, FallbackKeys.Published, pickle, new, OneTimeKeys.empty]

/-- Marking publishes what was unpublished. -/
theorem published_mark_iff : Published account.markKeysAsPublished.pickle key ↔
    Published account.pickle key ∨ Unpublished account.pickle key := by
  have honeTime := @OneTimeKeys.published_mark_iff account.oneTimeKeys key
  have hfallback := @FallbackKeys.published_mark_iff account.fallbackKeys key
  simp only [Published, Unpublished, pickle, markKeysAsPublished, honeTime, hfallback]
  tauto

theorem published_generateOneTimeKeys {fresh : List PublicKey}
    (h : Published (account.generateOneTimeKeys fresh).pickle key) :
    Published account.pickle key :=
  h.imp_left OneTimeKeys.published_generate

theorem published_generateFallbackKey {fresh : PublicKey}
    (h : Published (account.generateFallbackKey fresh).pickle key) :
    Published account.pickle key :=
  h.imp_right FallbackKeys.published_generate

theorem published_removeOneTimeKey {removed : PublicKey}
    (h : Published (account.removeOneTimeKey removed).pickle key) :
    Published account.pickle key :=
  h.imp_left OneTimeKeys.published_removeSecretKey

end Account

end Vodozemac
