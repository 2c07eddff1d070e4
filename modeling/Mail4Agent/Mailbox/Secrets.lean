import Mail4Agent.Mailbox.ReadPaths

/-!
# Secrets and the accounts they open

Registering and rotating hand a fresh secret to an account; revoking puts a fresh one in the place
of the old and hands it to nobody. The store keeps digests, and an index from digests to accounts
beside the accounts themselves. If the secrets are fresh and their digests differ, the index leads
exactly to the account whose digest it is (`Resolves`), and a secret opens an account exactly while
it is the account's own (`authenticate_iff`).
-/

namespace Mailbox

open InMemoryStore

namespace MailboxEngine

/-- The secret an operation generates. -/
def generated : MailStep → Option String
  | .registerParticipant _ _ _ secret | .rotateParticipantSecret _ secret
  | .revokeParticipantSecret _ secret => some secret
  | _ => none

/-- The secret a revocation generates and throws away. -/
def thrownAway : MailStep → Option String
  | .revokeParticipantSecret _ secret => some secret
  | _ => none

/-- What an operation does to the secret that was issued to an account: it issues one, or it takes
the issued one away. -/
def issues (id : ParticipantId) : MailStep → Option (Option String)
  | .registerParticipant id' _ _ secret | .rotateParticipantSecret id' secret =>
    if id' = id then some (some secret) else none
  | .revokeParticipantSecret id' _ | .deregisterParticipant id' =>
    if id' = id then some none else none
  | _ => none

/-- The same, for the secret the account has in the store. -/
def stores (id : ParticipantId) : MailStep → Option (Option String)
  | .registerParticipant id' _ _ secret | .rotateParticipantSecret id' secret
  | .revokeParticipantSecret id' secret => if id' = id then some (some secret) else none
  | .deregisterParticipant id' => if id' = id then some none else none
  | _ => none

/-- The secret most recently issued to the account and not taken away since. -/
def issuedTo (id : ParticipantId) (done : List MailStep) : Option String :=
  (latest (issues id) done).join

def storedFor (id : ParticipantId) (done : List MailStep) : Option String :=
  (latest (stores id) done).join

variable {id : ParticipantId} {done : List MailStep} {secret : String}

/-- What was issued is what is stored, unless a revocation put it there. -/
theorem storedFor_eq_some_iff (h : secret ∉ done.filterMap thrownAway) :
    storedFor id done = some secret ↔ issuedTo id done = some secret := by
  induction done using List.reverseRecOn with
  | nil => rfl
  | append_singleton done s ih =>
    simp only [List.filterMap_append, List.mem_append, not_or] at h
    have ih := ih h.1
    simp only [storedFor, issuedTo, latest_snoc] at ih ⊢
    cases s with
    | revokeParticipantSecret id' generated =>
      have hne : generated ≠ secret := by simpa [thrownAway, eq_comm] using h.2
      by_cases hid : id' = id <;> simp [stores, issues, hid, hne, ih]
    | registerParticipant id' =>
      by_cases hid : id' = id <;> simp [stores, issues, hid, ih]
    | rotateParticipantSecret id' =>
      by_cases hid : id' = id <;> simp [stores, issues, hid, ih]
    | deregisterParticipant id' =>
      by_cases hid : id' = id <;> simp [stores, issues, hid, ih]
    | _ => simpa [stores, issues] using ih

theorem mem_generated_of_storedFor (h : storedFor id done = some secret) :
    secret ∈ done.filterMap generated := by
  induction done using List.reverseRecOn with
  | nil => cases h
  | append_singleton done s ih =>
    rw [List.filterMap_append, List.mem_append]
    simp only [storedFor, latest_snoc] at ih h
    cases s with
    | revokeParticipantSecret id' | registerParticipant id' | rotateParticipantSecret id' =>
      by_cases hid : id' = id
      · simp_all [stores, generated]
      · exact .inl (ih (by simpa [stores, hid] using h))
    | deregisterParticipant id' =>
      by_cases hid : id' = id
      · simp [stores, hid] at h
      · exact .inl (ih (by simpa [stores, hid] using h))
    | _ => exact .inl (ih (by simpa [stores] using h))

end MailboxEngine

/-! ### The index of digests -/

namespace InMemoryStore

variable {s : InMemoryStore} {id : ParticipantId} {digest : SecretDigest}

def digestOf (s : InMemoryStore) (id : ParticipantId) : Option SecretDigest :=
  s.participants[id]?.map (·.secretDigest)

/-- The index leads to the account whose digest it is. -/
def Indexed (s : InMemoryStore) : Prop :=
  ∀ digest id, s.digestIndex[digest]? = some id ↔ s.digestOf id = some digest

/-- No other account has the digest. -/
def FreeBut (s : InMemoryStore) (id : ParticipantId) (digest : SecretDigest) : Prop :=
  ∀ other, other ≠ id → s.digestOf other ≠ some digest

theorem digestOf_registerParticipant {record : ParticipantRecord} (other : ParticipantId) :
    (s.registerParticipant id record).digestOf other =
      if other = id then some record.secretDigest else s.digestOf other := by
  rw [digestOf, registerParticipant, getElem?_insert_ite]
  split_ifs <;> rfl

theorem digestOf_deregisterParticipant (other : ParticipantId) :
    (s.deregisterParticipant id).digestOf other =
      if other = id then none else s.digestOf other := by
  rw [digestOf, deregisterParticipant]
  cases hid : s.participants[id]? with
  | some record =>
    rw [getElem?_erase_ite]
    split_ifs <;> rfl
  | none =>
    split_ifs with hsame
    · simp [hsame, hid]
    · rfl

theorem digestOf_setParticipantSecretDigest (hid : s.digestOf id ≠ none) (other : ParticipantId) :
    (s.setParticipantSecretDigest id digest).digestOf other =
      if other = id then some digest else s.digestOf other := by
  rw [digestOf, setParticipantSecretDigest]
  cases hrecord : s.participants[id]? with
  | some record =>
    rw [getElem?_insert_ite]
    split_ifs <;> rfl
  | none => simp [digestOf, hrecord] at hid

theorem Indexed.registerParticipant (h : s.Indexed) {record : ParticipantRecord}
    (hnew : s.digestOf id = none) (hfree : s.FreeBut id record.secretDigest) :
    (s.registerParticipant id record).Indexed := by
  intro digest other
  rw [digestOf_registerParticipant, InMemoryStore.registerParticipant, getElem?_insert_ite]
  have hother := hfree other
  have hindex := h digest other
  split_ifs <;> grind

theorem Indexed.deregisterParticipant (h : s.Indexed) : (s.deregisterParticipant id).Indexed := by
  intro digest other
  rw [digestOf_deregisterParticipant, InMemoryStore.deregisterParticipant]
  have hindex := h digest other
  cases hid : s.participants[id]? with
  | none =>
    have : s.digestOf id = none := by simp [digestOf, hid]
    split_ifs <;> grind
  | some record =>
    have hdigest : s.digestOf id = some record.secretDigest := by simp [digestOf, hid]
    have hrecord := h record.secretDigest id
    rw [getElem?_erase_ite]
    split_ifs <;> grind

theorem Indexed.setParticipantSecretDigest (h : s.Indexed) (hid : s.digestOf id ≠ none)
    (hfree : s.FreeBut id digest) : (s.setParticipantSecretDigest id digest).Indexed := by
  intro digest' other
  rw [digestOf_setParticipantSecretDigest hid, InMemoryStore.setParticipantSecretDigest]
  have hindex := h digest' other
  have hother := hfree other
  cases hrecord : s.participants[id]? with
  | none => simp [digestOf, hrecord] at hid
  | some record =>
    have hdigest : s.digestOf id = some record.secretDigest := by simp [digestOf, hrecord]
    have hold := h record.secretDigest id
    rw [getElem?_insert_ite, getElem?_erase_ite]
    split_ifs <;> grind

theorem digestOf_setListenerUrl (url : Option String) (other : ParticipantId) :
    (s.setListenerUrl id url).digestOf other = s.digestOf other := by
  rw [digestOf, setListenerUrl]
  cases hrecord : s.participants[id]? with
  | none => rfl
  | some record =>
    rw [getElem?_insert_ite]
    split_ifs with hid
    · simp [digestOf, hid, hrecord]
    · rfl

end InMemoryStore

/-! ### Along a run -/

namespace MailboxEngine

variable {sha : Sha256} {engine next : MailboxEngine InMemoryStore} {done : List MailStep}
  {s : MailStep} {secret : String}

def digestFor (sha : Sha256) (secret : String) : SecretDigest := sha.hash (textBytes secret)

/-- The generated secrets are distinct, and so are their digests. -/
structure Fresh (sha : Sha256) (done : List MailStep) : Prop where
  nodup : (done.filterMap generated).Nodup
  digests : Set.InjOn (digestFor sha) {secret | secret ∈ done.filterMap generated}

theorem Fresh.before (h : Fresh sha (done ++ [s])) : Fresh sha done := by
  obtain ⟨hnodup, hdigests⟩ := h
  rw [List.filterMap_append] at hnodup hdigests
  exact ⟨hnodup.of_append_left, hdigests.mono fun secret h => List.mem_append_left _ h⟩

/-- The accounts have the digests of their secrets, and the index leads to them. -/
structure Resolves (sha : Sha256) (done : List MailStep) (engine : MailboxEngine InMemoryStore) :
    Prop where
  digest (id : ParticipantId) :
    engine.store.digestOf id = (storedFor id done).map (digestFor sha)
  indexed : engine.store.Indexed

/-- A fresh secret has a digest that no account has. -/
theorem Resolves.free (h : Resolves sha done engine) (hfresh : Fresh sha (done ++ [s]))
    (hs : generated s = some secret) (id : ParticipantId) :
    engine.store.digestOf id ≠ some (digestFor sha secret) := by
  intro hid
  rw [h.digest, Option.map_eq_some_iff] at hid
  obtain ⟨stored, hstored, hsame⟩ := hid
  have hold := mem_generated_of_storedFor hstored
  have hnew : (done ++ [s]).filterMap generated = done.filterMap generated ++ [secret] := by
    simp [hs]
  obtain ⟨hnodup, hdigests⟩ := hfresh
  rw [hnew] at hnodup hdigests
  obtain rfl := hdigests (List.mem_append_left _ hold) (List.mem_append_right _ (by simp)) hsame
  exact (List.nodup_append.1 hnodup).2.2 stored hold stored (by simp) rfl

/-- Only the four operations on accounts concern secrets. -/
theorem Resolves.of_others (h : Resolves sha done engine) (hnext : engine.perform sha s = .ok next)
    (hdigest : ∀ id, next.store.digestOf id = engine.store.digestOf id)
    (htable : s.table ≠ .accounts) (hs : ∀ id, stores id s = none) :
    Resolves sha (done ++ [s]) next := by
  refine ⟨fun id => ?_, fun digest id => ?_⟩
  · rw [hdigest, h.digest, storedFor, storedFor, latest_snoc, hs, Option.none_or]
  · rw [(perform_untouched hnext).digestIndex htable, hdigest]
    exact h.indexed digest id

variable {id : ParticipantId}

theorem digestOf_of_requireParticipant {record : ParticipantRecord}
    (h : engine.requireParticipant id = .ok record) : engine.store.digestOf id ≠ none := by
  simp [digestOf, requireParticipant_eq_ok.1 h]

/-- A rotated or revoked secret gives way to the fresh one. -/
theorem Resolves.rotate (h : Resolves sha done engine) (hfresh : Fresh sha (done ++ [s]))
    (hs : generated s = some secret)
    (hstores : ∀ other, stores other s = if id = other then some (some secret) else none)
    {rotated : String × MailboxEngine InMemoryStore}
    (hrotated : engine.rotateParticipantSecret sha id secret = .ok rotated) :
    Resolves sha (done ++ [s]) rotated.2 := by
  obtain ⟨record, hrecord, -⟩ := bind_eq_ok_iff.1 hrotated
  have hid := digestOf_of_requireParticipant hrecord
  obtain ⟨_, ⟨⟩, rfl⟩ := rotateParticipantSecret_ok hrotated
  refine ⟨fun other => ?_, h.indexed.setParticipantSecretDigest hid fun other _ =>
    h.free hfresh hs other⟩
  rw [digestOf_setParticipantSecretDigest hid, h.digest, storedFor, storedFor,
    latest_snoc, hstores]
  by_cases hother : other = id
  · simp [hother, digestFor]
  · simp [hother, Ne.symm hother]

theorem Resolves.perform (h : Resolves sha done engine) (hfresh : Fresh sha (done ++ [s]))
    (hnext : engine.perform sha s = .ok next) : Resolves sha (done ++ [s]) next := by
  cases s with
  | registerParticipant id label permissions secret =>
    obtain ⟨result, hresult, rfl⟩ := map_eq_ok_iff.1 hnext
    obtain ⟨hnew, _, ⟨⟩, rfl⟩ := registerParticipant_ok hresult
    refine ⟨fun other => ?_, h.indexed.registerParticipant (by simp [digestOf, Except.ok.inj hnew])
      fun other _ => h.free hfresh rfl other⟩
    rw [digestOf_registerParticipant, h.digest, storedFor, storedFor, latest_snoc]
    by_cases hother : other = id
    · simp [hother, stores, digestFor]
    · simp [hother, Ne.symm hother, stores]
  | rotateParticipantSecret id secret =>
    obtain ⟨result, hresult, rfl⟩ := map_eq_ok_iff.1 hnext
    exact h.rotate hfresh rfl (fun _ => rfl) hresult
  | revokeParticipantSecret id secret =>
    obtain ⟨result, hresult, hnext⟩ := bind_eq_ok_iff.1 hnext
    cases hnext
    exact h.rotate hfresh rfl (fun _ => rfl) hresult
  | deregisterParticipant id =>
    obtain ⟨_, ⟨⟩, rfl⟩ := deregisterParticipant_ok hnext
    refine ⟨fun other => ?_, h.indexed.deregisterParticipant⟩
    rw [digestOf_deregisterParticipant, h.digest, storedFor, storedFor, latest_snoc]
    by_cases hother : other = id
    · simp [hother, stores]
    · simp [hother, Ne.symm hother, stores]
  | setListener id url =>
    refine h.of_others hnext (fun other => ?_) nofun fun _ => rfl
    obtain ⟨_, ⟨⟩, rfl⟩ := setListener_ok hnext
    exact digestOf_setListenerUrl _ other
  | removeListener id =>
    refine h.of_others hnext (fun other => ?_) nofun fun _ => rfl
    obtain ⟨_, ⟨⟩, rfl⟩ := removeListener_ok hnext
    exact digestOf_setListenerUrl _ other
  | _ =>
    refine h.of_others hnext (fun id => ?_) nofun fun _ => rfl
    rw [digestOf, (perform_untouched hnext).participants nofun nofun,
      digestOf]

theorem resolves_run (steps : List MailStep)
    (hfresh : Fresh sha (accepted sha ⟨InMemoryStore.new⟩ steps)) :
    Resolves sha (accepted sha ⟨InMemoryStore.new⟩ steps)
      (Trace.run (step sha) ⟨InMemoryStore.new⟩ steps) :=
  accepted_invariant (fun done engine => Fresh sha done → Resolves sha done engine)
    (fun _ _ _ _ h hnext hfresh => (h hfresh.before).perform hfresh hnext)
    (fun _ => ⟨fun _ => rfl, fun _ _ => by simp [new, digestOf]⟩)
    steps hfresh

theorem authenticate_eq_ok (h : engine.store.Indexed) :
    engine.authenticate sha secret = .ok id ↔
      engine.store.digestOf id = some (digestFor sha secret) := by
  have hindex := h (digestFor sha secret)
  rw [← hindex]
  unfold digestFor at hindex ⊢
  simp only [authenticate, MailStore.findParticipantByDigest, storeUnavailable_ok, ok_bind,
    findParticipantByDigest]
  cases hfound : engine.store.digestIndex[sha.hash (textBytes secret)]? with
  | none => simp
  | some owner =>
    obtain ⟨record, hrecord, hdigest⟩ := Option.map_eq_some_iff.1 ((hindex owner).1 hfound)
    simp [hrecord, hdigest]

/-- After every run with fresh secrets, a secret that was not thrown away opens an account exactly
if it is the one most recently issued to it and not revoked since, and the account is registered. -/
theorem authenticate_iff (steps : List MailStep) (id : ParticipantId)
    (hfresh : Fresh sha (accepted sha ⟨InMemoryStore.new⟩ steps))
    (hdigest : ∀ other ∈ (accepted sha ⟨InMemoryStore.new⟩ steps).filterMap generated,
      digestFor sha other = digestFor sha secret → other = secret)
    (hissued : secret ∉ (accepted sha ⟨InMemoryStore.new⟩ steps).filterMap thrownAway) :
    (Trace.run (step sha) ⟨InMemoryStore.new⟩ steps).authenticate sha secret = .ok id ↔
      issuedTo id (accepted sha ⟨InMemoryStore.new⟩ steps) = some secret ∧
        (Trace.run (step sha) ⟨InMemoryStore.new⟩ steps).store.participants[id]?.isSome := by
  have hresolves := resolves_run steps hfresh
  rw [authenticate_eq_ok hresolves.indexed, ← storedFor_eq_some_iff hissued]
  constructor
  · intro hid
    have hregistered : (Trace.run (step sha) ⟨new⟩ steps).store.digestOf id ≠ none := by
      simp [hid]
    rw [hresolves.digest, Option.map_eq_some_iff] at hid
    obtain ⟨stored, hstored, hsame⟩ := hid
    obtain rfl := hdigest stored (mem_generated_of_storedFor hstored) hsame
    exact ⟨hstored, by simpa [digestOf, Option.isSome_iff_ne_none] using hregistered⟩
  · rintro ⟨hstored, -⟩
    rw [hresolves.digest, hstored, Option.map_some]

/-! Alice is registered and changes the secret. -/

def aliceRotates : List MailStep :=
  [.registerParticipant alice none {} "first", .rotateParticipantSecret alice "second"]

theorem authenticate_iff_second :
    (Trace.run (step leadingBytes) ⟨InMemoryStore.new⟩ aliceRotates).authenticate leadingBytes
      "second" = .ok alice := by
  have hgenerated : (accepted leadingBytes ⟨new⟩ aliceRotates).filterMap generated =
      ["first", "second"] := by decide +kernel
  have hdiffer : digestFor leadingBytes "first" ≠ digestFor leadingBytes "second" := by
    decide +kernel
  refine (authenticate_iff aliceRotates alice ⟨?_, ?_⟩ ?_ ?_).2 ⟨?_, ?_⟩
  · rw [hgenerated]
    decide
  · rw [hgenerated]
    intro a ha b hb hsame
    simp only [List.mem_cons, List.not_mem_nil, or_false, Set.mem_ofPred_eq] at ha hb
    obtain rfl | rfl := ha <;> obtain rfl | rfl := hb <;> first | rfl | exact absurd hsame hdiffer |
      exact absurd hsame.symm hdiffer
  · rw [hgenerated]
    intro other hother hsame
    simp only [List.mem_cons, List.not_mem_nil, or_false] at hother
    obtain rfl | rfl := hother
    · exact absurd hsame hdiffer
    · rfl
  all_goals decide +kernel

end MailboxEngine

end Mailbox
