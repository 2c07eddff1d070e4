import Mail4Agent.Foundation.Trace
import Mail4Agent.Mailbox.Engine

/-!
# Runs of the mailbox engine

A run is a sequence of operations, in any order and by anyone. A refused operation changes nothing.
What one operation does to the store in memory is said once (`step_effect`); an invariant of all
runs is one that every effect keeps.
-/

namespace Mailbox

/-- The operations that may change something, with everything that is handed to them. -/
inductive MailStep where
  | registerParticipant (id : ParticipantId) (label : Option String)
      (permissions : ParticipantPermissions) (secret : String)
  | deregisterParticipant (id : ParticipantId)
  | rotateParticipantSecret (id : ParticipantId) (secret : String)
  | revokeParticipantSecret (id : ParticipantId) (secret : String)
  | setListener (id : ParticipantId) (url : String)
  | removeListener (id : ParticipantId)
  | createRoom (id : RoomId) (nowUnixMs : UInt64)
  | addRoomMember (room : RoomId) (participant : ParticipantId)
  | removeRoomMember (room : RoomId) (participant : ParticipantId)
  | ensureSession (account : ParticipantId) (sessionId : SessionId) (card : SessionCard)
      (nowUnixMs : UInt64)
  | setDeclared (session : SessionId) (workingOn role : Option String) (parent : Option SessionId)
  | send (sender : Address) (request : SendRequest) (nowUnixMs : UInt64) (nonce : Bytes)
  | ack (reader : Address) (messageId : MessageId) (nowUnixMs : UInt64)

namespace MailboxEngine

variable {S : Type} [MailStore S] (sha : Sha256)

/-- The engine after an operation, if it was not refused. -/
def perform (engine : MailboxEngine S) : MailStep → Except MailError (MailboxEngine S)
  | .registerParticipant id label permissions secret =>
    (engine.registerParticipant sha id label permissions secret).map Prod.snd
  | .deregisterParticipant id => engine.deregisterParticipant id
  | .rotateParticipantSecret id secret =>
    (engine.rotateParticipantSecret sha id secret).map Prod.snd
  | .revokeParticipantSecret id secret => engine.revokeParticipantSecret sha id secret
  | .setListener id url => engine.setListener id url
  | .removeListener id => engine.removeListener id
  | .createRoom id nowUnixMs => engine.createRoom id nowUnixMs
  | .addRoomMember room participant => engine.addRoomMember room participant
  | .removeRoomMember room participant => engine.removeRoomMember room participant
  | .ensureSession account sessionId card nowUnixMs =>
    (engine.ensureSession account sessionId card nowUnixMs).map Prod.snd
  | .setDeclared session workingOn role parent =>
    engine.setDeclared session workingOn role parent
  | .send sender request nowUnixMs nonce =>
    (engine.send sha sender request nowUnixMs nonce).map Prod.snd
  | .ack reader messageId nowUnixMs => (engine.ack reader messageId nowUnixMs).map Prod.snd

def step (engine : MailboxEngine S) (s : MailStep) : MailboxEngine S :=
  (engine.perform sha s).toOption.getD engine

variable {engine : MailboxEngine S} {α : Type}

/-- An identity is an account or one of its sessions. -/
theorem account_of_resolveIdentity {identity : Address} {account : ParticipantId}
    {record : ParticipantRecord} (h : engine.resolveIdentity identity = .ok (account, record)) :
    identity.account = some account := by
  cases identity with
  | direct participant =>
    simp only [resolveIdentity, Address.validate_eq, ok_bind] at h
    obtain ⟨found, -, h⟩ := bind_eq_ok_iff.1 h
    exact congrArg (some ∘ Prod.fst) (Except.ok.inj h)
  | session participant session =>
    simp only [resolveIdentity, Address.validate_eq, ok_bind, error_bind] at h
    obtain ⟨found, -, h⟩ := bind_eq_ok_iff.1 h
    cases found with
    | none => cases h
    | some record =>
      dsimp only at h
      split_ifs at h
      obtain ⟨found, -, h⟩ := bind_eq_ok_iff.1 h
      exact congrArg (some ∘ Prod.fst) (Except.ok.inj h)
  | room room => simp [resolveIdentity] at h

/-- The operations of a run that were not refused. -/
def accepted (engine : MailboxEngine S) : List MailStep → List MailStep
  | [] => []
  | s :: rest =>
    match engine.perform sha s with
    | .ok next => s :: next.accepted rest
    | .error _ => engine.accepted rest

/-- What every accepted operation keeps between the operations done and the engine holds after
every run. -/
theorem accepted_invariant {sha : Sha256} (inv : List MailStep → MailboxEngine S → Prop)
    (preserved : ∀ done engine s next, inv done engine → perform sha engine s = .ok next →
      inv (done ++ [s]) next)
    (start : inv [] engine) (steps : List MailStep) :
    inv (engine.accepted sha steps) (Trace.run (step sha) engine steps) := by
  suffices h : ∀ done engine, inv done engine →
      inv (done ++ accepted sha engine steps) (Trace.run (step sha) engine steps) from
    h [] engine start
  induction steps with
  | nil =>
    intro done engine hdone
    simpa [accepted] using hdone
  | cons s rest ih =>
    intro done engine hdone
    cases hs : engine.perform sha s with
    | ok next =>
      have hnext := ih (done ++ [s]) next (preserved done engine s next hdone hs)
      simpa [accepted, step, hs, Except.toOption] using hnext
    | error e => simpa [accepted, step, hs, Except.toOption] using ih done engine hdone

/-- The last of the operations for which `f` has a value. -/
def latest {α : Type} (f : MailStep → Option α) (done : List MailStep) : Option α :=
  done.reverse.findSome? f

@[simp] theorem latest_nil (f : MailStep → Option α) : latest f [] = none := rfl

@[simp] theorem latest_snoc (f : MailStep → Option α) (done : List MailStep) (s : MailStep) :
    latest f (done ++ [s]) = (f s).or (latest f done) := by
  simp only [latest, List.reverse_append, List.reverse_cons, List.reverse_nil, List.nil_append,
    List.singleton_append, List.findSome?_cons]
  cases f s <;> rfl

end MailboxEngine

/-! ### What an operation asks of a store -/

inductive Table where
  | accounts | listeners | rooms | members | sessions | messages | acks
deriving DecidableEq

/-- The table an operation writes. -/
def MailStep.table : MailStep → Table
  | .registerParticipant .. | .deregisterParticipant _ | .rotateParticipantSecret ..
  | .revokeParticipantSecret .. => .accounts
  | .setListener .. | .removeListener _ => .listeners
  | .createRoom .. => .rooms
  | .addRoomMember .. | .removeRoomMember .. => .members
  | .ensureSession .. | .setDeclared .. => .sessions
  | .send .. => .messages
  | .ack .. => .acks

/-- The store after one of its mutations, and the table it is about. -/
inductive Mutation {S : Type} [MailStore S] (s s' : S) : Table → Prop
  | registered (id : ParticipantId) (record : ParticipantRecord)
      (h : MailStore.registerParticipant s id record = .ok s') : Mutation s s' .accounts
  | deregistered (id : ParticipantId) (h : MailStore.deregisterParticipant s id = .ok s') :
      Mutation s s' .accounts
  | rotated (id : ParticipantId) (digest : SecretDigest)
      (h : MailStore.setParticipantSecretDigest s id digest = .ok s') : Mutation s s' .accounts
  | listening (id : ParticipantId) (url : Option String)
      (h : MailStore.setListenerUrl s id url = .ok s') : Mutation s s' .listeners
  | roomCreated (id : RoomId) (nowUnixMs : UInt64)
      (h : MailStore.createRoom s id nowUnixMs = .ok s') : Mutation s s' .rooms
  | memberAdded (room : RoomId) (participant : ParticipantId)
      (h : MailStore.addRoomMember s room participant = .ok s') : Mutation s s' .members
  | memberRemoved (room : RoomId) (participant : ParticipantId)
      (h : MailStore.removeRoomMember s room participant = .ok s') : Mutation s s' .members
  | sessionSaved (session : SessionId) (record : SessionRecord)
      (kept : ∀ old, MailStore.getSession s session = .ok (some old) →
        old.account = record.account)
      (h : MailStore.upsertSession s session record = .ok s') : Mutation s s' .sessions
  | sent (message : Message) (key : Option IdempotencyKey) (outcome : InsertMessageOutcome)
      (h : MailStore.insertMessage s message key = .ok (outcome, s')) : Mutation s s' .messages
  | acked (ack kept : Ack) (h : MailStore.recordAck s ack = .ok (kept, s')) : Mutation s s' .acks

namespace MailboxEngine

section Asked

variable {S α β : Type} {operation : String} {result : Except StoreError α}

@[simp]
theorem storeUnavailable_ok (operation : String) (value : α) :
    storeUnavailable operation (.ok value) = .ok value := rfl

theorem storeUnavailable_eq_ok {value : α} :
    storeUnavailable operation result = .ok value ↔ result = .ok value := by
  cases result <;> simp [storeUnavailable, Except.mapError]

/-- An operation ends by asking its store for one thing. -/
theorem exists_store {f : α → β} {next : β}
    (h : (storeUnavailable operation result >>= fun a => pure (f a)) = .ok next) :
    ∃ a, result = .ok a ∧ next = f a := by
  obtain ⟨a, ha, h⟩ := bind_eq_ok_iff.1 h
  exact ⟨a, storeUnavailable_eq_ok.1 ha, (Except.ok.inj h).symm⟩

/-! One lemma for each operation: what it found, and what it asked for. -/

variable [MailStore S] {sha : Sha256} {engine next : MailboxEngine S}
  {id participant : ParticipantId} {room : RoomId} {secret : String}
  {result : String × MailboxEngine S} {nowUnixMs : UInt64}

theorem registerParticipant_ok {label : Option String} {permissions : ParticipantPermissions}
    (h : engine.registerParticipant sha id label permissions secret = .ok result) :
    MailStore.getParticipant engine.store id = .ok none ∧
      ∃ store, MailStore.registerParticipant engine.store id ⟨label, sha.hash (textBytes secret),
        permissions.maySend, permissions.mayRead, permissions.operator, none⟩ = .ok store ∧
        result = (secret, ⟨store⟩) := by
  obtain ⟨-, -, h⟩ := bind_eq_ok_iff.1 h
  obtain ⟨existing, hexisting, h⟩ := bind_eq_ok_iff.1 h
  simp only [error_bind] at h
  split_ifs at h with hfresh
  obtain rfl : existing = none := by simpa using hfresh
  exact ⟨storeUnavailable_eq_ok.1 hexisting, exists_store h⟩

theorem deregisterParticipant_ok (h : engine.deregisterParticipant id = .ok next) :
    ∃ store, MailStore.deregisterParticipant engine.store id = .ok store ∧ next = ⟨store⟩ := by
  obtain ⟨-, -, h⟩ := bind_eq_ok_iff.1 h
  exact exists_store h

theorem rotateParticipantSecret_ok (h : engine.rotateParticipantSecret sha id secret = .ok result) :
    ∃ store, MailStore.setParticipantSecretDigest engine.store id (sha.hash (textBytes secret)) =
      .ok store ∧ result = (secret, ⟨store⟩) := by
  obtain ⟨-, -, h⟩ := bind_eq_ok_iff.1 h
  exact exists_store h

theorem setListener_ok {url : String} (h : engine.setListener id url = .ok next) :
    ∃ store, MailStore.setListenerUrl engine.store id (some url) = .ok store ∧ next = ⟨store⟩ := by
  obtain ⟨-, -, h⟩ := bind_eq_ok_iff.1 h
  obtain ⟨-, -, h⟩ := bind_eq_ok_iff.1 h
  exact exists_store h

theorem removeListener_ok (h : engine.removeListener id = .ok next) :
    ∃ store, MailStore.setListenerUrl engine.store id none = .ok store ∧ next = ⟨store⟩ := by
  obtain ⟨-, -, h⟩ := bind_eq_ok_iff.1 h
  exact exists_store h

theorem createRoom_ok (h : engine.createRoom room nowUnixMs = .ok next) :
    MailStore.getRoom engine.store room = .ok none ∧
      ∃ store, MailStore.createRoom engine.store room nowUnixMs = .ok store ∧ next = ⟨store⟩ := by
  obtain ⟨existing, hexisting, h⟩ := bind_eq_ok_iff.1 h
  simp only [error_bind] at h
  split_ifs at h with hfresh
  obtain rfl : existing = none := by simpa using hfresh
  exact ⟨storeUnavailable_eq_ok.1 hexisting, exists_store h⟩

theorem addRoomMember_ok (h : engine.addRoomMember room participant = .ok next) :
    MailStore.getParticipant engine.store participant ≠ .ok none ∧
      ∃ store, MailStore.addRoomMember engine.store room participant = .ok store ∧
        next = ⟨store⟩ := by
  obtain ⟨roomRecord, -, h⟩ := bind_eq_ok_iff.1 h
  simp only [error_bind] at h
  split_ifs at h with hroom
  obtain ⟨found, hfound, h⟩ := bind_eq_ok_iff.1 h
  split_ifs at h with hparticipant
  refine ⟨fun hnone => hparticipant ?_, exists_store h⟩
  cases (storeUnavailable_eq_ok.1 hfound).symm.trans hnone
  rfl

theorem removeRoomMember_ok (h : engine.removeRoomMember room participant = .ok next) :
    ∃ store, MailStore.removeRoomMember engine.store room participant = .ok store ∧
      next = ⟨store⟩ := by
  obtain ⟨roomRecord, -, h⟩ := bind_eq_ok_iff.1 h
  simp only [error_bind] at h
  split_ifs at h with hroom
  exact exists_store h

theorem ensureSession_ok {account : ParticipantId} {sessionId : SessionId} {card : SessionCard}
    {result : SessionId × MailboxEngine S}
    (h : engine.ensureSession account sessionId card nowUnixMs = .ok result) :
    ∃ declared, (∀ old, MailStore.getSession engine.store sessionId = .ok (some old) →
        old.account = account ∧ old.card.declared = declared) ∧
      (MailStore.getSession engine.store sessionId = .ok none → declared = {}) ∧
      ∃ store, MailStore.upsertSession engine.store sessionId
        ⟨account, ⟨card.attested, card.corroborated, declared⟩, nowUnixMs⟩ = .ok store ∧
        result = (sessionId, ⟨store⟩) := by
  obtain ⟨-, -, h⟩ := bind_eq_ok_iff.1 h
  obtain ⟨-, -, h⟩ := bind_eq_ok_iff.1 h
  obtain ⟨-, -, h⟩ := bind_eq_ok_iff.1 h
  obtain ⟨existing, hexisting, h⟩ := bind_eq_ok_iff.1 h
  rw [storeUnavailable_eq_ok.1 hexisting]
  simp only [ok_bind, error_bind] at h
  cases existing with
  | none =>
    obtain ⟨-, -, h⟩ := bind_eq_ok_iff.1 h
    exact ⟨{}, nofun, fun _ => rfl, exists_store h⟩
  | some old =>
    dsimp only at h
    split_ifs at h with haccount
    obtain ⟨-, -, h⟩ := bind_eq_ok_iff.1 h
    exact ⟨old.card.declared, by simp [haccount], nofun, exists_store h⟩

theorem setDeclared_ok {session : SessionId} {workingOn role : Option String}
    {parent : Option SessionId} (h : engine.setDeclared session workingOn role parent = .ok next) :
    ∃ record, MailStore.getSession engine.store session = .ok (some record) ∧
      ∃ store, MailStore.upsertSession engine.store session
        { record with card := { record.card with declared := ⟨workingOn, role, parent⟩ } } =
          .ok store ∧ next = ⟨store⟩ := by
  obtain ⟨-, -, h⟩ := bind_eq_ok_iff.1 h
  obtain ⟨found, hfound, h⟩ := bind_eq_ok_iff.1 h
  cases found with
  | none => cases h
  | some record =>
    obtain ⟨-, -, h⟩ := bind_eq_ok_iff.1 h
    exact ⟨record, storeUnavailable_eq_ok.1 hfound, exists_store h⟩

/-- The message of a send. -/
def sentMessage (sha : Sha256) (sender : Address) (request : SendRequest) (nowUnixMs : UInt64)
    (nonce : Bytes) : Message where
  messageId := deriveMessageId sha sender request nowUnixMs nonce
  «from» := sender
  «to» := request.to
  subject := request.subject
  body := request.body
  replyTo := request.replyTo
  correlation := request.correlation
  refs := request.refs
  createdAtUnixMs := nowUnixMs

theorem send_ok {sender : Address} {request : SendRequest} {nonce : Bytes}
    {result : SendResponse × MailboxEngine S}
    (h : engine.send sha sender request nowUnixMs nonce = .ok result) :
    (sentMessage sha sender request nowUnixMs nonce).validate = .ok () ∧
      ∃ outcome, MailStore.insertMessage engine.store
        (sentMessage sha sender request nowUnixMs nonce)
        (request.idempotencyKey.map fun key => ⟨sender, key⟩) = .ok (outcome, result.2.store) := by
  obtain ⟨-, -, h⟩ := bind_eq_ok_iff.1 h
  obtain ⟨⟨account, record⟩, -, h⟩ := bind_eq_ok_iff.1 h
  simp only [error_bind] at h
  split_ifs at h with hmay
  obtain ⟨-, -, h⟩ := bind_eq_ok_iff.1 h
  obtain ⟨⟨⟩, hvalid, h⟩ := bind_eq_ok_iff.1 h
  obtain ⟨⟨outcome, store⟩, hstore, rfl⟩ := exists_store h
  exact ⟨hvalid, outcome, hstore⟩

theorem ack_ok {reader : Address} {messageId : MessageId} {result : Ack × MailboxEngine S}
    (h : engine.ack reader messageId nowUnixMs = .ok result) :
    (Ack.mk messageId reader nowUnixMs).validate = .ok () ∧
      MailStore.recordAck engine.store ⟨messageId, reader, nowUnixMs⟩ =
        .ok (result.1, result.2.store) := by
  obtain ⟨-, -, h⟩ := bind_eq_ok_iff.1 h
  obtain ⟨⟨⟩, hvalid, h⟩ := bind_eq_ok_iff.1 h
  obtain ⟨⟨kept, store⟩, hstore, rfl⟩ := exists_store h
  exact ⟨hvalid, hstore⟩

theorem perform_mutation {step : MailStep} (h : engine.perform sha step = .ok next) :
    Mutation engine.store next.store step.table := by
  cases step with
  | registerParticipant id label permissions secret =>
    obtain ⟨result, hresult, rfl⟩ := map_eq_ok_iff.1 h
    obtain ⟨-, store, hstore, rfl⟩ := registerParticipant_ok hresult
    exact .registered id _ hstore
  | deregisterParticipant id =>
    obtain ⟨store, hstore, rfl⟩ := deregisterParticipant_ok h
    exact .deregistered id hstore
  | rotateParticipantSecret id secret =>
    obtain ⟨result, hresult, rfl⟩ := map_eq_ok_iff.1 h
    obtain ⟨store, hstore, rfl⟩ := rotateParticipantSecret_ok hresult
    exact .rotated id _ hstore
  | revokeParticipantSecret id secret =>
    obtain ⟨result, hresult, ⟨⟩⟩ := bind_eq_ok_iff.1 h
    obtain ⟨store, hstore, rfl⟩ := rotateParticipantSecret_ok hresult
    exact .rotated id _ hstore
  | setListener id url =>
    obtain ⟨store, hstore, rfl⟩ := setListener_ok h
    exact .listening id _ hstore
  | removeListener id =>
    obtain ⟨store, hstore, rfl⟩ := removeListener_ok h
    exact .listening id _ hstore
  | createRoom id nowUnixMs =>
    obtain ⟨-, store, hstore, rfl⟩ := createRoom_ok h
    exact .roomCreated id nowUnixMs hstore
  | addRoomMember room participant =>
    obtain ⟨-, store, hstore, rfl⟩ := addRoomMember_ok h
    exact .memberAdded room participant hstore
  | removeRoomMember room participant =>
    obtain ⟨store, hstore, rfl⟩ := removeRoomMember_ok h
    exact .memberRemoved room participant hstore
  | ensureSession account sessionId card nowUnixMs =>
    obtain ⟨result, hresult, rfl⟩ := map_eq_ok_iff.1 h
    obtain ⟨declared, hold, -, store, hstore, rfl⟩ := ensureSession_ok hresult
    exact .sessionSaved sessionId _ (fun old h => (hold old h).1) hstore
  | setDeclared session workingOn role parent =>
    obtain ⟨record, hrecord, store, hstore, rfl⟩ := setDeclared_ok h
    refine .sessionSaved session _ (fun old hold => ?_) hstore
    cases hrecord.symm.trans hold
    rfl
  | send sender request nowUnixMs nonce =>
    obtain ⟨result, hresult, rfl⟩ := map_eq_ok_iff.1 h
    obtain ⟨-, outcome, hstore⟩ := send_ok hresult
    exact .sent _ _ outcome hstore
  | ack reader messageId nowUnixMs =>
    obtain ⟨result, hresult, rfl⟩ := map_eq_ok_iff.1 h
    exact .acked _ _ (ack_ok hresult).2

end Asked

end MailboxEngine

/-! ### What an operation does to the store in memory -/

inductive Effect (s : InMemoryStore) : InMemoryStore → Prop
  | nothing : Effect s s
  | registered (id : ParticipantId) (record : ParticipantRecord)
      (fresh : s.participants[id]? = none) : Effect s (s.registerParticipant id record)
  | deregistered (id : ParticipantId) : Effect s (s.deregisterParticipant id)
  | rotated (id : ParticipantId) (digest : SecretDigest) :
      Effect s (s.setParticipantSecretDigest id digest)
  | listening (id : ParticipantId) (url : Option String) : Effect s (s.setListenerUrl id url)
  | roomCreated (id : RoomId) (nowUnixMs : UInt64) (fresh : s.rooms[id]? = none) :
      Effect s (s.createRoom id nowUnixMs)
  | memberAdded (room : RoomId) (participant : ParticipantId)
      (registered : s.participants[participant]? ≠ none) :
      Effect s (s.addRoomMember room participant)
  | memberRemoved (room : RoomId) (participant : ParticipantId) :
      Effect s (s.removeRoomMember room participant)
  | sessionSaved (session : SessionId) (record : SessionRecord)
      (kept : ∀ old, s.sessions[session]? = some old → old.account = record.account) :
      Effect s (s.upsertSession session record)
  | sent (message : Message) (idempotency : Option IdempotencyKey)
      (valid : message.validate = .ok ()) : Effect s (s.insertMessage message idempotency).2
  | acked (ack : Ack) (valid : ack.validate = .ok ()) : Effect s (s.recordAck ack).2

namespace MailboxEngine

variable {sha : Sha256} {engine next : MailboxEngine InMemoryStore}

theorem requireParticipant_eq_ok {id : ParticipantId} {record : ParticipantRecord} :
    engine.requireParticipant id = .ok record ↔ engine.store.participants[id]? = some record := by
  simp only [requireParticipant, MailStore.getParticipant, storeUnavailable_ok, ok_bind]
  cases engine.store.participants[id]? <;> simp

theorem perform_effect {s : MailStep} (h : engine.perform sha s = .ok next) :
    Effect engine.store next.store := by
  cases s with
  | registerParticipant id label permissions secret =>
    obtain ⟨result, hresult, rfl⟩ := map_eq_ok_iff.1 h
    obtain ⟨hfresh, _, ⟨⟩, rfl⟩ := registerParticipant_ok hresult
    exact .registered id _ (Except.ok.inj hfresh)
  | deregisterParticipant id =>
    obtain ⟨_, ⟨⟩, rfl⟩ := deregisterParticipant_ok h
    exact .deregistered id
  | rotateParticipantSecret id secret =>
    obtain ⟨result, hresult, rfl⟩ := map_eq_ok_iff.1 h
    obtain ⟨_, ⟨⟩, rfl⟩ := rotateParticipantSecret_ok hresult
    exact .rotated id _
  | revokeParticipantSecret id secret =>
    obtain ⟨result, hresult, ⟨⟩⟩ := bind_eq_ok_iff.1 h
    obtain ⟨_, ⟨⟩, rfl⟩ := rotateParticipantSecret_ok hresult
    exact .rotated id _
  | setListener id url =>
    obtain ⟨_, ⟨⟩, rfl⟩ := setListener_ok h
    exact .listening id _
  | removeListener id =>
    obtain ⟨_, ⟨⟩, rfl⟩ := removeListener_ok h
    exact .listening id _
  | createRoom id nowUnixMs =>
    obtain ⟨hfresh, _, ⟨⟩, rfl⟩ := createRoom_ok h
    exact .roomCreated id nowUnixMs (Except.ok.inj hfresh)
  | addRoomMember room participant =>
    obtain ⟨hregistered, _, ⟨⟩, rfl⟩ := addRoomMember_ok h
    exact .memberAdded room participant fun h => hregistered (congrArg Except.ok h)
  | removeRoomMember room participant =>
    obtain ⟨_, ⟨⟩, rfl⟩ := removeRoomMember_ok h
    exact .memberRemoved room participant
  | ensureSession account sessionId card nowUnixMs =>
    obtain ⟨result, hresult, rfl⟩ := map_eq_ok_iff.1 h
    obtain ⟨declared, hold, -, _, ⟨⟩, rfl⟩ := ensureSession_ok hresult
    exact .sessionSaved sessionId ⟨account, _, nowUnixMs⟩ fun old h =>
      (hold old (congrArg Except.ok h)).1
  | setDeclared session workingOn role parent =>
    obtain ⟨record, hrecord, _, ⟨⟩, rfl⟩ := setDeclared_ok h
    refine .sessionSaved session _ fun old hold => ?_
    cases hold.symm.trans (Except.ok.inj hrecord)
    rfl
  | send sender request nowUnixMs nonce =>
    obtain ⟨result, hresult, rfl⟩ := map_eq_ok_iff.1 h
    obtain ⟨hvalid, outcome, hstore⟩ := send_ok hresult
    rw [show result.2.store = _ from (congrArg Prod.snd (Except.ok.inj hstore)).symm]
    exact .sent _ _ hvalid
  | ack reader messageId nowUnixMs =>
    obtain ⟨result, hresult, rfl⟩ := map_eq_ok_iff.1 h
    obtain ⟨hvalid, hstore⟩ := ack_ok hresult
    rw [show result.2.store = _ from (congrArg Prod.snd (Except.ok.inj hstore)).symm]
    exact .acked _ hvalid

theorem step_effect (engine : MailboxEngine InMemoryStore) (s : MailStep) :
    Effect engine.store (engine.step sha s).store := by
  rw [step]
  cases h : engine.perform sha s with
  | error => exact .nothing
  | ok next => exact perform_effect h

end MailboxEngine

/-! ### What an operation leaves alone -/

structure Untouched (table : Table) (s s' : InMemoryStore) : Prop where
  participants : table ≠ .accounts → table ≠ .listeners → s'.participants = s.participants
  digestIndex : table ≠ .accounts → s'.digestIndex = s.digestIndex
  rooms : table ≠ .rooms → table ≠ .members → s'.rooms = s.rooms
  messages : table ≠ .messages → s'.messages = s.messages
  sessions : table ≠ .sessions → s'.sessions = s.sessions

theorem Mutation.untouched {s s' : InMemoryStore} {table : Table} (h : Mutation s s' table) :
    Untouched table s s' := by
  cases h with
  | registered id record h =>
    obtain ⟨⟩ := h
    constructor <;> simp [InMemoryStore.registerParticipant]
  | deregistered id h =>
    obtain ⟨⟩ := h
    rw [InMemoryStore.deregisterParticipant]
    split <;> constructor <;> simp
  | rotated id digest h =>
    obtain ⟨⟩ := h
    rw [InMemoryStore.setParticipantSecretDigest]
    split <;> constructor <;> simp
  | listening id url h =>
    obtain ⟨⟩ := h
    rw [InMemoryStore.setListenerUrl]
    split <;> constructor <;> simp
  | roomCreated id nowUnixMs h =>
    obtain ⟨⟩ := h
    constructor <;> simp [InMemoryStore.createRoom]
  | memberAdded room participant h =>
    obtain ⟨⟩ := h
    rw [InMemoryStore.addRoomMember]
    split <;> constructor <;> simp
  | memberRemoved room participant h =>
    obtain ⟨⟩ := h
    rw [InMemoryStore.removeRoomMember]
    split <;> constructor <;> simp
  | sessionSaved session record kept h =>
    obtain ⟨⟩ := h
    constructor <;> simp [InMemoryStore.upsertSession]
  | sent message key outcome h =>
    obtain rfl : _ = s' := congrArg Prod.snd (Except.ok.inj h)
    simp only [InMemoryStore.insertMessage]
    split <;> constructor <;> simp
  | acked ack kept h =>
    obtain rfl : _ = s' := congrArg Prod.snd (Except.ok.inj h)
    rw [InMemoryStore.recordAck]
    split <;> constructor <;> simp

theorem MailboxEngine.perform_untouched {sha : Sha256} {engine next : MailboxEngine InMemoryStore}
    {s : MailStep} (h : engine.perform sha s = .ok next) :
    Untouched s.table engine.store next.store :=
  (perform_mutation h).untouched

end Mailbox
