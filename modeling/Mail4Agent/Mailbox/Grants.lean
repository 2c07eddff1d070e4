import Mail4Agent.Mailbox.ReadPaths

/-!
# What a registration inherits

A reader sees the mail of its account's addresses and of the rooms that list its account. Taking an
account off the register removes neither: the rooms keep listing it and the mail stays. So the log
of grants is kept beside the engine here, as a history that starts anew for an account with each of
its registrations, and a read is compared with it.
-/

namespace Mailbox

open InMemoryStore

namespace InMemoryStore

variable {s : InMemoryStore}

def lists (s : InMemoryStore) (room : RoomId) (account : ParticipantId) : Bool :=
  s.rooms[room]?.any fun record => record.members.contains account

/-- The message with this identifier goes to the account or to one of its sessions. -/
def holdsMailFor (s : InMemoryStore) (account : ParticipantId) (id : MessageId) : Bool :=
  s.messages[id]?.any fun message => message.to.account = some account

theorem lists_insert {rooms : BTreeMap RoomId RoomRecord} {room : RoomId} {record : RoomRecord}
    {other : RoomId} {account : ParticipantId}
    (h : lists { s with rooms := rooms.insert room record } other account = true) :
    (other = room ∧ record.members.contains account = true) ∨
      lists { s with rooms := rooms } other account = true := by
  simp only [lists, getElem?_insert_ite] at h
  split_ifs at h with hroom
  · exact .inl ⟨hroom, h⟩
  · exact .inr h

theorem lists_of_createRoom {id room : RoomId} {nowUnixMs : UInt64} {account : ParticipantId}
    (h : (s.createRoom id nowUnixMs).lists room account = true) : s.lists room account = true := by
  rcases lists_insert h with ⟨-, hmember⟩ | h
  · simp at hmember
  · exact h

theorem lists_of_addRoomMember {room other : RoomId} {participant account : ParticipantId}
    (h : (s.addRoomMember room participant).lists other account = true) :
    (other = room ∧ account = participant) ∨ s.lists other account = true := by
  rw [addRoomMember] at h
  split at h
  · next record hrecord =>
    rcases lists_insert h with ⟨rfl, hmember⟩ | h
    · rw [Std.ExtTreeSet.contains_insert, Bool.or_eq_true, beq_iff_eq,
        Std.LawfulEqCmp.compare_eq_iff_eq] at hmember
      rcases hmember with rfl | hmember
      · exact .inl ⟨rfl, rfl⟩
      · exact .inr (by simpa [lists, hrecord] using hmember)
    · exact .inr h
  · exact .inr h

theorem lists_of_removeRoomMember {room other : RoomId} {participant account : ParticipantId}
    (h : (s.removeRoomMember room participant).lists other account = true) :
    s.lists other account = true := by
  rw [removeRoomMember] at h
  split at h
  · next record hrecord =>
    rcases lists_insert h with ⟨rfl, hmember⟩ | h
    · rw [Std.ExtTreeSet.contains_erase, Bool.and_eq_true] at hmember
      simpa [lists, hrecord] using hmember.2
    · exact h
  · exact h

end InMemoryStore

/-! ### The log of grants -/

open MailboxEngine

/-- An engine, and what was granted to each account since its latest registration: the rooms it was
added to, and the mail that came in for it. -/
structure GrantLog where
  engine : MailboxEngine InMemoryStore
  members : List (RoomId × ParticipantId)
  mail : List MessageId

namespace GrantLog

def new : GrantLog := ⟨⟨.new⟩, [], []⟩

/-- The log after an accepted operation. -/
def record (sha : Sha256) (log : GrantLog) (next : MailboxEngine InMemoryStore) :
    MailStep → GrantLog
  | .registerParticipant id .. =>
    ⟨next, log.members.filter (·.2 ≠ id),
      log.mail.filter fun message => !log.engine.store.holdsMailFor id message⟩
  | .addRoomMember room participant => ⟨next, (room, participant) :: log.members, log.mail⟩
  | .send sender request nowUnixMs nonce =>
    let message := sentMessage sha sender request nowUnixMs nonce
    -- a repeated send brings no mail in
    match (log.engine.store.insertMessage message
        (request.idempotencyKey.map fun key => ⟨sender, key⟩)).1 with
    | .inserted => ⟨next, log.members, message.messageId :: log.mail⟩
    | .deduplicated _ => ⟨next, log.members, log.mail⟩
  | _ => ⟨next, log.members, log.mail⟩

def step (sha : Sha256) (log : GrantLog) (s : MailStep) : GrantLog :=
  match log.engine.perform sha s with
  | .ok next => log.record sha next s
  | .error _ => log

/-- Everything a reader can fetch or list, unless its account is an operator, was granted since the
latest registration of its account. -/
def ReadsByGrant (log : GrantLog) : Prop :=
  ∀ reader message, log.engine.NonOperator reader →
    (log.engine.messageGet reader message.messageId = .ok message ∨
      ∃ sinceUnixMs limit page, log.engine.inbox reader sinceUnixMs limit = .ok page ∧
        message ∈ page.messages) →
    match message.to with
    | .room room => ∃ account, reader.account = some account ∧ (room, account) ∈ log.members
    | _ => message.messageId ∈ log.mail

/-- An account is registered only if no room lists it and no mail is there for it; a registration
that is refused may be of any account. -/
def Unclaimed (sha : Sha256) (log : GrantLog) : MailStep → Prop
  | .registerParticipant id displayName permissions secret =>
    (∃ next, log.engine.perform sha (.registerParticipant id displayName permissions secret) =
      .ok next) →
    (∀ room, log.engine.store.lists room id = false) ∧
      ∀ message, log.engine.store.holdsMailFor id message = false
  | _ => True

/-- The engine's rooms and mail are all in the log. -/
structure Covers (log : GrantLog) : Prop where
  filed : log.engine.store.Filed
  members : ∀ room account, log.engine.store.lists room account = true →
    (room, account) ∈ log.members
  mail : ∀ account id, log.engine.store.holdsMailFor account id = true → id ∈ log.mail

theorem covers_new : new.Covers where
  filed id message h := by simp [new, InMemoryStore.new] at h
  members room account h := by simp [new, lists, InMemoryStore.new] at h
  mail account id h := by simp [new, holdsMailFor, InMemoryStore.new] at h

variable {sha : Sha256} {log : GrantLog} {next : MailboxEngine InMemoryStore}

section

variable (covers : log.Covers)

include covers

/-- An operation on neither the rooms nor the mail leaves the log as it is. -/
theorem Covers.of_untouched {table : Table} (h : Untouched table log.engine.store next.store)
    (filed : next.store.Filed) (hrooms : table ≠ .rooms ∧ table ≠ .members)
    (hmail : table ≠ .messages) :
    Covers ⟨next, log.members, log.mail⟩ where
  filed := filed
  members room account hlists :=
    covers.members room account (by simpa [lists, h.rooms hrooms.1 hrooms.2] using hlists)
  mail account id hmessage :=
    covers.mail account id (by simpa [holdsMailFor, h.messages hmail] using hmessage)

/-- An operation on the rooms that lists no one but who is logged. -/
theorem Covers.of_rooms {table : Table} {members : List (RoomId × ParticipantId)}
    (h : Untouched table log.engine.store next.store) (filed : next.store.Filed)
    (hmail : table ≠ .messages) (hmembers : ∀ room account, next.store.lists room account = true →
      (room, account) ∈ members) : Covers ⟨next, members, log.mail⟩ where
  filed := filed
  members := hmembers
  mail account id hmessage :=
    covers.mail account id (by
      simpa [holdsMailFor, h.messages hmail] using hmessage)

theorem Covers.registered {id : ParticipantId} (h : Untouched .accounts log.engine.store next.store)
    (filed : next.store.Filed) (hrooms : ∀ room, log.engine.store.lists room id = false)
    (hmail : ∀ message, log.engine.store.holdsMailFor id message = false) :
    Covers ⟨next, log.members.filter (·.2 ≠ id),
      log.mail.filter fun message => !log.engine.store.holdsMailFor id message⟩ where
  filed := filed
  members room account hlists := by
    have hold : log.engine.store.lists room account = true := by
      simpa [lists, h.rooms (by decide) (by decide)] using hlists
    have hother : account ≠ id := by
      rintro rfl
      simp [hrooms room] at hold
    simpa [hother] using covers.members room account hold
  mail account message hmessage := by
    have hold : log.engine.store.holdsMailFor account message = true := by
      simpa [holdsMailFor, h.messages (by decide)] using hmessage
    simpa [hmail message] using covers.mail account message hold

theorem Covers.sent {message : Message} {idempotency : Option IdempotencyKey}
    (filed : (log.engine.store.insertMessage message idempotency).2.Filed) :
    Covers (match (log.engine.store.insertMessage message idempotency).1 with
      | .inserted => ⟨⟨(log.engine.store.insertMessage message idempotency).2⟩, log.members,
          message.messageId :: log.mail⟩
      | .deduplicated _ => ⟨⟨(log.engine.store.insertMessage message idempotency).2⟩,
          log.members, log.mail⟩) := by
  cases hfound : idempotency.bind (log.engine.store.idempotency[·]?) with
  | some existing =>
    simp only [insertMessage, hfound]
    exact ⟨covers.filed, covers.members, covers.mail⟩
  | none =>
    simp only [insertMessage, hfound] at filed ⊢
    refine ⟨filed, covers.members, fun account id hmessage => ?_⟩
    simp only [holdsMailFor, getElem?_insert_ite] at hmessage
    split_ifs at hmessage with hid
    · exact hid ▸ List.mem_cons_self
    · exact List.mem_cons_of_mem _ (covers.mail account id hmessage)

theorem Covers.step (s : MailStep) (h : log.Unclaimed sha s) : (log.step sha s).Covers := by
  rw [GrantLog.step]
  cases hperform : log.engine.perform sha s with
  | error => exact covers
  | ok next =>
    have huntouched := perform_untouched hperform
    have hfiled := covers.filed.effect (perform_effect hperform)
    cases s with
    | registerParticipant id =>
      exact covers.registered huntouched hfiled (h ⟨next, hperform⟩).1 (h ⟨next, hperform⟩).2
    | createRoom id nowUnixMs =>
      obtain ⟨-, _, ⟨⟩, rfl⟩ := createRoom_ok hperform
      refine covers.of_rooms huntouched hfiled nofun fun room account hlists => ?_
      exact covers.members room account (lists_of_createRoom hlists)
    | addRoomMember room participant =>
      obtain ⟨-, _, ⟨⟩, rfl⟩ := addRoomMember_ok hperform
      refine covers.of_rooms huntouched hfiled nofun fun other account hlists => ?_
      rcases lists_of_addRoomMember hlists with ⟨rfl, rfl⟩ | hlists
      · exact List.mem_cons_self
      · exact List.mem_cons_of_mem _ (covers.members other account hlists)
    | removeRoomMember room participant =>
      obtain ⟨_, ⟨⟩, rfl⟩ := removeRoomMember_ok hperform
      refine covers.of_rooms huntouched hfiled nofun fun other account hlists => ?_
      exact covers.members other account (lists_of_removeRoomMember hlists)
    | send sender request nowUnixMs nonce =>
      obtain ⟨result, hresult, rfl⟩ := map_eq_ok_iff.1 hperform
      obtain ⟨-, outcome, hstore⟩ := send_ok hresult
      have hnext := congrArg (MailboxEngine.mk ∘ Prod.snd) (Except.ok.inj hstore)
      rw [show result.2 = _ from hnext.symm] at hfiled ⊢
      exact covers.sent hfiled
    | _ =>
      exact covers.of_untouched huntouched hfiled (by simp [MailStep.table])
        (by simp [MailStep.table])

end

/-- What can be read is in the reader's own list. -/
theorem mem_own_of_reads {engine : MailboxEngine InMemoryStore} {reader : Address}
    {message : Message} (filed : engine.store.Filed) (plain : engine.NonOperator reader)
    (h : engine.messageGet reader message.messageId = .ok message ∨
      ∃ sinceUnixMs limit page, engine.inbox reader sinceUnixMs limit = .ok page ∧
        message ∈ page.messages) :
    ∃ account, reader.account = some account ∧
      engine.store.messages[message.messageId]? = some message ∧
      message.to ∈ engine.store.addresses reader account := by
  have hown : ∃ own, engine.ownList reader = .ok own ∧ message ∈ own := by
    rcases h with hget | ⟨sinceUnixMs, limit, page, hpage, hmem⟩
    · obtain ⟨own, hown, hmem, -⟩ := (messageGet_eq_ok filed plain).1 hget
      exact ⟨own, hown, hmem⟩
    · obtain ⟨own, hown, rfl⟩ := inbox_eq_ok.1 hpage
      exact ⟨own, hown, List.mem_of_mem_filter (Page.mem_of_mem_select hmem)⟩
  obtain ⟨own, hown, hmem⟩ := hown
  obtain ⟨account, record, hresolve, -, rfl⟩ := ownList_eq_ok.1 hown
  obtain ⟨hstored, -, hto⟩ := mem_ownMessages.1 hmem
  exact ⟨account, account_of_resolveIdentity hresolve, filed.mem_allMessages.1 hstored, hto⟩

theorem Covers.readsByGrant (covers : log.Covers) : log.ReadsByGrant := by
  intro reader message plain hreads
  obtain ⟨account, haccount, hstored, hto⟩ := mem_own_of_reads covers.filed plain hreads
  have hmail {owner : ParticipantId} (h : message.to.account = some owner) :
      message.messageId ∈ log.mail :=
    covers.mail owner message.messageId (by simp [holdsMailFor, hstored, h])
  split
  · next room hroom =>
    refine ⟨account, haccount, covers.members room account ?_⟩
    rw [hroom] at hto
    have hlisted : room ∈ log.engine.store.roomsContaining account := by
      cases reader with
      | room => cases haccount
      | _ => simpa [addresses] using hto
    exact mem_roomsContaining.1 hlisted
  · next hplain =>
    cases haddress : message.to with
    | direct participant => exact hmail (by rw [haddress]; rfl)
    | session participant session => exact hmail (by rw [haddress]; rfl)
    | room room => exact absurd haddress (hplain room)

/-- In every run whose accepted registrations are all of accounts that no room lists and for which
there is no mail, whatever can be read in any state was granted since the latest registration of the
reader's account. -/
theorem readsByGrant_throughout (sha : Sha256) (steps : List MailStep)
    (unclaimed : Trace.Meets (step sha) (Unclaimed sha) new steps) :
    Trace.Throughout (step sha) ReadsByGrant new steps :=
  Trace.throughout_of_meets Covers (fun _ s h covers => covers.step s h)
    (fun _ covers => covers.readsByGrant) unclaimed covers_new

/-! Bob leaves, and comes back under the same name. -/

def lobby : RoomId := ⟨"lobby", by decide +kernel⟩

def bobReturns : List MailStep := [
  .registerParticipant alice none { maySend := true, mayRead := true } "secret-a",
  .registerParticipant bob none { mayRead := true } "secret-b",
  .createRoom lobby 5,
  .addRoomMember lobby bob,
  .deregisterParticipant bob,
  .registerParticipant bob none { mayRead := true } "secret-c",
  .addRoomMember lobby alice,
  .send (.direct alice) ⟨.room lobby, "hi", "hello", none, none, [], none⟩ 7 [1]]

def toLobby : Message :=
  sentMessage leadingBytes (.direct alice) ⟨.room lobby, "hi", "hello", none, none, [], none⟩ 7 [1]

def bobReturned : GrantLog := Trace.run (step leadingBytes) new bobReturns

/-- Bob was added to the room before the registration that reads it. -/
theorem not_readsByGrant_reregistered :
    ¬ Trace.Throughout (step leadingBytes) ReadsByGrant new bobReturns := by
  intro h
  have hplain : bobReturned.engine.NonOperator (.direct bob) := by
    intro account record hresolve
    have hoperator : (bobReturned.engine.resolveIdentity (.direct bob)).map (·.2.operator) =
        .ok false := by decide +kernel
    rw [hresolve] at hoperator
    exact Except.ok.inj hoperator
  have hreads : bobReturned.engine.messageGet (.direct bob) toLobby.messageId = .ok toLobby := by
    decide +kernel
  obtain ⟨account, haccount, hmember⟩ := h.last (.direct bob) toLobby hplain (.inl hreads)
  cases haccount
  have hlog : bobReturned.members = [(lobby, alice)] := by decide +kernel
  have habsent : (lobby, bob) ∉ bobReturned.members := by
    rw [hlog]
    decide
  exact habsent hmember

/-- Before there are rooms and mail, everyone can be registered. -/
theorem unclaimed_of_isEmpty (hrooms : log.engine.store.rooms.isEmpty = true)
    (hmail : log.engine.store.messages.isEmpty = true) (s : MailStep) : log.Unclaimed sha s := by
  rw [Std.ExtTreeMap.isEmpty_iff] at hrooms hmail
  cases s with
  | registerParticipant id =>
    simp [Unclaimed, lists, holdsMailFor, hrooms, hmail]
  | _ => trivial

/-- A second registration of Bob, for whom there is mail, is refused. -/
theorem readsByGrant_throughout_delivered :
    Trace.Throughout (step leadingBytes) ReadsByGrant new
      (aliceWrites ++ [.registerParticipant bob none { mayRead := true } "secret-c"]) := by
  refine readsByGrant_throughout leadingBytes _ ⟨?_, ?_, trivial, ?_, trivial⟩
  · exact unclaimed_of_isEmpty (by decide +kernel) (by decide +kernel) _
  · exact unclaimed_of_isEmpty (by decide +kernel) (by decide +kernel) _
  · rintro ⟨next, hnext⟩
    have hrefused : ((Trace.run (step leadingBytes) new aliceWrites).engine.perform leadingBytes
        (.registerParticipant bob none { mayRead := true } "secret-c")).toOption.isNone := by
      decide +kernel
    have haccepted := congrArg (fun result => result.toOption.isNone) hnext
    exact (Bool.false_ne_true (haccepted.symm.trans hrefused)).elim

end GrantLog

end Mailbox
