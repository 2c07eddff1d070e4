import Mail4Agent.Mailbox.Wakeups

/-!
# What a listener is told

A notification carries the recipient of the request and the identifier of the answer. They belong
together unless the send repeated an earlier one that went elsewhere. Who is notified is read after
the commit, and the listener is looked up later still; by then the account may have left the room.
-/

namespace Mailbox

namespace SqliteMailStore

variable {s s' : SqliteMailStore}

/-- The identifier is that of a message with this recipient. If the recipient is a session, it is
one of its account. -/
structure Announced (s : SqliteMailStore) (address : Address) (messageId : MessageId) : Prop where
  stored : ∃ message : Message, s.messages[messageId]? = some message ∧ message.to = address
  session : ∀ participant session, address = .session participant session →
    ∃ record : SessionRecord, s.sessions[session]? = some record ∧ record.account = participant

theorem Announced.keeps {address : Address} {messageId : MessageId}
    (announced : s.Announced address messageId) (h : s.Keeps s') :
    s'.Announced address messageId where
  stored := by
    obtain ⟨message, hmessage, hto⟩ := announced.stored
    exact ⟨message, h.messages hmessage, hto⟩
  session participant session haddress := by
    obtain ⟨record, hrecord, rfl⟩ := announced.session participant session haddress
    exact h.sessions hrecord

/-- The keys of repeated sends lead to messages. -/
def Keyed (s : SqliteMailStore) : Prop :=
  ∀ row ∈ s.idempotency, ∃ message : Message, s.messages[row.messageId]? = some message

theorem Keyed.mutation {table : Table} (keyed : s.Keyed) (h : Mutation s s' table) : s'.Keyed := by
  have hleaves := Leaves.mutation h
  have hkeeps := Keeps.mutation h
  intro row hrow
  have hold (h : row ∈ s.idempotency) : ∃ message : Message,
      s'.messages[row.messageId]? = some message := by
    obtain ⟨message, hmessage⟩ := keyed row h
    exact ⟨message, hkeeps.messages hmessage⟩
  cases h with
  | sent message key outcome h =>
    obtain ⟨-, -, -, hstored⟩ := insertMessage_eq_ok.1 h
    split at hstored
    · rw [hstored.2] at hrow
      exact hold hrow
    · rw [hstored.2] at hrow
      rcases List.mem_append.1 hrow with hrow | hnew
      · exact hold hrow
      · obtain ⟨key, -, rfl⟩ := List.mem_map.1 hnew
        exact ⟨message, by rw [hstored.2, getElem?_insert_ite, if_pos rfl]⟩
  | _ =>
    rw [hleaves.idempotency nofun] at hrow
    exact hold hrow

theorem Keyed.sentBefore (keyed : s.Keyed) {key : IdempotencyKey} {existing : MessageId}
    (h : s.sentBefore key = some existing) :
    ∃ message : Message, s.messages[existing]? = some message := by
  obtain ⟨row, hrow, rfl⟩ := Option.map_eq_some_iff.1 h
  exact keyed row (List.mem_of_find?_eq_some hrow)

end SqliteMailStore

namespace MailboxService

open MailboxEngine

variable {sha : Sha256} {service : MailboxService}

/-- The notification names a stored message with its recipient, and one of the identities of the
account can fetch it. -/
def Truthful (service : MailboxService) (notification : DeliveryNotification) : Prop :=
  ∃ message reader, service.engine.store.messages[notification.messageId]? = some message ∧
    message.to = notification.to ∧ reader.account = some notification.account ∧
    service.engine.messageGet reader notification.messageId = .ok message

/-- What is posted to a listener is truthful. -/
def PostsTruth (service : MailboxService) : ServiceStep → Prop
  | .deliver i => ∀ notification, service.deliveries[i]? = some notification →
      service.listenerUrl notification.account ≠ none → service.Truthful notification
  | _ => True

/-- The account is in the room, if the address is one. -/
def stillIn (service : MailboxService) (account : ParticipantId) : Address → Bool
  | .room room => (service.engine.store.getRoom room).any (·.members.contains account)
  | _ => true

/-- A repeated send goes where the first one went. When a listener is notified, its account may
read, and is still in the room if there is one. -/
def Steady (service : MailboxService) : ServiceStep → Prop
  | .operation (.send sender request _ _) =>
    ∀ key ∈ request.idempotencyKey,
      ∀ existing ∈ service.engine.store.sentBefore ⟨sender, key⟩,
        ∀ message ∈ service.engine.store.messages[existing]?, message.to = request.to
  | .deliver i =>
    ∀ notification ∈ service.deliveries[i]?,
      ∀ record ∈ service.engine.store.participants[notification.account]?,
        record.listenerUrl ≠ none → record.operator = true ∨
          record.mayRead = true ∧ service.stillIn notification.account notification.to = true
  | _ => True

/-- A direct or session address is of the account. -/
def Concerns (address : Address) (account : ParticipantId) : Prop :=
  ∀ participant, address.account = some participant → participant = account

structure Announcing (service : MailboxService) : Prop where
  keyed : service.engine.store.Keyed
  sends : ∀ send ∈ service.sends, service.engine.store.Announced send.to send.messageId ∧
    ∀ accounts, send.accounts = some accounts → ∀ account ∈ accounts, Concerns send.to account
  deliveries : ∀ notification ∈ service.deliveries,
    service.engine.store.Announced notification.to notification.messageId ∧
      Concerns notification.to notification.account

theorem announcing_new : new.Announcing :=
  ⟨fun _ h => absurd h List.not_mem_nil, fun _ h => absurd h List.not_mem_nil,
    fun _ h => absurd h List.not_mem_nil⟩

theorem concerns_of_mem_accountsFor {address : Address} {account : ParticipantId}
    (h : account ∈ service.accountsFor address) : Concerns address account := by
  intro participant haccount
  cases address with
  | room => cases haccount
  | _ =>
    cases haccount
    exact (List.mem_singleton.1 h).symm

theorem Announcing.of_keeps (announcing : service.Announcing)
    {next : MailboxEngine SqliteMailStore} (hkeyed : next.store.Keyed)
    (h : service.engine.store.Keeps next.store) : Announcing { service with engine := next } where
  keyed := hkeyed
  sends send hsend := ((announcing.sends send hsend).imp_left (·.keeps h))
  deliveries notification hmem := ((announcing.deliveries notification hmem).imp_left (·.keeps h))

/-- A send that goes where the first one went announces a message with its own recipient. -/
theorem announced_of_send {next : MailboxEngine SqliteMailStore} {sender : Address}
    {request : SendRequest} {nowUnixMs : UInt64} {nonce : Bytes} {response : SendResponse}
    (keyed : service.engine.store.Keyed)
    (h : service.engine.send sha sender request nowUnixMs nonce = .ok (response, next))
    (hsteady : service.Steady (.operation (.send sender request nowUnixMs nonce))) :
    next.store.Announced request.to response.messageId := by
  obtain ⟨hadmits, outcome, hinsert, rfl⟩ := send_eq_ok.1 h
  have hkeeps := SqliteMailStore.Keeps.insertMessage hinsert
  constructor
  · obtain ⟨-, -, -, hstored⟩ := SqliteMailStore.insertMessage_eq_ok.1 hinsert
    split at hstored
    · next existing hexisting =>
      obtain ⟨key, hkey, hbefore⟩ := Option.bind_eq_some_iff.1 hexisting
      obtain ⟨text, htext, rfl⟩ := Option.map_eq_some_iff.1 hkey
      obtain ⟨message, hmessage⟩ := keyed.sentBefore hbefore
      rw [hstored.1]
      exact ⟨message, hkeeps.messages hmessage,
        hsteady text htext existing hbefore message hmessage⟩
    · rw [hstored.1, hstored.2]
      refine ⟨sentMessage sha sender request nowUnixMs nonce, ?_, rfl⟩
      rw [getElem?_insert_ite]
      exact if_pos rfl
  · intro participant session haddress
    have hrecipient := hadmits.recipient
    rw [haddress] at hrecipient
    simp only [requireRecipient, MailStore.getSession,
      storeUnavailable_ok, ok_bind] at hrecipient
    cases hsession : service.engine.store.sessions[session]? with
    | none => simp [hsession] at hrecipient
    | some record =>
      have haccount : record.account = participant := by
        by_contra hother
        simp [hsession, hother] at hrecipient
      rw [← haccount]
      exact hkeeps.sessions hsession

section

variable (announcing : service.Announcing)

include announcing

theorem Announcing.operated {table : Table} {later : MailboxService}
    (h : Operated sha service table later) (hne : table ≠ .messages) : later.Announcing := by
  cases h with
  | refused => exact announcing
  | changed table next hne hmutation =>
    exact announcing.of_keeps (announcing.keyed.mutation hmutation) (.mutation hmutation)
  | sent => exact absurd rfl hne

theorem Announcing.operation (s : MailStep) (hsteady : service.Steady (.operation s)) :
    (service.operate sha s).Announcing := by
  have hoperated : Operated sha service s.table (service.operate sha s) := service.operated s
  cases s with
  | send sender request nowUnixMs nonce =>
    simp only [operate]
    split
    · next response next hsent =>
      obtain ⟨-, outcome, hinsert, -⟩ := send_eq_ok.1 hsent
      have hmutation : Mutation service.engine.store next.store .messages :=
        .sent _ _ outcome hinsert
      have hkept := announcing.of_keeps (announcing.keyed.mutation hmutation) (.mutation hmutation)
      refine ⟨hkept.keyed, fun send hsend => ?_, hkept.deliveries⟩
      rcases List.mem_append.1 hsend with hsend | hnew
      · exact hkept.sends send hsend
      · obtain rfl := List.mem_singleton.1 hnew
        exact ⟨announced_of_send announcing.keyed hsent hsteady, by rintro _ ⟨⟩⟩
    · exact announcing
  | _ => exact announcing.operated hoperated (by rintro ⟨⟩)

theorem Announcing.accountsFor (i : Nat) : (service.step sha (.accountsFor i)).Announcing := by
  refine ⟨announcing.keyed, fun send hsend => ?_, announcing.deliveries⟩
  rcases mem_modify hsend with hsend | ⟨before, hbefore, -, rfl⟩
  · exact announcing.sends send hsend
  · obtain ⟨hannounced, hconcerns⟩ := announcing.sends before hbefore
    refine ⟨hannounced, fun accounts haccounts account hmem => ?_⟩
    cases haccounts
    cases hread : before.accounts with
    | some accounts =>
      rw [hread] at hmem
      exact hconcerns accounts hread account hmem
    | none =>
      rw [hread] at hmem
      exact concerns_of_mem_accountsFor hmem

theorem Announcing.notifyAccounts (i : Nat) : (service.notifyAccounts i).Announcing := by
  unfold MailboxService.notifyAccounts
  split
  · next address sender messageId accounts hsend =>
    obtain ⟨hannounced, hconcerns⟩ := announcing.sends _ (List.mem_of_getElem? hsend)
    refine ⟨announcing.keyed, fun send hmem =>
      announcing.sends send (List.mem_of_mem_eraseIdx hmem),
      fun notification hmem => ?_⟩
    rcases List.mem_append.1 hmem with hmem | hnew
    · exact announcing.deliveries notification hmem
    · obtain ⟨account, haccount, rfl⟩ := List.mem_map.1 hnew
      exact ⟨hannounced, hconcerns accounts rfl account haccount⟩
  · exact announcing

theorem Announcing.step (s : ServiceStep) (hsteady : service.Steady s) :
    (service.step sha s).Announcing := by
  cases s with
  | operation s => exact announcing.operation s hsteady
  | accountsFor i => exact announcing.accountsFor i
  | notifyAccounts i => exact announcing.notifyAccounts i
  | deliver i =>
    exact ⟨announcing.keyed, announcing.sends, fun notification hmem =>
      announcing.deliveries notification (List.mem_of_mem_eraseIdx hmem)⟩
  | inboxWait reader request =>
    simp only [MailboxService.step]
    split
    · exact ⟨announcing.keyed, announcing.sends, announcing.deliveries⟩
    · exact announcing
  | _ => exact ⟨announcing.keyed, announcing.sends, announcing.deliveries⟩

end

/-- An announced message can be fetched under its own address, or from the account if it went to a
room. -/
theorem truthful_of_announced {notification : DeliveryNotification} {record : ParticipantRecord}
    (hannounced : service.engine.store.Announced notification.to notification.messageId)
    (hconcerns : Concerns notification.to notification.account)
    (hrecord : service.engine.store.participants[notification.account]? = some record)
    (hmay : record.operator = true ∨
      record.mayRead = true ∧ service.stillIn notification.account notification.to = true) :
    service.Truthful notification := by
  obtain ⟨message, hmessage, hto⟩ := hannounced.stored
  have hpermission : requireReadPermission record = .ok () := by
    rcases hmay with h | h <;> simp [requireReadPermission, h]
  have hparticipant : service.engine.requireParticipant notification.account = .ok record := by
    simp [requireParticipant, MailStore.getParticipant, hrecord]
  -- whichever identity of the account resolves and may read the message fetches it
  have hfetch (reader : Address) (haccount : reader.account = some notification.account)
      (hresolve : service.engine.resolveIdentity reader = .ok (notification.account, record))
      (hreadable : service.engine.isReadable message reader notification.account record =
        .ok true) : service.Truthful notification := by
    refine ⟨message, reader, hmessage, hto, haccount, ?_⟩
    simp only [messageGet, hresolve, hpermission, MailStore.getMessage, hmessage,
      storeUnavailable_ok, hreadable, ok_bind]
    rfl
  have hdirect : service.engine.resolveIdentity (.direct notification.account) =
      .ok (notification.account, record) := by
    simp [resolveIdentity, hparticipant, pure, Except.pure]
  have hoperator (reader : Address) (h : record.operator = true) :
      service.engine.isReadable message reader notification.account record = .ok true := by
    simp [isReadable, h, pure, Except.pure]
  cases haddress : notification.to with
  | direct participant =>
    obtain rfl := hconcerns participant (by rw [haddress]; rfl)
    refine hfetch (.direct notification.account) rfl hdirect ?_
    simp [isReadable, hto, haddress, pure, Except.pure]
  | session participant session =>
    obtain rfl := hconcerns participant (by rw [haddress]; rfl)
    obtain ⟨sessionRecord, hsession, haccount⟩ :=
      hannounced.session notification.account session haddress
    refine hfetch (.session notification.account session) rfl ?_ ?_
    · simp [resolveIdentity, MailStore.getSession, hsession, haccount, hparticipant,
        pure, Except.pure]
    · simp [isReadable, hto, haddress, pure, Except.pure]
  | room room =>
    refine hfetch (.direct notification.account) rfl hdirect ?_
    rw [haddress] at hmay
    rcases hmay with h | ⟨-, hmember⟩
    · exact hoperator _ h
    · rw [stillIn] at hmember
      simp [isReadable, MailStore.getRoom, hto, haddress, hmember, pure, Except.pure]

theorem Announcing.postsTruth (announcing : service.Announcing) (s : ServiceStep)
    (hsteady : service.Steady s) : service.PostsTruth s := by
  cases s with
  | deliver i =>
    intro notification hnotification hurl
    obtain ⟨hannounced, hconcerns⟩ :=
      announcing.deliveries notification (List.mem_of_getElem? hnotification)
    cases hrecord : service.engine.store.participants[notification.account]? with
    | none => simp [listenerUrl, hrecord] at hurl
    | some record =>
      have hlistener : record.listenerUrl ≠ none := by
        simpa [listenerUrl, hrecord] using hurl
      exact truthful_of_announced hannounced hconcerns hrecord
        (hsteady notification hnotification record hrecord hlistener)
  | _ => trivial

/-- In every run whose repeated sends go where the first ones went, and whose notified accounts may
then read and are still in the room, every notification is truthful when it is posted. -/
theorem postsTruth_of_steady (steps : List ServiceStep)
    (hsteady : Trace.Meets (step sha) Steady new steps) :
    Trace.Meets (step sha) PostsTruth new steps := by
  have hboth : Trace.Meets (step sha) (fun service s => service.Steady s ∧ service.PostsTruth s)
      new steps := by
    refine (Trace.meets_iff_meets Announcing (fun _ s h announcing => announcing.step s h)
      (fun service s announcing => ?_) announcing_new steps).2 hsteady
    exact ⟨And.left, fun h => ⟨h, announcing.postsTruth s h⟩⟩
  exact hboth.mono fun _ _ h => h.2

/-! Alice uses one key for a message to Bob and one to Carol. -/

open MailboxEngine (alice bob trailingBytes)

def carol : ParticipantId := ⟨"carol", by decide +kernel⟩

def carolListens : List ServiceStep := [
  .operation (.registerParticipant alice none { maySend := true } "secret-a"),
  .operation (.registerParticipant bob none { mayRead := true } "secret-b"),
  .operation (.registerParticipant carol none { mayRead := true } "secret-c"),
  .operation (.setListener carol "http://127.0.0.1:9/")]

def keyReused : List ServiceStep := carolListens ++ [
  .operation (.send (.direct alice) ⟨.direct bob, "hi", "hello", none, none, [], some "k"⟩ 7 []),
  .operation (.send (.direct alice) ⟨.direct carol, "hi", "hello", none, none, [], some "k"⟩ 8 []),
  .accountsFor 1, .notifyAccounts 1]

/-- Carol's listener is given the identifier of the message to Bob. -/
theorem not_postsTruth_keyReused :
    ¬ Trace.Meets (step trailingBytes) PostsTruth new (keyReused ++ [.deliver 0]) := by
  intro h
  have hposts := (Trace.meets_append.1 h).2.1
  have hfacts : (Trace.run (step trailingBytes) new keyReused).deliveries.map (fun notification =>
      (notification.to, ((Trace.run (step trailingBytes) new keyReused).listenerUrl
        notification.account).isSome, ((Trace.run (step trailingBytes) new
          keyReused).engine.store.messages[notification.messageId]?).map Message.to)) =
      [(.direct carol, true, some (.direct bob))] := by decide +kernel
  obtain ⟨notification, hdeliveries, hfacts⟩ := List.map_eq_singleton_iff.1 hfacts
  simp only [Prod.mk.injEq] at hfacts
  obtain ⟨message, -, hmessage, hto, -⟩ := hposts notification (by rw [hdeliveries]; rfl)
    (Option.isSome_iff_ne_none.1 hfacts.2.1)
  rw [hmessage, Option.map_some, hto, hfacts.1] at hfacts
  exact absurd hfacts.2.2 (by decide)

def carolNotified : List ServiceStep := carolListens ++ [
  .operation (.send (.direct alice) ⟨.direct carol, "hi", "hello", none, none, [], none⟩ 8 [1]),
  .accountsFor 0, .notifyAccounts 0, .deliver 0]

theorem postsTruth_of_steady_carolNotified :
    Trace.Meets (step trailingBytes) PostsTruth new carolNotified := by
  refine postsTruth_of_steady carolNotified
    ⟨trivial, trivial, trivial, trivial, nofun, trivial, trivial, ?_, trivial⟩
  unfold Steady
  decide +kernel

end MailboxService

end Mailbox
