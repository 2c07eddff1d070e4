import Mail4Agent.Mailbox.Sqlite

/-!
# The mailbox daemon

The daemon serialises the engine's operations by a lock and does the rest outside of it. A send
commits, then reads who is to be told, then wakes the waiting readers of those accounts and starts
one task for each of their delivery listeners. A waiting reader subscribes to its account's wake-up
signal, reads its inbox and parks on the signal if the page is empty. Each of these is one step
here, and the steps of all tasks interleave freely.

The signal is `tokio`'s `Notify`: `notify_waiters` reaches every subscription that exists, parked or
not. A parked reader that was reached, or whose time is up, starts over.
-/

namespace Mailbox

structure DeliveryNotification where
  account : ParticipantId
  «to» : Address
  messageId : MessageId
  «from» : Address
deriving DecidableEq

def inboxLimitMax : UInt16 := 256

structure InboxRequest where
  sinceUnixMs : Option UInt64
  limit : UInt16

def InboxRequest.validate (request : InboxRequest) : Except MailError Unit :=
  if request.limit = 0 then .error (.malformed "limit" "must be at least 1")
  else if request.limit > inboxLimitMax then
    .error (.tooLarge "limit" inboxLimitMax.toNat request.limit.toNat)
  else .ok ()

/-- A committed send whose follow-ups are not done. -/
structure SendTask where
  «to» : Address
  «from» : Address
  messageId : MessageId
  /-- Who is to be told, once that was read. -/
  accounts : Option (List ParticipantId)

/-- Where a waiting reader is in its loop. -/
inductive Phase where
  | looping
  | subscribed (notified : Bool)
  | parked (notified : Bool)
  | answered (result : Except MailError InboxPage)
deriving DecidableEq

structure InboxTask where
  reader : Address
  sinceUnixMs : UInt64
  limit : UInt16
  phase : Phase
deriving DecidableEq

structure MailboxService where
  engine : MailboxEngine SqliteMailStore
  /-- The accounts with a wake-up signal. -/
  perAccount : List ParticipantId
  sends : List SendTask
  /-- The started listener tasks, with what they are to post. -/
  deliveries : List DeliveryNotification
  readers : List InboxTask

inductive ServiceStep where
  | operation (s : MailStep)
  | accountsFor (send : Nat)
  | notifyAccounts (send : Nat)
  | deliver (delivery : Nat)
  | inboxWait (reader : Address) (request : InboxRequest)
  | subscribe (reader : Nat)
  | inboxOnce (reader : Nat) (timeIsUp : Bool)
  | woken (reader : Nat)
  | timedOut (reader : Nat)

/-- The subscription is reached if it is for one of the accounts. -/
def InboxTask.notify (accounts : List ParticipantId) (task : InboxTask) : InboxTask :=
  if task.reader.account.any (· ∈ accounts) then
    match task.phase with
    | .subscribed _ => { task with phase := .subscribed true }
    | .parked _ => { task with phase := .parked true }
    | _ => task
  else task

namespace MailboxService

def new : MailboxService := ⟨⟨.new⟩, [], [], [], []⟩

variable (sha : Sha256) (service : MailboxService)

/-- The account of a direct or session address, the present members of a room. -/
def accountsFor : Address → List ParticipantId
  | .direct participant | .session participant _ => [participant]
  | .room room => (service.engine.store.getRoom room).elim [] fun record => record.members.toList

def listenerUrl (account : ParticipantId) : Option String :=
  service.engine.store.participants[account]?.bind (·.listenerUrl)

def operate : MailStep → MailboxService
  | .send sender request nowUnixMs nonce =>
    match service.engine.send sha sender request nowUnixMs nonce with
    | .ok (response, next) => { service with
        engine := next
        sends := service.sends ++ [⟨request.to, sender, response.messageId, none⟩] }
    | .error _ => service
  | s => { service with engine := service.engine.step sha s }

def notifyAccounts (i : Nat) : MailboxService :=
  match service.sends[i]? with
  | some ⟨«to», «from», messageId, some accounts⟩ => { service with
      sends := service.sends.eraseIdx i
      readers := service.readers.map (·.notify (accounts.filter (· ∈ service.perAccount)))
      deliveries := service.deliveries ++
        accounts.map fun account => ⟨account, «to», messageId, «from»⟩ }
  | _ => service

/-- One round of the loop reads the inbox, and parks only if there is time left. -/
def inboxOnce (task : InboxTask) (timeIsUp : Bool) : Phase :=
  match task.phase with
  | .subscribed notified =>
    match service.engine.inbox task.reader task.sinceUnixMs task.limit with
    | .error e => .answered (.error e)
    | .ok page =>
      if page.messages ≠ [] || task.reader.account.isNone || timeIsUp then .answered (.ok page)
      else .parked notified
  | phase => phase

def advance (i : Nat) (next : InboxTask → Phase) : MailboxService :=
  { service with readers := service.readers.modify i fun task => { task with phase := next task } }

def step : ServiceStep → MailboxService
  | .operation s => service.operate sha s
  | .accountsFor i => { service with sends := service.sends.modify i fun send =>
      { send with accounts := some (send.accounts.getD (service.accountsFor send.to)) } }
  | .notifyAccounts i => service.notifyAccounts i
  | .deliver i => { service with deliveries := service.deliveries.eraseIdx i }
  | .inboxWait reader request =>
    match request.validate with
    | .ok () => { service with
        perAccount := reader.account.toList ++ service.perAccount
        readers := service.readers ++
          [⟨reader, request.sinceUnixMs.getD 0, request.limit, .looping⟩] }
    | .error _ => service
  | .subscribe i => service.advance i fun task =>
      match task.phase with
      | .looping => .subscribed false
      | phase => phase
  | .inboxOnce i timeIsUp => service.advance i (service.inboxOnce · timeIsUp)
  | .woken i => service.advance i fun task =>
      match task.phase with
      | .parked true => .looping
      | phase => phase
  | .timedOut i => service.advance i fun task =>
      match task.phase with
      | .parked _ => .looping
      | phase => phase

end MailboxService

/-! ### What an inbox of the SQLite store shows -/

namespace SqliteMailStore

variable {s s' : SqliteMailStore}

/-- Mail to this address is shown to the reader of this account. -/
def Reaches (s : SqliteMailStore) (address reader : Address) (account : ParticipantId) : Prop :=
  address = reader ∨ address = .direct account ∨
    ∃ room, address = .room room ∧ (room, account) ∈ s.roomMembers

theorem storedTime_eq_ok {operation field : String} {unixMs : UInt64} :
    storedTime operation field unixMs = .ok () ↔ unixMs.toNat < i64Limit := by
  unfold storedTime
  split_ifs with h <;> simp [h]

theorem mem_addressedSince {address : Address} {sinceUnixMs : UInt64} {message : Message} :
    message ∈ s.addressedSince address sinceUnixMs ↔
      (∃ id : MessageId, s.messages[id]? = some message) ∧
        sinceUnixMs ≤ message.createdAtUnixMs ∧ message.to = address := by
  simp [addressedSince, Std.ExtTreeMap.mem_toList_iff_getElem?_eq_some]

theorem messagesToSince_eq_ok {address : Address} {sinceUnixMs : UInt64} {found : List Message}
    (h : s.messagesToSince address sinceUnixMs = .ok found) :
    sinceUnixMs.toNat < i64Limit ∧ found = s.addressedSince address sinceUnixMs := by
  obtain ⟨⟨⟩, htime, h⟩ := bind_eq_ok_iff.1 h
  refine ⟨storedTime_eq_ok.1 htime, ?_⟩
  cases address with
  | room => cases h
  | _ => exact (Except.ok.inj h).symm

end SqliteMailStore

namespace MailboxEngine

variable {engine : MailboxEngine SqliteMailStore} {reader : Address} {account : ParticipantId}

theorem mem_ownMessages_sqlite {sinceUnixMs : UInt64} {own : List Message} {message : Message}
    (haccount : reader.account = some account)
    (h : engine.ownMessages reader account sinceUnixMs = .ok own) :
    message ∈ own ↔ (∃ id : MessageId, engine.store.messages[id]? = some message) ∧
      sinceUnixMs ≤ message.createdAtUnixMs ∧ engine.store.Reaches message.to reader account := by
  obtain ⟨direct, hdirect, h⟩ := bind_eq_ok_iff.1 h
  obtain ⟨htime, rfl⟩ :=
    SqliteMailStore.messagesToSince_eq_ok (storeUnavailable_eq_ok.1 hdirect)
  -- the cursor is a stored time, so that no room refuses it
  have hroom (room : RoomId) : MailStore.roomMessagesSince engine.store room sinceUnixMs =
      .ok (engine.store.addressedSince (.room room) sinceUnixMs) := by
    simp only [MailStore.roomMessagesSince, SqliteMailStore.roomMessagesSince,
      SqliteMailStore.storedTime_eq_ok.2 htime, ok_bind]
    rfl
  simp only [MailStore.roomsContaining, hroom, storeUnavailable_ok, mapM_ok, ok_bind] at h
  have hrooms : message ∈ (List.map (fun room : RoomId =>
      engine.store.addressedSince (.room room) sinceUnixMs)
        ((engine.store.roomMembers.filter (·.2 = account)).map Prod.fst)).flatten ↔
      (∃ id : MessageId, engine.store.messages[id]? = some message) ∧
        sinceUnixMs ≤ message.createdAtUnixMs ∧
          ∃ room, message.to = .room room ∧ (room, account) ∈ engine.store.roomMembers := by
    simp only [List.mem_flatten, List.mem_map, List.mem_filter]
    constructor
    · rintro ⟨-, ⟨room, ⟨⟨room', member⟩, ⟨hmember, heq⟩, rfl⟩, rfl⟩, hmessage⟩
      obtain ⟨hstored, hsince, hto⟩ := SqliteMailStore.mem_addressedSince.1 hmessage
      simp only [decide_eq_true_eq] at heq
      subst heq
      exact ⟨hstored, hsince, _, hto, hmember⟩
    · rintro ⟨hstored, hsince, room, hto, hmember⟩
      exact ⟨_, ⟨room, ⟨(room, account), ⟨hmember, by simp⟩, rfl⟩, rfl⟩,
        SqliteMailStore.mem_addressedSince.2 ⟨hstored, hsince, hto⟩⟩
  cases reader with
  | room => cases haccount
  | direct participant =>
    cases haccount
    cases h
    rw [List.append_nil, List.mem_append, hrooms, SqliteMailStore.mem_addressedSince]
    simp only [SqliteMailStore.Reaches]
    tauto
  | session participant session =>
    obtain ⟨accountMessages, hfound, h⟩ := bind_eq_ok_iff.1 h
    obtain ⟨-, rfl⟩ := SqliteMailStore.messagesToSince_eq_ok (storeUnavailable_eq_ok.1 hfound)
    cases h
    rw [List.mem_append, List.mem_append, hrooms, SqliteMailStore.mem_addressedSince,
      SqliteMailStore.mem_addressedSince]
    simp only [SqliteMailStore.Reaches]
    tauto

/-- A page is empty only if there is nothing to show. -/
theorem inbox_messages_eq_nil {sinceUnixMs : UInt64} {limit : UInt16} {page : InboxPage}
    (hlimit : limit ≠ 0) (h : engine.inbox reader sinceUnixMs limit = .ok page) :
    ∃ account, reader.account = some account ∧ (page.messages = [] ↔
      ∀ (id : MessageId) (message : Message), engine.store.messages[id]? = some message →
        sinceUnixMs ≤ message.createdAtUnixMs →
          ¬ engine.store.Reaches message.to reader account) := by
  obtain ⟨⟨account, record⟩, hresolve, h⟩ := bind_eq_ok_iff.1 h
  obtain ⟨-, -, h⟩ := bind_eq_ok_iff.1 h
  obtain ⟨own, hown, h⟩ := bind_eq_ok_iff.1 h
  obtain ⟨unread, -, h⟩ := bind_eq_ok_iff.1 h
  cases h
  have haccount := account_of_resolveIdentity hresolve
  have hempty : Page.select Message.order limit.toNat own = [] ↔ own = [] := by
    have hpositive : limit.toNat ≠ 0 := fun h => hlimit (UInt16.toNat_inj.1 h)
    rw [← List.length_eq_zero_iff, Page.length_select, ← List.length_eq_zero_iff]
    omega
  refine ⟨account, haccount, hempty.trans ?_⟩
  rw [List.eq_nil_iff_forall_not_mem]
  simp only [mem_ownMessages_sqlite haccount hown]
  constructor
  · intro h id message hstored hsince hreaches
    exact h message ⟨⟨id, hstored⟩, hsince, hreaches⟩
  · rintro h message ⟨⟨id, hstored⟩, hsince, hreaches⟩
    exact h id message hstored hsince hreaches

end MailboxEngine

end Mailbox
