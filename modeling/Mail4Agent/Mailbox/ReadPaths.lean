import Mail4Agent.Mailbox.Runs

/-!
# The ways to read a message

A reader fetches or acknowledges a message by its identifier, and it lists its mail. Fetching asks
whether the message is addressed to the reader, or to a room its account is in; listing collects
the mail of the reader's addresses one after the other. The addresses are the same, so both reach
the same messages (`readPaths_agree`).
-/

namespace Mailbox

open MailboxEngine

/-! ### The listing as one list over addresses -/

namespace InMemoryStore

variable (s : InMemoryStore)

/-- Messages are filed under their own identifier. -/
def Filed : Prop := ∀ (id : MessageId) (message : Message),
  s.messages[id]? = some message → message.messageId = id

/-- Where mail for an identity goes. -/
def addresses (identity : Address) (account : ParticipantId) : List Address :=
  identity :: (match identity with | .session _ _ => [.direct account] | _ => []) ++
    (s.roomsContaining account).map .room

def ownMessages (identity : Address) (account : ParticipantId) (sinceUnixMs : UInt64) :
    List Message :=
  (s.addresses identity account).flatMap fun address => s.messagesToSince address sinceUnixMs

variable {s} {identity : Address} {account : ParticipantId}

theorem mem_roomsContaining {room : RoomId} : room ∈ s.roomsContaining account ↔
    s.rooms[room]?.any (fun record => record.members.contains account) = true := by
  simp only [roomsContaining, List.mem_map, List.mem_filter, Prod.exists,
    Std.ExtTreeMap.mem_toList_iff_getElem?_eq_some, Option.any_eq_true]
  constructor
  · rintro ⟨id, record, ⟨hrecord, hmember⟩, rfl⟩
    exact ⟨record, hrecord, hmember⟩
  · rintro ⟨record, hrecord, hmember⟩
    exact ⟨room, record, ⟨hrecord, hmember⟩, rfl⟩

theorem nodup_roomsContaining : (s.roomsContaining account).Nodup := by
  have hkeys : (s.rooms.toList.map Prod.fst).Nodup := by
    rw [Std.ExtTreeMap.map_fst_toList_eq_keys]
    exact Std.ExtTreeMap.nodup_keys
  exact hkeys.sublist (List.filter_sublist.map Prod.fst)

/-- An identity's own address comes first, its account's and the rooms' are others. -/
theorem nodup_addresses (h : identity.account = some account) :
    (s.addresses identity account).Nodup := by
  have hrooms : ((s.roomsContaining account).map Address.room).Nodup :=
    nodup_roomsContaining.map fun _ _ => Address.room.inj
  cases identity with
  | direct => simp [addresses, hrooms]
  | session => simp [addresses, hrooms]
  | room => cases h

variable {sinceUnixMs : UInt64} {message : Message}

theorem mem_messagesToSince {address : Address} :
    message ∈ s.messagesToSince address sinceUnixMs ↔
      message ∈ s.allMessages ∧ sinceUnixMs ≤ message.createdAtUnixMs ∧
        message.to = address := by
  simp [messagesToSince]

theorem mem_ownMessages :
    message ∈ s.ownMessages identity account sinceUnixMs ↔
      message ∈ s.allMessages ∧ sinceUnixMs ≤ message.createdAtUnixMs ∧
        message.to ∈ s.addresses identity account := by
  simp only [ownMessages, List.mem_flatMap, mem_messagesToSince]
  aesop

/-- A cursor only leaves out what is older. -/
theorem ownMessages_since (sinceUnixMs : UInt64) :
    s.ownMessages identity account sinceUnixMs =
      (s.ownMessages identity account 0).filter (sinceUnixMs ≤ ·.createdAtUnixMs) := by
  rw [ownMessages, ownMessages, List.filter_flatMap]
  refine List.flatMap_congr fun address _ => ?_
  rw [messagesToSince, messagesToSince, List.filter_filter]
  refine List.filter_congr fun message _ => ?_
  simp

theorem Filed.mem_allMessages (filed : s.Filed) :
    message ∈ s.allMessages ↔ s.messages[message.messageId]? = some message := by
  rw [allMessages, List.mem_map]
  constructor
  · rintro ⟨⟨id, message⟩, hmem, rfl⟩
    have hid := Std.ExtTreeMap.mem_toList_iff_getElem?_eq_some.1 hmem
    rwa [filed id message hid]
  · intro h
    exact ⟨(message.messageId, message), Std.ExtTreeMap.mem_toList_iff_getElem?_eq_some.2 h, rfl⟩

theorem Filed.nodup_allMessages (filed : s.Filed) :
    (s.allMessages.map Message.messageId).Nodup := by
  have hkeys : s.allMessages.map Message.messageId = s.messages.keys := by
    rw [allMessages, ← Std.ExtTreeMap.map_fst_toList_eq_keys, List.map_map]
    refine List.map_congr_left fun entry hentry => ?_
    exact filed entry.1 entry.2 (Std.ExtTreeMap.mem_toList_iff_getElem?_eq_some.1 hentry)
  rw [hkeys]
  exact Std.ExtTreeMap.nodup_keys

/-- No message is listed twice. -/
theorem Filed.nodup_ownMessages (filed : s.Filed) (h : identity.account = some account)
    (sinceUnixMs : UInt64) :
    ((s.ownMessages identity account sinceUnixMs).map Message.messageId).Nodup := by
  have hvalues : s.allMessages.Nodup := filed.nodup_allMessages.of_map
  have hown : (s.ownMessages identity account sinceUnixMs).Nodup := by
    refine List.nodup_flatMap.2 ⟨fun address _ => hvalues.filter _, ?_⟩
    refine (nodup_addresses h).imp fun hne message ha hb => hne ?_
    exact (mem_messagesToSince.1 ha).2.2.symm.trans (mem_messagesToSince.1 hb).2.2
  refine hown.map_on fun a ha b hb hid => ?_
  exact List.inj_on_of_nodup_map filed.nodup_allMessages (mem_ownMessages.1 ha).1
    (mem_ownMessages.1 hb).1 hid

theorem Filed.effect {next : InMemoryStore} (filed : s.Filed) (h : Effect s next) : next.Filed := by
  cases h with
  | sent message idempotency valid =>
    simp only [insertMessage]
    split
    · exact filed
    · intro id stored hstored
      rw [getElem?_insert_ite] at hstored
      split_ifs at hstored with hid
      · rw [← Option.some.inj hstored, hid]
      · exact filed id stored hstored
  | nothing => exact filed
  | registered => exact filed
  | roomCreated => exact filed
  | sessionSaved => exact filed
  | deregistered =>
    rw [deregisterParticipant]
    split <;> exact filed
  | rotated =>
    rw [setParticipantSecretDigest]
    split <;> exact filed
  | listening =>
    rw [setListenerUrl]
    split <;> exact filed
  | memberAdded =>
    rw [addRoomMember]
    split <;> exact filed
  | memberRemoved =>
    rw [removeRoomMember]
    split <;> exact filed
  | acked =>
    rw [recordAck]
    split <;> exact filed

end InMemoryStore

open InMemoryStore

/-! ### The engine over the store in memory -/

namespace MailboxEngine

variable {engine : MailboxEngine InMemoryStore} {reader : Address} {account : ParticipantId}
  {record : ParticipantRecord}

theorem mapM_ok {ε α β : Type} (f : α → β) (items : List α) :
    items.mapM (fun item => (.ok (f item) : Except ε β)) = .ok (items.map f) := by
  induction items with
  | nil => rfl
  | cons item items ih =>
    rw [List.mapM_cons, ok_bind, ih]
    rfl

theorem ownMessages_eq (sinceUnixMs : UInt64) :
    engine.ownMessages reader account sinceUnixMs =
      .ok (engine.store.ownMessages reader account sinceUnixMs) := by
  simp only [ownMessages, MailStore.messagesToSince, MailStore.roomsContaining,
    MailStore.roomMessagesSince, storeUnavailable_ok, ok_bind, mapM_ok]
  cases reader <;>
    simp [InMemoryStore.ownMessages, addresses, List.flatMap_def, roomMessagesSince,
      messagesToSince] <;> rfl

/-- Fetching asks whether the message goes to one of the listed addresses. -/
theorem isReadable_eq (h : reader.account = some account) (plain : record.operator = false)
    (message : Message) :
    engine.isReadable message reader account record =
      .ok (decide (message.to ∈ engine.store.addresses reader account)) := by
  have hmember (room : RoomId) : Address.room room ∈ engine.store.addresses reader account ↔
      engine.store.rooms[room]?.any (fun record => record.members.contains account) = true := by
    rw [← mem_roomsContaining]
    cases reader with
    | room => cases h
    | _ => simp [addresses]
  simp only [isReadable, plain, MailStore.getRoom, storeUnavailable_ok, ok_bind]
  cases hto : message.to with
  | direct participant =>
    cases reader with
    | room => cases h
    | _ =>
      cases h
      simp [addresses, pure, Except.pure]
  | session participant session =>
    cases reader with
    | room => cases h
    | _ =>
      simp [addresses, eq_comm, pure, Except.pure]
  | room room =>
    simp [hmember, pure, Except.pure]

/-- The reader has neither written nor acknowledged the message. -/
def unreadBy (store : InMemoryStore) (reader : Address) (message : Message) : Bool :=
  message.«from» ≠ reader && store.acks[AckKey.mk message.messageId reader]?.isNone

theorem foldlM_count {p : Message → Bool} {count : UInt32 → Message → Except MailError UInt32}
    (h : ∀ n message, count n message = .ok (if p message then n + 1 else n))
    (messages : List Message) (start : UInt32) :
    messages.foldlM count start = .ok (start + .ofNat (messages.countP p)) := by
  induction messages generalizing start with
  | nil => simp [pure, Except.pure]
  | cons message messages ih =>
    rw [List.foldlM_cons, h, ok_bind, ih, List.countP_cons]
    by_cases hp : p message
    · simp [hp, UInt32.ofNat_add, UInt32.add_assoc, UInt32.add_comm 1]
    · simp [hp]

/-- How many of the reader's messages it has neither written nor acknowledged, as a `u32`. -/
def unreadNumber (store : InMemoryStore) (reader : Address) (messages : List Message) : UInt32 :=
  .ofNat (messages.countP (unreadBy store reader))

theorem countUnread_eq : engine.countUnread reader account =
    .ok (unreadNumber engine.store reader (engine.store.ownMessages reader account 0)) := by
  rw [countUnread, ownMessages_eq, ok_bind, ← UInt32.zero_add (unreadNumber _ _ _)]
  refine foldlM_count (fun unread message => ?_) _ 0
  by_cases hfrom : message.«from» = reader
  · simp [hfrom, unreadBy, pure, Except.pure]
  · simp [hfrom, unreadBy, MailStore.getAck]

/-- What a reader's inbox lists without a cursor or a limit. -/
def ownList (engine : MailboxEngine InMemoryStore) (reader : Address) :
    Except MailError (List Message) := do
  let (account, record) ← engine.resolveIdentity reader
  requireReadPermission record
  engine.ownMessages reader account 0

/-- The reader's account, if it has one, is no operator. -/
def NonOperator (engine : MailboxEngine InMemoryStore) (reader : Address) : Prop :=
  ∀ account record, engine.resolveIdentity reader = .ok (account, record) →
    record.operator = false

theorem ownList_eq_ok {own : List Message} : engine.ownList reader = .ok own ↔
    ∃ account record, engine.resolveIdentity reader = .ok (account, record) ∧
      requireReadPermission record = .ok () ∧
      own = engine.store.ownMessages reader account 0 := by
  simp only [ownList, bind_eq_ok_iff, Prod.exists, ownMessages_eq, Except.ok.injEq]
  constructor
  · rintro ⟨account, record, hresolve, ⟨⟩, hpermission, rfl⟩
    exact ⟨account, record, hresolve, hpermission, rfl⟩
  · rintro ⟨account, record, hresolve, hpermission, rfl⟩
    exact ⟨account, record, hresolve, (), hpermission, rfl⟩

variable {messageId : MessageId} {sha : Sha256}

/-- Fetching reaches what is listed. -/
theorem messageGet_eq_ok (filed : engine.store.Filed) (plain : engine.NonOperator reader)
    {message : Message} :
    engine.messageGet reader messageId = .ok message ↔
      ∃ own, engine.ownList reader = .ok own ∧ message ∈ own ∧ message.messageId = messageId := by
  -- For a reader that resolves, both sides are about the stored message and its address.
  have hgets {account : ParticipantId} {record : ParticipantRecord}
      (hresolve : engine.resolveIdentity reader = .ok (account, record)) (stored : Message) :
      engine.isReadable stored reader account record =
        .ok (decide (stored.to ∈ engine.store.addresses reader account)) :=
    isReadable_eq (account_of_resolveIdentity hresolve) (plain account record hresolve) stored
  constructor
  · intro h
    obtain ⟨⟨account, record⟩, hresolve, h⟩ := bind_eq_ok_iff.1 h
    obtain ⟨⟨⟩, hpermission, h⟩ := bind_eq_ok_iff.1 h
    simp only [MailStore.getMessage, storeUnavailable_ok, ok_bind] at h
    split at h
    · cases h
    · next stored hstored =>
      simp only [hgets hresolve, ok_bind, error_bind] at h
      split_ifs at h with hreadable
      cases h
      have hid := filed messageId _ hstored
      refine ⟨_, ownList_eq_ok.2 ⟨account, record, hresolve, hpermission, rfl⟩, ?_, hid⟩
      refine mem_ownMessages.2 ⟨?_, by simp, by simpa using hreadable⟩
      rwa [filed.mem_allMessages, hid]
  · rintro ⟨own, hown, hmem, rfl⟩
    obtain ⟨account, record, hresolve, hpermission, rfl⟩ := ownList_eq_ok.1 hown
    obtain ⟨hstored, -, hto⟩ := mem_ownMessages.1 hmem
    rw [filed.mem_allMessages] at hstored
    simp only [messageGet, hresolve, hpermission, ok_bind, MailStore.getMessage,
      storeUnavailable_ok, hstored, hgets hresolve, hto, decide_true]
    rfl

/-- At any time but zero, what can be fetched can be acknowledged. -/
theorem exists_ack_eq_ok {nowUnixMs : UInt64} (hnow : nowUnixMs ≠ 0) :
    (∃ result, engine.ack reader messageId nowUnixMs = .ok result) ↔
      ∃ message, engine.messageGet reader messageId = .ok message := by
  constructor
  · rintro ⟨result, h⟩
    obtain ⟨message, hmessage, -⟩ := bind_eq_ok_iff.1 h
    exact ⟨message, hmessage⟩
  · rintro ⟨message, hmessage⟩
    obtain ⟨⟨account, record⟩, hresolve, -⟩ := bind_eq_ok_iff.1 hmessage
    have hvalid : (Ack.mk messageId reader nowUnixMs).validate = .ok () :=
      Ack.validate_eq_ok.2 ⟨by simp [account_of_resolveIdentity hresolve], hnow⟩
    simp only [ack, hmessage, hvalid, ok_bind, MailStore.recordAck, storeUnavailable_ok]
    exact ⟨_, rfl⟩

/-- A page is cut from the list, and comes with the unread count of the whole list. -/
theorem inbox_eq_ok {sinceUnixMs : UInt64} {limit : UInt16} {page : InboxPage} :
    engine.inbox reader sinceUnixMs limit = .ok page ↔
      ∃ own, engine.ownList reader = .ok own ∧
        page = ⟨Page.select Message.order limit.toNat
          (own.filter (sinceUnixMs ≤ ·.createdAtUnixMs)),
          unreadNumber engine.store reader own⟩ := by
  have hbuild (account : ParticipantId) : engine.buildInbox reader account sinceUnixMs limit =
      .ok ⟨Page.select Message.order limit.toNat
        ((engine.store.ownMessages reader account 0).filter (sinceUnixMs ≤ ·.createdAtUnixMs)),
        unreadNumber engine.store reader (engine.store.ownMessages reader account 0)⟩ := by
    simp only [buildInbox, ownMessages_eq, countUnread_eq, ok_bind]
    rw [ownMessages_since]
    rfl
  constructor
  · intro h
    obtain ⟨⟨account, record⟩, hresolve, h⟩ := bind_eq_ok_iff.1 h
    obtain ⟨⟨⟩, hpermission, h⟩ := bind_eq_ok_iff.1 h
    rw [hbuild] at h
    exact ⟨_, ownList_eq_ok.2 ⟨account, record, hresolve, hpermission, rfl⟩,
      (Except.ok.inj h).symm⟩
  · rintro ⟨own, hown, rfl⟩
    obtain ⟨account, record, hresolve, hpermission, rfl⟩ := ownList_eq_ok.1 hown
    simp only [inbox, hresolve, hpermission, ok_bind, hbuild]

/-! ### Reachable engines -/

/-- An engine that some operations made of an empty one. -/
def Reachable (sha : Sha256) (engine : MailboxEngine InMemoryStore) : Prop :=
  ∃ steps, engine = Trace.run (MailboxEngine.step sha) ⟨.new⟩ steps

theorem Reachable.filed (h : Reachable sha engine) : engine.store.Filed := by
  obtain ⟨steps, rfl⟩ := h
  refine Trace.run_invariant (fun engine : MailboxEngine InMemoryStore => engine.store.Filed)
    (fun engine s filed => filed.effect (step_effect engine s)) ?_ steps
  intro id message h
  simp [new] at h

/-- In every reachable state and for every reader that is no operator, a message can be fetched,
and acknowledged at any time but zero, exactly if it is in the reader's own list; the list has no
message twice; and an inbox page is the list from the cursor on, in the order of time and
identifier, cut at the limit. -/
theorem readPaths_agree {sha : Sha256} (reachable : Reachable sha engine)
    (plain : engine.NonOperator reader) :
    (∀ messageId message, engine.messageGet reader messageId = .ok message ↔
      ∃ own, engine.ownList reader = .ok own ∧ message ∈ own ∧ message.messageId = messageId) ∧
    (∀ messageId nowUnixMs, nowUnixMs ≠ 0 →
      ((∃ result, engine.ack reader messageId nowUnixMs = .ok result) ↔
        ∃ own, engine.ownList reader = .ok own ∧
          ∃ message ∈ own, message.messageId = messageId)) ∧
    (∀ own, engine.ownList reader = .ok own → (own.map Message.messageId).Nodup) ∧
    (∀ sinceUnixMs limit page, engine.inbox reader sinceUnixMs limit = .ok page →
      ∃ own, engine.ownList reader = .ok own ∧ page.messages = Page.select Message.order
        limit.toNat (own.filter (sinceUnixMs ≤ ·.createdAtUnixMs))) ∧
    ∀ own sinceUnixMs limit, engine.ownList reader = .ok own →
      ∃ page, engine.inbox reader sinceUnixMs limit = .ok page := by
  have hget {messageId : MessageId} {message : Message} :=
    @messageGet_eq_ok engine reader messageId reachable.filed plain message
  refine ⟨fun _ _ => hget, fun messageId nowUnixMs hnow => ?_, fun own hown => ?_,
    fun sinceUnixMs limit page hpage => ?_, fun own sinceUnixMs limit hown => ?_⟩
  · rw [exists_ack_eq_ok hnow]
    simp only [hget]
    exact ⟨fun ⟨message, own, hown, hmem⟩ => ⟨own, hown, message, hmem⟩,
      fun ⟨own, hown, message, hmem⟩ => ⟨message, own, hown, hmem⟩⟩
  · obtain ⟨account, record, hresolve, -, rfl⟩ := ownList_eq_ok.1 hown
    exact reachable.filed.nodup_ownMessages (account_of_resolveIdentity hresolve) 0
  · obtain ⟨own, hown, rfl⟩ := inbox_eq_ok.1 hpage
    exact ⟨own, hown, rfl⟩
  · exact ⟨_, inbox_eq_ok.2 ⟨own, hown, rfl⟩⟩

/-! A small mailbox: Alice writes to Bob. -/

/-- The first bytes of the data itself. -/
def leadingBytes : Sha256 where
  hash data := (data ++ List.replicate 32 0).take 32
  length_hash data := by simp

def alice : ParticipantId := ⟨"alice", by decide +kernel⟩

def bob : ParticipantId := ⟨"bob", by decide +kernel⟩

def aliceWrites : List MailStep := [
  .registerParticipant alice none { maySend := true, mayRead := true } "secret-a",
  .registerParticipant bob none { mayRead := true } "secret-b",
  .send (.direct alice) ⟨.direct bob, "hi", "hello", none, none, [], none⟩ 7 [1]]

def delivered : MailboxEngine InMemoryStore :=
  Trace.run (MailboxEngine.step leadingBytes) ⟨.new⟩ aliceWrites

def toBob : Message where
  messageId := deriveMessageId leadingBytes (.direct alice)
    ⟨.direct bob, "hi", "hello", none, none, [], none⟩ 7 [1]
  «from» := .direct alice
  «to» := .direct bob
  subject := "hi"
  body := "hello"
  replyTo := none
  correlation := none
  refs := []
  createdAtUnixMs := 7

/-- Bob can fetch the message because it is listed. -/
theorem readPaths_agree_toBob :
    Reachable leadingBytes delivered ∧ delivered.NonOperator (.direct bob) ∧
      delivered.messageGet (.direct bob) toBob.messageId = .ok toBob := by
  have hreachable : Reachable leadingBytes delivered := ⟨aliceWrites, rfl⟩
  have hplain : delivered.NonOperator (.direct bob) := by
    intro account record h
    have hoperator : (delivered.resolveIdentity (.direct bob)).map (fun found => found.2.operator) =
        .ok false := by decide +kernel
    rw [h] at hoperator
    exact Except.ok.inj hoperator
  refine ⟨hreachable, hplain, ((readPaths_agree hreachable hplain).1 _ _).2 ⟨[toBob], ?_, ?_, rfl⟩⟩
  · decide +kernel
  · simp

/-! ### Unread messages -/

/-- The stored messages that the reader may fetch without an operator's permission, did not write
and has not acknowledged. -/
def unread (engine : MailboxEngine InMemoryStore) (reader : Address) (account : ParticipantId)
    (record : ParticipantRecord) : Set Message :=
  {message | message ∈ engine.store.allMessages ∧
    engine.isReadable message reader account { record with operator := false } = .ok true ∧
    unreadBy engine.store reader message}

theorem countP_unreadBy (reachable : Reachable sha engine)
    (hresolve : engine.resolveIdentity reader = .ok (account, record)) :
    (((engine.store.ownMessages reader account 0).countP (unreadBy engine.store reader) : ℕ) : ℕ∞) =
      (engine.unread reader account record).encard := by
  have haccount := account_of_resolveIdentity hresolve
  have hnodup : ((engine.store.ownMessages reader account 0).filter
      (unreadBy engine.store reader)).Nodup :=
    ((reachable.filed.nodup_ownMessages haccount 0).of_map _).filter _
  have hset : engine.unread reader account record = {message | message ∈
      (engine.store.ownMessages reader account 0).filter (unreadBy engine.store reader)} := by
    ext message
    have hreadable := @isReadable_eq engine reader account { record with operator := false }
      haccount rfl message
    simp [unread, hreadable, mem_ownMessages, and_assoc]
  rw [hset, List.countP_eq_length_filter, ← List.toFinset_card_of_nodup hnodup,
    ← Set.encard_coe_eq_coe_finsetCard, List.coe_toFinset]

/-- In every reachable state and for every identity, the unread number of every page, its own or
one that an operator asks for, and the unread count are the number of unread messages, as long as
it fits into 32 bits. -/
theorem unread_eq_encard {sha : Sha256} (reachable : Reachable sha engine)
    (hresolve : engine.resolveIdentity reader = .ok (account, record))
    (hfits : (engine.unread reader account record).encard < (2 ^ 32 : ℕ)) :
    (∀ sinceUnixMs limit page, engine.inbox reader sinceUnixMs limit = .ok page →
      (page.unread.toNat : ℕ∞) = (engine.unread reader account record).encard) ∧
    (∀ caller sinceUnixMs limit page, engine.inboxOf caller reader sinceUnixMs limit = .ok page →
      (page.unread.toNat : ℕ∞) = (engine.unread reader account record).encard) ∧
    ∀ caller count, engine.unreadCountOf caller reader = .ok count →
      (count.unread.toNat : ℕ∞) = (engine.unread reader account record).encard := by
  rw [← countP_unreadBy reachable hresolve] at hfits ⊢
  have hnumber : (unreadNumber engine.store reader
    (engine.store.ownMessages reader account 0)).toNat =
      (engine.store.ownMessages reader account 0).countP (unreadBy engine.store reader) :=
    Nat.mod_eq_of_lt (Nat.cast_lt.1 hfits)
  rw [← hnumber]
  have hbuild {sinceUnixMs : UInt64} {limit : UInt16} {page : InboxPage}
      (h : engine.buildInbox reader account sinceUnixMs limit = .ok page) :
      page.unread = unreadNumber engine.store reader
        (engine.store.ownMessages reader account 0) := by
    simp only [buildInbox, ownMessages_eq, countUnread_eq, ok_bind] at h
    cases h
    rfl
  have htarget {caller : Address} {found : ParticipantId}
      (h : engine.resolveTarget caller reader = .ok found) : found = account := by
    obtain ⟨_, -, h⟩ := bind_eq_ok_iff.1 h
    simp only [hresolve, ok_bind, error_bind] at h
    split_ifs at h
    · obtain ⟨_, -, h⟩ := bind_eq_ok_iff.1 h
      exact (Except.ok.inj h).symm
    · exact (Except.ok.inj h).symm
  refine ⟨fun sinceUnixMs limit page h => ?_, fun caller sinceUnixMs limit page h => ?_,
    fun caller count h => ?_⟩
  · simp only [inbox, hresolve, ok_bind] at h
    obtain ⟨-, -, h⟩ := bind_eq_ok_iff.1 h
    rw [hbuild h]
  · obtain ⟨found, hfound, h⟩ := bind_eq_ok_iff.1 h
    rw [htarget hfound] at h
    rw [hbuild h]
  · obtain ⟨found, hfound, h⟩ := bind_eq_ok_iff.1 h
    rw [htarget hfound, countUnread_eq, ok_bind] at h
    cases h
    rfl

/-- Bob has one message to read. -/
theorem unread_eq_encard_bob : Reachable leadingBytes delivered ∧
    ∃ record, delivered.resolveIdentity (.direct bob) = .ok (bob, record) ∧
      (delivered.unread (.direct bob) bob record).encard = 1 := by
  have hreachable : Reachable leadingBytes delivered := ⟨aliceWrites, rfl⟩
  have hresolve : (delivered.resolveIdentity (.direct bob)).map Prod.fst = .ok bob := by
    decide +kernel
  have hcount : (delivered.unreadCountOf (.direct bob) (.direct bob)).map UnreadCount.unread =
      .ok 1 := by decide +kernel
  obtain ⟨⟨account, record⟩, hrecord, rfl⟩ := map_eq_ok_iff.1 hresolve
  obtain ⟨count, hcount, hone⟩ := map_eq_ok_iff.1 hcount
  have hlisted : (delivered.store.ownMessages (.direct bob) bob 0).length = 1 := by
    decide +kernel
  have hfits : (delivered.unread (.direct bob) bob record).encard < (2 ^ 32 : ℕ) := by
    rw [← countP_unreadBy hreachable hrecord, Nat.cast_lt]
    exact (List.countP_le_length.trans hlisted.le).trans_lt (by decide)
  have h := (unread_eq_encard hreachable hrecord hfits).2.2 _ count hcount
  exact ⟨hreachable, record, hrecord, by rw [← h, hone]; rfl⟩

def olga : ParticipantId := ⟨"olga", by decide +kernel⟩

/-- Olga is an operator. -/
def operated : MailboxEngine InMemoryStore :=
  Trace.run (MailboxEngine.step leadingBytes) ⟨.new⟩ <|
    .registerParticipant olga none { mayRead := true, operator := true } "secret-c" :: aliceWrites

/-- An operator can fetch the mail of others, and it is not counted. -/
theorem unread_operator : Reachable leadingBytes operated ∧
    operated.messageGet (.direct olga) toBob.messageId = .ok toBob ∧
    unreadBy operated.store (.direct olga) toBob ∧
    (operated.inbox (.direct olga) 0 10).map InboxPage.unread = .ok 0 :=
  ⟨⟨_, rfl⟩, by decide +kernel, by decide +kernel, by decide +kernel⟩

end MailboxEngine

end Mailbox
