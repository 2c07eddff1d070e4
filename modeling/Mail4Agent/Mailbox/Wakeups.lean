import Mail4Agent.Mailbox.Service

/-!
# No wake-up is lost

While rooms keep their members whenever a reader is parked, a parked reader that was not reached has
nothing to read, unless a send that will reach it is still on its way (`Waking`). What a reader is
shown depends on the addresses of its account, and those are what a send reads to find whom to tell.
-/

namespace Mailbox

/-! ### Whom a send tells -/

namespace SqliteMailStore

variable {s : SqliteMailStore}

theorem mem_members {room : RoomId} {account : ParticipantId} :
    account ∈ (s.members room).toList ↔ (room, account) ∈ s.roomMembers := by
  simp only [Std.ExtTreeSet.mem_toList, members, Std.ExtTreeSet.mem_ofList, List.contains_eq_mem,
    List.mem_map, List.mem_filter, decide_eq_true_eq, Prod.exists]
  constructor
  · rintro ⟨room', account', ⟨hmember, rfl⟩, rfl⟩
    exact hmember
  · intro hmember
    exact ⟨room, account, ⟨hmember, rfl⟩, rfl⟩

/-- The address is a room that is there, if it is a room. -/
def Known (s : SqliteMailStore) (address : Address) : Prop :=
  ∀ room, address = .room room → ∃ createdAtUnixMs, s.rooms[room]? = some createdAtUnixMs

end SqliteMailStore

namespace MailboxService

variable {sha : Sha256} {service : MailboxService}

variable {address sender : Address} {later : MailboxService} {i j : Nat} {task : InboxTask}
  {timeIsUp notified : Bool} {accounts : List ParticipantId}

theorem mem_accountsFor_of_reaches {reader : Address} {account : ParticipantId}
    (haccount : reader.account = some account)
    (hreaches : service.engine.store.Reaches address reader account)
    (hknown : service.engine.store.Known address) : account ∈ service.accountsFor address := by
  rcases hreaches with rfl | rfl | ⟨room, rfl, hmember⟩
  · cases address with
    | room => cases haccount
    | _ => simpa [accountsFor, Address.account, eq_comm] using haccount
  · simp [accountsFor]
  · obtain ⟨createdAtUnixMs, hroom⟩ := hknown room rfl
    simpa [accountsFor, SqliteMailStore.getRoom, hroom] using SqliteMailStore.mem_members.2 hmember

/-- The accounts a send has read, or would read now. -/
def told (service : MailboxService) (send : SendTask) : List ParticipantId :=
  send.accounts.getD (service.accountsFor send.to)

/-- While members stay, who would be told is told. -/
theorem mem_told_of_keeps {send : SendTask} {account : ParticipantId}
    (hkeeps : service.engine.store.Keeps later.engine.store)
    (hmembers : later.engine.store.roomMembers = service.engine.store.roomMembers)
    (h : account ∈ service.told send) : account ∈ later.told send := by
  obtain ⟨address, sender, messageId, accounts⟩ := send
  cases accounts with
  | some accounts => exact h
  | none =>
    cases address with
    | room room =>
      simp only [told, Option.getD_none, accountsFor, SqliteMailStore.getRoom] at h ⊢
      cases hroom : service.engine.store.rooms[room]? with
      | none => simp [hroom] at h
      | some createdAtUnixMs =>
        rw [hkeeps.rooms hroom]
        simpa [hroom, SqliteMailStore.members, hmembers] using h
    | _ => exact h

/-! ### What an operation does to the daemon -/

/-- An operation is refused, changes one table, or commits a send. -/
inductive Operated (sha : Sha256) (service : MailboxService) : Table → MailboxService → Prop
  | refused (table : Table) : Operated sha service table service
  | changed (table : Table) (next : MailboxEngine SqliteMailStore) (hne : table ≠ .messages)
      (h : Mutation service.engine.store next.store table) :
      Operated sha service table { service with engine := next }
  | sent (sender : Address) (request : SendRequest) (nowUnixMs : UInt64) (nonce : Bytes)
      (response : SendResponse) (next : MailboxEngine SqliteMailStore)
      (h : service.engine.send sha sender request nowUnixMs nonce = .ok (response, next)) :
      Operated sha service .messages { service with
        engine := next
        sends := service.sends ++ [⟨request.to, sender, response.messageId, none⟩] }

theorem operated (service : MailboxService) (s : MailStep) :
    Operated sha service s.table (service.operate sha s) := by
  have hother (hne : s.table ≠ .messages) :
      Operated sha service s.table { service with engine := service.engine.step sha s } := by
    cases h : service.engine.perform sha s with
    | error e =>
      have hsame : service.engine.step sha s = service.engine := by
        simp [MailboxEngine.step, h, Except.toOption]
      rw [hsame]
      exact .refused _
    | ok next =>
      have hnext : service.engine.step sha s = next := by
        simp [MailboxEngine.step, h, Except.toOption]
      rw [hnext]
      exact .changed _ next hne (MailboxEngine.perform_mutation h)
  cases s with
  | send sender request nowUnixMs nonce =>
    simp only [operate]
    cases h : service.engine.send sha sender request nowUnixMs nonce with
    | error e => exact .refused _
    | ok result => exact .sent sender request nowUnixMs nonce result.1 result.2 h
  | _ => exact hother (by rintro ⟨⟩)

/-- What a committed send adds, and that its recipient was there. -/
theorem send_stores {engine next : MailboxEngine SqliteMailStore} {request : SendRequest}
    {nowUnixMs : UInt64} {nonce : Bytes} {response : SendResponse}
    (h : engine.send sha sender request nowUnixMs nonce = .ok (response, next)) :
    next.store.Known request.to ∧ next.store.roomMembers = engine.store.roomMembers ∧
      ∀ (id : MessageId) (message : Message), next.store.messages[id]? = some message →
        engine.store.messages[id]? = some message ∨ message.to = request.to := by
  obtain ⟨hadmits, outcome, hinsert, -⟩ := MailboxEngine.send_eq_ok.1 h
  have hkeeps := SqliteMailStore.Keeps.insertMessage hinsert
  refine ⟨fun room hroom => ?_, ?_, fun id message hmessage => ?_⟩
  · have hrecipient := hadmits.recipient
    rw [hroom] at hrecipient
    simp only [MailboxEngine.requireRecipient, MailStore.getRoom, SqliteMailStore.getRoom,
      MailboxEngine.storeUnavailable_ok, ok_bind] at hrecipient
    split_ifs at hrecipient with hfound
    cases hcreated : engine.store.rooms[room]? with
    | none => simp [hcreated] at hfound
    | some createdAtUnixMs => exact ⟨createdAtUnixMs, hkeeps.rooms hcreated⟩
  all_goals
    obtain ⟨-, -, -, hstored⟩ := SqliteMailStore.insertMessage_eq_ok.1 hinsert
    split at hstored
  · rw [hstored.2]
  · rw [hstored.2]
  · rw [hstored.2] at hmessage
    exact .inl hmessage
  · rw [hstored.2, getElem?_insert_ite] at hmessage
    split_ifs at hmessage with hid
    · exact .inr (by rw [← Option.some.inj hmessage]; rfl)
    · exact .inl hmessage

/-! ### The invariant -/

/-- There is mail for the reader from its cursor on. -/
def Unread (service : MailboxService) (task : InboxTask) (account : ParticipantId) : Prop :=
  ∃ (id : MessageId) (message : Message), service.engine.store.messages[id]? = some message ∧
    task.sinceUnixMs ≤ message.createdAtUnixMs ∧
    service.engine.store.Reaches message.to task.reader account

structure Waking (service : MailboxService) : Prop where
  entry : ∀ task ∈ service.readers, ∀ account, task.reader.account = some account →
    account ∈ service.perAccount
  limit : ∀ task ∈ service.readers, task.limit ≠ 0
  told : ∀ task ∈ service.readers, task.phase = .parked false →
    ∀ account, task.reader.account = some account → service.Unread task account →
      ∃ send ∈ service.sends, account ∈ service.told send

theorem waking_new : new.Waking :=
  ⟨fun _ h => absurd h List.not_mem_nil, fun _ h => absurd h List.not_mem_nil,
    fun _ h => absurd h List.not_mem_nil⟩

theorem Waking.operated {table : Table} (waking : service.Waking)
    (hkept : table = .members → ∀ task ∈ service.readers, task.phase ≠ .parked false)
    (h : Operated sha service table later) : later.Waking := by
  cases h with
  | refused => exact waking
  | changed table next hne hmutation =>
    have hleaves := SqliteMailStore.Leaves.mutation hmutation
    refine ⟨waking.entry, waking.limit, fun task htask hphase account haccount hunread => ?_⟩
    have hfixed : table ≠ .members := fun hmembers => hkept hmembers task htask hphase
    have hbefore : service.Unread task account := by
      simpa only [Unread, SqliteMailStore.Reaches, hleaves.messages hne,
        hleaves.roomMembers hfixed] using hunread
    obtain ⟨send, hsend, htold⟩ := waking.told task htask hphase account haccount hbefore
    exact ⟨send, hsend, mem_told_of_keeps (SqliteMailStore.Keeps.mutation hmutation)
      (hleaves.roomMembers hfixed) htold⟩
  | sent sender request nowUnixMs nonce response next hsent =>
    obtain ⟨hknown, hmembers, hmessages⟩ := send_stores hsent
    obtain ⟨-, outcome, hinsert, -⟩ := MailboxEngine.send_eq_ok.1 hsent
    have hkeeps := SqliteMailStore.Keeps.insertMessage hinsert
    refine ⟨waking.entry, waking.limit, fun task htask hphase account haccount hunread => ?_⟩
    obtain ⟨id, message, hmessage, hsince, hreaches⟩ := hunread
    rcases hmessages id message hmessage with hold | hto
    · -- mail that was there: its own send is still on its way
      have hbefore : service.Unread task account :=
        ⟨id, message, hold, hsince, by
          simpa only [SqliteMailStore.Reaches, hmembers] using hreaches⟩
      obtain ⟨send, hsend, htold⟩ := waking.told task htask hphase account haccount hbefore
      exact ⟨send, List.mem_append_left _ hsend, mem_told_of_keeps hkeeps hmembers htold⟩
    · rw [hto] at hreaches
      exact ⟨_, List.mem_append_right _ List.mem_cons_self,
        @mem_accountsFor_of_reaches { service with engine := next } _ _ _ haccount hreaches hknown⟩

theorem mem_modify {α : Type} {items : List α} {f : α → α} {a : α} (h : a ∈ items.modify i f) :
    a ∈ items ∨ ∃ b ∈ items, items[i]? = some b ∧ a = f b := by
  obtain ⟨j, hj⟩ := List.mem_iff_getElem?.1 h
  rw [List.getElem?_modify] at hj
  obtain ⟨b, hb, rfl⟩ := Option.map_eq_some_iff.1 hj
  have hmem := List.mem_of_getElem? hb
  split_ifs with hij
  · exact .inr ⟨b, hmem, hij ▸ hb, rfl⟩
  · exact .inl hmem

/-- A reader parks only with nothing to read. -/
theorem Waking.advance (waking : service.Waking) (i : Nat) {next : InboxTask → Phase}
    (hparks : ∀ task ∈ service.readers, next task = .parked false → task.phase = .parked false ∨
      ∀ account, task.reader.account = some account → ¬ service.Unread task account) :
    (service.advance i next).Waking := by
  refine ⟨fun task htask => ?_, fun task htask => ?_, fun task htask hphase account haccount
    hunread => ?_⟩ <;> rcases mem_modify htask with htask | ⟨before, hbefore, -, rfl⟩
  · exact waking.entry task htask
  · exact waking.entry before hbefore
  · exact waking.limit task htask
  · exact waking.limit before hbefore
  · exact waking.told task htask hphase account haccount hunread
  · rcases hparks before hbefore hphase with hparked | hnothing
    · exact waking.told before hbefore hparked account haccount hunread
    · exact absurd hunread (hnothing account haccount)

theorem inboxOnce_eq_parked (hlimit : task.limit ≠ 0)
    (h : service.inboxOnce task timeIsUp = .parked notified) :
    task.phase = .parked notified ∨
      ∀ account, task.reader.account = some account → ¬ service.Unread task account := by
  unfold inboxOnce at h
  split at h
  · split at h
    · cases h
    · next page hpage =>
      split_ifs at h with hdone
      simp only [ne_eq, Bool.or_eq_true, decide_eq_true_eq, not_or, not_not] at hdone
      obtain ⟨account, haccount, hempty⟩ :=
        MailboxEngine.inbox_messages_eq_nil hlimit hpage
      refine .inr fun other hother => ?_
      cases haccount.symm.trans hother
      rintro ⟨id, message, hmessage, hsince, hreaches⟩
      exact hempty.1 hdone.1.1 id message hmessage hsince hreaches
  · exact .inl h

theorem notify_reader (accounts : List ParticipantId) (task : InboxTask) :
    (task.notify accounts).reader = task.reader ∧ (task.notify accounts).limit = task.limit ∧
      (task.notify accounts).sinceUnixMs = task.sinceUnixMs := by
  unfold InboxTask.notify
  split_ifs
  · split <;> exact ⟨rfl, rfl, rfl⟩
  · exact ⟨rfl, rfl, rfl⟩

/-- A subscription for one of the accounts is reached. -/
theorem notify_parked (hparked : task.phase = .parked notified) : task.notify accounts =
      if task.reader.account.any (· ∈ accounts) then { task with phase := .parked true }
      else task := by
  simp [InboxTask.notify, hparked]

theorem notify_eq_parked_false (h : (task.notify accounts).phase = .parked false) :
    task.phase = .parked false ∧ ∀ account, task.reader.account = some account →
      account ∉ accounts := by
  unfold InboxTask.notify at h
  split_ifs at h with haccount
  · split at h
    · cases h
    · cases h
    · next hparked => exact absurd h (hparked false)
  · exact ⟨h, fun account hsome hmem => haccount (by simp [hsome, hmem])⟩

theorem Waking.notifyAccounts (waking : service.Waking) (i : Nat) :
    (service.notifyAccounts i).Waking := by
  unfold MailboxService.notifyAccounts
  split
  · next address sender messageId accounts hsend =>
    refine ⟨fun task htask => ?_, fun task htask => ?_, fun task htask hphase account haccount
      hunread => ?_⟩ <;> obtain ⟨before, hbefore, rfl⟩ := List.mem_map.1 htask
    · rw [(notify_reader _ before).1]
      exact waking.entry before hbefore
    · rw [(notify_reader _ before).2.1]
      exact waking.limit before hbefore
    · obtain ⟨hparked, hmissed⟩ := notify_eq_parked_false hphase
      simp only [Unread, notify_reader] at haccount hunread
      obtain ⟨send, hmem, htold⟩ :=
        waking.told before hbefore hparked account haccount hunread
      -- the send that is done now told others, so this one is another
      obtain ⟨j, hj⟩ := List.mem_iff_getElem?.1 hmem
      have hother : j ≠ i := by
        rintro rfl
        cases hj.symm.trans hsend
        exact hmissed account haccount
          (List.mem_filter.2 ⟨htold, by simpa using waking.entry before hbefore account haccount⟩)
      exact ⟨send, List.mem_eraseIdx_iff_getElem?.2 ⟨j, hother, hj⟩, htold⟩
  · exact waking

theorem Waking.accountsFor (waking : service.Waking) (i : Nat) :
    (service.step sha (.accountsFor i)).Waking := by
  refine ⟨waking.entry, waking.limit, fun task htask hphase account haccount hunread => ?_⟩
  obtain ⟨send, hsend, htold⟩ := waking.told task htask hphase account haccount hunread
  obtain ⟨j, hj⟩ := List.mem_iff_getElem?.1 hsend
  have hlater : (service.step sha (.accountsFor i)).sends[j]? = some (if i = j then
      { send with accounts := some (service.told send) } else send) := by
    simp only [step, List.getElem?_modify, hj]
    split_ifs <;> rfl
  refine ⟨_, List.mem_of_getElem? hlater, ?_⟩
  split_ifs
  · exact htold
  · exact htold

/-- Nobody joins or leaves a room while a reader is parked that was not reached. -/
def KeepsMembers (service : MailboxService) : ServiceStep → Prop
  | .operation s => s.table = .members → ∀ task ∈ service.readers, task.phase ≠ .parked false
  | _ => True

instance (service : MailboxService) (s : ServiceStep) : Decidable (service.KeepsMembers s) := by
  unfold KeepsMembers
  split <;> infer_instance

theorem Waking.step (waking : service.Waking) (s : ServiceStep) (hkept : service.KeepsMembers s) :
    (service.step sha s).Waking := by
  cases s with
  | operation s => exact waking.operated hkept (service.operated s)
  | accountsFor i => exact waking.accountsFor i
  | notifyAccounts i => exact waking.notifyAccounts i
  | deliver i => exact ⟨waking.entry, waking.limit, waking.told⟩
  | inboxWait reader request =>
    simp only [MailboxService.step]
    split
    · next hvalid =>
      have hlimit : request.limit ≠ 0 := by
        intro hzero
        simp [InboxRequest.validate, hzero] at hvalid
      refine ⟨fun task htask account haccount => ?_, fun task htask => ?_, fun task htask hphase =>
        ?_⟩ <;> rcases List.mem_append.1 htask with htask | hnew
      · exact List.mem_append_right _ (waking.entry task htask account haccount)
      · obtain rfl := List.mem_singleton.1 hnew
        exact List.mem_append_left _ (Option.mem_toList.2 haccount)
      · exact waking.limit task htask
      · obtain rfl := List.mem_singleton.1 hnew
        exact hlimit
      · exact waking.told task htask hphase
      · obtain rfl := List.mem_singleton.1 hnew
        cases hphase
    · exact waking
  | subscribe i =>
    refine waking.advance i fun task htask hphase => ?_
    split at hphase
    · cases hphase
    · exact .inl hphase
  | inboxOnce i timeIsUp =>
    exact waking.advance i fun task htask => inboxOnce_eq_parked (waking.limit task htask)
  | woken i =>
    refine waking.advance i fun task htask hphase => ?_
    split at hphase
    · cases hphase
    · exact .inl hphase
  | timedOut i =>
    refine waking.advance i fun task htask hphase => ?_
    split at hphase
    · cases hphase
    · exact .inl hphase

theorem waking_run {steps : List ServiceStep}
    (hkept : Trace.Meets (step sha) KeepsMembers new steps) :
    (Trace.run (step sha) new steps).Waking :=
  Trace.run_invariant_of_meets Waking (fun _ s h waking => waking.step s h) hkept waking_new

/-! ### Parked readers -/

theorem step_notifyAccounts {messageId : MessageId}
    (hsend : service.sends[j]? = some ⟨address, sender, messageId, some accounts⟩) :
    (service.step sha (.notifyAccounts j)).readers =
      service.readers.map (·.notify (accounts.filter (· ∈ service.perAccount))) := by
  simp [step, notifyAccounts, hsend]

/-- Finishing a send reaches the parked readers of the accounts it tells. -/
theorem notified_of_told (waking : service.Waking) {send : SendTask} {account : ParticipantId}
    (htask : service.readers[i]? = some task) (hparked : task.phase = .parked notified)
    (haccount : task.reader.account = some account) (hsend : service.sends[j]? = some send)
    (htold : account ∈ service.told send) :
    (Trace.run (step sha) service [.accountsFor j, .notifyAccounts j]).readers[i]? =
      some { task with phase := .parked true } := by
  have hread : (service.step sha (.accountsFor j)).sends[j]? =
      some { send with accounts := some (service.told send) } := by
    simp [step, hsend, told]
  have hentry := waking.entry task (List.mem_of_getElem? htask) account haccount
  have hreached : task.notify ((service.told send).filter (· ∈ service.perAccount)) =
      { task with phase := .parked true } := by
    rw [notify_parked hparked, if_pos]
    simp [haccount, htold, hentry]
  calc (Trace.run (step sha) service [.accountsFor j, .notifyAccounts j]).readers[i]?
    _ = ((service.step sha (.accountsFor j)).readers.map (·.notify
          ((service.told send).filter (· ∈ service.perAccount))))[i]? := by
      rw [Trace.run_cons, Trace.run_cons, Trace.run_nil, step_notifyAccounts hread]
      rfl
    _ = (service.readers[i]?).map (·.notify
          ((service.told send).filter (· ∈ service.perAccount))) := List.getElem?_map
    _ = some { task with phase := .parked true } := by rw [htask, Option.map_some, hreached]

/-- A reader that starts over reads its inbox as it is then. -/
theorem answered_of_round {page : InboxPage}
    (htask : service.readers[i]? = some { task with phase := .looping })
    (hinbox : service.engine.inbox task.reader task.sinceUnixMs task.limit = .ok page)
    (hmail : page.messages ≠ []) :
    (Trace.run (step sha) service [.subscribe i, .inboxOnce i timeIsUp]).readers[i]? =
      some { task with phase := .answered (.ok page) } := by
  simp [step, advance, htask, inboxOnce, hinbox, hmail]

/-- While rooms keep their members whenever a reader is parked: if a reader is parked and its inbox
has mail from its cursor on, then it was reached, or a send is still on its way and reaches it; and
whether it was reached or its time is up, the next round answers it with that mail. -/
theorem parked_reader_is_reached (steps : List ServiceStep)
    (hkept : Trace.Meets (step sha) KeepsMembers new steps) {i : Nat} {task : InboxTask}
    {notified : Bool} {page : InboxPage}
    (htask : (Trace.run (step sha) new steps).readers[i]? = some task)
    (hparked : task.phase = .parked notified)
    (hinbox : (Trace.run (step sha) new steps).engine.inbox task.reader
      task.sinceUnixMs task.limit =
      .ok page) (hmail : page.messages ≠ []) :
    (notified = true ∨ ∃ j, (Trace.run (step sha) new
      (steps ++ [.accountsFor j, .notifyAccounts j])).readers[i]? =
        some { task with phase := .parked true }) ∧
    (notified = true → ∀ timeIsUp, (Trace.run (step sha) new
      (steps ++ [.woken i, .subscribe i, .inboxOnce i timeIsUp])).readers[i]? =
        some { task with phase := .answered (.ok page) }) ∧
    ∀ timeIsUp, (Trace.run (step sha) new
      (steps ++ [.timedOut i, .subscribe i, .inboxOnce i timeIsUp])).readers[i]? =
        some { task with phase := .answered (.ok page) } := by
  have waking := waking_run hkept
  simp only [Trace.run_append]
  generalize Trace.run (step sha) new steps = service at waking htask hinbox ⊢
  refine ⟨?_, fun hnotified timeIsUp => ?_, fun timeIsUp => ?_⟩
  · cases notified with
    | true => exact .inl rfl
    | false =>
      have hmem := List.mem_of_getElem? htask
      obtain ⟨account, haccount, hempty⟩ :=
        MailboxEngine.inbox_messages_eq_nil (waking.limit task hmem) hinbox
      have hunread : service.Unread task account := by
        by_contra hnothing
        exact hmail (hempty.2 fun id message hmessage hsince hreaches =>
          hnothing ⟨id, message, hmessage, hsince, hreaches⟩)
      obtain ⟨send, hsend, htold⟩ := waking.told task hmem hparked account haccount hunread
      obtain ⟨j, hj⟩ := List.mem_iff_getElem?.1 hsend
      exact .inr ⟨j, notified_of_told waking htask hparked haccount hj htold⟩
  · have hlooping : (service.step sha (.woken i)).readers[i]? =
        some { task with phase := .looping } := by
      simp [step, advance, htask, hparked, hnotified]
    exact answered_of_round hlooping hinbox hmail
  · have hlooping : (service.step sha (.timedOut i)).readers[i]? =
        some { task with phase := .looping } := by
      simp [step, advance, htask, hparked]
    exact answered_of_round hlooping hinbox hmail

/-! Alice writes to a room while Bob waits. -/

open MailboxEngine (alice bob leadingBytes)

def bobWaits : List ServiceStep := [
  .operation (.registerParticipant alice none { maySend := true } "secret-a"),
  .operation (.registerParticipant bob none { mayRead := true } "secret-b"),
  .operation (.createRoom ⟨"hall", by decide +kernel⟩ 5),
  .operation (.addRoomMember ⟨"hall", by decide +kernel⟩ alice),
  .operation (.addRoomMember ⟨"hall", by decide +kernel⟩ bob),
  .inboxWait (.direct bob) ⟨none, 10⟩, .subscribe 0, .inboxOnce 0 false,
  .operation (.send (.direct alice)
    ⟨.room ⟨"hall", by decide +kernel⟩, "hi", "hello", none, none, [], none⟩ 7 [1])]

theorem parked_reader_is_reached_bobWaits :
    ∃ (task : InboxTask) (page : InboxPage), page.messages ≠ [] ∧
      (Trace.run (step leadingBytes) new bobWaits).readers[0]? = some task ∧
      task.phase = .parked false ∧
      (∃ j, (Trace.run (step leadingBytes) new
        (bobWaits ++ [.accountsFor j, .notifyAccounts j])).readers[0]? =
          some { task with phase := .parked true }) ∧
      (Trace.run (step leadingBytes) new
        (bobWaits ++ [.timedOut 0, .subscribe 0, .inboxOnce 0 true])).readers[0]? =
          some { task with phase := .answered (.ok page) } := by
  have htask : (Trace.run (step leadingBytes) new bobWaits).readers[0]? =
      some ⟨.direct bob, 0, 10, .parked false⟩ := by decide +kernel
  have hinbox : ((Trace.run (step leadingBytes) new bobWaits).engine.inbox (.direct bob) 0 10).map
      (·.messages.length) = .ok 1 := by decide +kernel
  obtain ⟨page, hpage, hlength⟩ := map_eq_ok_iff.1 hinbox
  have hmail : page.messages ≠ [] := by
    intro hempty
    simp [hempty] at hlength
  have hkept : Trace.Meets (step leadingBytes) KeepsMembers new bobWaits := by decide +kernel
  obtain ⟨hreached, -, htimedOut⟩ :=
    parked_reader_is_reached bobWaits hkept htask rfl hpage hmail
  exact ⟨_, page, hmail, htask, rfl, hreached.resolve_left (by decide), htimedOut true⟩

end MailboxService

end Mailbox
