import Mail4Agent.Messenger.StoreItems

/-!
# Account data

The core keeps a copy of the account data the server holds, global and by room. A local write
changes the copy at once and goes to the server on a lane of its own, one request at a time. As
long as writes of a key are outstanding a sync does not touch its copy: what the server reports is
only remembered in the key's guard. When the last of them is answered, a terminal failure puts the
remembered value back, and a success keeps the copy.

Another device's write that the server took after ours, and that was reported before our answer, is
remembered and then forgotten with the guard (`not_converged_overwritten`). `converged_of_confirms`
says when the copy is the server's value again once nothing is outstanding or undelivered: as long
as a success that settles a key finds an event of the key still to come, or answers the write the
server took last, and no write fails to be queued behind another of its key.
-/

namespace Messenger

/-! ### The copy and its guards -/

/-- A slot of account data; without a room it is the account's own. -/
structure AccountDataKey where
  room : Option RoomId
  eventType : String
deriving DecidableEq, Repr

instance : Ord AccountDataKey :=
  ⟨compareLex (compareOn AccountDataKey.room) (compareOn AccountDataKey.eventType)⟩

instance : Std.TransOrd AccountDataKey :=
  inferInstanceAs (Std.TransCmp
    (compareLex (compareOn AccountDataKey.room) (compareOn AccountDataKey.eventType)))

instance : Std.LawfulEqOrd AccountDataKey where
  eq_of_compare {a b} h := by
    obtain ⟨hroom, htype⟩ := Ordering.then_eq_eq.1 h
    cases a; cases b
    exact congrArg₂ AccountDataKey.mk (Std.LawfulEqOrd.eq_of_compare hroom)
      (Std.LawfulEqOrd.eq_of_compare htype)

/-- Direct-message rooms by peer. -/
abbrev DirectContent := BTreeMap UserId (List RoomId)

/-- The identifiers in `m.direct` are not checked. -/
def DirectContent.ofJson? : Json → Option DirectContent
  | .obj entries => do
    let peers ← entries.mapM fun entry =>
      match entry.2 with
      | .arr rooms => do
        let rooms ← rooms.mapM Json.asStr?
        some ((⟨entry.1⟩ : UserId), rooms.map RoomId.mk)
      | _ => none
    some (.ofList peers compare)
  | _ => none

def directKey : AccountDataKey := ⟨none, "m.direct"⟩

structure AccountDataGuard where
  pending : Nat
  serverValue : Option Json

def setOrRemove (byType : BTreeMap String Json) (eventType : String) :
    Option Json → BTreeMap String Json
  | some value => byType.insert eventType value
  | none => byType.erase eventType

/-- Removing a value makes no entry for the room. -/
def setOrRemoveIn (rooms : BTreeMap RoomId (BTreeMap String Json)) (roomId : RoomId)
    (eventType : String) : Option Json → BTreeMap RoomId (BTreeMap String Json)
  | some value => insertNested rooms roomId eventType value
  | none =>
    match rooms[roomId]? with
    | some byType => rooms.insert roomId (byType.erase eventType)
    | none => rooms

theorem getElem?_setOrRemove (byType : BTreeMap String Json) (eventType other : String)
    (value : Option Json) : (setOrRemove byType eventType value)[other]? =
      if other = eventType then value else byType[other]? := by
  cases value with
  | some value => rw [setOrRemove, getElem?_insert_ite]
  | none => rw [setOrRemove, getElem?_erase_ite]

theorem lookupNested_setOrRemoveIn (rooms : BTreeMap RoomId (BTreeMap String Json))
    (roomId otherRoom : RoomId) (eventType other : String) (value : Option Json) :
    lookupNested (setOrRemoveIn rooms roomId eventType value) otherRoom other =
      if otherRoom = roomId ∧ other = eventType then value
      else lookupNested rooms otherRoom other := by
  cases value with
  | some value => rw [setOrRemoveIn, lookupNested_insertNested]
  | none =>
    simp only [setOrRemoveIn, lookupNested]
    by_cases hroom : otherRoom = roomId
    · subst hroom
      cases hrooms : rooms[otherRoom]? <;> simp [hrooms, getElem?_erase_ite]
    · cases rooms[roomId]? <;> simp [hroom, getElem?_insert_ite]

/-- The part of the core that keeps account data. -/
structure AccountDataState where
  directAccountData : Option DirectContent
  globalAccountData : BTreeMap String Json
  roomAccountData : BTreeMap RoomId (BTreeMap String Json)
  accountDataGuard : BTreeMap AccountDataKey AccountDataGuard
  accountDataWriteKeys : BTreeMap RequestId AccountDataKey

namespace AccountDataState

variable (s : AccountDataState)

def new : AccountDataState := ⟨none, ∅, ∅, ∅, ∅⟩

def cachedAccountData (key : AccountDataKey) : Option Json :=
  match key.room with
  | some roomId => lookupNested s.roomAccountData roomId key.eventType
  | none => s.globalAccountData[key.eventType]?

/-- Sets or removes a value; the typed view of `m.direct` goes with it. -/
def storeAccountDataCache (key : AccountDataKey) (value : Option Json) : AccountDataState :=
  let directAccountData :=
    if key = directKey then value.bind DirectContent.ofJson? else s.directAccountData
  match key.room with
  | none =>
    { s with
      directAccountData
      globalAccountData := setOrRemove s.globalAccountData key.eventType value }
  | some roomId =>
    { s with
      directAccountData
      roomAccountData := setOrRemoveIn s.roomAccountData roomId key.eventType value }

def settleAccountDataWrite (key : AccountDataKey) (succeeded : Bool) : AccountDataState :=
  match s.accountDataGuard[key]? with
  | none => s
  | some guard =>
    let pending := guard.pending - 1
    if 0 < pending then
      { s with accountDataGuard := s.accountDataGuard.insert key { guard with pending } }
    else
      let s := { s with accountDataGuard := s.accountDataGuard.erase key }
      if succeeded then s else s.storeAccountDataCache key guard.serverValue

/-- The key is guarded and the copy changed. -/
def guardAndStore (key : AccountDataKey) (value : Json) : AccountDataState :=
  let guard := s.accountDataGuard[key]?.getD ⟨0, s.cachedAccountData key⟩
  { s with accountDataGuard :=
    s.accountDataGuard.insert key { guard with pending := guard.pending + 1 }
  }.storeAccountDataCache key (some value)

/-- `enqueued` tells whether the queue took the request of the write, without which the write is
settled at once. -/
def writeAccountData (id : RequestId) (key : AccountDataKey) (value : Json) (enqueued : Bool) :
    AccountDataState :=
  let s := s.guardAndStore key value
  if enqueued then { s with accountDataWriteKeys := s.accountDataWriteKeys.insert id key }
  else s.settleAccountDataWrite key false

def applySyncedAccountData (key : AccountDataKey) (content : Json) : AccountDataState :=
  match s.accountDataGuard[key]? with
  | some guard =>
    { s with accountDataGuard :=
      s.accountDataGuard.insert key { guard with serverValue := some content } }
  | none => s.storeAccountDataCache key (some content)

/-- A terminal answer to a request. -/
def onTerminal (id : RequestId) (succeeded : Bool) : AccountDataState :=
  match s.accountDataWriteKeys[id]? with
  | some key =>
    { s with accountDataWriteKeys := s.accountDataWriteKeys.erase id }.settleAccountDataWrite key
      succeeded
  | none => s

/-! What an operation does is said with three views of the state: the copy, what the server is
known to hold, and how many writes of a key are counted. -/

/-- The last value the server is known to hold. -/
def known (key : AccountDataKey) : Option Json :=
  match s.accountDataGuard[key]? with
  | some guard => guard.serverValue
  | none => s.cachedAccountData key

def pendingWrites (key : AccountDataKey) : Option Nat := s.accountDataGuard[key]?.map (·.pending)

variable {s} {key other : AccountDataKey}

@[simp]
theorem accountDataGuard_store (value : Option Json) :
    (s.storeAccountDataCache key value).accountDataGuard = s.accountDataGuard := by
  rw [storeAccountDataCache]
  split <;> rfl

@[simp]
theorem accountDataWriteKeys_store (value : Option Json) :
    (s.storeAccountDataCache key value).accountDataWriteKeys = s.accountDataWriteKeys := by
  rw [storeAccountDataCache]
  split <;> rfl

theorem cachedAccountData_store (value : Option Json) :
    (s.storeAccountDataCache key value).cachedAccountData other =
      if other = key then value else s.cachedAccountData other := by
  obtain ⟨room, eventType⟩ := key
  obtain ⟨otherRoom, otherType⟩ := other
  cases room <;> cases otherRoom <;>
    simp [cachedAccountData, storeAccountDataCache, getElem?_setOrRemove,
      lookupNested_setOrRemoveIn]

theorem known_insert_guard (guard : AccountDataGuard) :
    known { s with accountDataGuard := s.accountDataGuard.insert key guard } other =
      if other = key then guard.serverValue else s.known other := by
  by_cases h : other = key
  · subst h
    simp [known]
  · simp [known, h, getElem?_insert_ite, cachedAccountData]

theorem pendingWrites_insert_guard (guard : AccountDataGuard) :
    pendingWrites { s with accountDataGuard := s.accountDataGuard.insert key guard } other =
      if other = key then some guard.pending else s.pendingWrites other := by
  simp only [pendingWrites, getElem?_insert_ite]
  split_ifs <;> rfl

theorem known_store (value : Option Json) :
    (s.storeAccountDataCache key value).known other =
      if other = key ∧ s.accountDataGuard[key]?.isNone then value else s.known other := by
  simp only [known, accountDataGuard_store, cachedAccountData_store]
  by_cases h : other = key
  · subst h
    cases s.accountDataGuard[other]? <;> simp
  · simp [h]

theorem known_erase_guard :
    known { s with accountDataGuard := s.accountDataGuard.erase key } other =
      if other = key then s.cachedAccountData key else s.known other := by
  by_cases h : other = key
  · subst h
    simp [known, cachedAccountData]
  · simp [known, h, getElem?_erase_ite, cachedAccountData]

theorem settle_unguarded (h : s.accountDataGuard[key]? = none) (succeeded : Bool) :
    s.settleAccountDataWrite key succeeded = s := by
  rw [settleAccountDataWrite, h]

theorem settle_more {guard : AccountDataGuard} (h : s.accountDataGuard[key]? = some guard)
    (more : 1 < guard.pending) (succeeded : Bool) :
    s.settleAccountDataWrite key succeeded = { s with
      accountDataGuard :=
        s.accountDataGuard.insert key { guard with pending := guard.pending - 1 } } := by
  simp only [settleAccountDataWrite, h]
  exact if_pos (by omega)

theorem settle_last {guard : AccountDataGuard} (h : s.accountDataGuard[key]? = some guard)
    (last : guard.pending ≤ 1) (succeeded : Bool) :
    s.settleAccountDataWrite key succeeded =
      let s := { s with accountDataGuard := s.accountDataGuard.erase key }
      if succeeded then s else s.storeAccountDataCache key guard.serverValue := by
  simp only [settleAccountDataWrite, h]
  exact if_neg (by omega)

/-- Only a success changes what is known, and only when it settles the key. -/
theorem known_settle (succeeded : Bool) :
    (s.settleAccountDataWrite key succeeded).known other =
      if other = key ∧ succeeded ∧ (s.pendingWrites key).any (· ≤ 1) then s.cachedAccountData key
      else s.known other := by
  cases hguard : s.accountDataGuard[key]? with
  | none => simp [settle_unguarded hguard, pendingWrites, hguard]
  | some guard =>
    have hknown : s.known key = guard.serverValue := by rw [known, hguard]
    by_cases hlast : guard.pending ≤ 1
    · rw [settle_last hguard hlast]
      cases succeeded with
      | true => simp [known_erase_guard, pendingWrites, hguard, hlast]
      | false =>
        by_cases h : other = key
        · simp [known_store, h, hknown]
        · simp [known_store, known_erase_guard, h]
    · rw [settle_more hguard (by omega), known_insert_guard]
      by_cases h : other = key
      · simp [h, pendingWrites, hguard, hlast, hknown]
      · simp [h]

theorem pendingWrites_settle (succeeded : Bool) :
    (s.settleAccountDataWrite key succeeded).pendingWrites other =
      if other = key then (s.pendingWrites key).bind fun n => if 1 < n then some (n - 1) else none
      else s.pendingWrites other := by
  cases hguard : s.accountDataGuard[key]? with
  | none =>
    by_cases h : other = key <;> simp [settle_unguarded hguard, pendingWrites, hguard, h]
  | some guard =>
    by_cases hlast : guard.pending ≤ 1
    · rw [settle_last hguard hlast]
      cases succeeded <;> by_cases h : other = key <;>
        simp [pendingWrites, hguard, getElem?_erase_ite, h, show ¬ 1 < guard.pending by omega]
    · rw [settle_more hguard (by omega), pendingWrites_insert_guard]
      by_cases h : other = key <;>
        simp [pendingWrites, hguard, h, show 1 < guard.pending by omega]

theorem known_guardAndStore (value : Json) :
    (s.guardAndStore key value).known other = s.known other := by
  rw [guardAndStore, known_store, if_neg (by simp), known_insert_guard]
  split_ifs with h
  · subst h
    cases hguard : s.accountDataGuard[other]? <;> simp [known, hguard]
  · rfl

theorem pendingWrites_guardAndStore (value : Json) :
    (s.guardAndStore key value).pendingWrites other =
      if other = key then some ((s.pendingWrites key).getD 0 + 1) else s.pendingWrites other := by
  rw [guardAndStore, pendingWrites, accountDataGuard_store]
  refine (pendingWrites_insert_guard _).trans ?_
  cases hguard : s.accountDataGuard[key]? <;> simp [pendingWrites, hguard]

/-- A write changes nothing about what is known. -/
theorem known_write (id : RequestId) (value : Json) (enqueued : Bool) :
    (s.writeAccountData id key value enqueued).known other = s.known other := by
  cases enqueued with
  | true => exact known_guardAndStore value
  | false =>
    rw [writeAccountData, if_neg Bool.false_ne_true, known_settle, if_neg (by simp)]
    exact known_guardAndStore value

/-- A write that was not enqueued is not counted. -/
theorem pendingWrites_write (counted : s.pendingWrites key ≠ some 0) (id : RequestId)
    (value : Json) (enqueued : Bool) :
    (s.writeAccountData id key value enqueued).pendingWrites other =
      if other = key ∧ enqueued then some ((s.pendingWrites key).getD 0 + 1)
      else s.pendingWrites other := by
  cases enqueued with
  | true =>
    simp only [and_true]
    exact pendingWrites_guardAndStore value
  | false =>
    rw [writeAccountData, if_neg Bool.false_ne_true, pendingWrites_settle]
    simp only [pendingWrites_guardAndStore, if_true]
    by_cases h : other = key
    · subst h
      cases hpending : s.pendingWrites other with
      | none => simp
      | some n =>
        have hpositive : 0 < n := Nat.pos_of_ne_zero fun h => counted (by rw [hpending, h])
        simp [hpositive]
    · simp [h]

theorem known_applySynced (content : Json) :
    (s.applySyncedAccountData key content).known other =
      if other = key then some content else s.known other := by
  rw [applySyncedAccountData]
  cases hguard : s.accountDataGuard[key]? with
  | some guard => rw [known_insert_guard]
  | none => simp [known_store, hguard]

theorem pendingWrites_applySynced (content : Json) :
    (s.applySyncedAccountData key content).pendingWrites other = s.pendingWrites other := by
  rw [applySyncedAccountData]
  cases hguard : s.accountDataGuard[key]? with
  | some guard =>
    rw [pendingWrites_insert_guard]
    split_ifs with h
    · rw [h, pendingWrites, hguard]
      rfl
    · rfl
  | none => rw [pendingWrites, accountDataGuard_store, pendingWrites]

/-- Only a failure changes the copy, and only when it settles the key. -/
theorem cachedAccountData_settle (succeeded : Bool)
    (h : other ≠ key ∨ succeeded = true ∨ (s.pendingWrites key).any (1 < ·)) :
    (s.settleAccountDataWrite key succeeded).cachedAccountData other =
      s.cachedAccountData other := by
  cases hguard : s.accountDataGuard[key]? with
  | none => rw [settle_unguarded hguard]
  | some guard =>
    by_cases hlast : guard.pending ≤ 1
    · rw [settle_last hguard hlast]
      cases succeeded with
      | true => rfl
      | false =>
        have hne : other ≠ key := by
          simpa [pendingWrites, hguard, Nat.not_lt.2 hlast] using h
        exact (cachedAccountData_store _).trans (if_neg hne)
    · rw [settle_more hguard (by omega)]
      rfl

/-- A write changes its own key's copy. -/
theorem cachedAccountData_write (id : RequestId) (value : Json) (enqueued : Bool)
    (h : other ≠ key ∨ enqueued = true) :
    (s.writeAccountData id key value enqueued).cachedAccountData other =
      if other = key then some value else s.cachedAccountData other := by
  cases enqueued with
  | true => exact cachedAccountData_store _
  | false =>
    have hne : other ≠ key := by simpa using h
    rw [writeAccountData, if_neg Bool.false_ne_true, cachedAccountData_settle _ (.inl hne)]
    exact cachedAccountData_store _

/-- A guarded copy is not touched by a sync. -/
theorem cachedAccountData_applySynced (content : Json)
    (h : other ≠ key ∨ (s.pendingWrites key).isSome) :
    (s.applySyncedAccountData key content).cachedAccountData other =
      s.cachedAccountData other := by
  rw [applySyncedAccountData]
  cases hguard : s.accountDataGuard[key]? with
  | some guard => rfl
  | none =>
    have hne : other ≠ key := by simpa [pendingWrites, hguard] using h
    exact (cachedAccountData_store _).trans (if_neg hne)

@[simp]
theorem accountDataWriteKeys_settle (succeeded : Bool) :
    (s.settleAccountDataWrite key succeeded).accountDataWriteKeys = s.accountDataWriteKeys := by
  cases hguard : s.accountDataGuard[key]? with
  | none => rw [settle_unguarded hguard]
  | some guard =>
    by_cases hlast : guard.pending ≤ 1
    · rw [settle_last hguard hlast]
      cases succeeded <;> simp
    · rw [settle_more hguard (by omega)]

theorem accountDataWriteKeys_write (id : RequestId) (value : Json) (enqueued : Bool) :
    (s.writeAccountData id key value enqueued).accountDataWriteKeys =
      if enqueued then s.accountDataWriteKeys.insert id key else s.accountDataWriteKeys := by
  cases enqueued <;> simp [writeAccountData, guardAndStore]

@[simp]
theorem accountDataWriteKeys_applySynced (content : Json) :
    (s.applySyncedAccountData key content).accountDataWriteKeys = s.accountDataWriteKeys := by
  rw [applySyncedAccountData]
  split <;> simp

end AccountDataState

/-! ### The server and the lane -/

/-- What the server holds, which request of this device brought it, if it was one of this device,
and what the server will still report here, by key and in the order in which it took the writes. -/
structure AccountDataServer where
  held : AccountDataKey → Option Json
  origin : AccountDataKey → Option RequestId
  undelivered : AccountDataKey → List Json

def AccountDataServer.put (server : AccountDataServer) (origin : Option RequestId)
    (key : AccountDataKey) (value : Json) : AccountDataServer where
  held := Function.update server.held key (some value)
  origin := Function.update server.origin key origin
  undelivered := Function.update server.undelivered key (server.undelivered key ++ [value])

/-- A server that took some writes, none of them reported yet. -/
def AccountDataServer.ofHistory (history : List (AccountDataKey × Json)) : AccountDataServer :=
  history.foldl (fun server entry => server.put none entry.1 entry.2)
    ⟨fun _ => none, fun _ => none, fun _ => []⟩

/-- A request on the account-data lane; `handled` once the server took its write. -/
structure LaneWrite where
  id : RequestId
  key : AccountDataKey
  value : Json
  handled : Bool

structure AccountDataWorld where
  client : AccountDataState
  lane : List LaneWrite
  server : AccountDataServer

inductive AccountDataStep where
  | write (id : RequestId) (key : AccountDataKey) (value : Json) (enqueued : Bool)
  /-- The server takes the write at the front of the lane. A lost answer makes it take it again. -/
  | handle
  /-- The request at the front ends with success or with a terminal failure. -/
  | answer (succeeded : Bool)
  /-- Another device writes. -/
  | elsewhere (key : AccountDataKey) (value : Json)
  /-- A sync reports the next value of a key. -/
  | synced (key : AccountDataKey)

namespace AccountDataWorld

open AccountDataState

def step (w : AccountDataWorld) : AccountDataStep → AccountDataWorld
  | .write id key value enqueued =>
    -- Identifiers are minted once, so an outstanding one is never written under again.
    if id ∈ w.client.accountDataWriteKeys then w
    else { w with
      client := w.client.writeAccountData id key value enqueued
      lane := if enqueued then w.lane ++ [⟨id, key, value, false⟩] else w.lane }
  | .handle =>
    match w.lane with
    | [] => w
    | front :: rest =>
      { w with
        lane := { front with handled := true } :: rest
        server := w.server.put (some front.id) front.key front.value }
  | .answer succeeded =>
    match w.lane with
    | [] => w
    | front :: rest =>
      if succeeded && !front.handled then w
      else { w with client := w.client.onTerminal front.id succeeded, lane := rest }
  | .elsewhere key value => { w with server := w.server.put none key value }
  | .synced key =>
    match w.server.undelivered key with
    | [] => w
    | value :: rest =>
      { w with
        client := w.client.applySyncedAccountData key value
        server := { w.server with
          undelivered := Function.update w.server.undelivered key rest } }

/-- How many writes of a key are outstanding. -/
def outstanding (w : AccountDataWorld) (key : AccountDataKey) : Nat :=
  w.lane.countP fun write => write.key = key

/-- Every key without an outstanding write, all of whose events were delivered, is cached with the
value the server holds. -/
def Converged (w : AccountDataWorld) : Prop :=
  ∀ key, w.outstanding key = 0 → w.server.undelivered key = [] →
    w.client.cachedAccountData key = w.server.held key

/-- A success that settles the last write of a key finds an event of the key still undelivered, or
answers the write of the key that the server took last. A write that cannot be queued is the only
one of its key. -/
def Confirms (w : AccountDataWorld) : AccountDataStep → Prop
  | .answer true => ∀ front rest, w.lane = front :: rest → front.handled = true →
    w.outstanding front.key = 1 → w.server.undelivered front.key = [] →
      w.server.origin front.key = some front.id
  | .write _ key _ false => w.outstanding key = 0
  | _ => True

/-- The value written last among the outstanding writes of a key. -/
def lastWritten (lane : List LaneWrite) (key : AccountDataKey) : Option Json :=
  ((lane.filter fun write => write.key = key).map (·.value)).getLast?

section LastWritten

variable {front : LaneWrite} {rest : List LaneWrite} {key : AccountDataKey} {value : Json}

theorem countP_ne_zero_of_lastWritten (h : lastWritten rest key = some value) :
    rest.countP (fun write => write.key = key) ≠ 0 := by
  rw [List.countP_eq_length_filter, ne_eq, List.length_eq_zero_iff]
  intro hnone
  simp [lastWritten, hnone] at h

/-- The answer to a write does not change which one was the last, as long as one is left. -/
theorem lastWritten_cons (h : lastWritten rest key = some value) :
    lastWritten (front :: rest) key = some value := by
  simp only [lastWritten, List.filter_cons] at h ⊢
  split_ifs
  · rw [List.map_cons, List.getLast?_cons, h]
    rfl
  · exact h

theorem lastWritten_of_only (h : rest.countP (fun write => write.key = front.key) = 0) :
    lastWritten (front :: rest) front.key = some front.value := by
  rw [List.countP_eq_length_filter, List.length_eq_zero_iff] at h
  simp [lastWritten, h]

end LastWritten

/-- What is outstanding is counted, filed and copied, the last undelivered value of a key is the one
the server holds, and of a key whose values were all delivered the core knows that value. -/
structure Ledger (w : AccountDataWorld) : Prop where
  keys : ∀ (id : RequestId) (key : AccountDataKey),
    w.client.accountDataWriteKeys[id]? = some key ↔
      ∃ write ∈ w.lane, write.id = id ∧ write.key = key
  distinct : (w.lane.map (·.id)).Nodup
  counted : ∀ key, w.client.pendingWrites key =
    if w.outstanding key = 0 then none else some (w.outstanding key)
  copied : ∀ key value, lastWritten w.lane key = some value →
    w.client.cachedAccountData key = some value
  taken : ∀ write ∈ w.lane, write.handled = true → w.server.origin write.key = some write.id →
    w.server.held write.key = some write.value
  coherent : ∀ key, w.server.undelivered key ≠ [] →
    (w.server.undelivered key).getLast? = w.server.held key
  settled : ∀ key, w.server.undelivered key = [] → w.client.known key = w.server.held key

variable {w : AccountDataWorld}

section

variable (inv : w.Ledger)

include inv

theorem Ledger.converged : w.Converged := by
  intro key houtstanding hdelivered
  have hguard : w.client.accountDataGuard[key]? = none := by
    simpa [pendingWrites, houtstanding] using inv.counted key
  have hknown := inv.settled key hdelivered
  rwa [known, hguard] at hknown

theorem Ledger.pendingWrites_of_lastWritten {key : AccountDataKey} {value : Json}
    (h : lastWritten w.lane key = some value) :
    w.client.pendingWrites key = some (w.outstanding key) := by
  rw [inv.counted, outstanding, if_neg (countP_ne_zero_of_lastWritten h)]

/-- A server that took a write has it to report. -/
theorem Ledger.put (origin : Option RequestId) (key : AccountDataKey) (value : Json)
    (ours : ∀ write ∈ w.lane, write.handled = true → origin = some write.id → write.value = value) :
    { w with server := w.server.put origin key value }.Ledger := by
  refine ⟨inv.keys, inv.distinct, inv.counted, inv.copied, fun write hwrite hhandled horigin => ?_,
    fun other => ?_, fun other => ?_⟩
  · by_cases h : write.key = key
    · have := ours write hwrite hhandled (by simpa [AccountDataServer.put, h] using horigin)
      simp [AccountDataServer.put, h, this]
    · have := inv.taken write hwrite hhandled
      simp only [AccountDataServer.put, Function.update_of_ne h] at horigin ⊢
      exact this horigin
  · by_cases h : other = key
    · simp [AccountDataServer.put, h]
    · simpa [AccountDataServer.put, h] using inv.coherent other
  · by_cases h : other = key
    · simp [AccountDataServer.put, h]
    · simpa [AccountDataServer.put, h] using inv.settled other

theorem Ledger.not_zero (key : AccountDataKey) : w.client.pendingWrites key ≠ some 0 := by
  rw [inv.counted]
  split_ifs with h
  · simp
  · simpa using h

theorem Ledger.write (id : RequestId) (key : AccountDataKey) (value : Json) (enqueued : Bool)
    (confirms : w.Confirms (.write id key value enqueued)) :
    (w.step (.write id key value enqueued)).Ledger := by
  by_cases hid : id ∈ w.client.accountDataWriteKeys
  · rwa [AccountDataWorld.step, if_pos hid]
  rw [AccountDataWorld.step, if_neg hid]
  have hsettled (other : AccountDataKey) (hdelivered : w.server.undelivered other = []) :
      (w.client.writeAccountData id key value enqueued).known other = w.server.held other := by
    rw [known_write, inv.settled other hdelivered]
  have hcounted (other : AccountDataKey) :=
    @AccountDataState.pendingWrites_write w.client key other (inv.not_zero key) id value enqueued
  have hkeys := @AccountDataState.accountDataWriteKeys_write w.client key id value enqueued
  have hcached (other : AccountDataKey) :=
    @AccountDataState.cachedAccountData_write w.client key other id value enqueued
  cases enqueued with
  | false =>
    refine ⟨fun other otherKey => ?_, inv.distinct, fun other => ?_, fun other last hlast => ?_,
      inv.taken, inv.coherent, hsettled⟩
    · rw [hkeys]
      exact inv.keys other otherKey
    · rw [hcounted, if_neg (by simp)]
      exact inv.counted other
    · have hne : other ≠ key := by
        rintro rfl
        have hpending := inv.pendingWrites_of_lastWritten hlast
        have hzero : w.outstanding other = 0 := confirms
        rw [inv.counted, if_pos hzero] at hpending
        cases hpending
      rw [hcached other (.inl hne), if_neg hne]
      exact inv.copied other last hlast
  | true =>
    have hfresh : ∀ write ∈ w.lane, write.id ≠ id := by
      rintro write hwrite rfl
      exact hid (mem_of_getElem? ((inv.keys write.id write.key).2 ⟨write, hwrite, rfl, rfl⟩))
    refine ⟨fun other otherKey => ?_, ?_, fun other => ?_, fun other last hlast => ?_,
      fun write hwrite hhandled => ?_, inv.coherent, hsettled⟩
    · rw [hkeys, if_pos rfl, getElem?_insert_ite]
      by_cases h : other = id
      · subst h
        simpa using fun write hwrite hwriteId => absurd hwriteId (hfresh write hwrite)
      · simpa [h, Ne.symm h] using inv.keys other otherKey
    · simpa [List.nodup_append] using ⟨inv.distinct, hfresh⟩
    · have hnext (client : AccountDataState) :
          outstanding ⟨client, w.lane ++ [⟨id, key, value, false⟩], w.server⟩ other =
            w.outstanding other + if key = other then 1 else 0 := by
        simp [outstanding, List.countP_append, List.countP_cons]
      rw [hcounted, inv.counted, inv.counted, if_pos rfl, hnext]
      by_cases h : other = key
      · subst h
        by_cases hzero : w.outstanding other = 0 <;> simp [hzero]
      · simp [h, Ne.symm h]
    · rw [hcached other (.inr rfl)]
      by_cases h : other = key
      · simpa [lastWritten, h] using hlast
      · rw [if_neg h]
        exact inv.copied other last (by simpa [lastWritten, Ne.symm h] using hlast)
    · rcases List.mem_append.1 hwrite with hwrite | hwrite
      · exact inv.taken write hwrite hhandled
      · obtain rfl := List.mem_singleton.1 hwrite
        cases hhandled

theorem Ledger.handle : (w.step .handle).Ledger := by
  rw [AccountDataWorld.step]
  split
  · exact inv
  · next front rest hlane =>
    have hdistinct := inv.distinct
    rw [hlane, List.map_cons, List.nodup_cons] at hdistinct
    -- The request is marked after the server took its write.
    have hput : { w with server := w.server.put (some front.id) front.key front.value }.Ledger := by
      refine inv.put _ _ _ fun write hwrite _ hid => ?_
      rw [hlane] at hwrite
      rcases List.mem_cons.1 hwrite with rfl | hwrite
      · rfl
      · exact absurd (List.mem_map.2 ⟨write, hwrite, (Option.some.inj hid).symm⟩) hdistinct.1
    refine ⟨fun id key => ?_, ?_, fun key => ?_, fun key value hlast => ?_,
      fun write hwrite hhandled => ?_, hput.coherent, hput.settled⟩
    · simpa [hlane] using inv.keys id key
    · simpa [hlane] using inv.distinct
    · simpa [outstanding, hlane, List.countP_cons] using inv.counted key
    · refine inv.copied key value ?_
      simp only [lastWritten, hlane, List.filter_cons] at hlast ⊢
      split_ifs at hlast ⊢ <;> exact hlast
    · rcases List.mem_cons.1 hwrite with rfl | hwrite
      · simp [AccountDataServer.put]
      · exact hput.taken write (by simp [hlane, hwrite]) hhandled

/-- The answer at the front settles a write of its key. -/
theorem Ledger.onTerminal_front {front : LaneWrite} {rest : List LaneWrite}
    (hlane : w.lane = front :: rest) (succeeded : Bool) :
    w.client.onTerminal front.id succeeded =
      { w.client with
        accountDataWriteKeys := w.client.accountDataWriteKeys.erase front.id
      }.settleAccountDataWrite front.key succeeded := by
  have hkey := (inv.keys front.id front.key).2 ⟨front, by simp [hlane], rfl, rfl⟩
  rw [onTerminal, hkey]

theorem Ledger.answer {succeeded : Bool} (confirms : w.Confirms (.answer succeeded)) :
    (w.step (.answer succeeded)).Ledger := by
  rw [AccountDataWorld.step]
  split
  · exact inv
  · next front rest hlane =>
    split_ifs with hhandled
    · exact inv
    rw [inv.onTerminal_front hlane]
    have hcount (key : AccountDataKey) : w.outstanding key =
        rest.countP (fun write => write.key = key) + if front.key = key then 1 else 0 := by
      simp [outstanding, hlane, List.countP_cons]
    have hdistinct := inv.distinct
    rw [hlane, List.map_cons, List.nodup_cons] at hdistinct
    refine ⟨fun id key => ?_, hdistinct.2, fun key => ?_, fun key value hlast => ?_,
      fun write hwrite => inv.taken write (by simp [hlane, hwrite]), inv.coherent,
      fun key hdelivered => ?_⟩
    · rw [accountDataWriteKeys_settle, getElem?_erase_ite]
      by_cases h : id = front.id
      · subst h
        simpa using fun write hwrite hwriteId =>
          absurd (List.mem_map.2 ⟨write, hwrite, hwriteId⟩) hdistinct.1
      · have hother := inv.keys id key
        simpa [h, hlane, Ne.symm h] using hother
    · rw [pendingWrites_settle]
      change (if key = front.key then (w.client.pendingWrites front.key).bind _
        else w.client.pendingWrites key) = _
      rw [inv.counted, inv.counted, hcount, hcount]
      by_cases h : key = front.key
      · subst h
        generalize hrest : rest.countP (fun write => write.key = front.key) = n
        cases n <;> simp [outstanding, hrest]
      · simp [h, Ne.symm h, outstanding]
    · have hmore : lastWritten w.lane key = some value := hlane ▸ lastWritten_cons hlast
      refine (cachedAccountData_settle succeeded ?_).trans (inv.copied key value hmore)
      by_cases h : key = front.key
      · subst h
        refine .inr (.inr ?_)
        change (w.client.pendingWrites front.key).any _ = true
        have hrest : rest.countP (fun write => write.key = front.key) ≠ 0 :=
          countP_ne_zero_of_lastWritten hlast
        rw [inv.pendingWrites_of_lastWritten hmore, hcount, if_pos rfl, Option.any_some,
          decide_eq_true_eq]
        omega
      · exact .inl h
    · rw [known_settle]
      change (if key = front.key ∧ succeeded ∧ (w.client.pendingWrites front.key).any (· ≤ 1) then
        w.client.cachedAccountData front.key else w.client.known key) = _
      split_ifs with hlast
      · obtain ⟨rfl, rfl, hone⟩ := hlast
        have hpositive : w.outstanding front.key ≠ 0 := by simp [hcount]
        rw [inv.counted, if_neg hpositive, Option.any_some, decide_eq_true_eq] at hone
        have hfront : front.handled = true := by simpa using hhandled
        have hnone : rest.countP (fun write => write.key = front.key) = 0 := by
          have := hcount front.key
          simp only [if_true] at this
          omega
        have hlast : lastWritten w.lane front.key = some front.value :=
          hlane ▸ lastWritten_of_only hnone
        rw [inv.copied front.key front.value hlast]
        exact (inv.taken front (by simp [hlane]) hfront
          (confirms front rest hlane hfront (by omega) hdelivered)).symm
      · exact inv.settled key hdelivered

theorem Ledger.synced (key : AccountDataKey) : (w.step (.synced key)).Ledger := by
  rw [AccountDataWorld.step]
  split
  · exact inv
  · next value rest hqueue =>
    have hlast := inv.coherent key (by simp [hqueue])
    refine ⟨fun id => ?_, inv.distinct, fun other => ?_, fun other last hlast' => ?_, inv.taken,
      fun other => ?_, fun other => ?_⟩
    · rw [accountDataWriteKeys_applySynced]
      exact inv.keys id
    · rw [pendingWrites_applySynced]
      exact inv.counted other
    · refine (cachedAccountData_applySynced value ?_).trans (inv.copied other last hlast')
      by_cases h : other = key
      · exact .inr (by rw [← h, inv.pendingWrites_of_lastWritten hlast']; rfl)
      · exact .inl h
    · by_cases h : other = key
      · subst h
        rw [hqueue] at hlast
        cases rest with
        | nil => simp
        | cons next rest => simpa using hlast
      · simpa [h] using inv.coherent other
    · rw [known_applySynced]
      by_cases h : other = key
      · subst h
        rw [hqueue] at hlast
        intro hrest
        obtain rfl : rest = [] := by simpa using hrest
        simpa using hlast
      · simpa [h] using inv.settled other

end

theorem Ledger.step {s : AccountDataStep} (confirms : w.Confirms s) (inv : w.Ledger) :
    (w.step s).Ledger := by
  cases s with
  | write id key value enqueued => exact inv.write id key value enqueued confirms
  | handle => exact inv.handle
  | answer succeeded => exact inv.answer confirms
  | elsewhere key value => exact inv.put none key value (by simp)
  | synced key => exact inv.synced key

/-- A new core and a server that took some writes before. -/
def start (history : List (AccountDataKey × Json)) : AccountDataWorld :=
  ⟨.new, [], .ofHistory history⟩

theorem ledger_start (history : List (AccountDataKey × Json)) : (start history).Ledger := by
  induction history using List.reverseRecOn with
  | nil =>
    refine ⟨?_, ?_, ?_, ?_, ?_, ?_, ?_⟩ <;>
      simp [start, new, AccountDataServer.ofHistory, outstanding, lastWritten, pendingWrites,
        known, cachedAccountData, lookupNested]
    exact fun key => by cases key.room <;> rfl
  | append_singleton history entry ih =>
    have hput := ih.put none entry.1 entry.2 (by simp)
    simpa [start, AccountDataServer.ofHistory] using hput

/-- From the first start on, all keys converge in every state of a run in which every success that
settles a key finds an event of the key undelivered or answers the write the server took last, and
no write fails to be queued behind another of its key. -/
theorem converged_of_confirms (history : List (AccountDataKey × Json))
    (steps : List AccountDataStep) (confirms : Trace.Meets step Confirms (start history) steps) :
    Trace.Throughout step Converged (start history) steps :=
  Trace.throughout_of_meets Ledger (fun _ _ hconfirms h => h.step hconfirms)
    (fun _ h => h.converged) confirms (ledger_start history)

/-- The tags of a room. -/
def tagKey : AccountDataKey := ⟨some ⟨"!r:a"⟩, "m.tag"⟩

/-- Another device's value is taken by the server after ours and reported before our answer. -/
def overwritten : List AccountDataStep :=
  [.write ⟨"1"⟩ tagKey (.str "ours") true, .handle, .elsewhere tagKey (.str "theirs"),
    .synced tagKey, .synced tagKey, .answer true]

/-- Nothing is outstanding, everything was delivered, and the copy is ours. -/
theorem not_converged_overwritten :
    (Trace.run step (start []) overwritten).lane = [] ∧
    (∀ key, (Trace.run step (start []) overwritten).server.undelivered key = []) ∧
    ¬ Trace.Throughout step Converged (start []) overwritten := by
  have hlane : (Trace.run step (start []) overwritten).lane = [] := rfl
  have hdelivered (key : AccountDataKey) :
      (Trace.run step (start []) overwritten).server.undelivered key = [] := by
    simp [overwritten, step, start, AccountDataServer.put, AccountDataServer.ofHistory,
      new]
  refine ⟨hlane, hdelivered, fun h => ?_⟩
  have hlast := h.last tagKey rfl (hdelivered tagKey)
  have hours : ((Trace.run step (start []) overwritten).client.cachedAccountData tagKey).bind
      Json.asStr? = some "ours" := by decide +kernel
  have htheirs : ((Trace.run step (start []) overwritten).server.held tagKey).bind
      Json.asStr? = some "theirs" := by decide +kernel
  rw [hlast, htheirs] at hours
  simp at hours

/-- Two writes of ours, then another device's, each reported before the next is answered. -/
theorem converged_of_confirms_stacked :
    Trace.Throughout step Converged (start []) [.write ⟨"1"⟩ tagKey (.str "first") true,
      .write ⟨"2"⟩ tagKey (.str "second") true, .handle, .synced tagKey, .answer true, .handle,
      .synced tagKey, .answer true, .elsewhere tagKey (.str "theirs"), .synced tagKey] := by
  refine converged_of_confirms _ _ ⟨trivial, trivial, trivial, trivial, ?_, trivial, trivial, ?_,
    trivial, trivial, trivial⟩
  · intro front rest hlane _ hone
    exact absurd hone (by cases hlane; decide +kernel)
  · intro front rest hlane _ _ _
    cases hlane
    rfl

end AccountDataWorld

end Messenger
