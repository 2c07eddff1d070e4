import Mail4Agent.Server.PowerChange
import Mail4Agent.Server.RoomRun

/-!
# The cached power levels

A membership row has a column with the level at which the room's power levels list the user. A
power-levels event rewrites the column of the whole room; a member event leaves that of a row it
finds and starts a new row without a level. So the column falls behind when a user who is listed
already gets a row, and when the event is one for another state key (`agrees_throughout`).
-/

namespace Server

/-- The tables with the column `power_level`, which is read for stored membership rows only. -/
structure CachedDb where
  db : Db
  powerLevel : String → Int → Option Int := fun _ _ => none

inductive CacheOp where
  | write (w : StateWrite)
  | forget (roomId : String) (userId : Int)

namespace CachedDb

variable (cfg : Config) (s : CachedDb)

/-- A row that is there keeps its level, a new one has none. -/
def refreshRoomMember (roomId stateKey room : String) (user : Int) : Option Int :=
  if room = roomId ∧ s.db.userIdOf stateKey = some user ∧ s.db.membershipOf room user = none then
    none
  else s.powerLevel room user

/-- One entry of the `users` map. -/
def refreshLevel (roomId : String) (levels : Json) (column : String → Int → Option Int)
    (mxid room : String) (user : Int) : Option Int :=
  match Power.levelEntry levels "users" mxid, s.db.userIdOf mxid with
  | some level, some userId =>
    if room = roomId ∧ user = userId then some level else column room user
  | _, _ => column room user

/-- The levels of the room are reset, then the entries of the `users` map are applied. -/
def refreshPowerLevels (roomId content : String) : String → Int → Option Int :=
  let levels := (cfg.parse content).getD .null
  let users := ((levels.get? "users").bind Json.asObject?).getD []
  (users.map Prod.fst).foldl (s.refreshLevel roomId levels)
    fun room user => if room = roomId then none else s.powerLevel room user

def apply (w : StateWrite) : Except MatrixError (MatrixEvent × Db) :=
  Store.applyStateEventRawInTx cfg w.eventId w.roomId w.sender w.eventType w.stateKey w.content
    w.originTs w.now s.db

/-- The column after a state event. -/
def refreshCaches (w : StateWrite) : String → Int → Option Int :=
  if w.eventType = "m.room.member" then s.refreshRoomMember w.roomId w.stateKey
  else if w.eventType = "m.room.power_levels" then s.refreshPowerLevels cfg w.roomId w.content
  else s.powerLevel

def step : CacheOp → CachedDb
  | .write w =>
    match s.apply cfg w with
    | .error _ => s
    | .ok (_, db) => { db, powerLevel := s.refreshCaches cfg w }
  | .forget roomId userId => { s with db := (Rooms.applyForget roomId userId).settle s.db }

end CachedDb

/-! ### What the column should hold -/

/-- The level at which a power-levels document lists a user. -/
def Config.listedIn (cfg : Config) (content mxid : String) : Option Int :=
  (cfg.field content "users").bind fun users => Power.field? users mxid

/-- The same for the room's current power levels. -/
def Db.listed (cfg : Config) (db : Db) (roomId mxid : String) : Option Int :=
  (db.stateField cfg roomId "m.room.power_levels" "" "users").bind fun users =>
    Power.field? users mxid

/-- A member event that was written names a membership. -/
theorem Puts.membership_ne_none {cfg : Config} {db db' : Db} {roomId eventType key content : String}
    (h : Puts cfg db roomId eventType key content db') (htype : eventType = "m.room.member") :
    cfg.membership content ≠ none := by
  obtain ⟨_, w, -, rfl, rfl, rfl, hsigned, -, -, hmember⟩ := h
  have hsome := hmember htype
  intro hnone
  rw [← hsigned.membership] at hnone
  simp [StateWrite.member?, hnone] at hsome

namespace CachedDb

/-- Every member row of the room has the level at which its user is listed. -/
def Agrees (cfg : Config) (roomId : String) (s : CachedDb) : Prop :=
  ∀ user mxid, s.db.membershipOf roomId user ≠ none → s.db.mxidOf user = some mxid →
    s.powerLevel roomId user = s.db.listed cfg roomId mxid

/-- A member event that makes a row is for a user who is not listed, and a power-levels event for
a state key lists the members as the current one does. -/
def Follows (cfg : Config) (roomId : String) (s : CachedDb) : CacheOp → Prop
  | .write w => ∀ result, s.apply cfg w = .ok result → w.roomId = roomId →
    (w.eventType = "m.room.member" → ∀ user, s.db.userIdOf w.stateKey = some user →
      s.db.membershipOf roomId user = none → s.db.listed cfg roomId w.stateKey = none) ∧
    (w.eventType = "m.room.power_levels" → w.stateKey ≠ "" → ∀ user mxid,
      s.db.membershipOf roomId user ≠ none → s.db.mxidOf user = some mxid →
      cfg.listedIn w.content mxid = s.db.listed cfg roomId mxid)
  | .forget .. => True

variable {cfg : Config} {s : CachedDb} {roomId : String}

section Column

variable (consistent : s.db.Consistent)

include consistent

theorem refreshLevel_eq (levels : Json) (column : String → Int → Option Int) (mxid room : String)
    (user : Int) : s.refreshLevel roomId levels column mxid room user =
      if room = roomId ∧ s.db.mxidOf user = some mxid then
        (Power.levelEntry levels "users" mxid).or (column room user)
      else column room user := by
  have husers := consistent.users user mxid
  unfold refreshLevel
  cases Power.levelEntry levels "users" mxid with
  | none => simp
  | some level => cases huser : s.db.userIdOf mxid <;> grind

/-- The entries of the map, one after another. -/
theorem foldl_refreshLevel (levels : Json) (mxids : List String)
    (column : String → Int → Option Int) (room : String) (user : Int) :
    mxids.foldl (s.refreshLevel roomId levels) column room user =
      if room = roomId ∧ ∃ mxid ∈ mxids, s.db.mxidOf user = some mxid then
        ((s.db.mxidOf user).bind (Power.levelEntry levels "users")).or (column room user)
      else column room user := by
  induction mxids generalizing column with
  | nil => simp
  | cons mxid rest ih =>
    rw [List.foldl_cons, ih, refreshLevel_eq consistent]
    cases s.db.mxidOf user with
    | none => simp
    | some own =>
      by_cases hown : own = mxid
      · subst hown
        generalize hlevel : Power.levelEntry levels "users" own = level
        by_cases hroom : room = roomId <;> cases level <;> simp [hroom, hlevel]
      · simp [hown]

theorem refreshPowerLevels_eq (content room : String) (user : Int) :
    s.refreshPowerLevels cfg roomId content room user =
      if room = roomId then (s.db.mxidOf user).bind (cfg.listedIn content)
      else s.powerLevel room user := by
  have hlisted (mxid : String) : cfg.listedIn content mxid =
      Power.levelEntry ((cfg.parse content).getD .null) "users" mxid := by
    unfold Config.listedIn Config.field Power.levelEntry
    cases cfg.parse content with
    | none => rfl
    | some levels =>
      cases hfield : levels.get? "users" <;> simp [hfield, Power.field?, Option.bind_map]
  unfold refreshPowerLevels
  rw [foldl_refreshLevel consistent, funext hlisted]
  split_ifs with hmem hroom hroom
  · rw [Option.or_none]
  · exact absurd hmem.1 hroom
  · -- A user who is not a key of the map is not listed.
    cases hmxid : s.db.mxidOf user with
    | none => rfl
    | some mxid =>
      exact (Power.levelEntry_eq_none fun hkey => hmem ⟨hroom, mxid, hkey, hmxid⟩).symm
  · rfl

end Column

theorem listed_of_puts {db db' : Db} {room eventType key content : String}
    (h : Puts cfg db room eventType key content db') (consistent : db.Consistent) (mxid : String) :
    db'.listed cfg roomId mxid =
      if room = roomId ∧ eventType = "m.room.power_levels" ∧ key = "" then cfg.listedIn content mxid
      else db.listed cfg roomId mxid := by
  unfold Db.listed Config.listedIn
  rw [h.stateField consistent (by decide) (by decide)]
  split_ifs <;> rfl

theorem apply_puts {w : StateWrite} {event : MatrixEvent} {db : Db}
    (h : s.apply cfg w = .ok (event, db)) :
    Puts cfg s.db w.roomId w.eventType w.stateKey w.content db :=
  @puts_of_raw cfg s.db db w.roomId w.eventType w.stateKey w.content w.sender w.originTs s.db.dag
    _ _ _ event h fun _ _ _ => rfl

theorem forget_cases (roomId : String) (userId : Int) (db : Db) :
    (Rooms.applyForget roomId userId).settle db = db ∨
      db.membershipOf roomId userId = some .leave ∧
        (Rooms.applyForget roomId userId).settle db = { db with
          roomMembers := db.roomMembers.filter fun m =>
            ¬ (m.roomId = roomId ∧ m.userId = userId ∧ m.membership = .leave) } := by
  rcases Transaction.settle_cases (Rooms.applyForget roomId userId) db with
    ⟨e, -, hsame⟩ | ⟨u, hok⟩
  · exact .inl hsame
  · simp only [Rooms.applyForget, Transaction.bind_ok, Transaction.query_ok] at hok
    obtain ⟨_, _, ⟨rfl, rfl⟩, h⟩ := hok
    split_ifs at h with hleft
    · simp at h
    · exact .inr ⟨not_not.1 hleft, (Transaction.change_ok.1 h).symm⟩

theorem step_write {w : StateWrite} {event : MatrixEvent} {db : Db}
    (h : s.apply cfg w = .ok (event, db)) :
    s.step cfg (.write w) = { db, powerLevel := s.refreshCaches cfg w } := by
  rw [step, h]

theorem step_write_refused {w : StateWrite} {e : MatrixError} (h : s.apply cfg w = .error e) :
    s.step cfg (.write w) = s := by
  rw [step, h]

section

variable (consistent : s.db.Consistent)

include consistent

theorem step_consistent (op : CacheOp) : (s.step cfg op).db.Consistent := by
  cases op with
  | write w =>
    cases happly : s.apply cfg w with
    | error e =>
      rw [step_write_refused happly]
      exact consistent
    | ok result =>
      rw [step_write happly]
      exact (apply_puts happly).consistent consistent
  | forget room userId =>
    rcases forget_cases room userId s.db with hsame | ⟨hleft, hforgot⟩
    · rw [step, hsame]
      exact consistent
    · rw [step, hforgot]
      exact Rooms.consistent_forget consistent hleft

/-- A state event follows the current state, or the column falls behind. -/
theorem agrees_write (hagrees : s.Agrees cfg roomId) (w : StateWrite) :
    (s.step cfg (.write w)).Agrees cfg roomId ↔ s.Follows cfg roomId (.write w) := by
  cases happly : s.apply cfg w with
  | error e =>
    rw [step_write_refused happly]
    simpa [Follows, happly] using hagrees
  | ok result =>
    obtain ⟨event, db⟩ := result
    have hputs := apply_puts happly
    have husers := consistent.users
    rw [step_write happly]
    simp only [Follows, happly, Except.ok.injEq, forall_eq', Agrees, hputs.membershipOf,
      hputs.mxidOf,
      listed_of_puts hputs consistent, refreshCaches]
    by_cases htype : w.eventType = "m.room.member"
    · have hmember := hputs.membership_ne_none htype
      simp only [htype, if_true, refreshRoomMember]
      grind [Agrees]
    · by_cases hlevels : w.eventType = "m.room.power_levels"
      · have hcolumn := @refreshPowerLevels_eq cfg s w.roomId consistent w.content roomId
        grind [Agrees]
      · grind [Agrees]

theorem agrees_forget (hagrees : s.Agrees cfg roomId) (room : String) (userId : Int) :
    (s.step cfg (.forget room userId)).Agrees cfg roomId := by
  rcases forget_cases room userId s.db with hsame | ⟨hleft, hforgot⟩
  · rw [step, hsame]
    exact hagrees
  · rw [step, hforgot]
    intro user mxid hmember hmxid
    rw [Rooms.roomMember_forget consistent hleft] at hmember
    split_ifs at hmember
    · exact absurd rfl hmember
    · exact hagrees user mxid hmember hmxid

/-- Throughout a run the column agrees with the current power levels, if and only if every step of
the run meets `Follows`. -/
theorem agrees_throughout (hagrees : s.Agrees cfg roomId) (ops : List CacheOp) :
    Trace.Throughout (step cfg) (Agrees cfg roomId) s ops ↔
      Trace.Meets (step cfg) (Follows cfg roomId) s ops := by
  refine Trace.throughout_iff_meets_of_kept (fun s => s.db.Consistent)
    (fun s op h => step_consistent h op) (fun s op h hP => ?_) ops consistent hagrees
  cases op with
  | write w => exact agrees_write h hP w
  | forget room userId => exact iff_of_true (agrees_forget h hP room userId) trivial

end

end CachedDb

/-! ### A level before the row -/

def levelDocs : List (String × Json) :=
  [("levels", .obj [("users", .obj [("@bob:a", .int 100)])]),
    ("join", .obj [("membership", .str "join")])]

/-- One room and nobody in it. -/
def emptyRoom : CachedDb where
  db := { Rooms.twoUsers with rooms := [⟨"!r", .group, 1, false, .invite, .shared, none⟩] }

def levelsEvent : CacheOp := .write ⟨"$levels", "!r", 1, "m.room.power_levels", "", "levels", 0, ""⟩

def joinEvent : CacheOp := .write ⟨"$join", "!r", 2, "m.room.member", "@bob:a", "join", 1, ""⟩

theorem emptyRoom_agrees (cfg : Config) : emptyRoom.db.Consistent ∧ emptyRoom.Agrees cfg "!r" :=
  ⟨Rooms.consistent_snoc _ _ Rooms.twoUsers_consistent, fun _ _ h => absurd rfl h⟩

/-- The user is listed before they join, and joins without a level. -/
theorem not_agrees_listedFirst :
    ¬ Trace.Throughout (CachedDb.step (Rooms.namedConfig levelDocs))
      (CachedDb.Agrees (Rooms.namedConfig levelDocs) "!r") emptyRoom [levelsEvent, joinEvent] := by
  intro h
  have hlast := h.last 2 "@bob:a"
  revert hlast
  decide +kernel

/-- The other way round the column agrees. -/
theorem agrees_throughout_joinedFirst :
    Trace.Throughout (CachedDb.step (Rooms.namedConfig levelDocs))
      (CachedDb.Agrees (Rooms.namedConfig levelDocs) "!r") emptyRoom [joinEvent, levelsEvent] := by
  obtain ⟨consistent, hagrees⟩ := emptyRoom_agrees (Rooms.namedConfig levelDocs)
  refine (CachedDb.agrees_throughout consistent hagrees _).2 ⟨fun _ _ _ => ⟨fun _ _ _ _ => ?_, ?_⟩,
    fun _ _ _ => ⟨?_, fun _ hkey => absurd rfl hkey⟩, trivial⟩
  · decide +kernel
  · exact fun h => absurd h (by decide)
  · exact fun h => absurd h (by decide)

end Server
