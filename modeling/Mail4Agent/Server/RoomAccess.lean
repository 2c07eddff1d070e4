import Mail4Agent.Server.RoomRun

/-!
# Who gets in

Joining without an invitation and reading as an outsider are decided by two columns of the
room row, except that a restricted join rule is read from the state. The columns are
written when the room is created; the state events they stand for can be put again later.
-/

namespace Server

namespace Rooms

section Access

variable (cfg : Config) (db : Db)

/-- The join rule of the room's current state. -/
def joinRuleNow (roomId : String) : Option String :=
  (db.stateField cfg roomId "m.room.join_rules" "" "join_rule").bind Json.asStr?

/-- The history visibility of the room's current state. -/
def historyVisibilityNow (roomId : String) : Option String :=
  (db.stateField cfg roomId "m.room.history_visibility" "" "history_visibility").bind Json.asStr?

/-- How much of the room's timeline a user may read now. -/
def readWindow (room : Room) (userId : Int) : Except MatrixError HistoryWindow :=
  ((Store.visibleUpperBound cfg room userId).run .writer
    { store := db, memory := ⟨fun _ => none, 0⟩ }).1

def MayRead (room : Room) (userId : Int) : Prop :=
  ∃ window, readWindow cfg db room userId = .ok window ∧ window ≠ .nothing

/-- The user is not joined, and has not been served by an ended membership either. -/
def Outsider (roomId : String) (userId : Int) : Prop :=
  ∀ mxid ∈ db.mxidOf userId, ∀ text ∈ (db.stateField cfg roomId "m.room.member" mxid
    "membership").bind Json.asStr?, text ∉ ["join", "leave", "ban"]

/-- The gates decide as the current state of the rooms says. -/
def AccessFollows : Prop :=
  ∀ room, db.getRoom room.id = some room →
    (∀ userId, db.membershipOf room.id userId = none ∨
        db.membershipOf room.id userId = some .leave →
      (checkJoin cfg db room userId = .ok () ↔
        joinRuleNow cfg db room.id = some "public" ∨
          restrictedAllows cfg db room.id userId = true)) ∧
    ∀ userId, Outsider cfg db room.id userId →
      (MayRead cfg db room userId ↔ historyVisibilityNow cfg db room.id = some "world_readable")

/-- The columns of the rooms say what the current state says. -/
def ColumnsAgree : Prop :=
  ∀ room, db.getRoom room.id = some room →
    (room.joinRule = .public ↔ joinRuleNow cfg db room.id = some "public") ∧
    (room.historyVisibility = .worldReadable ↔
      historyVisibilityNow cfg db room.id = some "world_readable")

end Access

section Gates

variable {cfg : Config} {db : Db} {room : Room} {userId : Int}

theorem readWindow_eq : readWindow cfg db room userId =
    if room.historyVisibility = .worldReadable then .ok .all
    else match (db.mxidOf userId).bind fun mxid =>
        db.currentStateEvent room.id "m.room.member" mxid with
      | none => .ok .nothing
      | some event =>
        match cfg.membershipText event.content with
        | none => .error (.badJson "Malformed event content")
        | some membership =>
          if membership = some "join" then .ok .all
          else if membership = some "leave" ∨
            membership = some "ban" then .ok (.upTo event.streamId)
          else .ok .nothing := by
  unfold readWindow Store.visibleUpperBound
  split_ifs
  · rfl
  · cases hmxid : db.mxidOf userId with
    | none =>
      simp [hmxid, Store.mxidOf, Program.query, Bind.bind, Program.bind, Program.run,
        Program.Machine.advance, Pure.pure]
    | some mxid =>
      cases hevent : db.currentStateEvent room.id "m.room.member" mxid with
      | none =>
        simp [hmxid, hevent, Store.mxidOf, Store.currentStateEvent, Program.query, Bind.bind,
          Program.bind, Program.run, Program.Machine.advance, Pure.pure]
      | some event =>
        cases htext : cfg.membershipText event.content with
        | none =>
          simp [hmxid, hevent, htext, Store.mxidOf, Store.currentStateEvent, Program.query,
            Bind.bind, Program.bind, Program.run, Program.Machine.advance]
        | some membership =>
          simp only [hmxid, hevent, htext, Store.mxidOf, Store.currentStateEvent, Program.query,
            Bind.bind, Program.bind, Program.run, Program.Machine.advance, List.headD_nil,
            List.tail_nil, id, Option.bind_some]
          split_ifs <;> rfl

/-- An outsider reads where the column says so. -/
theorem mayRead_iff_of_outsider (h : Outsider cfg db room.id userId) :
    MayRead cfg db room userId ↔ room.historyVisibility = .worldReadable := by
  unfold MayRead
  rw [readWindow_eq]
  split_ifs with hworld
  · exact iff_of_true ⟨.all, rfl, by decide⟩ hworld
  refine iff_of_false ?_ hworld
  rintro ⟨window, hwindow, hsome⟩
  cases hfound : (db.mxidOf userId).bind fun mxid =>
      db.currentStateEvent room.id "m.room.member" mxid with
  | none =>
    rw [hfound] at hwindow
    exact hsome (Except.ok.inj hwindow).symm
  | some event =>
    rw [hfound] at hwindow
    obtain ⟨mxid, hmxid, hevent⟩ := Option.bind_eq_some_iff.1 hfound
    have hout := h mxid hmxid
    cases htext : cfg.membershipText event.content with
    | none => simp [htext] at hwindow
    | some membership =>
      have hfield : (db.stateField cfg room.id "m.room.member" mxid "membership").bind Json.asStr? =
          membership := by
        rw [Db.stateField, hevent, Option.bind_some, ← Config.membershipText_join, htext,
          Option.join_some]
      rw [hfield] at hout
      simp only [htext] at hwindow
      split_ifs at hwindow with hjoin hended
      · exact absurd (hout "join" hjoin) (by decide)
      · rcases hended with hleave | hban
        · exact absurd (hout "leave" hleave) (by decide)
        · exact absurd (hout "ban" hban) (by decide)
      · exact hsome (Except.ok.inj hwindow).symm

/-- The join gate of somebody who is neither a member nor invited. -/
theorem checkJoin_ok_iff (houtside : db.membershipOf room.id userId = none ∨
    db.membershipOf room.id userId = some .leave) :
    checkJoin cfg db room userId = .ok () ↔
      room.joinRule = .public ∨ restrictedAllows cfg db room.id userId = true := by
  unfold checkJoin
  rcases houtside with h | h <;> rw [h] <;> dsimp only <;> split_ifs with hgate <;> simp [hgate]

/-- Somebody nobody knows. -/
theorem exists_stranger (db : Db) : ∃ userId : Int, db.mxidOf userId = none ∧
    ∀ roomId, db.membershipOf roomId userId = none := by
  obtain ⟨userId, hnew⟩ := Infinite.exists_notMem_finset
    ((db.matrixUsers.map MatrixUser.userId ++ db.roomMembers.map RoomMember.userId).toFinset)
  simp only [List.mem_toFinset, List.mem_append, List.mem_map, not_or, not_exists, not_and] at hnew
  refine ⟨userId, ?_, fun roomId => ?_⟩
  · rw [Db.mxidOf, Option.map_eq_none_iff, List.find?_eq_none]
    intro user huser heq
    exact hnew.1 user huser (of_decide_eq_true heq)
  · rw [Db.membershipOf, Option.map_eq_none_iff, Db.roomMember, List.find?_eq_none]
    intro member hmember heq
    exact hnew.2 member hmember (of_decide_eq_true heq).2

/-- The gates follow the state exactly where the columns agree with it. -/
theorem accessFollows_iff : AccessFollows cfg db ↔ ColumnsAgree cfg db := by
  constructor
  · intro h room hroom
    obtain ⟨hjoin, hread⟩ := h room hroom
    obtain ⟨stranger, hmxid, hnone⟩ := exists_stranger db
    have hrestricted : restrictedAllows cfg db room.id stranger = false := by
      unfold restrictedAllows
      simp [hnone]
    constructor
    · have := hjoin stranger (.inl (hnone _))
      rw [checkJoin_ok_iff (.inl (hnone _)), hrestricted] at this
      simpa using this
    · have hout : Outsider cfg db room.id stranger := by
        intro mxid hmem
        rw [hmxid] at hmem
        cases hmem
      rw [← mayRead_iff_of_outsider hout]
      exact hread stranger hout
  · intro h room hroom
    obtain ⟨hjoin, hread⟩ := h room hroom
    constructor
    · intro userId houtside
      rw [checkJoin_ok_iff houtside, hjoin]
    · intro userId hout
      rw [mayRead_iff_of_outsider hout, hread]

end Gates

/-! ### Runs -/

section Run

variable (cfg : Config) (fed : Federation)

/-- A state event that is put says about joining and reading what the columns say. -/
def PolicyKept (db : Db) (roomId eventType key content : String) : Prop :=
  key = "" → ∀ room ∈ db.getRoom roomId,
    (eventType = "m.room.join_rules" → (room.joinRule = .public ↔
      (cfg.field content "join_rule").bind Json.asStr? = some "public")) ∧
    (eventType = "m.room.history_visibility" → (room.historyVisibility = .worldReadable ↔
      (cfg.field content "history_visibility").bind Json.asStr? = some "world_readable"))

/-- Of all requests, a state event that is put and accepted has to keep the policy. -/
def KeepsPolicy (db : Db) : RoomOp → Prop
  | .putState stamp roomId caller eventType key content =>
    ((RoomOp.putState stamp roomId caller eventType key content).transaction cfg fed).Accepts db →
      PolicyKept cfg db roomId eventType key content
  | _ => True

end Run

section Steps

variable {cfg : Config} {fed : Federation} {db db' : Db} {roomId eventType key content : String}

theorem id_of_getRoom {room : Room} (h : db.getRoom roomId = some room) : room.id = roomId := by
  simpa using List.find?_some h

/-- One write keeps the columns in agreement exactly if it keeps the policy. -/
theorem columnsAgree_puts (h : ColumnsAgree cfg db) (consistent : db.Consistent)
    (puts : Puts cfg db roomId eventType key content db') :
    ColumnsAgree cfg db' ↔ PolicyKept cfg db roomId eventType key content := by
  have hjoin (r : String) : joinRuleNow cfg db' r =
      if roomId = r ∧ eventType = "m.room.join_rules" ∧ key = "" then
        (cfg.field content "join_rule").bind Json.asStr? else joinRuleNow cfg db r := by
    unfold joinRuleNow
    rw [puts.stateField consistent (by decide) (by decide)]
    split_ifs <;> rfl
  have hhistory (r : String) : historyVisibilityNow cfg db' r =
      if roomId = r ∧ eventType = "m.room.history_visibility" ∧ key = "" then
        (cfg.field content "history_visibility").bind Json.asStr?
      else historyVisibilityNow cfg db r := by
    unfold historyVisibilityNow
    rw [puts.stateField consistent (by decide) (by decide)]
    split_ifs <;> rfl
  unfold ColumnsAgree PolicyKept
  simp only [puts.getRoom, hjoin, hhistory]
  constructor
  · intro hall hkey room hroom
    obtain rfl := id_of_getRoom hroom
    obtain ⟨hj, hv⟩ := hall room hroom
    constructor
    · intro htype
      simpa [htype, hkey] using hj
    · intro htype
      simpa [htype, hkey] using hv
  · intro hkept room hroom
    obtain ⟨hj, hv⟩ := h room hroom
    constructor
    · split_ifs with hslot
      · obtain ⟨rfl, htype, hkey⟩ := hslot
        exact (hkept hkey room hroom).1 htype
      · exact hj
    · split_ifs with hslot
      · obtain ⟨rfl, htype, hkey⟩ := hslot
        exact (hkept hkey room hroom).2 htype
      · exact hv

theorem policyKept_of_ne (hjoin : eventType ≠ "m.room.join_rules")
    (hhistory : eventType ≠ "m.room.history_visibility") :
    PolicyKept cfg db roomId eventType key content :=
  fun _ _ _ => ⟨fun h => absurd h hjoin, fun h => absurd h hhistory⟩

theorem ColumnsAgree.member (h : ColumnsAgree cfg db) (consistent : db.Consistent)
    (puts : Puts cfg db roomId "m.room.member" key content db') : ColumnsAgree cfg db' :=
  (columnsAgree_puts h consistent puts).2 (policyKept_of_ne (by decide) (by decide))

/-- The policy a room starts with. -/
def RoomCreate.policy (kind : RoomKind) : List NewState :=
  [⟨"m.room.join_rules", "", .obj [("join_rule", .str (roomKindSettings kind).1.asStr)]⟩,
    ⟨"m.room.history_visibility", "",
      .obj [("history_visibility", .str (roomKindSettings kind).2.1.asStr)]⟩]

section Created

variable {req : RoomCreate} {kind : RoomKind} {inviteLevel : Int}
  {invitees : List (String × String)}

theorem RoomCreate.policy_mem {event : NewState} (h : event ∈ RoomCreate.policy kind) :
    event ∈ req.stateEvents kind inviteLevel invitees := by
  simp only [RoomCreate.policy, List.mem_cons, List.not_mem_nil, or_false] at h
  rcases h with rfl | rfl <;> simp [RoomCreate.stateEvents]

/-- The events of a new room by what they are about. -/
theorem RoomCreate.stateEvents_cases {event : NewState}
    (h : event ∈ req.stateEvents kind inviteLevel invitees) :
    event ∈ req.memberEvents kind invitees ∨ event ∈ RoomCreate.policy kind ∨
      event.eventType ∈ ["m.room.create", "m.room.power_levels", "m.room.name", "m.room.topic",
        "m.room.encryption"] := by
  simp only [RoomCreate.stateEvents, List.mem_append, List.mem_cons, Option.mem_toList,
    List.not_mem_nil, or_false, Option.map_eq_some_iff] at h
  rcases h with ((((rfl | hmember) | hfixed) | ⟨_, -, rfl⟩) | ⟨_, -, rfl⟩) | hencryption
  · simp
  · exact .inl hmember
  · rcases hfixed with rfl | rfl | rfl <;> simp [RoomCreate.policy]
  · simp
  · simp
  · split_ifs at hencryption
    · obtain rfl := List.mem_singleton.1 hencryption
      simp
    · cases hencryption

theorem RoomCreate.eventType_of_mem_memberEvents {event : NewState}
    (h : event ∈ req.memberEvents kind invitees) : event.eventType = "m.room.member" := by
  simp only [RoomCreate.memberEvents, List.mem_cons, List.mem_map] at h
  rcases h with rfl | ⟨_, -, rfl⟩ <;> rfl

/-- No other event of a new room is for the slots of the policy. -/
theorem RoomCreate.policy_only {event other : NewState} (h : event ∈ RoomCreate.policy kind)
    (hother : other ∈ req.stateEvents kind inviteLevel invitees)
    (hsame : other.eventType = event.eventType) : other = event := by
  have hcases := RoomCreate.stateEvents_cases hother
  simp only [RoomCreate.policy, List.mem_cons, List.not_mem_nil, or_false] at h hcases
  rcases hcases with hmember | hpolicy | hfixed
  · rw [RoomCreate.eventType_of_mem_memberEvents hmember] at hsame
    rcases h with rfl | rfl <;> simp at hsame
  · rcases h with rfl | rfl <;> rcases hpolicy with rfl | rfl <;> simp_all
  · rcases h with rfl | rfl <;> simp [hsame] at hfixed

theorem ColumnsAgree.freed (h : ColumnsAgree cfg db) (freed : Freed db db') :
    ColumnsAgree cfg db' := by
  intro room hroom
  have hcolumns := freed.map_getRoom (f := fun r => (r.id, r.joinRule, r.historyVisibility))
    (fun _ => rfl) room.id
  rw [hroom] at hcolumns
  obtain ⟨old, hold, heq⟩ := Option.map_eq_some_iff.1 hcolumns.symm
  simp only [Prod.mk.injEq] at heq
  obtain ⟨hid, hjoin, hvisibility⟩ := heq
  have hagree := h old (by rw [hid]; exact hold)
  rw [hid, hjoin, hvisibility] at hagree
  obtain ⟨dead, rfl⟩ := freed
  exact hagree

/-- The rooms of before, and a new one whose first state is what its columns say. -/
theorem ColumnsAgree.created (lawful : cfg.Lawful) (h : ColumnsAgree cfg db)
    (consistent : db.Consistent) {mid : Db} {dag : Dag.Tables} (freed : Freed db mid)
    (fresh : mid.getRoom req.roomId = none)
    (puts : PutsAll cfg req.roomId { mid with rooms := mid.rooms ++ [req.room kind], dag := dag }
      (req.stateEvents kind inviteLevel invitees) db') : ColumnsAgree cfg db' := by
  have hmid := consistent_snoc (req.room kind) dag (freed.consistent consistent)
  intro room hroom
  rw [puts.getRoom, getRoom_snoc] at hroom
  by_cases hid : room.id = req.roomId
  · have hnew : req.room kind = room := by
      rw [hid, fresh, Option.none_or] at hroom
      simpa [RoomCreate.room] using hroom
    subst hnew
    have hpolicy {event : NewState} (hevent : event ∈ RoomCreate.policy kind) {name : String}
        (hcreator : name ≠ "creator") (hvia : name ≠ "join_authorised_via_users_server") :
        db'.stateField cfg req.roomId event.eventType event.stateKey name =
          (event.content.get? name).map Json.canonical :=
      puts.stateField_of_mem lawful hmid hcreator hvia (RoomCreate.policy_mem hevent)
        fun other hother hslot => RoomCreate.policy_only hevent hother hslot.1
    constructor
    · have hrule : joinRuleNow cfg db' req.roomId =
          some (roomKindSettings kind).1.asStr := by
        unfold joinRuleNow
        rw [hpolicy List.mem_cons_self (by decide) (by decide)]
        rfl
      show (roomKindSettings kind).1 = .public ↔ joinRuleNow cfg db' req.roomId = some "public"
      rw [hrule]
      cases kind <;> decide
    · have hvisibility : historyVisibilityNow cfg db' req.roomId =
          some (roomKindSettings kind).2.1.asStr := by
        unfold historyVisibilityNow
        rw [hpolicy (List.mem_cons_of_mem _ List.mem_cons_self) (by decide) (by decide)]
        rfl
      show (roomKindSettings kind).2.1 = .worldReadable ↔
        historyVisibilityNow cfg db' req.roomId = some "world_readable"
      rw [hvisibility]
      cases kind <;> decide
  · have hkept : mid.getRoom room.id = some room := by
      rw [if_neg (by simpa [RoomCreate.room] using Ne.symm hid), Option.or_none] at hroom
      exact hroom
    have hsame (t name : String) (hcreator : name ≠ "creator")
        (hvia : name ≠ "join_authorised_via_users_server") :
        db'.stateField cfg room.id t "" name = mid.stateField cfg room.id t "" name :=
      puts.stateField_other hmid hcreator hvia hid t ""
    have hagree := h.freed freed room hkept
    unfold joinRuleNow historyVisibilityNow at hagree ⊢
    rwa [hsame _ _ (by decide) (by decide), hsame _ _ (by decide) (by decide)]

end Created

/-- Apart from putting state, no request changes the policy of a room. -/
theorem ColumnsAgree.moves (lawful : cfg.Lawful) (h : ColumnsAgree cfg db)
    (consistent : db.Consistent) {op : RoomOp} (moves : Moves cfg db op db')
    (hop : ∀ stamp roomId caller eventType key content,
      op ≠ .putState stamp roomId caller eventType key content) : ColumnsAgree cfg db' := by
  cases moves with
  | same => exact h
  | freed freed => exact h.freed freed
  | created _ _ freed fresh _ puts => exact h.created lawful consistent freed fresh puts
  | invited _ _ _ _ _ _ _ puts => exact h.member consistent puts
  | joined _ _ _ _ _ puts => exact h.member consistent puts
  | left _ _ _ puts => exact h.member consistent puts
  | moderated _ _ _ _ _ _ _ puts => exact h.member consistent puts
  | put => exact absurd rfl (hop _ _ _ _ _ _)
  | forgot => exact h

/-- One request keeps the columns in agreement exactly if it keeps the policy. -/
theorem columnsAgree_step (lawful : cfg.Lawful) (h : ColumnsAgree cfg db)
    (consistent : db.Consistent) (op : RoomOp) :
    ColumnsAgree cfg (step cfg fed db op) ↔ KeepsPolicy cfg fed db op := by
  cases op with
  | putState stamp roomId caller eventType key content =>
    rw [step_eq_settle fun _ => by simp]
    rcases Transaction.settle_cases
      ((RoomOp.putState stamp roomId caller eventType key content).transaction cfg fed) db with
      ⟨e, herror, hsame⟩ | ⟨u, hok⟩
    · refine iff_of_true (by rw [hsame]; exact h) ?_
      rintro ⟨u, t, hok⟩
      rw [herror] at hok
      cases hok
    · rw [columnsAgree_puts h consistent (putState_ok lawful hok).2.2]
      exact ⟨fun hkept _ => hkept, fun hkept => hkept ⟨u, _, hok⟩⟩
  | _ => exact iff_of_true (h.moves lawful consistent (step_moves lawful db _) (by simp)) trivial

end Steps

/-- In a run of room operations the gates follow the state in every state reached exactly if
every state event that is put keeps the policy its room was created with. -/
theorem accessFollows_iff_meets {cfg : Config} {fed : Federation} {start : Db}
    (lawful : cfg.Lawful) (consistent : start.Consistent) (empty : start.rooms = [])
    (ops : List RoomOp) :
    Trace.Throughout (step cfg fed) (AccessFollows cfg) start ops ↔
      Trace.Meets (step cfg fed) (KeepsPolicy cfg fed) start ops := by
  have hconsistent : ∀ db op, True → db.Consistent → (step cfg fed db op).Consistent :=
    fun db op _ hdb => (step_moves lawful db op).consistent hdb
  refine Trace.throughout_iff_meets hconsistent (fun db op _ hdb h => ?_) (fun _ _ => trivial)
    consistent ?_
  · rw [accessFollows_iff] at h ⊢
    exact columnsAgree_step lawful h hdb op
  · rw [accessFollows_iff]
    intro room hroom
    simp [Db.getRoom, empty] at hroom

section Example

def openChannel : RoomCreate where
  creator := ⟨1, "@alice:a"⟩
  displayname := "alice"
  visibilityPublic := true
  roomId := "!c:a"
  eventIds n := "$" ++ toString n
  now := ""
  originTs := 0

def channelConfig : Config := namedConfig
  [("create", openChannel.createContent), ("member", joinMemberContent "alice"),
    ("levels", powerLevelsContent "@alice:a" .channel 50),
    ("public", .obj [("join_rule", .str "public")]),
    ("invite", .obj [("join_rule", .str "invite")]),
    ("readable", .obj [("history_visibility", .str "world_readable")])]

theorem channelConfig_lawful : channelConfig.Lawful :=
  namedConfig_lawful (by decide) (by decide +kernel)

/-- Alice opens a channel to everybody, then makes it one that takes an invitation. -/
def closedChannel : List RoomOp :=
  [.create openChannel,
    .putState ⟨"$rules", "", 0⟩ "!c:a" ⟨1, "@alice:a"⟩ "m.room.join_rules" "" "invite"]

/-- The channel asks for an invitation, and lets bob in without one. -/
theorem not_accessFollows_closedChannel :
    ¬ Trace.Throughout (step channelConfig F3.simpleFederation) (AccessFollows channelConfig)
      twoUsers closedChannel := by
  have hrun : ∃ db, Trace.run (step channelConfig F3.simpleFederation) twoUsers closedChannel = db ∧
      (db.getRoom "!c:a").map Room.joinRule = some .public ∧
      joinRuleNow channelConfig db "!c:a" = some "invite" :=
    ⟨_, rfl, by decide +kernel⟩
  intro h
  obtain ⟨db, hdb, hcolumn, hrule⟩ := hrun
  have hlast := h.last
  rw [hdb, accessFollows_iff] at hlast
  obtain ⟨room, hroom, hjoin⟩ := Option.map_eq_some_iff.1 hcolumn
  have hid := id_of_getRoom hroom
  rw [← hid] at hroom hrule
  have hpublic := (hlast room hroom).1.1 hjoin
  rw [hrule] at hpublic
  exact absurd (Option.some.inj hpublic) (by decide)

theorem accessFollows_iff_meets_closedChannel :
    channelConfig.Lawful ∧ twoUsers.Consistent ∧ twoUsers.rooms = [] ∧
      (Trace.Throughout (step channelConfig F3.simpleFederation) (AccessFollows channelConfig)
          twoUsers closedChannel ↔
        Trace.Meets (step channelConfig F3.simpleFederation)
          (KeepsPolicy channelConfig F3.simpleFederation) twoUsers closedChannel) :=
  ⟨channelConfig_lawful, twoUsers_consistent, rfl,
    accessFollows_iff_meets channelConfig_lawful twoUsers_consistent rfl closedChannel⟩

end Example

end Rooms

end Server
