import Mail4Agent.Server.RoomAccess

/-!
# How memberships move

The membership rows change by many operations, each with its own guard. Over whole runs
they follow three rules: a ban ends by an unban of somebody above, an invite-only room is
entered by its creator and by who was invited after the last leave, and nobody is moved out
by anybody but themselves or somebody above.
-/

namespace Server

namespace Rooms

section Rules

variable (cfg : Config) (db : Db)

/-- The event is about the user's membership of the room. -/
def MemberEvent (roomId mxid : String) (event : MatrixEvent) : Prop :=
  event.roomId = roomId ∧ event.eventType = "m.room.member" ∧ event.stateKey = some mxid

/-- An invitation was recorded after every leave. -/
def InvitedSinceLeave (roomId mxid : String) : Prop :=
  ∃ invite ∈ db.events, MemberEvent roomId mxid invite ∧
    cfg.membership invite.content = some .invite ∧
    ∀ leave ∈ db.events, MemberEvent roomId mxid leave →
      cfg.membership leave.content = some .leave → leave.streamId < invite.streamId

/-- The caller is joined and has a level above the user's. -/
def Outranks (roomId : String) (caller : Caller) (userId : Int) (levels : Json) : Prop :=
  db.membershipOf roomId caller.userId = some .join ∧ db.powerLevelsOf cfg roomId = .ok levels ∧
    ∃ mxid ∈ db.mxidOf userId, Power.userLevel levels mxid < Power.userLevel levels caller.mxid

/-- What a request may do to the memberships. -/
structure MovesByRule (op : RoomOp) (db' : Db) : Prop where
  unbanned : ∀ roomId userId, db.membershipOf roomId userId = some .ban →
    db'.membershipOf roomId userId ≠ some .ban →
      ∃ stamp caller reason levels, op = .moderate .unban stamp roomId caller userId reason ∧
        Outranks cfg db roomId caller userId levels ∧ Power.can levels .ban caller.mxid = true
  joined : ∀ roomId userId, db.membershipOf roomId userId ≠ some .join →
    db'.membershipOf roomId userId = some .join → joinRuleNow cfg db' roomId = some "invite" →
      (∃ req, op = .create req ∧ req.roomId = roomId ∧ req.creator.userId = userId) ∨
        ∃ mxid ∈ db.mxidOf userId, InvitedSinceLeave cfg db roomId mxid
  expelled : ∀ roomId userId, db.membershipOf roomId userId = some .join →
    db'.membershipOf roomId userId ≠ some .join →
      op.caller.userId = userId ∨ ∃ levels, Outranks cfg db roomId op.caller userId levels

/-- Of the state events, only profiles and power levels are put. -/
def ProfilesAndLevels : RoomOp → Prop
  | .putState _ _ _ eventType _ _ =>
    eventType = "m.room.member" ∨ eventType = "m.room.power_levels"
  | _ => True

end Rules

/-! ### The recorded memberships -/

/-- Every membership row is what the latest member event says. -/
structure Recorded (cfg : Config) (db : Db) : Prop where
  positions : ∀ event ∈ db.events, event.streamId ≤ db.streamCounter
  latest : ∀ roomId userId membership, db.membershipOf roomId userId = some membership →
    ∃ mxid ∈ db.mxidOf userId, ∃ event ∈ db.events, MemberEvent roomId mxid event ∧
      cfg.membership event.content = some membership ∧
      ∀ other ∈ db.events, MemberEvent roomId mxid other →
        other = event ∨ other.streamId < event.streamId

section Recorded

variable {cfg : Config} {fed : Federation} {db db' : Db} {roomId eventType key content : String}

theorem Recorded.puts (h : Recorded cfg db) (consistent : db.Consistent)
    (puts : Puts cfg db roomId eventType key content db') : Recorded cfg db' := by
  obtain ⟨event, hevents, hposition, hcounter, hroom, htype, hkey, hsigned⟩ := puts.events
  refine ⟨?_, fun r u membership hrow => ?_⟩
  · intro e he
    rw [hevents, List.mem_append, List.mem_singleton] at he
    rw [hcounter]
    rcases he with he | rfl
    · exact (h.positions e he).trans (by omega)
    · exact hposition.le
  rw [puts.membershipOf] at hrow
  simp only [puts.mxidOf, hevents, List.mem_append, List.mem_singleton]
  split_ifs at hrow with hslot
  · obtain ⟨hmember, rfl, huser⟩ := hslot
    refine ⟨key, (consistent.users u key).2 huser, event, .inr rfl,
      ⟨hroom, htype.trans hmember, hkey⟩,
      ?_, ?_⟩
    · rw [hsigned.membership, hrow]
    · rintro other (hother | rfl) -
      · refine .inr ?_
        have := h.positions other hother
        omega
      · exact .inl rfl
  · obtain ⟨mxid, hmxid, e, he, hmember, htext, hlatest⟩ := h.latest r u membership hrow
    refine ⟨mxid, hmxid, e, .inl he, hmember, htext, ?_⟩
    rintro other (hother | rfl) hslot'
    · exact hlatest other hother hslot'
    · -- the new event would be about this user
      obtain ⟨hr, ht, hk⟩ := hslot'
      rw [hkey, Option.some.injEq] at hk
      refine absurd ⟨htype.symm.trans ht, hroom.symm.trans hr, ?_⟩ hslot
      rw [hk]
      exact (consistent.users u mxid).1 hmxid

theorem Recorded.putsAll {events : List NewState} (h : Recorded cfg db) (consistent : db.Consistent)
    (puts : PutsAll cfg roomId db events db') : Recorded cfg db' := by
  induction puts with
  | nil => exact h
  | cons first _ ih => exact ih (h.puts consistent first) (first.consistent consistent)

theorem Recorded.moves (h : Recorded cfg db) (consistent : db.Consistent) {op : RoomOp}
    (moves : Moves cfg db op db') : Recorded cfg db' := by
  cases moves with
  | same => exact h
  | freed freed =>
    obtain ⟨dead, rfl⟩ := freed
    exact ⟨h.positions, h.latest⟩
  | @created req kind _ _ mid _ dag _ _ freed _ _ puts =>
    have hmid : Recorded cfg { mid with rooms := mid.rooms ++ [req.room kind], dag := dag } := by
      obtain ⟨dead, rfl⟩ := freed
      exact ⟨h.positions, h.latest⟩
    exact hmid.putsAll (consistent_snoc _ _ (freed.consistent consistent)) puts
  | invited _ _ _ _ _ _ _ puts => exact h.puts consistent puts
  | joined _ _ _ _ _ puts => exact h.puts consistent puts
  | left _ _ _ puts => exact h.puts consistent puts
  | moderated _ _ _ _ _ _ _ puts => exact h.puts consistent puts
  | put _ _ puts => exact h.puts consistent puts
  | forgot known leftRoom =>
    refine ⟨h.positions, fun r u membership hrow => ?_⟩
    rw [roomMember_forget consistent leftRoom] at hrow
    split_ifs at hrow
    exact h.latest r u membership hrow

/-- Who is invited has an invitation from after the last leave. -/
theorem Recorded.invitedSinceLeave (h : Recorded cfg db) {userId : Int}
    (hinvite : db.membershipOf roomId userId = some .invite) :
    ∃ mxid ∈ db.mxidOf userId, InvitedSinceLeave cfg db roomId mxid := by
  obtain ⟨mxid, hmxid, invite, hmem, hslot, htext, hlatest⟩ := h.latest _ _ _ hinvite
  refine ⟨mxid, hmxid, invite, hmem, hslot, htext, fun leave hleave hslot' htext' => ?_⟩
  refine (hlatest leave hleave hslot').resolve_left ?_
  rintro rfl
  rw [htext] at htext'
  cases htext'

end Recorded

/-! ### One request -/

section Steps

variable {cfg : Config} {fed : Federation} {db db' : Db} {op : RoomOp} {roomId : String}
  {target : Int}

theorem MovesByRule.of_unchanged
    (h : ∀ r u, db'.membershipOf r u = db.membershipOf r u) : MovesByRule cfg db op db' where
  unbanned r u hban hnot := absurd ((h r u).trans hban) hnot
  joined r u hnot hjoin := absurd ((h r u).symm.trans hjoin) hnot
  expelled r u hjoin hnot := absurd ((h r u).trans hjoin) hnot

/-- A request that moves one user has to follow the rules for that user. -/
theorem MovesByRule.of_row {new : Option Membership}
    (hrow : ∀ r u, db'.membershipOf r u =
      if roomId = r ∧ target = u then new else db.membershipOf r u)
    (hunbanned : db.membershipOf roomId target = some .ban → new ≠ some .ban →
      ∃ stamp caller reason levels, op = .moderate .unban stamp roomId caller target reason ∧
        Outranks cfg db roomId caller target levels ∧ Power.can levels .ban caller.mxid = true)
    (hjoined : db.membershipOf roomId target ≠ some .join → new = some .join →
      joinRuleNow cfg db' roomId = some "invite" →
        ∃ mxid ∈ db.mxidOf target, InvitedSinceLeave cfg db roomId mxid)
    (hexpelled : db.membershipOf roomId target = some .join → new ≠ some .join →
      op.caller.userId = target ∨ ∃ levels, Outranks cfg db roomId op.caller target levels) :
    MovesByRule cfg db op db' where
  unbanned r u hban hnot := by
    rw [hrow] at hnot
    split_ifs at hnot with hkey
    · obtain ⟨rfl, rfl⟩ := hkey
      exact hunbanned hban hnot
    · exact absurd hban hnot
  joined r u hnot hjoin hrule := by
    rw [hrow] at hjoin
    split_ifs at hjoin with hkey
    · obtain ⟨rfl, rfl⟩ := hkey
      exact .inr (hjoined hnot hjoin hrule)
    · exact absurd hjoin hnot
  expelled r u hjoin hnot := by
    rw [hrow] at hnot
    split_ifs at hnot with hkey
    · obtain ⟨rfl, rfl⟩ := hkey
      exact hexpelled hjoin hnot
    · exact absurd hjoin hnot

/-- A member event moves the user it names. -/
theorem membershipOf_member (consistent : db.Consistent) {mxid content : String} {new : Membership}
    (named : db.mxidOf target = some mxid) (text : cfg.membership content = some new)
    (puts : Puts cfg db roomId "m.room.member" mxid content db') (r : String) (u : Int) :
    db'.membershipOf r u =
      if roomId = r ∧ target = u then some new else db.membershipOf r u := by
  rw [puts.membershipOf, (consistent.users _ _).1 named, text]
  simp

theorem joinRuleNow_of_restrictedAllows {userId : Int}
    (h : restrictedAllows cfg db roomId userId = true) :
    joinRuleNow cfg db roomId = some "restricted" ∨
      joinRuleNow cfg db roomId = some "knock_restricted" := by
  unfold restrictedAllows at h
  unfold joinRuleNow Db.stateField
  cases hevent : db.currentStateEvent roomId "m.room.join_rules" "" with
  | none => simp [hevent] at h
  | some event =>
    cases hrules : cfg.parse event.content with
    | none => simp [hevent, hrules] at h
    | some rules =>
      rw [hevent, Option.bind_some, hrules, Option.any_some] at h
      rw [Option.bind_some, cfg.field_asStr, hrules, Option.bind_some]
      exact (of_decide_eq_true h).1

/-- Without an invitation nobody gets into an invite-only room. -/
theorem invited_of_checkJoin (agree : ColumnsAgree cfg db) {room : Room} {userId : Int}
    (stored : db.getRoom roomId = some room) (outside : db.membershipOf roomId userId ≠ some .join)
    (admitted : checkJoin cfg db room userId = .ok ())
    (hrule : joinRuleNow cfg db roomId = some "invite") :
    db.membershipOf roomId userId = some .invite := by
  obtain rfl := id_of_getRoom stored
  have hshut (houtside : db.membershipOf room.id userId = none ∨
      db.membershipOf room.id userId = some .leave) : False := by
    rcases (checkJoin_ok_iff houtside).1 admitted with hpublic | hrestricted
    · rw [(agree room stored).1, hrule] at hpublic
      exact absurd (Option.some.inj hpublic) (by decide)
    · rcases joinRuleNow_of_restrictedAllows hrestricted with h | h <;>
        exact absurd (Option.some.inj (hrule.symm.trans h)) (by decide)
  cases hmembership : db.membershipOf room.id userId with
  | none => exact (hshut (.inl hmembership)).elim
  | some membership =>
    cases membership with
    | invite => rfl
    | join => exact absurd hmembership outside
    | ban => simp [checkJoin, hmembership] at admitted
    | leave => exact (hshut (.inr hmembership)).elim

/-- Who puts their own profile is joined before and after. -/
theorem checkPutState_member {caller : Caller} {eventType key content : String}
    (h : checkPutState cfg db roomId caller eventType key content = .ok ()) :
    db.membershipOf roomId caller.userId = some .join ∧
      (eventType = "m.room.member" → key = caller.mxid ∧
        cfg.membership content = some .join) := by
  obtain ⟨hjoin, hallowed, -⟩ := checkPutState_ok.1 h
  refine ⟨hjoin, fun hmember => ?_⟩
  subst hmember
  have hown : key = caller.mxid ∧ (cfg.membershipText content).join = some "join" := by
    by_contra hother
    simp [checkStateEventTypeAllowed, checkSpaceState, hother] at hallowed
  refine ⟨hown.1, ?_⟩
  rw [Config.membership, ← Config.membershipText_join, hown.2]
  rfl

theorem joinRuleNow_member (consistent : db.Consistent) {key content : String}
    (puts : Puts cfg db roomId "m.room.member" key content db') (r : String) :
    joinRuleNow cfg db' r = joinRuleNow cfg db r := by
  unfold joinRuleNow
  rw [puts.stateField consistent (by decide) (by decide), if_neg (by simp)]

theorem canActOn_iff {levels : Json} {action : PowerAction} {sender other : String}
    {selfLeave : Bool} :
    Power.canActOn levels action sender other selfLeave = true ↔
      (selfLeave = true ∧ sender = other) ∨ (Power.can levels action sender = true ∧
        Power.userLevel levels other < Power.userLevel levels sender) := by
  simp [Power.canActOn]

/-- Of the first state of a room, only the creator's member event is a join. -/
theorem creator_of_join (lawful : cfg.Lawful) {req : RoomCreate} {kind : RoomKind}
    {inviteLevel : Int} {invitees : List (String × String)} {event : NewState}
    (hmem : event ∈ req.stateEvents kind inviteLevel invitees)
    (htype : event.eventType = "m.room.member")
    (hjoin : cfg.membership (cfg.render event.content) = some .join) :
    event.stateKey = req.creator.mxid := by
  have hmember : event ∈ req.memberEvents kind invitees := by
    rcases RoomCreate.stateEvents_cases hmem with hmember | hpolicy | hfixed
    · exact hmember
    · simp only [RoomCreate.policy, List.mem_cons, List.not_mem_nil, or_false] at hpolicy
      rcases hpolicy with rfl | rfl <;> simp at htype
    · simp [htype] at hfixed
  simp only [RoomCreate.memberEvents, List.mem_cons, List.mem_map] at hmember
  rcases hmember with rfl | ⟨invitee, -, rfl⟩
  · rfl
  · have hinvite : cfg.membership (cfg.render (inviteMemberContent kind invitee.2)) =
        some .invite := membership_render lawful asStr?_inviteMemberContent
    exact absurd (hinvite.symm.trans hjoin) (by decide)

/-- Every request moves memberships by the rules. -/
theorem movesByRule (lawful : cfg.Lawful) (consistent : db.Consistent) (agree : ColumnsAgree cfg db)
    (recorded : Recorded cfg db) (moves : Moves cfg db op db') : MovesByRule cfg db op db' := by
  cases moves with
  | same => exact .of_unchanged fun _ _ => rfl
  | freed freed =>
    obtain ⟨dead, rfl⟩ := freed
    exact .of_unchanged fun _ _ => rfl
  | @created req kind inviteLevel invitees mid _ dag known others freed fresh named puts =>
    have hold (r : String) (u : Int) : mid.membershipOf r u = db.membershipOf r u := by
      obtain ⟨dead, rfl⟩ := freed
      rfl
    have hempty (u : Int) : db.membershipOf req.roomId u = none := by
      by_contra hrow
      exact consistent.memberRooms _ _ hrow ((freed.getRoom_eq_none _).1 fresh)
    have hsame (r : String) (u : Int) (hrow : db.membershipOf r u ≠ none) :
        db'.membershipOf r u = db.membershipOf r u := by
      have hr : r ≠ req.roomId := by
        rintro rfl
        exact hrow (hempty u)
      rw [puts.membershipOf_other hr]
      exact hold r u
    exact {
      unbanned := fun r u hban hnot => absurd ((hsame r u (by simp [hban])).trans hban) hnot
      expelled := fun r u hjoin hnot => absurd ((hsame r u (by simp [hjoin])).trans hjoin) hnot
      joined := fun r u hnot hjoin _ => by
        rcases puts.membershipOf r u with hkept | ⟨event, hmem, htype, rfl, huser, hmembership⟩
        · exact absurd ((hold r u).symm.trans (hkept.symm.trans hjoin)) hnot
        · have hcreator := creator_of_join lawful hmem htype (hmembership.symm.trans hjoin)
          refine .inl ⟨req, rfl, rfl, ?_⟩
          have hknown : mid.userIdOf req.creator.mxid = some req.creator.userId :=
            ((freed.consistent consistent).users _ _).1
              (by obtain ⟨dead, rfl⟩ := freed; exact known)
          rw [hcreator] at huser
          exact Option.some.inj (hknown.symm.trans huser) }
  | invited known member current power outside named text puts =>
    refine .of_row (membershipOf_member consistent named text puts) (fun hban _ => ?_)
      (fun _ hnew => by cases hnew) (fun hjoin _ => ?_)
    · simp [hban, checkInvitable] at outside
    · simp [hjoin, checkInvitable] at outside
  | joined known stored outside admitted text puts =>
    refine .of_row (membershipOf_member consistent known text puts) (fun hban _ => ?_)
      (fun _ _ hrule => ?_) (fun hjoin _ => absurd hjoin outside)
    · obtain rfl := id_of_getRoom stored
      simp [checkJoin, hban] at admitted
    · refine recorded.invitedSinceLeave (invited_of_checkJoin agree stored outside admitted ?_)
      rwa [joinRuleNow_member consistent puts] at hrule
  | left known active text puts =>
    refine .of_row (membershipOf_member consistent known text puts) (fun hban _ => ?_)
      (fun _ hnew => by cases hnew) (fun _ _ => .inl rfl)
    simp [hban] at active
  | @moderated moderation _ _ mxid _ caller target _ levels _ known member current named power
    rule text puts =>
    refine .of_row (membershipOf_member consistent named text puts) (fun hban hnew => ?_)
      (fun _ hnew => ?_) (fun hjoin _ => ?_)
    · have hunban : moderation = .unban := by
        cases moderation with
        | kick => simp [Moderation.change, kick, hban] at rule
        | ban => exact absurd rfl hnew
        | unban => rfl
      subst hunban
      rcases canActOn_iff.1 power with ⟨-, hself⟩ | ⟨hcan, habove⟩
      · -- a joined user is not banned
        subst hself
        rw [consistent.sameUser known named, hban] at member
        cases member
      · exact ⟨_, _, _, levels, rfl, ⟨member, current, mxid, named, habove⟩, hcan⟩
    · cases moderation <;> cases hnew
    · have hsame : caller.mxid = mxid → caller.userId = target := by
        rintro rfl
        exact consistent.sameUser known named
      rcases canActOn_iff.1 power with ⟨-, hself⟩ | ⟨-, habove⟩
      · exact .inl (hsame hself)
      · exact .inr ⟨levels, member, current, mxid, named, habove⟩
  | @put _ roomId _ key content caller _ known checked puts =>
    obtain ⟨hjoin, hprofile⟩ := checkPutState_member checked
    refine .of_unchanged fun r u => ?_
    rw [puts.membershipOf]
    split_ifs with hrow
    · obtain ⟨hmember, rfl, huser⟩ := hrow
      obtain ⟨rfl, htext⟩ := hprofile hmember
      rw [(consistent.users _ _).1 known] at huser
      rw [← Option.some.inj huser, htext, hjoin]
    · rfl
  | @forgot roomId caller known leftRoom =>
    refine .of_row (roomMember_forget consistent leftRoom) (fun hban _ => ?_)
      (fun _ hnew => by cases hnew) (fun _ _ => .inl rfl)
    rw [leftRoom] at hban
    cases hban

end Steps

/-! ### Runs -/

/-- What the tables of a run satisfy that puts no policy. -/
structure Governed (cfg : Config) (db : Db) : Prop where
  consistent : db.Consistent
  agree : ColumnsAgree cfg db
  recorded : Recorded cfg db

theorem Governed.step {cfg : Config} {fed : Federation} {db : Db} (lawful : cfg.Lawful)
    {op : RoomOp}
    (hop : ProfilesAndLevels op) (h : Governed cfg db) :
      Governed cfg (Rooms.step cfg fed db op) := by
  have moves : Moves cfg db op (Rooms.step cfg fed db op) := step_moves lawful db op
  refine ⟨moves.consistent h.consistent, ?_, h.recorded.moves h.consistent moves⟩
  rw [columnsAgree_step lawful h.agree h.consistent]
  cases op with
  | putState stamp roomId caller eventType key content =>
    intro _
    rcases hop with rfl | rfl <;> exact policyKept_of_ne (by decide) (by decide)
  | _ => trivial

/-- Whatever the users do, memberships move by the rules. -/
theorem movesByRule_run {cfg : Config} {fed : Federation} {start : Db} (lawful : cfg.Lawful)
    (consistent : start.Consistent) (empty : start.rooms = [] ∧ start.events = [])
    {ops : List RoomOp} (hops : ∀ op ∈ ops, ProfilesAndLevels op) (op : RoomOp) :
    MovesByRule cfg (Trace.run (step cfg fed) start ops) op
      (step cfg fed (Trace.run (step cfg fed) start ops) op) := by
  have hstart : Governed cfg start := by
    refine ⟨consistent, fun room hroom => ?_, fun event hevent => ?_, fun r u m hrow => ?_⟩
    · simp [Db.getRoom, empty.1] at hroom
    · simp [empty.2] at hevent
    · have := consistent.memberRooms r u (by simp [hrow])
      simp [Db.getRoom, empty.1] at this
  have hlast : Governed cfg (Trace.run (step cfg fed) start ops) :=
    (Trace.throughout_of_invariant (fun _ _ hop h => h.step lawful hop) (fun _ h => h) hops
      hstart).last
  exact movesByRule lawful hlast.consistent hlast.agree hlast.recorded (step_moves lawful _ op)

/-- Alice opens a group and invites bob. -/
def openGroup : RoomCreate where
  creator := ⟨1, "@alice:a"⟩
  displayname := "alice"
  invitees := [(2, "bob")]
  roomId := "!g:a"
  eventIds n := "$" ++ toString n
  now := ""
  originTs := 0

def groupConfig : Config := namedConfig
  [("create", openGroup.createContent), ("join alice", joinMemberContent "alice"),
    ("invite bob", inviteMemberContent .group "bob"), ("join bob", joinMemberContent "bob"),
    ("levels", powerLevelsContent "@alice:a" .group 50),
    ("invite", .obj [("join_rule", .str "invite")]),
    ("shared", .obj [("history_visibility", .str "shared")]),
    ("encryption", .obj [("algorithm", .str "m.megolm.v1.aes-sha2")])]

theorem groupConfig_lawful : groupConfig.Lawful :=
  namedConfig_lawful (by decide) (by decide +kernel)

def bobJoins : RoomOp := .join ⟨"$join", "", 0⟩ "!g:a" ⟨2, "@bob:a"⟩ "bob"

/-- Bob is let in, by the invitation. -/
theorem movesByRule_run_openGroup :
    (∃ db, Trace.run (step groupConfig F3.simpleFederation) twoUsers [.create openGroup] = db ∧
      db.membershipOf "!g:a" 2 = some .invite ∧ joinRuleNow groupConfig db "!g:a" = some "invite" ∧
      (step groupConfig F3.simpleFederation db bobJoins).membershipOf "!g:a" 2 = some .join) ∧
    MovesByRule groupConfig
      (Trace.run (step groupConfig F3.simpleFederation) twoUsers [.create openGroup]) bobJoins
      (step groupConfig F3.simpleFederation
        (Trace.run (step groupConfig F3.simpleFederation) twoUsers [.create openGroup]) bobJoins) :=
  ⟨⟨_, rfl, by decide +kernel⟩, movesByRule_run groupConfig_lawful twoUsers_consistent ⟨rfl, rfl⟩
    (fun op hop => by rw [List.mem_singleton.1 hop]; trivial) bobJoins⟩

end Rooms

end Server
