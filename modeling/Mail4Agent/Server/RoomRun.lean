import Mail4Agent.Server.RoomOps

/-!
# The room machine

One step of the machine is one request of a known user about rooms. `Moves` lists what a
request can do, with everything it has checked before it writes; the properties of whole
runs follow from it case by case.
-/

namespace Server

open Transaction

namespace Rooms

inductive Moderation where
  | kick | ban | unban
deriving DecidableEq, Repr

def Moderation.change : Moderation → MembershipPowerAction
  | .kick => Rooms.kick
  | .ban => Rooms.ban
  | .unban => Rooms.unban

inductive RoomOp where
  | create (req : RoomCreate)
  | invite (stamp : Stamp) (roomId : String) (caller : Caller) (target : Int) (displayname : String)
  | join (stamp : Stamp) (roomId : String) (caller : Caller) (displayname : String)
  | leave (stamp : Stamp) (roomId : String) (caller : Caller)
  | moderate (moderation : Moderation) (stamp : Stamp) (roomId : String) (caller : Caller)
      (target : Int) (reason : Option String)
  | putState (stamp : Stamp) (roomId : String) (caller : Caller)
      (eventType key content : String)
  | forget (roomId : String) (caller : Caller)

def RoomOp.caller : RoomOp → Caller
  | create req => req.creator
  | invite _ _ caller _ _ | join _ _ caller _ | leave _ _ caller | moderate _ _ _ caller _ _
  | putState _ _ caller _ _ _ | forget _ caller => caller

/-- A request comes from a user the server knows under this name. -/
def authenticated (caller : Caller) : Tx Unit := do
  let mxid ← .query fun db => db.mxidOf caller.userId
  if mxid ≠ some caller.mxid then .refuse .internal

section

variable (cfg : Config) (fed : Federation)

def RoomOp.transaction : RoomOp → Tx Unit
  | create req => authenticated req.creator
  | invite stamp roomId caller target displayname => do
    authenticated caller
    let _ ← applyInvite cfg fed stamp roomId caller target displayname
  | join stamp roomId caller displayname => do
    authenticated caller
    let _ ← decideAndApplyJoin cfg fed stamp roomId caller displayname
  | leave stamp roomId caller => do
    authenticated caller
    let _ ← applyLeave cfg fed stamp roomId caller
  | moderate moderation stamp roomId caller target reason => do
    authenticated caller
    let _ ← applyMembershipPowerAction cfg fed moderation.change stamp roomId caller target reason
  | putState stamp roomId caller eventType key content => do
    authenticated caller
    let _ ← applyPutState cfg fed stamp roomId caller eventType key content
  | forget roomId caller => do
    authenticated caller
    applyForget roomId caller.userId

/-- Only the creation of a room commits more than once. -/
def RoomOp.apply (op : RoomOp) : Request Unit := do
  .commit (op.transaction cfg fed)
  match op with
  | create req => let _ ← applyCreateRoom cfg fed req
  | _ => return ()

def step (db : Db) (op : RoomOp) : Db := (op.apply cfg fed db).2

end

/-! ### What a request can do -/

/-- The state events of a new room, written one after another. -/
inductive PutsAll (cfg : Config) (roomId : String) : Db → List NewState → Db → Prop
  | nil (db : Db) : PutsAll cfg roomId db [] db
  | cons {db mid db' : Db} {event : NewState} {rest : List NewState}
      (first : Puts cfg db roomId event.eventType event.stateKey (cfg.render event.content) mid)
      (more : PutsAll cfg roomId mid rest db') : PutsAll cfg roomId db (event :: rest) db'

/-- The key of a direct room may have been freed. -/
def Freed (db db' : Db) : Prop :=
  ∃ dead : String → Bool, db' = { db with rooms := db.rooms.map (fun room =>
    if dead room.id then { room with dmPairKey := none } else room) }

inductive Moves (cfg : Config) (db : Db) : RoomOp → Db → Prop
  | same (op : RoomOp) : Moves cfg db op db
  | freed {req : RoomCreate} {db' : Db} (freed : Freed db db') : Moves cfg db (.create req) db'
  | created {req : RoomCreate} {kind : RoomKind} {inviteLevel : Int}
      {invitees : List (String × String)} {mid db' : Db} {dag : Dag.Tables}
      (known : db.mxidOf req.creator.userId = some req.creator.mxid)
      (others : ∀ invitee ∈ req.invitees, invitee.1 ≠ req.creator.userId)
      (freed : Freed db mid) (fresh : mid.getRoom req.roomId = none)
      (named : labelledInvitees mid req = some invitees)
      (puts : PutsAll cfg req.roomId
        { mid with rooms := mid.rooms ++ [req.room kind], dag := dag }
        (req.stateEvents kind inviteLevel invitees) db') : Moves cfg db (.create req) db'
  | invited {stamp : Stamp} {roomId mxid content : String} {caller : Caller} {target : Int}
      {displayname : String} {levels : Json} {db' : Db}
      (known : db.mxidOf caller.userId = some caller.mxid)
      (member : db.membershipOf roomId caller.userId = some .join)
      (current : db.powerLevelsOf cfg roomId = .ok levels)
      (power : Power.can levels .invite caller.mxid = true)
      (outside : checkInvitable (db.membershipOf roomId target) = .ok ())
      (named : db.mxidOf target = some mxid)
      (text : cfg.membership content = some .invite)
      (puts : Puts cfg db roomId "m.room.member" mxid content db') :
      Moves cfg db (.invite stamp roomId caller target displayname) db'
  | joined {stamp : Stamp} {roomId content displayname : String} {caller : Caller} {room : Room}
      {db' : Db} (known : db.mxidOf caller.userId = some caller.mxid)
      (stored : db.getRoom roomId = some room)
      (outside : db.membershipOf roomId caller.userId ≠ some .join)
      (admitted : checkJoin cfg db room caller.userId = .ok ())
      (text : cfg.membership content = some .join)
      (puts : Puts cfg db roomId "m.room.member" caller.mxid content db') :
      Moves cfg db (.join stamp roomId caller displayname) db'
  | left {stamp : Stamp} {roomId content : String} {caller : Caller} {db' : Db}
      (known : db.mxidOf caller.userId = some caller.mxid)
      (active : db.membershipOf roomId caller.userId = some .join ∨
        db.membershipOf roomId caller.userId = some .invite)
      (text : cfg.membership content = some .leave)
      (puts : Puts cfg db roomId "m.room.member" caller.mxid content db') :
      Moves cfg db (.leave stamp roomId caller) db'
  | moderated {moderation : Moderation} {stamp : Stamp} {roomId mxid content : String}
      {caller : Caller} {target : Int} {reason : Option String} {levels : Json} {db' : Db}
      (known : db.mxidOf caller.userId = some caller.mxid)
      (member : db.membershipOf roomId caller.userId = some .join)
      (current : db.powerLevelsOf cfg roomId = .ok levels)
      (named : db.mxidOf target = some mxid)
      (power : Power.canActOn levels moderation.change.action caller.mxid mxid
        (moderation.change.newMembership = .leave) = true)
      (rule : checkTargetStateRule moderation.change.targetRule (db.membershipOf roomId target) =
        .ok ())
      (text : cfg.membership content = some moderation.change.newMembership)
      (puts : Puts cfg db roomId "m.room.member" mxid content db') :
      Moves cfg db (.moderate moderation stamp roomId caller target reason) db'
  | put {stamp : Stamp} {roomId eventType key content : String} {caller : Caller} {db' : Db}
      (known : db.mxidOf caller.userId = some caller.mxid)
      (checked : checkPutState cfg db roomId caller eventType key content = .ok ())
      (puts : Puts cfg db roomId eventType key content db') :
      Moves cfg db (.putState stamp roomId caller eventType key content) db'
  | forgot {roomId : String} {caller : Caller}
      (known : db.mxidOf caller.userId = some caller.mxid)
      (leftRoom : db.membershipOf roomId caller.userId = some .leave) :
      Moves cfg db (.forget roomId caller) { db with roomMembers := db.roomMembers.filter fun m =>
        ¬ (m.roomId = roomId ∧ m.userId = caller.userId ∧ m.membership = .leave) }

section Moves

variable {cfg : Config} {fed : Federation} {db db' : Db}

variable {u : Unit} {op : RoomOp} {req : RoomCreate}

theorem authenticated_ok {caller : Caller} :
    authenticated caller db = .ok (u, db') ↔
      db.mxidOf caller.userId = some caller.mxid ∧ db = db' := by
  unfold authenticated
  simp only [bind_ok, query_ok]
  constructor
  · rintro ⟨_, _, ⟨rfl, rfl⟩, h⟩
    split_ifs at h with hmxid
    · simp at h
    · exact ⟨not_not.1 hmxid, (pure_ok.1 h).2⟩
  · rintro ⟨hmxid, rfl⟩
    exact ⟨_, _, ⟨rfl, rfl⟩, by simp [hmxid]⟩

theorem membership_render (lawful : cfg.Lawful) {content : Json} {membership : Membership}
    (h : (content.get? "membership").bind Json.asStr? = some membership.asStr) :
    cfg.membership (cfg.render content) = some membership := by
  cases hfield : content.get? "membership" <;>
    simp_all [Config.membership, lawful.field_render]

theorem putState_ok (lawful : cfg.Lawful) {stamp : Stamp} {roomId eventType key content : String}
    {caller : Caller}
    (h : (RoomOp.putState stamp roomId caller eventType key content).transaction cfg fed db =
      .ok (u, db')) :
    db.mxidOf caller.userId = some caller.mxid ∧
      checkPutState cfg db roomId caller eventType key content = .ok () ∧
      Puts cfg db roomId eventType key content db' := by
  simp only [RoomOp.transaction, applyPutState, bind_ok, authenticated_ok,
    pure_ok] at h
  obtain ⟨_, _, ⟨known, rfl⟩, _, _, h, -, rfl⟩ := h
  split_ifs at h
  · simp at h
  · simp only [bind_ok, query_ok, required_ok,
      lift_ok, pure_ok] at h
    obtain ⟨_, _, ⟨rfl, rfl⟩, room, _, ⟨-, rfl⟩, _, _, ⟨hchecked, rfl⟩, _, _, hwrite, _, _,
      ⟨-, rfl⟩, -, rfl⟩ := h
    exact ⟨known, hchecked, writeState_puts lawful hwrite⟩

/-- What one transaction of an operation does. -/
theorem transaction_moves (lawful : cfg.Lawful) (h : op.transaction cfg fed db = .ok (u, db')) :
    Moves cfg db op db' := by
  cases op with
  | create req =>
    obtain ⟨-, rfl⟩ := authenticated_ok.1 h
    exact .same _
  | invite stamp roomId caller target displayname =>
    simp only [RoomOp.transaction, applyInvite, bind_ok, authenticated_ok,
      query_ok, required_ok, lift_ok, pure_ok] at h
    obtain ⟨_, _, ⟨known, rfl⟩, _, _, ⟨_, _, ⟨rfl, rfl⟩, room, _, ⟨-, rfl⟩, _, _, ⟨hmember, rfl⟩,
      levels, _, ⟨hlevels, rfl⟩, _, _, ⟨hpower, rfl⟩, _, _, ⟨houtside, rfl⟩, mxid, _,
      ⟨hmxid, rfl⟩, _, _, hwrite, _, _, ⟨-, rfl⟩, -, rfl⟩, -, rfl⟩ := h
    exact .invited known (requireMember_ok.1 hmember) hlevels (requirePower_ok.1 hpower) houtside
      hmxid (membership_render lawful asStr?_inviteMemberContent) (writeState_puts lawful hwrite)
  | join stamp roomId caller displayname =>
    simp only [RoomOp.transaction, decideAndApplyJoin, bind_ok, authenticated_ok,
      query_ok, required_ok, lift_ok, pure_ok] at h
    obtain ⟨_, _, ⟨known, rfl⟩, _, _, ⟨_, _, ⟨rfl, rfl⟩, room, _, ⟨hroom, rfl⟩, _, _,
      ⟨hadmitted, rfl⟩, h⟩, -, rfl⟩ := h
    split_ifs at h with hjoined
    · obtain ⟨-, rfl⟩ := pure_ok.1 h
      exact .same _
    · simp only [applyJoin, bind_ok, query_ok, pure_ok] at h
      obtain ⟨_, _, ⟨_, _, hwrite, -, rfl⟩, -, rfl⟩ := h
      exact .joined known hroom hjoined hadmitted
        (membership_render lawful asStr?_joinMemberContent) (writeState_puts lawful hwrite)
  | leave stamp roomId caller =>
    simp only [RoomOp.transaction, applyLeave, bind_ok, authenticated_ok,
      query_ok, pure_ok] at h
    obtain ⟨_, _, ⟨known, rfl⟩, _, _, ⟨_, _, ⟨rfl, rfl⟩, h⟩, -, rfl⟩ := h
    split_ifs at h with hactive
    · simp at h
    · simp only [bind_ok, pure_ok] at h
      obtain ⟨_, _, hwrite, -, rfl⟩ := h
      rw [not_and_or, not_not, not_not] at hactive
      exact .left known hactive (membership_render lawful asStr?_membership)
        (writeState_puts lawful hwrite)
  | moderate moderation stamp roomId caller target reason =>
    simp only [RoomOp.transaction, applyMembershipPowerAction, bind_ok,
      authenticated_ok, query_ok, required_ok, lift_ok,
      pure_ok] at h
    obtain ⟨_, _, ⟨known, rfl⟩, _, _, ⟨_, _, ⟨rfl, rfl⟩, _, _, ⟨hmember, rfl⟩, levels, _,
      ⟨hlevels, rfl⟩, mxid, _, ⟨hmxid, rfl⟩, _, _, ⟨hpower, rfl⟩, _, _, ⟨hrule, rfl⟩, _, _, hwrite,
      _, _, ⟨-, rfl⟩, -, rfl⟩, -, rfl⟩ := h
    exact .moderated known (requireMember_ok.1 hmember) hlevels hmxid
      (requirePowerOverTarget_ok.1 hpower) hrule (membership_render lawful asStr?_membership)
      (writeState_puts lawful hwrite)
  | putState stamp roomId caller eventType key content =>
    obtain ⟨known, checked, puts⟩ := putState_ok lawful h
    exact .put known checked puts
  | forget roomId caller =>
    simp only [RoomOp.transaction, applyForget, bind_ok, authenticated_ok,
      query_ok] at h
    obtain ⟨_, _, ⟨known, rfl⟩, _, _, ⟨rfl, rfl⟩, h⟩ := h
    split_ifs at h with hleft
    · simp at h
    · obtain rfl := change_ok.1 h
      exact .forgot known (not_not.1 hleft)

theorem Freed.refl (db : Db) : Freed db db := ⟨fun _ => false, by simp⟩

theorem findReusableDmRoom_freed {key : String} {a b : Int} {found : Option String}
    (h : findReusableDmRoom key a b db = .ok (found, db')) : Freed db db' := by
  simp only [findReusableDmRoom, bind_ok, query_ok] at h
  obtain ⟨_, _, ⟨rfl, rfl⟩, h⟩ := h
  cases hfound : (id db).rooms.find? fun room => room.dmPairKey = some key with
  | none =>
    rw [hfound] at h
    obtain ⟨-, rfl⟩ := pure_ok.1 h
    exact .refl _
  | some room =>
    rw [hfound] at h
    dsimp only at h
    split_ifs at h
    · obtain ⟨-, rfl⟩ := pure_ok.1 h
      exact .refl _
    · simp only [bind_ok, change_ok, pure_ok] at h
      obtain ⟨_, _, rfl, -, rfl⟩ := h
      exact ⟨fun id => id = room.id, by simp⟩

theorem putNewState_putsAll (lawful : cfg.Lawful) {n : Nat} {events : List NewState}
    (h : putNewState cfg fed req n events db = .ok (u, db')) :
    PutsAll cfg req.roomId db events db' := by
  induction events generalizing n db with
  | nil =>
    obtain ⟨-, rfl⟩ := pure_ok.1 h
    exact .nil _
  | cons event rest ih =>
    simp only [putNewState, bind_ok] at h
    obtain ⟨_, mid, hwrite, hrest⟩ := h
    exact .cons (writeState_puts lawful hwrite) (ih hrest)

theorem createRoomWithState_ok (lawful : cfg.Lawful) {kind : RoomKind} {events : List NewState}
    (h : createRoomWithState cfg fed req kind events db = .ok (u, db')) :
    db.getRoom req.roomId = none ∧ ∃ dag, PutsAll cfg req.roomId
      { db with rooms := db.rooms ++ [req.room kind], dag := dag } events db' := by
  simp only [createRoomWithState, insertRoomRow, bind_ok, query_ok] at h
  obtain ⟨_, _, ⟨_, _, ⟨rfl, rfl⟩, h⟩, hrest⟩ := h
  split_ifs at h with htaken
  · simp at h
  · obtain rfl := change_ok.1 h
    refine ⟨?_, ?_⟩
    · have : ¬ (db.getRoom (req.room kind).id).isSome = true :=
        fun hsome => htaken (by simp [hsome])
      simpa [RoomCreate.room] using this
    · split_ifs at hrest
      · simp only [bind_ok, change_ok] at hrest
        obtain ⟨_, _, rfl, hputs⟩ := hrest
        exact ⟨_, putNewState_putsAll lawful hputs⟩
      · exact ⟨db.dag, putNewState_putsAll lawful hrest⟩

theorem reuseDirectRoom_freed {kind : RoomKind} {found : Option String}
    (h : reuseDirectRoom req kind db = .ok (found, db')) : Freed db db' := by
  have hnone (h : (pure none : Tx (Option String)) db = .ok (found, db')) : Freed db db' := by
    obtain ⟨-, rfl⟩ := pure_ok.1 h
    exact .refl _
  cases kind with
  | dm =>
    simp only [reuseDirectRoom] at h
    cases hpeer : req.invitees.head? with
    | none =>
      rw [hpeer] at h
      exact hnone h
    | some peer =>
      rw [hpeer] at h
      exact findReusableDmRoom_freed h
  | group => exact hnone h
  | channel => exact hnone h

theorem checkCreate_others {result : RoomKind × Int} (h : checkCreate req = .ok result) :
    ∀ invitee ∈ req.invitees, invitee.1 ≠ req.creator.userId := by
  intro invitee hmem heq
  have hself : (req.invitees.any fun invitee => invitee.1 = req.creator.userId) = true :=
    List.any_eq_true.2 ⟨invitee, hmem, decide_eq_true heq⟩
  simp [checkCreate, hself] at h

/-- What creating a room does: nothing, freeing the key of a direct room, or the new room. -/
theorem applyCreateRoom_moves (lawful : cfg.Lawful)
    (known : db.mxidOf req.creator.userId = some req.creator.mxid) :
    Moves cfg db (.create req) (applyCreateRoom cfg fed req db).2 := by
  unfold applyCreateRoom
  cases hcheck : checkCreate req with
  | error e => exact .same _
  | ok result =>
    refine Session.commit_bind (P := Moves cfg db (.create req)) (.same _) ?_
    intro found mid hreuse
    have hfreed := reuseDirectRoom_freed hreuse
    cases found with
    | some room => exact .freed hfreed
    | none =>
      refine Session.commit_bind (P := Moves cfg db (.create req)) (.freed hfreed) ?_
      intro _ db' hnew
      simp only [newRoom, bind_ok, query_ok, required_ok] at hnew
      obtain ⟨_, _, ⟨rfl, rfl⟩, invitees, _, ⟨hinvitees, rfl⟩, hcreated⟩ := hnew
      obtain ⟨hfresh, dag, hputs⟩ := createRoomWithState_ok lawful hcreated
      exact .created known (checkCreate_others hcheck) hfreed hfresh hinvitees hputs

/-- Every request but a creation is one transaction. -/
theorem step_eq_settle (hop : ∀ req, op ≠ .create req) (db : Db) :
    step cfg fed db op = (op.transaction cfg fed).settle db := by
  have happly : op.apply cfg fed = (do .commit (op.transaction cfg fed); return ()) := by
    cases op with
    | create req => exact absurd rfl (hop req)
    | _ => rfl
  rw [step, happly]
  cases htx : op.transaction cfg fed db with
  | error e => simp [Bind.bind, Session.commit, htx, settle]
  | ok result => simp [Bind.bind, Session.commit, htx, settle, pure]

/-- What one request does. -/
theorem step_moves (lawful : cfg.Lawful) (db : Db) (op : RoomOp) :
    Moves cfg db op (step cfg fed db op) := by
  cases op with
  | create req =>
    refine Session.commit_bind (P := Moves cfg db (.create req)) (.same _) fun _ mid htx => ?_
    obtain ⟨known, rfl⟩ := authenticated_ok.1 htx
    have hmoves : Moves cfg db (.create req) (applyCreateRoom cfg fed req db).2 :=
      applyCreateRoom_moves lawful known
    simp only [Bind.bind]
    cases hcreate : applyCreateRoom cfg fed req db with
    | mk result last =>
      rw [hcreate] at hmoves
      cases result <;> exact hmoves
  | _ =>
    rw [step_eq_settle fun _ => by simp]
    rcases settle_cases (RoomOp.transaction cfg fed _) db with
      ⟨e, -, hsame⟩ | ⟨u, hok⟩
    · rw [hsame]
      exact .same _
    · exact transaction_moves lawful hok

end Moves

/-! ### What stays the same -/

section Frame

variable {cfg : Config} {fed : Federation} {db db' : Db} {roomId : String}

/-- Freeing a key changes nothing else about a room. -/
theorem Freed.map_getRoom {α : Type} {f : Room → α} (h : Freed db db')
    (hf : ∀ room : Room, f { room with dmPairKey := none } = f room) (r : String) :
    (db'.getRoom r).map f = (db.getRoom r).map f := by
  obtain ⟨dead, rfl⟩ := h
  have hid (room : Room) : (if dead room.id then { room with dmPairKey := none } else room).id =
      room.id := by
    split_ifs <;> rfl
  simp only [Db.getRoom, List.find?_map, Function.comp_def, hid, Option.map_map]
  congr 1
  funext room
  split_ifs
  · exact hf room
  · rfl

theorem Freed.getRoom_eq_none (h : Freed db db') (r : String) :
    db'.getRoom r = none ↔ db.getRoom r = none := by
  have := h.map_getRoom (f := fun _ => ()) (fun _ => rfl) r
  rw [← Option.map_eq_none_iff (f := fun _ => ()), this, Option.map_eq_none_iff]

theorem Freed.consistent (h : Freed db db') (consistent : db.Consistent) : db'.Consistent := by
  have hrooms := h.getRoom_eq_none
  obtain ⟨dead, rfl⟩ := h
  exact {
    users := consistent.users
    members := consistent.members
    stored := consistent.stored
    slotRooms := fun r k hslot hnone => consistent.slotRooms r k hslot ((hrooms r).1 hnone)
    memberRooms := fun r u hmember hnone =>
      consistent.memberRooms r u hmember ((hrooms r).1 hnone) }

theorem getRoom_snoc (room : Room) (dag : Dag.Tables) (r : String) :
    ({ db with rooms := db.rooms ++ [room], dag := dag } : Db).getRoom r =
      (db.getRoom r).or (if room.id = r then some room else none) := by
  simp only [Db.getRoom, List.find?_append, List.find?_singleton, decide_eq_true_eq]

theorem consistent_snoc (room : Room) (dag : Dag.Tables) (consistent : db.Consistent) :
    ({ db with rooms := db.rooms ++ [room], dag := dag } : Db).Consistent where
  users := consistent.users
  members := consistent.members
  stored := consistent.stored
  slotRooms r k hslot hnone := by
    rw [getRoom_snoc, Option.or_eq_none_iff] at hnone
    exact consistent.slotRooms r k hslot hnone.1
  memberRooms r u hmember hnone := by
    rw [getRoom_snoc, Option.or_eq_none_iff] at hnone
    exact consistent.memberRooms r u hmember hnone.1

namespace PutsAll

variable {events : List NewState}

section

variable (h : PutsAll cfg roomId db events db')

include h

theorem consistent (hdb : db.Consistent) :
    db'.Consistent := by
  induction h with
  | nil => exact hdb
  | cons first _ ih => exact ih (first.consistent hdb)

theorem getRoom (r : String) :
    db'.getRoom r = db.getRoom r := by
  induction h with
  | nil => rfl
  | cons first _ ih => rw [ih, first.getRoom]

/-- A membership that has changed is the one of an event about the user. -/
theorem membershipOf (r : String) (u : Int) :
    db'.membershipOf r u = db.membershipOf r u ∨ ∃ event ∈ events,
      event.eventType = "m.room.member" ∧ roomId = r ∧ db.userIdOf event.stateKey = some u ∧
        db'.membershipOf r u = cfg.membership (cfg.render event.content) := by
  induction h with
  | nil => exact .inl rfl
  | @cons db mid db' head rest first more ih =>
    rcases ih with hsame | ⟨event, hmem, htype, hroom, huser, hmembership⟩
    · rw [hsame, first.membershipOf]
      split_ifs with hrow
      · exact .inr ⟨head, List.mem_cons_self, hrow.1, hrow.2.1, hrow.2.2, rfl⟩
      · exact .inl rfl
    · rw [first.userIdOf] at huser
      exact .inr ⟨event, List.mem_cons_of_mem _ hmem, htype, hroom, huser, hmembership⟩

end

variable {r : String}

section

variable (h : PutsAll cfg roomId db events db')

include h

/-- Nothing of another room changes. -/
theorem membershipOf_other (hr : r ≠ roomId) (u : Int) :
    db'.membershipOf r u = db.membershipOf r u := by
  rcases h.membershipOf r u with hsame | ⟨-, -, -, hroom, -⟩
  · exact hsame
  · exact absurd hroom.symm hr

theorem stateField_other (hdb : db.Consistent) {name : String} (hcreator : name ≠ "creator")
    (hvia : name ≠ "join_authorised_via_users_server") (hr : r ≠ roomId) (t k : String) :
    db'.stateField cfg r t k name = db.stateField cfg r t k name := by
  induction h with
  | nil => rfl
  | cons first _ ih =>
    rw [ih (first.consistent hdb), first.stateField hdb hcreator hvia,
      if_neg fun hslot => hr hslot.1.symm]

/-- A slot that no event is for keeps its holder. -/
theorem stateField_skip (hdb : db.Consistent) {name : String} (hcreator : name ≠ "creator")
    (hvia : name ≠ "join_authorised_via_users_server") {t k : String}
    (hskip : ∀ event ∈ events, ¬ (event.eventType = t ∧ event.stateKey = k)) (r : String) :
    db'.stateField cfg r t k name = db.stateField cfg r t k name := by
  induction h with
  | nil => rfl
  | cons first _ ih =>
    obtain ⟨hfirst, hrest⟩ := List.forall_mem_cons.1 hskip
    rw [ih (first.consistent hdb) hrest, first.stateField hdb hcreator hvia,
      if_neg fun hslot => hfirst hslot.2]

end

/-- The only event for a slot holds it. -/
theorem stateField_of_mem (lawful : cfg.Lawful) (h : PutsAll cfg roomId db events db')
    (hdb : db.Consistent) {name : String} (hcreator : name ≠ "creator")
    (hvia : name ≠ "join_authorised_via_users_server") {event : NewState} (hmem : event ∈ events)
    (honly : ∀ other ∈ events,
      other.eventType = event.eventType ∧ other.stateKey = event.stateKey → other = event) :
    db'.stateField cfg roomId event.eventType event.stateKey name =
      (event.content.get? name).map Json.canonical := by
  induction h with
  | nil => cases hmem
  | @cons db mid db' head rest first more ih =>
    have hmid := first.consistent hdb
    by_cases hlater : event ∈ rest
    · exact ih hmid hlater fun other hother => honly other (List.mem_cons_of_mem _ hother)
    · obtain rfl : event = head := (List.mem_cons.1 hmem).resolve_right hlater
      have hskip : ∀ other ∈ rest,
          ¬ (other.eventType = event.eventType ∧ other.stateKey = event.stateKey) :=
        fun other hother hslot =>
          hlater (honly other (List.mem_cons_of_mem _ hother) hslot ▸ hother)
      rw [more.stateField_skip hmid hcreator hvia hskip, first.stateField hdb hcreator hvia,
        if_pos ⟨rfl, rfl, rfl⟩]
      exact lawful.field_render event.content name

end PutsAll

theorem roomMember_forget (consistent : db.Consistent) {userId : Int}
    (hleft : db.membershipOf roomId userId = some .leave) (r : String) (u : Int) :
    ({ db with roomMembers := db.roomMembers.filter fun m =>
      ¬ (m.roomId = roomId ∧ m.userId = userId ∧ m.membership = .leave) } : Db).membershipOf r u =
        if roomId = r ∧ userId = u then none else db.membershipOf r u := by
  unfold Db.membershipOf Db.roomMember
  rw [List.find?_filter]
  split_ifs with hkey
  · obtain ⟨rfl, rfl⟩ := hkey
    rw [Option.map_eq_none_iff, List.find?_eq_none]
    intro m hm hkept
    obtain ⟨row, hrow, hleave⟩ := Option.map_eq_some_iff.1 hleft
    have hfound := List.find?_some hrow
    simp only [decide_eq_true_eq] at hkept hfound
    obtain rfl := consistent.members m hm row (List.mem_of_find?_eq_some hrow)
      (hkept.2.1.trans hfound.1.symm) (hkept.2.2.trans hfound.2.symm)
    exact hkept.1 ⟨hfound.1, hfound.2, hleave⟩
  · congr 1
    refine List.find?_congr fun m _ => ?_
    rw [Bool.eq_iff_iff]
    simp only [decide_eq_true_eq]
    constructor
    · exact fun h => h.2
    · rintro ⟨rfl, rfl⟩
      exact ⟨fun h => hkey ⟨h.1.symm, h.2.1.symm⟩, rfl, rfl⟩

theorem consistent_forget (consistent : db.Consistent) {userId : Int}
    (hleft : db.membershipOf roomId userId = some .leave) :
    ({ db with roomMembers := db.roomMembers.filter fun m =>
      ¬ (m.roomId = roomId ∧ m.userId = userId ∧ m.membership = .leave) } : Db).Consistent :=
  { consistent with
    members := fun a ha b hb => consistent.members a (List.mem_of_mem_filter ha) b
      (List.mem_of_mem_filter hb)
    memberRooms := fun r u hmember => by
      rw [roomMember_forget consistent hleft] at hmember
      split_ifs at hmember
      · exact absurd rfl hmember
      · exact consistent.memberRooms r u hmember }

theorem Moves.consistent {op : RoomOp} (h : Moves cfg db op db') (consistent : db.Consistent) :
    db'.Consistent := by
  cases h with
  | same => exact consistent
  | freed freed => exact freed.consistent consistent
  | created _ _ freed _ _ puts =>
    exact puts.consistent (consistent_snoc _ _ (freed.consistent consistent))
  | invited _ _ _ _ _ _ _ puts => exact puts.consistent consistent
  | joined _ _ _ _ _ puts => exact puts.consistent consistent
  | left _ _ _ puts => exact puts.consistent consistent
  | moderated _ _ _ _ _ _ _ puts => exact puts.consistent consistent
  | put _ _ puts => exact puts.consistent consistent
  | forgot known leftRoom => exact consistent_forget consistent leftRoom

end Frame

/-! ### Runs that can be evaluated -/

/-- The texts of these documents are their names. -/
def namedConfig (docs : List (String × Json)) : Config where
  parse := JsonText.parseNamed docs
  render := JsonText.renderNamed docs
  nowMs := 0

theorem namedConfig_lawful {docs : List (String × Json)} (hnames : (docs.map Prod.fst).Nodup)
    (htexts : ∀ doc ∈ docs, JsonText.parse doc.1 = none) : (namedConfig docs).Lawful :=
  ⟨fun v => congrArg (Option.map Json.canonical)
    (JsonText.parseNamed_renderNamed docs hnames htexts v)⟩

def twoUsers : Db := { matrixUsers := [⟨1, "@alice:a"⟩, ⟨2, "@bob:a"⟩] }

theorem twoUsers_consistent : twoUsers.Consistent where
  users userId mxid := by
    simp only [Db.mxidOf, Db.userIdOf, twoUsers, List.find?]
    grind
  members a ha := by cases ha
  stored roomId key eventId h := by simp [F3.slotHolder, twoUsers] at h
  slotRooms roomId key h := absurd rfl h
  memberRooms roomId userId h := absurd rfl h

end Rooms

end Server
