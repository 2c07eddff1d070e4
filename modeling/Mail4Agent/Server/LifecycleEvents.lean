import Mail4Agent.Server.IdentityRun

/-!
# Delivery of lifecycle events

The handler of a lifecycle event commits several times: it marks the event as seen, makes its
changes, and restamps the display names of a renamed user; a refused change takes the mark back.
Each commit is a state here, and a crash ends a delivery after any number of them. A marked event is
answered as done. A restamp can be refused after its rename was committed, and then only the mark is
taken back.
-/

namespace Server.Identities

inductive EventKind where
  | credentialRevoked (credRef : String)
  | accountDeleted (nick : String)
  | nickChanged (old new : String)
deriving DecidableEq

/-- The label in a current member event, and what its room answers to a new event of the same sender
in its place: in a room with rules an inviter who left can no longer renew the invite. -/
structure MemberName where
  roomId : String
  userId : Int
  displayname : String
  refusal : Option MatrixError
deriving DecidableEq

structure EventDb where
  store : Store
  accountEventsSeen : List String
  memberNames : List MemberName
deriving DecidableEq

namespace EventDb

variable (server : String) (db : EventDb)

/-- Every member event of the user gets the name, in one transaction; one that has it is left. -/
def refreshMemberDisplayname (userId : Int) (displayname : String) : Except MatrixError EventDb :=
  if displayname = "" then .ok db
  else
    match db.memberNames.findSome? fun row =>
        if row.userId = userId ∧ row.displayname ≠ displayname then row.refusal else none with
    | some e => .error e
    | none => .ok { db with memberNames := db.memberNames.map fun row =>
        if row.userId = userId then { row with displayname } else row }

/-- The nick is read back from the identity. -/
def restamp (userId : Int) : Except MatrixError EventDb :=
  (db.store.identityById userId).elim (.ok db) fun idn =>
    db.refreshMemberDisplayname userId idn.nick

/-- The whole effect of an event. -/
def effect : EventKind → Except MatrixError EventDb
  | .credentialRevoked credRef =>
    .ok { db with store := (db.store.applyCredentialRevoked credRef).2 }
  | .accountDeleted nick => .ok { db with store := (db.store.applyAccountDeleted nick).2 }
  | .nickChanged old new => do
    let (id, store) ← db.store.applyNickChanged server old new
    id.elim (.ok { db with store }) { db with store }.restamp

/-- The states after each of the commits that an event's change is made of. -/
def changeCommits : EventKind → List EventDb
  | .credentialRevoked credRef => [{ db with store := (db.store.applyCredentialRevoked credRef).2 }]
  | .accountDeleted nick =>
    match db.store.identityByNick nick with
    | none => []
    | some idn =>
      -- one commit for each device, then one for the identity
      ((db.store.listDevices idn.id).inits.tail.map fun devices =>
        { db with store := db.store.deleteDevices devices }) ++
          [{ db with store := (db.store.applyAccountDeleted nick).2 }]
  | .nickChanged old new =>
    match db.store.applyNickChanged server old new with
    | .ok (some id, store) => { db with store } :: ({ db with store }.restamp id).toOption.toList
    | _ => []

def mark (id : String) : EventDb :=
  { db with accountEventsSeen := db.accountEventsSeen ++ [id] }

def unmark (id : String) : EventDb :=
  { db with accountEventsSeen := db.accountEventsSeen.filter (· ≠ id) }

/-- The commits of a delivery, and its answer. -/
def lifecycleEvent (id : String) (kind : EventKind) : List EventDb × Except MatrixError Unit :=
  if id = "" then ([], .error (.badJson "missing id"))
  else if id ∈ db.accountEventsSeen then ([], .ok ())
  else
    let states := (db.mark id).changeCommits server kind
    match (db.mark id).effect server kind with
    | .ok _ => (db.mark id :: states, .ok ())
    | .error e => (db.mark id :: states ++ [(states.getLastD (db.mark id)).unmark id], .error e)

variable {server} {db}

/-- A rename finds nobody, is refused, or is committed and followed by the restamp. -/
theorem nickChanged_cases (old new : String) :
    (db.effect server (.nickChanged old new) = .ok db ∧
      db.changeCommits server (.nickChanged old new) = []) ∨
    (∃ e, db.effect server (.nickChanged old new) = .error e ∧
      db.changeCommits server (.nickChanged old new) = []) ∨
    ∃ idn store, db.store.identityByNick old = some idn ∧
      db.store.renameIn server idn.id new = .ok store ∧
      db.effect server (.nickChanged old new) = { db with store }.restamp idn.id ∧
      db.changeCommits server (.nickChanged old new) =
        { db with store } :: ({ db with store }.restamp idn.id).toOption.toList := by
  cases hidn : db.store.identityByNick old with
  | none =>
    left
    simp only [effect, changeCommits, Store.applyNickChanged, hidn, and_true]
    rfl
  | some idn =>
    right
    cases hrename : db.store.renameIn server idn.id new with
    | error e =>
      left
      simp only [effect, changeCommits, Store.applyNickChanged, hidn, hrename]
      exact ⟨e, rfl, rfl⟩
    | ok store =>
      right
      refine ⟨idn, store, rfl, hrename, ?_⟩
      simp only [effect, changeCommits, Store.applyNickChanged, hidn, hrename]
      exact ⟨rfl, rfl⟩

/-- The commits of a change end with its whole effect. -/
theorem getLastD_changeCommits {kind : EventKind} {after : EventDb}
    (h : db.effect server kind = .ok after) :
    (db.changeCommits server kind).getLastD db = after := by
  cases kind with
  | credentialRevoked credRef => exact Except.ok.inj h
  | accountDeleted nick =>
    cases h
    cases hidn : db.store.identityByNick nick with
    | none => simp [changeCommits, Store.applyAccountDeleted, hidn]
    | some idn =>
      simp only [changeCommits, hidn]
      rw [List.getLastD_concat]
  | nickChanged old new =>
    rcases @nickChanged_cases server db old new with
      ⟨hsame, hnone⟩ | ⟨e, hrefused, -⟩ | ⟨idn, store, -, -, heffect, hcommits⟩
    · rw [hnone]
      exact Except.ok.inj (hsame.symm.trans h)
    · rw [hrefused] at h
      cases h
    · rw [hcommits, ← heffect, h]
      rfl

/-- A restamp goes through if no room refuses to renew a member event that has another name. -/
theorem restamp_ok {userId : Int} (h : ∀ idn, db.store.identityById userId = some idn →
    ∀ row ∈ db.memberNames, row.userId = userId → row.displayname ≠ idn.nick →
      row.refusal = none) : ∃ after, db.restamp userId = .ok after := by
  unfold restamp
  cases hidn : db.store.identityById userId with
  | none => exact ⟨db, rfl⟩
  | some idn =>
    simp only [Option.elim_some, refreshMemberDisplayname]
    split_ifs
    · exact ⟨db, rfl⟩
    · have hnone : (db.memberNames.findSome? fun row => if row.userId = userId ∧
          row.displayname ≠ idn.nick then row.refusal else none) = none := by
        rw [List.findSome?_eq_none_iff]
        intro row hrow
        split_ifs with hother
        · exact h idn hidn row hrow hother.1 hother.2
        · rfl
      rw [hnone]
      exact ⟨_, rfl⟩

theorem restamp_seen {userId : Int} {after : EventDb} (h : db.restamp userId = .ok after) :
    after.accountEventsSeen = db.accountEventsSeen := by
  unfold restamp at h
  cases hidn : db.store.identityById userId with
  | none =>
    rw [hidn] at h
    cases h
    rfl
  | some idn =>
    simp only [hidn, Option.elim_some, refreshMemberDisplayname] at h
    split at h
    · cases h
      rfl
    · split at h <;> cases h
      rfl

theorem unmark_mark {id : String} (h : id ∉ db.accountEventsSeen) :
    (db.mark id).unmark id = db := by
  have hkept : db.accountEventsSeen.filter (· ≠ id) = db.accountEventsSeen := by
    rw [List.filter_eq_self]
    intro other hother
    simpa using fun heq : other = id => h (heq ▸ hother)
  have hmarks : (db.accountEventsSeen ++ [id]).filter (· ≠ id) = db.accountEventsSeen := by
    rw [List.filter_append, hkept]
    simp
  rw [mark, unmark, hmarks]

/-- No change touches the marks. -/
theorem effect_seen {after : EventDb} {kind : EventKind} (h : db.effect server kind = .ok after) :
    after.accountEventsSeen = db.accountEventsSeen := by
  cases kind with
  | credentialRevoked credRef =>
    cases h
    rfl
  | accountDeleted nick =>
    cases h
    rfl
  | nickChanged old new =>
    rcases @nickChanged_cases server db old new with
      ⟨hsame, -⟩ | ⟨e, hrefused, -⟩ | ⟨idn, store, -, -, heffect, -⟩
    · rw [hsame] at h
      cases h
      rfl
    · rw [hrefused] at h
      cases h
    · rw [heffect] at h
      have hseen := restamp_seen h
      exact hseen

end EventDb

/-! ### Deliveries, redeliveries and crashes -/

/-- The database, the events that were answered with 200, those whose whole effect was committed,
with the states before and after it, and those of which a delivery left something else behind. -/
structure Deliveries where
  db : EventDb
  answered : List String
  applied : List (String × EventDb × EventDb)
  partly : List String
deriving DecidableEq

inductive Delivery where
  | deliver (id : String)
  /-- The process stops after some commits; no answer is sent. -/
  | crash (id : String) (commits : Nat)
  /-- Between two deliveries the member events of the rooms become others. -/
  | rooms (memberNames : List MemberName)

namespace Deliveries

-- an identifier is that of one event
variable (server : String) (kinds : String → EventKind) (w : Deliveries)

def start (store : Store) (memberNames : List MemberName) : Deliveries :=
  ⟨⟨store, [], memberNames⟩, [], [], []⟩

def handle (id : String) : List EventDb × Except MatrixError Unit :=
  w.db.lifecycleEvent server id (kinds id)

/-- The database after some of the commits. -/
def reached (id : String) (commits : Nat) : EventDb :=
  ((w.handle server kinds id).1.take commits).getLastD w.db

def finished (id : String) : EventDb := (w.handle server kinds id).1.getLastD w.db

/-- A first delivery has taken its effect when its last state is reached. -/
def Takes (id : String) (commits : Nat) : Prop :=
  id ∉ w.db.accountEventsSeen ∧ (w.handle server kinds id).2.isOk = true ∧
    w.reached server kinds id commits = w.finished server kinds id

instance (id : String) (commits : Nat) : Decidable (w.Takes server kinds id commits) :=
  inferInstanceAs (Decidable (_ ∧ _ ∧ _))

/-- A delivery that ends otherwise may have changed more than the marks. -/
def commit (id : String) (commits : Nat) : Deliveries :=
  let db := w.reached server kinds id commits
  { w with
    db
    applied :=
      if w.Takes server kinds id commits then w.applied ++ [(id, w.db, db)] else w.applied
    partly :=
      if w.Takes server kinds id commits ∨
          (db.store = w.db.store ∧ db.memberNames = w.db.memberNames) then w.partly
      else w.partly ++ [id] }

def step : Delivery → Deliveries
  | .deliver id =>
    let (states, answer) := w.handle server kinds id
    { w.commit server kinds id states.length with
      answered := if answer.isOk then w.answered ++ [id] else w.answered }
  | .crash id commits => w.commit server kinds id commits
  | .rooms memberNames => { w with db := { w.db with memberNames } }

/-- The whole effect of an event, on a database where it is marked. -/
def Effect (id : String) (before after : EventDb) : Prop :=
  (before.mark id).effect server (kinds id) = .ok after

/-- What was answered with 200 has taken its whole effect, in one delivery, and no event has done so
twice. -/
structure Survives : Prop where
  whole : ∀ id ∈ w.answered, id ∉ w.partly ∧ ∃ before after, (id, before, after) ∈ w.applied ∧
    Effect server kinds id before after
  once : (w.applied.map Prod.fst).Nodup

/-- If the event is new and a rename that is accepted, no room refuses to renew a member event of
the user. -/
def Renewable (id : String) : Prop :=
  id ∉ w.db.accountEventsSeen → ∀ old new, kinds id = .nickChanged old new →
    ∀ idn, w.db.store.identityByNick old = some idn →
      (w.db.store.renameIn server idn.id new).isOk = true →
        ∀ row ∈ w.db.memberNames, row.userId = idn.id → row.displayname ≠ new → row.refusal = none

/-- A crash leaves the database as it was before the delivery or as it is after all of it, and a
rename is not left without its restamp. -/
def Clean : Delivery → Prop
  | .deliver id => w.Renewable server kinds id
  | .crash id commits => w.reached server kinds id commits = w.db ∨
      (w.Renewable server kinds id ∧
        w.reached server kinds id commits = w.finished server kinds id)
  | .rooms _ => True

/-- The marked events are those that were applied. -/
structure Marked : Prop where
  seen : ∀ id, id ∈ w.db.accountEventsSeen ↔ id ∈ w.applied.map Prod.fst
  answered : ∀ id ∈ w.answered, id ∈ w.db.accountEventsSeen
  effect : ∀ entry ∈ w.applied, Effect server kinds entry.1 entry.2.1 entry.2.2
  once : (w.applied.map Prod.fst).Nodup
  partly : w.partly = []

variable {server kinds w}

theorem marked_start (store : Store) (memberNames : List MemberName) :
    (start store memberNames).Marked server kinds where
  seen := by simp [start]
  answered := by simp [start]
  effect := by simp [start]
  once := List.nodup_nil
  partly := rfl

theorem Marked.survives (marked : w.Marked server kinds) : w.Survives server kinds where
  whole id hid := by
    obtain ⟨⟨id, before, after⟩, hmem, rfl⟩ :=
      List.mem_map.1 ((marked.seen id).1 (marked.answered id hid))
    refine ⟨?_, before, after, hmem, marked.effect _ hmem⟩
    rw [marked.partly]
    exact List.not_mem_nil
  once := marked.once

theorem nick_of_identityById_update {s : Store} {id : Int} {new : String} {renamed : Identity}
    (h : (s.update id fun i => { i with nick := new, nickCi := lower new }).identityById id =
      some renamed) : renamed.nick = new := by
  have hid : renamed.id = id := by simpa using List.find?_some h
  obtain ⟨i, -, rfl⟩ := mem_update (List.mem_of_find?_eq_some h)
  split_ifs at hid ⊢ with hsame
  · rfl
  · exact absurd hid hsame

/-- What is refused without a rename makes no change. -/
theorem changeCommits_of_error {id : String} {e : MatrixError} (hnew : id ∉ w.db.accountEventsSeen)
    (renewable : w.Renewable server kinds id)
    (h : (w.db.mark id).effect server (kinds id) = .error e) :
    (w.db.mark id).changeCommits server (kinds id) = [] := by
  cases hkind : kinds id with
  | credentialRevoked credRef =>
    rw [hkind] at h
    cases h
  | accountDeleted nick =>
    rw [hkind] at h
    cases h
  | nickChanged old new =>
    rw [hkind] at h
    rcases @EventDb.nickChanged_cases server (w.db.mark id) old new with
      ⟨-, hnone⟩ | ⟨-, -, hnone⟩ | ⟨idn, store, hidn, hrename, heffect, -⟩
    · exact hnone
    · exact hnone
    · -- the restamp of an accepted rename is not refused
      have hok : (w.db.store.renameIn server idn.id new).isOk = true := by
        rw [show w.db.store.renameIn server idn.id new = .ok store from hrename]
        rfl
      have hrows := renewable hnew old new hkind idn hidn hok
      obtain ⟨after, hafter⟩ : ∃ after, { w.db.mark id with store }.restamp idn.id = .ok after := by
        refine EventDb.restamp_ok fun renamed hrenamed row hrow huser hname => ?_
        obtain ⟨-, rfl⟩ := renameIn_ok hrename
        rw [nick_of_identityById_update hrenamed] at hname
        exact hrows row hrow huser hname
      rw [heffect, hafter] at h
      cases h

/-- A delivery is refused, repeats a marked event, or makes the whole change of a new one. -/
theorem handle_cases (id : String) :
    ((w.Renewable server kinds id → w.finished server kinds id = w.db) ∧
      (w.handle server kinds id).2.isOk = false) ∨
      ((w.handle server kinds id).1 = [] ∧ id ∈ w.db.accountEventsSeen) ∨
      (id ∉ w.db.accountEventsSeen ∧ (w.handle server kinds id).2.isOk = true ∧
        Effect server kinds id w.db (w.finished server kinds id)) := by
  by_cases hempty : id = ""
  · left
    simp [finished, handle, EventDb.lifecycleEvent, hempty, Except.isOk, Except.toBool]
  by_cases hseen : id ∈ w.db.accountEventsSeen
  · right; left
    simp [handle, EventDb.lifecycleEvent, hempty, hseen]
  cases heffect : (w.db.mark id).effect server (kinds id) with
  | error e =>
    left
    refine ⟨fun renewable => ?_, ?_⟩
    · simp [finished, handle, EventDb.lifecycleEvent, hempty, hseen, heffect,
        changeCommits_of_error hseen renewable heffect, EventDb.unmark_mark hseen]
    · simp [handle, EventDb.lifecycleEvent, hempty, hseen, heffect, Except.isOk, Except.toBool]
  | ok after =>
    right; right
    have hlast : w.finished server kinds id = after := by
      rw [← EventDb.getLastD_changeCommits heffect]
      simp only [finished, handle, EventDb.lifecycleEvent, hempty, hseen, heffect, if_false,
        List.getLastD_cons]
    refine ⟨hseen, ?_, hlast ▸ heffect⟩
    simp [handle, EventDb.lifecycleEvent, hempty, hseen, heffect, Except.isOk, Except.toBool]

/-- What is answered with 200 is marked at the end. -/
theorem mem_finished_seen {id : String} (hok : (w.handle server kinds id).2.isOk = true) :
    id ∈ (w.finished server kinds id).accountEventsSeen := by
  rcases @handle_cases server kinds w id with ⟨-, hrefused⟩ | ⟨hnone, hseen⟩ | ⟨-, -, heffect⟩
  · rw [hok] at hrefused
    cases hrefused
  · simpa [finished, hnone] using hseen
  · rw [EventDb.effect_seen heffect]
    simp [EventDb.mark]

theorem reached_length (id : String) :
    w.reached server kinds id (w.handle server kinds id).1.length =
      w.finished server kinds id := by
  rw [reached, finished, List.take_length]

/-- A delivery that leaves the database as it was leaves the record as it was. -/
theorem commit_of_same {id : String} {commits : Nat}
    (hsame : w.reached server kinds id commits = w.db) : w.commit server kinds id commits = w := by
  have hpart : ¬ w.Takes server kinds id commits := by
    rintro ⟨hfresh, hok, hdone⟩
    have hmarked := mem_finished_seen hok
    rw [← hdone, hsame] at hmarked
    exact hfresh hmarked
  simp [commit, hpart, hsame]

/-- A delivery that stops at one of its ends keeps the marks right. -/
theorem Marked.commit (marked : w.Marked server kinds) {id : String} {commits : Nat}
    (clean : w.reached server kinds id commits = w.db ∨ (w.Renewable server kinds id ∧
      w.reached server kinds id commits = w.finished server kinds id)) :
    (w.commit server kinds id commits).Marked server kinds := by
  rcases clean with hsame | ⟨renewable, hdone⟩
  · rwa [commit_of_same hsame]
  rcases @handle_cases server kinds w id with
    ⟨hrefused, -⟩ | ⟨hnone, -⟩ | ⟨hfresh, hok, heffect⟩
  · rwa [commit_of_same (hdone.trans (hrefused renewable))]
  · rwa [commit_of_same (by simp [reached, hnone])]
  · have hseen : (w.finished server kinds id).accountEventsSeen = _ := EventDb.effect_seen heffect
    have hcommit : w.commit server kinds id commits = ⟨w.finished server kinds id, w.answered,
        w.applied ++ [(id, w.db, w.finished server kinds id)], w.partly⟩ := by
      have htakes : w.Takes server kinds id commits := ⟨hfresh, hok, hdone⟩
      simp [Deliveries.commit, htakes, hdone]
    rw [hcommit]
    refine ⟨fun other => ?_, fun other hother => ?_, fun entry hentry => ?_, ?_, marked.partly⟩
    · simp [hseen, EventDb.mark, marked.seen other]
    · rw [hseen]
      exact List.mem_append_left _ (marked.answered other hother)
    · rcases List.mem_append.1 hentry with hold | hnew
      · exact marked.effect entry hold
      · obtain rfl := List.mem_singleton.1 hnew
        exact heffect
    · rw [List.map_append, List.nodup_append]
      refine ⟨marked.once, List.nodup_singleton _, fun other hother new hnew heq => hfresh ?_⟩
      obtain rfl : new = id := List.mem_singleton.1 hnew
      exact (marked.seen new).2 (heq ▸ hother)

theorem Marked.step (marked : w.Marked server kinds) {d : Delivery}
    (clean : w.Clean server kinds d) : (w.step server kinds d).Marked server kinds := by
  cases d with
  | crash id commits => exact marked.commit clean
  | rooms memberNames => exact { marked with }
  | deliver id =>
    have hall := @reached_length server kinds w id
    have hcommit := marked.commit (.inr ⟨clean, hall⟩)
    refine ⟨hcommit.seen, fun other hother => ?_, hcommit.effect, hcommit.once, hcommit.partly⟩
    by_cases hok : (w.handle server kinds id).2.isOk = true
    · rw [show (w.step server kinds (.deliver id)).answered = w.answered ++ [id] from
        if_pos hok] at hother
      rcases List.mem_append.1 hother with hold | hnew
      · exact hcommit.answered other hold
      · obtain rfl := List.mem_singleton.1 hnew
        have hmarked := mem_finished_seen hok
        rw [← hall] at hmarked
        exact hmarked
    · rw [show (w.step server kinds (.deliver id)).answered = w.answered from if_neg hok] at hother
      exact hcommit.answered other hother

/-- In every run whose crashes all leave the database as before or as after a delivery, and in which
no room refuses the restamp of an accepted rename, what was answered with 200 has in every state
taken its whole effect, and nothing did so twice. -/
theorem survives_throughout (server : String) (kinds : String → EventKind) (store : Store)
    (memberNames : List MemberName) (ds : List Delivery)
    (clean : Trace.Meets (step server kinds) (Clean server kinds) (start store memberNames) ds) :
    Trace.Throughout (step server kinds) (Survives server kinds) (start store memberNames) ds :=
  Trace.throughout_of_meets (Marked server kinds) (fun _ _ h marked => marked.step h)
    (fun _ marked => marked.survives) clean (marked_start store memberNames)

/-! The process stops between the mark and the change, and the redelivery passes for a
repetition. -/

def aliceMarked : Store :=
  ⟨[⟨1, "alice", "alice", "alice", 5⟩], [], [(1, "@alice:m.org")], [⟨1, "D1", .web, "c1"⟩]⟩

def aliceDeleted (_ : String) : EventKind := .accountDeleted "alice"

theorem not_survives_markedOnly :
    ¬ (Trace.run (step "m.org" aliceDeleted) (start aliceMarked [])
      [.crash "e1" 1, .deliver "e1"]).Survives "m.org" aliceDeleted := by
  intro survives
  have hstate : (Trace.run (step "m.org" aliceDeleted) (start aliceMarked [])
      [.crash "e1" 1, .deliver "e1"]) = ⟨⟨aliceMarked, ["e1"], []⟩, ["e1"], [], []⟩ := by
    decide +kernel
  rw [hstate] at survives
  obtain ⟨-, before, after, happlied, -⟩ := survives.whole "e1" (by simp)
  cases happlied

/-! The room of an invitation refuses to renew it: the rename stays, and the redelivery finds nobody
of the old nick. -/

def aliceRenamed (id : String) : EventKind :=
  if id = "e1" then .nickChanged "alice" "alicia" else .accountDeleted "alicia"

def aliceInvited (refusal : Option MatrixError) : List MemberName :=
  [⟨"!r", 1, "alice", refusal⟩, ⟨"!r", 2, "bob", none⟩]

theorem not_survives_refusedRestamp :
    ¬ (Trace.run (step "m.org" aliceRenamed) (start aliceMarked (aliceInvited (some .internal)))
      [.deliver "e1", .deliver "e1"]).Survives "m.org" aliceRenamed := by
  intro survives
  have hstate : (fun w : Deliveries => (w.answered, w.partly)) (Trace.run
      (step "m.org" aliceRenamed) (start aliceMarked (aliceInvited (some .internal)))
      [.deliver "e1", .deliver "e1"]) = (["e1"], ["e1"]) := by decide +kernel
  obtain ⟨hanswered, hpartly⟩ := Prod.mk.inj hstate
  refine (survives.whole "e1" ?_).1 ?_
  · rw [hanswered]
    exact List.mem_singleton_self _
  · rw [hpartly]
    exact List.mem_singleton_self _

theorem survives_throughout_redelivered :
    Trace.Throughout (step "m.org" aliceRenamed) (Survives "m.org" aliceRenamed)
      (start aliceMarked []) [.rooms (aliceInvited none), .crash "e1" 0, .deliver "e1",
        .deliver "e1", .crash "e2" 3, .deliver "e2"] := by
  have hrenewable {w : Deliveries} (h : ∀ row ∈ w.db.memberNames, row.refusal = none)
      (id : String) : w.Renewable "m.org" aliceRenamed id :=
    fun _ _ _ _ _ _ _ row hrow _ _ => h row hrow
  refine survives_throughout "m.org" aliceRenamed aliceMarked [] _
    ⟨trivial, .inl rfl, hrenewable ?_ _, hrenewable ?_ _, .inr ⟨hrenewable ?_ _, ?_⟩,
      hrenewable ?_ _, trivial⟩ <;> decide +kernel

end Deliveries

end Server.Identities
