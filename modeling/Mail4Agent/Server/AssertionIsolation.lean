import Mail4Agent.Server.LifecycleEvents

/-!
# Assertions of several users

The product and the server know a person by a nick that may change. The product's renames and
deletions reach the server later, as queued events. A name is claimed by the user who bears it, by
the user whose identity bears it on the server, and by the user of whom a queued event speaks by it
(`Claims`); if a user only takes names that nobody else claims, every name has one claimant, and an
assertion finds the identity that was made for its user.
-/

namespace Server.Identities

structure ProductUser where
  id : Nat
  nick : String
  creds : List String
deriving DecidableEq

/-- The product, its queue of events and the server. The last three fields only record: the users
that were ever created, those whom the identities were made for, and those whom the credentials were
issued to. -/
structure Seam where
  users : List ProductUser
  queue : List (Nat × EventKind)
  store : Store
  created : Nat
  owners : List (Int × Nat)
  holders : List (String × Nat)
deriving DecidableEq

inductive SeamStep where
  | createUser (nick : String)
  | issueSession (user : Nat) (credRef : String)
  | setNick (user : Nat) (new : String)
  | revoke (credRef : String)
  | delete (nick : String)
  | deliver
  | assertion (user : Nat) (credRef newDeviceId : String) (nowMs : Int)

namespace Seam

variable (server : String) (w : Seam)

def start : Seam := ⟨[], [], .empty, 0, [], []⟩

def userById (id : Nat) : Option ProductUser := w.users.find? (·.id = id)

def userByNick (nick : String) : Option ProductUser := w.users.find? (lower ·.nick = lower nick)

def createUser (nick : String) : Seam :=
  if (w.userByNick nick).isSome then w
  else { w with users := w.users ++ [⟨w.created, nick, []⟩], created := w.created + 1 }

/-- References of credentials are random, and none is given twice. -/
def issueSession (user : Nat) (credRef : String) : Seam :=
  if credRef ∈ w.holders.map Prod.fst then w
  else
    match w.userById user with
    | none => w
    | some _ =>
      { w with
        users := w.users.map fun u =>
          if u.id = user then { u with creds := u.creds ++ [credRef] } else u
        holders := w.holders ++ [(credRef, user)] }

def setNick (user : Nat) (new : String) : Seam :=
  match w.userById user with
  | none => w
  | some u =>
    if w.users.any (fun other => other.id ≠ user && lower other.nick = lower new) then w
    else { w with
      users := w.users.map fun u => if u.id = user then { u with nick := new } else u
      queue := w.queue ++ [(user, .nickChanged u.nick new)] }

def revoke (credRef : String) : Seam :=
  match w.users.find? (credRef ∈ ·.creds) with
  | none => w
  | some u => { w with
      users := w.users.map fun u => { u with creds := u.creds.filter (· ≠ credRef) }
      queue := w.queue ++ [(u.id, .credentialRevoked credRef)] }

def delete (nick : String) : Seam :=
  match w.userByNick nick with
  | none => w
  | some u => { w with
      users := w.users.filter (·.id ≠ u.id)
      queue := w.queue ++ u.creds.map (fun c => (u.id, .credentialRevoked c)) ++
        [(u.id, .accountDeleted u.nick)] }

/-- The operation of an event on the server. -/
def operation : EventKind → Operation
  | .credentialRevoked credRef => .credentialRevoked credRef
  | .accountDeleted nick => .accountDeleted nick
  | .nickChanged old new => .nickChanged old new

/-- The head of the queue; what the server refuses is dropped. -/
def deliver : Seam :=
  match w.queue with
  | [] => w
  | (_, kind) :: rest => { w with queue := rest, store := w.store.perform server (operation kind) }

/-- What the server makes of an assertion, which carries the user's present nick. -/
def resolve (user : Nat) (credRef newDeviceId : String) (nowMs : Int) : Option (Resolved × Store) :=
  (w.userById user).bind fun u =>
    if credRef ∈ u.creds then
      (w.store.resolveAssertion server u.nick credRef newDeviceId nowMs).toOption
    else none

def assertion (user : Nat) (credRef newDeviceId : String) (nowMs : Int) : Seam :=
  match w.resolve server user credRef newDeviceId nowMs with
  | none => w
  | some (r, store) => { w with
      store
      owners := if r.created then w.owners ++ [(r.identity.id, user)] else w.owners }

def step : SeamStep → Seam
  | .createUser nick => w.createUser nick
  | .issueSession user credRef => w.issueSession user credRef
  | .setNick user new => w.setNick user new
  | .revoke credRef => w.revoke credRef
  | .delete nick => w.delete nick
  | .deliver => w.deliver server
  | .assertion user credRef newDeviceId nowMs => w.assertion server user credRef newDeviceId nowMs

/-- No assertion is resolved to an identity that was made for another user. -/
def Isolated : SeamStep → Prop
  | .assertion user credRef newDeviceId nowMs => ∀ r store,
      w.resolve server user credRef newDeviceId nowMs = some (r, store) →
        ∀ owner, (r.identity.id, owner) ∈ w.owners → owner = user
  | _ => True

/-! ### Claims on names -/

def names : EventKind → List String
  | .credentialRevoked _ => []
  | .accountDeleted nick => [lower nick]
  | .nickChanged old new => [lower old, lower new]

inductive Claims : String → Nat → Prop
  | bears {u : ProductUser} (hu : u ∈ w.users) : Claims (lower u.nick) u.id
  | identity {i : Identity} (hi : i ∈ w.store.identities) {user : Nat}
      (howner : (i.id, user) ∈ w.owners) : Claims i.nickCi user
  | queued {user : Nat} {kind : EventKind} (hmem : (user, kind) ∈ w.queue) {name : String}
      (hname : name ∈ names kind) : Claims name user

/-- The users who claim the name, as a list. -/
def claimants (name : String) : List Nat :=
  (w.users.filter (lower ·.nick = name)).map (·.id) ++
    (w.owners.filter fun entry => w.store.identities.any fun i =>
      i.id = entry.1 && i.nickCi = name).map Prod.snd ++
    (w.queue.filter (name ∈ names ·.2)).map Prod.fst

/-- A user takes only names that no other user claims. -/
def Unclaimed : SeamStep → Prop
  | .createUser nick => ∀ user, ¬ w.Claims (lower nick) user
  | .setNick user new => ∀ other, w.Claims (lower new) other → other = user
  | _ => True

/-- What holds while names are only taken unclaimed. -/
structure Apart : Prop where
  valid : Valid w.store
  claims : ∀ name user other, w.Claims name user → w.Claims name other → user = other
  owner : ∀ id user other, (id, user) ∈ w.owners → (id, other) ∈ w.owners → user = other
  owned : ∀ i ∈ w.store.identities, ∃ user, (i.id, user) ∈ w.owners
  known : ∀ entry ∈ w.owners, ∃ mxid, (entry.1, mxid) ∈ w.store.matrixUsers
  holder : ∀ credRef user other, (credRef, user) ∈ w.holders → (credRef, other) ∈ w.holders →
    user = other
  creds : ∀ u ∈ w.users, ∀ credRef ∈ u.creds, (credRef, u.id) ∈ w.holders
  devices : ∀ d ∈ w.store.devices, d.credentialKind = .web → ∃ user,
    (d.credentialRef, user) ∈ w.holders ∧ (d.userId, user) ∈ w.owners

variable {server w}

theorem apart_start : start.Apart where
  valid := valid_empty
  claims name user other h := by cases h <;> simp_all [start, Store.empty]
  owner := by simp [start]
  owned := by simp [start, Store.empty]
  known := by simp [start]
  holder := by simp [start]
  creds := by simp [start]
  devices := by simp [start, Store.empty]

variable {user : Nat} {u : ProductUser} {w' : Seam} {credRef : String}

theorem Claims.mem_claimants {name : String} (h : w.Claims name user) :
    user ∈ w.claimants name := by
  simp only [claimants, List.append_assoc, List.mem_append, List.mem_map, List.mem_filter,
    List.any_eq_true, Bool.and_eq_true, decide_eq_true_eq]
  cases h with
  | bears hu => exact .inl ⟨_, ⟨hu, rfl⟩, rfl⟩
  | identity hi howner => exact .inr (.inl ⟨_, ⟨howner, _, hi, rfl, rfl⟩, rfl⟩)
  | queued hmem hname => exact .inr (.inr ⟨_, ⟨hmem, hname⟩, rfl⟩)

theorem mem_of_userById {id : Nat} (h : w.userById id = some u) : u ∈ w.users ∧ u.id = id :=
  ⟨List.mem_of_find?_eq_some h, by simpa using List.find?_some h⟩

/-- The claims after a step are old ones, or those of a user on a name that only they claimed. -/
theorem Apart.claims_of (apart : w.Apart) {taken : String} {taker : Nat}
    (hfree : ∀ other, w.Claims taken other → other = taker)
    (hnew : ∀ name user, w'.Claims name user → w.Claims name user ∨ (name = taken ∧ user = taker))
    (name : String) (user other : Nat) (h : w'.Claims name user) (h' : w'.Claims name other) :
    user = other := by
  rcases hnew name user h with h | ⟨hname, huser⟩ <;>
    rcases hnew name other h' with h' | ⟨hname', hother⟩
  · exact apart.claims name user other h h'
  · exact (hfree user (hname' ▸ h)).trans hother.symm
  · exact huser.trans (hfree other (hname ▸ h')).symm
  · exact huser.trans hother.symm

theorem Apart.claims_le (apart : w.Apart)
    (hold : ∀ name user, w'.Claims name user → w.Claims name user) (name : String)
    (user other : Nat) (h : w'.Claims name user) (h' : w'.Claims name other) : user = other :=
  apart.claims name user other (hold name user h) (hold name other h')

/-! ### The product's steps -/

section

variable (apart : w.Apart)

include apart

theorem Apart.createUser {nick : String} (free : ∀ user, ¬ w.Claims (lower nick) user) :
    (w.createUser nick).Apart := by
  unfold Seam.createUser
  split_ifs
  · exact apart
  · refine { apart with
      claims := apart.claims_of (fun other h => absurd h (free other) :
        ∀ other, _ → other = w.created)
        fun name user h => ?_
      creds := fun u hu credRef hcred => ?_ }
    · cases h with
      | bears hu =>
        rcases List.mem_append.1 hu with hu | hu
        · exact .inl (.bears hu)
        · rw [List.mem_singleton.1 hu]
          exact .inr ⟨rfl, rfl⟩
      | identity hi howner => exact .inl (.identity (w := w) hi howner)
      | queued hmem hname => exact .inl (.queued (w := w) hmem hname)
    · rcases List.mem_append.1 hu with hu | hu
      · exact apart.creds u hu credRef hcred
      · rw [List.mem_singleton.1 hu] at hcred
        cases hcred

theorem Apart.issueSession (user : Nat) (credRef : String) :
    (w.issueSession user credRef).Apart := by
  unfold Seam.issueSession
  split_ifs with hused
  · exact apart
  split
  · exact apart
  refine { apart with
    claims := apart.claims_le fun name user h => ?_
    holder := fun other a b ha hb => ?_
    creds := fun u' hu' other hother => ?_
    devices := fun d hd hweb => ?_ }
  · cases h with
    | bears hu' =>
      obtain ⟨u, hu, rfl⟩ := List.mem_map.1 hu'
      split_ifs <;> exact @Claims.bears w u hu
    | identity hi howner => exact .identity (w := w) hi howner
    | queued hmem hname => exact .queued (w := w) hmem hname
  · -- the reference is new
    have hfresh (c : Nat) : (credRef, c) ∉ w.holders := fun h => hused (List.mem_map_of_mem h)
    rcases List.mem_append.1 ha with holda | hnewa <;>
      rcases List.mem_append.1 hb with holdb | hnewb
    · exact apart.holder other a b holda holdb
    · rw [(Prod.mk.inj (List.mem_singleton.1 hnewb)).1] at holda
      exact absurd holda (hfresh a)
    · rw [(Prod.mk.inj (List.mem_singleton.1 hnewa)).1] at holdb
      exact absurd holdb (hfresh b)
    · rw [(Prod.mk.inj (List.mem_singleton.1 hnewa)).2,
        (Prod.mk.inj (List.mem_singleton.1 hnewb)).2]
  · obtain ⟨u, hu, rfl⟩ := List.mem_map.1 hu'
    split_ifs at hother ⊢ with hid
    · rcases List.mem_append.1 hother with hold | hnew
      · exact List.mem_append_left _ (apart.creds u hu other hold)
      · rw [List.mem_singleton.1 hnew]
        exact List.mem_append_right _ (List.mem_singleton.2 (congrArg _ hid))
    · exact List.mem_append_left _ (apart.creds u hu other hother)
  · obtain ⟨holder, hholder, howner⟩ := apart.devices d hd hweb
    exact ⟨holder, List.mem_append_left _ hholder, howner⟩

theorem Apart.setNick {new : String} (free : ∀ other, w.Claims (lower new) other → other = user) :
    (w.setNick user new).Apart := by
  unfold Seam.setNick
  split
  · exact apart
  next u hu =>
  obtain ⟨hmem, hid⟩ := mem_of_userById hu
  split_ifs
  · exact apart
  refine { apart with
    claims := apart.claims_of free fun name user h => ?_
    creds := fun v' hv' credRef hcred => ?_ }
  · cases h with
    | bears hv' =>
      obtain ⟨v, hv, rfl⟩ := List.mem_map.1 hv'
      split_ifs with hsame
      · exact .inr ⟨rfl, hsame⟩
      · exact .inl (.bears hv)
    | identity hi howner => exact .inl (.identity (w := w) hi howner)
    | queued hentry hname =>
      rcases List.mem_append.1 hentry with hold | hnew
      · exact .inl (.queued (w := w) hold hname)
      · -- the old nick is the user's own
        cases List.mem_singleton.1 hnew
        rcases List.mem_pair.1 hname with rfl | rfl
        · exact .inl (hid ▸ .bears hmem)
        · exact .inr ⟨rfl, rfl⟩
  · obtain ⟨v, hv, rfl⟩ := List.mem_map.1 hv'
    split_ifs at hcred ⊢ <;> exact apart.creds v hv credRef hcred

theorem Apart.revoke (credRef : String) : (w.revoke credRef).Apart := by
  unfold Seam.revoke
  split
  · exact apart
  refine { apart with
    claims := apart.claims_le fun name user h => ?_
    creds := fun u' hu' other hother => ?_ }
  · cases h with
    | bears hu' =>
      obtain ⟨u, hu, rfl⟩ := List.mem_map.1 hu'
      exact @Claims.bears w u hu
    | identity hi howner => exact .identity (w := w) hi howner
    | queued hentry hname =>
      rcases List.mem_append.1 hentry with hold | hnew
      · exact .queued (w := w) hold hname
      · cases List.mem_singleton.1 hnew
        cases hname
  · obtain ⟨u, hu, rfl⟩ := List.mem_map.1 hu'
    exact apart.creds u hu other (List.mem_of_mem_filter hother)

theorem Apart.delete (nick : String) : (w.delete nick).Apart := by
  unfold Seam.delete
  split
  · exact apart
  next u hu =>
  refine { apart with
    claims := apart.claims_le fun name user h => ?_
    creds := fun v hv => apart.creds v (List.mem_of_mem_filter hv) }
  cases h with
  | bears hv => exact .bears (List.mem_of_mem_filter hv)
  | identity hi howner => exact .identity (w := w) hi howner
  | queued hentry hname =>
    rcases List.mem_append.1 hentry with hentry | hdeleted
    · rcases List.mem_append.1 hentry with hold | hrevoked
      · exact .queued (w := w) hold hname
      · obtain ⟨credRef, -, hrevoked⟩ := List.mem_map.1 hrevoked
        cases hrevoked
        cases hname
    · cases List.mem_singleton.1 hdeleted
      rw [List.mem_singleton.1 hname]
      exact .bears (List.mem_of_find?_eq_some hu)

end

/-! ### Deliveries -/

/-- Events retire identities, or rename the one that bears the old nick. -/
theorem mem_perform_operation {s : Store} {kind : EventKind} {i' : Identity}
    (h : i' ∈ (s.perform server (operation kind)).identities) : i' ∈ s.identities ∨
      ∃ old new, kind = .nickChanged old new ∧ ∃ i ∈ s.identities,
        i.nickCi = lower old ∧ i'.id = i.id ∧ i'.nickCi = lower new := by
  cases kind with
  | credentialRevoked credRef => exact .inl h
  | accountDeleted nick =>
    simp only [operation, Store.perform, Store.applyAccountDeleted] at h
    split at h
    · exact .inl h
    · rw [deleteDevices_eq] at h
      exact .inl (List.mem_of_mem_filter h)
  | nickChanged old new =>
    simp only [operation, Store.perform] at h
    split at h
    · next hchanged =>
      rcases applyNickChanged_ok hchanged with ⟨-, rfl⟩ | ⟨idn, hidn, -, rfl⟩
      · exact .inl h
      · obtain ⟨i, hi, rfl⟩ := mem_update h
        split_ifs with hsame
        · obtain ⟨hmem, hold⟩ := mem_of_identityByNick hidn
          exact .inr ⟨old, new, rfl, idn, hmem, hold, hsame, rfl⟩
        · exact .inl hi
    · exact .inl h

theorem prunes_operation (s : Store) (kind : EventKind) :
    Prunes server s (s.perform server (operation kind)) := by
  cases kind with
  | credentialRevoked credRef => exact prunes_filter s _
  | accountDeleted nick => exact prunes_applyAccountDeleted nick
  | nickChanged old new => exact prunes_nickChanged old new

theorem Apart.deliver (apart : w.Apart) : (w.deliver server).Apart := by
  unfold Seam.deliver
  split
  · exact apart
  next user kind rest hqueue =>
  have hhead : (user, kind) ∈ w.queue := by simp [hqueue]
  have hprunes : Prunes server w.store _ := prunes_operation w.store kind
  have hidentity := @mem_perform_operation server w.store kind
  refine {
    valid := apart.valid.changes hprunes.changes
    claims := apart.claims_le fun name owner h => ?_
    owner := apart.owner
    owned := fun i' hi' => ?_
    known := fun entry hentry => ?_
    holder := apart.holder
    creds := apart.creds
    devices := fun d hd => apart.devices d (hprunes.devices d hd) }
  · cases h with
    | bears hu => exact .bears hu
    | identity hi' howner =>
      rcases hidentity hi' with hi | ⟨old, new, rfl, i, hi, hold, hid, hnew⟩
      · exact .identity (w := w) hi howner
      · -- the queued event gives the bearer of the old nick a claim on the new one
        have hsame : owner = user := by
          refine apart.claims (lower old) owner user ?_ (.queued hhead (by simp [names]))
          exact hold ▸ @Claims.identity w i hi owner (hid ▸ howner)
        rw [hnew, hsame]
        exact .queued hhead (by simp [names])
    | queued hmem hname => exact .queued (hqueue ▸ List.mem_cons_of_mem _ hmem) hname
  · rcases hidentity hi' with hi | ⟨-, -, -, i, hi, -, hid, -⟩
    · exact apart.owned i' hi
    · exact hid ▸ apart.owned i hi
  · obtain ⟨mxid, huser⟩ := apart.known entry hentry
    exact ⟨mxid, (apart.valid.follows.changes apart.valid apart.valid hprunes.changes).user _ huser⟩

/-! ### Assertions -/

theorem resolve_eq_some {newDeviceId : String} {nowMs : Int} {r : Resolved} {s' : Store}
    (h : w.resolve server user credRef newDeviceId nowMs = some (r, s')) :
    ∃ u ∈ w.users, u.id = user ∧ credRef ∈ u.creds ∧
      ∃ mid, Resolution server w.store u.nick credRef r s' mid := by
  obtain ⟨u, hu, h⟩ := Option.bind_eq_some_iff.1 h
  obtain ⟨hmem, hid⟩ := mem_of_userById hu
  split_ifs at h with hcred
  refine ⟨u, hmem, hid, hcred, ?_⟩
  cases hresolve : w.store.resolveAssertion server u.nick credRef newDeviceId nowMs with
  | error e => simp [hresolve, Except.toOption] at h
  | ok resolved =>
    obtain rfl : resolved = (r, s') := by simpa [hresolve, Except.toOption] using h
    exact resolveAssertion_ok hresolve

section

variable (apart : w.Apart)

include apart

/-- The identity that an assertion finds was made for its user. -/
theorem Apart.found (hu : u ∈ w.users) (hcred : credRef ∈ u.creds) {i : Identity}
    (hi : i ∈ w.store.identities)
    (hfound : i.nickCi = lower u.nick ∨ ∃ d, w.store.deviceForCredential .web credRef = some d ∧
      d.userId = i.id)
    {owner : Nat} (howner : (i.id, owner) ∈ w.owners) : owner = u.id := by
  rcases hfound with hnick | ⟨d, hd, huser⟩
  · exact apart.claims _ owner u.id (hnick ▸ .identity (w := w) hi howner) (.bears hu)
  · have hfacts : d.credentialKind = .web ∧ d.credentialRef = credRef := by
      simpa using List.find?_some hd
    obtain ⟨holder, hholder, hholds⟩ :=
      apart.devices d (List.mem_of_find?_eq_some hd) hfacts.1
    have hself : holder = u.id :=
      apart.holder credRef holder u.id (hfacts.2 ▸ hholder) (apart.creds u hu credRef hcred)
    rw [← hself]
    exact apart.owner i.id owner holder howner (huser ▸ hholds)

/-- The identifier of a first contact has no owner yet. -/
theorem Apart.not_owner_nextId (user : Nat) :
    (w.store.nextId, user) ∉ w.owners := by
  intro howner
  obtain ⟨mxid, huser⟩ := apart.known _ howner
  exact absurd (lt_nextId w.store.nextId (.inr (List.mem_map_of_mem huser))) (lt_irrefl _)

theorem Apart.isolated (step : SeamStep) : w.Isolated server step := by
  cases step with
  | assertion user credRef newDeviceId nowMs =>
    intro r s' h owner howner
    obtain ⟨u, hu, rfl, hcred, mid, resolution⟩ := resolve_eq_some h
    rcases resolution.origin with ⟨-, -, _, hcontact⟩ | ⟨-, i, hi, hid, hfound, -⟩
    · rw [(firstContact_ok hcontact).2.1] at howner
      exact absurd howner (apart.not_owner_nextId owner)
    · exact apart.found hu hcred hi hfound (hid ▸ howner)
  | _ => trivial

theorem Apart.assertion (user : Nat) (credRef newDeviceId : String) (nowMs : Int) :
    (w.assertion server user credRef newDeviceId nowMs).Apart := by
  unfold Seam.assertion
  split
  · exact apart
  next r s' h =>
  have isolated : w.Isolated server (.assertion user credRef newDeviceId nowMs) := apart.isolated _
  replace isolated := isolated r s' h
  obtain ⟨u, hu, rfl, hcred, mid, resolution⟩ := resolve_eq_some h
  have hvalid := apart.valid.changes resolution.changes
  have hidentity : r.identity ∈ s'.identities := resolution.identities_eq.1 ▸ resolution.identity
  set owners := if r.created then w.owners ++ [(r.identity.id, u.id)] else w.owners with howners
  have hkept {entry : Int × Nat} (hentry : entry ∈ w.owners) : entry ∈ owners := by
    rw [howners]
    split_ifs
    · exact List.mem_append_left _ hentry
    · exact hentry
  have hcases {id : Int} {owner : Nat} (hmem : (id, owner) ∈ owners) :
      (id, owner) ∈ w.owners ∨ (r.created = true ∧ id = r.identity.id ∧ owner = u.id) := by
    rw [howners] at hmem
    split_ifs at hmem with hcreated
    · refine (List.mem_append.1 hmem).imp_right fun hnew => ?_
      exact ⟨hcreated, Prod.mk.inj (List.mem_singleton.1 hnew)⟩
    · exact .inl hmem
  -- the asserting user is the only owner of the identity, and is one
  have honly {owner : Nat} (hmem : (r.identity.id, owner) ∈ owners) : owner = u.id :=
    (hcases hmem).elim (isolated owner) fun hnew => hnew.2.2
  have hself : (r.identity.id, u.id) ∈ owners := by
    rcases resolution.origin with ⟨hcreated, -⟩ | ⟨-, i, hi, hid, -⟩
    · rw [howners, if_pos hcreated]
      exact List.mem_append_right _ List.mem_cons_self
    · obtain ⟨owner, howner⟩ := apart.owned i hi
      rw [← hid] at howner
      exact hkept (isolated owner howner ▸ howner)
  have hfresh (hcreated : r.created = true) {i : Identity} (hi : i ∈ w.store.identities) :
      i.id ≠ r.identity.id := by
    rcases resolution.origin with ⟨-, -, _, hcontact⟩ | ⟨hfound, -⟩
    · rw [(firstContact_ok hcontact).2.1]
      exact (lt_nextId i.id (.inl (List.mem_map_of_mem hi))).ne
    · rw [hcreated] at hfound
      cases hfound
  refine {
    valid := hvalid
    claims := apart.claims_le fun name owner h => ?_
    owner := fun id a b ha hb => ?_
    owned := fun i' hi' => ?_
    known := fun entry hentry => ?_
    holder := apart.holder
    creds := apart.creds
    devices := fun d hd hweb => ?_ }
  · cases h with
    | bears hv => exact .bears hv
    | queued hmem hname => exact .queued (w := w) hmem hname
    | identity hi' howner =>
      rcases resolution.mem_identities hi' with ⟨i, hi, hid, hnick⟩ | ⟨-, rfl, hnick⟩
      · rcases hnick with hnick | ⟨hfound, hnick⟩
        · rcases hcases howner with hold | ⟨hcreated, hnew, -⟩
          · rw [hnick]
            exact .identity hi (hid ▸ hold)
          · exact absurd (hid.symm.trans hnew) (hfresh hcreated hi)
        · obtain rfl := honly (hfound ▸ howner)
          exact hnick ▸ .bears hu
      · obtain rfl := honly howner
        exact hnick ▸ .bears hu
  · rcases hcases ha with holda | ⟨-, rfl, rfl⟩
    · rcases hcases hb with holdb | ⟨-, rfl, rfl⟩
      · exact apart.owner id a b holda holdb
      · exact isolated a holda
    · exact (honly hb).symm
  · rcases resolution.mem_identities hi' with ⟨i, hi, hid, -⟩ | ⟨-, rfl, -⟩
    · obtain ⟨owner, howner⟩ := apart.owned i hi
      exact ⟨owner, hid ▸ hkept howner⟩
    · exact ⟨u.id, hself⟩
  · obtain ⟨id, owner⟩ := entry
    rcases hcases hentry with hold | ⟨-, rfl, rfl⟩
    · obtain ⟨mxid, huser⟩ := apart.known _ hold
      exact ⟨mxid,
        (apart.valid.follows.changes apart.valid apart.valid resolution.changes).user _ huser⟩
    · exact (hvalid.user r.identity hidentity).2
  · rcases resolution.mem_devices hd with hold | ⟨huser, href⟩
    · obtain ⟨holder, hholder, howner⟩ := apart.devices d hold hweb
      exact ⟨holder, hholder, hkept howner⟩
    · exact ⟨u.id, href ▸ apart.creds u hu credRef hcred, huser ▸ hself⟩

theorem Apart.step {step : SeamStep} (unclaimed : w.Unclaimed step) :
    (w.step server step).Apart := by
  cases step with
  | createUser nick => exact apart.createUser unclaimed
  | issueSession user credRef => exact apart.issueSession user credRef
  | setNick user new => exact apart.setNick unclaimed
  | revoke credRef => exact apart.revoke credRef
  | delete nick => exact apart.delete nick
  | deliver => exact apart.deliver
  | assertion user credRef newDeviceId nowMs => exact apart.assertion user credRef newDeviceId nowMs

end

/-- In every run in which users only take names that no other user claims, every assertion is
resolved to an identity of its own user. -/
theorem isolated_of_unclaimed (server : String) (steps : List SeamStep)
    (unclaimed : Trace.Meets (step server) Unclaimed start steps) :
    Trace.Meets (step server) (Isolated server) start steps := by
  have hboth : Trace.Meets (step server)
      (fun w step => w.Unclaimed step ∧ w.Isolated server step) start steps := by
    refine (Trace.meets_iff_meets Apart (fun w step h apart => apart.step h)
      (fun w step apart => ?_) apart_start steps).2 unclaimed
    exact ⟨fun h => h.1, fun h => ⟨h, apart.isolated step⟩⟩
  exact hboth.mono fun _ _ h => h.2

/-! Alice is renamed; before the server hears of it, someone else takes the name. -/

def nameReused : List SeamStep := [
  .createUser "alice", .issueSession 0 "c0", .assertion 0 "c0" "D0" 5,
  .setNick 0 "alicia", .createUser "bob", .issueSession 1 "c1", .setNick 1 "alice"]

theorem not_isolated_nameReused :
    ¬ Trace.Meets (step "m.org") (Isolated "m.org") start
      (nameReused ++ [.assertion 1 "c1" "D1" 6]) := by
  intro meets
  have hlast := (Trace.meets_append.1 meets).2.1
  have howned : (Trace.run (step "m.org") start nameReused).owners = [(1, 0)] := by decide +kernel
  have hresolved : ((Trace.run (step "m.org") start nameReused).resolve "m.org" 1 "c1" "D1" 6).map
      (fun entry => entry.1.identity.id) = some 1 := by decide +kernel
  obtain ⟨⟨r, s'⟩, hresolve, hid⟩ := Option.map_eq_some_iff.1 hresolved
  have hsame : 0 = 1 := hlast r s' hresolve 0 (by rw [howned, hid]; simp)
  exact absurd hsame (by decide)

/-- Once the server has heard of Alice's new name, Bob takes the old one; each assertion finds its
own identity. -/
theorem isolated_of_unclaimed_delivered :
    Trace.Meets (step "m.org") (Isolated "m.org") start [.createUser "alice",
      .issueSession 0 "c0", .assertion 0 "c0" "D0" 5, .createUser "bob", .issueSession 1 "c1",
      .assertion 1 "c1" "D1" 6, .setNick 0 "alicia", .deliver, .setNick 1 "alice",
      .assertion 1 "c1" "D2" 7, .deliver, .assertion 0 "c0" "D3" 8] := by
  have hnone {w : Seam} {name : String} (h : w.claimants name = []) (user : Nat) :
      ¬ w.Claims name user := fun claims => by simpa [h] using claims.mem_claimants
  refine isolated_of_unclaimed "m.org" _ ⟨hnone (by decide +kernel), trivial, trivial,
    hnone (by decide +kernel), trivial, trivial, ?_, trivial, ?_, trivial, trivial, trivial,
    trivial⟩
  · exact fun other claims => absurd claims (hnone (by decide +kernel) other)
  · exact fun other claims => absurd claims (hnone (by decide +kernel) other)

end Seam

end Server.Identities
