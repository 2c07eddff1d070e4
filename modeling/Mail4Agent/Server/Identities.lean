import Mail4Agent.Foundation.Trace
import Mail4Agent.Server.Db

/-!
# Nick identities

A product tells the server who a person is by signed assertions and lifecycle events. The server
keeps the nick, the localpart that was derived from it at first contact, and one device for each
credential. Nicks and localparts share one name space.

Every operation is a sequence of a few changes of the tables (`Change`), each of which keeps the
constraints of the schema and the name space (`Valid`), and none of which moves a localpart
(`Follows`).
-/

namespace Server

namespace MatrixError

def invalidNick (msg : String) : MatrixError :=
  { status := 400, errcode := "M4A_INVALID_NICK", error := msg }

def nickConflict : MatrixError :=
  { status := 409, errcode := "M4A_NICK_CONFLICT",
    error := "nick conflicts with an existing account; choose another nick" }

end MatrixError

inductive CredentialKind where
  | bearer | web
deriving DecidableEq

namespace Identities

structure Identity where
  id : Int
  nick : String
  nickCi : String
  localpart : String
  firstContactMs : Int
deriving DecidableEq

structure Device where
  userId : Int
  deviceId : String
  credentialKind : CredentialKind
  credentialRef : String
deriving DecidableEq

structure Store where
  identities : List Identity
  reservedLocalparts : List String
  matrixUsers : List (Int × String)
  devices : List Device
deriving DecidableEq

def Store.empty : Store := ⟨[], [], [], []⟩

structure LiveNick where
  nick : String
  creds : List String
deriving DecidableEq

/-- A snapshot of the product's live credentials. -/
structure Reconcile where
  complete : Bool
  nicks : List LiveNick
deriving DecidableEq

structure ReconcileOutcome where
  devicesRemoved : Nat := 0
  identitiesRetired : Nat := 0
  wake : List Int := []
  closed : List Int := []
deriving DecidableEq

structure Resolved where
  identity : Identity
  deviceId : String
  created : Bool
deriving DecidableEq

/-! ### Names -/

def nickMax : Nat := 64

/-- `to_ascii_lowercase` -/
def lower (nick : String) : String := nick.map Char.toLower

def legalLocalpart (nick : String) : Except MatrixError Unit :=
  if nick ≠ "" ∧ nick.utf8ByteSize ≤ nickMax ∧
      nick.toList.all (fun c => c.isAlphanum || c ∈ ['_', '-', '.', '=']) then .ok ()
  else .error (.invalidNick "nick must be 1-64 of A-Z a-z 0-9 _ - . =")

def reservedLocalpartPrefix : String := "_bridge_"

def isReservedLocalpart (localpart : String) : Bool :=
  reservedLocalpartPrefix.toList.isPrefixOf localpart.toList

variable (server : String)

def mxidForPublicId (publicId : String) : String := "@" ++ publicId ++ ":" ++ server

namespace Store

variable (s : Store)

def identityById (id : Int) : Option Identity := s.identities.find? (·.id = id)

def identityByNick (nick : String) : Option Identity :=
  s.identities.find? (·.nickCi = lower nick)

/-- Is the name in use for anyone but `exceptId`? -/
def nameTaken (name : String) (exceptId : Int) : Bool :=
  isReservedLocalpart name ||
    s.identities.any (fun i => i.id ≠ exceptId && (i.nickCi = name || i.localpart = name)) ||
    s.reservedLocalparts.contains name ||
    s.matrixUsers.any (fun user => user.2 = mxidForPublicId server name && user.1 ≠ exceptId)

def nextId : Int :=
  max ((s.identities.map (·.id)).max?.getD 0) ((s.matrixUsers.map Prod.fst).max?.getD 0) + 1

def update (id : Int) (f : Identity → Identity) : Store :=
  { s with identities := s.identities.map fun i => if i.id = id then f i else i }

/-- Only the nick moves; the localpart never does. -/
def renameIn (id : Int) (new : String) : Except MatrixError Store := do
  legalLocalpart new
  if s.nameTaken server (lower new) id then .error .nickConflict
  return s.update id fun i => { i with nick := new, nickCi := lower new }

/-! ### Devices -/

def deviceForCredential (kind : CredentialKind) (credentialRef : String) : Option Device :=
  s.devices.find? fun d => d.credentialKind = kind && d.credentialRef = credentialRef

/-- The new identifier is given. -/
def createDevice (userId : Int) (kind : CredentialKind) (credentialRef deviceId : String) :
    Except MatrixError (String × Store) :=
  if s.devices.any fun d => d.userId = userId && d.deviceId = deviceId ||
      d.credentialKind = kind && d.credentialRef = credentialRef then .error .internal
  else .ok (deviceId, { s with devices := s.devices ++ [⟨userId, deviceId, kind, credentialRef⟩] })

def listDevices (userId : Int) : List Device := s.devices.filter (·.userId = userId)

def deleteDevice (userId : Int) (deviceId : String) : Store :=
  { s with devices := s.devices.filter fun d => !(d.userId = userId && d.deviceId = deviceId) }

def deleteDevices (devices : List Device) : Store :=
  devices.foldl (fun s d => s.deleteDevice d.userId d.deviceId) s

/-! ### Assertions -/

/-- The identity of the nick, or else that of the credential's device, which follows the new nick
if it is free. -/
def findIdentity (nick credRef : String) : Option Identity × Store :=
  match s.identityByNick nick with
  | some idn => (some idn, s)
  | none =>
    match (s.deviceForCredential .web credRef).bind fun d => s.identityById d.userId with
    | none => (none, s)
    | some idn =>
      match s.renameIn server idn.id nick with
      | .ok renamed => (renamed.identityById idn.id, renamed)
      | .error _ => (some idn, s)

/-- First contact freezes the localpart. -/
def firstContact (nick : String) (nowMs : Int) : Except MatrixError (Identity × Store) := do
  legalLocalpart nick
  if s.nameTaken server (lower nick) 0 then .error .nickConflict
  let id := s.nextId
  let idn : Identity := ⟨id, nick, lower nick, lower nick, nowMs⟩
  return (idn, { s with
    matrixUsers := s.matrixUsers ++ [(id, mxidForPublicId server (lower nick))]
    identities := s.identities ++ [idn] })

/-- The nick may change its case. -/
def recase (idn : Identity) (nick : String) : Store :=
  if idn.nick ≠ nick ∧ lower idn.nick = lower nick then
    s.update idn.id fun i => { i with nick := nick }
  else s

/-- The first half of an assertion: whose it is. -/
def settleIdentity (nick credRef : String) (nowMs : Int) :
    Except MatrixError (Identity × Bool × Store) :=
  match s.findIdentity server nick credRef with
  | (some idn, s) =>
    match (s.recase idn nick).identityById idn.id with
    | some identity => .ok (identity, false, s.recase idn nick)
    | none => .error .internal
  | (none, s) => (s.firstContact server nick nowMs).map fun (idn, s) => (idn, true, s)

/-- The second half: the credential's device. -/
def settleDevice (userId : Int) (credRef newDeviceId : String) :
    Except MatrixError (String × Store) :=
  match s.deviceForCredential .web credRef with
  | some d =>
    if d.userId = userId then .ok (d.deviceId, s)
    else .error (.forbidden "credential belongs to another identity")
  | none => s.createDevice userId .web credRef newDeviceId

def resolveAssertion (nick credRef newDeviceId : String) (nowMs : Int) :
    Except MatrixError (Resolved × Store) := do
  let (identity, created, s) ← s.settleIdentity server nick credRef nowMs
  let (deviceId, s) ← s.settleDevice identity.id credRef newDeviceId
  return (⟨identity, deviceId, created⟩, s)

/-! ### Lifecycle events and reconciliation -/

def applyNickChanged (old new : String) : Except MatrixError (Option Int × Store) :=
  match s.identityByNick old with
  | none => .ok (none, s)
  | some idn => (s.renameIn server idn.id new).map fun s => (some idn.id, s)

def retire (idn : Identity) : Store :=
  { s with
    reservedLocalparts := s.reservedLocalparts ++ [idn.localpart]
    identities := s.identities.filter (·.id ≠ idn.id) }

/-- The devices go first, then the localpart is reserved for good. -/
def applyAccountDeleted (nick : String) : Bool × Store :=
  match s.identityByNick nick with
  | none => (false, s)
  | some idn => (true, (s.deleteDevices (s.listDevices idn.id)).retire idn)

def applyCredentialRevoked (credRef : String) : Option Int × Store :=
  ((s.deviceForCredential .web credRef).map (·.userId),
    { s with devices := s.devices.filter fun d =>
      !(d.credentialKind = .web && d.credentialRef = credRef) })

/-- The devices of a listed nick whose credential is not listed. -/
def stale (idn : Identity) (live : LiveNick) : List Device :=
  (s.listDevices idn.id).filter fun d =>
    d.credentialKind = .web && !live.creds.contains d.credentialRef

def reconcileNick (state : ReconcileOutcome × Store) (live : LiveNick) :
    ReconcileOutcome × Store :=
  let (out, s) := state
  match s.identityByNick live.nick with
  | none => (out, s)
  | some idn =>
    let removed := s.stale idn live
    let wakes := removed ≠ [] && !out.wake.contains idn.id
    ({ out with
        devicesRemoved := out.devicesRemoved + removed.length
        wake := if wakes then out.wake ++ [idn.id] else out.wake
        closed := if wakes then out.closed ++ [idn.id] else out.closed },
      s.deleteDevices removed)

def retireNick (state : ReconcileOutcome × Store) (nick : String) : ReconcileOutcome × Store :=
  let (out, s) := state
  let id := (s.identityByNick nick).map (·.id)
  let (retired, s) := s.applyAccountDeleted nick
  if retired then
    ({ out with
        closed := out.closed ++ id.toList, identitiesRetired := out.identitiesRetired + 1 }, s)
  else (out, s)

def listed (snap : Reconcile) (nick : String) : Bool :=
  snap.nicks.any fun live => lower live.nick = lower nick

def reconcile (snap : Reconcile) : ReconcileOutcome × Store :=
  let (out, s) := snap.nicks.foldl reconcileNick ({}, s)
  if snap.complete then
    ((s.identities.map (·.nick)).filter (!listed snap ·)).foldl retireNick (out, s)
  else (out, s)

end Store

/-! ### What changes -/

/-- One change of the tables. -/
inductive Change (s : Store) : Store → Prop
  | renamed (idn : Identity) (hmem : idn ∈ s.identities) (nick : String)
      (hfree : s.nameTaken server (lower nick) idn.id = false) :
      Change s (s.update idn.id fun i => { i with nick := nick, nickCi := lower nick })
  | recased (idn : Identity) (hmem : idn ∈ s.identities) (nick : String)
      (hsame : lower idn.nick = lower nick) :
      Change s (s.update idn.id fun i => { i with nick := nick })
  | contacted (nick : String) (nowMs : Int) (hfree : s.nameTaken server (lower nick) 0 = false) :
      Change s { s with
        matrixUsers := s.matrixUsers ++ [(s.nextId, mxidForPublicId server (lower nick))]
        identities := s.identities ++ [⟨s.nextId, nick, lower nick, lower nick, nowMs⟩] }
  | deviceAdded (idn : Identity) (hmem : idn ∈ s.identities) (deviceId credRef : String)
      (hfresh : ∀ d ∈ s.devices, ¬ (d.userId = idn.id ∧ d.deviceId = deviceId) ∧
        ¬ (d.credentialKind = .web ∧ d.credentialRef = credRef)) :
      Change s { s with devices := s.devices ++ [⟨idn.id, deviceId, .web, credRef⟩] }
  | devicesRemoved (keep : Device → Bool) : Change s { s with devices := s.devices.filter keep }
  | retired (idn : Identity) (hmem : idn ∈ s.identities)
      (hdevices : ∀ d ∈ s.devices, d.userId ≠ idn.id) : Change s (s.retire idn)

/-- The constraints of the tables and of the name space. -/
structure Valid (s : Store) : Prop where
  unique : ∀ i ∈ s.identities, ∀ j ∈ s.identities, i.id = j.id → i = j
  names : ∀ i ∈ s.identities, ∀ j ∈ s.identities, i.id ≠ j.id →
    i.nickCi ≠ j.nickCi ∧ i.nickCi ≠ j.localpart ∧ i.localpart ≠ j.localpart
  nickCi : ∀ i ∈ s.identities, i.nickCi = lower i.nick
  user : ∀ i ∈ s.identities, 0 < i.id ∧ ∃ mxid, (i.id, mxid) ∈ s.matrixUsers
  deviceKey : s.devices.Pairwise fun d e => ¬ (d.userId = e.userId ∧ d.deviceId = e.deviceId)
  credential : s.devices.Pairwise fun d e =>
    ¬ (d.credentialKind = e.credentialKind ∧ d.credentialRef = e.credentialRef)
  owned : ∀ d ∈ s.devices, d.credentialKind = .web → ∃ i ∈ s.identities, i.id = d.userId

theorem valid_empty : Valid .empty := by
  constructor <;> simp [Store.empty]

variable {server} {s s' : Store}

theorem nameTaken_eq_false {name : String} {exceptId : Int} :
    s.nameTaken server name exceptId = false → name ∉ s.reservedLocalparts ∧
      ∀ i ∈ s.identities, i.id ≠ exceptId → i.nickCi ≠ name ∧ i.localpart ≠ name := by
  intro h
  simp only [Store.nameTaken, Bool.or_eq_false_iff, List.any_eq_false, List.contains_eq_mem,
    decide_eq_false_iff_not] at h
  obtain ⟨⟨⟨-, hidentities⟩, hreserved⟩, -⟩ := h
  refine ⟨hreserved, fun i hi hne => ?_⟩
  have := hidentities i hi
  simp only [ne_eq, hne, not_false_eq_true, decide_true, Bool.true_and, Bool.or_eq_true,
    decide_eq_true_eq, not_or] at this
  exact this

theorem lt_nextId (id : Int) (h : id ∈ s.identities.map (·.id) ∨ id ∈ s.matrixUsers.map Prod.fst) :
    id < s.nextId := by
  have hle (ids : List Int) (hid : id ∈ ids) : id ≤ ids.max?.getD 0 := by
    obtain ⟨top, htop⟩ := Option.isSome_iff_exists.1 (List.isSome_max?_of_mem hid)
    rw [htop]
    exact (List.max?_eq_some_iff.1 htop).2 id hid
  rw [Store.nextId]
  rcases h with h | h <;> have := hle _ h <;> omega

theorem mem_update {id : Int} {f : Identity → Identity} {i' : Identity}
    (h : i' ∈ (s.update id f).identities) :
    ∃ i ∈ s.identities, i' = if i.id = id then f i else i := by
  obtain ⟨i, hi, rfl⟩ := List.mem_map.1 h
  exact ⟨i, hi, rfl⟩

end Identities

end Server
