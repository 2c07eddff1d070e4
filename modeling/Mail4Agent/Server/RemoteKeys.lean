import Mail4Agent.Server.Keys
import Mail4Agent.Server.SimpleRules

/-!
# Keys of other servers' users

A client asks for the keys of a list of users. The part about local users is answered from
the store; for the rest every server named in the request is asked, in the order of the
names, and what it answers is merged into the response. The merge takes each answer as it
is: a server can name any user, so an answer replaces what the store or an earlier server
said about that user. `lookup_mergeRemoteKeys` says whose word stands.
-/

namespace Server.Keys

/-- The parts of a keys response that list keys by user. -/
inductive KeySection where
  | deviceKeys | masterKeys | selfSigningKeys | userSigningKeys | oneTimeKeys
deriving DecidableEq, Repr

def KeySection.name : KeySection → String
  | .deviceKeys => "device_keys"
  | .masterKeys => "master_keys"
  | .selfSigningKeys => "self_signing_keys"
  | .userSigningKeys => "user_signing_keys"
  | .oneTimeKeys => "one_time_keys"

structure KeysResponse where
  sections : KeySection → BTreeMap String Json := fun _ => ∅
  failures : BTreeMap String Json := ∅

namespace KeysResponse

variable (out : KeysResponse)

def lookup (part : KeySection) (user : String) : Option Json := (out.sections part)[user]?

def insert (part : KeySection) (user : String) (value : Json) : KeysResponse :=
  { out with sections := Function.update out.sections part ((out.sections part).insert user value) }

theorem lookup_insert (part part' : KeySection) (user user' : String) (value : Json) :
    (out.insert part user value).lookup part' user' =
      if part' = part ∧ user' = user then some value else out.lookup part' user' := by
  by_cases hpart : part' = part
  · subst hpart
    simp only [insert, lookup, Function.update_self, Std.ExtTreeMap.getElem?_insert,
      Std.LawfulEqCmp.compare_eq_iff_eq, true_and]
    simp only [eq_comm]
  · simp [insert, lookup, hpart]

end KeysResponse

/-! ### The local part -/

/-- Split a request into its local part and one part for each remote domain. -/
def splitByDomain {α : Type} (fed : Federation) (map : BTreeMap String α) :
    BTreeMap String α × BTreeMap String (BTreeMap String α) :=
  map.toList.foldl (fun (own, remote) (mxid, v) =>
    if fed.isRemoteMxid mxid then
      match Federation.domainOf mxid with
      | some domain => (own, remote.insert domain ((remote.getD domain ∅).insert mxid v))
      | none => (own, remote)
    else (own.insert mxid v, remote)) (∅, ∅)

section Query

variable (cfg : Config)

/-- A stored document of the answer. -/
def parsed (text : String) : Except MatrixError Json :=
  match cfg.parse text with
  | some value => .ok value
  | none => .error (.badJson "Malformed JSON")

def deviceJson (mxid : String) (row : DeviceKeys) : Except MatrixError (String × Json) := do
  let algorithms ← parsed cfg row.algorithms
  let keys ← parsed cfg row.keys
  let signatures ← parsed cfg row.signatures
  return (row.deviceId, .obj [("user_id", .str mxid), ("device_id", .str row.deviceId),
    ("algorithms", algorithms), ("keys", keys), ("signatures", signatures)])

def insertCrossSigningKey (mxid : String) (out : KeysResponse) (row : CrossSigningKey) :
    Except MatrixError KeysResponse := do
  let value ← parsed cfg row.keyJson
  return match row.usage with
    | .master => out.insert .masterKeys mxid value
    | .selfSigning => out.insert .selfSigningKeys mxid value
    | .userSigning => out

def queryUser (db : Db) (visible : Int → Bool) (out : KeysResponse)
    (target : String × List String) : Except MatrixError KeysResponse := do
  let (mxid, deviceIds) := target
  match (db.userIdOf mxid).filter visible with
  | none => return out.insert .deviceKeys mxid (.obj [])
  | some userId =>
    let rows := db.deviceKeys.filter fun row =>
      row.userId = userId ∧ (deviceIds = [] ∨ row.deviceId ∈ deviceIds)
    let devices ← rows.mapM (deviceJson cfg mxid)
    (db.crossSigningKeys.filter fun row => row.userId = userId).foldlM
      (insertCrossSigningKey cfg mxid) (out.insert .deviceKeys mxid (.obj devices))

/-- The caller's own user-signing key. -/
def insertUserSigningKey (db : Db) (userId : Int) (mxid : String) (out : KeysResponse) :
    Except MatrixError KeysResponse :=
  match db.crossSigningKeys.find? fun row => row.userId = userId ∧ row.usage = .userSigning with
  | none => .ok out
  | some row => (parsed cfg row.keyJson).map (out.insert .userSigningKeys mxid)

def buildKeysQueryVisible (db : Db) (visible : Int → Bool) (caller : Int × String)
    (requested : BTreeMap String (List String)) : Except MatrixError KeysResponse := do
  let out ← requested.toList.foldlM (queryUser cfg db visible) {}
  insertUserSigningKey cfg db caller.1 caller.2 out

end Query

/-! ### Merging what other servers say -/

/-- What an answer says about a user. -/
def said (answer : Option Json) (part : KeySection) (user : String) : Option Json :=
  ((answer.bind (Json.get? part.name)).bind Json.asObject?).bind (List.lookup user)

def unreachable : Json := .obj [("errcode", .str "M_UNREACHABLE"), ("status", .int 502)]

def mergeSection (answer : Json) (out : KeysResponse) (part : KeySection) : KeysResponse :=
  match (answer.get? part.name).bind Json.asObject? with
  | none => out
  | some fields => fields.foldr (fun field out => out.insert part field.1 field.2) out

/-- `answers` has the body of each server's answer with status 200. -/
def mergeRemoteKeys (parts : List KeySection) (answers : String → Option Json)
    (domains : List String) (out : KeysResponse) : KeysResponse :=
  domains.foldl (fun out domain => match answers domain with
    | some answer => parts.foldl (mergeSection answer) out
    | none => { out with failures := out.failures.insert domain unreachable }) out

def querySections : List KeySection := [.deviceKeys, .masterKeys, .selfSigningKeys]

def mergeRemoteKeysQuery : (String → Option Json) → List String → KeysResponse → KeysResponse :=
  mergeRemoteKeys querySections

def mergeRemoteKeysClaim : (String → Option Json) → List String → KeysResponse → KeysResponse :=
  mergeRemoteKeys [.oneTimeKeys]

/-- What the last of the asked servers to name the user says. -/
def lastSaid (answers : String → Option Json) (part : KeySection) (user : String) :
    List String → Option Json
  | [] => none
  | domain :: rest => (lastSaid answers part user rest).or (said (answers domain) part user)

section Merge

variable {part : KeySection} {user : String} {out : KeysResponse}

theorem lookup_mergeSection (answer : Json) (part' : KeySection) :
    (mergeSection answer out part').lookup part user =
      if part = part' then (said (some answer) part user).or (out.lookup part user)
      else out.lookup part user := by
  unfold mergeSection said
  by_cases hpart : part = part'
  · subst hpart
    simp only [if_true, Option.bind_some]
    cases (answer.get? part.name).bind Json.asObject? with
    | none => simp
    | some fields =>
      simp only [Option.bind_some]
      induction fields with
      | nil => simp
      | cons field rest ih =>
        rw [List.foldr_cons, KeysResponse.lookup_insert, ih, List.lookup_cons]
        by_cases huser : user = field.1
        · simp [huser]
        · simp [huser, beq_false_of_ne huser]
  · simp only [hpart, if_false]
    cases (answer.get? part'.name).bind Json.asObject? with
    | none => rfl
    | some fields =>
      simp only
      induction fields with
      | nil => rfl
      | cons field rest ih => rw [List.foldr_cons, KeysResponse.lookup_insert, ih]; simp [hpart]

theorem lookup_mergeSections (answer : Json) (parts : List KeySection) :
    (parts.foldl (mergeSection answer) out).lookup part user =
      if part ∈ parts then (said (some answer) part user).or (out.lookup part user)
      else out.lookup part user := by
  induction parts generalizing out with
  | nil => simp
  | cons part' rest ih =>
    rw [List.foldl_cons, ih, lookup_mergeSection]
    by_cases hpart : part = part'
    · subst hpart
      by_cases hrest : part ∈ rest <;> simp [hrest, ← Option.or_assoc]
    · simp [hpart]

/-- The word of the last server that names a user stands, and the store's if there is none. -/
theorem lookup_mergeRemoteKeys (answers : String → Option Json) {parts : List KeySection}
    (hpart : part ∈ parts) (domains : List String) :
    (mergeRemoteKeys parts answers domains out).lookup part user =
      (lastSaid answers part user domains).or (out.lookup part user) := by
  induction domains generalizing out with
  | nil => rfl
  | cons domain rest ih =>
    rw [mergeRemoteKeys, List.foldl_cons, ← mergeRemoteKeys, ih, lastSaid]
    cases hanswer : answers domain with
    | none => simp [said, KeysResponse.lookup]
    | some answer => simp only [lookup_mergeSections, hpart, if_true, Option.or_assoc]

end Merge

/-! ### The handlers -/

/-- The database and who is visible to the caller, at one moment. -/
structure Sight where
  db : Db
  visible : Int → Bool

/-- Only servers of users the caller shares a room with are asked. -/
def askedDomains {α : Type} (sight : Sight) (remote : BTreeMap String (BTreeMap String α)) :
    List String :=
  (remote.toList.filter fun (_, users) => users.toList.any fun (mxid, _) =>
    ((sight.db.userIdOf mxid).filter sight.visible).isSome).map (·.1)

def ownPart {α : Type} (fed : Federation) (federated : Bool) (requested : BTreeMap String α) :
    BTreeMap String α × BTreeMap String (BTreeMap String α) :=
  if federated then splitByDomain fed requested else (requested, ∅)

section Handlers

variable (cfg : Config) (fed : Federation) (federated : Bool) (answers : String → Option Json)

def keysQuery (now later : Sight) (caller : Int × String)
    (requested : BTreeMap String (List String)) : Except MatrixError KeysResponse := do
  let parts := ownPart fed federated requested
  let out ← buildKeysQueryVisible cfg now.db now.visible caller parts.1
  return mergeRemoteKeysQuery answers (askedDomains later parts.2) out

/-- The store's part of a claim. -/
def claimResponse (users : List (String × List ClaimedDevice)) : KeysResponse :=
  users.foldl (fun out user => out.insert .oneTimeKeys user.1 (.obj (user.2.map fun device =>
    (device.deviceId, .obj [(device.key.keyId, device.value)])))) {}

def keysClaim (visible : Int → Bool) (later : Sight) (requested : KeysClaim) :
    Request KeysResponse := do
  let parts := ownPart fed federated requested
  let users ← buildKeysClaimVisible cfg visible parts.1
  return mergeRemoteKeysClaim answers (askedDomains later parts.2) (claimResponse users)

end Handlers

/-! ### Whose word stands -/

section Owner

variable (fed : Federation) (answers : String → Option Json)

/-- The user's own server was asked and said this, or the store if the user is a local one. -/
def Supplied (domains : List String) (own : KeysResponse) (part : KeySection) (user : String)
    (value : Json) : Prop :=
  if fed.isRemoteMxid user then ∃ domain ∈ domains, Federation.domainOf user = some domain ∧
    said (answers domain) part user = some value
  else own.lookup part user = some value

/-- Every key in the response comes from its owner's server. An empty object holds no key. -/
def FromOwners (domains : List String) (own : KeysResponse) (parts : List KeySection)
    (out : KeysResponse) : Prop :=
  ∀ part ∈ parts, ∀ user value, out.lookup part user = some value → value ≠ .obj [] →
    Supplied fed answers domains own part user value

/-- The last of the asked servers to name a user says what the user's own server, or for a
local user the store, says; and without federation the store has no keys of remote users. -/
def OwnersLast (federated : Bool) (domains : List String) (own : KeysResponse)
    (parts : List KeySection) : Prop :=
  (∀ part ∈ parts, ∀ user value, lastSaid answers part user domains = some value →
    value ≠ .obj [] → Supplied fed answers domains own part user value) ∧
  (federated = false → ∀ part ∈ parts, ∀ user value, own.lookup part user = some value →
    value ≠ .obj [] → fed.isRemoteMxid user = false)

variable {fed answers}

theorem fromOwners_iff {federated : Bool} {own : KeysResponse} {parts : List KeySection}
    {domains : List String} (hdomains : federated = false → domains = [])
    (hown : federated = true → ∀ part user value, own.lookup part user = some value →
      part ∈ parts → fed.isRemoteMxid user = false) :
    FromOwners fed answers domains own parts (mergeRemoteKeys parts answers domains own) ↔
      OwnersLast fed answers federated domains own parts := by
  constructor
  · intro h
    constructor
    · intro part hpart user value hsaid hkey
      refine h part hpart user value ?_ hkey
      rw [lookup_mergeRemoteKeys answers hpart, hsaid, Option.some_or]
    · intro hfederated part hpart user value hlook hkey
      obtain rfl := hdomains hfederated
      have hsupplied := h part hpart user value
        (by rw [lookup_mergeRemoteKeys answers hpart]; exact hlook) hkey
      by_contra hremote
      simp [Supplied, hremote] at hsupplied
  · intro h part hpart user value hlook hkey
    rw [lookup_mergeRemoteKeys answers hpart, Option.or_eq_some_iff] at hlook
    rcases hlook with hsaid | ⟨-, hlook⟩
    · exact h.1 part hpart user value hsaid hkey
    · have hlocal : fed.isRemoteMxid user = false := by
        cases hfederated : federated with
        | true => exact hown hfederated part user value hlook hpart
        | false => exact h.2 hfederated part hpart user value hlook hkey
      rw [Supplied, hlocal]
      exact hlook

end Owner

/-! ### The local part holds local users -/

/-- Only the listed users appear in the sections that list users' keys. -/
def NamesOnly (users : List String) (out : KeysResponse) : Prop :=
  ∀ part ≠ .userSigningKeys, ∀ user value, out.lookup part user = some value → user ∈ users

variable {users : List String} {out : KeysResponse} {α : Type} {cfg : Config} {db : Db}
  {visible : Int → Bool}

theorem NamesOnly.insert (h : NamesOnly users out) (part : KeySection) {user : String}
    (hpart : part ≠ .userSigningKeys → user ∈ users) (value : Json) :
    NamesOnly users (out.insert part user value) := by
  intro part' hpart' user' value' hlook
  rw [KeysResponse.lookup_insert] at hlook
  split at hlook
  next hsame =>
    obtain ⟨rfl, rfl⟩ := hsame
    exact hpart hpart'
  next => exact h part' hpart' user' value' hlook

/-- A fold of steps that may fail keeps what each step keeps. -/
theorem foldlM_keeps {β ε : Type} {P : β → Prop} {f : β → α → Except ε β} {items : List α}
    (hf : ∀ a ∈ items, ∀ b b', f b a = .ok b' → P b → P b') {b b' : β}
    (hfold : items.foldlM f b = .ok b') (hb : P b) : P b' := by
  induction items generalizing b with
  | nil => exact (Except.ok.inj hfold) ▸ hb
  | cons a rest ih =>
    rw [List.foldlM_cons, Except.bind_eq_ok] at hfold
    obtain ⟨b₁, hfirst, hrest⟩ := hfold
    exact ih (fun a ha => hf a (List.mem_cons_of_mem _ ha)) hrest
      (hf a List.mem_cons_self b b₁ hfirst hb)

theorem queryUser_namesOnly {out' : KeysResponse} {target : String × List String}
    (htarget : target.1 ∈ users) (hquery : queryUser cfg db visible out target = .ok out')
    (h : NamesOnly users out) :
    NamesOnly users out' := by
  unfold queryUser at hquery
  simp only at hquery
  split at hquery
  next => exact (Except.ok.inj hquery) ▸ h.insert .deviceKeys (fun _ => htarget) _
  next userId _ =>
    obtain ⟨devices, -, hfold⟩ := Except.bind_eq_ok.1 hquery
    refine foldlM_keeps (fun row _ b b' hstep hb => ?_) hfold
      (h.insert .deviceKeys (fun _ => htarget) _)
    obtain ⟨value, -, hinsert⟩ := Except.bind_eq_ok.1 hstep
    cases hinsert
    cases row.usage with
    | master => exact hb.insert _ (fun _ => htarget) _
    | selfSigning => exact hb.insert _ (fun _ => htarget) _
    | userSigning => exact hb

/-- The users a request names. -/
def named {α : Type} (requested : BTreeMap String α) : List String := requested.toList.map (·.1)

theorem buildKeysQueryVisible_namesOnly {caller : Int × String}
    {requested : BTreeMap String (List String)}
    (h : buildKeysQueryVisible cfg db visible caller requested = .ok out) :
    NamesOnly (named requested) out := by
  obtain ⟨first, hfold, hsigning⟩ := Except.bind_eq_ok.1 h
  have hfirst : NamesOnly (named requested) first := by
    refine foldlM_keeps (fun target htarget b b' hstep hb => ?_) hfold ?_
    · exact queryUser_namesOnly (List.mem_map_of_mem htarget) hstep hb
    · intro part _ user value hlook
      simp [KeysResponse.lookup] at hlook
  unfold insertUserSigningKey at hsigning
  split at hsigning
  next => exact (Except.ok.inj hsigning) ▸ hfirst
  next row _ =>
    cases hparsed : parsed cfg row.keyJson with
    | error e => simp [hparsed, Except.map] at hsigning
    | ok value =>
      rw [hparsed] at hsigning
      exact (Except.ok.inj hsigning) ▸ hfirst.insert .userSigningKeys (by simp) value

theorem claimUser_gives (cfg : Config) (visible : Int → Bool)
    (target : String × BTreeMap String String) :
    (claimUser cfg visible target).Gives fun user => user.1 = target.1 := by
  refine Session.gives_of_bind fun userId => ?_
  split
  · exact Session.gives_pure rfl
  · exact Session.gives_of_bind fun _ => Session.gives_pure rfl

theorem buildKeysClaimVisible_gives (cfg : Config) (visible : Int → Bool) (requested : KeysClaim) :
    (buildKeysClaimVisible cfg visible requested).Gives fun users =>
      ∀ user ∈ users, user.1 ∈ named requested := by
  refine (Session.gives_each (claimUser_gives cfg visible) _).bind fun users husers =>
    Session.gives_pure fun user huser => ?_
  have hnames : requested.toList.map (·.1) = users.map (·.1) := by
    rw [← List.forall₂_eq_eq_eq, List.forall₂_map_left_iff, List.forall₂_map_right_iff]
    exact husers.imp fun _ _ heq => heq.symm
  rw [named, hnames]
  exact List.mem_map_of_mem (List.mem_of_mem_filter huser)

theorem claimResponse_namesOnly {users : List (String × List ClaimedDevice)} {names : List String}
    (h : ∀ user ∈ users, user.1 ∈ names) : NamesOnly names (claimResponse users) := by
  refine List.foldlRecOn users _ (fun part _ user value hlook => ?_) fun out hout user huser => ?_
  · simp [KeysResponse.lookup] at hlook
  · exact hout.insert .oneTimeKeys (fun _ => h user huser) _

/-- The part of a request that is answered from the store names no remote user. -/
theorem ownPart_local (fed : Federation) (requested : BTreeMap String α) :
    ∀ user ∈ named (ownPart fed true requested).1, fed.isRemoteMxid user = false := by
  have hmem : ∀ user ∈ (splitByDomain fed requested).1, fed.isRemoteMxid user = false := by
    refine List.foldlRecOn (motive := fun parts : BTreeMap String α × _ =>
      ∀ user ∈ parts.1, fed.isRemoteMxid user = false) requested.toList _ (by simp)
      fun parts hparts target _ => ?_
    simp only
    split
    next =>
      split
      · exact hparts
      · exact hparts
    next hlocal =>
      intro user huser
      rcases Std.ExtTreeMap.mem_insert.1 huser with heq | hold
      · rw [← Std.LawfulEqCmp.eq_of_compare heq]
        simpa using hlocal
      · exact hparts user hold
  intro user huser
  obtain ⟨entry, hentry, rfl⟩ := List.mem_map.1 huser
  exact hmem entry.1 (mem_of_getElem? (Std.ExtTreeMap.mem_toList_iff_getElem?_eq_some.1 hentry))

/-- For every query and claim and all answers: the keys come from their owners' servers
exactly if the last server to name a user says what the user's own server says. -/
theorem keys_from_owners_iff (cfg : Config) (fed : Federation) (federated : Bool)
    (answers : String → Option Json) :
    (∀ (now later : Sight) (caller : Int × String) (requested : BTreeMap String (List String))
      (own : KeysResponse),
      buildKeysQueryVisible cfg now.db now.visible caller
        (ownPart fed federated requested).1 = .ok own →
      ∃ out, keysQuery cfg fed federated answers now later caller requested = .ok out ∧
        (FromOwners fed answers (askedDomains later (ownPart fed federated requested).2) own
            querySections out ↔
          OwnersLast fed answers federated
            (askedDomains later (ownPart fed federated requested).2) own
            querySections)) ∧
    (∀ (visible : Int → Bool) (later : Sight) (requested : KeysClaim) (db db' : Db)
      (users : List (String × List ClaimedDevice)),
      buildKeysClaimVisible cfg visible (ownPart fed federated requested).1 db = (.ok users, db') →
      ∃ out, keysClaim cfg fed federated answers visible later requested db = (.ok out, db') ∧
        (FromOwners fed answers (askedDomains later (ownPart fed federated requested).2)
            (claimResponse users) [.oneTimeKeys] out ↔
          OwnersLast fed answers federated (askedDomains later (ownPart fed federated requested).2)
            (claimResponse users) [.oneTimeKeys])) := by
  have hdomains : ∀ {α : Type} (later : Sight) (requested : BTreeMap String α), federated = false →
      askedDomains later (ownPart fed federated requested).2 = [] := by
    rintro α later requested rfl
    simp [ownPart, askedDomains]
  constructor
  · intro now later caller requested own hown
    refine ⟨_, Except.bind_eq_ok.2 ⟨own, hown, rfl⟩, fromOwners_iff (hdomains later requested) ?_⟩
    rintro rfl part user value hlook hpart
    refine ownPart_local fed requested user ?_
    exact buildKeysQueryVisible_namesOnly hown part (by rintro rfl; simp [querySections]
      at hpart) user
      value hlook
  · intro visible later requested db db' users husers
    refine ⟨_, by rw [keysClaim]; simp [Bind.bind, husers]; rfl,
      fromOwners_iff (hdomains later requested) ?_⟩
    rintro rfl part user value hlook hpart
    refine ownPart_local fed requested user ?_
    have hnames := buildKeysClaimVisible_gives cfg visible _ db users (by rw [husers])
    exact claimResponse_namesOnly hnames part (by rintro rfl; simp at hpart) user value hlook

/-- The users of two other servers, both of whom the caller sees. -/
def twoServers : Sight where
  db := { matrixUsers := [⟨1, "@alice:a"⟩, ⟨-1, "@carol:c"⟩, ⟨-2, "@dave:d"⟩] }
  visible _ := true

def askBoth : BTreeMap String (List String) := .ofList [("@carol:c", []), ("@dave:d", [])] compare

private def deviceAnswer (users : List (String × Json)) : Option Json :=
  some (.obj [("device_keys", .obj users)])

/-- The second server answers for the first server's user too. -/
def crossedAnswers : String → Option Json
  | "c" => deviceAnswer [("@carol:c", .obj [("C1", .str "own")])]
  | "d" => deviceAnswer [("@carol:c", .obj [("C1", .str "forged")])]
  | _ => none

theorem asked_both : askedDomains twoServers (ownPart F3.simpleFederation true askBoth).2
    = ["c", "d"] ∧
    (ownPart F3.simpleFederation true askBoth).1.toList = [] := by
  decide +kernel

theorem own_askBoth : buildKeysQueryVisible F3.simpleConfig twoServers.db twoServers.visible
    (1, "@alice:a") (ownPart F3.simpleFederation true askBoth).1 = .ok {} := by
  rw [buildKeysQueryVisible, asked_both.2]
  rfl

/-- The first server answers for its own user, the second not at all. -/
def honestAnswers : String → Option Json
  | "c" => deviceAnswer [("@carol:c", .obj [("C1", .str "own")])]
  | _ => none

theorem keys_from_owners_iff_honest :
    ∃ out, keysQuery F3.simpleConfig F3.simpleFederation true honestAnswers twoServers twoServers
        (1, "@alice:a") askBoth = .ok out ∧
      FromOwners F3.simpleFederation honestAnswers ["c", "d"] {} querySections out := by
  obtain ⟨out, hout, hiff⟩ := (keys_from_owners_iff F3.simpleConfig F3.simpleFederation true
    honestAnswers).1 twoServers twoServers (1, "@alice:a") askBoth {} own_askBoth
  rw [asked_both.1] at hiff
  refine ⟨out, hout, hiff.2 ⟨fun part _ user value hlast _ => ?_, by simp⟩⟩
  have hsaid : said (honestAnswers "c") part user = some value := hlast
  obtain rfl : user = "@carol:c" := by
    by_contra hne
    cases part <;> simp [said, honestAnswers, deviceAnswer, Json.get?, KeySection.name,
      Json.asObject?, List.lookup, beq_false_of_ne hne] at hsaid
  rw [Supplied, if_pos (by decide +kernel)]
  exact ⟨"c", by simp, by decide +kernel, hsaid⟩

/-- The answer of another user's server replaces what the user's own server said. -/
theorem keys_not_from_owners_crossed :
    ∃ out, keysQuery F3.simpleConfig F3.simpleFederation true crossedAnswers twoServers twoServers
        (1, "@alice:a") askBoth = .ok out ∧
      out.lookup .deviceKeys "@carol:c" = some (.obj [("C1", .str "forged")]) ∧
      ¬ FromOwners F3.simpleFederation crossedAnswers ["c", "d"] {} querySections out := by
  refine ⟨_, Except.bind_eq_ok.2 ⟨_, own_askBoth, rfl⟩, ?_⟩
  rw [asked_both.1]
  have hlook : (mergeRemoteKeysQuery crossedAnswers ["c", "d"] {}).lookup .deviceKeys "@carol:c" =
      some (.obj [("C1", .str "forged")]) := by
    rw [mergeRemoteKeysQuery, lookup_mergeRemoteKeys _ (by decide)]
    rfl
  refine ⟨hlook, fun h => ?_⟩
  have hsupplied := h .deviceKeys (by decide) _ _ hlook (by simp)
  have hremote : F3.simpleFederation.isRemoteMxid "@carol:c" = true := by decide +kernel
  rw [Supplied, if_pos hremote] at hsupplied
  obtain ⟨domain, -, hdomain, hsaid⟩ := hsupplied
  have hc : Federation.domainOf "@carol:c" = some "c" := by decide +kernel
  cases hc.symm.trans hdomain
  have hown : said (crossedAnswers "c") .deviceKeys "@carol:c" =
    some (.obj [("C1", .str "own")]) := rfl
  simp [hown] at hsaid

end Server.Keys
