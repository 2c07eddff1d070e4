import Mail4Agent.Foundation.JsonText
import Mail4Agent.Server.F3

/-!
# Rules small enough to run

A set of rules that meets every assumption of `Rules.Lawful` and can be evaluated. A
user who is banned by the state may send nothing. Resolution takes the union of the
forks and drops what a user banned on one of them put into conflict, as state
resolution does with a rename that races with its sender's ban. The id of an event
spells the room and a name from its content. `simpleFederation` is a server named `a` with
these rules, and `peerEvent` builds an event as a peer sends it.
-/

namespace Dag

/-- The event bans the user. -/
def isBan (user : String) (pdu : Pdu) : Bool :=
  pdu.slot? = some ("m.room.member", user) ∧
    (pdu.content.get? "membership").bind Json.asStr? = some "ban"

/-- The name an event carries in its content. -/
def eventName (json : Json) : String :=
  (((json.get? "content").bind (Json.get? "n")).bind Json.asStr?).getD ""

/-- Two rooms, told apart by the first letter, and events without auth events. -/
def simpleHash (json : Json) : Except String String :=
  match json.get? "auth_events" with
  | some (.arr []) =>
    if (json.get? "room_id").bind Json.asStr? = some "!r" then .ok ("r" ++ eventName json)
    else if (json.get? "room_id").bind Json.asStr? = some "!q" then .ok ("q" ++ eventName json)
    else .error "room"
  | _ => .error "auth events"

def simpleResolve (forks : List StateMap) (_ : List (List String))
    (fetch : String → Option Pdu) : Except String StateMap :=
  let entries := forks.flatten
  let settled (entry : StateKey × String) := forks.all fun fork => fork.get? entry.1 = some entry.2
  let banned (user : String) := entries.any fun entry => (fetch entry.2).any (isBan user)
  let kept := entries.filter fun entry =>
    settled entry || !(fetch entry.2).any fun pdu => banned pdu.sender
  .ok (kept.foldr (fun entry state => StateMap.insert state entry.1 entry.2) [])

def simpleRules : Rules where
  parseRoomId _ := .ok ()
  parseUserId _ := .ok ()
  parseEventId _ := .ok ()
  referenceHash := simpleHash
  verifyEvent _ _ := .ok .all
  redact _ := .error "no skeletons"
  hashAndSignEvent _ obj := .ok obj
  authTypesForEvent _ _ _ _ := .ok []
  checkStateIndependentAuthRules pdu fetch :=
    if pdu.kind = "m.room.create" ∨
      pdu.authEvents.all fun id => (fetch id).all fun auth => auth.roomId = pdu.roomId then .ok ()
    else .error "auth event of another room"
  checkStateDependentAuthRules pdu state :=
    if (state ("m.room.member", pdu.sender)).any (isBan pdu.sender) then .error "banned" else .ok ()
  resolve := simpleResolve

theorem get?_of_asStr? {v : Json} {key text : String}
    (h : (v.get? key).bind Json.asStr? = some text) : v.get? key = some (.str text) := by
  obtain ⟨value, hvalue, htext⟩ := Option.bind_eq_some_iff.1 h
  cases value <;> simp_all [Json.asStr?]

theorem simpleHash_get? {json json' : Json} {hash : String} (h : simpleHash json = .ok hash)
    (h' : simpleHash json' = .ok hash) :
    ∀ key ∈ ["room_id", "auth_events"], json.get? key = json'.get? key := by
  have first (a b : String) : "r" ++ a ≠ "q" ++ b := by
    intro heq
    have := congrArg String.toList heq
    simp at this
  unfold simpleHash at h h'
  split at h
  case h_2 => cases h
  split at h'
  case h_2 => cases h'
  rename_i hauth _ hauth'
  have hroom : json.get? "room_id" = json'.get? "room_id" := by
    split_ifs at h h' with hr hr' hq' hq hr' hq'
    · rw [get?_of_asStr? hr, get?_of_asStr? hr']
    · exact (first _ _ (Except.ok.inj (h.trans h'.symm))).elim
    · exact (first _ _ (Except.ok.inj (h'.trans h.symm))).elim
    · rw [get?_of_asStr? hq, get?_of_asStr? hq']
  simp [hroom, hauth, hauth']

theorem mem_ids_foldr_insert {entries : StateMap} {id : String}
    (h : id ∈ StateMap.ids (entries.foldr
      (fun entry state => StateMap.insert state entry.1 entry.2) [])) : id ∈ entries.ids := by
  induction entries with
  | nil => simp [StateMap.ids] at h
  | cons entry rest ih =>
    rcases StateMap.mem_ids_insert h with rfl | h
    · simp [StateMap.ids]
    · simpa [StateMap.ids] using Or.inr (by simpa [StateMap.ids] using ih h)

/-- The rules meet the assumptions. -/
theorem simpleRules_lawful : simpleRules.Lawful where
  independent_room := by
    intro pdu fetch h hcreate id hid auth hauth
    simp only [simpleRules] at h
    split_ifs at h with hall
    simpa [hauth] using List.all_eq_true.1 (hall.resolve_left hcreate) id hid
  resolve_ids := by
    intro forks chains fetch state h id hid
    cases h
    have hmem := mem_ids_foldr_insert hid
    simp only [StateMap.ids, List.mem_map, List.mem_filter, List.mem_flatten] at hmem
    obtain ⟨entry, ⟨⟨fork, hfork, hentry⟩, -⟩, rfl⟩ := hmem
    exact .inl ⟨fork, hfork, List.mem_map_of_mem hentry⟩
  resolve_congr := by
    intro forks chains fetch fetch' hforks _
    have hfetch : ∀ entry ∈ forks.flatten, fetch entry.2 = fetch' entry.2 := by
      intro entry hentry
      obtain ⟨fork, hfork, hentry⟩ := List.mem_flatten.1 hentry
      exact hforks fork hfork entry.2 (List.mem_map_of_mem hentry)
    have hbanned (user : String) :
        (forks.flatten.any fun entry => (fetch entry.2).any (isBan user)) =
          forks.flatten.any fun entry => (fetch' entry.2).any (isBan user) := by
      rw [Bool.eq_iff_iff, List.any_eq_true, List.any_eq_true]
      refine exists_congr fun entry => and_congr_right fun hentry => ?_
      rw [hfetch entry hentry]
    simp only [simpleRules, simpleResolve, hbanned]
    congr 2
    refine List.filter_congr fun entry hentry => ?_
    rw [hfetch entry hentry]
  sign_get? := by
    intro signer obj signed h key _ _
    cases h
    rfl
  hash_get? := simpleHash_get?

end Dag

namespace Server.F3

/-- The texts of two documents; any other text is read as the name of an event. -/
def simpleParse (text : String) : Option Json :=
  if text = "ban" then some (.obj [("membership", .str "ban"), ("n", .str "ban")])
  else if text = "join" then some (.obj [("membership", .str "join"), ("n", .str "join")])
  else some (.obj [("n", .str text)])

def simpleConfig : Config where
  parse := simpleParse
  render v := ((v.get? "n").bind Json.asStr?).getD ""
  nowMs := 0

def simpleFederation : Federation where
  rules := Dag.simpleRules
  signer := ⟨"a", "ed25519:1", []⟩
  isServerName _ := true
  isLocalServerName domain := domain = "a"

/-- An event as a peer sends it; its content has the name `name`. -/
def peerEvent (roomId sender kind : String) (stateKey : Option String) (name : String)
    (depth : Int) (prev : List String) : Json :=
  .obj ([("room_id", .str roomId), ("sender", .str sender), ("type", .str kind),
    ("content", (simpleParse name).getD .null), ("origin_server_ts", .int 0),
    ("prev_events", .arr (prev.map .str)), ("auth_events", .arr []), ("depth", .int depth)] ++
    stateKey.toList.map fun key => ("state_key", .str key))

/-- A room `!r` with the local user `@alice:a`. -/
def simpleRoom (id : String) : Room where
  id := id
  kind := .group
  creatorUserId := 1
  isEncrypted := false
  joinRule := .invite
  historyVisibility := .joined

def simpleDb : Db := { matrixUsers := [⟨1, "@alice:a"⟩] }

end Server.F3
