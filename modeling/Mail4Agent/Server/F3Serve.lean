import Mail4Agent.Server.F3Tips

/-!
# History served to peers

Two requests walk back through the predecessors of the events a peer names and return
what they meet; `missingEventIds` and `backfillIds` are the ids of their answers. In a room
whose history is not shared the walk is cut at the least depth of a member event whose state
key looks like a user of the peer. Depths are chosen by the senders: an event that lies behind
all membership events of the peer's users is kept from it exactly if its depth lies below
those of all such member events.
-/

namespace Server.F3

open Ancestry (Ancestor)
open Dag (EventRow Tables)

/-- `i64::MAX`. -/
def maxI64 : Int := 2 ^ 63 - 1

/-- Everybody who is in the room may read its whole history. -/
def historyShared (db : Db) (roomId : String) : Bool :=
  (db.getRoom roomId).any fun room =>
    room.historyVisibility = .shared ∨ room.historyVisibility = .worldReadable

/-- A member event of the room whose state key looks like a user of the server. -/
def isMemberRow (roomId origin : String) (row : EventRow) : Bool :=
  row.roomId = roomId ∧ row.eventType = "m.room.member" ∧
    row.stateKey.any fun key => Text.like ("@%:" ++ origin).toList key.toList

/-- The lowest depth that may be served to a server. -/
def serveMinDepth (db : Db) (roomId origin : String) : Int :=
  if historyShared db roomId then 0
  else (((db.dag.events.filter (isMemberRow roomId origin)).map EventRow.depth).min?).getD maxI64

def prevOf (t : Tables) (id : String) : List String :=
  (t.edges.filter fun edge => edge.1 = id).map Prod.snd

/-- The depth of an event of the room. -/
def depthIn (t : Tables) (roomId id : String) : Option Int :=
  (t.events.find? fun row => row.eventId = id ∧ row.roomId = roomId).map EventRow.depth

/-- Walks back from the ids of the queue, nearest first, never past `stop`. -/
def walkBack (t : Tables) (stop : List String) (limit : Nat) (minDepth : Int) (roomId : String)
    (seen queue : List String) (out : List (Int × String)) : List (Int × String) :=
  match queue with
  | [] => out
  | id :: queue =>
    if limit ≤ out.length then out
    else if id ∈ stop ∨ id ∈ seen then walkBack t stop limit minDepth roomId seen queue out
    else
      match _ : depthIn t roomId id with
      | none => walkBack t stop limit minDepth roomId (id :: seen) queue out
      | some depth =>
        if depth < minDepth then walkBack t stop limit minDepth roomId (id :: seen) queue out
        else walkBack t stop limit minDepth roomId (id :: seen) (queue ++ prevOf t id)
          (out ++ [(depth, id)])
termination_by (Worklist.unseen (t.events.map EventRow.eventId) seen, queue.length)
decreasing_by
  · exact Prod.Lex.right _ (by simp)
  · rcases (Worklist.unseen_mono fun _ => List.mem_cons_of_mem id).lt_or_eq with h | h
    · exact Prod.Lex.left _ _ h
    · exact h ▸ Prod.Lex.right _ (by simp)
  · rcases (Worklist.unseen_mono fun _ => List.mem_cons_of_mem id).lt_or_eq with h | h
    · exact Prod.Lex.left _ _ h
    · exact h ▸ Prod.Lex.right _ (by simp)
  · refine Prod.Lex.left _ _ (Worklist.unseen_cons_lt ?_ (not_or.1 ‹_›).2)
    rename_i hdepth _
    obtain ⟨row, hrow, -⟩ := Option.map_eq_some_iff.1 hdepth
    have hid := List.find?_some hrow
    simp only [decide_eq_true_eq] at hid
    exact hid.1 ▸ List.mem_map_of_mem (List.mem_of_find?_eq_some hrow)

/-- Ordered by depth, then by id. -/
def depthLe (a b : Int × String) : Bool := a.1 < b.1 ∨ (a.1 = b.1 ∧ a.2 ≤ b.2)

/-- The ancestors of `latest` that are not at or behind `earliest`, oldest first. -/
def missingEventIds (db : Db) (roomId origin : String) (earliest latest : List String)
    (limit : Nat) : List String :=
  let roots := latest.flatMap (prevOf db.dag)
  let found := walkBack db.dag earliest (max 1 (min limit 100)) (serveMinDepth db roomId origin)
    roomId [] roots []
  (found.insertionSort fun a b => depthLe a b).map Prod.snd

/-- The events `v` and their ancestors, newest first. -/
def backfillIds (db : Db) (roomId origin : String) (v : List String) (limit : Nat) : List String :=
  let found := walkBack db.dag [] (max 1 (min limit 100)) (serveMinDepth db roomId origin) roomId
    [] v []
  (found.insertionSort fun a b => depthLe b a).map Prod.snd

/-! ### What is served -/

variable {t : Tables} {db : Db} {roomId origin : String}

/-- The walk returns events of the room that are deep enough. -/
theorem mem_walkBack {stop : List String} {limit : Nat} {minDepth : Int} {seen queue : List String}
    {out : List (Int × String)} :
    ∀ entry ∈ walkBack t stop limit minDepth roomId seen queue out,
      entry ∈ out ∨ (depthIn t roomId entry.2 = some entry.1 ∧ minDepth ≤ entry.1) := by
  fun_induction walkBack t stop limit minDepth roomId seen queue out with
  | case1 => exact fun _ h => .inl h
  | case2 => exact fun _ h => .inl h
  | case3 _ _ _ _ _ _ ih => exact ih
  | case4 _ _ _ _ _ _ _ ih => exact ih
  | case5 _ _ _ _ _ _ _ _ _ ih => exact ih
  | case6 seen out id queue _ _ depth hdepth hmin ih =>
    intro entry hentry
    rcases ih entry hentry with h | h
    · rcases List.mem_append.1 h with h | h
      · exact .inl h
      · rw [List.mem_singleton.1 h]
        exact .inr ⟨hdepth, not_lt.1 hmin⟩
    · exact .inr h

/-- The walk starts with the first event of the queue that is deep enough. -/
theorem walkBack_ne_nil_iff {stop : List String} {limit : Nat} {minDepth : Int}
    {seen queue : List String} {out : List (Int × String)} (hlimit : 0 < limit) :
    walkBack t stop limit minDepth roomId seen queue out ≠ [] ↔ out ≠ [] ∨ ∃ x ∈ queue, x ∉ stop ∧
      x ∉ seen ∧ ∃ depth, depthIn t roomId x = some depth ∧ minDepth ≤ depth := by
  fun_induction walkBack t stop limit minDepth roomId seen queue out with
  | case1 => simp
  | case2 seen out id queue hfull =>
    have hout : out ≠ [] := List.ne_nil_of_length_pos (hlimit.trans_le hfull)
    simp [hout]
  | case3 seen out id queue _ hskip ih => rw [ih]; grind
  | case4 seen out id queue _ _ hnone ih => rw [ih]; grind
  | case5 seen out id queue _ _ depth hdepth hmin ih => rw [ih]; grind
  | case6 seen out id queue _ hnew depth hdepth hmin ih =>
    refine iff_of_true (ih.2 (.inl (by simp))) (.inr ⟨id, List.mem_cons_self, ?_⟩)
    rw [not_or] at hnew
    exact ⟨hnew.1, hnew.2, depth, hdepth, not_lt.1 hmin⟩

/-- An event this deep is served: it lies at or above a member event that looks like one of the
server's users. -/
def DeepEnough (db : Db) (roomId origin : String) (depth : Int) : Prop :=
  if historyShared db roomId then 0 ≤ depth
  else (∃ row ∈ db.dag.events, isMemberRow roomId origin row ∧ row.depth ≤ depth) ∨
    ((∀ row ∈ db.dag.events, ¬ isMemberRow roomId origin row) ∧ maxI64 ≤ depth)

theorem serveMinDepth_le_iff {depth : Int} :
    serveMinDepth db roomId origin ≤ depth ↔ DeepEnough db roomId origin depth := by
  unfold serveMinDepth DeepEnough
  split_ifs
  · rfl
  cases hmin : ((db.dag.events.filter (isMemberRow roomId origin)).map EventRow.depth).min? with
  | none =>
    have hnone : ∀ row ∈ db.dag.events, ¬ isMemberRow roomId origin row := by
      simpa [List.filter_eq_nil_iff] using List.min?_eq_none_iff.1 hmin
    refine ⟨fun h => .inr ⟨hnone, h⟩, fun h => (h.resolve_left ?_).2⟩
    rintro ⟨row, hrow, hmember, -⟩
    exact hnone row hrow hmember
  | some least =>
    obtain ⟨hleast, hle⟩ := List.min?_eq_some_iff.1 hmin
    obtain ⟨row, hrow, rfl⟩ := List.mem_map.1 hleast
    obtain ⟨hrow, hmember⟩ := List.mem_filter.1 hrow
    refine ⟨fun h => .inl ⟨row, hrow, hmember, h⟩, fun h => ?_⟩
    obtain ⟨other, hother, hmember', hdepth⟩ :=
      h.resolve_right fun hnone => hnone.1 row hrow hmember
    exact (hle _ (List.mem_map_of_mem (List.mem_filter.2 ⟨hother, hmember'⟩))).trans hdepth

/-- An event of the room that is served to the server if it is asked for. -/
def Servable (db : Db) (roomId origin x : String) : Prop :=
  ∃ depth, depthIn db.dag roomId x = some depth ∧ DeepEnough db roomId origin depth

section Ids

variable {earliest latest v : List String} {limit : Nat} {x : String}

theorem servable_of_mem_missingEventIds
    (h : x ∈ missingEventIds db roomId origin earliest latest limit) :
    Servable db roomId origin x := by
  obtain ⟨entry, hentry, rfl⟩ := List.mem_map.1 h
  have hfound := mem_walkBack entry ((List.mem_insertionSort _).1 hentry)
  exact ⟨entry.1, (hfound.resolve_left List.not_mem_nil).imp_right serveMinDepth_le_iff.1⟩

theorem servable_of_mem_backfillIds (h : x ∈ backfillIds db roomId origin v limit) :
    Servable db roomId origin x := by
  obtain ⟨entry, hentry, rfl⟩ := List.mem_map.1 h
  have hfound := mem_walkBack entry ((List.mem_insertionSort _).1 hentry)
  exact ⟨entry.1, (hfound.resolve_left List.not_mem_nil).imp_right serveMinDepth_le_iff.1⟩

theorem missingEventIds_ne_nil_iff : missingEventIds db roomId origin earliest latest limit ≠ [] ↔
    ∃ x ∈ latest.flatMap (prevOf db.dag), x ∉ earliest ∧ Servable db roomId origin x := by
  have hlimit : 0 < max 1 (min limit 100) := by omega
  simp only [missingEventIds, ne_eq, List.map_eq_nil_iff]
  rw [← List.length_eq_zero_iff, List.length_insertionSort, List.length_eq_zero_iff, ← ne_eq,
    walkBack_ne_nil_iff hlimit]
  simp [serveMinDepth_le_iff, Servable]

theorem backfillIds_ne_nil_iff : backfillIds db roomId origin v limit ≠ [] ↔
    ∃ x ∈ v, Servable db roomId origin x := by
  have hlimit : 0 < max 1 (min limit 100) := by omega
  simp only [backfillIds, ne_eq, List.map_eq_nil_iff]
  rw [← List.length_eq_zero_iff, List.length_insertionSort, List.length_eq_zero_iff, ← ne_eq,
    walkBack_ne_nil_iff hlimit]
  simp [serveMinDepth_le_iff, Servable]

end Ids

/-- A member event of one of the server's users in the room. -/
def IsMembership (db : Db) (roomId origin x : String) : Prop :=
  ∃ row, db.dag.row? x = some row ∧ row.roomId = roomId ∧ row.eventType = "m.room.member" ∧
    ∃ key, row.stateKey = some key ∧ Federation.domainOf key = some origin

/-- A strict ancestor of every membership event of the server's users. -/
def PrecedesAll (db : Db) (roomId origin x : String) : Prop :=
  ∀ m, IsMembership db roomId origin m → Ancestor db.dag.Edge x m

/-- Neither answer to the server holds an event from before its users' memberships. -/
def ServesNoPast (db : Db) (roomId origin : String) : Prop :=
  (∀ earliest latest limit, ∀ x ∈ missingEventIds db roomId origin earliest latest limit,
    ¬ PrecedesAll db roomId origin x) ∧
  ∀ v limit, ∀ x ∈ backfillIds db roomId origin v limit, ¬ PrecedesAll db roomId origin x

/-- Asked for one event, the server returns it if it may be served. -/
theorem mem_backfillIds_self {x : String} (h : Servable db roomId origin x) :
    x ∈ backfillIds db roomId origin [x] 1 := by
  obtain ⟨depth, hdepth, hdeep⟩ := h
  have hwalk : walkBack db.dag [] 1 (serveMinDepth db roomId origin) roomId [] [x] [] =
      [(depth, x)] := by
    rw [walkBack, if_neg (by simp), if_neg (by simp)]
    split
    · rename_i hnone
      rw [hdepth] at hnone
      cases hnone
    · rename_i found hfound
      rw [hdepth] at hfound
      cases hfound
      rw [if_neg (not_lt.2 (serveMinDepth_le_iff.2 hdeep))]
      -- The limit is reached.
      cases hqueue : [] ++ prevOf db.dag x with
      | nil => rw [walkBack]; rfl
      | cons next rest => rw [walkBack, if_pos (by simp)]; rfl
  unfold backfillIds
  simp [hwalk]

/-- In a room whose history is not shared, the past is kept from a server exactly if every event
from before its users' memberships lies below all member events that look like its users', and
below the largest depth if there are none. -/
theorem servesNoPast_iff (hshared : historyShared db roomId = false) :
    ServesNoPast db roomId origin ↔
      ∀ x depth, depthIn db.dag roomId x = some depth → PrecedesAll db roomId origin x →
        (∀ row ∈ db.dag.events, isMemberRow roomId origin row → depth < row.depth) ∧
        ((∀ row ∈ db.dag.events, ¬ isMemberRow roomId origin row) → depth < maxI64) := by
  have hdeep (depth : Int) : ((∀ row ∈ db.dag.events, isMemberRow roomId origin row →
      depth < row.depth) ∧ ((∀ row ∈ db.dag.events, ¬ isMemberRow roomId origin row) →
        depth < maxI64)) ↔ ¬ DeepEnough db roomId origin depth := by
    simp [DeepEnough, hshared]
  simp only [hdeep]
  constructor
  · rintro ⟨-, hbackfill⟩ x depth hdepth hpast hserved
    exact hbackfill [x] 1 x (mem_backfillIds_self ⟨depth, hdepth, hserved⟩) hpast
  · intro h
    refine ⟨fun earliest latest limit x hx hpast => ?_, fun v limit x hx hpast => ?_⟩
    · obtain ⟨depth, hdepth, hserved⟩ := servable_of_mem_missingEventIds hx
      exact h x depth hdepth hpast hserved
    · obtain ⟨depth, hdepth, hserved⟩ := servable_of_mem_backfillIds hx
      exact h x depth hdepth hpast hserved

/-- A peer's user joins with an event of depth 0 on top of a message of depth 2. -/
def shallowJoin : List Op :=
  [.createRoom (simpleRoom "!r"), .localState "" "!r" 1 "m.room.create" "" "x" 0 "",
    .localMessage "" "!r" 1 "m.room.message" "a" 0,
    .receive none (peerEvent "!r" "@bob:b" "m.room.member" (some "@bob:b") "join" 0 ["$ra"]) [] ""]

/-- The history is not shared, and the message from before the join is served. -/
theorem not_servesNoPast_shallowJoin :
    ∃ db, Trace.run (step simpleConfig simpleFederation) simpleDb shallowJoin = db ∧
      historyShared db "!r" = false ∧ ¬ ServesNoPast db "!r" "b" := by
  have hrun : ∃ db, Trace.run (step simpleConfig simpleFederation) simpleDb shallowJoin = db ∧
      historyShared db "!r" = false ∧ depthIn db.dag "!r" "$ra" = some 2 ∧
      serveMinDepth db "!r" "b" = 0 ∧
      (∀ row ∈ db.dag.events, row.eventType = "m.room.member" → row.eventId = "$rjoin") ∧
      ("$rjoin", "$ra") ∈ db.dag.edges :=
    ⟨_, rfl, by decide +kernel⟩
  obtain ⟨db, hdb, hshared, hdepth, hmin, hmember, hedge⟩ := hrun
  refine ⟨db, hdb, hshared, fun h => ?_⟩
  have hserved := serveMinDepth_le_iff.1 (hmin.le.trans (by decide : (0 : Int) ≤ 2))
  refine h.2 ["$ra"] 1 "$ra" (mem_backfillIds_self ⟨2, hdepth, hserved⟩) ?_
  rintro m ⟨row, hrow, -, htype, -⟩
  obtain ⟨hmem, rfl⟩ := Tables.row?_eq_some hrow
  rw [hmember row hmem htype]
  exact .single hedge

/-- A server without users in the room is served nothing. -/
theorem servesNoPast_stranger : ∃ db,
    Trace.run (step simpleConfig simpleFederation) simpleDb shallowJoin = db ∧
      historyShared db "!r" = false ∧ ServesNoPast db "!r" "c" := by
  have hrun : ∃ db, Trace.run (step simpleConfig simpleFederation) simpleDb shallowJoin = db ∧
      historyShared db "!r" = false ∧ (∀ row ∈ db.dag.events, ¬ isMemberRow "!r" "c" row) ∧
      ∀ row ∈ db.dag.events, row.depth < maxI64 :=
    ⟨_, rfl, by decide +kernel⟩
  obtain ⟨db, hdb, hshared, hnone, hdepths⟩ := hrun
  refine ⟨db, hdb, hshared, (servesNoPast_iff hshared).2 fun x depth hdepth _ => ?_⟩
  obtain ⟨row, hrow, rfl⟩ := Option.map_eq_some_iff.1 hdepth
  exact ⟨fun other hother hmember => absurd hmember (hnone other hother),
    fun _ => hdepths row (List.mem_of_find?_eq_some hrow)⟩

end Server.F3
