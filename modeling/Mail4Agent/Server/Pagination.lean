import Mail4Agent.Server.Messaging

/-!
# Walking through a room's history

A client reads a room by asking for a page, then for the page at the `end` token of that
answer, until an answer has no such token. On a store nobody writes to, the pages are
consecutive pieces of the room's events in the direction of the walk, so the walk is
`Page.readPages` on that list.

A page that holds an event outside the caller's window ends the walk. Walking forward such
an event is behind everything the caller may see. Walking backward it is in front of it:
someone who has left a room and asks for its newest events gets at most one page.
-/

namespace Server.Pagination

open Messaging

/-- The events of a room in the tables its pages are read from. -/
def roomEvents (db : Db) (roomId : String) : List MatrixEvent :=
  db.events.filter (fun event => event.roomId = roomId) ++
    if db.isPublicRoom roomId then db.pubEvents.filter fun event => event.roomId = roomId else []

/-- Events have positions of their own, handed out by the counter and small enough for a
token. -/
structure Numbered (db : Db) (roomId : String) : Prop where
  distinct : (roomEvents db roomId).Pairwise (·.streamId ≠ ·.streamId)
  range : ∀ event ∈ roomEvents db roomId,
    0 < event.streamId ∧ event.streamId ≤ db.streamCounter ∧ event.streamId < i64Bound

/-- Where an event stands in a walk. -/
def place (dir : Direction) (event : MatrixEvent) : Int :=
  match dir with
  | .backward => -event.streamId
  | .forward => event.streamId

/-- The event lies ahead of a walk at `position`. -/
def ahead (dir : Direction) (position : Int) (event : MatrixEvent) : Bool :=
  match dir with
  | .backward => event.streamId < position
  | .forward => position < event.streamId

/-- The room's events ahead of a position, in the order of the walk. -/
def remaining (db : Db) (roomId : String) (dir : Direction) (position : Int) :
    List MatrixEvent :=
  ((roomEvents db roomId).filter (ahead dir position)).insertionSort
    fun a b => place dir a ≤ place dir b

/-- What a walk is asked for. -/
structure Ask where
  roomId : String
  window : HistoryWindow
  toStream : Option Int
  dir : Direction
  requested : Option Int
  filter : EventFilter

namespace Ask

variable (ask : Ask)

def limit : Nat := clampLimit ask.requested

/-- The event ends the walk. -/
def stops (event : MatrixEvent) : Bool := hardTruncated ask.window ask.toStream ask.dir event

/-- The event lies inside the window and before the boundary. -/
def inside (event : MatrixEvent) : Bool :=
  ask.window.contains event.streamId && ask.toStream.all fun bound => match ask.dir with
    | .backward => bound < event.streamId
    | .forward => event.streamId < bound

/-- The event is one the walk has to return. -/
def wants (event : MatrixEvent) : Bool :=
  ask.inside event ∧ passesTypeFilter event.eventType ask.filter.types ask.filter.notTypes

/-- The page at a position, with nobody else writing. -/
def pageAt (db : Db) (typing : TypingRegistry) (position : Int) :
    Except MatrixError MessagesPage :=
  ((paginateMessages ask.roomId ask.window position ask.toStream ask.dir ask.limit
    ask.filter).run .writer { store := db, memory := typing }).1

/-- The position a token stands for. -/
def positionOf (token : StreamToken) : Int :=
  match ask.dir with
  | .backward => token.backwardBound
  | .forward => token.forwardBound

/-- The position a walk starts at. -/
def start (db : Db) («from» : Option StreamToken) : Int :=
  match «from», ask.dir with
  | some token, _ => ask.positionOf token
  | none, .backward => db.streamCounter + 1
  | none, .forward => 0

/-- Follow the `end` tokens, as the texts they are sent as; `none` if `fuel` pages are not
enough or a request fails. -/
def walk (db : Db) (typing : TypingRegistry) : Nat → Int → Option (List MatrixEvent)
  | 0, _ => none
  | fuel + 1, position =>
    match ask.pageAt db typing position with
    | .error _ => none
    | .ok page =>
      match page.end with
      | none => some page.chunk
      | some token =>
        match StreamToken.parse (formatStreamToken token.streamId) with
        | .error _ => none
        | .ok token => (walk db typing fuel (ask.positionOf token)).map (page.chunk ++ ·)

/-- The walk ends with every wanted event, once and in order. -/
def Exact (db : Db) (typing : TypingRegistry) (position : Int) : Prop :=
  ∃ enough, ∀ fuel, enough ≤ fuel → ask.walk db typing fuel position =
    some ((remaining db ask.roomId ask.dir position).filter ask.wants)

/-- Walking backward, the first event met is inside the window, or everything wanted is on
the first page. -/
def StartsInside (db : Db) (position : Int) : Prop :=
  ask.dir = .backward →
    (∀ event ∈ (remaining db ask.roomId .backward position).head?,
      ask.window.contains event.streamId = true) ∨
    ∀ event ∈ (remaining db ask.roomId .backward position).drop ask.limit,
      ask.wants event = false

instance (db : Db) (position : Int) : Decidable (ask.StartsInside db position) :=
  inferInstanceAs (Decidable (_ → _ ∨ _))

end Ask

namespace Ask

variable {ask : Ask} {db : Db} {typing : TypingRegistry} {position : Int}

/-! ### Pages as pieces of the history -/

theorem select_newestFirst (limit : Nat) (rows : List MatrixEvent) :
    Page.select Store.newestFirst limit rows = Page.select (place .backward) limit rows := by
  have hrel : (fun a b => Store.newestFirst a ≤ Store.newestFirst b) =
      fun a b : MatrixEvent => place .backward a ≤ place .backward b := by
    funext a b
    exact propext (by simp [Store.newestFirst, place])
  unfold Page.select
  congr 1
  simp only [hrel]

theorem select_oldestFirst (limit : Nat) (rows : List MatrixEvent) :
    Page.select MatrixEvent.streamId limit rows = Page.select (place .forward) limit rows := rfl

variable {roomId : String} {rows : List MatrixEvent} {dir : Direction}

theorem place_injOn (h : Numbered db roomId) (dir : Direction) :
    Set.InjOn (place dir) {event | event ∈ roomEvents db roomId} := by
  intro a ha b hb heq
  have hid : a.streamId = b.streamId := by
    cases dir <;> simpa [place] using heq
  have hsymm : Std.Symm fun a b : MatrixEvent => a.streamId ≠ b.streamId := ⟨fun _ _ => Ne.symm⟩
  by_contra hne
  exact h.distinct.forall ha hb hne hid

/-- Distinct positions give distinct places. -/
theorem distinct_place (h : rows.Pairwise (·.streamId ≠ ·.streamId)) (dir : Direction) :
    rows.Pairwise (place dir · ≠ place dir ·) := by
  refine h.imp fun hne heq => hne ?_
  cases dir <;> simpa [place] using heq

/-- The one statement of a page in one table. -/
def tablePage (dir : Direction) (roomId : String) (position : Int) (limit : Nat)
    (rows : List MatrixEvent) : List MatrixEvent :=
  Page.select (place dir) limit (rows.filter fun event => event.roomId = roomId ∧
    ahead dir position event)

/-- The page read for a request: a public room's posts are merged into it. -/
def rawPage (dir : Direction) (roomId : String) (position : Int) (limit : Nat) (db : Db) :
    List MatrixEvent :=
  let out := tablePage dir roomId position limit db.events
  if db.isPublicRoom roomId then
    Page.select (place dir) limit (out ++ tablePage dir roomId position limit db.pubEvents)
  else out

theorem isPage_tablePage (dir : Direction) (position : Int) (limit : Nat)
    (h : (rows.filter fun event => event.roomId = roomId).Pairwise (·.streamId ≠ ·.streamId)) :
    Page.IsPage (place dir) limit
      {event | event ∈ (rows.filter fun event => event.roomId = roomId) ∧
        ahead dir position event = true}
      (tablePage dir roomId position limit rows) := by
  have hsub : (rows.filter fun event => event.roomId = roomId ∧ ahead dir position event).Pairwise
      (·.streamId ≠ ·.streamId) := by
    refine h.sublist (List.monotone_filter_right _ fun event hevent => ?_)
    simp only [decide_eq_true_eq] at hevent ⊢
    exact hevent.1
  have hitems : {event | event ∈ (rows.filter fun event => event.roomId = roomId) ∧
      ahead dir position event = true} =
        {event | event ∈ rows.filter fun event => event.roomId = roomId ∧
          ahead dir position event} := by
    ext event
    simp [and_assoc]
  rw [hitems]
  exact Page.isPage_select (distinct_place hsub dir)

theorem sorted_remaining (h : Numbered db roomId) (dir : Direction) (position : Int) :
    (remaining db roomId dir position).Pairwise (place dir · < place dir ·) := by
  have hle : (remaining db roomId dir position).Pairwise (place dir · ≤ place dir ·) :=
    List.pairwise_insertionSort _ _
  have hne : (remaining db roomId dir position).Pairwise (place dir · ≠ place dir ·) :=
    (List.perm_insertionSort _ _).symm.pairwise
      ((distinct_place h.distinct dir).sublist List.filter_sublist) fun hab => hab.symm
  exact (hle.and hne).imp fun h => lt_of_le_of_ne h.1 h.2

theorem mem_remaining {event : MatrixEvent} :
    event ∈ remaining db roomId dir position ↔
      event ∈ roomEvents db roomId ∧ ahead dir position event = true := by
  simp [remaining]

/-- A page is the beginning of what remains. -/
theorem rawPage_eq (h : Numbered db roomId) (dir : Direction) (limit : Nat) :
    rawPage dir roomId position limit db = (remaining db roomId dir position).take limit := by
  have hdistinct := h.distinct
  rw [roomEvents, List.pairwise_append] at hdistinct
  have hclosed := isPage_tablePage dir position limit hdistinct.1
  unfold rawPage
  split_ifs with hpublic
  · rw [if_pos hpublic] at hdistinct
    have hposts := isPage_tablePage dir position limit hdistinct.2.1
    refine (hclosed.merge hposts ?_ ?_).eq_take (sorted_remaining h dir position) fun event => ?_
    · refine List.pairwise_append.2 ⟨hclosed.sorted.imp ne_of_lt, hposts.sorted.imp ne_of_lt, ?_⟩
      intro a ha b hb heq
      refine hdistinct.2.2 a (hclosed.mem_items a ha).1 b (hposts.mem_items b hb).1 ?_
      cases dir <;> simpa [place] using heq
    · refine (place_injOn h dir).mono ?_
      rintro event (hevent | hevent)
      · exact List.mem_append_left _ hevent.1
      · exact List.mem_append_right _ (by rw [if_pos hpublic]; exact hevent.1)
    · simp [mem_remaining, roomEvents, hpublic, or_and_right]
  · refine hclosed.eq_take (sorted_remaining h dir position) fun event => ?_
    simp [mem_remaining, roomEvents, hpublic]

section Alone

variable (roomId : String) (position : Int) (limit : Nat) (db : Db) (typing : TypingRegistry)
  {β : Type} (next : List MatrixEvent → Prog β)

/-- Reading a page backward, with nobody else writing. -/
theorem run_eventsInRoomBefore : ∃ seen,
    (Store.eventsInRoomBefore roomId position limit >>= next).run .writer
        { store := db, memory := typing } =
      (next (rawPage .backward roomId position limit db)).run .writer
        { store := db, memory := typing, seen := seen } := by
  cases hpublic : db.isPublicRoom roomId with
  | true =>
    refine ⟨[db, db, db], ?_⟩
    simp [rawPage, tablePage, hpublic, ← select_newestFirst, ahead, Store.eventsInRoomBefore,
      Store.isPublicRoom, Program.query, Bind.bind, Program.bind, Program.run,
      Program.Machine.advance, Pure.pure]
  | false =>
    refine ⟨[db, db], ?_⟩
    simp [rawPage, tablePage, hpublic, ← select_newestFirst, ahead, Store.eventsInRoomBefore,
      Store.isPublicRoom, Program.query, Bind.bind, Program.bind, Program.run,
      Program.Machine.advance, Pure.pure]

/-- Reading a page forward, with nobody else writing. -/
theorem run_eventsInRoomAfter : ∃ seen,
    (Store.eventsInRoomAfter roomId position limit >>= next).run .writer
        { store := db, memory := typing } =
      (next (rawPage .forward roomId position limit db)).run .writer
        { store := db, memory := typing, seen := seen } := by
  cases hpublic : db.isPublicRoom roomId with
  | true =>
    refine ⟨[db, db, db], ?_⟩
    simp [rawPage, tablePage, hpublic, ← select_oldestFirst, ahead, Store.eventsInRoomAfter,
      Store.isPublicRoom, Program.query, Bind.bind, Program.bind, Program.run,
      Program.Machine.advance, Pure.pure]
  | false =>
    refine ⟨[db, db], ?_⟩
    simp [rawPage, tablePage, hpublic, ← select_oldestFirst, ahead, Store.eventsInRoomAfter,
      Store.isPublicRoom, Program.query, Bind.bind, Program.bind, Program.run,
      Program.Machine.advance, Pure.pure]

end Alone

/-! ### The walk -/

theorem stops_eq_not_inside (event : MatrixEvent) : ask.stops event = !ask.inside event := by
  obtain ⟨roomId, window, toStream, dir, requested, filter⟩ := ask
  cases toStream <;> cases dir <;> cases hin : window.contains event.streamId <;>
    simp [stops, inside, hardTruncated, hin, ← decide_not]

/-- What is kept of a page are the wanted events. -/
theorem filter_wants (page : List MatrixEvent) :
    (page.filter fun event => ¬ hardTruncated ask.window ask.toStream ask.dir event ∧
      passesTypeFilter event.eventType ask.filter.types ask.filter.notTypes) =
        page.filter ask.wants := by
  refine List.filter_congr fun event _ => ?_
  have hstops : hardTruncated ask.window ask.toStream ask.dir event = !ask.inside event :=
    stops_eq_not_inside event
  simp [wants, hstops]

theorem limit_pos : 0 < ask.limit := by
  unfold limit clampLimit
  omega

theorem pageAt_eq (h : Numbered db ask.roomId) :
    ask.pageAt db typing position = .ok
      { chunk := ((remaining db ask.roomId ask.dir position).take ask.limit).filter ask.wants
        start := { streamId := position, afterEvent := false }
        «end» :=
          if ((remaining db ask.roomId ask.dir position).take ask.limit).length < ask.limit ∨
              ((remaining db ask.roomId ask.dir position).take ask.limit).any ask.stops then none
          else ((remaining db ask.roomId ask.dir position).take ask.limit).getLast?.map
            onEvent } := by
  rw [← rawPage_eq h]
  obtain ⟨roomId, window, toStream, dir, requested, filter⟩ := ask
  unfold pageAt paginateMessages
  cases dir with
  | backward =>
    obtain ⟨seen, hseen⟩ :=
      run_eventsInRoomBefore roomId position (clampLimit requested) db typing _
    rw [← filter_wants]
    exact congrArg Prod.fst hseen
  | forward =>
    obtain ⟨seen, hseen⟩ := run_eventsInRoomAfter roomId position (clampLimit requested) db typing _
    rw [← filter_wants]
    exact congrArg Prod.fst hseen

/-- What is ahead of the last event of a page is what the page left over. -/
theorem remaining_last (h : Numbered db roomId) {limit : Nat} {last : MatrixEvent}
    (hlast : ((remaining db roomId dir position).take limit).getLast? = some last) :
    remaining db roomId dir last.streamId = (remaining db roomId dir position).drop limit := by
  have hsorted := sorted_remaining h dir position
  have hmemLast : last ∈ (remaining db roomId dir position).take limit := List.mem_of_getLast? hlast
  -- both lists are sorted, so it is enough that they have the same elements
  have hahead : ∀ {event : MatrixEvent},
      ahead dir last.streamId event = true ↔ place dir last < place dir event := by
    intro event
    cases dir <;> simp [ahead, place]
  have hmem : ∀ event, event ∈ (remaining db roomId dir position).drop limit ↔
      event ∈ remaining db roomId dir last.streamId := by
    intro event
    rw [mem_remaining, hahead]
    have hsplit := hsorted
    rw [← List.take_append_drop limit (remaining db roomId dir position),
      List.pairwise_append] at hsplit
    constructor
    · intro hevent
      exact ⟨(mem_remaining.1 (List.mem_of_mem_drop hevent)).1, hsplit.2.2 _ hmemLast _ hevent⟩
    · rintro ⟨hroom, hlt⟩
      have hposition : ahead dir position event = true := by
        have hfirst := (mem_remaining.1 (List.mem_of_mem_take hmemLast)).2
        cases dir <;> simp only [ahead, place, decide_eq_true_eq] at hfirst hlt ⊢ <;> omega
      have hall : event ∈ remaining db roomId dir position := mem_remaining.2 ⟨hroom, hposition⟩
      rw [← List.take_append_drop limit (remaining db roomId dir position),
        List.mem_append] at hall
      refine hall.resolve_left fun htake => ?_
      -- nothing of the page comes after its last event
      have hle : place dir event ≤ place dir last := by
        obtain ⟨front, hfront⟩ := List.getLast?_eq_some_iff.1 hlast
        rw [hfront] at htake hsplit
        rcases List.mem_append.1 htake with hin | hin
        · exact ((List.pairwise_append.1 hsplit.1).2.2 _ hin _ (by simp)).le
        · rw [List.mem_singleton.1 hin]
      exact absurd hlt hle.not_gt
  have hleft := sorted_remaining h dir last.streamId
  have hright := hsorted.sublist (List.drop_sublist limit _)
  have hperm : (remaining db roomId dir last.streamId).Perm
      ((remaining db roomId dir position).drop limit) :=
    (List.perm_ext_iff_of_nodup (hleft.imp fun hlt heq => hlt.ne (congrArg _ heq))
      (hright.imp fun hlt heq => hlt.ne (congrArg _ heq))).2 fun event => (hmem event).symm
  exact hperm.eq_of_pairwise (fun _ _ _ _ hab hba => (lt_asymm hab hba).elim) hleft hright

/-- The walk reads the history page by page. -/
theorem walk_eq (h : Numbered db ask.roomId) (fuel : Nat)
    (hfuel : (remaining db ask.roomId ask.dir position).length < fuel) :
    ask.walk db typing fuel position = some ((Page.readPages ask.limit ask.stops fuel
      (remaining db ask.roomId ask.dir position)).filter ask.wants) := by
  induction fuel generalizing position with
  | zero => omega
  | succ fuel ih =>
    rw [walk, pageAt_eq h, Page.readPages]
    dsimp only
    split_ifs with hend
    · rfl
    · -- the page is full, so it has a last event, which the next page starts behind
      rw [not_or, not_lt] at hend
      have hne : (remaining db ask.roomId ask.dir position).take ask.limit ≠ [] := by
        intro hnil
        rw [hnil] at hend
        exact absurd hend.1 (by simpa using ask.limit_pos.ne')
      obtain ⟨last, hlast⟩ := Option.isSome_iff_exists.1 (List.getLast?_isSome.2 hne)
      have hrange := h.range last (mem_remaining.1
        (List.mem_of_mem_take (List.mem_of_getLast? hlast))).1
      have hposition : ask.positionOf { streamId := last.streamId, afterEvent := false } =
          last.streamId := by
        unfold positionOf
        cases ask.dir <;> rfl
      have hshort : ((remaining db ask.roomId ask.dir position).drop ask.limit).length < fuel := by
        have := hend.1
        rw [List.length_take] at this
        have := ask.limit_pos
        rw [List.length_drop]
        omega
      simp only [hlast, Option.map_some, onEvent,
        StreamToken.parse_formatStreamToken hrange.1.le hrange.2.2, hposition]
      rw [ih (by rwa [remaining_last h hlast]), remaining_last h hlast, Option.map_some,
        List.filter_append]

theorem wants_not_stops (event : MatrixEvent) (h : ask.wants event = true) :
    ask.stops event = false := by
  rw [stops_eq_not_inside]
  simp only [wants, decide_eq_true_eq] at h
  rw [h.1, Bool.not_true]

/-- Stopping is final, unless a walk backward starts outside the window. -/
theorem stops_mono (h : Numbered db ask.roomId)
    (hinside : ask.dir = .backward →
      ∀ event ∈ (remaining db ask.roomId .backward position).head?,
        ask.window.contains event.streamId = true) :
    (remaining db ask.roomId ask.dir position).Pairwise fun a b =>
      ask.stops a = true → ask.stops b = true := by
  have hsorted := sorted_remaining h ask.dir position
  obtain ⟨roomId, window, toStream, dir, requested, filter⟩ := ask
  refine hsorted.imp_of_mem ?_
  intro a b ha hb hlt hstop
  simp only [stops, hardTruncated, decide_eq_true_eq, Bool.not_eq_true] at hstop ⊢
  cases dir with
  | forward =>
    simp only [place] at hlt
    refine hstop.imp (fun hout => ?_) fun hbound => ?_
    · by_contra hin
      rw [Bool.not_eq_false] at hin
      exact Bool.false_ne_true (hout.symm.trans (HistoryWindow.contains_mono hlt.le hin))
    · obtain ⟨bound, rfl, hle⟩ := (Option.any_eq_true _ _).1 hbound
      simp only [Option.any_some, decide_eq_true_eq] at hle ⊢
      omega
  | backward =>
    simp only [place] at hlt
    have hin : window.contains a.streamId = true := by
      cases hrows : remaining db roomId .backward position with
      | nil =>
        rw [hrows] at ha
        cases ha
      | cons first rest =>
        have hfirst := hinside rfl first (by simp [hrows])
        rw [hrows] at ha hsorted
        rcases List.mem_cons.1 ha with rfl | ha
        · exact hfirst
        · have hle := (List.pairwise_cons.1 hsorted).1 a ha
          simp only [place] at hle
          exact HistoryWindow.contains_mono (by omega) hfirst
    refine .inr ?_
    obtain ⟨bound, rfl, hle⟩ :=
      (Option.any_eq_true _ _).1 (hstop.resolve_left (by rw [hin]; exact Bool.noConfusion))
    simp only [Option.any_some, decide_eq_true_eq] at hle ⊢
    omega

end Ask

open Ask in
/-- Following the `end` tokens gives exactly the events asked for, unless the walk goes
backward and starts outside the caller's window. -/
theorem exact_iff_startsInside {db : Db} (ask : Ask) (h : Numbered db ask.roomId)
    (typing : TypingRegistry) («from» : Option StreamToken) :
    ask.Exact db typing (ask.start db «from») ↔ ask.StartsInside db (ask.start db «from») := by
  generalize ask.start db «from» = position
  constructor
  · rintro ⟨enough, hexact⟩ hback
    refine or_iff_not_imp_left.2 fun hout => ?_
    push Not at hout
    obtain ⟨first, hfirst, houtside⟩ := hout
    obtain ⟨rest, hrows⟩ := List.head?_eq_some_iff.1 (Option.mem_def.1 hfirst)
    have hrows' : remaining db ask.roomId ask.dir position = first :: rest := by rw [hback, hrows]
    have hstop : ask.stops first = true := by
      simp [stops, hardTruncated, houtside]
    -- the walk ends with its first page
    have hwalk : ask.walk db typing (max enough (rest.length + 1) + 1) position = _ :=
      walk_eq h _ (by rw [hrows', List.length_cons]; omega)
    rw [hexact _ (by omega), hrows', Page.readPages_of_stop_head limit_pos hstop] at hwalk
    have hsplit := List.filter_append (p := ask.wants) ((first :: rest).take ask.limit)
      ((first :: rest).drop ask.limit)
    rw [List.take_append_drop, Option.some.inj hwalk] at hsplit
    rw [hrows]
    simpa using List.append_right_eq_self.1 hsplit.symm
  · intro hinside
    refine ⟨(remaining db ask.roomId ask.dir position).length + 1, fun fuel hfuel => ?_⟩
    rw [walk_eq h fuel hfuel, Option.some.injEq]
    by_cases hhead : ask.dir = .backward → ∀ event ∈
        (remaining db ask.roomId .backward position).head?,
          ask.window.contains event.streamId = true
    · exact Page.filter_readPages limit_pos wants_not_stops hfuel (stops_mono h hhead)
    · -- only the first page is read, and it holds everything
      push Not at hhead
      obtain ⟨hback, first, hfirst, houtside⟩ := hhead
      obtain ⟨rest, hrows⟩ := List.head?_eq_some_iff.1 (Option.mem_def.1 hfirst)
      have hdrop := (hinside hback).resolve_left fun hall => houtside (hall first hfirst)
      obtain ⟨fuel, rfl⟩ := Nat.exists_eq_succ_of_ne_zero (Nat.ne_of_gt (Nat.lt_of_lt_of_le
        (Nat.succ_pos _) hfuel))
      have hstop : ask.stops first = true := by
        simp [stops, hardTruncated, houtside]
      rw [hback, hrows, Page.readPages_of_stop_head limit_pos hstop]
      rw [hrows] at hdrop
      have hnone : ((first :: rest).drop ask.limit).filter ask.wants = [] :=
        List.filter_eq_nil_iff.2 fun event hevent hwant =>
          Bool.false_ne_true ((hdrop event hevent).symm.trans hwant)
      conv_rhs => rw [← List.take_append_drop ask.limit (first :: rest), List.filter_append, hnone,
        List.append_nil]

/-- Two messages, the caller's leave, and a message they may not see. -/
def leftRoom : Db where
  streamCounter := 4
  rooms := [{ id := "!r:a", kind := .group, creatorUserId := 1, isEncrypted := true
              joinRule := .invite, historyVisibility := .shared }]
  events :=
    [⟨1, "$1", "!r:a", 1, "m.room.encrypted", none, "", 0, none, none, none⟩,
     ⟨2, "$2", "!r:a", 1, "m.room.encrypted", none, "", 0, none, none, none⟩,
     ⟨3, "$3", "!r:a", 2, "m.room.member", some "@left:a", "", 0, none, none, none⟩,
     ⟨4, "$4", "!r:a", 1, "m.room.encrypted", none, "", 0, none, none, none⟩]

/-- Whoever has left the room reads its messages backward, two at a time. -/
def leftAsk : Ask := ⟨"!r:a", .upTo 3, none, .backward, some 2, {}⟩

theorem leftRoom_numbered : Numbered leftRoom "!r:a" := by
  refine ⟨by decide +kernel, ?_⟩
  decide +kernel

def nobodyTypes : TypingRegistry := ⟨fun _ => none, 0⟩

/-- From the event they left with, they get the three events up to it. -/
theorem exact_from_leave :
    leftAsk.Exact leftRoom nobodyTypes (leftAsk.start leftRoom (some ⟨3, true⟩)) :=
  (exact_iff_startsInside leftAsk leftRoom_numbered nobodyTypes (some ⟨3, true⟩)).2
    (by decide +kernel)

/-- From the newest event on, the first page ends the walk. -/
theorem not_exact_from_newest :
    ¬ leftAsk.Exact leftRoom nobodyTypes (leftAsk.start leftRoom none) := by
  rintro ⟨enough, hexact⟩
  have hwanted : ((remaining leftRoom "!r:a" .backward 5).filter leftAsk.wants).length = 3 := by
    decide +kernel
  have hpage : (leftAsk.pageAt leftRoom nobodyTypes 5).map
      (fun page => (page.chunk.length, page.end)) = .ok (1, none) := by
    rfl
  have hwalk := hexact (enough + 1) (Nat.le_succ _)
  cases hresult : leftAsk.pageAt leftRoom nobodyTypes 5 with
  | error e =>
    rw [hresult] at hpage
    cases hpage
  | ok page =>
    rw [hresult] at hpage
    simp only [Except.map, Except.ok.injEq, Prod.mk.injEq] at hpage
    have hstart : leftAsk.start leftRoom none = 5 := rfl
    rw [hstart, Ask.walk, hresult] at hwalk
    simp only [hpage.2, Option.some.injEq] at hwalk
    rw [hwalk] at hpage
    exact absurd (hpage.1.symm.trans hwanted) (by decide)

end Server.Pagination
