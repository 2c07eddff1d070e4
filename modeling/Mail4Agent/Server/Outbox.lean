import Mail4Agent.Foundation.Data
import Mail4Agent.Foundation.Page
import Mail4Agent.Foundation.Trace

/-!
# The federation outbox

Items for other servers are queued in one table. The worker drains it from time to time:
it fetches the first rows that are due, groups them by destination, and offers each group
in transactions of at most twenty items, invites on their own. A request that is not
answered as hoped sends its rows into a backoff and ends the turn of its destination.

The world records every request with the table as it stood when the request was made.
`drainDestination_eq_serve` takes the worker's loop apart into the requests it would make,
which do not depend on the answers, and their serving one after another.
-/

namespace Server.Outbox

inductive Kind where
  | send | edu | invite
deriving DecidableEq, Repr

/-- What is queued. -/
structure Item where
  destination : String
  kind : Kind
  roomId : String := ""
  eventId : String := ""
  payload : String := ""
deriving DecidableEq, Repr

structure Row extends Item where
  id : Nat
  attempts : Nat := 0
  nextTryMs : Int := 0
deriving DecidableEq, Repr

/-- The peer's answer, or that none came back; then it may have taken the request or not. -/
inductive Answer where
  | status (code : Nat)
  | lost (arrived : Bool)
deriving DecidableEq, Repr

/-- An answer and the clock when it came or was given up. -/
structure Reply where
  answer : Answer
  clockMs : Int
deriving DecidableEq, Repr

/-- A request, with the table at that moment and the time its drain started. -/
structure Offer where
  destination : String
  rows : List Row
  queued : List Row
  nowMs : Int
  answer : Answer
deriving DecidableEq, Repr

namespace Offer

variable (offer : Offer)

/-- The peer has taken the request, whether or not its answer came back. -/
def taken : Bool := offer.answer = .status 200 ∨ offer.answer = .lost true

end Offer

structure World where
  rows : List Row := []
  nextId : Nat := 1
  offers : List Offer := []
deriving DecidableEq, Repr

/-- An invite that is refused for good is dropped as well. -/
def Answer.settles (answer : Answer) (rows : List Row) : Bool :=
  answer = .status 200 ∨ (answer = .status 403 ∧ rows.any fun row => row.kind = .invite)

def backoffMs (attempts : Nat) : Int := min (1000 * 2 ^ min attempts 10) 600000

namespace World

variable (w : World)

def enqueue (item : Item) : World :=
  { w with rows := w.rows ++ [{ item with id := w.nextId }], nextId := w.nextId + 1 }

def deleteRows (done : List Row) : World :=
  { w with rows := w.rows.filter fun row => ∀ d ∈ done, d.id ≠ row.id }

def failedRow (failed : List Row) (clockMs : Int) (row : Row) : Row :=
  match failed.find? fun f => f.id = row.id with
  | some f => { row with attempts := row.attempts + 1, nextTryMs := clockMs + backoffMs f.attempts }
  | none => row

def markFailed (failed : List Row) (clockMs : Int) : World :=
  { w with rows := w.rows.map (failedRow failed clockMs) }

/-- A request is made. -/
def offer (destination : String) (nowMs : Int) (answer : Answer) (rows : List Row) : World :=
  { w with offers := w.offers ++ [{ destination, rows, queued := w.rows, nowMs, answer }] }

end World

def fetchLimit : Nat := 300

def batchLimit : Nat := 20

/-- The first rows that are due. -/
def fetch (nowMs : Int) (w : World) : List Row :=
  Page.select Row.id fetchLimit (w.rows.filter fun row => row.nextTryMs ≤ nowMs)

section Drain

variable (nowMs : Int) (destination : String) (replies : Nat → Reply)

/-- One transaction; it tells whether the peer confirmed it. -/
def sendBatch (n : Nat) (rows : List Row) (w : World) : Bool × World :=
  let w := w.offer destination nowMs (replies n).answer rows
  if (replies n).answer = .status 200 then (true, w.deleteRows rows) else (false, w)

/-- The invite request, after which the loop goes on with the rest or stops. -/
def sendInvite (n : Nat) (item : Row) (w : World) : Bool × World :=
  let w := w.offer destination nowMs (replies n).answer [item]
  if (replies n).answer = .status 200 ∨ (replies n).answer = .status 403 then
    (true, w.deleteRows [item])
  else (false, w.markFailed [item] (replies n).clockMs)

/-- The turn of one destination: `n` counts its requests. -/
def drainDestination (n : Nat) : List Row → List Row → World → World
  | [], _, w => w
  | item :: rest, batch, w =>
    if item.kind = .invite then
      -- flush the batch first to keep order
      match if batch.isEmpty then (true, w) else sendBatch nowMs destination replies n batch w with
      | (false, w) => (w.markFailed batch (replies n).clockMs).markFailed [item] (replies n).clockMs
      | (true, w) =>
        let n := if batch.isEmpty then n else n + 1
        match sendInvite nowMs destination replies n item w with
        | (true, w) => drainDestination (n + 1) rest [] w
        | (false, w) => w
    else
      let batch := batch ++ [item]
      if batchLimit ≤ batch.length ∨ ∀ next ∈ rest.head?, next.kind = .invite then
        match sendBatch nowMs destination replies n batch w with
        | (true, w) => drainDestination (n + 1) rest [] w
        | (false, w) => w.markFailed batch (replies n).clockMs
      else drainDestination n rest batch w

end Drain

/-- The destinations with fetched rows, in the order of their names. -/
def destinations (rows : List Row) : List String :=
  ((rows.map (·.destination)).dedup).insertionSort (· ≤ ·)

/-- Each destination answers its own requests. -/
def drain (nowMs : Int) (replies : String → Nat → Reply) (w : World) : World :=
  let rows := fetch nowMs w
  (destinations rows).foldl (fun w destination =>
    drainDestination nowMs destination (replies destination) 0
      (rows.filter fun row => row.destination = destination) [] w) w

inductive Op where
  | queue (items : List Item)
  | drain (nowMs : Int) (replies : String → Nat → Reply)

def step (w : World) : Op → World
  | .queue items => items.foldl World.enqueue w
  | .drain nowMs replies => drain nowMs replies w

/-! ### The requests of a turn -/

/-- The requests a turn makes as long as they succeed; `batch` is what has been gathered. -/
def requests : List Row → List Row → List (List Row)
  | [], _ => []
  | item :: rest, batch =>
    if item.kind = .invite then [item] :: requests rest []
    else if batchLimit ≤ (batch ++ [item]).length ∨ ∀ next ∈ rest.head?, next.kind = .invite then
      (batch ++ [item]) :: requests rest []
    else requests rest (batch ++ [item])

/-- The loop reaches an invite, or the end, only with an empty batch. -/
structure Gathered (batch items : List Row) : Prop where
  kind_ne : ∀ row ∈ batch, row.kind ≠ .invite
  length_lt : batch.length < batchLimit
  next : batch ≠ [] → ∃ row ∈ items.head?, row.kind ≠ .invite

theorem Gathered.nil (items : List Row) : Gathered [] items :=
  ⟨by simp, by decide, by simp⟩

variable {batch rest items : List Row} {w : World} {row : Row} {nowMs : Int}

theorem Gathered.eq_nil_of_invite {item : Row} (h : Gathered batch (item :: rest))
    (hitem : item.kind = .invite) : batch = [] := by
  by_contra hne
  obtain ⟨row, hrow, hkind⟩ := h.next hne
  exact hkind (by simpa [← Option.mem_some_iff.1 hrow] using hitem)

theorem Gathered.snoc {item : Row} (h : Gathered batch (item :: rest)) (hitem : item.kind ≠ .invite)
    (hgo : ¬ (batchLimit ≤ (batch ++ [item]).length ∨ ∀ next ∈ rest.head?, next.kind = .invite)) :
    Gathered (batch ++ [item]) rest := by
  rw [not_or, not_le] at hgo
  refine ⟨fun row hrow => ?_, hgo.1, fun _ => ?_⟩
  · rcases List.mem_append.1 hrow with hold | hnew
    · exact h.kind_ne row hold
    · rwa [List.mem_singleton.1 hnew]
  · simpa using hgo.2

/-- Every row is in one request, in order. -/
theorem flatten_requests (h : Gathered batch items) :
    (requests items batch).flatten = batch ++ items := by
  induction items generalizing batch with
  | nil =>
    have hbatch : batch = [] := by
      by_contra hne
      simpa using h.next hne
    simp [requests, hbatch]
  | cons item rest ih =>
    rw [requests]
    split
    next hinvite => simp [h.eq_nil_of_invite hinvite, ih (Gathered.nil rest)]
    next hinvite =>
      split
      next => simp [ih (Gathered.nil rest)]
      next hgo => simp [ih (h.snoc hinvite hgo)]

/-- What a single request looks like. -/
structure IsRequest (rows : List Row) : Prop where
  ne_nil : rows ≠ []
  length_le : rows.length ≤ batchLimit
  kinds : (∃ row, rows = [row]) ∨ ∀ row ∈ rows, row.kind ≠ .invite

theorem isRequest_of_mem (h : Gathered batch items) :
    ∀ rows ∈ requests items batch, IsRequest rows := by
  induction items generalizing batch with
  | nil => simp [requests]
  | cons item rest ih =>
    have hone : IsRequest [item] := ⟨by simp, by simp [batchLimit], Or.inl ⟨item, rfl⟩⟩
    rw [requests]
    split
    next hinvite =>
      intro rows hrows
      rcases List.mem_cons.1 hrows with rfl | hrows
      · exact hone
      · exact ih (Gathered.nil rest) rows hrows
    next hinvite =>
      split
      next =>
        intro rows hrows
        rcases List.mem_cons.1 hrows with rfl | hrows
        · refine ⟨by simp, ?_, Or.inr fun row hrow => ?_⟩
          · have := h.length_lt
            rw [List.length_append, List.length_singleton]
            omega
          · rcases List.mem_append.1 hrow with hold | hnew
            · exact h.kind_ne row hold
            · rwa [List.mem_singleton.1 hnew]
        · exact ih (Gathered.nil rest) rows hrows
      next hgo => exact ih (h.snoc hinvite hgo)

/-- One request and what its answer does to its rows. -/
def attempt (destination : String) (nowMs : Int) (reply : Reply) (rows : List Row) (w : World) :
    World :=
  let offered := w.offer destination nowMs reply.answer rows
  if reply.answer.settles rows then offered.deleteRows rows
  else offered.markFailed rows reply.clockMs

section Serve

variable (nowMs : Int) (destination : String) (replies : Nat → Reply)

/-- The requests in turn, until one is not answered as hoped. -/
def serve (n : Nat) : List (List Row) → World → World
  | [], w => w
  | rows :: rest, w =>
    if (replies n).answer.settles rows then
      serve (n + 1) rest (attempt destination nowMs (replies n) rows w)
    else attempt destination nowMs (replies n) rows w

theorem settles_invite {answer : Answer} {item : Row} (hitem : item.kind = .invite) :
    answer.settles [item] = true ↔ answer = .status 200 ∨ answer = .status 403 := by
  simp [Answer.settles, hitem]

theorem settles_batch {answer : Answer} {rows : List Row}
    (hrows : ∀ row ∈ rows, row.kind ≠ .invite) :
    answer.settles rows = true ↔ answer = .status 200 := by
  have hnone : ¬ ∃ row ∈ rows, row.kind = .invite := fun ⟨row, hmem, hkind⟩ => hrows row hmem hkind
  simp [Answer.settles, hnone]

/-- The worker's turn is the serving of its requests. -/
theorem drainDestination_eq_serve {items batch : List Row} (h : Gathered batch items) (n : Nat)
    (w : World) :
    drainDestination nowMs destination replies n items batch w =
      serve nowMs destination replies n (requests items batch) w := by
  induction items generalizing batch n w with
  | nil => rfl
  | cons item rest ih =>
    rw [drainDestination, requests]
    by_cases hinvite : item.kind = .invite
    · obtain rfl := h.eq_nil_of_invite hinvite
      simp only [hinvite, if_true, List.isEmpty_nil, serve, attempt, sendInvite]
      simp only [settles_invite hinvite]
      by_cases hanswer : (replies n).answer = .status 200 ∨ (replies n).answer = .status 403
      · simp only [hanswer, if_true]
        exact ih (Gathered.nil rest) _ _
      · simp only [hanswer, if_false]
    · simp only [hinvite, if_false]
      by_cases hgo : batchLimit ≤ (batch ++ [item]).length ∨
        ∀ next ∈ rest.head?, next.kind = .invite
      · have hkinds : ∀ row ∈ batch ++ [item], row.kind ≠ .invite := by
          intro row hrow
          rcases List.mem_append.1 hrow with hold | hnew
          · exact h.kind_ne row hold
          · rwa [List.mem_singleton.1 hnew]
        simp only [hgo, if_true, serve, attempt, sendBatch, settles_batch hkinds]
        by_cases hanswer : (replies n).answer = .status 200
        · simp only [hanswer, if_true]
          exact ih (Gathered.nil rest) _ _
        · simp only [hanswer, if_false]
      · simp only [hgo, if_false]
        exact ih (h.snoc hinvite hgo) n w

end Serve

/-! ### The table -/

/-- Rows are numbered in the order in which they were queued. -/
structure World.WF (w : World) : Prop where
  sorted : w.rows.Pairwise (·.id < ·.id)
  lt_next : ∀ row ∈ w.rows, row.id < w.nextId

theorem World.WF.eq_of_id (hwf : w.WF) {other : Row} (hrow : row ∈ w.rows) (hother : other ∈ w.rows)
    (heq : row.id = other.id) : row = other := by
  have hnodup : (w.rows.map Row.id).Nodup :=
    List.pairwise_map.2 (hwf.sorted.imp fun hlt => hlt.ne)
  exact List.inj_on_of_nodup_map hnodup hrow hother heq

theorem World.WF.enqueue (hwf : w.WF) (item : Item) : (w.enqueue item).WF := by
  refine ⟨List.pairwise_append.2 ⟨hwf.sorted, List.pairwise_singleton _ _, ?_⟩, ?_⟩
  · intro row hrow new hnew
    rw [List.mem_singleton.1 hnew]
    exact hwf.lt_next row hrow
  · intro row hrow
    rcases List.mem_append.1 hrow with hold | hnew
    · exact Nat.lt_succ_of_lt (hwf.lt_next row hold)
    · rw [List.mem_singleton.1 hnew]
      exact Nat.lt_succ_self _

section FailedRow

variable {failed : List Row} {clockMs : Int} {row : Row}

@[simp] theorem failedRow_id : (World.failedRow failed clockMs row).id = row.id := by
  unfold World.failedRow
  split <;> rfl

@[simp] theorem failedRow_toItem : (World.failedRow failed clockMs row).toItem = row.toItem := by
  unfold World.failedRow
  split <;> rfl

theorem failedRow_of_ne (h : ∀ f ∈ failed, f.id ≠ row.id) :
    World.failedRow failed clockMs row = row := by
  have hnone : failed.find? (fun f => f.id = row.id) = none := by
    simpa [List.find?_eq_none] using h
  simp [World.failedRow, hnone]

end FailedRow

section Attempt

variable {destination : String} {nowMs : Int} {reply : Reply} {rows : List Row} {w : World}

@[simp] theorem attempt_nextId : (attempt destination nowMs reply rows w).nextId = w.nextId := by
  unfold attempt
  split <;> rfl

@[simp] theorem attempt_offers : (attempt destination nowMs reply rows w).offers =
    w.offers ++ [{ destination, rows, queued := w.rows, nowMs, answer := reply.answer }] := by
  unfold attempt
  split <;> rfl

theorem attempt_rows_of_settles (h : reply.answer.settles rows = true) :
    (attempt destination nowMs reply rows w).rows =
      w.rows.filter fun row => ∀ d ∈ rows, d.id ≠ row.id := by
  simp [attempt, h, World.deleteRows, World.offer]

theorem attempt_rows_of_not_settles (h : ¬ reply.answer.settles rows = true) :
    (attempt destination nowMs reply rows w).rows =
      w.rows.map (World.failedRow rows reply.clockMs) := by
  simp [attempt, h, World.markFailed, World.offer]

variable {row : Row}

/-- A row of the table after a request was there before it, up to its retry time. -/
theorem exists_of_mem_attempt (hrow : row ∈ (attempt destination nowMs reply rows w).rows) :
    ∃ old ∈ w.rows, old.id = row.id ∧ old.toItem = row.toItem := by
  by_cases h : reply.answer.settles rows = true
  · rw [attempt_rows_of_settles h] at hrow
    exact ⟨row, List.mem_of_mem_filter hrow, rfl, rfl⟩
  · rw [attempt_rows_of_not_settles h] at hrow
    obtain ⟨old, hold, rfl⟩ := List.mem_map.1 hrow
    exact ⟨old, hold, by simp, by simp⟩

/-- Rows that are not in the request stay as they are. -/
theorem mem_attempt_iff (hrow : ∀ r ∈ rows, r.id ≠ row.id) :
    row ∈ (attempt destination nowMs reply rows w).rows ↔ row ∈ w.rows := by
  by_cases h : reply.answer.settles rows = true
  · rw [attempt_rows_of_settles h, List.mem_filter]
    simpa using fun _ => hrow
  · rw [attempt_rows_of_not_settles h, List.mem_map]
    constructor
    · rintro ⟨old, hold, rfl⟩
      rw [failedRow_id] at hrow
      rwa [failedRow_of_ne hrow]
    · intro hmem
      exact ⟨row, hmem, failedRow_of_ne hrow⟩

theorem World.WF.attempt (hwf : w.WF) : (attempt destination nowMs reply rows w).WF := by
  constructor
  · by_cases h : reply.answer.settles rows = true
    · rw [attempt_rows_of_settles h]
      exact hwf.sorted.filter _
    · rw [attempt_rows_of_not_settles h, List.pairwise_map]
      simpa using hwf.sorted
  · intro row hrow
    obtain ⟨old, hold, hid, -⟩ := exists_of_mem_attempt hrow
    rw [attempt_nextId, ← hid]
    exact hwf.lt_next old hold

end Attempt

/-! ### A drain, request by request -/

theorem mem_fetch (h : row ∈ fetch nowMs w) : row ∈ w.rows ∧ row.nextTryMs ≤ nowMs := by
  simpa using Page.mem_of_mem_select h

theorem isPage_fetch (hwf : w.WF) :
    Page.IsPage Row.id fetchLimit {row | row ∈ w.rows.filter fun row => row.nextTryMs ≤ nowMs}
      (fetch nowMs w) :=
  Page.isPage_select ((hwf.sorted.filter _).imp fun hlt => hlt.ne)

/-- The fetched rows of one destination. -/
def turn (nowMs : Int) (w : World) (destination : String) : List Row :=
  (fetch nowMs w).filter fun row => row.destination = destination

theorem drain_eq (nowMs : Int) (replies : String → Nat → Reply) (w : World) :
    drain nowMs replies w = (destinations (fetch nowMs w)).foldl (fun w' destination =>
      serve nowMs destination (replies destination) 0
        (requests (turn nowMs w destination) []) w') w := by
  simp only [drain, drainDestination_eq_serve _ _ _ (Gathered.nil _), turn]

/-- The worker is about to make the request `rows`, in a drain that fetched from `start`. -/
structure Asking (nowMs : Int) (start : World) (destination : String) (rows : List Row)
    (w : World) : Prop where
  wf : w.WF
  request : rows ∈ requests (turn nowMs start destination) []
  mem_rows : ∀ row ∈ rows, row ∈ w.rows
  of_start : ∀ row ∈ w.rows, row.destination = destination → row ∈ start.rows
  /-- What precedes the request in its turn is in it or gone. -/
  earlier : ∀ row ∈ w.rows, row ∈ turn nowMs start destination → ∀ r ∈ rows, row.id < r.id →
    row ∈ rows

/-- The requests that remain, and the destination's part of the table. -/
structure Serving (nowMs : Int) (start : World) (destination : String) (remaining : List (List Row))
    (w : World) : Prop where
  wf : w.WF
  suffix : remaining <:+ requests (turn nowMs start destination) []
  mem_rows : ∀ row ∈ remaining.flatten, row ∈ w.rows
  of_start : ∀ row ∈ w.rows, row.destination = destination → row ∈ start.rows
  remain : ∀ row ∈ w.rows, row ∈ turn nowMs start destination → row ∈ remaining.flatten

section Turn

variable {nowMs : Int} {start w : World} {destination : String} {row : Row} {rows : List Row}
  {remaining : List (List Row)}

theorem mem_turn (h : row ∈ turn nowMs start destination) :
    row ∈ fetch nowMs start ∧ row.destination = destination := by
  simpa [turn] using h

theorem sorted_turn (hwf : start.WF) : (turn nowMs start destination).Pairwise (·.id < ·.id) :=
  (isPage_fetch hwf).sorted.filter _

theorem mem_turn_of_suffix (hsuffix : remaining <:+ requests (turn nowMs start destination) [])
    (hrow : row ∈ remaining.flatten) : row ∈ turn nowMs start destination := by
  obtain ⟨request, hrequest, hrow⟩ := List.mem_flatten.1 hrow
  have hmem : row ∈ (requests (turn nowMs start destination) []).flatten :=
    List.mem_flatten.2 ⟨request, hsuffix.subset hrequest, hrow⟩
  rwa [flatten_requests (Gathered.nil _), List.nil_append] at hmem

theorem sorted_of_suffix (hwf : start.WF)
    (hsuffix : remaining <:+ requests (turn nowMs start destination) []) :
    remaining.flatten.Pairwise (·.id < ·.id) := by
  obtain ⟨before, hbefore⟩ := hsuffix
  have hsorted : (before ++ remaining).flatten.Pairwise (·.id < ·.id) := by
    rw [hbefore, flatten_requests (Gathered.nil _), List.nil_append]
    exact sorted_turn hwf
  rw [List.flatten_append] at hsorted
  exact (List.pairwise_append.1 hsorted).2.1

theorem Serving.asking (hstart : start.WF)
    (h : Serving nowMs start destination (rows :: remaining) w) :
    Asking nowMs start destination rows w := by
  refine ⟨h.wf, h.suffix.subset (by simp), fun row hrow => h.mem_rows row (by simp [hrow]),
    h.of_start, fun row hrow hturn r hr hlt => ?_⟩
  have hmem := h.remain row hrow hturn
  rw [List.flatten_cons, List.mem_append] at hmem
  refine hmem.resolve_right fun hlater => ?_
  -- later requests hold later rows
  have hsorted := sorted_of_suffix hstart h.suffix
  rw [List.flatten_cons, List.pairwise_append] at hsorted
  exact lt_asymm hlt (hsorted.2.2 r hr row hlater)

theorem Asking.mem_turn (h : Asking nowMs start destination rows w) (hrow : row ∈ rows) :
    row ∈ turn nowMs start destination :=
  mem_turn_of_suffix List.suffix_rfl (List.mem_flatten.2 ⟨rows, h.request, hrow⟩)

theorem Asking.destination_eq (h : Asking nowMs start destination rows w) (hrow : row ∈ rows) :
    row.destination = destination :=
  (Outbox.mem_turn (h.mem_turn hrow)).2

variable {reply : Reply}

/-- Other destinations' rows are not touched. -/
theorem Asking.mem_attempt_iff (h : Asking nowMs start destination rows w)
    (hrow : row.destination ≠ destination) :
    row ∈ (attempt destination nowMs reply rows w).rows ↔ row ∈ w.rows := by
  by_cases hclash : ∀ r ∈ rows, r.id ≠ row.id
  · exact Outbox.mem_attempt_iff hclash
  · push Not at hclash
    obtain ⟨r, hr, hid⟩ := hclash
    have hitem : ∀ old ∈ w.rows, old.id = row.id → old.destination = destination := by
      intro old hold heq
      rw [h.wf.eq_of_id hold (h.mem_rows r hr) (heq.trans hid.symm)]
      exact h.destination_eq hr
    constructor
    · intro hmem
      obtain ⟨old, hold, heq, hsame⟩ := exists_of_mem_attempt hmem
      exact absurd ((congrArg Item.destination hsame).symm.trans (hitem old hold heq)) hrow
    · intro hmem
      exact absurd (hitem row hmem rfl) hrow

theorem Serving.attempt (hstart : start.WF)
    (h : Serving nowMs start destination (rows :: remaining) w)
    (hsettles : reply.answer.settles rows = true) :
    Serving nowMs start destination remaining (attempt destination nowMs reply rows w) := by
  have hsub : ∀ row ∈ (Outbox.attempt destination nowMs reply rows w).rows,
      row ∈ w.rows ∧ ∀ r ∈ rows, r.id ≠ row.id := by
    intro row hrow
    rw [attempt_rows_of_settles hsettles] at hrow
    simpa using hrow
  refine ⟨h.wf.attempt, (List.suffix_cons _ _).trans h.suffix, fun row hrow => ?_,
    fun row hrow => h.of_start row (hsub row hrow).1, fun row hrow hturn => ?_⟩
  · rw [Outbox.mem_attempt_iff]
    · exact h.mem_rows row (by simp [hrow])
    · have hsorted := sorted_of_suffix hstart h.suffix
      rw [List.flatten_cons, List.pairwise_append] at hsorted
      exact fun r hr => (hsorted.2.2 r hr row hrow).ne
  · have hmem := h.remain row (hsub row hrow).1 hturn
    rw [List.flatten_cons, List.mem_append] at hmem
    exact hmem.resolve_left fun hin => (hsub row hrow).2 row hin rfl

end Turn

section Rule

variable {nowMs : Int} {start : World} {P : World → Prop}

variable {destination : String} {w : World} {rows : List Row}

/-- What every request of a turn keeps, the turn keeps. -/
theorem serve_keeps {replies : Nat → Reply} (hstart : start.WF)
    (hask : ∀ n rows w, Asking nowMs start destination rows w → P w →
      P (attempt destination nowMs (replies n) rows w))
    {remaining : List (List Row)} (n : Nat) (h : Serving nowMs start destination remaining w)
    (hP : P w) :
    P (serve nowMs destination replies n remaining w) := by
  induction remaining generalizing n w with
  | nil => exact hP
  | cons rows remaining ih =>
    have hnext := hask n rows w (h.asking hstart) hP
    rw [serve]
    split
    next hsettles => exact ih (n + 1) (h.attempt hstart hsettles) hnext
    next => exact hnext

/-- Before its turn, a destination's rows are as they were fetched. -/
def Untouched (start : World) (destination : String) (w : World) : Prop :=
  ∀ row : Row, row.destination = destination → (row ∈ w.rows ↔ row ∈ start.rows)

theorem Untouched.serving (hwf : w.WF) (h : Untouched start destination w) :
    Serving nowMs start destination (requests (turn nowMs start destination) []) w := by
  have hflatten := flatten_requests (Gathered.nil (turn nowMs start destination))
  refine ⟨hwf, List.suffix_rfl, fun row hrow => ?_, fun row hrow hdest => (h row hdest).1 hrow,
    fun row _ hturn => ?_⟩
  · rw [hflatten] at hrow
    obtain ⟨hfetch, hdest⟩ := mem_turn hrow
    exact (h row hdest).2 (mem_fetch hfetch).1
  · rwa [hflatten]

theorem nodup_destinations (rows : List Row) : (destinations rows).Nodup :=
  (List.perm_insertionSort _ _).nodup_iff.2 (List.nodup_dedup _)

@[simp] theorem mem_destinations :
    destination ∈ destinations rows ↔ ∃ row ∈ rows, row.destination = destination := by
  simp [destinations, (List.perm_insertionSort _ _).mem_iff]

theorem Untouched.attempt {other : String} {reply : Reply}
    (hasking : Asking nowMs start destination rows w) (hne : other ≠ destination)
    (h : Untouched start other w) :
    Untouched start other (attempt destination nowMs reply rows w) := by
  intro row hrow
  rw [hasking.mem_attempt_iff (by rwa [hrow]), h row hrow]

/-- The turns of some destinations, one after another. -/
def serveAll (nowMs : Int) (replies : String → Nat → Reply) (start : World) (names : List String)
    (w : World) : World :=
  names.foldl (fun w destination => serve nowMs destination (replies destination) 0
    (requests (turn nowMs start destination) []) w) w

/-- What every request keeps, the turns keep, and they leave the rows of destinations whose
turn is still to come. -/
theorem serveAll_keeps (nowMs : Int) (replies : String → Nat → Reply) (hstart : start.WF)
    (hask : ∀ destination n rows w, Asking nowMs start destination rows w → P w →
      P (attempt destination nowMs (replies destination n) rows w))
    {names others : List String} (hnodup : (names ++ others).Nodup) (hP : P w) (hwf : w.WF)
    (hall : ∀ name ∈ names ++ others, Untouched start name w) :
    P (serveAll nowMs replies start names w) ∧ (serveAll nowMs replies start names w).WF ∧
      ∀ name ∈ others, Untouched start name (serveAll nowMs replies start names w) := by
  induction names generalizing w with
  | nil => exact ⟨hP, hwf, hall⟩
  | cons destination names ih =>
    obtain ⟨hout, hnodup⟩ := List.nodup_cons.1 hnodup
    have hserving : Serving nowMs start destination
      (requests (turn nowMs start destination) []) w :=
      (hall destination (by simp)).serving hwf
    have hkeep : ∀ n rows w, Asking nowMs start destination rows w →
        (P w ∧ w.WF ∧ ∀ name ∈ names ++ others, Untouched start name w) →
        P (attempt destination nowMs (replies destination n) rows w) ∧
          (attempt destination nowMs (replies destination n) rows w).WF ∧
          ∀ name ∈ names ++ others,
            Untouched start name (attempt destination nowMs (replies destination n) rows w) := by
      rintro n rows w hasking ⟨hP, hwf, hall⟩
      refine ⟨hask destination n rows w hasking hP, hwf.attempt, fun name hname => ?_⟩
      exact (hall name hname).attempt hasking fun heq => hout (heq ▸ hname)
    obtain ⟨hP', hwf', hall'⟩ := serve_keeps hstart hkeep 0 hserving
      ⟨hP, hwf, fun name hname => hall name (List.mem_cons_of_mem _ hname)⟩
    exact ih hnodup hP' hwf' hall'

/-- What every request of a drain keeps, the drain keeps. -/
theorem drain_keeps {replies : String → Nat → Reply} (hstart : start.WF)
    (hask : ∀ destination n rows w, Asking nowMs start destination rows w → P w →
      P (attempt destination nowMs (replies destination n) rows w)) (hP : P start) :
    P (drain nowMs replies start) := by
  rw [drain_eq]
  have hnodup : (destinations (fetch nowMs start) ++ []).Nodup := by
    simpa using nodup_destinations (fetch nowMs start)
  exact (serveAll_keeps nowMs replies hstart hask hnodup hP hstart fun _ _ _ _ => .rfl).1

end Rule

theorem World.WF.step (hwf : w.WF) (op : Op) : (step w op).WF := by
  cases op with
  | queue items =>
    exact Trace.run_invariant World.WF (fun _ item h => h.enqueue item) hwf items
  | drain nowMs replies =>
    exact drain_keeps hwf (fun _ _ _ _ h _ => h.wf.attempt) hwf

end Server.Outbox
