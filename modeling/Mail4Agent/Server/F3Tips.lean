import Mail4Agent.Foundation.Ancestry
import Mail4Agent.Foundation.Trace
import Mail4Agent.Server.F3Effect
import Mail4Agent.Server.SimpleRules

/-!
# Forward extremities

The graph tables as a growing history: an accepted event extends the edge relation by
one entry, and a live one advances the tips of its room. That every live event is a
tip or lies behind one is an invariant of all requests. The tips are an antichain for
as long as no accepted event has a predecessor that lies ahead of a tip it does not
name. A soft-failed event is no tip, so a child of one can be such an event.
-/

namespace Server.F3

open Ancestry (Ancestor Covers Extends advance)
open Dag (Accepted Historic HistoricChange LiveChange Pdu Tables)

/-- The forward extremities of a room. -/
def tips (t : Tables) (roomId : String) : Set String := {x | (roomId, x) ∈ t.extremities}

/-- The accepted events of a room that are neither soft-failed nor events of the past. -/
def liveEvents (t : Tables) (roomId : String) : Set String :=
  {x | ∃ row, t.row? x = some row ∧ row.roomId = roomId ∧ row.outlier = false ∧
    row.softFailed = false}

/-- What the graph satisfies as long as no snapshot is imported: the stored events are
those with a state, and edges and extremities lead to stored events. -/
structure Grounded (t : Tables) : Prop where
  stored_iff : ∀ x, t.row? x ≠ none ↔ (t.groupOf x).isSome
  edge_left : ∀ {a b}, t.Edge a b → t.row? a ≠ none
  edge_right : ∀ {a b}, t.Edge a b → t.row? b ≠ none
  tip_stored : ∀ {roomId x}, x ∈ tips t roomId → t.row? x ≠ none

theorem grounded_empty : Grounded {} := by
  refine ⟨fun x => by simp [Tables.row?, Tables.groupOf], ?_, ?_, ?_⟩
  · intro a b h
    simp [Tables.Edge] at h
  · intro a b h
    simp [Tables.Edge] at h
  · intro roomId x h
    simp [tips] at h

variable {rules : Dag.Rules} {roomId : String} {t t' : Tables}

/-- A new entry on top of stored ones extends the history. -/
theorem Grounded.extends (hg : Grounded t) {id : String} {prev : List String}
    (hedge : ∀ a b, t'.Edge a b ↔ t.Edge a b ∨ (a = id ∧ b ∈ prev)) (hid : t.row? id = none)
    (hprev : ∀ p ∈ prev, (t.groupOf p).isSome) :
    Extends t.Edge t'.Edge id {p | p ∈ prev} where
  edge_iff := hedge
  has_no_parent _ h := hg.edge_left h hid
  has_no_child _ h := hg.edge_right h hid
  notMem_parents h := (hg.stored_iff id).2 (hprev id h) hid

/-- Grounded tables stay so when an entry is added on top of stored ones. -/
theorem Grounded.add (hg : Grounded t) {id : String} {prev : List String}
    (hedge : ∀ a b, t'.Edge a b ↔ t.Edge a b ∨ (a = id ∧ b ∈ prev))
    (hprev : ∀ p ∈ prev, (t.groupOf p).isSome)
    (hnew : t'.row? id ≠ none) (hrow : ∀ x, id ≠ x → t'.row? x = t.row? x)
    (hgroup : ∀ x, (t'.groupOf x).isSome ↔ id = x ∨ (t.groupOf x).isSome)
    (htips : ∀ other x, x ∈ tips t' other → x = id ∨ x ∈ tips t other) : Grounded t' := by
  have hkeep {x : String} (hx : t.row? x ≠ none) : t'.row? x ≠ none := by
    by_cases h : id = x
    · exact h ▸ hnew
    · rwa [hrow x h]
  refine ⟨fun x => ?_, fun {a b} h => ?_, fun {a b} h => ?_, fun {other x} h => ?_⟩
  · rw [hgroup]
    by_cases h : id = x
    · exact ⟨fun _ => .inl h, fun _ => h ▸ hnew⟩
    · rw [hrow x h, hg.stored_iff]
      exact ⟨.inr, fun h' => h'.resolve_left h⟩
  · rcases (hedge a b).1 h with h | ⟨rfl, -⟩
    · exact hkeep (hg.edge_left h)
    · exact hnew
  · rcases (hedge a b).1 h with h | ⟨-, hb⟩
    · exact hkeep (hg.edge_right h)
    · exact hkeep ((hg.stored_iff b).2 (hprev b hb))
  · rcases htips other x h with rfl | h
    · exact hnew
    · exact hkeep (hg.tip_stored h)

/-! ### Live events -/

section Live

variable {acc : Accepted}

section

variable (h : LiveChange rules roomId t acc t')

include h

theorem tips_of_softFailed (hsoft : acc.softFailed = true) (other : String) :
    tips t' other = tips t other := by
  rw [tips, h.extremities_eq, if_pos hsoft]
  rfl

theorem tips_of_live (hlive : acc.softFailed = false) :
    tips t' roomId = advance (tips t roomId) acc.pdu.eventId {p | p ∈ acc.pdu.prevEvents} := by
  obtain ⟨json, hspec⟩ := h.accepted
  have hnext : acc.extremities = Dag.nextExtremities (t.extremityIds roomId) acc.pdu := by
    cases hspec.outcome with
    | soft hsoft => rw [hlive] at hsoft; cases hsoft
    | live _ hnext => exact hnext
  ext x
  rw [tips, h.extremities_eq, hlive, if_neg (by decide)]
  simp only [Set.mem_ofPred_eq, Tables.mem_setExtremities, hnext, Dag.nextExtremities,
    List.mem_insertionSort, List.mem_append, List.mem_filter, Tables.mem_extremityIds,
    List.mem_singleton, decide_eq_true_eq, true_and, ne_eq, not_true_eq_false, false_and, or_false]
  exact or_comm

theorem tips_of_other {other : String} (hother : other ≠ roomId) :
    tips t' other = tips t other := by
  ext x
  rw [tips, h.extremities_eq]
  split_ifs
  · rfl
  · simp [Tables.mem_setExtremities, hother, tips]

theorem mem_tips_change {other x : String} (hx : x ∈ tips t' other) :
    x = acc.pdu.eventId ∨ x ∈ tips t other :=
  (h.mem_extremities hx).symm.imp_left fun h => h.2

theorem live_change (other : String) :
    liveEvents t' other = if other = roomId ∧ acc.softFailed = false
      then insert acc.pdu.eventId (liveEvents t other) else liveEvents t other := by
  obtain ⟨skeleton, hnew⟩ := h.row?_new
  ext x
  by_cases hx : acc.pdu.eventId = x
  · subst hx
    have hold : acc.pdu.eventId ∉ liveEvents t other := by
      rintro ⟨row, hrow, -⟩
      rw [h.fresh] at hrow
      cases hrow
    have : acc.pdu.eventId ∈ liveEvents t' other ↔ other = roomId ∧ acc.softFailed = false := by
      constructor
      · rintro ⟨row, hrow, hroom, -, hsoft⟩
        cases hnew.symm.trans hrow
        exact ⟨hroom.symm, hsoft⟩
      · rintro ⟨rfl, hsoft⟩
        exact ⟨_, hnew, rfl, rfl, hsoft⟩
    rw [this]
    split_ifs with hcond <;> simp [hcond, hold]
  · have : x ∈ liveEvents t' other ↔ x ∈ liveEvents t other := by
      rw [liveEvents, liveEvents, Set.mem_ofPred_eq, h.row?_of_ne hx, Set.mem_ofPred_eq]
    rw [this]
    split_ifs
    · simp [Ne.symm hx]
    · rfl

end

theorem Grounded.live (hg : Grounded t) (h : LiveChange rules roomId t acc t') : Grounded t' := by
  obtain ⟨skeleton, hnew⟩ := h.row?_new
  refine hg.add (fun _ _ => h.edge_iff) h.prev_groupOf ?_ (fun x hx => h.row?_of_ne hx)
    h.groupOf_isSome fun other x hx => mem_tips_change h hx
  rw [hnew]
  exact Option.some_ne_none _

theorem Grounded.live_extends (hg : Grounded t) (h : LiveChange rules roomId t acc t') :
    Extends t.Edge t'.Edge acc.pdu.eventId {p | p ∈ acc.pdu.prevEvents} :=
  hg.extends (fun _ _ => h.edge_iff) h.fresh h.prev_groupOf

/-- The new tip covers what it replaced. -/
theorem covers_live (hg : Grounded t) (h : LiveChange rules roomId t acc t') (other : String)
    (hcovers : Covers t.Edge (tips t other) (liveEvents t other)) :
    Covers t'.Edge (tips t' other) (liveEvents t' other) := by
  have hext := hg.live_extends h
  rw [live_change h]
  split_ifs with hcond
  · obtain ⟨rfl, hlive⟩ := hcond
    rw [tips_of_live h hlive]
    exact hcovers.extend hext
  · have htips : tips t' other = tips t other := by
      by_cases hother : other = roomId
      · refine tips_of_softFailed h ?_ other
        simpa [hother] using hcond
      · exact tips_of_other h hother
    rw [htips]
    exact hcovers.mono hext.mono

end Live

/-! ### Events of the past -/

section Past

variable {past : Historic}

theorem historic_fresh (hg : Grounded t) (h : HistoricChange rules roomId t past t') :
    t.row? past.pdu.eventId = none := by
  by_contra hrow
  have := (hg.stored_iff _).1 hrow
  rw [h.stateless] at this
  cases this

theorem tips_historic (h : HistoricChange rules roomId t past t') (other : String) :
    tips t' other = tips t other := by
  rw [tips, h.extremities_eq]
  rfl

theorem live_historic (hg : Grounded t) (h : HistoricChange rules roomId t past t')
    (other : String) : liveEvents t' other = liveEvents t other := by
  have hfresh := historic_fresh hg h
  ext x
  by_cases hx : past.pdu.eventId = x
  · subst hx
    simp [liveEvents, h.row?_new hfresh, hfresh, Tables.eventRow]
  · rw [liveEvents, liveEvents, Set.mem_ofPred_eq, h.row?_of_ne hx, Set.mem_ofPred_eq]

theorem Grounded.historic (hg : Grounded t) (h : HistoricChange rules roomId t past t') :
    Grounded t' := by
  refine hg.add (fun _ _ => h.edge_iff) h.prev_groupOf ?_ (fun x hx => h.row?_of_ne hx)
    (fun x => ?_) fun other x hx => .inr (tips_historic h other ▸ hx)
  · rw [h.row?_new (historic_fresh hg h)]
    exact Option.some_ne_none _
  · rw [h.groupOf_eq]
    split_ifs with hx <;> simp [hx]

theorem Grounded.historic_extends (hg : Grounded t) (h : HistoricChange rules roomId t past t') :
    Extends t.Edge t'.Edge past.pdu.eventId {p | p ∈ past.pdu.prevEvents} :=
  hg.extends (fun _ _ => h.edge_iff) (historic_fresh hg h) h.prev_groupOf

end Past

/-! ### Requests -/

/-- What one room's extremities should be: no tip behind another, and every live event
at or behind a tip. -/
def Antichain (roomId : String) (t : Tables) : Prop :=
  IsAntichain (Ancestor t.Edge) (tips t roomId)

def Covered (roomId : String) (t : Tables) : Prop :=
  Covers t.Edge (tips t roomId) (liveEvents t roomId)

/-- Past events change neither the tips nor what lies behind them. -/
theorem past_keeps (roomId : String) (hg : Grounded t) {done : List Historic} {room : String}
    (h : HistoricChanges rules room t done t') :
    Grounded t' ∧ (Covered roomId t → Covered roomId t') ∧
      (Antichain roomId t' ↔ Antichain roomId t) ∧ liveEvents t' roomId = liveEvents t roomId ∧
      ∀ past ∈ done, past.pdu.eventId ∉ liveEvents t' roomId := by
  induction h with
  | nil t => exact ⟨hg, id, .rfl, rfl, by simp⟩
  | cons first more ih =>
    have hext := hg.historic_extends first
    have htips := tips_historic first roomId
    have hlive := live_historic hg first roomId
    have hfresh := historic_fresh hg first
    obtain ⟨hg'', hcov, hanti, hlive', hdone⟩ := ih (hg.historic first)
    refine ⟨hg'', fun h => hcov ?_, hanti.trans ?_, hlive'.trans hlive, ?_⟩
    · rw [Covered, htips, hlive]
      exact h.mono hext.mono
    · rw [Antichain, htips]
      exact Ancestry.isAntichain_of_notMem hext fun hmem => hg.tip_stored hmem hfresh
    · refine List.forall_mem_cons.2 ⟨?_, hdone⟩
      rw [hlive', hlive]
      rintro ⟨row, hrow, -⟩
      rw [hfresh] at hrow
      cases hrow

namespace GraphChange

variable {pdus : List Pdu}

theorem grounded (h : GraphChange rules t pdus t') (hg : Grounded t) : Grounded t' := by
  cases h with
  | same => exact hg
  | mark => exact ⟨hg.stored_iff, hg.edge_left, hg.edge_right, hg.tip_stored⟩
  | live h => exact hg.live h
  | past h =>
    obtain ⟨hg', -⟩ := past_keeps "" hg h
    exact hg'

theorem covered (h : GraphChange rules t pdus t') (hg : Grounded t) (hcov : Covered roomId t) :
    Covered roomId t' := by
  cases h with
  | same => exact hcov
  | mark => exact hcov
  | live h => exact covers_live hg h roomId hcov
  | past h => exact (past_keeps _ hg h).2.1 hcov

/-- The tips stay an antichain exactly if no tip that a new live event leaves out is an
ancestor of an event it names. -/
theorem antichain_iff (h : GraphChange rules t pdus t') (hg : Grounded t)
    (before : Antichain roomId t) :
    Antichain roomId t' ↔ ∀ pdu ∈ pdus, pdu.eventId ∈ liveEvents t' roomId →
      ∀ x ∈ tips t roomId, x ∉ pdu.prevEvents →
        ∀ p ∈ pdu.prevEvents, ¬ Ancestor t.Edge x p := by
  cases h with
  | same => exact ⟨fun _ => by simp, fun _ => before⟩
  | mark room => exact ⟨fun _ => by simp, fun _ => before⟩
  | past h =>
    obtain ⟨-, -, hanti, -, hdone⟩ := past_keeps roomId hg h
    refine ⟨fun _ pdu hpdu hlive => ?_, fun _ => hanti.2 before⟩
    obtain ⟨past, hpast, rfl⟩ := List.mem_map.1 hpdu
    exact (hdone past hpast hlive).elim
  | @live _ room acc h =>
    have hext := hg.live_extends h
    have hnew : acc.pdu.eventId ∉ tips t roomId := fun hmem => hg.tip_stored hmem h.fresh
    rw [List.forall_mem_singleton, live_change h]
    by_cases hcond : roomId = room ∧ acc.softFailed = false
    · obtain ⟨rfl, hlive⟩ := hcond
      rw [if_pos ⟨rfl, hlive⟩, Antichain, tips_of_live h hlive,
        Ancestry.isAntichain_advance_iff hext hnew before]
      exact ⟨fun h _ => h, fun h => h (Set.mem_insert _ _)⟩
    · rw [if_neg hcond]
      have htips : tips t' roomId = tips t roomId := by
        by_cases hroom : roomId = room
        · refine tips_of_softFailed h ?_ roomId
          simpa [hroom] using hcond
        · exact tips_of_other h hroom
      refine ⟨fun _ hlive => ?_, fun _ => ?_⟩
      · obtain ⟨row, hrow, -⟩ := hlive
        rw [h.fresh] at hrow
        cases hrow
      · rw [Antichain, htips]
        exact (Ancestry.isAntichain_of_notMem hext hnew).2 before

end GraphChange

variable {cfg : Config} {fed : Federation}

/-- The condition on a request: a tip that a new live event leaves out is not an ancestor
of an event it names. -/
def NamesTips (cfg : Config) (fed : Federation) (roomId : String) (db : Db) (op : Op) : Prop :=
  ∀ pdu ∈ accepted cfg fed db op, pdu.eventId ∈ liveEvents (step cfg fed db op).dag roomId →
    ∀ x ∈ tips db.dag roomId, x ∉ pdu.prevEvents →
      ∀ p ∈ pdu.prevEvents, ¬ Ancestor db.dag.Edge x p

/-- Throughout every run every live event is a tip or lies behind one, and the tips form
an antichain throughout exactly the runs whose requests all meet `NamesTips`. -/
theorem extremities_are_tips (lawful : fed.rules.Lawful) {db : Db} (hempty : db.dag = {})
    {ops : List Op} (hops : ∀ op ∈ ops, op.isSnapshot = false) (roomId : String) :
    Trace.Throughout (step cfg fed) (fun db => Covered roomId db.dag) db ops ∧
      (Trace.Throughout (step cfg fed) (fun db => Antichain roomId db.dag) db ops ↔
        Trace.Meets (step cfg fed) (NamesTips cfg fed roomId) db ops) := by
  have hg : Grounded db.dag := hempty ▸ grounded_empty
  have hcov : Covered roomId db.dag := by
    rw [hempty]
    rintro x ⟨row, hrow, -⟩
    simp [Tables.row?] at hrow
  have hanti : Antichain roomId db.dag := by
    rw [hempty]
    intro x hx
    simp [tips] at hx
  constructor
  · have hkeep (s : Db) (op : Op) (hop : op.isSnapshot = false)
        (hinv : Grounded s.dag ∧ Covered roomId s.dag) :
        Grounded (step cfg fed s op).dag ∧ Covered roomId (step cfg fed s op).dag :=
      ⟨(step_change lawful hop s).grounded hinv.1, (step_change lawful hop s).covered hinv.1 hinv.2⟩
    exact Trace.throughout_of_invariant hkeep (fun s h => h.2) hops ⟨hg, hcov⟩
  · have hkeep (s : Db) (op : Op) (hop : op.isSnapshot = false) (hg : Grounded s.dag) :
        Grounded (step cfg fed s op).dag := (step_change lawful hop s).grounded hg
    exact Trace.throughout_iff_meets hkeep
      (fun s op hop hg hP => (step_change lawful hop s).antichain_iff hg hP) hops hg hanti

/-- Two branches above `$rx`: a message `$ra`, and `$rban`, by which the user `@bob:b` is
banned. Their message `$rs` on top of `$ra` is soft-failed, and `$rc` follows it. -/
def softFailedChild : List Op :=
  [.createRoom (simpleRoom "!r"),
    .localState "" "!r" 1 "m.room.create" "" "x" 0 "",
    .localMessage "" "!r" 1 "m.room.message" "a" 0,
    .receive none (peerEvent "!r" "@dave:d" "m.room.member" (some "@bob:b") "ban" 2 ["$rx"]) [] "",
    .receive none (peerEvent "!r" "@bob:b" "m.room.message" none "s" 3 ["$ra"]) [] "",
    .receive none (peerEvent "!r" "@carol:c" "m.room.message" none "c" 4 ["$rs"]) [] ""]

/-- Every event is accepted, and the tip `$ra` is an ancestor of the tip `$rc`. -/
theorem not_antichain_softFailedChild :
    (∀ op ∈ softFailedChild, op.isSnapshot = false) ∧
      ¬ Trace.Throughout (step simpleConfig simpleFederation)
        (fun db => Antichain "!r" db.dag) simpleDb softFailedChild := by
  have hrun : ∃ db, Trace.run (step simpleConfig simpleFederation) simpleDb softFailedChild = db ∧
      ("!r", "$ra") ∈ db.dag.extremities ∧ ("!r", "$rc") ∈ db.dag.extremities ∧
      ("$rc", "$rs") ∈ db.dag.edges ∧ ("$rs", "$ra") ∈ db.dag.edges :=
    ⟨_, rfl, by decide +kernel⟩
  refine ⟨by decide, fun h => ?_⟩
  obtain ⟨db, hdb, htip, htip', hedge, hedge'⟩ := hrun
  have hanti := Trace.throughout_iff.1 h softFailedChild [] (List.append_nil _).symm
  rw [hdb] at hanti
  exact hanti htip htip' (by decide) (.tail (.single hedge) hedge')

/-- The theorem at the run with the soft-failed event. -/
theorem extremities_are_tips_softFailedChild :
    Trace.Throughout (step simpleConfig simpleFederation) (fun db => Covered "!r" db.dag) simpleDb
        softFailedChild ∧
      (Trace.Throughout (step simpleConfig simpleFederation) (fun db => Antichain "!r" db.dag)
          simpleDb softFailedChild ↔
        Trace.Meets (step simpleConfig simpleFederation)
          (NamesTips simpleConfig simpleFederation "!r")
          simpleDb softFailedChild) :=
  extremities_are_tips Dag.simpleRules_lawful rfl (by decide) "!r"

end Server.F3
