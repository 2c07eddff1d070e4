import Mathlib

/-!
# Logs of frames that survive a torn tail

A reader takes one frame at a position of a log and says where the next one
begins; reading goes on until there is none. A framing says that the reader finds
every whole frame and finds nothing in a proper part of one. Then reading a log
that was cut anywhere is the same as reading the frames that the cut left whole
(`Framing.fold_cut`), and reading stops exactly at their end.

Nothing here depends on what bytes are, on what a frame holds, or on how it is
checked.
-/

namespace FrameLog

variable {α β γ σ : Type}

/-- Finds the frame that starts at a position, and the position behind it. -/
structure Reader (β γ : Type) where
  next : List β → Nat → Option (γ × Nat)
  advances : ∀ {bytes pos frame stop}, next bytes pos = some (frame, stop) →
    pos < stop ∧ stop ≤ bytes.length

namespace Reader

variable (reader : Reader β γ) (step : σ → γ → σ)

/-- Read frames from `pos` on until there is none, feeding each to `step`. -/
def fold (bytes : List β) (s : σ) (pos : Nat) : σ × Nat :=
  match _h : reader.next bytes pos with
  | none => (s, pos)
  | some (frame, stop) => fold bytes (step s frame) stop
termination_by bytes.length - pos
decreasing_by
  have := reader.advances _h
  omega

variable {reader step}

theorem fold_of_none {bytes : List β} {s : σ} {pos : Nat} (h : reader.next bytes pos = none) :
    reader.fold step bytes s pos = (s, pos) := by
  rw [fold]
  split
  · rfl
  · next hsome => rw [h] at hsome; cases hsome

theorem fold_of_some {bytes : List β} {s : σ} {pos stop : Nat} {frame : γ}
    (h : reader.next bytes pos = some (frame, stop)) :
    reader.fold step bytes s pos = reader.fold step bytes (step s frame) stop := by
  rw [fold]
  split
  · next hnone => rw [h] at hnone; cases hnone
  · next hsome =>
    rw [h] at hsome
    cases hsome
    rfl

/-- There is no frame at the end of a log. -/
theorem next_length (bytes : List β) : reader.next bytes bytes.length = none := by
  cases h : reader.next bytes bytes.length with
  | none => rfl
  | some found =>
    have := reader.advances h
    omega

end Reader

/-- How many of the frames lie wholly within the first `n` bytes of their concatenation. -/
def completeIn : Nat → List (List β) → Nat
  | _, [] => 0
  | n, frame :: frames =>
    if frame.length ≤ n then completeIn (n - frame.length) frames + 1 else 0

/-- The reader finds whole frames of good items, and nothing in a proper part of one. -/
structure Framing (reader : Reader β γ) (encode : α → List β) (view : α → γ)
    (good : α → Prop) : Prop where
  whole : ∀ item front rest, good item → reader.next (front ++ (encode item ++ rest)) front.length =
    some (view item, front.length + (encode item).length)
  torn : ∀ item front n, good item → n < (encode item).length →
    reader.next (front ++ (encode item).take n) front.length = none

namespace Framing

variable {reader : Reader β γ} {encode : α → List β} {view : α → γ} {good : α → Prop}
  {step : σ → γ → σ}

/-- Reading a cut log is reading the frames that the cut left whole. -/
theorem fold_cut (framing : Framing reader encode view good) {items : List α}
    (allGood : ∀ item ∈ items, good item) (front : List β) (n : Nat) (s : σ) :
    reader.fold step (front ++ (items.map encode).flatten.take n) s front.length =
      ((items.take (completeIn n (items.map encode))).foldl (fun s item => step s (view item)) s,
        front.length + ((items.map encode).take
          (completeIn n (items.map encode))).flatten.length) := by
  induction items generalizing front n s with
  | nil =>
    have hnone : reader.next (front ++ ([] : List β)) front.length = none := by
      simpa using Reader.next_length front
    simpa [completeIn] using Reader.fold_of_none hnone
  | cons item items ih =>
    have hgood := allGood item (by simp)
    by_cases hwhole : (encode item).length ≤ n
    · -- The first frame is whole; the rest of the log is cut behind it.
      have hcut : ((item :: items).map encode).flatten.take n =
          encode item ++ (items.map encode).flatten.take (n - (encode item).length) := by
        simp [List.take_append, List.take_of_length_le hwhole]
      have hread := framing.whole item front
        ((items.map encode).flatten.take (n - (encode item).length)) hgood
      have hrest := ih (fun other h => allGood other (List.mem_cons_of_mem _ h))
        (front ++ encode item) (n - (encode item).length) (step s (view item))
      rw [hcut, Reader.fold_of_some hread, ← List.append_assoc, ← List.length_append, hrest]
      simp [completeIn, hwhole, Nat.add_assoc]
    · have hcut : ((item :: items).map encode).flatten.take n = (encode item).take n := by
        simp [List.take_append_of_le_length (Nat.le_of_not_le hwhole)]
      rw [hcut, Reader.fold_of_none (framing.torn item front n hgood (by omega))]
      simp [completeIn, hwhole]

end Framing

end FrameLog
