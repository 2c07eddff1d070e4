import Mail4Agent.Foundation.Decimal
import Mail4Agent.Foundation.Text
import Mail4Agent.Server.Db

/-!
# Sync and pagination tokens

A sync token `s{stream_id}_{typing_gen}` names a position of the stream and a
typing generation. A pagination token `t{stream_id}` sits on an event, a sync token
used for pagination sits after one: the difference decides whether a page walking
backward starts with that event.
-/

namespace Server

def i64Bound : Nat := 2 ^ 63

def u64Bound : Nat := 2 ^ 64

structure SyncToken where
  streamId : Int
  typingGen : Nat
deriving DecidableEq, Repr

namespace SyncToken

def parse (raw : String) : Except MatrixError SyncToken :=
  let malformed := MatrixError.invalidParam "malformed sync token"
  let digits := (Text.stripLead ['s'] raw.toList).getD raw.toList
  let (streamPart, typingPart) :=
    match Text.splitOnce '_' digits with
    | some (streamPart, typingPart) => (streamPart, some typingPart)
    | none => (digits, none)
  match Decimal.parseSigned i64Bound streamPart with
  | none => .error malformed
  | some streamId =>
    match typingPart with
    | none => .ok { streamId, typingGen := 0 }
    | some rawGen =>
      match Decimal.parseUnsigned u64Bound rawGen with
      | none => .error malformed
      | some typingGen => .ok { streamId, typingGen }

end SyncToken

structure StreamToken where
  streamId : Int
  afterEvent : Bool
deriving DecidableEq, Repr

inductive Direction where
  | backward | forward
deriving DecidableEq, Repr

def formatStreamToken (streamId : Int) : String :=
  String.ofList ('t' :: Decimal.printInt streamId)

namespace StreamToken

/-- A backward page from here holds the events strictly before this bound. -/
def backwardBound (token : StreamToken) : Int :=
  if token.afterEvent then token.streamId + 1 else token.streamId

/-- A forward page from here holds the events strictly after this bound. -/
def forwardBound (token : StreamToken) : Int := token.streamId

def parse (raw : String) : Except MatrixError StreamToken :=
  let malformed := MatrixError.invalidParam "malformed pagination token"
  let token : Option StreamToken :=
    if raw.toList.head? = some 's' then
      match SyncToken.parse raw with
      | .ok sync => some { streamId := sync.streamId, afterEvent := true }
      | .error _ => none
    else
      let digits := (Text.stripLead ['t'] raw.toList).getD raw.toList
      (Decimal.parseSigned i64Bound digits).map fun n => { streamId := n, afterEvent := false }
  match token with
  | some token => if token.streamId < 0 then .error malformed else .ok token
  | none => .error malformed

end StreamToken

theorem StreamToken.parse_formatStreamToken {streamId : Int} (hlow : 0 ≤ streamId)
    (hhigh : streamId < i64Bound) :
    StreamToken.parse (formatStreamToken streamId) = .ok ⟨streamId, false⟩ := by
  have hstream : Decimal.parseSigned i64Bound (Decimal.printInt streamId) = some streamId :=
    Decimal.parseSigned_printInt (by omega) hhigh
  simp [StreamToken.parse, formatStreamToken, Text.stripLead, hstream, not_lt.mpr hlow]

end Server
