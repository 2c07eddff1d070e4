import Mail4Agent.Foundation.Text

/-!
# Matrix identifiers and client-minted identifiers

`UserId`, `RoomId`, `EventId` and `DeviceId` wrap strings read off the wire; their parsers
check the shape of the sigil form. `TxnId` and `RequestId` are minted by the
client from one explicit counter value each, printed in sixteen hexadecimal
digits. Sorting request identifiers therefore sorts them by the counter value,
and the value can be read back from the identifier.

The wire types deserialize transparently, so a value of `RoomId` or `RequestId`
may hold any string; only `parse` and the minting functions promise more.
-/

namespace Messenger

/-- Unicode white space, as `char::is_whitespace` classifies it. -/
def isWhitespace (c : Char) : Bool :=
  let n := c.toNat
  (9 ≤ n && n ≤ 13) || n == 0x20 || n == 0x85 || n == 0xA0 || n == 0x1680 ||
    (0x2000 ≤ n && n ≤ 0x200A) || n == 0x2028 || n == 0x2029 || n == 0x202F || n == 0x205F ||
    n == 0x3000

/-- `<sigil><localpart>:<server_name>`, cut at the first colon. -/
def splitSigilId (value : String) (sigil : Char) : Option (List Char × List Char) :=
  match Text.stripLead [sigil] value.toList with
  | none => none
  | some rest =>
    match Text.splitOnce ':' rest with
    | none => none
    | some (localpart, server) =>
      if localpart.isEmpty || server.isEmpty || localpart.any isWhitespace ||
          server.any isWhitespace then none
      else some (localpart, server)

@[ext]
structure UserId where
  value : String
deriving DecidableEq, Repr

@[ext]
structure RoomId where
  value : String
deriving DecidableEq, Repr

@[ext]
structure EventId where
  value : String
deriving DecidableEq, Repr

@[ext]
structure DeviceId where
  value : String
deriving DecidableEq, Repr

@[ext]
structure TxnId where
  value : String
deriving DecidableEq, Repr

@[ext]
structure RequestId where
  value : String
deriving DecidableEq, Repr

def UserId.parse (value : String) : Option UserId :=
  (splitSigilId value '@').map fun _ => ⟨value⟩

def RoomId.parse (value : String) : Option RoomId :=
  (splitSigilId value '!').map fun _ => ⟨value⟩

/-- `$opaque`, with no further structure. -/
def EventId.parse (value : String) : Option EventId :=
  match Text.stripLead ['$'] value.toList with
  | none => none
  | some rest => if rest.isEmpty || rest.any isWhitespace then none else some ⟨value⟩

theorem UserId.parse_value {value : String} {id : UserId} (h : UserId.parse value = some id) :
    id.value = value := by
  obtain ⟨_, _, rfl⟩ := Option.map_eq_some_iff.1 h
  rfl

theorem RoomId.parse_value {value : String} {id : RoomId} (h : RoomId.parse value = some id) :
    id.value = value := by
  obtain ⟨_, _, rfl⟩ := Option.map_eq_some_iff.1 h
  rfl

/-! Identifiers key ordered maps by the order of their strings. -/

instance : Ord UserId := ⟨compareOn UserId.value⟩
instance : Std.TransOrd UserId := inferInstanceAs (Std.TransCmp (compareOn UserId.value))
instance : Std.LawfulEqOrd UserId where
  eq_of_compare h := UserId.ext (Std.LawfulEqOrd.eq_of_compare h)

instance : Ord RoomId := ⟨compareOn RoomId.value⟩
instance : Std.TransOrd RoomId := inferInstanceAs (Std.TransCmp (compareOn RoomId.value))
instance : Std.LawfulEqOrd RoomId where
  eq_of_compare h := RoomId.ext (Std.LawfulEqOrd.eq_of_compare h)

instance : Ord EventId := ⟨compareOn EventId.value⟩
instance : Std.TransOrd EventId := inferInstanceAs (Std.TransCmp (compareOn EventId.value))
instance : Std.LawfulEqOrd EventId where
  eq_of_compare h := EventId.ext (Std.LawfulEqOrd.eq_of_compare h)

instance : Ord DeviceId := ⟨compareOn DeviceId.value⟩
instance : Std.TransOrd DeviceId := inferInstanceAs (Std.TransCmp (compareOn DeviceId.value))
instance : Std.LawfulEqOrd DeviceId where
  eq_of_compare h := DeviceId.ext (Std.LawfulEqOrd.eq_of_compare h)

instance : Ord TxnId := ⟨compareOn TxnId.value⟩
instance : Std.TransOrd TxnId := inferInstanceAs (Std.TransCmp (compareOn TxnId.value))
instance : Std.LawfulEqOrd TxnId where
  eq_of_compare h := TxnId.ext (Std.LawfulEqOrd.eq_of_compare h)

instance : Ord RequestId := ⟨compareOn RequestId.value⟩
instance : Std.TransOrd RequestId := inferInstanceAs (Std.TransCmp (compareOn RequestId.value))
instance : Std.LawfulEqOrd RequestId where
  eq_of_compare h := RequestId.ext (Std.LawfulEqOrd.eq_of_compare h)

/-- A minted identifier: a fixed lead and the seed in sixteen hexadecimal digits. -/
def mintedText (lead : String) (seed : Nat) : String :=
  lead ++ String.ofList (Text.hexFixed 16 seed)

def TxnId.new (seed : Nat) : TxnId := ⟨mintedText "m.txn." seed⟩

def RequestId.next (seed : Nat) : RequestId := ⟨mintedText "req." seed⟩

end Messenger
