import Mail4Agent.Foundation.Data
import Mail4Agent.Foundation.Text

/-!
# Wire types of the mailbox

Addresses, messages, acknowledgements, session cards and named refusals, with the checks each of
them passes before the mailbox keeps it. Identifiers can only be made from texts that pass their
check, so they carry the proof of it, and checking them again never fails.
-/

namespace Mailbox

def messageIdPrefix : String := "m4a_"

def messageIdHexLen : Nat := 24

def sessionIdPrefix : String := "s-"

def sessionIdHexMinChars : Nat := 8

def sessionIdHexMaxChars : Nat := 64

def selectorMaxBytes : Nat := 128

def subjectMaxBytes : Nat := 512

def bodyMaxBytes : Nat := 65536

def refsMax : Nat := 8

def refLocatorMaxBytes : Nat := 512

def refDigestMaxChars : Nat := 128

/-! ### Identifiers -/

def isLowerHex (c : Char) : Bool := ('0' ≤ c && c ≤ '9') || ('a' ≤ c && c ≤ 'f')

def isSelectorChar (c : Char) : Bool :=
  c.isAlphanum || c == '-' || c == '_' || c == '.' || c == '@' || c == '+'

/-- `char::is_control`. -/
def isControl (c : Char) : Bool := c.toNat ≤ 0x1F || (0x7F ≤ c.toNat && c.toNat ≤ 0x9F)

/-- A fixed lead and between `minHex` and `maxHex` lower-case hexadecimal digits. -/
def isOpaqueId (lead : String) (minHex maxHex : Nat) (value : String) : Bool :=
  match Text.stripLead lead.toList value.toList with
  | none => false
  | some hex => minHex ≤ hex.length && hex.length ≤ maxHex && hex.all isLowerHex

def isSelector (value : String) : Bool :=
  !value.isEmpty && value.utf8ByteSize ≤ selectorMaxBytes && value.toList.all isSelectorChar

@[ext]
structure OpaqueId (label lead : String) (minHex maxHex : Nat) where
  value : String
  valid : isOpaqueId lead minHex maxHex value = true
deriving DecidableEq

@[ext]
structure SelectorId (label : String) where
  value : String
  valid : isSelector value = true
deriving DecidableEq

section Order

variable {label lead : String} {minHex maxHex : Nat}

instance : Ord (OpaqueId label lead minHex maxHex) := ⟨compareOn OpaqueId.value⟩
instance : Std.TransOrd (OpaqueId label lead minHex maxHex) :=
  inferInstanceAs (Std.TransCmp (compareOn OpaqueId.value))
instance : Std.LawfulEqOrd (OpaqueId label lead minHex maxHex) where
  eq_of_compare h := OpaqueId.ext (Std.LawfulEqOrd.eq_of_compare h)

instance : Ord (SelectorId label) := ⟨compareOn SelectorId.value⟩
instance : Std.TransOrd (SelectorId label) :=
  inferInstanceAs (Std.TransCmp (compareOn SelectorId.value))
instance : Std.LawfulEqOrd (SelectorId label) where
  eq_of_compare h := SelectorId.ext (Std.LawfulEqOrd.eq_of_compare h)

end Order

abbrev MessageId := OpaqueId "message id" messageIdPrefix messageIdHexLen messageIdHexLen

abbrev SessionId :=
  OpaqueId "session id" sessionIdPrefix sessionIdHexMinChars sessionIdHexMaxChars

abbrev ParticipantId := SelectorId "participant id"

abbrev RoomId := SelectorId "room id"

/-! ### Refusals and checks -/

inductive MailError where
  | unknownParticipant (participant : ParticipantId)
  | unknownRoom (room : RoomId)
  | unknownSession (session : SessionId)
  | sessionAccountMismatch (session : SessionId) (expected presented : ParticipantId)
  | unknownMessage (messageId : MessageId)
  | notAddressedToYou (messageId : MessageId)
  | permissionDenied (need : String)
  | malformed (field reason : String)
  | tooLarge (field : String) (limit actual : Nat)
  | storeUnavailable (operation : String)
deriving DecidableEq

def validateOpaqueId (label value lead : String) (minHex maxHex : Nat) : Except MailError Unit :=
  match Text.stripLead lead.toList value.toList with
  | none => .error (.malformed label ("must start with \"" ++ lead ++ "\""))
  | some hex =>
    if hex.length < minHex || hex.length > maxHex || !hex.all isLowerHex then
      let width := if minHex = maxHex then toString minHex
        else toString minHex ++ "..=" ++ toString maxHex
      .error (.malformed label
        ("body after \"" ++ lead ++ "\" must be " ++ width ++ " lowercase hex characters"))
    else .ok ()

def validateSelector (label value : String) : Except MailError Unit :=
  if value.isEmpty then .error (.malformed label "must not be empty")
  else if value.utf8ByteSize > selectorMaxBytes then
    .error (.tooLarge label selectorMaxBytes value.utf8ByteSize)
  else if !value.toList.all isSelectorChar then
    .error (.malformed label "must be ASCII from the set [A-Za-z0-9._@+-]")
  else .ok ()

def validateBoundedText (field value : String) : Except MailError Unit :=
  if value.utf8ByteSize > subjectMaxBytes then
    .error (.tooLarge field subjectMaxBytes value.utf8ByteSize)
  else if value.toList.any isControl then
    .error (.malformed field "must not contain control characters")
  else .ok ()

/-- A text that may be absent. -/
def validateOptional {α : Type} (check : α → Except MailError Unit) :
    Option α → Except MailError Unit
  | some value => check value
  | none => .ok ()

def validateSubject (value : String) : Except MailError Unit := validateBoundedText "subject" value

def validateLabel (value : String) : Except MailError Unit := validateBoundedText "label" value

/-- A body may have lines and tabs. -/
def validateBody (value : String) : Except MailError Unit :=
  if value.utf8ByteSize > bodyMaxBytes then
    .error (.tooLarge "body" bodyMaxBytes value.utf8ByteSize)
  else if value.toList.any fun c => isControl c && !(c == '\n' || c == '\t') then
    .error (.malformed "body" "must not contain control characters other than newline and tab")
  else .ok ()

def validateCorrelation (value : String) : Except MailError Unit :=
  if value.utf8ByteSize > subjectMaxBytes then
    .error (.tooLarge "correlation" subjectMaxBytes value.utf8ByteSize)
  else if value.isEmpty || value.toList.any isControl then
    .error (.malformed "correlation" "must be non-empty and free of control characters")
  else .ok ()

def OpaqueId.validate {label lead : String} {minHex maxHex : Nat}
    (id : OpaqueId label lead minHex maxHex) : Except MailError Unit :=
  validateOpaqueId label id.value lead minHex maxHex

def SelectorId.validate {label : String} (id : SelectorId label) : Except MailError Unit :=
  validateSelector label id.value

variable {label : String} {ε α β : Type} {result : β}

@[simp]
theorem OpaqueId.validate_eq {lead : String} {minHex maxHex : Nat}
    (id : OpaqueId label lead minHex maxHex) : id.validate = .ok () := by
  obtain ⟨value, valid⟩ := id
  simp only [isOpaqueId] at valid
  simp only [OpaqueId.validate, validateOpaqueId]
  split at valid
  · cases valid
  · next hex hhex =>
    simp only [Bool.and_eq_true, decide_eq_true_eq] at valid
    simp [Nat.not_lt.2 valid.1.1, Nat.not_lt.2 valid.1.2, valid.2]

@[simp]
theorem SelectorId.validate_eq (id : SelectorId label) : id.validate = .ok () := by
  obtain ⟨value, valid⟩ := id
  simp only [isSelector, Bool.and_eq_true, Bool.not_eq_true', decide_eq_true_eq] at valid
  simp [SelectorId.validate, validateSelector, valid.1.1, Nat.not_lt.2 valid.1.2, valid.2]

/-! Checks in a row pass if each of them does. -/

@[simp]
theorem ok_bind (value : α) (rest : α → Except ε β) :
    (.ok value >>= rest) = rest value := rfl

@[simp]
theorem error_bind (error : ε) (rest : α → Except ε β) :
    (.error error >>= rest) = .error error := rfl

theorem bind_eq_ok_iff {first : Except ε α} {rest : α → Except ε β} :
    (first >>= rest) = .ok result ↔ ∃ value, first = .ok value ∧ rest value = .ok result := by
  cases first <;> simp

theorem map_eq_ok_iff {first : Except ε α} {f : α → β} :
    first.map f = .ok result ↔ ∃ value, first = .ok value ∧ f value = result := by
  cases first <;> simp [Except.map]

@[simp]
theorem bind_eq_ok {first : Except MailError Unit} {rest : Unit → Except MailError Unit} :
    (first >>= rest) = .ok () ↔ first = .ok () ∧ rest () = .ok () := by
  cases first <;> simp

@[simp]
theorem refuse_eq_ok {p : Prop} [Decidable p] {error : MailError} :
    (if p then .error error else pure () : Except MailError Unit) = .ok () ↔ ¬ p := by
  split_ifs with h <;> simp [h, pure, Except.pure]

/-! ### Addresses -/

inductive Address where
  | direct (participant : ParticipantId)
  | session (participant : ParticipantId) (session : SessionId)
  | room (room : RoomId)
deriving DecidableEq

namespace Address

def validate : Address → Except MailError Unit
  | .direct participant => participant.validate
  | .session participant id => do participant.validate; id.validate
  | .room id => id.validate

def account : Address → Option ParticipantId
  | .direct participant => some participant
  | .session participant _ => some participant
  | .room _ => none

@[simp]
theorem validate_eq (address : Address) : address.validate = .ok () := by
  cases address <;> simp [validate]

/-! Addresses key maps by their kind and then by their texts. -/

def kind : Address → Nat
  | .direct _ => 0
  | .session _ _ => 1
  | .room _ => 2

def first : Address → String
  | .direct participant => participant.value
  | .session participant _ => participant.value
  | .room id => id.value

def second : Address → String
  | .session _ id => id.value
  | _ => ""

instance : Ord Address :=
  ⟨compareLex (compareOn kind) (compareLex (compareOn first) (compareOn second))⟩

instance : Std.TransOrd Address :=
  inferInstanceAs (Std.TransCmp
    (compareLex (compareOn kind) (compareLex (compareOn first) (compareOn second))))

end Address

/-- An address that names someone, not a room. -/
def validateParticipantAddress (field : String) (address : Address) : Except MailError Unit := do
  address.validate
  if address.account.isNone then
    .error (.malformed field "must be a participant address (direct or session), not a room")

@[simp]
theorem validateParticipantAddress_eq_ok {field : String} {address : Address} :
    validateParticipantAddress field address = .ok () ↔ address.account ≠ none := by
  cases haccount : address.account <;> simp [validateParticipantAddress, haccount]

/-! ### Messages -/

structure MessageRef where
  kind : String
  locator : String
  digest : Option String
deriving DecidableEq

def MessageRef.validate (reference : MessageRef) : Except MailError Unit := do
  validateSelector "ref kind" reference.kind
  if reference.locator.utf8ByteSize > refLocatorMaxBytes then
    .error (.tooLarge "ref locator" refLocatorMaxBytes reference.locator.utf8ByteSize)
  if reference.locator.isEmpty || reference.locator.toList.any isControl then
    .error (.malformed "ref locator" "must be non-empty and free of control characters")
  validateOptional (fun digest => do
    if digest.utf8ByteSize > refDigestMaxChars then
      .error (.tooLarge "ref digest" refDigestMaxChars digest.utf8ByteSize)
    if digest.isEmpty || !digest.toList.all isLowerHex then
      .error (.malformed "ref digest" "must be non-empty lowercase hex")) reference.digest

def validateRefs (refs : List MessageRef) : Except MailError Unit := do
  if refs.length > refsMax then .error (.tooLarge "refs" refsMax refs.length)
  refs.forM MessageRef.validate

structure Message where
  messageId : MessageId
  «from» : Address
  «to» : Address
  subject : String
  body : String
  replyTo : Option MessageId
  correlation : Option String
  refs : List MessageRef
  createdAtUnixMs : UInt64
deriving DecidableEq

def Message.validate (message : Message) : Except MailError Unit := do
  message.messageId.validate
  validateParticipantAddress "from" message.«from»
  message.to.validate
  validateSubject message.subject
  validateBody message.body
  validateOptional (fun replyTo => do
    replyTo.validate
    if replyTo = message.messageId then
      .error (.malformed "reply_to" "must not reference its own message_id")) message.replyTo
  validateOptional validateCorrelation message.correlation
  validateRefs message.refs
  if message.createdAtUnixMs = 0 then .error (.malformed "created_at_unix_ms" "must not be zero")

structure SendRequest where
  «to» : Address
  subject : String
  body : String
  replyTo : Option MessageId
  correlation : Option String
  refs : List MessageRef
  idempotencyKey : Option String
deriving DecidableEq

def SendRequest.validate (request : SendRequest) : Except MailError Unit := do
  request.to.validate
  validateSubject request.subject
  validateBody request.body
  validateOptional OpaqueId.validate request.replyTo
  validateOptional validateCorrelation request.correlation
  validateRefs request.refs
  validateOptional (validateSelector "idempotency_key") request.idempotencyKey

structure SendResponse where
  messageId : MessageId
  «from» : Address
deriving DecidableEq

structure Ack where
  messageId : MessageId
  reader : Address
  ackedAtUnixMs : UInt64
deriving DecidableEq

def Ack.validate (ack : Ack) : Except MailError Unit := do
  ack.messageId.validate
  validateParticipantAddress "reader" ack.reader
  if ack.ackedAtUnixMs = 0 then .error (.malformed "acked_at_unix_ms" "must not be zero")

/-- The check of an acknowledgement is about its reader and its time. -/
theorem Ack.validate_eq_ok {ack : Ack} :
    ack.validate = .ok () ↔ ack.reader.account ≠ none ∧ ack.ackedAtUnixMs ≠ 0 := by
  simp only [Ack.validate, OpaqueId.validate_eq, bind_eq_ok, refuse_eq_ok, true_and,
    validateParticipantAddress_eq_ok]

structure InboxPage where
  messages : List Message
  unread : UInt32
deriving DecidableEq

structure UnreadCount where
  target : Address
  unread : UInt32
deriving DecidableEq

/-! ### Sessions and participants -/

structure SessionAttested where
  pid : UInt32
  startedAtUnixMs : UInt64
  exe : Option String
deriving DecidableEq

def SessionAttested.validate (attested : SessionAttested) : Except MailError Unit :=
  validateOptional (validateBoundedText "attested exe") attested.exe

structure SessionCorroborated where
  providerSessionId : Option String
  model : Option String
  cwd : Option String
deriving DecidableEq

def SessionCorroborated.validate (corroborated : SessionCorroborated) :
    Except MailError Unit := do
  validateOptional (validateBoundedText "corroborated provider_session_id")
    corroborated.providerSessionId
  validateOptional (validateBoundedText "corroborated model") corroborated.model
  validateOptional (validateBoundedText "corroborated cwd") corroborated.cwd

structure SessionDeclared where
  workingOn : Option String := none
  role : Option String := none
  parent : Option SessionId := none
deriving DecidableEq

def SessionDeclared.validate (declared : SessionDeclared) : Except MailError Unit := do
  validateOptional (validateBoundedText "declared working_on") declared.workingOn
  validateOptional (validateBoundedText "declared role") declared.role
  validateOptional OpaqueId.validate declared.parent

structure SessionCard where
  attested : SessionAttested
  corroborated : SessionCorroborated
  declared : SessionDeclared
deriving DecidableEq

def SessionCard.validate (card : SessionCard) : Except MailError Unit := do
  card.attested.validate
  card.corroborated.validate
  card.declared.validate

structure Participant where
  id : ParticipantId
  label : Option String

def Participant.validate (participant : Participant) : Except MailError Unit := do
  participant.id.validate
  validateOptional validateLabel participant.label

end Mailbox
