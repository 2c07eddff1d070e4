import Mail4Agent.Messenger.KeyRing
import Mail4Agent.Vodozemac.Ratchet

/-!
# Inbound Megolm sessions

A session knows a ratchet from some index on, and the public key its messages are signed with. It
keeps the ratchet at its first known index and, to save hashing, the one it used last; that the
latter is the former advanced is a field of the session. Looking a ratchet up, comparing two
sessions and decrypting move the latest ratchet, but what they answer depends on the initial one
alone.

Signatures, ciphers and text encodings are parameters.
-/

namespace Vodozemac

open Messenger (SessionOrdering)

inductive MessageMac where
  | truncated (mac : Bytes)
  | full (mac : Bytes)
deriving DecidableEq, Repr

def MessageMac.asBytes : MessageMac → Bytes
  | truncated mac | full mac => mac

structure MegolmMessage where
  version : UInt8
  ciphertext : Bytes
  messageIndex : UInt32
  mac : MessageMac
  signature : Bytes
deriving DecidableEq, Repr

structure ExportedSessionKey (Part : Type) where
  ratchetIndex : UInt32
  ratchet : Fin 4 → Part
  signingKey : Bytes

structure SessionKey (Part : Type) where
  sessionKey : ExportedSessionKey Part
  signature : Bytes

/-- The ratchet's hash, signatures, ciphers and encodings. A key or a message is decoded, and the
signature of a session key checked, from base64 text. -/
structure Primitives where
  Part : Type
  partEq : DecidableEq Part
  hash : Part → Fin 4 → Part
  base64Encode : Bytes → String
  /-- Of a key, a message and a signature; what is wrong, if anything. -/
  verify : Bytes → Bytes → Bytes → Option String
  /-- Of the cipher at a ratchet, a message and its authentication code. -/
  verifyTruncatedMac : (Fin 4 → Part) → Bytes → Bytes → Option String
  decryptCipher : (Fin 4 → Part) → Bytes → Except String Bytes
  encodeMessage : UInt8 → UInt32 → Bytes → Bytes
  decodeMessage : String → Except String MegolmMessage
  decodeSessionKey : String → Except String (SessionKey Part)
  decodeExportedSessionKey : String → Except String (ExportedSessionKey Part)
  /-- The session key of an outbound session at its ratchet, signed, in base64. -/
  encodeSessionKey : Ratchet Part → Bytes → String

instance (prim : Primitives) : DecidableEq prim.Part := prim.partEq

variable {prim : Primitives}

/-- An outbound session, as far as others learn of it. -/
structure GroupSession (prim : Primitives) where
  ratchet : Ratchet prim.Part
  signingKey : Bytes

def GroupSession.sessionId (session : GroupSession prim) : String :=
  prim.base64Encode session.signingKey

structure InboundGroupSession (prim : Primitives) where
  initialRatchet : Ratchet prim.Part
  latestRatchet : Ratchet prim.Part
  signingKey : Bytes
  signingKeyVerified : Bool
  ahead : initialRatchet.counter ≤ latestRatchet.counter
  advanced : initialRatchet.advanceTo prim.hash latestRatchet.counter = latestRatchet

structure InboundGroupSessionPickle (prim : Primitives) where
  initialRatchet : Ratchet prim.Part
  signingKey : Bytes
  signingKeyVerified : Bool
deriving DecidableEq

structure DecryptedMessage where
  plaintext : Bytes
  messageIndex : UInt32
deriving DecidableEq, Repr

inductive DecryptionError where
  | signature (source : String)
  | invalidMac (source : String)
  | invalidMacLength (expected got : Nat)
  | invalidPadding (source : String)
  | unknownMessageIndex (first index : UInt32)
deriving DecidableEq, Repr

def macTruncatedLength : Nat := 8
def macLength : Nat := 32

namespace MegolmMessage

def toMacBytes (prim : Primitives) (message : MegolmMessage) : Bytes :=
  prim.encodeMessage message.version message.messageIndex message.ciphertext

def toSignatureBytes (prim : Primitives) (message : MegolmMessage) : Bytes :=
  message.toMacBytes prim ++ message.mac.asBytes

end MegolmMessage

namespace InboundGroupSession

def ofInitial (ratchet : Ratchet prim.Part) (signingKey : Bytes) (signingKeyVerified : Bool) :
    InboundGroupSession prim where
  initialRatchet := ratchet
  latestRatchet := ratchet
  signingKey
  signingKeyVerified
  ahead := UInt32.le_refl _
  advanced := ratchet.advanceTo_self prim.hash

def new (key : SessionKey prim.Part) : InboundGroupSession prim :=
  ofInitial ⟨key.sessionKey.ratchet, key.sessionKey.ratchetIndex⟩ key.sessionKey.signingKey true

/-- An exported key has no signature of the session's creator. -/
def «import» (key : ExportedSessionKey prim.Part) : InboundGroupSession prim :=
  ofInitial ⟨key.ratchet, key.ratchetIndex⟩ key.signingKey false

def pickle (session : InboundGroupSession prim) : InboundGroupSessionPickle prim :=
  ⟨session.initialRatchet, session.signingKey, session.signingKeyVerified⟩

def fromPickle (pickle : InboundGroupSessionPickle prim) : InboundGroupSession prim :=
  ofInitial pickle.initialRatchet pickle.signingKey pickle.signingKeyVerified

def sessionId (session : InboundGroupSession prim) : String := prim.base64Encode session.signingKey

def firstKnownIndex (session : InboundGroupSession prim) : UInt32 := session.initialRatchet.counter

/-- The latest ratchet, advanced further. -/
def advanceLatest (session : InboundGroupSession prim) (index : UInt32)
    (h : session.latestRatchet.counter < index) : InboundGroupSession prim :=
  have hle := UInt32.le_of_lt h
  have hcounter := Ratchet.counter_advanceTo prim.hash hle
  { session with
    latestRatchet := session.latestRatchet.advanceTo prim.hash index
    ahead := by rw [hcounter]; exact UInt32.le_trans session.ahead hle
    advanced := by
      rw [hcounter, ← session.advanced, Ratchet.advanceTo_advanceTo prim.hash session.ahead hle] }

/-- The initial ratchet in the place of the latest, advanced. -/
def restartLatest (session : InboundGroupSession prim) (index : UInt32)
    (h : session.initialRatchet.counter < index) : InboundGroupSession prim :=
  have hcounter := Ratchet.counter_advanceTo prim.hash (UInt32.le_of_lt h)
  { session with
    latestRatchet := session.initialRatchet.advanceTo prim.hash index
    ahead := by rw [hcounter]; exact UInt32.le_of_lt h
    advanced := by rw [hcounter] }

/-- The ratchet at an index, if that is known. -/
def findRatchet (session : InboundGroupSession prim) (index : UInt32) :
    Option (Ratchet prim.Part) × InboundGroupSession prim :=
  if session.initialRatchet.counter = index then (some session.initialRatchet, session)
  else if session.latestRatchet.counter = index then (some session.latestRatchet, session)
  else if h : session.latestRatchet.counter < index then
    let session := session.advanceLatest index h
    (some session.latestRatchet, session)
  else if h : session.initialRatchet.counter < index then
    let session := session.restartLatest index h
    (some session.latestRatchet, session)
  else (none, session)

/-- Whether two sessions have one ratchet, possibly known from different indices on. -/
def connected (session other : InboundGroupSession prim) :
    Bool × InboundGroupSession prim × InboundGroupSession prim :=
  if session.signingKey ≠ other.signingKey then (false, session, other)
  else
    match session.findRatchet other.firstKnownIndex with
    | (some ratchet, session) => (ratchet = other.initialRatchet, session, other)
    | (none, session) =>
      match other.findRatchet session.firstKnownIndex with
      | (some ratchet, other) => (session.initialRatchet = ratchet, session, other)
      -- One of the two first known indices is not larger than the other.
      | (none, other) => (false, session, other)

def compare (session other : InboundGroupSession prim) :
    SessionOrdering × InboundGroupSession prim × InboundGroupSession prim :=
  match session.connected other with
  | (true, session, other) =>
    if session.firstKnownIndex < other.firstKnownIndex then (.better, session, other)
    else if session.firstKnownIndex = other.firstKnownIndex then (.equal, session, other)
    else (.worse, session, other)
  | (false, session, other) => (.unconnected, session, other)

/-- The lower index and the better authenticity of two sessions that are connected. -/
def merge (session other : InboundGroupSession prim) : Option (InboundGroupSession prim) :=
  match session.compare other with
  | (.equal, session, other) | (.better, session, other) =>
    some (ofInitial session.initialRatchet session.signingKey
      (session.signingKeyVerified || other.signingKeyVerified))
  | (.worse, session, other) =>
    some (ofInitial other.initialRatchet session.signingKey
      (session.signingKeyVerified || other.signingKeyVerified))
  | (.unconnected, _, _) => none

def verifyMac (ratchet : Ratchet prim.Part) (message : MegolmMessage) :
    Except DecryptionError Unit :=
  match message.mac with
  | .truncated mac =>
    match prim.verifyTruncatedMac ratchet.inner (message.toMacBytes prim) mac with
    | none => .ok ()
    | some source => .error (.invalidMac source)
  | .full _ => .error (.invalidMacLength macTruncatedLength macLength)

def decrypt (session : InboundGroupSession prim) (message : MegolmMessage) :
    Except DecryptionError DecryptedMessage × InboundGroupSession prim :=
  match prim.verify session.signingKey (message.toSignatureBytes prim) message.signature with
  | some source => (.error (.signature source), session)
  | none =>
    match session.findRatchet message.messageIndex with
    | (none, session) =>
      (.error (.unknownMessageIndex session.initialRatchet.counter message.messageIndex), session)
    | (some ratchet, session) =>
      match verifyMac ratchet message with
      | .error e => (.error e, session)
      | .ok () =>
        match prim.decryptCipher ratchet.inner message.ciphertext with
        | .error source => (.error (.invalidPadding source), session)
        | .ok plaintext => (.ok ⟨plaintext, message.messageIndex⟩, session)

/-! ### What the answers depend on -/

/-- The two sessions differ at most in their latest ratchets. -/
def SameInitial (a b : InboundGroupSession prim) : Prop := a.pickle = b.pickle

variable {a b : InboundGroupSession prim}

theorem SameInitial.initialRatchet (h : SameInitial a b) : a.initialRatchet = b.initialRatchet :=
  congrArg InboundGroupSessionPickle.initialRatchet h

theorem SameInitial.signingKey (h : SameInitial a b) : a.signingKey = b.signingKey :=
  congrArg InboundGroupSessionPickle.signingKey h

theorem SameInitial.firstKnownIndex (h : SameInitial a b) : a.firstKnownIndex = b.firstKnownIndex :=
  congrArg Ratchet.counter h.initialRatchet

section Answers

variable (session other : InboundGroupSession prim)

theorem findRatchet_fst (index : UInt32) : (session.findRatchet index).1 =
    if session.firstKnownIndex ≤ index then some (session.initialRatchet.advanceTo prim.hash index)
    else none := by
  rw [findRatchet]
  split_ifs with hinitial hle hlatest hle hless hle hfirst hle
  · rw [← hinitial, Ratchet.advanceTo_self]
  · exact absurd (hinitial ▸ UInt32.le_refl _) hle
  · rw [← hlatest, session.advanced]
  · exact absurd (hlatest ▸ session.ahead) hle
  · simp only [advanceLatest]
    rw [← session.advanced, Ratchet.advanceTo_advanceTo prim.hash session.ahead
      (UInt32.le_of_lt hless)]
  · exact absurd (UInt32.le_trans session.ahead (UInt32.le_of_lt hless)) hle
  · rfl
  · exact absurd (UInt32.le_of_lt hfirst) hle
  · next hle => exact absurd (UInt32.le_antisymm hle (UInt32.not_lt.1 hfirst)) hinitial
  · rfl

theorem findRatchet_snd (index : UInt32) : SameInitial (session.findRatchet index).2 session := by
  rw [findRatchet]
  split_ifs <;> rfl

/-- The second session goes on from the first, or the first from the second. -/
def Joined : Prop :=
  session.signingKey = other.signingKey ∧
    if session.firstKnownIndex ≤ other.firstKnownIndex then
      session.initialRatchet.advanceTo prim.hash other.firstKnownIndex = other.initialRatchet
    else session.initialRatchet = other.initialRatchet.advanceTo prim.hash session.firstKnownIndex

instance : Decidable (Joined session other) := by
  unfold Joined
  infer_instance

theorem connected_eq : (session.connected other).1 = decide (Joined session other) ∧
    SameInitial (session.connected other).2.1 session ∧
    SameInitial (session.connected other).2.2 other := by
  have hfind := session.findRatchet_fst other.firstKnownIndex
  have hsame := session.findRatchet_snd other.firstKnownIndex
  rw [connected]
  by_cases hkey : session.signingKey = other.signingKey
  · rw [if_neg (not_not.2 hkey)]
    generalize session.findRatchet other.firstKnownIndex = found at hfind hsame
    obtain ⟨ratchet, moved⟩ := found
    by_cases hle : session.firstKnownIndex ≤ other.firstKnownIndex
    · rw [if_pos hle] at hfind
      dsimp only at hfind hsame
      subst hfind
      exact ⟨by simp [Joined, hkey, hle], hsame, rfl⟩
    · rw [if_neg hle] at hfind
      dsimp only at hfind hsame
      subst hfind
      have hfirst := hsame.firstKnownIndex
      have hback := other.findRatchet_fst moved.firstKnownIndex
      have hback' := other.findRatchet_snd moved.firstKnownIndex
      rw [hfirst, if_pos (UInt32.le_of_lt (UInt32.not_le.1 hle))] at hback
      dsimp only
      rw [hfirst] at hback' ⊢
      generalize other.findRatchet session.firstKnownIndex = found at hback hback'
      obtain ⟨ratchet, moved'⟩ := found
      dsimp only at hback hback'
      subst hback
      exact ⟨by simp [Joined, hkey, hle, hsame.initialRatchet], hsame, hback'⟩
  · rw [if_pos hkey]
    exact ⟨by simp [Joined, hkey], rfl, rfl⟩

theorem compare_eq : (session.compare other).1 =
      (if Joined session other then
        if session.firstKnownIndex < other.firstKnownIndex then .better
        else if session.firstKnownIndex = other.firstKnownIndex then .equal else .worse
      else .unconnected) ∧
    SameInitial (session.compare other).2.1 session ∧
    SameInitial (session.compare other).2.2 other := by
  obtain ⟨hjoined, hsame, hsame'⟩ := session.connected_eq other
  rw [compare]
  generalize session.connected other = result at hjoined hsame hsame'
  obtain ⟨connected, moved, moved'⟩ := result
  dsimp only at hjoined hsame hsame'
  cases connected with
  | true =>
    rw [if_pos (of_decide_eq_true hjoined.symm)]
    dsimp only
    rw [hsame.firstKnownIndex, hsame'.firstKnownIndex]
    split_ifs <;> exact ⟨rfl, hsame, hsame'⟩
  | false =>
    rw [if_neg (of_decide_eq_false hjoined.symm)]
    exact ⟨rfl, hsame, hsame'⟩

end Answers

end InboundGroupSession

/-- The second session has the ratchet of the first, from the same index on or an earlier one. -/
structure InboundGroupSessionPickle.Extends (old new : InboundGroupSessionPickle prim) : Prop where
  signingKey : new.signingKey = old.signingKey
  first : new.initialRatchet.counter ≤ old.initialRatchet.counter
  ratchet : new.initialRatchet.advanceTo prim.hash old.initialRatchet.counter = old.initialRatchet

namespace InboundGroupSessionPickle.Extends

variable {a b c : InboundGroupSessionPickle prim}

theorem refl (a : InboundGroupSessionPickle prim) : a.Extends a :=
  ⟨rfl, UInt32.le_refl _, a.initialRatchet.advanceTo_self prim.hash⟩

/-- From the first known index on, the ratchets are the same. -/
theorem advanceTo_eq (h : a.Extends b) {index : UInt32}
    (hle : a.initialRatchet.counter ≤ index) :
    b.initialRatchet.advanceTo prim.hash index = a.initialRatchet.advanceTo prim.hash index := by
  rw [← Ratchet.advanceTo_advanceTo prim.hash h.first hle, h.ratchet]

theorem trans (hab : a.Extends b) (hbc : b.Extends c) : a.Extends c :=
  ⟨hbc.signingKey.trans hab.signingKey, UInt32.le_trans hbc.first hab.first,
    (hbc.advanceTo_eq hab.first).trans hab.ratchet⟩

end InboundGroupSessionPickle.Extends

namespace InboundGroupSession

variable {session other a a' b b' : InboundGroupSession prim} {message : MegolmMessage}

/-- A session is worse than another one if the other goes further back. -/
theorem compare_worse (h : (session.compare other).1 = .worse) :
    session.pickle.Extends other.pickle ∧ other.firstKnownIndex < session.firstKnownIndex := by
  rw [(session.compare_eq other).1] at h
  split_ifs at h with hjoined hless hequal
  have hlt : other.firstKnownIndex < session.firstKnownIndex :=
    UInt32.lt_of_le_of_ne (UInt32.not_lt.1 hless) (Ne.symm hequal)
  obtain ⟨hkey, hratchet⟩ := hjoined
  rw [if_neg (UInt32.not_le.2 hlt)] at hratchet
  exact ⟨⟨hkey.symm, UInt32.le_of_lt hlt, hratchet.symm⟩, hlt⟩

theorem joined_congr (ha : SameInitial a a') (hb : SameInitial b b') :
    Joined a b ↔ Joined a' b' := by
  rw [Joined, Joined, ha.signingKey, hb.signingKey, ha.firstKnownIndex, hb.firstKnownIndex,
    ha.initialRatchet, hb.initialRatchet]

theorem compare_congr (ha : SameInitial a a') (hb : SameInitial b b') :
    (a.compare b).1 = (a'.compare b').1 := by
  rw [(compare_eq a b).1, (compare_eq a' b').1]
  simp only [joined_congr ha hb, ha.firstKnownIndex, hb.firstKnownIndex]

/-- A comparison does not change the next one. -/
theorem compare_again (session other : InboundGroupSession prim) :
    ((session.compare other).2.1.compare (session.compare other).2.2).1 =
      (session.compare other).1 := by
  obtain ⟨-, hsame, hsame'⟩ := session.compare_eq other
  exact compare_congr hsame hsame'

/-- After a comparison that was worse, the merge has the ratchet of the other session. -/
theorem merge_of_worse (h : (session.compare other).1 = .worse) :
    ∃ merged, (session.compare other).2.1.merge (session.compare other).2.2 = some merged ∧
      merged.initialRatchet = other.initialRatchet ∧ merged.signingKey = session.signingKey := by
  have hagain := (compare_again session other).trans h
  obtain ⟨-, hsame, hsame'⟩ := session.compare_eq other
  obtain ⟨-, hmoved, hmoved'⟩ :=
    (session.compare other).2.1.compare_eq (session.compare other).2.2
  rw [merge]
  generalize (session.compare other).2.1.compare (session.compare other).2.2 = result
    at hagain hmoved hmoved'
  obtain ⟨ordering, moved, moved'⟩ := result
  dsimp only at hagain hmoved hmoved'
  subst hagain
  exact ⟨_, rfl, hmoved'.initialRatchet.trans hsame'.initialRatchet,
    hmoved.signingKey.trans hsame.signingKey⟩

theorem decrypt_snd (session : InboundGroupSession prim) (message : MegolmMessage) :
    SameInitial (session.decrypt message).2 session := by
  have hsame := session.findRatchet_snd message.messageIndex
  rw [decrypt]
  cases prim.verify session.signingKey (message.toSignatureBytes prim) message.signature with
  | some source => rfl
  | none =>
    dsimp only
    generalize session.findRatchet message.messageIndex = found at hsame
    obtain ⟨_ | ratchet, moved⟩ := found
    · exact hsame
    · dsimp only
      split
      · exact hsame
      · split <;> exact hsame

/-- What is decrypted has the index of its message, which is a known one. -/
theorem decrypt_ok {decrypted : DecryptedMessage}
    (h : (session.decrypt message).1 = .ok decrypted) :
    decrypted.messageIndex = message.messageIndex ∧
      session.firstKnownIndex ≤ message.messageIndex := by
  have hfind := session.findRatchet_fst message.messageIndex
  rw [decrypt] at h
  split at h
  · cases h
  · generalize session.findRatchet message.messageIndex = found at h hfind
    obtain ⟨_ | ratchet, moved⟩ := found
    · cases h
    · dsimp only at h hfind
      have hle : session.firstKnownIndex ≤ message.messageIndex := by
        by_contra hlt
        rw [if_neg hlt] at hfind
        cases hfind
      split at h
      · cases h
      · split at h
        · cases h
        · exact ⟨(Except.ok.inj h) ▸ rfl, hle⟩

/-- A session that extends another decrypts what that one does. -/
theorem decrypt_of_extends (hextends : session.pickle.Extends other.pickle)
    (hle : session.firstKnownIndex ≤ message.messageIndex) :
    (other.decrypt message).1 = (session.decrypt message).1 := by
  have hfind := session.findRatchet_fst message.messageIndex
  have hfind' := other.findRatchet_fst message.messageIndex
  have hkey : other.signingKey = session.signingKey := hextends.signingKey
  have hle' : other.firstKnownIndex ≤ message.messageIndex := UInt32.le_trans hextends.first hle
  rw [if_pos hle] at hfind
  rw [if_pos hle'] at hfind'
  have hratchet : other.initialRatchet.advanceTo prim.hash message.messageIndex =
      session.initialRatchet.advanceTo prim.hash message.messageIndex := hextends.advanceTo_eq hle
  rw [hratchet] at hfind'
  rw [decrypt, decrypt, hkey]
  generalize session.findRatchet message.messageIndex = found at hfind
  generalize other.findRatchet message.messageIndex = found' at hfind'
  obtain ⟨ratchet, moved⟩ := found
  obtain ⟨ratchet', moved'⟩ := found'
  dsimp only at hfind hfind'
  subst hfind hfind'
  split
  · rfl
  · dsimp only
    split
    · rfl
    · split <;> rfl

end InboundGroupSession

end Vodozemac
