import Mail4Agent.Mailbox.Runs

/-!
# Where a session card comes from

A session is recorded by `ensureSession` and described by `setDeclared`. Each of the two writes its
own part of the card and leaves the other, so what is on file can be read off the last accepted call
of either (`sessionCard_provenance`), and the account off any of them.
-/

namespace Mailbox

namespace MailboxEngine

/-- The account, card and time an `ensureSession` of the session was given. -/
def ensured (session : SessionId) : MailStep → Option (ParticipantId × SessionCard × UInt64)
  | .ensureSession account id card nowUnixMs =>
    if id = session then some (account, card, nowUnixMs) else none
  | _ => none

/-- What a `setDeclared` of the session was given. -/
def declared (session : SessionId) : MailStep → Option SessionDeclared
  | .setDeclared id workingOn role parent =>
    if id = session then some ⟨workingOn, role, parent⟩ else none
  | _ => none

/-- The record that the accepted operations leave for a session. -/
def sessionRecord (session : SessionId) (done : List MailStep) : Option SessionRecord :=
  (latest (ensured session) done).map fun (account, card, lastSeenUnixMs) =>
    ⟨account, ⟨card.attested, card.corroborated, (latest (declared session) done).getD {}⟩,
      lastSeenUnixMs⟩

variable {sha : Sha256} {engine next : MailboxEngine InMemoryStore}

/-- The sessions on file are those of the accepted operations, and only these were described. -/
structure CardsOnFile (done : List MailStep) (engine : MailboxEngine InMemoryStore) : Prop where
  record (session : SessionId) : engine.store.sessions[session]? = sessionRecord session done
  known (session : SessionId) : engine.store.sessions[session]? = none →
    latest (declared session) done = none

theorem CardsOnFile.perform {done : List MailStep} {s : MailStep}
    (hfile : CardsOnFile done engine) (h : engine.perform sha s = .ok next) :
    CardsOnFile (done ++ [s]) next := by
  cases s with
  | ensureSession account id card nowUnixMs =>
    obtain ⟨result, hresult, rfl⟩ := map_eq_ok_iff.1 h
    obtain ⟨kept, hold, hnew, _, ⟨⟩, rfl⟩ := ensureSession_ok hresult
    have hkept : kept = (latest (declared id) done).getD {} := by
      cases hsession : engine.store.sessions[id]? with
      | none => rw [hnew (congrArg _ hsession), hfile.known id hsession, Option.getD_none]
      | some old =>
        rw [← (hold old (congrArg _ hsession)).2]
        obtain ⟨last, -, rfl⟩ := Option.map_eq_some_iff.1 ((hfile.record id).symm.trans hsession)
        rfl
    refine ⟨fun session => ?_, fun session => ?_⟩
    · rw [InMemoryStore.upsertSession, getElem?_insert_ite, hfile.record session, sessionRecord,
        sessionRecord, latest_snoc, latest_snoc]
      by_cases hid : session = id
      · simp [hid, ensured, declared, hkept]
      · simp [hid, Ne.symm hid, ensured, declared]
    · rw [InMemoryStore.upsertSession, getElem?_insert_ite, latest_snoc]
      split_ifs with hid
      · simp
      · exact hfile.known session
  | setDeclared id workingOn role parent =>
    obtain ⟨record, hrecord, _, ⟨⟩, rfl⟩ := setDeclared_ok h
    obtain ⟨last, hlast, rfl⟩ :=
      Option.map_eq_some_iff.1 ((hfile.record id).symm.trans (Except.ok.inj hrecord))
    refine ⟨fun session => ?_, fun session => ?_⟩
    · rw [InMemoryStore.upsertSession, getElem?_insert_ite, hfile.record session, sessionRecord,
        sessionRecord, latest_snoc, latest_snoc]
      by_cases hid : session = id
      · simp [hid, hlast, ensured, declared]
      · simp [hid, Ne.symm hid, ensured, declared]
    · rw [InMemoryStore.upsertSession, getElem?_insert_ite, latest_snoc]
      by_cases hid : session = id
      · simp [hid]
      · simpa [hid, Ne.symm hid, declared] using hfile.known session
  | _ =>
    have hsessions := (perform_untouched h).sessions (by rintro ⟨⟩)
    refine ⟨fun session => ?_, fun session => ?_⟩
    · rw [hsessions, hfile.record session, sessionRecord, sessionRecord, latest_snoc, latest_snoc]
      rfl
    · rw [hsessions, latest_snoc]
      exact hfile.known session

theorem cardsOnFile_run (steps : List MailStep) :
    CardsOnFile (accepted sha ⟨InMemoryStore.new⟩ steps)
      (Trace.run (step sha) ⟨InMemoryStore.new⟩ steps) :=
  accepted_invariant CardsOnFile (fun _ _ _ _ hfile h => hfile.perform h)
    ⟨fun _ => rfl, fun _ _ => rfl⟩ steps

/-- A session on file stays there, under its account. -/
theorem account_of_perform {s : MailStep} (h : engine.perform sha s = .ok next)
    {session : SessionId} {record : SessionRecord}
    (hrecord : engine.store.sessions[session]? = some record) :
    ∃ later, next.store.sessions[session]? = some later ∧ later.account = record.account := by
  cases s with
  | ensureSession account id card nowUnixMs =>
    obtain ⟨result, hresult, rfl⟩ := map_eq_ok_iff.1 h
    obtain ⟨kept, hold, -, _, ⟨⟩, rfl⟩ := ensureSession_ok hresult
    rw [InMemoryStore.upsertSession, getElem?_insert_ite]
    split_ifs with hid
    · subst hid
      exact ⟨_, rfl, (hold record (congrArg _ hrecord)).1.symm⟩
    · exact ⟨record, hrecord, rfl⟩
  | setDeclared id workingOn role parent =>
    obtain ⟨old, hold, _, ⟨⟩, rfl⟩ := setDeclared_ok h
    rw [InMemoryStore.upsertSession, getElem?_insert_ite]
    split_ifs with hid
    · subst hid
      cases (Except.ok.inj hold).symm.trans hrecord
      exact ⟨_, rfl, rfl⟩
    · exact ⟨record, hrecord, rfl⟩
  | _ =>
    rw [(perform_untouched h).sessions (by rintro ⟨⟩)]
    exact ⟨record, hrecord, rfl⟩

theorem account_of_run {session : SessionId} {record : SessionRecord}
    (hrecord : engine.store.sessions[session]? = some record) (steps : List MailStep) :
    ∃ later, (Trace.run (step sha) engine steps).store.sessions[session]? = some later ∧
      later.account = record.account := by
  refine Trace.run_invariant (fun engine : MailboxEngine InMemoryStore => ∃ later,
    engine.store.sessions[session]? = some later ∧ later.account = record.account)
    (fun engine s hlater => ?_) ⟨record, hrecord, rfl⟩ steps
  obtain ⟨later, hlater, haccount⟩ := hlater
  rw [step]
  cases h : engine.perform sha s with
  | error => exact ⟨later, hlater, haccount⟩
  | ok next =>
    obtain ⟨last, hlast, hsame⟩ := account_of_perform h hlater
    exact ⟨last, hlast, hsame.trans haccount⟩

/-- After every run, the declared group of a session is the argument of its last accepted
`setDeclared`, the rest of its card and its time those of its last accepted `ensureSession`; and its
account never changes. -/
theorem sessionCard_provenance (sha : Sha256) (steps : List MailStep) (session : SessionId) :
    (Trace.run (step sha) ⟨InMemoryStore.new⟩ steps).store.sessions[session]? =
        sessionRecord session (accepted sha ⟨InMemoryStore.new⟩ steps) ∧
      ∀ record, (Trace.run (step sha) ⟨InMemoryStore.new⟩ steps).store.sessions[session]? =
          some record →
        ∀ more, ∃ later, (Trace.run (step sha) ⟨InMemoryStore.new⟩
            (steps ++ more)).store.sessions[session]? = some later ∧
          later.account = record.account := by
  refine ⟨(cardsOnFile_run steps).record session, fun record hrecord more => ?_⟩
  rw [Trace.run_append]
  exact account_of_run hrecord more

end MailboxEngine

end Mailbox
