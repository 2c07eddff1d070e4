import Mail4Agent.Server.Power

/-!
# Changes of the power levels

Whoever changes the power levels has the level the old ones give them. The rules look at the
integer fields and at the entries of both documents, so a user listed in neither is covered by the
rule for `users_default` alone, which lets through a change of users at the sender's own level
(`noEscalation_iff`).
-/

namespace Server.Power

/-- An integer field, or its default. -/
def scalar (levels : Json) (key : String) : Int := (field? levels key).getD (scalarDefault key)

/-- What a change of the power levels must not do. -/
structure NoEscalation (old new : Json) (sender : String) : Prop where
  raised : ∀ mxid, userLevel new mxid ≤ max (userLevel old mxid) (userLevel old sender)
  touched : ∀ mxid, mxid ≠ sender → userLevel new mxid ≠ userLevel old mxid →
    userLevel old mxid < userLevel old sender
  thresholds : ∀ key ∈ ["state_default", "events_default", "ban", "kick", "redact", "invite"],
    scalar old key ≠ scalar new key →
      scalar old key ≤ userLevel old sender ∧ scalar new key ≤ userLevel old sender
  events : ∀ eventType, levelEntry old "events" eventType ≠ levelEntry new "events" eventType →
    ∀ level, level ∈ levelEntry old "events" eventType ∨
      level ∈ levelEntry new "events" eventType → level ≤ userLevel old sender

variable {old new : Json} {sender mxid table key : String}

theorem rejectIfEitherSideExceeds_ok {a b : Option Int} {level : Int} :
    rejectIfEitherSideExceeds a b level = .ok () ↔
      (a ≠ b → ∀ v, v ∈ a ∨ v ∈ b → v ≤ level) := by
  unfold rejectIfEitherSideExceeds
  cases a <;> cases b <;> simp [or_imp, forall_and]

theorem checkUserLevel_ok {target : String} : checkUserLevel old new sender target = .ok () ↔
    (userLevel new target ≠ userLevel old target →
      (target ≠ sender → userLevel old target < userLevel old sender) ∧
        userLevel new target ≤ userLevel old sender) := by
  unfold checkUserLevel
  split_ifs <;> simp_all <;> grind

/-- What each of the checks says of an accepted change. -/
theorem validatePowerLevelsChange_ok (h : validatePowerLevelsChange old new sender = .ok ()) :
    (∀ key ∈ scalarKeys, scalar old key ≠ scalar new key →
      scalar old key ≤ userLevel old sender ∧ scalar new key ≤ userLevel old sender) ∧
    (∀ eventType ∈ keysOf old new "events", rejectIfEitherSideExceeds
      (levelEntry old "events" eventType) (levelEntry new "events" eventType)
        (userLevel old sender) = .ok ()) ∧
    ∀ target ∈ keysOf old new "users", checkUserLevel old new sender target = .ok () := by
  simp only [validatePowerLevelsChange, Except.bind_eq_ok] at h
  obtain ⟨⟨⟩, hscalars, ⟨⟩, hevents, -, -, husers⟩ := h
  refine ⟨fun key hkey hne => ?_, Except.forM_eq_ok.1 hevents, Except.forM_eq_ok.1 husers⟩
  have hboth := rejectIfEitherSideExceeds_ok.1 (Except.forM_eq_ok.1 hscalars key hkey)
    (by simpa [scalar] using hne)
  exact ⟨hboth _ (.inl rfl), hboth _ (.inr rfl)⟩

theorem levelEntry_eq_none {levels : Json}
    (h : key ∉ (((levels.get? table).bind Json.asObject?).getD []).map Prod.fst) :
    levelEntry levels table key = none := by
  unfold levelEntry field?
  cases hentries : levels.get? table with
  | none => rfl
  | some entries =>
    cases entries with
    | obj fields =>
      have hlookup : fields.lookup key = none := by
        rw [List.lookup_eq_none_iff]
        intro field hfield
        simp only [hentries, Option.bind_some, Json.asObject?, Option.getD_some] at h
        rw [bne_iff_ne]
        rintro rfl
        exact h (List.mem_map_of_mem hfield)
      simp [Json.get?, hlookup]
    | _ => rfl

/-- A key that is in neither document has no entry. -/
theorem levelEntry_of_notMem (h : key ∉ keysOf old new table) :
    levelEntry old table key = none ∧ levelEntry new table key = none := by
  simp only [keysOf, List.mem_insertionSort, List.mem_dedup, List.mem_append, not_or] at h
  exact ⟨levelEntry_eq_none h.1, levelEntry_eq_none h.2⟩

/-- A user whom neither document lists has the default level. -/
theorem userLevel_of_notMem (h : mxid ∉ keysOf old new "users") :
    userLevel old mxid = scalar old "users_default" ∧
      userLevel new mxid = scalar new "users_default" := by
  obtain ⟨hold, hnew⟩ := levelEntry_of_notMem h
  simp [userLevel, hold, hnew, scalar, scalarDefault]

/-- There is always another user whom neither document lists. -/
theorem exists_unlisted (old new : Json) (sender : String) :
    ∃ mxid, mxid ≠ sender ∧ mxid ∉ keysOf old new "users" := by
  obtain ⟨mxid, hmxid⟩ := Infinite.exists_notMem_finset (sender :: keysOf old new "users").toFinset
  exact ⟨mxid, by simpa using hmxid⟩

/-- An accepted change escalates nothing exactly if it leaves `users_default` or the old one is
below the sender's level. -/
theorem noEscalation_iff (h : validatePowerLevelsChange old new sender = .ok ()) :
    NoEscalation old new sender ↔ scalar old "users_default" = scalar new "users_default" ∨
      scalar old "users_default" < userLevel old sender := by
  obtain ⟨hscalars, hevents, husers⟩ := validatePowerLevelsChange_ok h
  constructor
  · intro hsafe
    obtain ⟨mxid, hne, hunlisted⟩ := exists_unlisted old new sender
    have htouched := hsafe.touched mxid hne
    rw [(userLevel_of_notMem hunlisted).1, (userLevel_of_notMem hunlisted).2] at htouched
    exact or_iff_not_imp_left.2 fun hchanged => htouched (Ne.symm hchanged)
  · intro hdefault
    refine ⟨fun mxid => ?_, fun mxid hother hchanged => ?_, fun key hkey => ?_,
      fun eventType hne => ?_⟩
    · by_cases hlisted : mxid ∈ keysOf old new "users"
      · have hcheck := checkUserLevel_ok.1 (husers mxid hlisted)
        grind
      · have hchange := hscalars "users_default" (by decide)
        rw [(userLevel_of_notMem hlisted).1, (userLevel_of_notMem hlisted).2]
        grind
    · by_cases hlisted : mxid ∈ keysOf old new "users"
      · exact (checkUserLevel_ok.1 (husers mxid hlisted) hchanged).1 hother
      · rw [(userLevel_of_notMem hlisted).1, (userLevel_of_notMem hlisted).2] at *
        exact hdefault.resolve_left (Ne.symm hchanged)
    · exact hscalars key (by revert key; decide)
    · by_cases hlisted : eventType ∈ keysOf old new "events"
      · exact rejectIfEitherSideExceeds_ok.1 (hevents eventType hlisted) hne
      · obtain ⟨hold, hnew⟩ := levelEntry_of_notMem hlisted
        exact absurd (hold.trans hnew.symm) hne

/-- Everyone is at 50 until somebody lowers the rest of the room. -/
theorem not_noEscalation_peers :
    validatePowerLevelsChange (.obj [("users_default", .int 50)]) (.obj []) "@a:x" = .ok () ∧
      ¬ NoEscalation (.obj [("users_default", .int 50)]) (.obj []) "@a:x" := by
  refine ⟨by decide +kernel, fun hsafe => ?_⟩
  exact absurd (hsafe.touched "@b:x" (by decide) (by decide +kernel)) (by decide +kernel)

/-- An administrator raises a user to half of their own level. -/
theorem noEscalation_iff_promotion :
    NoEscalation (.obj [("users", .obj [("@a:x", .int 100)])])
      (.obj [("users", .obj [("@a:x", .int 100), ("@b:x", .int 50)])]) "@a:x" :=
  (noEscalation_iff (by decide +kernel)).2 (.inl (by decide +kernel))

end Server.Power
