import Mail4Agent.Server.IdentityRun

/-!
# Reconcile passes

A snapshot lists the live credentials under the product's present nicks, and the pass looks the
identities up by those nicks. So a credential is spared only if its identity bears the nick it is
listed under. What is left after a pass is described by membership (`mem_reconcile`).
-/

namespace Server.Identities

open Store

variable {server : String} {s s' : Store} {snap : Reconcile}

def Live (snap : Reconcile) (credRef : String) : Prop := ∃ live ∈ snap.nicks, credRef ∈ live.creds

def Listed (snap : Reconcile) (idn : Identity) : Prop :=
  ∃ live ∈ snap.nicks, lower live.nick = idn.nickCi

/-- The device is a Web device of the identity under the listed nick, and its credential is not
listed there. -/
def Doomed (s : Store) (live : LiveNick) (d : Device) : Prop :=
  d.credentialKind = .web ∧ d.credentialRef ∉ live.creds ∧
    ∃ idn, s.identityByNick live.nick = some idn ∧ d.userId = idn.id

variable {idn : Identity} {d : Device} {state : ReconcileOutcome × Store}

theorem Valid.identityByNick_eq_some (valid : Valid s) {nick : String} :
    s.identityByNick nick = some idn ↔ idn ∈ s.identities ∧ idn.nickCi = lower nick := by
  refine ⟨mem_of_identityByNick, fun ⟨hmem, hnick⟩ => ?_⟩
  obtain ⟨found, hfound⟩ : ∃ found, s.identityByNick nick = some found :=
    Option.isSome_iff_exists.1 (List.find?_isSome.2 ⟨idn, hmem, by simpa using hnick⟩)
  obtain ⟨hmem', hnick'⟩ := mem_of_identityByNick hfound
  have hsame : found.id = idn.id := by
    by_contra hne
    exact (valid.names found hmem' idn hmem hne).1 (hnick'.trans hnick.symm)
  rw [hfound, valid.unique found hmem' idn hmem hsame]

/-- Devices are deleted by their key, which is theirs alone. -/
theorem Valid.mem_deleteDevices (valid : Valid s) {devices : List Device}
    (hsub : ∀ e ∈ devices, e ∈ s.devices) :
    d ∈ (s.deleteDevices devices).devices ↔ d ∈ s.devices ∧ d ∉ devices := by
  rw [deleteDevices_eq, List.mem_filter]
  refine and_congr_right fun hd => ?_
  simp only [Bool.not_eq_true', List.any_eq_false, Bool.and_eq_true, decide_eq_true_eq]
  constructor
  · intro h hmem
    exact h d hmem ⟨rfl, rfl⟩
  · rintro hnot e he ⟨huser, hdevice⟩
    have : Std.Symm fun d e : Device => ¬ (d.userId = e.userId ∧ d.deviceId = e.deviceId) :=
      ⟨fun _ _ h hsame => h ⟨hsame.1.symm, hsame.2.symm⟩⟩
    have hsame : d = e := by
      by_contra hne
      exact valid.deviceKey.forall hd (hsub e he) hne ⟨huser, hdevice⟩
    exact hnot (hsame ▸ he)

theorem mem_stale {live : LiveNick} :
    d ∈ s.stale idn live ↔ d ∈ s.devices ∧ d.userId = idn.id ∧ d.credentialKind = .web ∧
      d.credentialRef ∉ live.creds := by
  simp only [stale, listDevices, List.mem_filter, decide_eq_true_eq, Bool.and_eq_true,
    Bool.not_eq_true', List.contains_eq_mem, decide_eq_false_iff_not]
  tauto

/-! ### The listed nicks -/

theorem reconcileNick_identities (state : ReconcileOutcome × Store) (live : LiveNick) :
    (Store.reconcileNick state live).2.identities = state.2.identities := by
  unfold reconcileNick
  dsimp only
  split
  · rfl
  · rw [deleteDevices_eq]

theorem Valid.mem_reconcileNick (valid : Valid state.2) (live : LiveNick) :
    d ∈ (Store.reconcileNick state live).2.devices ↔
      d ∈ state.2.devices ∧ ¬ Doomed state.2 live d := by
  unfold reconcileNick
  dsimp only
  split
  · next hnone => simp [Doomed, hnone]
  · next idn hidn =>
    rw [valid.mem_deleteDevices fun e he => (mem_stale.1 he).1]
    refine and_congr_right fun hd => not_congr ?_
    rw [mem_stale, Doomed]
    constructor
    · rintro ⟨-, howner, hweb, hcred⟩
      exact ⟨hweb, hcred, idn, hidn, howner⟩
    · rintro ⟨hweb, hcred, found, hfound, howner⟩
      cases hidn.symm.trans hfound
      exact ⟨hd, howner, hweb, hcred⟩

theorem prunes_reconcileNick (state : ReconcileOutcome × Store) (live : LiveNick) :
    Prunes server state.2 (Store.reconcileNick state live).2 := by
  unfold reconcileNick
  dsimp only
  split
  · exact .refl
  · rw [deleteDevices_eq]
    exact prunes_filter _ _

theorem Valid.mem_foldl_reconcileNick (valid : Valid state.2) (nicks : List LiveNick) :
    (nicks.foldl Store.reconcileNick state).2.identities = state.2.identities ∧
      ∀ d, d ∈ (nicks.foldl Store.reconcileNick state).2.devices ↔
        d ∈ state.2.devices ∧ ∀ live ∈ nicks, ¬ Doomed state.2 live d := by
  induction nicks generalizing state with
  | nil => simp
  | cons live rest ih =>
    have hnext := valid.changes (@prunes_reconcileNick "" state live).changes
    obtain ⟨hidentities, hdevices⟩ := ih hnext
    have hsame := reconcileNick_identities state live
    refine ⟨hidentities.trans hsame, fun d => ?_⟩
    have hdoomed (other : LiveNick) :
        Doomed (reconcileNick state live).2 other d ↔ Doomed state.2 other d := by
      simp only [Doomed, identityByNick, hsame]
    rw [List.foldl_cons, hdevices, valid.mem_reconcileNick]
    simp only [hdoomed, List.forall_mem_cons, and_assoc]

/-! ### The nicks that are not listed -/

theorem retireNick_snd (state : ReconcileOutcome × Store) (nick : String) :
    (Store.retireNick state nick).2 = (state.2.applyAccountDeleted nick).2 := by
  unfold retireNick
  dsimp only
  split <;> rfl

theorem Valid.mem_retireNick (valid : Valid state.2) (nick : String) :
    (∀ i, i ∈ (Store.retireNick state nick).2.identities ↔
      i ∈ state.2.identities ∧ lower nick ≠ i.nickCi) ∧
    ∀ d, d ∈ (Store.retireNick state nick).2.devices ↔ d ∈ state.2.devices ∧
      ∀ i ∈ state.2.identities, i.id = d.userId → lower nick ≠ i.nickCi := by
  rw [retireNick_snd, applyAccountDeleted]
  have hmember {i : Identity} := @Valid.identityByNick_eq_some _ i valid nick
  split
  · next hnone =>
    have hfree (i : Identity) (hi : i ∈ state.2.identities) : lower nick ≠ i.nickCi := by
      intro h
      rw [hmember.2 ⟨hi, h.symm⟩] at hnone
      cases hnone
    exact ⟨fun i => ⟨fun hi => ⟨hi, hfree i hi⟩, And.left⟩,
      fun d => ⟨fun hd => ⟨hd, fun i hi _ => hfree i hi⟩, And.left⟩⟩
  · next idn hidn =>
    obtain ⟨hmem, hnick⟩ := hmember.1 hidn
    have hbears (i : Identity) (hi : i ∈ state.2.identities) :
        lower nick = i.nickCi ↔ i.id = idn.id := by
      constructor
      · intro h
        rw [Option.some.inj ((hmember.2 ⟨hi, h.symm⟩).symm.trans hidn)]
      · intro h
        rw [valid.unique i hi idn hmem h, hnick]
    refine ⟨fun i => ?_, fun d => ?_⟩
    · rw [deleteDevices_eq]
      simp only [retire, List.mem_filter, decide_eq_true_eq]
      exact and_congr_right fun hi => not_congr (hbears i hi).symm
    · have hlisted : ∀ e ∈ state.2.listDevices idn.id, e ∈ state.2.devices :=
        fun e he => List.mem_of_mem_filter he
      have hgone : d ∈ ((state.2.deleteDevices (state.2.listDevices idn.id)).retire idn).devices ↔
          _ := valid.mem_deleteDevices hlisted
      rw [hgone]
      refine and_congr_right fun hd => ?_
      simp only [listDevices, List.mem_filter, hd, true_and, decide_eq_true_eq]
      constructor
      · intro hother i hi howner h
        exact hother (howner.symm.trans ((hbears i hi).1 h))
      · intro h howner
        exact h idn hmem howner.symm hnick.symm

theorem prunes_retireNick (state : ReconcileOutcome × Store) (nick : String) :
    Prunes server state.2 (Store.retireNick state nick).2 := by
  rw [retireNick_snd]
  exact prunes_applyAccountDeleted nick

theorem Valid.mem_foldl_retireNick (valid : Valid state.2) (nicks : List String) :
    (∀ i, i ∈ (nicks.foldl Store.retireNick state).2.identities ↔
      i ∈ state.2.identities ∧ ∀ nick ∈ nicks, lower nick ≠ i.nickCi) ∧
    ∀ d, d ∈ (nicks.foldl Store.retireNick state).2.devices ↔ d ∈ state.2.devices ∧
      ∀ i ∈ state.2.identities, i.id = d.userId → ∀ nick ∈ nicks, lower nick ≠ i.nickCi := by
  induction nicks generalizing state with
  | nil => simp
  | cons nick rest ih =>
    obtain ⟨hfirst, hfirst'⟩ := valid.mem_retireNick nick
    obtain ⟨hrest, hrest'⟩ := ih (valid.changes (@prunes_retireNick "" state nick).changes)
    refine ⟨fun i => ?_, fun d => ?_⟩
    · rw [List.foldl_cons, hrest, hfirst, List.forall_mem_cons, and_assoc]
    · rw [List.foldl_cons, hrest', hfirst', and_assoc]
      refine and_congr_right fun _ => ⟨fun ⟨hnick, h⟩ i hi howner => ?_, fun h => ⟨?_, ?_⟩⟩
      · exact List.forall_mem_cons.2
          ⟨hnick i hi howner, h i ((hfirst i).2 ⟨hi, hnick i hi howner⟩) howner⟩
      · exact fun i hi howner => (List.forall_mem_cons.1 (h i hi howner)).1
      · exact fun i hi howner =>
          (List.forall_mem_cons.1 (h i ((hfirst i).1 hi).1 howner)).2

/-- What is left after a pass. -/
theorem Valid.mem_reconcile (valid : Valid s) (snap : Reconcile) :
    (∀ i, i ∈ (s.reconcile snap).2.identities ↔
      i ∈ s.identities ∧ (snap.complete = true → Listed snap i)) ∧
    ∀ d, d ∈ (s.reconcile snap).2.devices ↔ d ∈ s.devices ∧
      (∀ live ∈ snap.nicks, ¬ Doomed s live d) ∧
      (snap.complete = true → ∀ i ∈ s.identities, i.id = d.userId → Listed snap i) := by
  let state : ReconcileOutcome × Store := snap.nicks.foldl reconcileNick ({}, s)
  obtain ⟨hidentities, hdevices⟩ :=
    @Valid.mem_foldl_reconcileNick (({} : ReconcileOutcome), s) valid snap.nicks
  have hvalid : Valid state.2 :=
    valid.changes (@Prunes.foldl "" _ _ _ prunes_reconcileNick ({}, s) snap.nicks).changes
  cases hcomplete : snap.complete with
  | false =>
    have hpass : (s.reconcile snap).2 = state.2 := by simp [reconcile, hcomplete, state]
    rw [hpass]
    simpa [state, hidentities] using hdevices
  | true =>
    have hpass : (s.reconcile snap).2 = (((s.identities.map (·.nick)).filter
        (!listed snap ·)).foldl retireNick state).2 := by
      simp [reconcile, hcomplete, state, hidentities]
    obtain ⟨hretired, hretired'⟩ := hvalid.mem_foldl_retireNick
      ((s.identities.map (·.nick)).filter (!listed snap ·))
    -- an identity's nick is gone through exactly if it is not listed
    have hlisted (i : Identity) (hi : i ∈ s.identities) :
        (∀ nick ∈ (s.identities.map (·.nick)).filter (!listed snap ·),
          lower nick ≠ i.nickCi) ↔ Listed snap i := by
      have hsnap (nick : String) : listed snap nick = true ↔
          ∃ live ∈ snap.nicks, lower live.nick = lower nick := by
        simp [listed]
      constructor
      · intro h
        by_contra hnot
        refine h i.nick (List.mem_filter.2 ⟨List.mem_map_of_mem hi, ?_⟩)
          (valid.nickCi i hi).symm
        rw [Bool.not_eq_true', Bool.eq_false_iff, ne_eq, hsnap, ← valid.nickCi i hi]
        exact hnot
      · rintro ⟨live, hlive, hnick⟩ nick hmem hsame
        obtain ⟨-, hunlisted⟩ := List.mem_filter.1 hmem
        rw [Bool.not_eq_true', Bool.eq_false_iff, ne_eq, hsnap, hsame] at hunlisted
        exact hunlisted ⟨live, hlive, hnick⟩
    rw [hpass]
    refine ⟨fun i => ?_, fun d => ?_⟩
    · rw [hretired, hidentities]
      exact and_congr_right fun hi => (hlisted i hi).trans ⟨fun h _ => h, fun h => h rfl⟩
    · rw [hretired', hdevices, and_assoc, hidentities]
      refine and_congr_right fun _ => and_congr_right fun _ => ?_
      simp only [forall_const]
      exact forall₃_congr fun i hi _ => hlisted i hi

/-! ### What a pass promises -/

/-- A pass spares the living, leaves only what is listed and live after a complete snapshot, and
changes nothing when it is repeated. -/
structure KeepsLiving (s : Store) (snap : Reconcile) : Prop where
  spares : ∀ d ∈ s.devices, d.credentialKind = .web → Live snap d.credentialRef →
    d ∈ (s.reconcile snap).2.devices ∧
      ∀ i ∈ s.identities, i.id = d.userId → i ∈ (s.reconcile snap).2.identities
  leaves : snap.complete = true → (∀ i ∈ (s.reconcile snap).2.identities, Listed snap i) ∧
    ∀ d ∈ (s.reconcile snap).2.devices, d.credentialKind = .web → Live snap d.credentialRef
  again : ((s.reconcile snap).2.reconcile snap).2 = (s.reconcile snap).2

/-- Every live credential that has a device is listed wherever the present nick of its identity is,
and if the snapshot is complete that nick is listed. -/
def NicksAgree (s : Store) (snap : Reconcile) : Prop :=
  ∀ d ∈ s.devices, d.credentialKind = .web → Live snap d.credentialRef →
    ∀ i ∈ s.identities, i.id = d.userId →
      (∀ live ∈ snap.nicks, lower live.nick = i.nickCi → d.credentialRef ∈ live.creds) ∧
      (snap.complete = true → Listed snap i)

/-- A pass with nothing to do leaves the store as it is. -/
theorem reconcile_eq_self (hstale : ∀ live ∈ snap.nicks, ∀ d ∈ s.devices, ¬ Doomed s live d)
    (hlisted : snap.complete = true → ∀ i ∈ s.identities, Store.listed snap i.nick = true) :
    (s.reconcile snap).2 = s := by
  have hnicks (nicks : List LiveNick) (hsub : ∀ live ∈ nicks, live ∈ snap.nicks)
      (out : ReconcileOutcome) : (nicks.foldl reconcileNick (out, s)).2 = s := by
    induction nicks generalizing out with
    | nil => rfl
    | cons live rest ih =>
      have hnone : (reconcileNick (out, s) live).2 = s := by
        unfold reconcileNick
        dsimp only
        split
        · rfl
        · next idn hidn =>
          have hempty : s.stale idn live = [] := by
            refine List.eq_nil_iff_forall_not_mem.2 fun d hd => ?_
            obtain ⟨hmem, howner, hweb, hcred⟩ := mem_stale.1 hd
            exact hstale live (hsub live List.mem_cons_self) d hmem
              ⟨hweb, hcred, idn, hidn, howner⟩
          rw [hempty]
          rfl
      have hstep : reconcileNick (out, s) live =
          ((reconcileNick (out, s) live).1, s) := Prod.ext rfl hnone
      rw [List.foldl_cons, hstep]
      exact ih (fun other h => hsub other (List.mem_cons_of_mem _ h)) _
  simp only [reconcile]
  split
  · next hcomplete =>
    have hall : ((s.identities.map (·.nick)).filter (!listed snap ·)) = [] := by
      refine List.filter_eq_nil_iff.2 fun nick hnick => ?_
      obtain ⟨i, hi, rfl⟩ := List.mem_map.1 hnick
      simp [hlisted hcomplete i hi]
    rw [hnicks snap.nicks fun _ h => h, hall]
    rfl
  · exact hnicks snap.nicks (fun _ h => h) _

/-- In every valid state, a pass keeps what it promises exactly if the nicks agree. -/
theorem keepsLiving_iff (valid : Valid s) (snap : Reconcile) :
    KeepsLiving s snap ↔ NicksAgree s snap := by
  obtain ⟨hidentities, hdevices⟩ := valid.mem_reconcile snap
  have hdoomed {live : LiveNick} {d : Device} (hweb : d.credentialKind = .web) :
      ¬ Doomed s live d ↔ ∀ i ∈ s.identities, i.id = d.userId → lower live.nick = i.nickCi →
        d.credentialRef ∈ live.creds := by
    simp only [Doomed, hweb, true_and, valid.identityByNick_eq_some]
    constructor
    · intro h i hi howner hnick
      by_contra hcred
      exact h ⟨hcred, i, ⟨hi, hnick.symm⟩, howner.symm⟩
    · rintro h ⟨hcred, i, ⟨hi, hnick⟩, howner⟩
      exact hcred (h i hi howner.symm hnick.symm)
  constructor
  · intro keeps d hd hweb hlive i hi howner
    obtain ⟨hkept, howned⟩ := keeps.spares d hd hweb hlive
    obtain ⟨-, hnot, -⟩ := (hdevices d).1 hkept
    refine ⟨fun live hmem hnick => (hdoomed hweb).1 (hnot live hmem) i hi howner hnick, ?_⟩
    exact ((hidentities i).1 (howned i hi howner)).2
  · intro agree
    have hleft := valid.changes (@prunes_reconcile "" s snap).changes
    have hlistedLeft (hcomplete : snap.complete = true) (i : Identity)
        (hi : i ∈ (s.reconcile snap).2.identities) : Listed snap i :=
      ((hidentities i).1 hi).2 hcomplete
    refine ⟨fun d hd hweb hlive => ⟨(hdevices d).2 ⟨hd, fun live hmem => ?_, ?_⟩, ?_⟩,
      fun hcomplete => ⟨hlistedLeft hcomplete, fun d hd hweb => ?_⟩, ?_⟩
    · exact (hdoomed hweb).2 fun i hi howner => (agree d hd hweb hlive i hi howner).1 live hmem
    · exact fun hcomplete i hi howner => (agree d hd hweb hlive i hi howner).2 hcomplete
    · exact fun i hi howner => (hidentities i).2 ⟨hi, (agree d hd hweb hlive i hi howner).2⟩
    · obtain ⟨i, hi, howner⟩ := hleft.owned d hd hweb
      obtain ⟨live, hlive, hnick⟩ := hlistedLeft hcomplete i hi
      obtain ⟨-, hnot, -⟩ := (hdevices d).1 hd
      exact ⟨live, hlive,
        (hdoomed hweb).1 (hnot live hlive) i ((hidentities i).1 hi).1 howner hnick⟩
    · refine reconcile_eq_self (fun live hlive d hd hdoom => ?_) fun hcomplete i hi => ?_
      · obtain ⟨hweb, hcred, idn, hidn, howner⟩ := hdoom
        obtain ⟨hmem, hnick⟩ := mem_of_identityByNick hidn
        obtain ⟨-, hnot, -⟩ := (hdevices d).1 hd
        exact hnot live hlive ⟨hweb, hcred, idn,
          valid.identityByNick_eq_some.2 ⟨((hidentities idn).1 hmem).1, hnick⟩, howner⟩
      · obtain ⟨live, hlive, hnick⟩ := hlistedLeft hcomplete i hi
        rw [hleft.nickCi i hi] at hnick
        exact List.any_eq_true.2 ⟨live, hlive, by simpa using hnick⟩

/-! Alice was renamed by the product, and the server has not heard of it. -/

def aliceKnown : Store :=
  Trace.run (Store.perform "example.org") .empty [.assertion "alice" "c1" "D1" 5]

/-- The live credential is listed under the new nick, and the identity is retired. -/
theorem not_keepsLiving_renamed : Valid aliceKnown ∧
    ¬ KeepsLiving aliceKnown ⟨true, [⟨"alicia", ["c1"]⟩]⟩ := by
  refine ⟨valid_empty.changes (changes_run _ _), fun keeps => ?_⟩
  have hdevice : ⟨1, "D1", .web, "c1"⟩ ∈ aliceKnown.devices := by decide +kernel
  have hkept := (keeps.spares _ hdevice rfl ⟨_, List.mem_cons_self, List.mem_cons_self⟩).1
  have hgone : (aliceKnown.reconcile ⟨true, [⟨"alicia", ["c1"]⟩]⟩).2.devices = [] := by
    decide +kernel
  rw [hgone] at hkept
  exact absurd hkept List.not_mem_nil

theorem keepsLiving_iff_sameNick : Valid aliceKnown ∧
    KeepsLiving aliceKnown ⟨true, [⟨"Alice", ["c1"]⟩]⟩ := by
  have valid : Valid aliceKnown := valid_empty.changes (changes_run _ _)
  have hidentities : aliceKnown.identities = [⟨1, "alice", "alice", "alice", 5⟩] := by
    decide +kernel
  have hdevices : aliceKnown.devices = [⟨1, "D1", .web, "c1"⟩] := by decide +kernel
  refine ⟨valid, (keepsLiving_iff valid _).2 ?_⟩
  intro d hd _ _ i hi _
  rw [hdevices, List.mem_singleton] at hd
  rw [hidentities, List.mem_singleton] at hi
  subst hd hi
  refine ⟨fun live hlive _ => ?_, fun _ => ⟨_, List.mem_cons_self, by decide +kernel⟩⟩
  rw [List.mem_singleton.1 hlive]
  exact List.mem_cons_self

end Server.Identities
