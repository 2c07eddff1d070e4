import Mail4Agent.Foundation.Transaction
import Mail4Agent.Server.Identities

/-!
# Runs of assertions, lifecycle events and reconcile passes

Each operation is a sequence of changes, so what every change keeps holds in every run. A new
identity takes an identifier above all that were ever used, and a name that no identity has and that
is not reserved; a retired identity leaves its localpart reserved.
-/

namespace Server.Identities

variable {server : String} {s s' s'' : Store}

/-! ### The constraints stay -/

variable {idn : Identity} {f : Identity → Identity} {id nowMs : Int}
  {nick credRef newDeviceId : String} {r : Resolved} {mid : Store} {d : Device}

section

variable (valid : Valid s)

include valid

/-- In a valid store an update is of one row. -/
theorem Valid.mem_update (hmem : idn ∈ s.identities) {i : Identity} :
    i ∈ (s.update idn.id f).identities ↔
      i = f idn ∨ (i ∈ s.identities ∧ i.id ≠ idn.id) := by
  constructor
  · intro h
    obtain ⟨j, hj, rfl⟩ := Identities.mem_update h
    split_ifs with hid
    · exact .inl (by rw [valid.unique j hj idn hmem hid])
    · exact .inr ⟨hj, hid⟩
  · rintro (rfl | ⟨hi, hne⟩)
    · exact List.mem_map.2 ⟨idn, hmem, if_pos rfl⟩
    · exact List.mem_map.2 ⟨i, hi, if_neg hne⟩

/-- A row is put into a valid store, in the place of the one with its identifier if there is one. -/
theorem Valid.put (new : Identity)
    (hrows : ∀ i, i ∈ s'.identities ↔ i = new ∨ (i ∈ s.identities ∧ i.id ≠ new.id))
    (hlower : new.nickCi = lower new.nick)
    (hfree : ∀ i ∈ s.identities, i.id ≠ new.id → i.nickCi ≠ new.nickCi ∧
      i.localpart ≠ new.nickCi ∧ i.nickCi ≠ new.localpart ∧ i.localpart ≠ new.localpart)
    (huser : 0 < new.id ∧ ∃ mxid, (new.id, mxid) ∈ s'.matrixUsers)
    (husers : s.matrixUsers ⊆ s'.matrixUsers) (hdevices : s'.devices = s.devices) : Valid s' where
  unique i hi j hj heq := by
    rcases (hrows i).1 hi with rfl | ⟨hi, hine⟩ <;> rcases (hrows j).1 hj with rfl | ⟨hj, hjne⟩
    · rfl
    · exact absurd heq.symm hjne
    · exact absurd heq hine
    · exact valid.unique i hi j hj heq
  names i hi j hj hne := by
    rcases (hrows i).1 hi with rfl | ⟨hi, hine⟩ <;> rcases (hrows j).1 hj with rfl | ⟨hj, hjne⟩
    · exact absurd rfl hne
    · obtain ⟨hnick, hlocal, -, hboth⟩ := hfree j hj hjne
      exact ⟨hnick.symm, hlocal.symm, hboth.symm⟩
    · obtain ⟨hnick, -, hlocal, hboth⟩ := hfree i hi hine
      exact ⟨hnick, hlocal, hboth⟩
    · exact valid.names i hi j hj hne
  nickCi i hi := by
    rcases (hrows i).1 hi with rfl | ⟨hi, -⟩
    · exact hlower
    · exact valid.nickCi i hi
  user i hi := by
    rcases (hrows i).1 hi with rfl | ⟨hi, -⟩
    · exact huser
    · obtain ⟨hpos, mxid, huser⟩ := valid.user i hi
      exact ⟨hpos, mxid, husers huser⟩
  deviceKey := hdevices ▸ valid.deviceKey
  credential := hdevices ▸ valid.credential
  owned d hd hweb := by
    obtain ⟨i, hi, howner⟩ := valid.owned d (hdevices ▸ hd) hweb
    by_cases hsame : i.id = new.id
    · exact ⟨new, (hrows new).2 (.inl rfl), hsame.symm.trans howner⟩
    · exact ⟨i, (hrows i).2 (.inr ⟨hi, hsame⟩), howner⟩

theorem Valid.update (hmem : idn ∈ s.identities) (hid : (f idn).id = idn.id)
    (hlocalpart : (f idn).localpart = idn.localpart) (hlower : (f idn).nickCi = lower (f idn).nick)
    (hfree : ∀ i ∈ s.identities, i.id ≠ idn.id →
      i.nickCi ≠ (f idn).nickCi ∧ i.localpart ≠ (f idn).nickCi) : Valid (s.update idn.id f) := by
  refine valid.put (f idn) (fun i => ?_) hlower (fun i hi hne => ?_) ?_ (fun _ h => h) rfl
  · rw [hid]
    exact valid.mem_update hmem
  · rw [hid] at hne
    obtain ⟨-, hnick, hlocal⟩ := valid.names i hi idn hmem hne
    rw [hlocalpart]
    exact ⟨(hfree i hi hne).1, (hfree i hi hne).2, hnick, hlocal⟩
  · rw [hid]
    exact valid.user idn hmem

theorem Valid.nextId_pos : 0 < s.nextId := by
  cases hidentities : s.identities with
  | nil =>
    simp only [Store.nextId, hidentities, List.map_nil, List.max?_nil, Option.getD_none]
    omega
  | cons i rest =>
    have hmem : i ∈ s.identities := by simp [hidentities]
    have := lt_nextId i.id (s := s) (.inl (List.mem_map_of_mem hmem))
    have := (valid.user i hmem).1
    omega

theorem Valid.change (h : Change server s s') : Valid s' := by
  cases h with
  | renamed idn hmem nick hfree =>
    refine valid.update hmem rfl rfl rfl fun i hi hne => ?_
    exact (nameTaken_eq_false hfree).2 i hi hne
  | recased idn hmem nick hsame =>
    refine valid.update hmem rfl rfl ((valid.nickCi idn hmem).trans hsame) fun i hi hne => ?_
    obtain ⟨hnick, -⟩ := valid.names i hi idn hmem hne
    exact ⟨hnick, (valid.names idn hmem i hi (Ne.symm hne)).2.1.symm⟩
  | contacted nick nowMs hfree =>
    have hfree := (nameTaken_eq_false hfree).2
    refine valid.put ⟨s.nextId, nick, lower nick, lower nick, nowMs⟩ (fun i => ?_) rfl
      (fun i hi _ => ?_) ⟨valid.nextId_pos, mxidForPublicId server (lower nick), by simp⟩
      (List.subset_append_left _ _) rfl
    · rw [List.mem_append, List.mem_singleton, or_comm]
      refine or_congr_right (iff_self_and.2 fun hi => ?_)
      exact (lt_nextId i.id (.inl (List.mem_map_of_mem hi))).ne
    · obtain ⟨hnick, hlocal⟩ := hfree i hi (valid.user i hi).1.ne'
      exact ⟨hnick, hlocal, hnick, hlocal⟩
  | deviceAdded idn hmem deviceId credRef hfresh =>
    refine { valid with deviceKey := ?_, credential := ?_, owned := fun d hd hweb => ?_ }
    · refine List.pairwise_append.2 ⟨valid.deviceKey, List.pairwise_singleton _ _,
        fun d hd e he => ?_⟩
      rw [List.mem_singleton.1 he]
      exact (hfresh d hd).1
    · refine List.pairwise_append.2 ⟨valid.credential, List.pairwise_singleton _ _,
        fun d hd e he => ?_⟩
      rw [List.mem_singleton.1 he]
      exact (hfresh d hd).2
    · rcases List.mem_append.1 hd with hd | hd
      · exact valid.owned d hd hweb
      · exact ⟨idn, hmem, by rw [List.mem_singleton.1 hd]⟩
  | devicesRemoved keep =>
    exact { valid with
      deviceKey := valid.deviceKey.filter _
      credential := valid.credential.filter _
      owned := fun d hd => valid.owned d (List.mem_of_mem_filter hd) }
  | retired idn hmem hdevices =>
    have hsub {i : Identity} (hi : i ∈ (s.retire idn).identities) : i ∈ s.identities :=
      List.mem_of_mem_filter hi
    refine ⟨fun i hi j hj => valid.unique i (hsub hi) j (hsub hj),
      fun i hi j hj => valid.names i (hsub hi) j (hsub hj), fun i hi => valid.nickCi i (hsub hi),
      fun i hi => valid.user i (hsub hi), valid.deviceKey, valid.credential, fun d hd hweb => ?_⟩
    obtain ⟨i, hi, howner⟩ := valid.owned d hd hweb
    refine ⟨i, List.mem_filter.2 ⟨hi, ?_⟩, howner⟩
    simpa [howner] using hdevices d hd

theorem Valid.changes (h : Relation.ReflTransGen (Change server) s s') : Valid s' := by
  induction h with
  | refl => exact valid
  | tail _ hchange ih => exact ih.change hchange

end

/-! ### Localparts do not move -/

/-- What came of the identities of `s` in a later store. -/
structure Follows (s s' : Store) : Prop where
  user : ∀ user ∈ s.matrixUsers, user ∈ s'.matrixUsers
  localpart : ∀ i ∈ s.identities, ∀ i' ∈ s'.identities, i'.id = i.id ↔ i'.localpart = i.localpart
  gone : ∀ i ∈ s.identities, (∃ i' ∈ s'.identities, i'.id = i.id) ∨
    i.localpart ∈ s'.reservedLocalparts

theorem Valid.follows (valid : Valid s) : Follows s s where
  user _ h := h
  localpart i hi i' hi' := by
    constructor
    · intro h
      rw [valid.unique i' hi' i hi h]
    · intro h
      by_contra hne
      exact (valid.names i' hi' i hi hne).2.2 h
  gone i hi := .inl ⟨i, hi, rfl⟩

section

variable (follows : Follows s s')

include follows

theorem Follows.of_kept (huser : ∀ user ∈ s'.matrixUsers, user ∈ s''.matrixUsers)
    (hreserved : ∀ name ∈ s'.reservedLocalparts, name ∈ s''.reservedLocalparts)
    (hold : ∀ i'' ∈ s''.identities, ∃ i' ∈ s'.identities, i'.id = i''.id ∧
      i'.localpart = i''.localpart)
    (hkept : ∀ i' ∈ s'.identities, (∃ i'' ∈ s''.identities, i''.id = i'.id) ∨
      i'.localpart ∈ s''.reservedLocalparts) : Follows s s'' where
  user user h := huser user (follows.user user h)
  localpart i hi i'' hi'' := by
    obtain ⟨i', hi', hid, hlocalpart⟩ := hold i'' hi''
    rw [← hid, ← hlocalpart]
    exact follows.localpart i hi i' hi'
  gone i hi := by
    rcases follows.gone i hi with ⟨i', hi', hid⟩ | hreserved'
    · rcases hkept i' hi' with ⟨i'', hi'', hid'⟩ | hgone
      · exact .inl ⟨i'', hi'', hid'.trans hid⟩
      · rw [(follows.localpart i hi i' hi').1 hid] at hgone
        exact .inr hgone
    · exact .inr (hreserved _ hreserved')

theorem Follows.update (valid : Valid s') (hmem : idn ∈ s'.identities) (hid : (f idn).id = idn.id)
    (hlocalpart : (f idn).localpart = idn.localpart) :
    Follows s (s'.update idn.id f) := by
  refine follows.of_kept (fun _ h => h) (fun _ h => h) (fun i hi => ?_) fun i hi => .inl ?_
  · rcases (valid.mem_update hmem).1 hi with rfl | ⟨hi, -⟩
    · exact ⟨idn, hmem, hid.symm, hlocalpart.symm⟩
    · exact ⟨i, hi, rfl, rfl⟩
  · by_cases hsame : i.id = idn.id
    · exact ⟨f idn, (valid.mem_update hmem).2 (.inl rfl), hid.trans hsame.symm⟩
    · exact ⟨i, (valid.mem_update hmem).2 (.inr ⟨hi, hsame⟩), rfl⟩

theorem Follows.change (valid : Valid s) (valid' : Valid s') (h : Change server s' s'') :
    Follows s s'' := by
  cases h with
  | renamed idn hmem nick hfree => exact follows.update valid' hmem rfl rfl
  | recased idn hmem nick hsame => exact follows.update valid' hmem rfl rfl
  | contacted nick nowMs hfree =>
    obtain ⟨hreserved, hfree⟩ := nameTaken_eq_false hfree
    refine ⟨fun user huser => List.mem_append_left _ (follows.user user huser),
      fun i hi i' hi' => ?_, fun i hi => ?_⟩
    · rcases List.mem_append.1 hi' with hi' | hi'
      · exact follows.localpart i hi i' hi'
      · -- the identifier and the name of the new one were never those of another
        obtain rfl := List.mem_singleton.1 hi'
        obtain ⟨-, mxid, huser⟩ := valid.user i hi
        have hid : i.id < s'.nextId :=
          lt_nextId i.id (.inr (List.mem_map.2 ⟨_, follows.user _ huser, rfl⟩))
        refine iff_of_false (fun h => hid.ne h.symm) fun hlocalpart => ?_
        rcases follows.gone i hi with ⟨i', hi', hid'⟩ | hgone
        · refine (hfree i' hi' (valid'.user i' hi').1.ne').2 ?_
          exact ((follows.localpart i hi i' hi').1 hid').trans hlocalpart.symm
        · rw [← hlocalpart] at hgone
          exact hreserved hgone
    · rcases follows.gone i hi with ⟨i', hi', hid⟩ | hgone
      · exact .inl ⟨i', List.mem_append_left _ hi', hid⟩
      · exact .inr hgone
  | deviceAdded => exact ⟨follows.user, follows.localpart, follows.gone⟩
  | devicesRemoved => exact ⟨follows.user, follows.localpart, follows.gone⟩
  | retired idn hmem hdevices =>
    refine follows.of_kept (fun _ h => h) (fun _ h => List.mem_append_left _ h)
      (fun i hi => ⟨i, List.mem_of_mem_filter hi, rfl, rfl⟩) fun i hi => ?_
    by_cases hsame : i.id = idn.id
    · rw [valid'.unique i hi idn hmem hsame]
      exact .inr (List.mem_append_right _ List.mem_cons_self)
    · exact .inl ⟨i, List.mem_filter.2 ⟨hi, by simpa using hsame⟩, rfl⟩

theorem Follows.changes (valid : Valid s) (valid' : Valid s')
    (h : Relation.ReflTransGen (Change server) s' s'') : Follows s s'' := by
  induction h with
  | refl => exact follows
  | tail hchanges hchange ih => exact ih.change valid (valid'.changes hchanges) hchange

end

/-- The identifier was given out, and no identity has it any more. -/
structure Gone (s : Store) (id : Int) : Prop where
  user : ∃ mxid, (id, mxid) ∈ s.matrixUsers
  none : ∀ i ∈ s.identities, i.id ≠ id

theorem Gone.update (gone : Gone s id) (hid : ∀ i, (f i).id = i.id) :
    Gone (s.update idn.id f) id := by
  refine ⟨gone.user, fun i hi => ?_⟩
  obtain ⟨j, hj, rfl⟩ := mem_update hi
  split_ifs
  · exact hid j ▸ gone.none j hj
  · exact gone.none j hj

/-- New identifiers are above all that were given out. -/
theorem Gone.change (gone : Gone s id) (h : Change server s s') : Gone s' id := by
  cases h with
  | renamed idn hmem nick hfree => exact gone.update fun _ => rfl
  | recased idn hmem nick hsame => exact gone.update fun _ => rfl
  | contacted nick nowMs hfree =>
    obtain ⟨mxid, huser⟩ := gone.user
    refine ⟨⟨mxid, List.mem_append_left _ huser⟩, fun i hi => ?_⟩
    rcases List.mem_append.1 hi with hi | hi
    · exact gone.none i hi
    · rw [List.mem_singleton.1 hi]
      exact (lt_nextId id (.inr (List.mem_map_of_mem huser))).ne'
  | deviceAdded idn hmem deviceId credRef hfresh => exact ⟨gone.user, gone.none⟩
  | devicesRemoved keep => exact ⟨gone.user, gone.none⟩
  | retired idn hmem hdevices =>
    exact ⟨gone.user, fun i hi => gone.none i (List.mem_of_mem_filter hi)⟩

theorem Gone.changes (gone : Gone s id) (h : Relation.ReflTransGen (Change server) s s') :
    Gone s' id := by
  induction h with
  | refl => exact gone
  | tail _ hchange ih => exact ih.change hchange

/-! ### Every operation is a sequence of changes -/

theorem mem_of_identityByNick (h : s.identityByNick nick = some idn) :
    idn ∈ s.identities ∧ idn.nickCi = lower nick :=
  ⟨List.mem_of_find?_eq_some h, by simpa using List.find?_some h⟩

theorem mem_of_identityById (h : s.identityById id = some idn) : idn ∈ s.identities ∧ idn.id = id :=
  ⟨List.mem_of_find?_eq_some h, by simpa using List.find?_some h⟩

theorem renameIn_ok {new : String} (h : s.renameIn server id new = .ok s') :
    s.nameTaken server (lower new) id = false ∧
      s' = s.update id fun i => { i with nick := new, nickCi := lower new } := by
  obtain ⟨-, -, h⟩ := Except.bind_eq_ok.1 h
  split_ifs at h with htaken
  · cases h
  · exact ⟨by simpa using htaken, (Except.ok.inj h).symm⟩

/-- What an assertion does to the identity it finds. -/
inductive Settles (server : String) (s : Store) (nick : String) (idn : Identity) : Store → Prop
  | same : Settles server s nick idn s
  | recased (hsame : lower idn.nick = lower nick) :
      Settles server s nick idn (s.update idn.id fun i => { i with nick := nick })
  | renamed (hfree : s.nameTaken server (lower nick) idn.id = false) :
      Settles server s nick idn
        (s.update idn.id fun i => { i with nick := nick, nickCi := lower nick })

theorem settles_recase (idn : Identity) (nick : String) :
    Settles server s nick idn (s.recase idn nick) := by
  unfold Store.recase
  split_ifs with h
  · exact .recased h.2
  · exact .same

/-- An assertion finds an identity under the nick or by the credential's device, or makes one. -/
theorem findIdentity_cases (nick credRef : String) :
    (s.findIdentity server nick credRef = (none, s) ∧ s.identityByNick nick = none) ∨
      ∃ idn ∈ s.identities, (idn.nickCi = lower nick ∨
          ∃ d, s.deviceForCredential .web credRef = some d ∧ d.userId = idn.id) ∧
        ∃ idn' s', s.findIdentity server nick credRef = (some idn', s') ∧ idn'.id = idn.id ∧
          Settles server s nick idn (s'.recase idn' nick) := by
  unfold Store.findIdentity
  cases hnick : s.identityByNick nick with
  | some idn =>
    obtain ⟨hmem, hci⟩ := mem_of_identityByNick hnick
    exact .inr ⟨idn, hmem, .inl hci, idn, s, rfl, rfl, settles_recase idn nick⟩
  | none =>
    cases hdevice : (s.deviceForCredential .web credRef).bind fun d => s.identityById d.userId with
    | none => exact .inl ⟨rfl, rfl⟩
    | some idn =>
      obtain ⟨d, hd, hidn⟩ := Option.bind_eq_some_iff.1 hdevice
      obtain ⟨hmem, hid⟩ := mem_of_identityById hidn
      refine .inr ⟨idn, hmem, .inr ⟨d, hd, hid.symm⟩, ?_⟩
      cases hrename : s.renameIn server idn.id nick with
      | error e => exact ⟨idn, s, by simp [hrename], rfl, settles_recase idn nick⟩
      | ok renamed =>
        obtain ⟨hfree, rfl⟩ := renameIn_ok hrename
        have hrow : { idn with nick := nick, nickCi := lower nick } ∈ (s.update idn.id fun i =>
            { i with nick := nick, nickCi := lower nick }).identities :=
          List.mem_map.2 ⟨idn, hmem, if_pos rfl⟩
        obtain ⟨idn', hidn'⟩ : ∃ idn', (s.update idn.id fun i =>
            { i with nick := nick, nickCi := lower nick }).identityById idn.id = some idn' :=
          Option.isSome_iff_exists.1 (List.find?_isSome.2 ⟨_, hrow, by simp⟩)
        obtain ⟨hmem', hid'⟩ := mem_of_identityById hidn'
        refine ⟨idn', _, by simp only [hrename, hidn']; rfl, hid', ?_⟩
        -- the row has its new nick, so that nothing is left to do
        obtain ⟨i, -, rfl⟩ := Identities.mem_update hmem'
        have hupdated : (if i.id = idn.id then ({ i with nick := nick, nickCi := lower nick } :
            Identity) else i).nick = nick := by
          split_ifs at hid' ⊢ with hi
          · rfl
          · exact absurd hid' hi
        rw [Store.recase, if_neg fun h => h.1 hupdated]
        exact .renamed hfree

theorem firstContact_ok (h : s.firstContact server nick nowMs = .ok (idn, s')) :
    s.nameTaken server (lower nick) 0 = false ∧
      idn = ⟨s.nextId, nick, lower nick, lower nick, nowMs⟩ ∧ s' = { s with
        matrixUsers := s.matrixUsers ++ [(s.nextId, mxidForPublicId server (lower nick))]
        identities := s.identities ++ [idn] } := by
  obtain ⟨-, -, h⟩ := Except.bind_eq_ok.1 h
  split_ifs at h with htaken
  · cases h
  · cases h
    exact ⟨by simpa using htaken, rfl, rfl⟩

theorem createDevice_ok {userId : Int} {deviceId : String}
    (h : s.createDevice userId .web credRef newDeviceId = .ok (deviceId, s')) :
    (∀ d ∈ s.devices, ¬ (d.userId = userId ∧ d.deviceId = newDeviceId) ∧
        ¬ (d.credentialKind = .web ∧ d.credentialRef = credRef)) ∧
      s' = { s with devices := s.devices ++ [⟨userId, newDeviceId, .web, credRef⟩] } := by
  unfold Store.createDevice at h
  split_ifs at h with hany
  cases h
  simp only [Bool.not_eq_true, List.any_eq_false, Bool.or_eq_true, Bool.and_eq_true,
    decide_eq_true_eq, not_or] at hany
  exact ⟨fun d hd => hany d hd, rfl⟩

/-- What a resolved assertion found, and what it did to the tables. -/
structure Resolution (server : String) (s : Store) (nick credRef : String) (r : Resolved)
    (s' : Store) (mid : Store) : Prop where
  identity : r.identity ∈ mid.identities
  origin : (r.created = true ∧ s.identityByNick nick = none ∧
      ∃ nowMs, s.firstContact server nick nowMs = .ok (r.identity, mid)) ∨
    (r.created = false ∧ ∃ idn ∈ s.identities, r.identity.id = idn.id ∧
      (idn.nickCi = lower nick ∨
        ∃ d, s.deviceForCredential .web credRef = some d ∧ d.userId = idn.id) ∧
      Settles server s nick idn mid)
  device : (∃ d ∈ s.devices, d.credentialKind = .web ∧ d.credentialRef = credRef ∧
      d.userId = r.identity.id ∧ s' = mid) ∨
    ∃ newDeviceId, mid.createDevice r.identity.id .web credRef newDeviceId = .ok (r.deviceId, s')

theorem Settles.devices (h : Settles server s nick idn s') : s'.devices = s.devices := by
  cases h <;> rfl

theorem settleDevice_ok {deviceId : String} (hdevices : mid.devices = s.devices)
    (h : mid.settleDevice id credRef newDeviceId = .ok (deviceId, s')) :
    (∃ d ∈ s.devices, d.credentialKind = .web ∧ d.credentialRef = credRef ∧ d.userId = id ∧
      s' = mid) ∨ mid.createDevice id .web credRef newDeviceId = .ok (deviceId, s') := by
  unfold Store.settleDevice at h
  split at h
  · next d hd =>
    split_ifs at h with howner
    cases h
    have hcred := List.find?_some hd
    simp only [Bool.and_eq_true, decide_eq_true_eq] at hcred
    exact .inl ⟨d, hdevices ▸ List.mem_of_find?_eq_some hd, hcred.1, hcred.2, howner, rfl⟩
  · exact .inr h

theorem resolveAssertion_ok
    (h : s.resolveAssertion server nick credRef newDeviceId nowMs = .ok (r, s')) :
    ∃ mid, Resolution server s nick credRef r s' mid := by
  obtain ⟨⟨identity, created, mid⟩, hidentity, h⟩ := Except.bind_eq_ok.1 h
  obtain ⟨⟨deviceId, last⟩, hdevice, h⟩ := Except.bind_eq_ok.1 h
  cases h
  have hdevice (hdevices : mid.devices = s.devices) := settleDevice_ok hdevices hdevice
  have hcases : (s.findIdentity server nick credRef = (none, s) ∧ s.identityByNick nick = none) ∨
      _ := findIdentity_cases nick credRef
  unfold Store.settleIdentity at hidentity
  rcases hcases with ⟨hfind, hnick⟩ | ⟨idn, hmem, hfound, idn', found, hfind, hid, hsettles⟩
  · simp only [hfind] at hidentity
    cases hcontact : s.firstContact server nick nowMs with
    | error e => simp [hcontact, Except.map] at hidentity
    | ok made =>
      simp only [hcontact] at hidentity
      cases hidentity
      have hmade := (firstContact_ok hcontact).2.2
      exact ⟨_, by rw [hmade]; simp, .inl ⟨rfl, hnick, nowMs, hcontact⟩,
        (hdevice (by rw [hmade])).imp_right fun h => ⟨_, h⟩⟩
  · simp only [hfind] at hidentity
    split at hidentity
    · next row hrow =>
      cases hidentity
      obtain ⟨hrowmem, hrowid⟩ := mem_of_identityById hrow
      exact ⟨_, hrowmem, .inr ⟨rfl, idn, hmem, hrowid.trans hid, hfound, hsettles⟩,
        (hdevice hsettles.devices).imp_right fun h => ⟨_, h⟩⟩
    · cases hidentity

section

variable (h : Resolution server s nick credRef r s' mid)

include h

theorem Resolution.devices_mid : mid.devices = s.devices := by
  rcases h.origin with ⟨-, -, nowMs, hcontact⟩ | ⟨-, idn, -, -, -, hsettles⟩
  · rw [(firstContact_ok hcontact).2.2]
  · exact hsettles.devices

/-- What becomes of the tables of identities in an assertion. -/
theorem Resolution.identities_eq :
    s'.identities = mid.identities ∧ s'.matrixUsers = mid.matrixUsers := by
  rcases h.device with ⟨-, -, -, -, -, rfl⟩ | ⟨newDeviceId, hcreate⟩
  · exact ⟨rfl, rfl⟩
  · rw [(createDevice_ok hcreate).2]
    exact ⟨rfl, rfl⟩

/-- After an assertion, an identity is an old one, under its old nick or under that of the
assertion, or the new one. -/
theorem Resolution.mem_identities {i' : Identity} (hi' : i' ∈ s'.identities) :
    (∃ i ∈ s.identities, i'.id = i.id ∧
      (i'.nickCi = i.nickCi ∨ (i'.id = r.identity.id ∧ i'.nickCi = lower nick))) ∨
      (r.created = true ∧ i' = r.identity ∧ i'.nickCi = lower nick) := by
  rw [h.identities_eq.1] at hi'
  rcases h.origin with ⟨hcreated, -, _, hcontact⟩ | ⟨-, idn, hidn, hid, -, hsettles⟩
  · obtain ⟨-, hidentity, rfl⟩ := firstContact_ok hcontact
    rcases List.mem_append.1 hi' with hold | hnew
    · exact .inl ⟨i', hold, rfl, .inl rfl⟩
    · obtain rfl := List.mem_singleton.1 hnew
      exact .inr ⟨hcreated, rfl, by rw [hidentity]⟩
  · refine .inl ?_
    cases hsettles with
    | same => exact ⟨i', hi', rfl, .inl rfl⟩
    | recased hsame =>
      obtain ⟨i, hi, rfl⟩ := mem_update hi'
      split_ifs
      · exact ⟨i, hi, rfl, .inl rfl⟩
      · exact ⟨i, hi, rfl, .inl rfl⟩
    | renamed hfree =>
      obtain ⟨i, hi, rfl⟩ := mem_update hi'
      split_ifs with hsame
      · exact ⟨i, hi, rfl, .inr ⟨hsame.trans hid.symm, rfl⟩⟩
      · exact ⟨i, hi, rfl, .inl rfl⟩

theorem Resolution.mem_devices (hd : d ∈ s'.devices) :
    d ∈ s.devices ∨ (d.userId = r.identity.id ∧ d.credentialRef = credRef) := by
  have hmid := h.devices_mid
  rcases h.device with ⟨-, -, -, -, -, rfl⟩ | ⟨newDeviceId, hcreate⟩
  · exact .inl (hmid ▸ hd)
  · rw [(createDevice_ok hcreate).2, List.mem_append, hmid] at hd
    refine hd.imp_right fun hnew => ?_
    rw [List.mem_singleton.1 hnew]
    exact ⟨rfl, rfl⟩

theorem Resolution.changes : Relation.ReflTransGen (Change server) s s' := by
  have hmid : Relation.ReflTransGen (Change server) s mid := by
    rcases h.origin with ⟨-, -, nowMs, hcontact⟩ | ⟨-, idn, hmem, -, -, hsettles⟩
    · obtain ⟨hfree, hidn, rfl⟩ := firstContact_ok hcontact
      rw [hidn]
      exact .single (.contacted nick nowMs hfree)
    · cases hsettles with
      | same => exact .refl
      | recased hsame => exact .single (.recased idn hmem nick hsame)
      | renamed hfree => exact .single (.renamed idn hmem nick hfree)
  rcases h.device with ⟨-, -, -, -, -, rfl⟩ | ⟨newDeviceId, hcreate⟩
  · exact hmid
  · obtain ⟨hfresh, rfl⟩ := createDevice_ok hcreate
    exact hmid.tail (.deviceAdded r.identity h.identity newDeviceId credRef hfresh)

end

/-- Changes that add no device. -/
structure Prunes (server : String) (s s' : Store) : Prop where
  changes : Relation.ReflTransGen (Change server) s s'
  devices : ∀ d ∈ s'.devices, d ∈ s.devices

theorem Prunes.refl : Prunes server s s := ⟨.refl, fun _ h => h⟩

theorem Prunes.trans (first : Prunes server s s') (second : Prunes server s' s'') :
    Prunes server s s'' :=
  ⟨first.changes.trans second.changes, fun d hd => first.devices d (second.devices d hd)⟩

/-- A pass that prunes for each item prunes. -/
theorem Prunes.foldl {α β : Type} {f : α × Store → β → α × Store}
    (h : ∀ state item, Prunes server state.2 (f state item).2) (state : α × Store)
    (items : List β) : Prunes server state.2 (items.foldl f state).2 := by
  induction items generalizing state with
  | nil => exact .refl
  | cons item rest ih => exact (h state item).trans (ih (f state item))

theorem prunes_filter (s : Store) (keep : Device → Bool) :
    Prunes server s { s with devices := s.devices.filter keep } :=
  ⟨.single (.devicesRemoved keep), fun _ hd => List.mem_of_mem_filter hd⟩

theorem deleteDevices_eq (s : Store) (devices : List Device) :
    s.deleteDevices devices = { s with devices := s.devices.filter (fun d =>
      !devices.any fun e => d.userId = e.userId && d.deviceId = e.deviceId) } := by
  induction devices generalizing s with
  | nil => simp [Store.deleteDevices]
  | cons e rest ih =>
    refine (ih (s.deleteDevice e.userId e.deviceId)).trans ?_
    simp [Store.deleteDevice, List.filter_filter, Bool.and_comm]

/-- The devices of the identity are gone when it is retired. -/
theorem prunes_applyAccountDeleted (nick : String) :
    Prunes server s (s.applyAccountDeleted nick).2 := by
  unfold Store.applyAccountDeleted
  split
  · exact .refl
  · next idn hidn =>
    rw [deleteDevices_eq]
    have hgone : ∀ d ∈ s.devices.filter (fun d => !(s.listDevices idn.id).any fun e =>
        d.userId = e.userId && d.deviceId = e.deviceId), d.userId ≠ idn.id := by
      intro d hd howner
      obtain ⟨hmem, hkeep⟩ := List.mem_filter.1 hd
      have hlisted : d ∈ s.listDevices idn.id := List.mem_filter.2 ⟨hmem, by simpa using howner⟩
      simp only [Bool.not_eq_true', List.any_eq_false] at hkeep
      exact hkeep d hlisted (by simp)
    exact ⟨.tail (prunes_filter s _).changes (.retired idn (mem_of_identityByNick hidn).1 hgone),
      fun _ hd => List.mem_of_mem_filter hd⟩

theorem prunes_reconcile (snap : Reconcile) : Prunes server s (s.reconcile snap).2 := by
  have hnicks : Prunes server s
      (snap.nicks.foldl Store.reconcileNick (({} : ReconcileOutcome), s)).2 := by
    refine Prunes.foldl (fun state live => ?_) (_, s) snap.nicks
    unfold Store.reconcileNick
    dsimp only
    split
    · exact .refl
    · rw [deleteDevices_eq]
      exact prunes_filter _ _
  simp only [Store.reconcile]
  split
  · refine hnicks.trans (Prunes.foldl (fun state nick => ?_) _ _)
    unfold Store.retireNick
    dsimp only
    split
    · exact prunes_applyAccountDeleted nick
    · exact prunes_applyAccountDeleted nick
  · exact hnicks

/-! ### Runs -/

inductive Operation where
  | assertion (nick credRef newDeviceId : String) (nowMs : Int)
  | nickChanged (old new : String)
  | accountDeleted (nick : String)
  | credentialRevoked (credRef : String)
  | reconcile (snap : Reconcile)

/-- A refused operation changes nothing. -/
def Store.perform (server : String) (s : Store) : Operation → Store
  | .assertion nick credRef newDeviceId nowMs =>
    match s.resolveAssertion server nick credRef newDeviceId nowMs with
    | .ok (_, s) => s
    | .error _ => s
  | .nickChanged old new =>
    match s.applyNickChanged server old new with
    | .ok (_, s) => s
    | .error _ => s
  | .accountDeleted nick => (s.applyAccountDeleted nick).2
  | .credentialRevoked credRef => (s.applyCredentialRevoked credRef).2
  | .reconcile snap => (s.reconcile snap).2

theorem applyNickChanged_ok {old new : String} {id : Option Int}
    (h : s.applyNickChanged server old new = .ok (id, s')) :
    (s.identityByNick old = none ∧ s' = s) ∨ ∃ idn, s.identityByNick old = some idn ∧
      s.nameTaken server (lower new) idn.id = false ∧
      s' = s.update idn.id fun i => { i with nick := new, nickCi := lower new } := by
  unfold Store.applyNickChanged at h
  split at h
  · next hnone =>
    cases h
    exact .inl ⟨hnone, rfl⟩
  · next idn hidn =>
    cases hrename : s.renameIn server idn.id new with
    | error e => simp [hrename, Except.map] at h
    | ok renamed =>
      rw [hrename] at h
      cases h
      exact .inr ⟨idn, hidn, renameIn_ok hrename⟩

theorem prunes_nickChanged (old new : String) :
    Prunes server s (s.perform server (.nickChanged old new)) := by
  simp only [Store.perform]
  split
  · next h =>
    rcases applyNickChanged_ok h with ⟨-, rfl⟩ | ⟨idn, hidn, hfree, rfl⟩
    · exact .refl
    · exact ⟨.single (.renamed idn (mem_of_identityByNick hidn).1 new hfree), fun _ hd => hd⟩
  · exact .refl

/-- An operation prunes, or it resolves an assertion. -/
theorem perform_cases (s : Store) (op : Operation) : Prunes server s (s.perform server op) ∨
    ∃ nick credRef r mid, Resolution server s nick credRef r (s.perform server op) mid := by
  cases op with
  | assertion nick credRef newDeviceId nowMs =>
    simp only [Store.perform]
    split
    · next r s' h =>
      obtain ⟨mid, resolution⟩ := resolveAssertion_ok h
      exact .inr ⟨nick, credRef, r, mid, resolution⟩
    · exact .inl .refl
  | nickChanged old new => exact .inl (prunes_nickChanged old new)
  | accountDeleted nick => exact .inl (prunes_applyAccountDeleted nick)
  | credentialRevoked credRef => exact .inl (prunes_filter s _)
  | reconcile snap => exact .inl (prunes_reconcile snap)

theorem changes_perform (s : Store) (op : Operation) :
    Relation.ReflTransGen (Change server) s (s.perform server op) := by
  rcases perform_cases s op with hprunes | ⟨nick, credRef, r, mid, resolution⟩
  · exact hprunes.changes
  · exact resolution.changes

theorem changes_run (s : Store) (ops : List Operation) :
    Relation.ReflTransGen (Change server) s (Trace.run (Store.perform server) s ops) :=
  Trace.run_invariant (fun later => Relation.ReflTransGen (Change server) s later)
    (fun later op h => h.trans (changes_perform later op)) .refl ops

theorem Valid.device_unique (valid : Valid s) {e : Device} (hd : d ∈ s.devices) (he : e ∈ s.devices)
    (hkind : d.credentialKind = e.credentialKind) (href : d.credentialRef = e.credentialRef) :
    d = e := by
  by_contra hne
  have : Std.Symm fun d e : Device =>
      ¬ (d.credentialKind = e.credentialKind ∧ d.credentialRef = e.credentialRef) :=
    ⟨fun _ _ h hsame => h ⟨hsame.1.symm, hsame.2.symm⟩⟩
  exact valid.credential.forall hd he hne ⟨hkind, href⟩

/-- While a credential has a device, it is the same one. -/
theorem Valid.device_perform (valid : Valid s) (op : Operation) {d' : Device} (hd : d ∈ s.devices)
    (hd' : d' ∈ (s.perform server op).devices) (hkind : d'.credentialKind = d.credentialKind)
    (href : d'.credentialRef = d.credentialRef) :
    d' = d := by
  have hold (h : d' ∈ s.devices) : d' = d := valid.device_unique h hd hkind href
  have hcases : Prunes server s (s.perform server op) ∨ _ := perform_cases s op
  rcases hcases with hprunes | ⟨nick, credRef, r, mid, resolution⟩
  · exact hold (hprunes.devices d' hd')
  · have hmid := resolution.devices_mid
    rcases resolution.device with ⟨-, -, -, -, -, hsame⟩ | ⟨newDeviceId, hcreate⟩
    · rw [hsame, hmid] at hd'
      exact hold hd'
    · obtain ⟨hfresh, hadded⟩ := createDevice_ok hcreate
      rw [hadded, List.mem_append, hmid] at hd'
      rcases hd' with hd' | hnew
      · exact hold hd'
      · -- the credential of the new device had none
        obtain rfl := List.mem_singleton.1 hnew
        exact absurd ⟨hkind.symm, href.symm⟩ (hfresh d (hmid ▸ hd)).2

/-- From any valid state on and in every run: between any two states of the run, identities with
the same identifier have the same localpart, and those with the same localpart the same identifier;
once an identity is retired, its localpart is never another's; no nick is, up to case, the nick or
localpart of another identity; and while a credential has a device, the device stays with its
identity, which is there. -/
theorem names_never_collide_or_move (valid : Valid s) (ops more : List Operation) :
    let before := Trace.run (Store.perform server) s ops
    let later := Trace.run (Store.perform server) before more
    (∀ i ∈ before.identities, ∀ i' ∈ later.identities,
      i'.id = i.id ↔ i'.localpart = i.localpart) ∧
    (∀ i ∈ before.identities, (∀ i' ∈ later.identities, i'.id ≠ i.id) → ∀ rest,
      ∀ i' ∈ (Trace.run (Store.perform server) later rest).identities, i'.localpart ≠ i.localpart) ∧
    (∀ i ∈ later.identities, ∀ j ∈ later.identities, i.id ≠ j.id →
      lower i.nick ≠ lower j.nick ∧ lower i.nick ≠ j.localpart) ∧
    (∀ d ∈ later.devices, d.credentialKind = .web → ∃ i ∈ later.identities, i.id = d.userId) ∧
    ∀ op, ∀ d ∈ later.devices, ∀ d' ∈ (later.perform server op).devices,
      d'.credentialKind = d.credentialKind → d'.credentialRef = d.credentialRef → d' = d := by
  intro before later
  have hbefore : Valid before := valid.changes (changes_run s ops)
  have hlater : Valid later := hbefore.changes (changes_run before more)
  have hfollows : Follows before later :=
    hbefore.follows.changes hbefore hbefore (changes_run before more)
  refine ⟨hfollows.localpart, fun i hi hretired rest i' hi' heq => ?_, fun i hi j hj hne => ?_,
    hlater.owned, fun op d hd d' hd' => hlater.device_perform op hd hd'⟩
  · -- the same localpart would be the same identifier, and that is gone
    obtain ⟨-, mxid, huser⟩ := hbefore.user i hi
    have gone : Gone later i.id := ⟨⟨mxid, hfollows.user _ huser⟩, hretired⟩
    have hrest := @changes_run server later rest
    have hlast := hfollows.changes hbefore hlater hrest
    exact (gone.changes hrest).none i' hi' ((hlast.localpart i hi i' hi').2 heq)
  · obtain ⟨hnick, hlocalpart, -⟩ := hlater.names i hi j hj hne
    rw [← hlater.nickCi i hi, ← hlater.nickCi j hj]
    exact ⟨hnick, hlocalpart⟩

/-! Alice's product renames them, and the next assertion follows. -/

theorem names_never_collide_or_move_followed :
    let ops : List Operation := [.assertion "Alice" "c1" "D1" 5]
    let more : List Operation := [.assertion "alicia" "c1" "D2" 6]
    let before := Trace.run (Store.perform "example.org") .empty ops
    let later := Trace.run (Store.perform "example.org") before more
    before.identities = [⟨1, "Alice", "alice", "alice", 5⟩] ∧
      later.identities = [⟨1, "alicia", "alicia", "alice", 5⟩] ∧
      later.devices = [⟨1, "D1", .web, "c1"⟩] ∧
      ∀ i ∈ before.identities, ∀ i' ∈ later.identities,
        i'.id = i.id ↔ i'.localpart = i.localpart :=
  ⟨by decide +kernel, by decide +kernel, by decide +kernel,
    (names_never_collide_or_move valid_empty [.assertion "Alice" "c1" "D1" 5]
      [.assertion "alicia" "c1" "D2" 6]).1⟩

end Server.Identities
