import StakePoolFogo.ListShape
import StakePoolFogo.Trace

/-!
# Preferred validators

The preferred validators are named in the pool, their status is in the list.  Removal and withdrawal of
a whole validator stake reset the names; the update of the list cannot, so a name can only go stale when
an update finds the stake account of the validator without stake, and only until the next cleanup that
may write to the pool.
-/

open StakePoolFogo.Checked StakePoolFogo.Outcome

namespace StakePoolFogo

/-! ## What an update finds -/

/-- The update loop comes to an entry of `vote` and finds its validator stake account initialized, in
the pool's hands and without stake. -/
inductive FindsInitialized (rt : Runtime) (sv : Sysvars) (c : UpdateContext) (vote : Pubkey) :
    List ValidatorStakeInfo → List (Pubkey × Pubkey) → Ledger → Prop where
  | here {v : ValidatorStakeInfo} {vs : List ValidatorStakeInfo} {validatorKey transientKey : Pubkey}
      {pairs : List (Pubkey × Pubkey)} {w w' : Ledger} {status : PodStakeStatus} {lamports : Nat}
      {info : StakeMeta} (isVote : v.voteAccountAddress = vote)
      (own : ownAccounts rt c.pool v validatorKey transientKey)
      (settled : refreshTransient rt sv c v validatorKey transientKey w = .ok (status, lamports, w'))
      (initialized : (w' validatorKey).tryStakeState.toOption = some (.initialized info))
      (usable : c.usable info) :
      FindsInitialized rt sv c vote (v :: vs) ((validatorKey, transientKey) :: pairs) w
  | later {v v' : ValidatorStakeInfo} {vs : List ValidatorStakeInfo}
      {validatorKey transientKey : Pubkey} {pairs : List (Pubkey × Pubkey)} {w w' : Ledger}
      (visited : refreshEntry rt sv c v validatorKey transientKey w = .ok (v', w'))
      (rest : FindsInitialized rt sv c vote vs pairs w') :
      FindsInitialized rt sv c vote (v :: vs) ((validatorKey, transientKey) :: pairs) w

/-- Statuses an entry can have while it is preferred. -/
def ValidatorStakeInfo.Preferable (v : ValidatorStakeInfo) : Prop :=
  v.status = StakeStatus.active.toPod ∨
    (v.status = StakeStatus.deactivatingTransient.toPod ∨
      v.status = StakeStatus.readyForRemoval.toPod) ∧ v.activeStakeLamports = 0

variable {rt : Runtime} {sv : Sysvars} {c : UpdateContext} {w w' : Ledger} {v v' : ValidatorStakeInfo}
  {validatorKey transientKey : Pubkey} {status status' : PodStakeStatus} {lamports transient : Nat}

theorem settleTransient_status {validatorState : Option StakeStateV2} {stake : Stake}
    (h : settleTransient rt sv c status validatorState stake validatorKey transientKey w =
      .ok (status', w')) : status' = status ∨ status.removeTransientStake = .ok status' := by
  unfold settleTransient at h
  split at h
  · simp only [bind_eq_ok, pure_eq_ok, Prod.mk.injEq] at h
    obtain ⟨_, -, _, hs, rfl, -⟩ := h
    exact .inr hs
  split at h
  · simp only [bind_eq_ok, pure_eq_ok, Prod.mk.injEq] at h
    obtain ⟨_, -, rfl, -⟩ := h
    exact .inl rfl
  · simp only [bind_eq_ok, pure_eq_ok, Prod.mk.injEq] at h
    obtain ⟨_, -, rfl, -⟩ := h
    exact .inl rfl

theorem refreshTransient_status
    (h : refreshTransient rt sv c v validatorKey transientKey w = .ok (status, lamports, w')) :
    status = v.status ∨ v.status.removeTransientStake = .ok status := by
  have same : ∀ {n : Nat}, (.ok (v.status, n, w) : Except ProgramError _) =
      .ok (status, lamports, w') → status = v.status ∨ v.status.removeTransientStake = .ok status := by
    intro n heq
    cases heq
    exact .inl rfl
  unfold refreshTransient at h
  split at h
  · exact same h
  split at h
  · split at h
    · split at h
      · exact same h
      · simp only [bind_eq_ok, pure_eq_ok, Prod.mk.injEq] at h
        obtain ⟨_, -, _, hs, rfl, -, -⟩ := h
        exact .inr hs
    · exact same h
  · split at h
    · split at h
      · exact same h
      · simp only [bind_eq_ok, pure_eq_ok, Prod.mk.injEq, Prod.exists] at h
        obtain ⟨_, _, hsettle, rfl, -, -⟩ := h
        exact settleTransient_status hsettle
    · exact same h
  · exact same h

/-- The transient half of a visit never makes an active entry inactive, nor gives one without
validator stake its stake back. -/
theorem refreshTransient_keeps
    (h : refreshTransient rt sv c v validatorKey transientKey w = .ok (status, lamports, w')) :
    (v.status = StakeStatus.active.toPod → status = StakeStatus.active.toPod) ∧
    (v.status = StakeStatus.deactivatingTransient.toPod ∨
      v.status = StakeStatus.readyForRemoval.toPod →
      status = StakeStatus.deactivatingTransient.toPod ∨
        status = StakeStatus.readyForRemoval.toPod) := by
  rcases refreshTransient_status h with rfl | hremove
  · exact ⟨id, id⟩
  · obtain ⟨s, hs, rfl⟩ := PodStakeStatus.removeTransientStake_eq_ok.mp hremove
    rw [hs]
    cases s <;> decide

theorem settleValidator_lamports {stake : Stake}
    (h : settleValidator rt sv c status stake validatorKey w = .ok (status', lamports, w')) :
    (status = StakeStatus.active.toPod → status' = StakeStatus.active.toPod) ∧
    (status = StakeStatus.deactivatingTransient.toPod ∨ status = StakeStatus.readyForRemoval.toPod →
      status' = status ∧ lamports = 0) := by
  simp only [settleValidator, bind_eq_ok, PodStakeStatus.tryInto_eq_ok] at h
  obtain ⟨s, rfl, h⟩ := h
  cases s with
  | active | deactivatingTransient | readyForRemoval =>
    simp only [pure_eq_ok, Prod.mk.injEq] at h
    obtain ⟨rfl, hlamports, -⟩ := h
    simp [StakeStatus.toPod_inj, hlamports.symm]
  | deactivatingValidator | deactivatingAll =>
    exact ⟨fun heq => absurd (StakeStatus.toPod_inj.mp heq) (by decide),
      fun heq => by rcases heq with heq | heq <;> exact absurd (StakeStatus.toPod_inj.mp heq) (by decide)⟩

/-- The validator half of a visit: either the account is initialized and the entry leaves without
stake, or an active entry stays active and one without validator stake stays without. -/
theorem refreshValidator_lamports
    (h : refreshValidator rt sv c status transient validatorKey w = .ok (status', lamports, w')) :
    (∃ info, (w validatorKey).tryStakeState.toOption = some (.initialized info) ∧ c.usable info ∧
      (status' = StakeStatus.deactivatingTransient.toPod ∨
        status' = StakeStatus.readyForRemoval.toPod) ∧ lamports = 0) ∨
    (status = StakeStatus.active.toPod → status' = StakeStatus.active.toPod) ∧
    (status = StakeStatus.deactivatingTransient.toPod ∨ status = StakeStatus.readyForRemoval.toPod →
      status' = status ∧ lamports = 0) := by
  have same : (.ok (status, 0, w) : Except ProgramError _) = .ok (status', lamports, w') →
      (status = StakeStatus.active.toPod → status' = StakeStatus.active.toPod) ∧
      (status = StakeStatus.deactivatingTransient.toPod ∨
        status = StakeStatus.readyForRemoval.toPod → status' = status ∧ lamports = 0) := by
    intro heq
    cases heq
    exact ⟨id, fun _ => ⟨rfl, rfl⟩⟩
  unfold refreshValidator at h
  split at h
  · split at h
    · simp only [bind_eq_ok] at h
      obtain ⟨_, -, hsettle⟩ := h
      exact .inr (settleValidator_lamports hsettle)
    · exact .inr (same h)
  · rename_i info hinitialized
    split at h
    · rename_i husable
      simp only [bind_eq_ok, pure_eq_ok, Prod.mk.injEq] at h
      obtain ⟨_, -, rfl, hlamports, -⟩ := h
      refine .inl ⟨info, hinitialized, husable, ?_, hlamports.symm⟩
      split
      · exact .inl rfl
      · exact .inr rfl
    · exact .inr (same h)
  · exact .inr (same h)

/-- One visit: a preferable entry stays preferable, and an active one stays active unless its stake
account is found initialized. -/
theorem refreshEntry_preferable (vs : List ValidatorStakeInfo) (pairs : List (Pubkey × Pubkey))
    (h : refreshEntry rt sv c v validatorKey transientKey w = .ok (v', w')) :
    v'.voteAccountAddress = v.voteAccountAddress ∧ (v.Preferable → v'.Preferable) ∧
    (v.status = StakeStatus.active.toPod → v'.status = StakeStatus.active.toPod ∨
      FindsInitialized rt sv c v.voteAccountAddress (v :: vs) ((validatorKey, transientKey) :: pairs)
        w) := by
  unfold refreshEntry at h
  split at h
  · rename_i hown
    simp only [bind_eq_ok, pure_eq_ok, Prod.exists, Prod.mk.injEq] at h
    obtain ⟨s, t, w₁, htransient, s', a, w₂, hvalidator, rfl, rfl⟩ := h
    obtain ⟨hactive, hleft⟩ := refreshTransient_keeps htransient
    refine ⟨rfl, fun hpreferable => ?_, fun hv => ?_⟩
    · rcases refreshValidator_lamports hvalidator with ⟨_, -, -, hstatus, hzero⟩ | ⟨hstay, hgone⟩
      · exact .inr ⟨hstatus, hzero⟩
      · rcases hpreferable with hv | ⟨hv, -⟩
        · exact .inl (hstay (hactive hv))
        · obtain ⟨hstatus, hzero⟩ := hgone (hleft hv)
          exact .inr ⟨by rw [hstatus]; exact hleft hv, hzero⟩
    · rcases refreshValidator_lamports hvalidator with ⟨info, hdata, husable, -⟩ | ⟨hstay, -⟩
      · exact .inr (.here rfl hown htransient hdata husable)
      · exact .inl (hstay (hactive hv))
  · cases h
    exact ⟨rfl, id, .inl⟩

/-- What the update loop does to one entry. -/
structure Revisited (found : Pubkey → Prop) (v v' : ValidatorStakeInfo) : Prop where
  vote : v'.voteAccountAddress = v.voteAccountAddress
  preferable : v.Preferable → v'.Preferable
  active : v.status = StakeStatus.active.toPod →
    v'.status = StakeStatus.active.toPod ∨ found v.voteAccountAddress

theorem Revisited.refl (found : Pubkey → Prop) (v : ValidatorStakeInfo) : Revisited found v v :=
  ⟨rfl, id, .inl⟩

theorem Revisited.mono {found found' : Pubkey → Prop} (h : Revisited found v v')
    (hle : ∀ vote, found vote → found' vote) : Revisited found' v v' :=
  ⟨h.vote, h.preferable, fun hv => (h.active hv).imp_right (hle _)⟩

theorem refreshEntries_revisited {vs vs' : List ValidatorStakeInfo} {pairs : List (Pubkey × Pubkey)}
    (h : refreshEntries rt sv c vs pairs w = .ok (vs', w')) :
    List.Forall₂ (Revisited fun vote => FindsInitialized rt sv c vote vs pairs w) vs vs' := by
  induction vs generalizing pairs w vs' with
  | nil =>
    cases h
    exact .nil
  | cons v vs ih =>
    cases pairs with
    | nil =>
      cases h
      exact List.forall₂_same.mpr fun u _ => .refl _ u
    | cons pair pairs =>
      obtain ⟨validatorKey, transientKey⟩ := pair
      simp only [refreshEntries, bind_eq_ok, pure_eq_ok, Prod.exists, Prod.mk.injEq] at h
      obtain ⟨v', w₁, hentry, vs'', w₂, hrest, rfl, rfl⟩ := h
      obtain ⟨hvote, hpreferable, hactive⟩ := refreshEntry_preferable vs pairs hentry
      exact .cons ⟨hvote, hpreferable, hactive⟩
        ((ih hrest).imp fun _ _ hu => hu.mono fun _ => .later hentry)

/-! ## Finding entries in a rewritten list -/

section Find

variable {l l' : ValidatorList} {vote other : Pubkey} {found : Pubkey → Prop}

theorem ValidatorList.find_eq_none : l.find vote = none ↔
    ∀ v ∈ l.validators, v.voteAccountAddress ≠ vote := by
  simp [find, ValidatorStakeInfo.memcmpPubkey]

/-- In a list of distinct votes, `find` finds what is there. -/
theorem ValidatorList.find_of_mem (hnodup : (l.validators.map (·.voteAccountAddress)).Nodup)
    (hmem : v ∈ l.validators) : l.find v.voteAccountAddress = some v := by
  cases hfind : l.find v.voteAccountAddress with
  | none => exact absurd rfl (find_eq_none.mp hfind v hmem)
  | some u =>
    have hsame := List.inj_on_of_nodup_map hnodup (find_mem hfind) hmem (find_vote hfind)
    rw [hsame]

theorem ValidatorStakeInfo.memcmpPubkey_iff : v.memcmpPubkey vote = true ↔
    v.voteAccountAddress = vote := beq_iff_eq

/-- Rewriting the entry of one vote is seen under that vote only. -/
theorem ValidatorList.find_modify (hfound : l.find vote = some v)
    (hvote : v'.voteAccountAddress = vote) (other : Pubkey) :
    (l.modify vote fun _ => v').find other = if other = vote then some v' else l.find other := by
  obtain ⟨header, vs⟩ := l
  have hskip : ∀ {x : Pubkey} {u : ValidatorStakeInfo} {us : List ValidatorStakeInfo},
      ¬ u.memcmpPubkey x = true →
        (u :: us).find? (·.memcmpPubkey x) = us.find? (·.memcmpPubkey x) :=
    fun h => List.find?_cons_of_neg h
  have hstop : ∀ {x : Pubkey} {u : ValidatorStakeInfo} {us : List ValidatorStakeInfo},
      u.memcmpPubkey x = true → (u :: us).find? (·.memcmpPubkey x) = some u :=
    fun h => List.find?_cons_of_pos h
  have key : ∀ us : List ValidatorStakeInfo, us.find? (·.memcmpPubkey vote) = some v →
      (modify.go vote (fun _ => v') us).find? (·.memcmpPubkey other) =
        if other = vote then some v' else us.find? (·.memcmpPubkey other) := by
    intro us
    induction us with
    | nil => simp
    | cons u us ih =>
      intro hfind
      by_cases hu : u.memcmpPubkey vote
      · rw [modify.go, if_pos hu]
        have huvote := ValidatorStakeInfo.memcmpPubkey_iff.mp hu
        by_cases hother : other = vote
        · rw [if_pos hother]
          exact hstop (ValidatorStakeInfo.memcmpPubkey_iff.mpr (hvote.trans hother.symm))
        · rw [if_neg hother, hskip, hskip]
          · exact fun h => hother ((ValidatorStakeInfo.memcmpPubkey_iff.mp h).symm.trans huvote)
          · exact fun h => hother ((ValidatorStakeInfo.memcmpPubkey_iff.mp h).symm.trans hvote)
      · rw [hskip hu] at hfind
        rw [modify.go, if_neg hu]
        by_cases huother : u.memcmpPubkey other = true
        · have hother : other ≠ vote := by
            rintro rfl
            exact hu huother
          rw [hstop huother, hstop huother, if_neg hother]
        · rw [hskip huother, hskip huother, ih hfind]
  exact key vs hfound

/-- Two changes of one entry are one. -/
theorem ValidatorList.modify_modify {f g : ValidatorStakeInfo → ValidatorStakeInfo}
    (hfound : l.find vote = some v) (hvote : (f v).voteAccountAddress = vote) :
    (l.modify vote f).modify vote g = l.modify vote fun u => g (f u) := by
  obtain ⟨header, vs⟩ := l
  have hnamed : (f v).memcmpPubkey vote = true := ValidatorStakeInfo.memcmpPubkey_iff.mpr hvote
  have key : ∀ us : List ValidatorStakeInfo, us.find? (·.memcmpPubkey vote) = some v →
      modify.go vote g (modify.go vote f us) = modify.go vote (fun u => g (f u)) us := by
    intro us
    induction us with
    | nil => exact fun _ => rfl
    | cons u us ih =>
      intro hfind
      by_cases hu : u.memcmpPubkey vote
      · -- The first change keeps the name, so the second one finds the same entry.
        obtain rfl : u = v := by simpa [List.find?_cons, hu] using hfind
        rw [modify.go, modify.go, if_pos hu, if_pos hu, modify.go, if_pos hnamed]
      · simp only [List.find?_cons, hu] at hfind
        rw [modify.go, modify.go, if_neg hu, if_neg hu, modify.go, if_neg hu, ih hfind]
  exact congrArg (ValidatorList.mk header) (key vs hfound)

/-- What a step leaves of the entry of `vote`: an entry afterwards is active or comes from one before,
and an active entry stays active unless it was found without stake. -/
structure Keeps (found : Pubkey → Prop) (l l' : ValidatorList) (vote : Pubkey) : Prop where
  after : ∀ v', l'.find vote = some v' → v'.status = StakeStatus.active.toPod ∨
    ∃ v, l.find vote = some v ∧ (v.Preferable → v'.Preferable)
  active : ∀ v, l.find vote = some v → v.status = StakeStatus.active.toPod →
    (∃ v', l'.find vote = some v' ∧ v'.status = StakeStatus.active.toPod) ∨ found vote

theorem Keeps.refl (found : Pubkey → Prop) (l : ValidatorList) (vote : Pubkey) :
    Keeps found l l vote :=
  ⟨fun v' hv' => .inr ⟨v', hv', id⟩, fun v hv hactive => .inl ⟨v, hv, hactive⟩⟩

theorem Keeps.of_append (hactive : v.status = StakeStatus.active.toPod) :
    Keeps found l { l with validators := l.validators ++ [v] } vote := by
  have hfind : ({ l with validators := l.validators ++ [v] } : ValidatorList).find vote =
      (l.find vote).or ([v].find? (·.memcmpPubkey vote)) := List.find?_append
  refine ⟨fun v' hv' => ?_, fun u hu husable => .inl ⟨u, by rw [hfind, hu]; rfl, husable⟩⟩
  rw [hfind] at hv'
  cases hu : l.find vote with
  | some u =>
    rw [hu] at hv'
    obtain rfl := Option.some.inj hv'
    exact .inr ⟨u, rfl, id⟩
  | none =>
    rw [hu, Option.none_or] at hv'
    have hmem : v' ∈ [v] := List.mem_of_find?_eq_some hv'
    rw [List.mem_singleton.mp hmem]
    exact .inl hactive

/-- An entry that is rewritten and stays active. -/
theorem Keeps.of_modify (hfound : l.find other = some v)
    (hvote : v'.voteAccountAddress = v.voteAccountAddress)
    (hactive : v'.status = StakeStatus.active.toPod ∨ vote ≠ other) :
    Keeps found l (l.modify other fun _ => v') vote := by
  have hvote' : v'.voteAccountAddress = other := hvote.trans (ValidatorList.find_vote hfound)
  have hfind := ValidatorList.find_modify hfound hvote' vote
  by_cases heq : vote = other
  · subst heq
    rw [if_pos rfl] at hfind
    have hactive' := hactive.resolve_right fun hne => hne rfl
    refine ⟨fun u hu => .inl ?_, fun _ _ _ => .inl ⟨v', hfind, hactive'⟩⟩
    rw [← Option.some.inj (hfind.symm.trans hu)]
    exact hactive'
  · rw [if_neg heq] at hfind
    exact ⟨fun u hu => .inr ⟨u, hfind.symm.trans hu, id⟩,
      fun u hu husable => .inl ⟨u, hfind.trans hu, husable⟩⟩

theorem revisited_find {vs vs' : List ValidatorStakeInfo} (vote : Pubkey)
    (h : List.Forall₂ (Revisited found) vs vs') :
    (vs.find? (·.memcmpPubkey vote) = none ∧ vs'.find? (·.memcmpPubkey vote) = none) ∨
      ∃ v v', vs.find? (·.memcmpPubkey vote) = some v ∧
        vs'.find? (·.memcmpPubkey vote) = some v' ∧ Revisited found v v' := by
  induction h with
  | nil => exact .inl ⟨rfl, rfl⟩
  | @cons u u' us us' hu _ ih =>
    have hsame : u'.memcmpPubkey vote = u.memcmpPubkey vote := by
      rw [ValidatorStakeInfo.memcmpPubkey, hu.vote]
      rfl
    rw [List.find?_cons, List.find?_cons, hsame]
    cases hmatch : u.memcmpPubkey vote with
    | true => exact .inr ⟨u, u', rfl, rfl, hu⟩
    | false => exact ih

/-- The update loop. -/
theorem Keeps.of_revisited (h : List.Forall₂ (Revisited found) l.validators l'.validators) :
    Keeps found l l' vote := by
  rcases revisited_find vote h with ⟨hnone, hnone'⟩ | ⟨v, v', hv, hv', hrevisited⟩
  · refine ⟨fun u hu => ?_, fun u hu => ?_⟩
    · cases hnone'.symm.trans hu
    · cases hnone.symm.trans hu
  · refine ⟨fun u hu => ?_, fun u hu hactive => ?_⟩
    · rw [← Option.some.inj (hv'.symm.trans hu)]
      exact .inr ⟨v, hv, hrevisited.preferable⟩
    · obtain rfl := Option.some.inj (hv.symm.trans hu)
      rcases hrevisited.active hactive with hactive' | hfound
      · exact .inl ⟨v', hv', hactive'⟩
      · exact .inr (ValidatorList.find_vote hu ▸ hfound)

theorem ValidatorStakeInfo.not_removed (hactive : v.status = StakeStatus.active.toPod) :
    v.isRemoved = false := by
  rw [isRemoved, hactive]
  rfl

/-- The cleanup. -/
theorem Keeps.cleaned (hnodup : (l.validators.map (·.voteAccountAddress)).Nodup) :
    Keeps found l l.cleaned vote := by
  have hsub : l.cleaned.validators.Sublist l.validators := List.filter_sublist
  have hnodup' := hnodup.sublist (hsub.map (·.voteAccountAddress))
  refine ⟨fun v' hv' => .inr ⟨v', ?_, id⟩, fun v hv hactive => .inl ⟨v, ?_, hactive⟩⟩
  · rw [← ValidatorList.find_vote hv']
    exact ValidatorList.find_of_mem hnodup (hsub.mem (ValidatorList.find_mem hv'))
  · rw [← ValidatorList.find_vote hv]
    refine ValidatorList.find_of_mem hnodup' (List.mem_filter.mpr ⟨ValidatorList.find_mem hv, ?_⟩)
    rw [ValidatorStakeInfo.not_removed hactive]
    rfl

end Find

/-! ## One instruction -/

/-- Every preferred validator after a step names an active entry, or was preferred before and its
entry was kept. -/
structure PreferredStep (found : Pubkey → Prop) (p : StakePool) (l : ValidatorList) (p' : StakePool)
    (l' : ValidatorList) : Prop where
  deposit : ∀ vote, p'.preferredDepositValidatorVoteAddress = some vote →
    (∃ v, l'.find vote = some v ∧ v.status = StakeStatus.active.toPod) ∨
      p.preferredDepositValidatorVoteAddress = some vote ∧ Keeps found l l' vote
  withdraw : ∀ vote, p'.preferredWithdrawValidatorVoteAddress = some vote →
    (∃ v, l'.find vote = some v ∧ v.status = StakeStatus.active.toPod) ∨
      p.preferredWithdrawValidatorVoteAddress = some vote ∧ Keeps found l l' vote

section Instruction

variable {accounts : List AccountMeta} {a : AccountMeta} {k vote : Pubkey} {p p' : StakePool}
  {l l' : ValidatorList} {found : Pubkey → Prop}

/-- The names stay. -/
theorem PreferredStep.of_keeps
    (hdeposit : p'.preferredDepositValidatorVoteAddress = p.preferredDepositValidatorVoteAddress)
    (hwithdraw : p'.preferredWithdrawValidatorVoteAddress = p.preferredWithdrawValidatorVoteAddress)
    (hkeeps : ∀ vote, Keeps found l l' vote) : PreferredStep found p l p' l' :=
  ⟨fun vote hvote => .inr ⟨hdeposit.symm.trans hvote, hkeeps vote⟩,
    fun vote hvote => .inr ⟨hwithdraw.symm.trans hvote, hkeeps vote⟩⟩

theorem Keeps.mono {found' : Pubkey → Prop} (h : Keeps found l l' vote)
    (hle : ∀ x, found x → found' x) : Keeps found' l l' vote :=
  ⟨h.after, fun v hv hactive => (h.active v hv hactive).imp_right (hle vote)⟩

theorem PreferredStep.mono {found' : Pubkey → Prop} (h : PreferredStep found p l p' l')
    (hle : ∀ x, found x → found' x) : PreferredStep found' p l p' l' :=
  ⟨fun x hx => (h.deposit x hx).imp_right fun hx => ⟨hx.1, hx.2.mono hle⟩,
    fun x hx => (h.withdraw x hx).imp_right fun hx => ⟨hx.1, hx.2.mono hle⟩⟩

theorem PreferredStep.of_same
    (hdeposit : p'.preferredDepositValidatorVoteAddress = p.preferredDepositValidatorVoteAddress)
    (hwithdraw : p'.preferredWithdrawValidatorVoteAddress = p.preferredWithdrawValidatorVoteAddress) :
    PreferredStep found p l p' l :=
  .of_keeps hdeposit hwithdraw fun vote => .refl found l vote

/-- The name of the validator that leaves is forgotten. -/
theorem PreferredStep.of_forget {v v' : ValidatorStakeInfo} (hfound : l.find vote = some v)
    (hvote : v'.voteAccountAddress = v.voteAccountAddress)
    (hdeposit : p'.preferredDepositValidatorVoteAddress =
      (p.forgetPreferred vote).preferredDepositValidatorVoteAddress)
    (hwithdraw : p'.preferredWithdrawValidatorVoteAddress =
      (p.forgetPreferred vote).preferredWithdrawValidatorVoteAddress) :
    PreferredStep found p l p' (l.modify vote fun _ => v') := by
  have hkept : ∀ {name : Option Pubkey} {x : Pubkey},
      (if name = some vote then none else name) = some x → name = some x ∧ x ≠ vote := by
    intro name x hx
    split at hx
    · cases hx
    · rename_i hne
      exact ⟨hx, fun heq => hne (heq ▸ hx)⟩
  constructor
  · intro x hx
    obtain ⟨hname, hne⟩ := hkept (hdeposit.symm.trans hx)
    exact .inr ⟨hname, .of_modify hfound hvote (.inr hne)⟩
  · intro x hx
    obtain ⟨hname, hne⟩ := hkept (hwithdraw.symm.trans hx)
    exact .inr ⟨hname, .of_modify hfound hvote (.inr hne)⟩

theorem PreferredStep.of_setPreferred {t : PreferredValidatorType} {name : Option Pubkey}
    (h : ∀ x ∈ name, ∃ v, l.find x = some v ∧ v.status = StakeStatus.active.toPod) :
    PreferredStep found p l (p.setPreferred t name) l := by
  cases t with
  | deposit => exact ⟨fun x hx => .inl (h x hx), fun x hx => .inr ⟨hx, .refl _ _ _⟩⟩
  | withdraw => exact ⟨fun x hx => .inr ⟨hx, .refl _ _ _⟩, fun x hx => .inl (h x hx)⟩

theorem WithdrawStakeRun.preferred {poolTokens : Nat} {minimum : Option Nat}
    (r : WithdrawStakeRun rt sv accounts poolTokens minimum w w') (hplan : r.plan.Books r.l l') :
    PreferredStep found r.p r.l r.p' l' := by
  obtain ⟨hrecord, -, -⟩ := StakePool.recordWithdrawal_eq_ok.mp r.record
  rw [hrecord]
  have hcases := planWithdrawal_cases rt sv r.plan_eq
  generalize r.plan = plan at hcases hplan
  rcases hplan with ⟨hitem, rfl⟩ | ⟨v, source, v', hitem, hbook, rfl⟩
  · cases hcases with
    | reserve _ _ => exact .of_same rfl rfl
    | active _ _ _ _ _ _ _ _ | transient _ _ _ _ _ _ _ _ | removal _ _ _ _ _ _ _ _ _ => cases hitem
  · cases hcases with
    | reserve _ _ => cases hitem
    | active u d _ _ found status _ _ | transient u d _ _ found status _ _ =>
      cases hitem
      simp only [recordStakeWithdrawal, bind_eq_ok, pure_eq_ok] at hbook
      obtain ⟨_, -, rfl⟩ := hbook
      rw [ValidatorList.find_vote found]
      exact .of_keeps rfl rfl fun x =>
        .of_modify found (ValidatorList.find_vote found).symm (.inl status)
    | removal u d _ _ found status _ _ _ =>
      cases hitem
      simp only [recordStakeWithdrawal, bind_eq_ok, exists_unit, pure_eq_ok] at hbook
      obtain ⟨_, -, -, rfl⟩ := hbook
      rw [ValidatorList.find_vote found]
      exact .of_forget found (ValidatorList.find_vote found).symm rfl rfl

/-- Any instruction but an update of the list and the cleanup. -/
theorem processInstruction_preferred {i : StakePoolInstruction} (laws : ProgramLaws rt)
    (ha : accounts[0]? = some a) (hp : PoolAt rt w a.key p) (hl : ListAt rt w p.validatorList l)
    (hupdate : ∀ n noMerge, i ≠ .updateValidatorListBalance n noMerge)
    (hcleanup : i ≠ .cleanupRemovedValidatorEntries)
    (h : processInstruction rt sv accounts i w = .ok w') :
    ∃ p' l', PoolAt rt w' a.key p' ∧ ListAt rt w' p.validatorList l' ∧
      PreferredStep found p l p' l' := by
  cases i with
  | updateValidatorListBalance n noMerge => exact absurd rfl (hupdate n noMerge)
  | cleanupRemovedValidatorEntries => exact absurd rfl hcleanup
  | redelegate => cases h
  | initializePool =>
    obtain ⟨r⟩ := processInitialize_run rt sv h
    obtain rfl := Option.some.inj (ha.symm.trans r.pool_at)
    exact absurd hp r.not_pool
  | addValidatorToPool =>
    obtain ⟨r⟩ := processAddValidatorToPool_run rt sv h
    have he := r.effect laws ha hp hl
    exact ⟨_, _, he.own.after, he.list, .of_keeps rfl rfl fun x => .of_append rfl⟩
  | removeValidatorFromPool =>
    obtain ⟨r⟩ := processRemoveValidatorFromPool_run rt sv h
    have he := r.effect laws ha hp hl
    refine ⟨_, _, he.own.after, he.list, PreferredStep.of_forget (v := r.v) ?_ rfl rfl rfl⟩
    obtain rfl := Option.some.inj (ha.symm.trans r.pool_at)
    obtain rfl := hp.unique r.isPool
    obtain rfl := hl.unique (by rw [← r.list_key]; exact r.isList)
    exact r.found
  | decreaseValidatorStake | decreaseValidatorStakeWithReserve | decreaseAdditionalValidatorStake =>
    obtain ⟨r⟩ := processDecreaseValidatorStake_run rt sv h
    have he := r.effect laws ha hp hl
    refine ⟨_, _, he.own.after, he.list, .of_keeps rfl rfl fun x => ?_⟩
    obtain rfl := Option.some.inj (ha.symm.trans r.pool_at)
    obtain rfl := hp.unique r.isPool
    obtain rfl := hl.unique (by rw [← r.list_key]; exact r.isList)
    exact .of_modify r.found rfl (.inl r.status_active)
  | increaseValidatorStake | increaseAdditionalValidatorStake =>
    obtain ⟨r⟩ := processIncreaseValidatorStake_run rt sv h
    have he := r.effect laws ha hp hl
    refine ⟨_, _, he.own.after, he.list, .of_keeps rfl rfl fun x => ?_⟩
    obtain rfl := Option.some.inj (ha.symm.trans r.pool_at)
    obtain rfl := hp.unique r.isPool
    obtain rfl := hl.unique (by rw [← r.list_key]; exact r.isList)
    exact .of_modify r.found rfl (.inl r.status_active)
  | setPreferredValidator t =>
    obtain ⟨r⟩ := processSetPreferredValidator_run rt h
    have he : BookEffect rt sv accounts w w' a.key p l _ l := r.effect laws ha hp hl
    refine ⟨_, _, he.own.after, he.list, .of_setPreferred ?_⟩
    obtain rfl := Option.some.inj (ha.symm.trans r.pool_at)
    obtain rfl := hp.unique r.isPool
    obtain rfl := hl.unique r.isList
    exact r.preferred
  | updateStakePoolBalance =>
    obtain ⟨r⟩ := (processUpdateStakePoolBalance_run rt sv).mp h
    have he := r.effect laws ha hp hl
    refine ⟨_, _, he.own.after, he.list, ?_⟩
    unfold StakePool.advanceEpoch
    split <;> exact .of_same rfl rfl
  | depositStake | depositStakeWithSlippage =>
    obtain ⟨r⟩ := processDepositStake_run rt sv h
    have he := r.effect laws ha hp hl
    refine ⟨_, _, he.own.after, he.list, .of_keeps rfl rfl fun x => ?_⟩
    obtain rfl := Option.some.inj (ha.symm.trans r.pool_at)
    obtain rfl := hp.unique r.isPool
    obtain rfl := hl.unique (by rw [← r.list_key]; exact r.isList)
    exact .of_modify r.found rfl (.inl r.active)
  | depositSol | depositSolWithSlippage =>
    obtain ⟨r⟩ := processDepositSol_run rt sv h
    have he := r.effect laws ha hp hl (Option.some.inj (r.pool_at.symm.trans ha))
    exact ⟨_, _, he.own.after, he.list, .of_same rfl rfl⟩
  | depositWsolWithSession =>
    obtain ⟨r⟩ := processDepositWsolWithSession_run rt sv h
    obtain ⟨tokens, he⟩ := r.effect laws ha hp hl
    exact ⟨_, _, he.own.after, he.list, .of_same rfl rfl⟩
  | withdrawStake | withdrawStakeWithSlippage =>
    obtain ⟨r⟩ := processWithdrawStake_run rt sv h
    obtain ⟨l', hbooks, he⟩ := r.effect laws ha hp hl
    refine ⟨_, _, he.own.after, he.list, ?_⟩
    obtain rfl := Option.some.inj (ha.symm.trans r.pool_at)
    obtain rfl := hp.unique r.isPool
    obtain rfl := hl.unique (by rw [← r.list_key]; exact r.isList)
    exact r.preferred hbooks
  | withdrawSol | withdrawSolWithSlippage =>
    obtain ⟨r⟩ := processWithdrawSol_run rt sv h
    have he := r.effect laws ha hp hl r.isToken (Option.some.inj (r.pool_at.symm.trans ha))
    exact ⟨_, _, he.own.after, he.list, .of_same rfl rfl⟩
  | withdrawWsolWithSession =>
    obtain ⟨r⟩ := processWithdrawWsolWithSession_run rt sv h
    obtain ⟨tokens, lamports, he⟩ := r.effect laws ha hp hl
    exact ⟨_, _, he.own.after, he.list, .of_same rfl rfl⟩
  | setManager =>
    obtain ⟨r⟩ := processSetManager_run rt h
    have he : BookEffect rt sv accounts w w' a.key p l _ l := r.effect laws ha hp hl
    exact ⟨_, _, he.own.after, he.list, .of_same rfl rfl⟩
  | setFee fee =>
    obtain ⟨r⟩ := processSetFee_run rt sv h
    have he : BookEffect rt sv accounts w w' a.key p l _ l := r.effect laws ha hp hl
    refine ⟨_, _, he.own.after, he.list, ?_⟩
    obtain rfl := Option.some.inj (ha.symm.trans r.pool_at)
    obtain rfl := hp.unique r.isPool
    have hu := r.update
    cases fee with
    | stakeWithdrawal | solWithdrawal =>
      simp only [StakePool.updateFee, bind_eq_ok, exists_unit, pure_eq_ok] at hu
      obtain ⟨-, hu⟩ := hu
      rw [← hu]
      exact .of_same rfl rfl
    | _ =>
      rw [← Except.ok.inj hu]
      exact .of_same rfl rfl
  | setStaker =>
    obtain ⟨r⟩ := processSetStaker_run rt h
    have he : BookEffect rt sv accounts w w' a.key p l _ l := r.effect laws ha hp hl
    exact ⟨_, _, he.own.after, he.list, .of_same rfl rfl⟩
  | setFundingAuthority t =>
    obtain ⟨r⟩ := processSetFundingAuthority_run rt h
    have he : BookEffect rt sv accounts w w' a.key p l _ l := r.effect laws ha hp hl
    refine ⟨_, _, he.own.after, he.list, ?_⟩
    cases t <;> exact .of_same rfl rfl
  | createTokenMetadata =>
    have hf := (processCreatePoolTokenMetadata_spec h).2.mono scribes_subset_outsiders
    exact ⟨p, l, hp.of_frames laws hf, hl.of_frames laws hf, .of_same rfl rfl⟩
  | updateTokenMetadata =>
    have hf := (processUpdatePoolTokenMetadata_spec h).2.mono scribes_subset_outsiders
    exact ⟨p, l, hp.of_frames laws hf, hl.of_frames laws hf, .of_same rfl rfl⟩

end Instruction

/-! ## Runs -/

/-- `UpdateValidatorListBalance` on the pool at `k` finds the stake account of `vote` initialized. -/
inductive Discovers (rt : Runtime) (k vote : Pubkey) (s s' : World) : Event → Prop where
  | intro {accounts : List AccountMeta} {input : List UInt8} {startIndex : UInt32} {noMerge : Bool}
      (run : UpdateListRun rt s.sysvars accounts startIndex noMerge s.ledger s'.ledger)
      (pool : run.pool.key = k)
      (decoded : StakePoolInstruction.tryFromSlice input =
        .ok (.updateValidatorListBalance startIndex noMerge))
      (finds : FindsInitialized rt s.sysvars
        { pool := run.pool.key, stakePool := run.p, authority := run.authority,
          reserve := run.reserve.key, clock := run.clock.key, history := run.history.key, noMerge }
        vote (run.l.validators.drop startIndex.toNat) (stakePairs (accounts.drop 7)) s.ledger) :
      Discovers rt k vote s s' (.call accounts input)

/-- `CleanupRemovedValidatorEntries` on the pool at `k`, which it may write to. -/
inductive Event.CleansPool (k : Pubkey) : Event → Prop where
  | intro {accounts : List AccountMeta} {input : List UInt8} {a : AccountMeta}
      (pool_at : accounts[0]? = some a) (pool : a.key = k) (writable : a.isWritable = true)
      (decoded : StakePoolInstruction.tryFromSlice input = .ok .cleanupRemovedValidatorEntries) :
      CleansPool k (.call accounts input)

/-- Runs, with the votes whose stake accounts an update of the pool at `k` found initialized since the
last cleanup that could write to the pool. -/
inductive Discovered (rt : Runtime) (k : Pubkey) : World → (Pubkey → Prop) → Prop where
  | start {s : World} (untouched : Untouched rt s) : Discovered rt k s fun _ => False
  | cleaned {s s' : World} {e : Event} {found : Pubkey → Prop} (before : Discovered rt k s found)
      (step : Happens rt s s' e) (cleans : e.CleansPool k) : Discovered rt k s' fun _ => False
  | later {s s' : World} {e : Event} {found : Pubkey → Prop} (before : Discovered rt k s found)
      (step : Happens rt s s' e) (other : ¬ e.CleansPool k) :
      Discovered rt k s' fun vote => found vote ∨ Discovers rt k vote s s' e

section Runs

variable {k vote : Pubkey} {s s' : World} {e : Event} {p p' : StakePool} {l l' : ValidatorList}
  {found found' : Pubkey → Prop}

theorem Discovered.reachable (h : Discovered rt k s found) : Reachable rt s := by
  induction h with
  | start untouched => exact ⟨_, untouched, .refl⟩
  | cleaned _ step _ ih | later _ step _ ih =>
    obtain ⟨s₀, hs₀, hrun⟩ := ih
    exact ⟨s₀, hs₀, hrun.tail step.moves⟩

/-- Every reachable world is the end of such a run. -/
theorem Reachable.discovered (k : Pubkey) (h : Reachable rt s) : ∃ found, Discovered rt k s found := by
  obtain ⟨s₀, hs₀, hrun⟩ := h
  induction hrun with
  | refl => exact ⟨_, .start hs₀⟩
  | @tail b c _ hmove ih =>
    obtain ⟨found, hfound⟩ := ih
    have hstep : ∃ e, Happens rt b c e := by
      cases hmove with
      | call run sysvars => exact ⟨_, .call run sysvars⟩
      | elsewhere step => exact ⟨_, .elsewhere step⟩
    obtain ⟨e, hstep⟩ := hstep
    by_cases hcleans : e.CleansPool k
    · exact ⟨_, .cleaned hfound hstep hcleans⟩
    · exact ⟨_, .later hfound hstep hcleans⟩

/-- The invariant: a validator preferred for withdrawals is active or without validator stake, and a
preferred validator that is not active was found so. -/
structure PreferredSound (found : Pubkey → Prop) (p : StakePool) (l : ValidatorList) : Prop where
  withdraw : ∀ vote v, p.preferredWithdrawValidatorVoteAddress = some vote → l.find vote = some v →
    v.Preferable
  stale : ∀ vote, p.preferredDepositValidatorVoteAddress = some vote ∨
      p.preferredWithdrawValidatorVoteAddress = some vote →
    (∃ v, l.find vote = some v ∧ v.status = StakeStatus.active.toPod) ∨ found vote

theorem PreferredSound.of_none (h : p.preferredDepositValidatorVoteAddress = none ∧
    p.preferredWithdrawValidatorVoteAddress = none) : PreferredSound found p l := by
  obtain ⟨hdeposit, hwithdraw⟩ := h
  refine ⟨fun vote v hname _ => ?_, fun vote hname => ?_⟩
  · cases hwithdraw.symm.trans hname
  · rcases hname with hname | hname
    · cases hdeposit.symm.trans hname
    · cases hwithdraw.symm.trans hname

theorem PreferredStep.sound (hstep : PreferredStep found' p l p' l') (h : PreferredSound found p l)
    (hle : ∀ vote, found vote → found' vote) : PreferredSound found' p' l' := by
  -- A name that was there before: its entry was active, and is kept, or it was found.
  have hstale : ∀ vote, p.preferredDepositValidatorVoteAddress = some vote ∨
      p.preferredWithdrawValidatorVoteAddress = some vote → Keeps found' l l' vote →
      (∃ v, l'.find vote = some v ∧ v.status = StakeStatus.active.toPod) ∨ found' vote := by
    intro vote hname hkeeps
    rcases h.stale vote hname with ⟨v, hv, hactive⟩ | hfound
    · exact hkeeps.active v hv hactive
    · exact .inr (hle vote hfound)
  refine ⟨fun vote v' hname hv' => ?_, fun vote hname => ?_⟩
  · rcases hstep.withdraw vote hname with ⟨v, hv, hactive⟩ | ⟨hname', hkeeps⟩
    · rw [← Option.some.inj (hv.symm.trans hv')]
      exact .inl hactive
    · rcases hkeeps.after v' hv' with hactive | ⟨v, hv, hpreferable⟩
      · exact .inl hactive
      · exact hpreferable (h.withdraw vote v hname' hv)
  · rcases hname with hname | hname
    · rcases hstep.deposit vote hname with hactive | ⟨hname', hkeeps⟩
      · exact .inl hactive
      · exact hstale vote (.inl hname') hkeeps
    · rcases hstep.withdraw vote hname with hactive | ⟨hname', hkeeps⟩
      · exact .inl hactive
      · exact hstale vote (.inr hname') hkeeps

theorem keepPreferred_active {name : Option Pubkey} (h : keepPreferred l name = some vote) :
    ∃ v, l.find vote = some v ∧ v.status = StakeStatus.active.toPod := by
  obtain ⟨-, hfind⟩ := Option.filter_eq_some_iff.mp h
  cases hv : l.find vote with
  | none =>
    rw [hv] at hfind
    cases hfind
  | some v =>
    rw [hv] at hfind
    exact ⟨v, rfl, PodStakeStatus.toStatus?_eq_some.mp (beq_iff_eq.mp hfind)⟩

theorem StakePool.keepListed_active (p : StakePool) (l : ValidatorList)
    (hname : (p.keepListed l).preferredDepositValidatorVoteAddress = some vote ∨
      (p.keepListed l).preferredWithdrawValidatorVoteAddress = some vote) :
    ∃ v, l.find vote = some v ∧ v.status = StakeStatus.active.toPod := by
  rcases hname with hname | hname
  · exact keepPreferred_active hname
  · exact keepPreferred_active hname

/-- A cleanup that writes to the pool keeps the preferred validators that are listed. -/
theorem CleanupRun.writes {accounts : List AccountMeta} (sv : Sysvars) (laws : ProgramLaws rt)
    (r : CleanupRun rt accounts w w') (hwritable : r.pool.isWritable = true) :
    BookEffect rt sv accounts w w' r.pool.key r.p r.l (r.p.keepListed r.l.cleaned) r.l.cleaned := by
  have hresult := r.result
  rw [onlyIf, if_pos hwritable] at hresult
  exact .of_list_pool laws r.isPool r.isList (Frames.refl _ _) hresult rfl r.isPool.valid .cleanupPreferred

/-- After a cleanup that writes to the pool, the preferred validators are active. -/
theorem CleanupRun.preferred {accounts : List AccountMeta} {a : AccountMeta} (sv : Sysvars) (laws : ProgramLaws rt)
    (ha : accounts[0]? = some a) (hp : PoolAt rt w a.key p) (hl : ListAt rt w p.validatorList l)
    (hnodup : (l.validators.map (·.voteAccountAddress)).Nodup) (r : CleanupRun rt accounts w w') :
    ∃ p', PoolAt rt w' a.key p' ∧ ListAt rt w' p.validatorList l.cleaned ∧
      PreferredStep found p l p' l.cleaned ∧
      (a.isWritable = true → ∀ vote, p'.preferredDepositValidatorVoteAddress = some vote ∨
        p'.preferredWithdrawValidatorVoteAddress = some vote →
        ∃ v, l.cleaned.find vote = some v ∧ v.status = StakeStatus.active.toPod) := by
  obtain rfl := Option.some.inj (ha.symm.trans r.pool_at)
  obtain rfl := hp.unique r.isPool
  obtain rfl := hl.unique r.isList
  have hkept := fun vote => @StakePool.keepListed_active vote r.p r.l.cleaned
  by_cases hwritable : r.pool.isWritable = true
  · have he := r.writes sv laws hwritable
    exact ⟨_, he.own.after, he.list, ⟨fun x hx => .inl (hkept x (.inl hx)),
      fun x hx => .inl (hkept x (.inr hx))⟩, fun _ => hkept⟩
  · have hw := r.result
    rw [onlyIf, if_neg hwritable] at hw
    have he : BookEffect rt sv accounts w w' r.pool.key r.p r.l r.p r.l.cleaned :=
      .of_list laws hp hl (Frames.refl _ _) (Except.ok.inj hw).symm rfl .cleanup
    exact ⟨_, he.own.after, he.list, .of_keeps rfl rfl fun x => .cleaned hnodup,
      fun hwrites => absurd hwrites hwritable⟩

/-- The update of the list: what it finds, it finds in the stake accounts. -/
theorem UpdateListRun.preferred {accounts : List AccountMeta} {a : AccountMeta} {input : List UInt8}
    {startIndex : UInt32} {noMerge : Bool} (laws : ProgramLaws rt) (ha : accounts[0]? = some a)
    (hp : PoolAt rt s.ledger a.key p) (hl : ListAt rt s.ledger p.validatorList l)
    (hi : StakePoolInstruction.tryFromSlice input =
      .ok (.updateValidatorListBalance startIndex noMerge))
    (r : UpdateListRun rt s.sysvars accounts startIndex noMerge s.ledger s'.ledger) :
    ∃ p' l', PoolAt rt s'.ledger a.key p' ∧ ListAt rt s'.ledger p.validatorList l' ∧
      PreferredStep (fun vote => Discovers rt a.key vote s s' (.call accounts input)) p l p' l' := by
  have he := r.effect laws ha hp hl
  obtain rfl := Option.some.inj (ha.symm.trans r.pool_at)
  obtain rfl := hp.unique r.isPool
  obtain rfl := hl.unique (by rw [← r.list_key]; exact r.isList)
  refine ⟨_, _, he.own.after, he.list, .of_keeps rfl rfl fun vote => .of_revisited ?_⟩
  have hchunk := (refreshEntries_revisited r.refresh).imp fun _ _ hu => hu.mono
    fun vote hfinds => Discovers.intro r rfl hi hfinds
  -- The entries before the chunk are not visited.
  have hfront := List.forall₂_same.mpr fun v (_ : v ∈ r.l.validators.take startIndex.toNat) =>
    Revisited.refl (fun vote => Discovers rt r.pool.key vote s s' (.call accounts input)) v
  have hall : List.Forall₂ (Revisited fun vote =>
        Discovers rt r.pool.key vote s s' (.call accounts input))
      (r.l.validators.take startIndex.toNat ++ r.l.validators.drop startIndex.toNat)
      (r.l.validators.take startIndex.toNat ++ r.refreshed) := List.rel_append hfront hchunk
  rwa [List.take_append_drop] at hall

/-- What one event makes of the preferred validators of the pool at `k`. -/
theorem Happens.preferred (laws : ProgramLaws rt) (hs : Reachable rt s) (h : Happens rt s s' e)
    (hp : PoolAt rt s.ledger k p) (hl : ListAt rt s.ledger p.validatorList l) :
    ∃ p' l', PoolAt rt s'.ledger k p' ∧ ListAt rt s'.ledger p.validatorList l' ∧
      PreferredStep (fun vote => Discovers rt k vote s s' e) p l p' l' ∧
      (e.CleansPool k → ∀ vote, p'.preferredDepositValidatorVoteAddress = some vote ∨
        p'.preferredWithdrawValidatorVoteAddress = some vote →
        ∃ v, l'.find vote = some v ∧ v.status = StakeStatus.active.toPod) := by
  rcases h.on_pool laws (hs.registry laws) hp hl with
    ⟨accounts, input, a, i, rfl, ha, rfl, hi, hrun, -⟩ | ⟨hnot, hp', hl'⟩
  · have hcleans : ∀ {j}, i = j → j ≠ .cleanupRemovedValidatorEntries →
        ¬ (Event.call accounts input).CleansPool a.key := by
      rintro _ rfl hj hclean
      cases hclean with
      | intro _ _ _ hdecoded => exact hj (Except.ok.inj (hi.symm.trans hdecoded))
    by_cases hupdate : ∃ n noMerge, i = .updateValidatorListBalance n noMerge
    · obtain ⟨n, noMerge, rfl⟩ := hupdate
      obtain ⟨r⟩ := processUpdateValidatorListBalance_run rt _ |>.mp hrun
      obtain ⟨p', l', hp', hl', hstep⟩ := r.preferred laws ha hp hl hi
      exact ⟨p', l', hp', hl', hstep, fun hclean => absurd hclean (hcleans rfl (by simp))⟩
    by_cases hcleanup : i = .cleanupRemovedValidatorEntries
    · subst hcleanup
      obtain ⟨r⟩ := processCleanupRemovedValidatorEntries_run rt hrun
      have hnodup := (hs.listWellFormed laws hp hl).distinct
      obtain ⟨p', hp', hl', hstep, hactive⟩ := r.preferred s.sysvars laws ha hp hl hnodup
      refine ⟨p', _, hp', hl', hstep, fun hclean => hactive ?_⟩
      cases hclean with
      | intro hb _ hwritable _ => rwa [Option.some.inj (ha.symm.trans hb)]
    · obtain ⟨p', l', hp', hl', hstep⟩ := processInstruction_preferred laws ha hp hl
        (fun n noMerge heq => hupdate ⟨n, noMerge, heq⟩) hcleanup hrun
      exact ⟨p', l', hp', hl', hstep, fun hclean => absurd hclean (hcleans rfl hcleanup)⟩
  · refine ⟨p, l, hp', hl', .of_same rfl rfl, fun hclean => ?_⟩
    cases hclean with
    | intro hb hkey _ hdecoded =>
      exact absurd (.intro hb hkey hdecoded trivial) (hnot fun _ => True)

/-- A new pool prefers no validator. -/
theorem Happens.preferred_founded (laws : ProgramLaws rt) (hreg : Registry rt s.ledger)
    (h : Happens rt s s' e) (hnone : ∀ q, ¬ PoolAt rt s.ledger k q) (hp : PoolAt rt s'.ledger k p)
    (hl : ListAt rt s'.ledger p.validatorList l) : p.preferredDepositValidatorVoteAddress = none ∧
      p.preferredWithdrawValidatorVoteAddress = none := by
  cases h with
  | elsewhere step => exact absurd (step.ownFrame.poolAt_before hp id) (hnone p)
  | call run _ =>
    rcases (process_handled run).origin laws hreg hp hl with
      ⟨_, _, _, _, _, r, -, rfl, -⟩ | ⟨q, _, hq, -⟩
    · exact ⟨rfl, rfl⟩
    · exact absurd hq (hnone q)

theorem Happens.validatorList (laws : ProgramLaws rt) (hreg : Registry rt s.ledger)
    (h : Happens rt s s' e) (hp : PoolAt rt s.ledger k p) (hp' : PoolAt rt s'.ledger k p') :
    p'.validatorList = p.validatorList := by
  obtain ⟨l', hl'⟩ := (h.moves.registry laws hreg).hasList hp'
  cases h with
  | elsewhere step => rw [hp'.unique (step.poolAt hp)]
  | call run _ =>
    rcases (process_handled run).origin laws hreg hp' hl' with
      ⟨_, _, _, _, _, r, hkey, -⟩ | ⟨q, _, hq, -, hsame, -⟩
    · exact absurd hp (hkey ▸ r.not_pool)
    · rw [hp.unique hq, hsame]

/-- The names kept by `PreferredSound`, in every run. -/
theorem Discovered.sound (laws : ProgramLaws rt) (h : Discovered rt k s found)
    (hp : PoolAt rt s.ledger k p) (hl : ListAt rt s.ledger p.validatorList l) :
    PreferredSound found p l := by
  induction h generalizing p l with
  | start untouched =>
    have hdata := untouched k hp.owner
    rw [hp.data] at hdata
    cases hdata
  | @cleaned s s' e found before step cleans ih =>
    have hreg := before.reachable.registry laws
    by_cases hq : ∃ q, PoolAt rt s.ledger k q
    · obtain ⟨q, hq⟩ := hq
      obtain ⟨m, hm⟩ := hreg.hasList hq
      obtain ⟨p', l', hp', hl', -, hactive⟩ := step.preferred laws before.reachable hq hm
      obtain rfl := hp.unique hp'
      obtain rfl := hl.unique (step.validatorList laws hreg hq hp ▸ hl')
      refine ⟨fun vote v hname hv => .inl ?_, fun vote hname => .inl (hactive cleans vote hname)⟩
      obtain ⟨u, hu, hstatus⟩ := hactive cleans vote (.inr hname)
      rwa [Option.some.inj (hv.symm.trans hu)]
    · exact .of_none (step.preferred_founded laws hreg (not_exists.mp hq) hp hl)
  | @later s s' e found before step _ ih =>
    have hreg := before.reachable.registry laws
    by_cases hq : ∃ q, PoolAt rt s.ledger k q
    · obtain ⟨q, hq⟩ := hq
      obtain ⟨m, hm⟩ := hreg.hasList hq
      obtain ⟨p', l', hp', hl', hstep, -⟩ := step.preferred laws before.reachable hq hm
      obtain rfl := hp.unique hp'
      obtain rfl := hl.unique (step.validatorList laws hreg hq hp ▸ hl')
      exact (hstep.mono fun vote => .inr).sound (ih hq hm) fun vote => .inl
    · exact .of_none (step.preferred_founded laws hreg (not_exists.mp hq) hp hl)

/-- The rule for preferred validators turns a withdrawal away only in favour of a validator with
active stake to spare. -/
theorem checkPreferredWithdraw_fails {tolerance : Nat} (h : checkPreferredWithdraw p l tolerance vote ≠
    .ok ()) : ∃ preferred v, p.preferredWithdrawValidatorVoteAddress = some preferred ∧
      l.find preferred = some v ∧ v.activeStakeLamports ≠ 0 := by
  unfold checkPreferredWithdraw at h
  split at h
  · exact absurd rfl h
  · rename_i preferred hname
    split at h
    · exact absurd rfl h
    · rename_i v hv
      refine ⟨preferred, v, hname, hv, fun hzero => h (failIf_neg ?_)⟩
      rw [hzero, Nat.zero_sub]
      exact fun hspare => absurd hspare.2 (Nat.lt_irrefl 0)

/-- The validator preferred for withdrawals is active or has no validator stake, so the rule that
turns other withdrawals away only ever points to a validator that takes them.  A preferred validator
that is not in the list, or not active in it, was found with an initialized stake account by an update
since the last cleanup that could write to the pool; and after such a cleanup there is none. -/
theorem preferred_never_strands (laws : ProgramLaws rt) (hs : Reachable rt s)
    (hp : PoolAt rt s.ledger k p) (hl : ListAt rt s.ledger p.validatorList l) :
    (∀ vote v, p.preferredWithdrawValidatorVoteAddress = some vote → l.find vote = some v →
      v.status = StakeStatus.active.toPod ∨ v.activeStakeLamports = 0) ∧
    (∀ tolerance vote, checkPreferredWithdraw p l tolerance vote ≠ .ok () →
      ∃ preferred v, p.preferredWithdrawValidatorVoteAddress = some preferred ∧
        l.find preferred = some v ∧ v.status = StakeStatus.active.toPod) ∧
    (∀ found, Discovered rt k s found → ∀ vote,
      p.preferredDepositValidatorVoteAddress = some vote ∨
        p.preferredWithdrawValidatorVoteAddress = some vote →
      (∀ v, l.find vote = some v → v.status ≠ StakeStatus.active.toPod) → found vote) ∧
    (∀ e s' p' l', Happens rt s s' e → e.CleansPool k → PoolAt rt s'.ledger k p' →
      ListAt rt s'.ledger p'.validatorList l' → ∀ vote,
      p'.preferredDepositValidatorVoteAddress = some vote ∨
        p'.preferredWithdrawValidatorVoteAddress = some vote →
      ∃ v, l'.find vote = some v ∧ v.status = StakeStatus.active.toPod) := by
  obtain ⟨found, hfound⟩ := hs.discovered k
  have hwithdraw : ∀ vote v, p.preferredWithdrawValidatorVoteAddress = some vote →
      l.find vote = some v → v.status = StakeStatus.active.toPod ∨ v.activeStakeLamports = 0 := by
    intro vote v hname hv
    exact ((hfound.sound laws hp hl).withdraw vote v hname hv).imp_right fun hleft => hleft.2
  refine ⟨hwithdraw, fun tolerance vote hfails => ?_, fun found hfound vote hname hstale => ?_,
    fun e s' p' l' hstep hclean hp' hl' => ?_⟩
  · obtain ⟨preferred, v, hname, hv, hstake⟩ := checkPreferredWithdraw_fails hfails
    exact ⟨preferred, v, hname, hv, (hwithdraw preferred v hname hv).resolve_right hstake⟩
  · rcases (hfound.sound laws hp hl).stale vote hname with ⟨v, hv, hactive⟩ | hfound
    · exact absurd hactive (hstale v hv)
    · exact hfound
  · obtain ⟨p₁, l₁, hp₁, hl₁, -, hactive⟩ := hstep.preferred laws hs hp hl
    obtain rfl := hp'.unique hp₁
    obtain rfl := hl'.unique (hstep.validatorList laws (hs.registry laws) hp hp' ▸ hl₁)
    exact hactive hclean

end Runs

open Reference in
/-- The validator of the reference pool, preferred for withdrawals. -/
theorem preferred_never_strands_staked : ∃ s p l, Reachable runtime s ∧
    PoolAt runtime s.ledger pool p ∧ ListAt runtime s.ledger p.validatorList l ∧
    p.preferredWithdrawValidatorVoteAddress = some vote ∧
    ∀ v, l.find vote = some v → v.status = StakeStatus.active.toPod ∨ v.activeStakeLamports = 0 := by
  let accounts := [writes pool, signs staker, reads validatorList]
  let prefers := StakePoolInstruction.setPreferredValidator .withdraw (some vote)
  have hstep : Executes runtime accounts prefers staked (staked.execute runtime accounts prefers) :=
    .of_succeeded (by decide +kernel)
  have hs := staked_reachable.executes hstep ([5, 1, 1] ++ vote.toBytes) (by decide +kernel)
  obtain ⟨p, hp, hname⟩ : ∃ p, PoolAt runtime (staked.execute runtime accounts prefers).ledger pool p ∧
      p.preferredWithdrawValidatorVoteAddress = some vote := PoolAt.of_load _ (by decide +kernel)
  obtain ⟨l, hl⟩ := (hs.registry programLaws).hasList hp
  exact ⟨_, p, l, hs, hp, hl, hname,
    fun v => (preferred_never_strands programLaws hs hp hl).1 vote v hname⟩

end StakePoolFogo
