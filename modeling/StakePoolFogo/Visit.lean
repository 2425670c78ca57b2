import StakePoolFogo.Calls
import StakePoolFogo.Processor.Update

/-!
# A visit is local

One turn of the update loop looks at an entry and its two stake accounts, and feeds lamports into the
reserve.  `visit` says what it makes of the three; a successful turn on the ledger is exactly that.
-/

open StakePoolFogo.Outcome

namespace StakePoolFogo

/-- An entry with its validator and transient stake accounts. -/
structure Cell where
  entry : ValidatorStakeInfo
  validator : Account
  transient : Account

section Visit

variable (rt : Runtime) (sv : Sysvars) (c : UpdateContext)

/-- What the transient half of a visit leaves: status, recorded lamports, the two accounts, and what
went to the reserve. -/
structure TransientVisit where
  status : PodStakeStatus
  lamports : Nat
  validator : Account
  transient : Account
  toReserve : Nat

/-- Count the transient stake where it is. -/
def Cell.countTransient (x : Cell) : TransientVisit :=
  ⟨x.entry.status, x.transient.lamports, x.validator, x.transient, 0⟩

/-- Leave the transient stake out of the books. -/
def Cell.skipTransient (x : Cell) : TransientVisit :=
  ⟨x.entry.status, 0, x.validator, x.transient, 0⟩

/-- Move the transient stake to the reserve. -/
def Cell.absorbTransient (x : Cell) : Except ProgramError TransientVisit := do
  let status ← x.entry.status.removeTransientStake
  return ⟨status, 0, x.validator, x.transient.drained, x.transient.lamports⟩

/-- Move the transient stake to the validator's, if both are active. -/
def Cell.joinTransient (x : Cell) (stake : Stake) : Except ProgramError TransientVisit :=
  match x.validator.tryStakeState.toOption with
  | some (.stake _ validatorStake) =>
    if stake.delegation.activationEpoch < sv.epoch ∧
        validatorStake.delegation.activationEpoch < sv.epoch then do
      let r ← rt.stake.merge sv c.authority.key x.validator x.transient
      return ⟨x.entry.status, 0, r.1, x.transient.drained, 0⟩
    else .ok x.countTransient
  | _ => .ok x.countTransient

/-- Deactivate the transient stake of a leaving validator, if that has not happened yet. -/
def Cell.stopTransient (x : Cell) (stake : Stake) : Except ProgramError TransientVisit :=
  if stake.delegation.deactivationEpoch = epochMax then do
    let transient ← rt.stake.deactivate sv c.authority.key x.transient
    return ⟨x.entry.status, x.transient.lamports, x.validator, transient, 0⟩
  else .ok x.countTransient

def visitTransient (x : Cell) : Except ProgramError TransientVisit :=
  if x.entry.transientStakeLamports = 0 then .ok x.skipTransient
  else match x.transient.tryStakeState.toOption with
    | some (.initialized info) =>
      if c.usable info then
        if c.noMerge then .ok x.countTransient else x.absorbTransient
      else .ok x.skipTransient
    | some (.stake info stake) =>
      if c.usable info then
        if c.noMerge then .ok x.countTransient
        else if stakeIsInactiveWithoutHistory stake sv.epoch then x.absorbTransient
        else if x.entry.status.toStatus? = some .active then x.joinTransient rt sv c stake
        else x.stopTransient rt sv c stake
      else .ok x.skipTransient
    | _ => .ok x.skipTransient

/-- A stake account without its excess lamports. -/
def Account.swept (a : Account) (info : StakeMeta) (stake : Stake) : Account :=
  if additionalLamports info stake a.lamports > 0 then
    a.debited (additionalLamports info stake a.lamports)
  else a

/-- What the validator half of a visit leaves. -/
structure ValidatorVisit where
  status : PodStakeStatus
  lamports : Nat
  validator : Account
  toReserve : Nat

/-- Count the validator stake, or move it to the reserve once the validator has left; `excess` is
what was taken from it before. -/
def settleAccount (status : PodStakeStatus) (stake : Stake) (a : Account) (excess : Nat) :
    Except ProgramError ValidatorVisit := do
  match ← status.tryInto with
  | .active => return ⟨status, a.lamports, a, excess⟩
  | .deactivatingValidator | .deactivatingAll =>
    if c.noMerge = true ∨ ¬ stakeIsInactiveWithoutHistory stake sv.epoch then
      return ⟨status, a.lamports, a, excess⟩
    else do
      let status ← status.removeValidatorStake
      return ⟨status, 0, a.drained, excess + a.lamports⟩
  | .deactivatingTransient | .readyForRemoval => return ⟨status, 0, a, excess⟩

def visitValidator (status : PodStakeStatus) (transientLamports : Nat) (a : Account) :
    Except ProgramError ValidatorVisit :=
  match a.tryStakeState.toOption with
  | some (.stake info stake) =>
    if c.usable info then
      settleAccount sv c status stake (a.swept info stake) (additionalLamports info stake a.lamports)
    else .ok ⟨status, 0, a, 0⟩
  | some (.initialized info) =>
    if c.usable info then
      .ok ⟨(if transientLamports ≠ 0 then StakeStatus.deactivatingTransient
        else .readyForRemoval).toPod, 0, a.drained, a.lamports⟩
    else .ok ⟨status, 0, a, 0⟩
  | _ => .ok ⟨status, 0, a, 0⟩

/-- A whole visit: the cell afterwards and the lamports that went to the reserve. -/
def visit (x : Cell) : Except ProgramError (Cell × Nat) := do
  let t ← visitTransient rt sv c x
  let v ← visitValidator sv c t.status t.lamports t.validator
  return ({
    entry := { x.entry with
      status := v.status
      lastUpdateEpoch := sv.epoch
      activeStakeLamports := v.lamports
      transientStakeLamports := t.lamports }
    validator := v.validator
    transient := t.transient }, t.toReserve + v.toReserve)

end Visit

/-! ## The loop body is a visit -/

variable {rt : Runtime} {sv : Sysvars} {c : UpdateContext} {w w' : Ledger}

/-- The accounts of a visit: two stake accounts and an undelegated reserve, all distinct. -/
structure VisitReady (c : UpdateContext) (validatorKey transientKey : Pubkey) (w : Ledger) : Prop where
  reserve : ∃ info, (w c.reserve).data = .stake (.initialized info)
  apart : validatorKey ≠ transientKey
  validator_ne : validatorKey ≠ c.reserve
  transient_ne : transientKey ≠ c.reserve

namespace UpdateContext

/-- Moving an account into the reserve. -/
theorem merge_reserve (laws : StakeLaws rt) {k : Pubkey} {info : StakeMeta}
    (h : c.merge rt sv k c.reserve w = .ok w')
    (hreserve : (w c.reserve).data = .stake (.initialized info)) :
    w' k = (w k).drained ∧ w' c.reserve = (w c.reserve).credited (w k).lamports ∧
      OnlyAt [k, c.reserve] w w' := by
  obtain ⟨-, honly, hmerge⟩ := stakeMerge_spec h
  obtain ⟨hdest, hsource⟩ := laws.merge_initialized hmerge hreserve
  exact ⟨hsource, hdest, honly.mono (by simp)⟩

end UpdateContext

/-- What a step of a visit did, seen from the ledger. -/
structure Feeds (c : UpdateContext) (validatorKey transientKey : Pubkey) (w w' : Ledger)
    (toReserve : Nat) : Prop where
  reserve : w' c.reserve = (w c.reserve).credited toReserve
  others : OnlyAt [validatorKey, transientKey, c.reserve] w w'

section Local

variable {v : ValidatorStakeInfo} {validatorKey transientKey : Pubkey} {status : PodStakeStatus}
  {lamports : Nat}

theorem Feeds.refl (w : Ledger) : Feeds c validatorKey transientKey w w 0 := ⟨rfl, .refl _ _⟩

theorem Feeds.trans {w'' : Ledger} {m n : Nat} (h : Feeds c validatorKey transientKey w w' m)
    (h' : Feeds c validatorKey transientKey w' w'' n) :
    Feeds c validatorKey transientKey w w'' (m + n) :=
  ⟨by rw [h'.reserve, h.reserve, Account.credited_credited], h.others.trans h'.others⟩

theorem VisitReady.after {n : Nat} (hr : VisitReady c validatorKey transientKey w)
    (h : Feeds c validatorKey transientKey w w' n) : VisitReady c validatorKey transientKey w' := by
  obtain ⟨info, hinfo⟩ := hr.reserve
  exact ⟨⟨info, by rw [h.reserve]; exact hinfo⟩, hr.apart, hr.validator_ne, hr.transient_ne⟩

theorem absorbTransient_local (laws : StakeLaws rt) (hr : VisitReady c validatorKey transientKey w)
    (hmerge : c.merge rt sv transientKey c.reserve w = .ok w')
    (hstatus : v.status.removeTransientStake = .ok status) :
    Cell.absorbTransient ⟨v, w validatorKey, w transientKey⟩ = .ok ⟨status, 0, w' validatorKey,
      w' transientKey, (w transientKey).lamports⟩ ∧
    Feeds c validatorKey transientKey w w' (w transientKey).lamports := by
  obtain ⟨info, hinfo⟩ := hr.reserve
  obtain ⟨hdrained, hcredited, honly⟩ := UpdateContext.merge_reserve laws hmerge hinfo
  have hvalidator := honly validatorKey (by simp [hr.apart, hr.validator_ne])
  refine ⟨?_, hcredited, honly.mono (by simp)⟩
  simp only [Cell.absorbTransient, bind_eq_ok, pure_eq_ok]
  exact ⟨status, hstatus, by rw [hvalidator, hdrained]⟩

theorem joinTransient_local (laws : StakeLaws rt) (hr : VisitReady c validatorKey transientKey w)
    {stake : Stake} (h : mergeActiveTransient rt sv c (w validatorKey).tryStakeState.toOption stake
      validatorKey transientKey w = .ok w') :
    Cell.joinTransient rt sv c ⟨v, w validatorKey, w transientKey⟩ stake = .ok ⟨v.status,
      (w' transientKey).lamports, w' validatorKey, w' transientKey, 0⟩ ∧
    Feeds c validatorKey transientKey w w' 0 := by
  unfold mergeActiveTransient at h
  unfold Cell.joinTransient
  dsimp only
  cases hstate : (w validatorKey).tryStakeState.toOption with
  | none =>
    rw [hstate] at h
    cases h
    exact ⟨rfl, .refl _⟩
  | some state =>
    rw [hstate] at h
    cases state with
    | stake info validatorStake =>
      dsimp only at h ⊢
      rcases onlyIf_eq_ok.mp h with ⟨hactive, h⟩ | ⟨hactive, rfl⟩
      · obtain ⟨hne, honly, hmerge⟩ := stakeMerge_spec h
        obtain ⟨_, _, _, -, -, -, -, -, -, -, -, -, -, hsource⟩ := laws.merge _ _ _ _ _ _ hmerge
        have hreserve := honly c.reserve (by simp [hr.validator_ne.symm, hr.transient_ne.symm])
        rw [if_pos hactive]
        refine ⟨?_, hreserve, honly.mono (by simp)⟩
        simp only [bind_eq_ok, pure_eq_ok]
        refine ⟨_, hmerge, ?_⟩
        rw [hsource]
        rfl
      · rw [if_neg hactive]
        exact ⟨rfl, .refl _⟩
    | uninitialized =>
      cases h
      exact ⟨rfl, .refl _⟩
    | initialized _ =>
      cases h
      exact ⟨rfl, .refl _⟩
    | rewardsPool =>
      cases h
      exact ⟨rfl, .refl _⟩

theorem stopTransient_local (laws : StakeLaws rt) (hr : VisitReady c validatorKey transientKey w)
    {stake : Stake} (h : onlyIf (stake.delegation.deactivationEpoch = epochMax)
      (stakeDeactivate rt sv transientKey c.clock c.authority c.pool
        c.stakePool.stakeWithdrawBumpSeed) w = .ok w') :
    Cell.stopTransient rt sv c ⟨v, w validatorKey, w transientKey⟩ stake = .ok ⟨v.status,
      (w' transientKey).lamports, w' validatorKey, w' transientKey, 0⟩ ∧
    Feeds c validatorKey transientKey w w' 0 := by
  unfold Cell.stopTransient
  rcases onlyIf_eq_ok.mp h with ⟨hmax, h⟩ | ⟨hmax, rfl⟩
  · obtain ⟨honly, hdeactivate⟩ := stakeDeactivate_spec h
    obtain ⟨_, _, _, -, -, hlamports, -⟩ := laws.deactivate _ _ _ _ hdeactivate
    have hvalidator := honly validatorKey (by simp [hr.apart])
    have hreserve := honly c.reserve (by simp [hr.transient_ne.symm])
    rw [if_pos hmax]
    refine ⟨?_, hreserve, honly.mono (by simp)⟩
    simp only [bind_eq_ok, pure_eq_ok]
    exact ⟨_, hdeactivate, by rw [hvalidator, hlamports]⟩
  · rw [if_neg hmax]
    exact ⟨rfl, .refl _⟩

theorem settleTransient_local (laws : StakeLaws rt) (hr : VisitReady c validatorKey transientKey w)
    {stake : Stake} (h : settleTransient rt sv c v.status (w validatorKey).tryStakeState.toOption stake
      validatorKey transientKey w = .ok (status, w')) :
    ∃ n, (if stakeIsInactiveWithoutHistory stake sv.epoch then
        Cell.absorbTransient ⟨v, w validatorKey, w transientKey⟩
      else if v.status.toStatus? = some .active then
        Cell.joinTransient rt sv c ⟨v, w validatorKey, w transientKey⟩ stake
      else Cell.stopTransient rt sv c ⟨v, w validatorKey, w transientKey⟩ stake) =
        .ok ⟨status, (w' transientKey).lamports, w' validatorKey, w' transientKey, n⟩ ∧
      Feeds c validatorKey transientKey w w' n := by
  unfold settleTransient at h
  split at h
  · rename_i hinactive
    simp only [bind_eq_ok, pure_eq_ok, Prod.mk.injEq] at h
    obtain ⟨_, hmerge, _, hstatus, rfl, rfl⟩ := h
    obtain ⟨hlocal, hfeeds⟩ := absorbTransient_local laws hr hmerge hstatus
    obtain ⟨info, hinfo⟩ := hr.reserve
    obtain ⟨hdrained, -⟩ := UpdateContext.merge_reserve laws hmerge hinfo
    refine ⟨_, ?_, hfeeds⟩
    rw [if_pos hinactive, hlocal, hdrained]
    rfl
  · rename_i hinactive
    split at h
    · rename_i hactive
      simp only [bind_eq_ok, pure_eq_ok, Prod.mk.injEq] at h
      obtain ⟨_, hjoin, rfl, rfl⟩ := h
      obtain ⟨hlocal, hfeeds⟩ := joinTransient_local (v := v) laws hr hjoin
      exact ⟨0, by rw [if_neg hinactive, if_pos hactive, hlocal], hfeeds⟩
    · rename_i hactive
      simp only [bind_eq_ok, pure_eq_ok, Prod.mk.injEq] at h
      obtain ⟨_, hstop, rfl, rfl⟩ := h
      obtain ⟨hlocal, hfeeds⟩ := stopTransient_local (v := v) laws hr hstop
      exact ⟨0, by rw [if_neg hinactive, if_neg hactive, hlocal], hfeeds⟩

theorem refreshTransient_local (laws : StakeLaws rt) (hr : VisitReady c validatorKey transientKey w)
    (h : refreshTransient rt sv c v validatorKey transientKey w = .ok (status, lamports, w')) :
    ∃ n, visitTransient rt sv c ⟨v, w validatorKey, w transientKey⟩ = .ok ⟨status, lamports,
      w' validatorKey, w' transientKey, n⟩ ∧ Feeds c validatorKey transientKey w w' n := by
  unfold refreshTransient at h
  unfold visitTransient
  dsimp only at h ⊢
  split at h
  · rename_i hnone
    cases h
    exact ⟨0, by rw [if_pos hnone]; rfl, .refl _⟩
  rename_i hnone
  rw [if_neg hnone]
  cases hstate : (w transientKey).tryStakeState.toOption with
  | none =>
    rw [hstate] at h
    cases h
    exact ⟨0, rfl, .refl _⟩
  | some state =>
    rw [hstate] at h
    cases state with
    | initialized info =>
      dsimp only at h ⊢
      by_cases husable : c.usable info
      · rw [if_pos husable] at h ⊢
        by_cases hmode : c.noMerge = true
        · rw [if_pos hmode] at h ⊢
          cases h
          exact ⟨0, rfl, .refl _⟩
        · rw [if_neg hmode] at h ⊢
          simp only [bind_eq_ok, pure_eq_ok, Prod.mk.injEq] at h
          obtain ⟨_, hmerge, _, hstatus, rfl, rfl, rfl⟩ := h
          exact ⟨_, absorbTransient_local laws hr hmerge hstatus⟩
      · rw [if_neg husable] at h ⊢
        cases h
        exact ⟨0, rfl, .refl _⟩
    | stake info stake =>
      dsimp only at h ⊢
      by_cases husable : c.usable info
      · rw [if_pos husable] at h ⊢
        by_cases hmode : c.noMerge = true
        · rw [if_pos hmode] at h ⊢
          cases h
          exact ⟨0, rfl, .refl _⟩
        · rw [if_neg hmode] at h ⊢
          simp only [bind_eq_ok, pure_eq_ok, Prod.mk.injEq] at h
          obtain ⟨⟨_, _⟩, hsettle, rfl, rfl, rfl⟩ := h
          exact settleTransient_local laws hr hsettle
      · rw [if_neg husable] at h ⊢
        cases h
        exact ⟨0, rfl, .refl _⟩
    | uninitialized =>
      cases h
      exact ⟨0, rfl, .refl _⟩
    | rewardsPool =>
      cases h
      exact ⟨0, rfl, .refl _⟩

theorem settleValidator_local (laws : StakeLaws rt) (hr : VisitReady c validatorKey transientKey w)
    {stake : Stake} {before : PodStakeStatus} (excess : Nat)
    (h : settleValidator rt sv c before stake validatorKey w = .ok (status, lamports, w')) :
    ∃ n, settleAccount sv c before stake (w validatorKey) excess =
        .ok ⟨status, lamports, w' validatorKey, excess + n⟩ ∧
      Feeds c validatorKey transientKey w w' n ∧ w' transientKey = w transientKey := by
  simp only [settleValidator, bind_eq_ok] at h
  obtain ⟨s, hs, h⟩ := h
  have hstay : (status, lamports, w') = (before, (w validatorKey).lamports, w) →
      ∃ n, (.ok ⟨before, (w validatorKey).lamports, w validatorKey, excess⟩ :
        Except ProgramError ValidatorVisit) = .ok ⟨status, lamports, w' validatorKey, excess + n⟩ ∧
        Feeds c validatorKey transientKey w w' n ∧ w' transientKey = w transientKey := by
    intro heq
    cases heq
    exact ⟨0, rfl, .refl _, rfl⟩
  simp only [settleAccount, hs, bind, Except.bind]
  cases s with
  | active => exact hstay (Except.ok.inj h).symm
  | deactivatingTransient =>
    cases h
    exact ⟨0, rfl, .refl _, rfl⟩
  | readyForRemoval =>
    cases h
    exact ⟨0, rfl, .refl _, rfl⟩
  | deactivatingValidator | deactivatingAll =>
    dsimp only at h ⊢
    split at h
    · rename_i hcount
      rw [if_pos hcount]
      exact hstay (Except.ok.inj h).symm
    · rename_i hcount
      rw [if_neg hcount]
      simp only [bind_eq_ok, pure_eq_ok, Prod.mk.injEq] at h
      obtain ⟨_, hmerge, status', hstatus, rfl, rfl, rfl⟩ := h
      obtain ⟨info, hinfo⟩ := hr.reserve
      obtain ⟨hdrained, hcredited, honly⟩ := UpdateContext.merge_reserve laws hmerge hinfo
      refine ⟨(w validatorKey).lamports, ?_, ⟨hcredited, honly.mono (by simp)⟩,
        honly _ (by simp [hr.apart.symm, hr.transient_ne])⟩
      rw [hstatus, hdrained]
      rfl

/-- Taking the excess out of the validator stake. -/
theorem sweep_local (laws : StakeLaws rt) (hr : VisitReady c validatorKey transientKey w)
    {info : StakeMeta} {stake : Stake} {excess : Nat}
    (hstate : (w validatorKey).data = .stake (.stake info stake))
    (h : onlyIf (excess > 0) (stakeWithdraw rt sv c.pool validatorKey c.authority
      c.stakePool.stakeWithdrawBumpSeed c.reserve c.clock c.history excess) w = .ok w') :
    w' validatorKey = (if excess > 0 then (w validatorKey).debited excess else w validatorKey) ∧
      Feeds c validatorKey transientKey w w' excess ∧ w' transientKey = w transientKey := by
  rcases onlyIf_eq_ok.mp h with ⟨hpos, h⟩ | ⟨hpos, rfl⟩
  · obtain ⟨honly, hwithdraw⟩ := stakeWithdraw_spec h hr.validator_ne
    obtain ⟨hdebited, hcredited, -⟩ := laws.withdraw_debited hwithdraw hstate rfl
    rw [if_pos hpos]
    exact ⟨hdebited, ⟨hcredited, honly.mono (by simp)⟩,
      honly _ (by simp [hr.apart.symm, hr.transient_ne])⟩
  · rw [if_neg hpos]
    obtain rfl : excess = 0 := by omega
    exact ⟨rfl, .refl _, rfl⟩

theorem stakeState_data {a : Account} {s : StakeStateV2} {info : StakeMeta}
    (h : a.tryStakeState.toOption = some s) (hinfo : s.meta? = some info) : a.data = .stake s := by
  unfold Account.tryStakeState at h
  split at h
  · rename_i s hs
    rw [hs, Option.some.inj h]
  · split at h
    · cases h
      cases hinfo
    · cases h
  · cases h

theorem stakeState_of_data {a : Account} {s : StakeStateV2} (h : a.data = .stake s) :
    a.tryStakeState.toOption = some s := by
  rw [Account.tryStakeState, h]
  rfl

theorem refreshValidator_local (laws : StakeLaws rt) (hr : VisitReady c validatorKey transientKey w)
    {before : PodStakeStatus} {transientLamports : Nat}
    (h : refreshValidator rt sv c before transientLamports validatorKey w =
      .ok (status, lamports, w')) :
    ∃ n, visitValidator sv c before transientLamports (w validatorKey) =
        .ok ⟨status, lamports, w' validatorKey, n⟩ ∧
      Feeds c validatorKey transientKey w w' n ∧ w' transientKey = w transientKey := by
  have hstay : (Except.ok (before, 0, w) : Except ProgramError _) = .ok (status, lamports, w') →
      ∃ n, (.ok ⟨before, 0, w validatorKey, 0⟩ : Except ProgramError ValidatorVisit) =
        .ok ⟨status, lamports, w' validatorKey, n⟩ ∧
        Feeds c validatorKey transientKey w w' n ∧ w' transientKey = w transientKey := by
    intro heq
    cases heq
    exact ⟨0, rfl, .refl _, rfl⟩
  unfold refreshValidator at h
  unfold visitValidator
  dsimp only at h ⊢
  cases hstate : (w validatorKey).tryStakeState.toOption with
  | none =>
    rw [hstate] at h
    exact hstay h
  | some state =>
    rw [hstate] at h
    cases state with
    | initialized info =>
      dsimp only at h ⊢
      by_cases husable : c.usable info
      · rw [if_pos husable] at h ⊢
        simp only [bind_eq_ok, pure_eq_ok, Prod.mk.injEq] at h
        obtain ⟨_, hmerge, rfl, rfl, rfl⟩ := h
        obtain ⟨info, hinfo⟩ := hr.reserve
        obtain ⟨hdrained, hcredited, honly⟩ := UpdateContext.merge_reserve laws hmerge hinfo
        exact ⟨(w validatorKey).lamports, by rw [hdrained], ⟨hcredited, honly.mono (by simp)⟩,
          honly _ (by simp [hr.apart.symm, hr.transient_ne])⟩
      · rw [if_neg husable] at h ⊢
        exact hstay h
    | stake info stake =>
      dsimp only at h ⊢
      by_cases husable : c.usable info
      · rw [if_pos husable] at h ⊢
        simp only [bind_eq_ok] at h
        obtain ⟨w₁, hsweep, hsettle⟩ := h
        obtain ⟨hvalidator, hfeeds, htransient⟩ :=
          sweep_local laws hr (stakeState_data hstate rfl) hsweep
        obtain ⟨n, hlocal, hfeeds', htransient'⟩ :=
          settleValidator_local laws (hr.after hfeeds)
            (additionalLamports info stake (w validatorKey).lamports) hsettle
        rw [hvalidator] at hlocal
        exact ⟨_, hlocal, hfeeds.trans hfeeds', htransient'.trans htransient⟩
      · rw [if_neg husable] at h ⊢
        exact hstay h
    | uninitialized => exact hstay h
    | rewardsPool => exact hstay h

/-- A turn of the loop on an entry with its own accounts is a visit. -/
theorem refreshEntry_local (laws : StakeLaws rt) (hr : VisitReady c validatorKey transientKey w)
    {v' : ValidatorStakeInfo} (hown : ownAccounts rt c.pool v validatorKey transientKey)
    (h : refreshEntry rt sv c v validatorKey transientKey w = .ok (v', w')) :
    ∃ n, visit rt sv c ⟨v, w validatorKey, w transientKey⟩ =
        .ok (⟨v', w' validatorKey, w' transientKey⟩, n) ∧
      Feeds c validatorKey transientKey w w' n := by
  simp only [refreshEntry, if_pos hown, bind_eq_ok, Prod.exists, pure_eq_ok, Prod.mk.injEq] at h
  obtain ⟨status, lamports, w₁, htransient, status', lamports', w₂, hvalidator, rfl, rfl⟩ := h
  obtain ⟨m, hlocal, hfeeds⟩ := refreshTransient_local laws hr htransient
  obtain ⟨n, hlocal', hfeeds', hkept⟩ := refreshValidator_local laws (hr.after hfeeds) hvalidator
  refine ⟨m + n, ?_, hfeeds.trans hfeeds'⟩
  simp only [visit, bind_eq_ok, pure_eq_ok, Prod.mk.injEq]
  exact ⟨_, hlocal, _, hlocal', by rw [hkept], rfl⟩

/-- An entry paired with other accounts is passed over. -/
theorem refreshEntry_skip {v' : ValidatorStakeInfo}
    (hown : ¬ ownAccounts rt c.pool v validatorKey transientKey)
    (h : refreshEntry rt sv c v validatorKey transientKey w = .ok (v', w')) : v' = v ∧ w' = w := by
  simp only [refreshEntry, if_neg hown, Except.ok.injEq, Prod.mk.injEq] at h
  exact ⟨h.1.symm, h.2.symm⟩

end Local

/-! ## What a visit can do -/

/-- The account is a stake account the pool can use. -/
def UpdateContext.Usable (c : UpdateContext) (a : Account) : Prop :=
  ∃ state info, a.tryStakeState.toOption = some state ∧ state.meta? = some info ∧ c.usable info

theorem UpdateContext.usable_iff {a : Account} {state : StakeStateV2} {info : StakeMeta}
    (hstate : a.tryStakeState.toOption = some state) (hmeta : state.meta? = some info) :
    c.Usable a ↔ c.usable info := by
  constructor
  · rintro ⟨state', info', hstate', hmeta', husable⟩
    obtain rfl := Option.some.inj (hstate.symm.trans hstate')
    obtain rfl := Option.some.inj (hmeta.symm.trans hmeta')
    exact husable
  · exact fun husable => ⟨state, info, hstate, hmeta, husable⟩

/-- Are both stakes active, so that one can be merged into the other? -/
def joinable (sv : Sysvars) (validator : Account) (stake : Stake) : Prop :=
  ∃ info validatorStake, validator.tryStakeState.toOption = some (.stake info validatorStake) ∧
    stake.delegation.activationEpoch < sv.epoch ∧ validatorStake.delegation.activationEpoch < sv.epoch

/-- The transient half of a visit, case by case. -/
inductive TransientCases (rt : Runtime) (sv : Sysvars) (c : UpdateContext) (x : Cell) :
    TransientVisit → Prop where
  | nothing (zero : x.entry.transientStakeLamports = 0) : TransientCases rt sv c x x.skipTransient
  | foreign (pos : x.entry.transientStakeLamports ≠ 0) (unusable : ¬ c.Usable x.transient) :
      TransientCases rt sv c x x.skipTransient
  | counted (pos : x.entry.transientStakeLamports ≠ 0) (usable : c.Usable x.transient)
      (mode : c.noMerge = true) : TransientCases rt sv c x x.countTransient
  | absorbed (pos : x.entry.transientStakeLamports ≠ 0) (usable : c.Usable x.transient)
      (mode : c.noMerge = false) {status : PodStakeStatus}
      (removed : x.entry.status.removeTransientStake = .ok status) :
      TransientCases rt sv c x
        ⟨status, 0, x.validator, x.transient.drained, x.transient.lamports⟩
  | joined (pos : x.entry.transientStakeLamports ≠ 0) (usable : c.Usable x.transient)
      (mode : c.noMerge = false) {info : StakeMeta} {stake : Stake} {merged drained : Account}
      (active : x.entry.status = StakeStatus.active.toPod)
      (validator : x.validator.data = .stake (.stake info stake))
      (merge : rt.stake.merge sv c.authority.key x.validator x.transient = .ok (merged, drained)) :
      TransientCases rt sv c x ⟨x.entry.status, 0, merged, x.transient.drained, 0⟩
  | waiting (pos : x.entry.transientStakeLamports ≠ 0) (usable : c.Usable x.transient)
      (mode : c.noMerge = false) {info : StakeMeta} {stake : Stake}
      (transient : x.transient.data = .stake (.stake info stake))
      (moving : ¬ stakeIsInactiveWithoutHistory stake sv.epoch)
      (wait : x.entry.status = StakeStatus.active.toPod ∧ ¬ joinable sv x.validator stake ∨
        x.entry.status ≠ StakeStatus.active.toPod ∧ stake.delegation.deactivationEpoch ≠ epochMax) :
      TransientCases rt sv c x x.countTransient
  | stopped (pos : x.entry.transientStakeLamports ≠ 0) (usable : c.Usable x.transient)
      (mode : c.noMerge = false) {info : StakeMeta} {stake : Stake} {transient : Account}
      (before : x.transient.data = .stake (.stake info stake))
      (leaving : x.entry.status ≠ StakeStatus.active.toPod)
      (delegated : stake.delegation.deactivationEpoch = epochMax)
      (deactivate : rt.stake.deactivate sv c.authority.key x.transient = .ok transient) :
      TransientCases rt sv c x ⟨x.entry.status, x.transient.lamports, x.validator, transient, 0⟩

theorem visitTransient_cases {x : Cell} {t : TransientVisit} (h : visitTransient rt sv c x = .ok t) :
    TransientCases rt sv c x t := by
  unfold visitTransient at h
  split at h
  · rename_i hzero
    cases h
    exact .nothing hzero
  rename_i hpos
  split at h
  · -- Initialized: absorbed at once where the pool may use it.
    rename_i info hstate
    split at h
    · rename_i husable
      have husable' := (UpdateContext.usable_iff hstate rfl).mpr husable
      split at h
      · rename_i hmode
        cases h
        exact .counted hpos husable' hmode
      · rename_i hmode
        simp only [Cell.absorbTransient, bind_eq_ok, pure_eq_ok] at h
        obtain ⟨status, hstatus, rfl⟩ := h
        exact .absorbed hpos husable' (Bool.eq_false_iff.mpr hmode) hstatus
    · rename_i husable
      cases h
      exact .foreign hpos fun hu => husable ((UpdateContext.usable_iff hstate rfl).mp hu)
  · -- Delegated: what happens depends on the activation of the stake.
    rename_i info stake hstate
    split at h
    · rename_i husable
      have husable' := (UpdateContext.usable_iff hstate rfl).mpr husable
      have hdata := stakeState_data hstate rfl
      split at h
      · rename_i hmode
        cases h
        exact .counted hpos husable' hmode
      rename_i hmode
      have hmode' := Bool.eq_false_iff.mpr hmode
      split at h
      · simp only [Cell.absorbTransient, bind_eq_ok, pure_eq_ok] at h
        obtain ⟨status, hstatus, rfl⟩ := h
        exact .absorbed hpos husable' hmode' hstatus
      rename_i hmoving
      split at h
      · -- Active with its entry: it joins the validator stake, which must be active too.
        rename_i hactive
        have hactive' := PodStakeStatus.toStatus?_eq_some.mp hactive
        unfold Cell.joinTransient at h
        split at h
        · rename_i info' validatorStake hvalidator
          split at h
          · simp only [bind_eq_ok, pure_eq_ok] at h
            obtain ⟨⟨merged, drained⟩, hmerge, rfl⟩ := h
            exact .joined hpos husable' hmode' hactive' (stakeState_data hvalidator rfl) hmerge
          · rename_i hjoin
            cases h
            refine .waiting hpos husable' hmode' hdata hmoving (.inl ⟨hactive', ?_⟩)
            rintro ⟨_, _, hvalidator', hboth⟩
            cases Option.some.inj (hvalidator.symm.trans hvalidator')
            exact hjoin hboth
        · rename_i hnot
          cases h
          refine .waiting hpos husable' hmode' hdata hmoving (.inl ⟨hactive', ?_⟩)
          rintro ⟨_, _, hvalidator, -⟩
          exact hnot _ _ hvalidator
      · -- The entry is leaving, so the stake is deactivated unless it is already.
        rename_i hactive
        have hleaving : x.entry.status ≠ StakeStatus.active.toPod := fun heq =>
          hactive (PodStakeStatus.toStatus?_eq_some.mpr heq)
        unfold Cell.stopTransient at h
        split at h
        · rename_i hmax
          simp only [bind_eq_ok, pure_eq_ok] at h
          obtain ⟨_, hdeactivate, rfl⟩ := h
          exact .stopped hpos husable' hmode' hdata hleaving hmax hdeactivate
        · rename_i hmax
          cases h
          exact .waiting hpos husable' hmode' hdata hmoving (.inr ⟨hleaving, hmax⟩)
    · rename_i husable
      cases h
      exact .foreign hpos fun hu => husable ((UpdateContext.usable_iff hstate rfl).mp hu)
  · -- Anything else is not a stake account of the pool.
    rename_i hother hother'
    cases h
    refine .foreign hpos ?_
    rintro ⟨state, info, hstate, hmeta, -⟩
    cases state with
    | initialized info' => exact hother _ hstate
    | stake info' stake => exact hother' _ _ hstate
    | _ => cases hmeta

/-- The validator half of a visit, case by case. -/
inductive ValidatorCases (sv : Sysvars) (c : UpdateContext) (status : PodStakeStatus)
    (transientLamports : Nat) (a : Account) : ValidatorVisit → Prop where
  | foreign (unusable : ¬ c.Usable a) :
      ValidatorCases sv c status transientLamports a ⟨status, 0, a, 0⟩
  | dissolved {info : StakeMeta} (data : a.data = .stake (.initialized info))
      (usable : c.usable info) :
      ValidatorCases sv c status transientLamports a
        ⟨(if transientLamports ≠ 0 then StakeStatus.deactivatingTransient
          else .readyForRemoval).toPod, 0, a.drained, a.lamports⟩
  | counted {info : StakeMeta} {stake : Stake} {s : StakeStatus}
      (data : a.data = .stake (.stake info stake)) (usable : c.usable info)
      (isStatus : status = s.toPod)
      (stays : s = .active ∨ (s = .deactivatingValidator ∨ s = .deactivatingAll) ∧
        (c.noMerge = true ∨ ¬ stakeIsInactiveWithoutHistory stake sv.epoch)) :
      ValidatorCases sv c status transientLamports a
        ⟨status, (a.swept info stake).lamports, a.swept info stake,
          additionalLamports info stake a.lamports⟩
  | absorbed {info : StakeMeta} {stake : Stake} {s s' : StakeStatus}
      (data : a.data = .stake (.stake info stake)) (usable : c.usable info)
      (mode : c.noMerge = false) (isStatus : status = s.toPod)
      (removed : s = .deactivatingValidator ∧ s' = .readyForRemoval ∨
        s = .deactivatingAll ∧ s' = .deactivatingTransient)
      (inactive : stakeIsInactiveWithoutHistory stake sv.epoch) :
      ValidatorCases sv c status transientLamports a
        ⟨s'.toPod, 0, (a.swept info stake).drained,
          additionalLamports info stake a.lamports + (a.swept info stake).lamports⟩
  | left {info : StakeMeta} {stake : Stake} {s : StakeStatus}
      (data : a.data = .stake (.stake info stake)) (usable : c.usable info)
      (isStatus : status = s.toPod) (gone : s = .deactivatingTransient ∨ s = .readyForRemoval) :
      ValidatorCases sv c status transientLamports a
        ⟨status, 0, a.swept info stake, additionalLamports info stake a.lamports⟩

theorem visitValidator_cases {status : PodStakeStatus} {transientLamports : Nat} {a : Account}
    {r : ValidatorVisit} (h : visitValidator sv c status transientLamports a = .ok r) :
    ValidatorCases sv c status transientLamports a r := by
  unfold visitValidator at h
  split at h
  · rename_i info stake hstate
    split at h
    · rename_i husable
      have hdata := stakeState_data hstate rfl
      simp only [settleAccount, bind_eq_ok, PodStakeStatus.tryInto_eq_ok] at h
      obtain ⟨s, hs, h⟩ := h
      cases s with
      | active =>
        cases h
        exact .counted hdata husable hs (.inl rfl)
      | deactivatingTransient =>
        cases h
        exact .left hdata husable hs (.inl rfl)
      | readyForRemoval =>
        cases h
        exact .left hdata husable hs (.inr rfl)
      | deactivatingValidator =>
        dsimp only at h
        split at h
        · rename_i hstays
          cases h
          exact .counted hdata husable hs (.inr ⟨.inl rfl, hstays⟩)
        · rename_i hstays
          rw [not_or, Decidable.not_not] at hstays
          simp only [bind_eq_ok, pure_eq_ok] at h
          obtain ⟨_, hremoved, rfl⟩ := h
          rw [hs] at hremoved
          cases hremoved
          exact .absorbed hdata husable (Bool.eq_false_iff.mpr hstays.1) hs (.inl ⟨rfl, rfl⟩) hstays.2
      | deactivatingAll =>
        dsimp only at h
        split at h
        · rename_i hstays
          cases h
          exact .counted hdata husable hs (.inr ⟨.inr rfl, hstays⟩)
        · rename_i hstays
          rw [not_or, Decidable.not_not] at hstays
          simp only [bind_eq_ok, pure_eq_ok] at h
          obtain ⟨_, hremoved, rfl⟩ := h
          rw [hs] at hremoved
          cases hremoved
          exact .absorbed hdata husable (Bool.eq_false_iff.mpr hstays.1) hs (.inr ⟨rfl, rfl⟩) hstays.2
    · rename_i husable
      cases h
      exact .foreign fun hu => husable ((UpdateContext.usable_iff hstate rfl).mp hu)
  · rename_i info hstate
    split at h
    · rename_i husable
      cases h
      exact .dissolved (stakeState_data hstate rfl) husable
    · rename_i husable
      cases h
      exact .foreign fun hu => husable ((UpdateContext.usable_iff hstate rfl).mp hu)
  · rename_i hother hother'
    cases h
    refine .foreign ?_
    rintro ⟨state, info, hstate, hmeta, -⟩
    cases state with
    | initialized info' => exact hother' _ hstate
    | stake info' stake => exact hother _ _ hstate
    | _ => cases hmeta

/-- The two halves of a visit. -/
theorem visit_cases {x x' : Cell} {n : Nat} (h : visit rt sv c x = .ok (x', n)) :
    ∃ t r, TransientCases rt sv c x t ∧ ValidatorCases sv c t.status t.lamports t.validator r ∧
      visitTransient rt sv c x = .ok t ∧
      visitValidator sv c t.status t.lamports t.validator = .ok r ∧
      x' = ⟨{ x.entry with
        status := r.status
        lastUpdateEpoch := sv.epoch
        activeStakeLamports := r.lamports
        transientStakeLamports := t.lamports }, r.validator, t.transient⟩ ∧
      n = t.toReserve + r.toReserve := by
  simp only [visit, bind_eq_ok, pure_eq_ok, Prod.mk.injEq] at h
  obtain ⟨t, ht, r, hr, rfl, rfl⟩ := h
  exact ⟨t, r, visitTransient_cases ht, visitValidator_cases hr, ht, hr, rfl, rfl⟩

end StakePoolFogo
