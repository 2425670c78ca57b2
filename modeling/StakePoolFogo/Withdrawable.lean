import StakePoolFogo.Solvency.Modes
import StakePoolFogo.StakeWithdrawals

/-!
# Some stake withdrawal is always open

The tiers of `WithdrawStake` and the rule for preferred validators are gated by a tolerance, the price of a
pool token rounded up.  An amount that is at least one lamport and at most that price can always be asked
for, so a tier that closes the others is open itself.
-/

open StakePoolFogo.Checked StakePoolFogo.Outcome StakePoolFogo.Share

namespace StakePoolFogo

/-! ## Amounts -/

section Amounts

variable {p : StakePool} {poolTokens fee perToken : Nat}

theorem StakePool.getLamportsPerPoolToken_eq (htotal : 0 < p.totalLamports) (hsupply : 0 < p.poolTokenSupply)
    (hfits : p.totalLamports + p.poolTokenSupply < 2 ^ 64) :
    p.getLamportsPerPoolToken = some ((p.totalLamports - 1) / p.poolTokenSupply + 1) := by
  have hsum : checkedAdd 64 p.totalLamports p.poolTokenSupply = some (p.totalLamports + p.poolTokenSupply) :=
    checkedAdd_eq_some.mpr ⟨rfl, hfits⟩
  have hless : checkedSub (p.totalLamports + p.poolTokenSupply) 1 =
      some (p.totalLamports - 1 + p.poolTokenSupply) := checkedSub_eq_some.mpr (by omega)
  have hquotient : checkedDiv (p.totalLamports - 1 + p.poolTokenSupply) p.poolTokenSupply =
      some ((p.totalLamports - 1) / p.poolTokenSupply + 1) :=
    checkedDiv_eq_some.mpr ⟨by omega, Nat.add_div_right _ hsupply⟩
  simp only [getLamportsPerPoolToken, hsum, hless, hquotient, Option.bind_eq_bind, Option.bind_some]

theorem StakePool.calcLamportsWithdrawAmount_worth (hsupply : 0 < p.poolTokenSupply)
    (hfits : p.totalLamports + p.poolTokenSupply < 2 ^ 64) (hle : poolTokens ≤ p.poolTokenSupply) :
    p.calcLamportsWithdrawAmount poolTokens = some (p.book.worth poolTokens) := by
  have hproduct : checkedMul 128 poolTokens p.totalLamports = some (poolTokens * p.totalLamports) := by
    refine checkedMul_eq_some.mpr ⟨rfl, ?_⟩
    calc poolTokens * p.totalLamports
        ≤ 2 ^ 64 * p.totalLamports := Nat.mul_le_mul_right _ (by omega)
      _ < 2 ^ 64 * 2 ^ 64 := Nat.mul_lt_mul_of_pos_left (by omega) (by decide)
      _ = 2 ^ 128 := by decide
  have hworth : p.book.worth poolTokens = poolTokens * p.totalLamports / p.poolTokenSupply := rfl
  simp only [calcLamportsWithdrawAmount, hproduct, Option.bind_eq_bind, Option.bind_some]
  by_cases hsmall : poolTokens * p.totalLamports < p.poolTokenSupply ∨ p.poolTokenSupply = 0
  · rw [if_pos hsmall, hworth, Nat.div_eq_of_lt (by omega)]
    rfl
  · have hwhole : poolTokens * p.totalLamports / p.poolTokenSupply ≤ p.totalLamports := by
      refine Nat.div_le_of_le_mul ?_
      exact Nat.mul_le_mul_right _ hle
    rw [if_neg hsmall, checkedDiv_eq_some.mpr ⟨by omega, rfl⟩, Option.bind_some, hworth]
    exact fits_eq_some.mpr ⟨rfl, by omega⟩

/-- Every amount up to the total can be asked for, with less than the price of a token on top. -/
theorem StakePool.withdraw_reaches {amount : Nat} (htotal : 0 < p.totalLamports)
    (hsupply : 0 < p.poolTokenSupply) (hfits : p.totalLamports + p.poolTokenSupply < 2 ^ 64)
    (hle : amount ≤ p.totalLamports) (hprice : p.getLamportsPerPoolToken = some perToken) :
    ∃ poolTokens ≤ p.poolTokenSupply, ∃ lamports, p.calcLamportsWithdrawAmount poolTokens = some lamports ∧
      amount ≤ lamports ∧ lamports < amount + perToken ∧ lamports ≤ p.totalLamports := by
  obtain ⟨poolTokens, htokens, hreach, hexcess⟩ := p.book.worth_reaches htotal hsupply hle
  obtain rfl := Option.some.inj ((p.getLamportsPerPoolToken_eq htotal hsupply hfits).symm.trans hprice)
  refine ⟨poolTokens, htokens, p.book.worth poolTokens,
    StakePool.calcLamportsWithdrawAmount_worth hsupply hfits htokens, hreach, ?_, ?_⟩
  · exact Nat.lt_of_le_of_lt hexcess (Nat.lt_succ_self _)
  · exact p.book.worth_le htokens

/-- A fee that counts as zero charges nothing. -/
theorem Fee.apply_zero {fee : Fee} (hzero : fee.denominator = 0 ∨ fee.numerator = 0) (amount : Nat) :
    fee.apply amount = some 0 := by
  unfold Fee.apply
  by_cases hden : fee.denominator = 0
  · rw [if_pos hden]
    rfl
  · have hnum : fee.numerator.toNat = 0 := by
      rw [hzero.resolve_left hden]
      rfl
    have hpos : 0 < fee.denominator.toNat := Nat.pos_of_ne_zero fun h => hden (UInt64.toNat_inj.mp h)
    have hbound := fee.denominator.toNat_lt
    have hproduct : checkedMul 128 amount fee.numerator.toNat = some 0 := by
      rw [hnum]
      exact checkedMul_eq_some.mpr ⟨Nat.mul_zero _, Nat.two_pow_pos _⟩
    have hsum : checkedAdd 128 0 fee.denominator.toNat = some fee.denominator.toNat :=
      checkedAdd_eq_some.mpr ⟨Nat.zero_add _, by omega⟩
    have hless : checkedSub fee.denominator.toNat 1 = some (fee.denominator.toNat - 1) :=
      checkedSub_eq_some.mpr (by omega)
    have hquotient : checkedDiv (fee.denominator.toNat - 1) fee.denominator.toNat = some 0 :=
      checkedDiv_eq_some.mpr ⟨by omega, Nat.div_eq_of_lt (by omega)⟩
    simp only [if_neg hden, hproduct, hsum, hless, hquotient, Option.bind_eq_bind, Option.bind_some]

theorem withdrawalFee_zero {burnFrom : Pubkey} {managerFee : Account}
    (hzero : p.stakeWithdrawalFee.denominator = 0 ∨ p.stakeWithdrawalFee.numerator = 0) :
    withdrawalFee p (p.calcPoolTokensStakeWithdrawalFee poolTokens) burnFrom managerFee = .ok 0 := by
  have hcharged : p.calcPoolTokensStakeWithdrawalFee poolTokens = some 0 := by
    simp only [StakePool.calcPoolTokensStakeWithdrawalFee, Fee.apply_zero hzero, Option.bind_eq_bind,
      Option.bind_some]
    exact fits_eq_some.mpr ⟨rfl, by decide⟩
  unfold withdrawalFee
  split
  · rfl
  · exact okOr_eq_ok.mpr hcharged

theorem quoteWithdrawal_free {lamports : Nat} (h : p.calcLamportsWithdrawAmount poolTokens = some lamports)
    (hpos : 0 < lamports) :
    quoteWithdrawal p poolTokens 0 none = .ok { fee := 0, burnt := poolTokens, lamports } := by
  simp only [quoteWithdrawal, bind_eq_ok, okOr_eq_ok, failIf_eq_ok, exists_unit, pure_eq_ok]
  refine ⟨poolTokens, checkedSub_eq_some.mpr rfl, lamports, h, by omega, ?_, rfl⟩
  rintro ⟨m, hm, -⟩
  cases hm

end Amounts

/-! ## The state after an update -/

section Tiers

variable (rt : Runtime) (sv : Sysvars) (k : Pubkey) (w : Ledger) (p : StakePool) (l : ValidatorList)
  (rent : Nat)

/-- The records are what the accounts hold, the rent is the same for all stake accounts, and those of active
entries that hold something are delegated to the entry's validator. -/
structure Settled : Prop where
  active : ∀ v ∈ l.validators, (w (v.stakeKey rt k)).lamports = v.activeStakeLamports
  transient : ∀ v ∈ l.validators, (w (v.transientKey rt k)).lamports = v.transientStakeLamports
  rent : ∀ j, (j = p.reserveStake ∨ ∃ v ∈ l.validators, j = v.stakeKey rt k ∨ j = v.transientKey rt k) →
    ∀ state info, (w j).tryStakeState = .ok state → state.meta? = some info → info.rentExemptReserve = rent
  delegated : ∀ v ∈ l.validators, v.status = StakeStatus.active.toPod →
    ∀ j, (j = v.stakeKey rt k ∨ j = v.transientKey rt k) → 0 < (w j).lamports →
    ∃ state d, (w j).tryStakeState = .ok state ∧ state.delegation? = some d ∧
      d.voterPubkey = v.voteAccountAddress

/-- A pool with a price at which withdrawals are free. -/
structure StakePool.Redeemable : Prop where
  total : 0 < p.totalLamports
  supply : 0 < p.poolTokenSupply
  fits : p.totalLamports + p.poolTokenSupply < 2 ^ 64
  free : p.stakeWithdrawalFee.denominator = 0 ∨ p.stakeWithdrawalFee.numerator = 0

/-- What an update of the pool, and every state before it, see to. -/
structure Refreshed : Prop where
  upToDate : ¬p.lastUpdateEpoch < sv.epoch
  reserve : ∃ info, (w p.reserveStake).data = .stake (.initialized info)
  backed : ∀ v ∈ l.validators, v.recorded ≤ p.totalLamports
  distinct : (l.validators.map (·.voteAccountAddress)).Nodup
  preferred : ∀ vote v, p.preferredWithdrawValidatorVoteAddress = some vote → l.find vote = some v →
    v.status = StakeStatus.active.toPod ∨ v.activeStakeLamports = 0

/-- What a withdrawal has to leave of an account of an entry. -/
def requiredLamports : Nat := saturatingAdd 64 rent (minimumDelegation sv.stakeMinimumDelegation)

/-- What an account of an entry must exceed to be withdrawn from. -/
def tierTolerance (perToken : Nat) : Nat := saturatingAdd 64 (requiredLamports sv rent) perToken

/-- Some of the pool tokens can be withdrawn from `source`, whoever burns them. -/
def OpensAt (source : Pubkey) : Prop :=
  ∃ poolTokens ≤ p.poolTokenSupply, ∀ burnFrom managerFee, ∃ view',
    withdrawChecks rt sv k burnFrom managerFee ⟨p, l, w⟩ source poolTokens = .ok view'

variable {rt sv k w p l rent} {v : ValidatorStakeInfo} {info : StakeMeta} {state : StakeStateV2}
  {source : Pubkey} {plan : WithdrawPlan} {poolTokens lamports perToken held : Nat}

theorem lt_tierTolerance (hspare : tierTolerance sv rent perToken < held) (hfits : held < 2 ^ 64) :
    requiredLamports sv rent + perToken < held := by
  have hadd : tierTolerance sv rent perToken = min (requiredLamports sv rent + perToken) (2 ^ 64 - 1) := rfl
  omega

theorem withdrawTolerance_eq (hrent : info.rentExemptReserve = rent) :
    withdrawTolerance sv info perToken = tierTolerance sv rent perToken := by
  rw [withdrawTolerance, minimumStakeLamports, hrent]
  rfl

/-- The tolerance leaves room for an amount of a lamport or more. -/
theorem StakePool.Redeemable.leaves (h : p.Redeemable) (hprice : p.getLamportsPerPoolToken = some perToken)
    (hspare : tierTolerance sv rent perToken < held) (hfits : held < 2 ^ 64) :
    ∃ poolTokens ≤ p.poolTokenSupply, ∃ lamports, p.calcLamportsWithdrawAmount poolTokens = some lamports ∧
      0 < lamports ∧ requiredLamports sv rent ≤ held - lamports ∧ lamports ≤ held ∧
      lamports ≤ p.totalLamports := by
  obtain ⟨poolTokens, htokens, lamports, hcalc, hpos, hless, htotal⟩ :=
    StakePool.withdraw_reaches h.total h.supply h.fits h.total hprice
  have hroom := lt_tierTolerance hspare hfits
  exact ⟨poolTokens, htokens, lamports, hcalc, hpos, by omega, by omega, htotal⟩

/-- What the tiers admit goes through the books. -/
theorem Settled.opensAt (h : Settled rt k w p l rent) (hfresh : Refreshed sv w p l) (hfree : p.Redeemable)
    (htokens : poolTokens ≤ p.poolTokenSupply)
    (hcalc : p.calcLamportsWithdrawAmount poolTokens = some lamports) (hpos : 0 < lamports)
    (hstate : (w source).tryStakeState = .ok state) (hmeta : state.meta? = some info)
    (hprice : p.getLamportsPerPoolToken = some perToken)
    (hadmitted : Admitted rt sv k source p l state info (w source).lamports lamports perToken plan)
    (hheld : plan.lamports ≤ (w source).lamports) (htotal : plan.lamports ≤ p.totalLamports) :
    OpensAt rt sv k w p l source := by
  have hrecorded : ∃ p', plan.stakePool.recordWithdrawal poolTokens plan.lamports = .ok p' := by
    refine ⟨_, StakePool.recordWithdrawal_eq_ok.mpr ⟨rfl, ?_, ?_⟩⟩
    · cases hadmitted <;> exact htokens
    · cases hadmitted <;> exact htotal
  have hbooked : ∃ l', bookWithdrawal l plan = .ok l' := by
    -- The source is the account of the entry, which holds what is on record.
    have hactive : ∀ u d, l.find d = some u → (findStakeProgramAddress rt d k u.validatorSeedSuffix).1 = source →
        (w source).lamports = u.activeStakeLamports := by
      intro u d hfound hkey
      rw [← h.active u (ValidatorList.find_mem hfound), ← hkey, ← ValidatorList.find_vote hfound]
      rfl
    have htransient : ∀ u d, l.find d = some u →
        (findTransientStakeProgramAddress rt d k u.transientSeedSuffix).1 = source →
        (w source).lamports = u.transientStakeLamports := by
      intro u d hfound hkey
      rw [← h.transient u (ValidatorList.find_mem hfound), ← hkey, ← ValidatorList.find_vote hfound]
      rfl
    cases hadmitted with
    | reserve _ _ _ _ => exact ⟨l, rfl⟩
    | active u d _ _ found _ _ _ key _ =>
      have hle : lamports ≤ u.activeStakeLamports := hactive u _ found key ▸ hheld
      have hrest : checkedSub u.activeStakeLamports lamports = some (u.activeStakeLamports - lamports) :=
        checkedSub_eq_some.mpr (Nat.sub_add_cancel hle).symm
      simp only [bookWithdrawal, recordStakeWithdrawal, hrest, okOr_some, ok_bind]
      exact ⟨_, rfl⟩
    | transient u d _ _ found _ _ _ _ key _ =>
      have hle : lamports ≤ u.transientStakeLamports := htransient u _ found key ▸ hheld
      have hrest : checkedSub u.transientStakeLamports lamports = some (u.transientStakeLamports - lamports) :=
        checkedSub_eq_some.mpr (Nat.sub_add_cancel hle).symm
      simp only [bookWithdrawal, recordStakeWithdrawal, hrest, okOr_some, ok_bind]
      exact ⟨_, rfl⟩
    | whole u d _ _ found _ _ _ _ _ key _ _ =>
      have hrest : checkedSub u.activeStakeLamports (w source).lamports = some 0 := by
        rw [hactive u _ found key]
        exact checkedSub_eq_some.mpr (Nat.zero_add _).symm
      have hnone : ¬(0 ≠ 0) := by decide
      simp only [bookWithdrawal, recordStakeWithdrawal, hrest, okOr_some, ok_bind, failIf_neg hnone]
      exact ⟨_, rfl⟩
  obtain ⟨p', hp'⟩ := hrecorded
  obtain ⟨l', hl'⟩ := hbooked
  refine ⟨poolTokens, htokens, fun burnFrom managerFee =>
    ⟨⟨p', l', StakeView.splitOff ⟨p, l, w⟩ source plan.lamports⟩, withdrawChecks_eq_ok.mpr ?_⟩⟩
  exact .mk hfresh.upToDate (withdrawalFee_zero hfree.free) (quoteWithdrawal_free hcalc hpos) hstate hmeta hprice
    hadmitted hp' hl'

/-- An account of an active entry that holds something, as the checks read it. -/
theorem Settled.reads (h : Settled rt k w p l rent) (hfresh : Refreshed sv w p l) (hv : v ∈ l.validators)
    (hstatus : v.status = StakeStatus.active.toPod)
    (hsource : source = v.stakeKey rt k ∨ source = v.transientKey rt k) (hpos : 0 < (w source).lamports) :
    ∃ state info d, (w source).tryStakeState = .ok state ∧ state.meta? = some info ∧
      info.rentExemptReserve = rent ∧ state.delegation? = some d ∧ d.voterPubkey = v.voteAccountAddress ∧
      l.find d.voterPubkey = some v ∧ source ≠ p.reserveStake := by
  obtain ⟨state, d, hstate, hdelegation, hvoter⟩ := h.delegated v hv hstatus source hsource hpos
  have hfound : l.find d.voterPubkey = some v := by
    rw [hvoter]
    exact ValidatorList.find_of_mem hfresh.distinct hv
  cases state with
  | stake info s =>
    refine ⟨_, info, d, hstate, rfl, h.rent source (.inr ⟨v, hv, hsource⟩) _ info hstate rfl, hdelegation,
      hvoter, hfound, ?_⟩
    rintro rfl
    -- The reserve is not delegated.
    obtain ⟨reserveMeta, hdata⟩ := hfresh.reserve
    rw [Account.tryStakeState, hdata] at hstate
    cases hstate
  | uninitialized => cases hdelegation
  | initialized info => cases hdelegation
  | rewardsPool => cases hdelegation

theorem Refreshed.active_le (hfresh : Refreshed sv w p l) (hv : v ∈ l.validators) :
    v.activeStakeLamports ≤ p.totalLamports :=
  Nat.le_trans (Nat.le_add_right _ _) (hfresh.backed v hv)

theorem Refreshed.transient_le (hfresh : Refreshed sv w p l) (hv : v ∈ l.validators) :
    v.transientStakeLamports ≤ p.totalLamports :=
  Nat.le_trans (Nat.le_add_left _ _) (hfresh.backed v hv)

/-- Without active stake to withdraw there is no preferred validator to turn to first. -/
theorem Refreshed.prefersOnly (hfresh : Refreshed sv w p l) {tolerance : Nat}
    (hnone : NoActiveAbove l tolerance) (vote : Pubkey) : PrefersOnly p l tolerance vote := by
  intro preferred u hname hfound hspare
  rcases hfresh.preferred preferred u hname hfound with hactive | hzero
  · have hle := hnone u (ValidatorList.find_mem hfound) hactive
    omega
  · omega

section Open

variable (h : Settled rt k w p l rent) (hfresh : Refreshed sv w p l) (hfree : p.Redeemable)
  (hprice : p.getLamportsPerPoolToken = some perToken)

include h hfresh hfree hprice

/-- Active stake above the tolerance, unless another validator is preferred. -/
theorem Settled.opensAt_active (hv : v ∈ l.validators) (hstatus : v.status = StakeStatus.active.toPod)
    (honly : PrefersOnly p l (tierTolerance sv rent perToken) v.voteAccountAddress)
    (hspare : tierTolerance sv rent perToken < v.activeStakeLamports) :
    OpensAt rt sv k w p l (v.stakeKey rt k) := by
  have hheld := h.active v hv
  have htotal := hfresh.active_le hv
  have hfits := hfree.fits
  obtain ⟨state, info, d, hstate, hmeta, hrent, hdelegation, hvoter, hfound, hreserve⟩ :=
    h.reads hfresh hv hstatus (.inl rfl) (by omega)
  obtain ⟨poolTokens, htokens, lamports, hcalc, hpos, hkeeps, hle, hworth⟩ :=
    hfree.leaves hprice hspare (by omega)
  have htolerance : withdrawTolerance sv info perToken = tierTolerance sv rent perToken :=
    withdrawTolerance_eq hrent
  have hadmitted : Admitted rt sv k (v.stakeKey rt k) p l state info (w (v.stakeKey rt k)).lamports lamports
      perToken { stakePool := p, lamports, item := some (v, .active) } := by
    refine .active v d hreserve hdelegation hfound hstatus ?_ ?_ ?_ ?_
    · rw [htolerance, hvoter]
      exact honly
    · rw [htolerance]
      intro hnone
      have hle := hnone v hv hstatus
      omega
    · rw [hvoter]
      rfl
    · rw [minimumStakeLamports, hrent, hheld]
      exact hkeeps
  apply h.opensAt hfresh hfree htokens hcalc hpos hstate hmeta hprice hadmitted
  · show lamports ≤ _
    rw [hheld]
    exact hle
  · exact hworth

/-- Transient stake above the tolerance, where no validator has active stake to withdraw. -/
theorem Settled.opensAt_transient (hv : v ∈ l.validators) (hstatus : v.status = StakeStatus.active.toPod)
    (hnone : NoActiveAbove l (tierTolerance sv rent perToken))
    (hspare : tierTolerance sv rent perToken < v.transientStakeLamports) :
    OpensAt rt sv k w p l (v.transientKey rt k) := by
  have hheld := h.transient v hv
  have htotal := hfresh.transient_le hv
  have hfits := hfree.fits
  obtain ⟨state, info, d, hstate, hmeta, hrent, hdelegation, hvoter, hfound, hreserve⟩ :=
    h.reads hfresh hv hstatus (.inr rfl) (by omega)
  obtain ⟨poolTokens, htokens, lamports, hcalc, hpos, hkeeps, hle, hworth⟩ :=
    hfree.leaves hprice hspare (by omega)
  have htolerance : withdrawTolerance sv info perToken = tierTolerance sv rent perToken :=
    withdrawTolerance_eq hrent
  have hadmitted : Admitted rt sv k (v.transientKey rt k) p l state info (w (v.transientKey rt k)).lamports
      lamports perToken { stakePool := p, lamports, item := some (v, .transient) } := by
    refine .transient v d hreserve hdelegation hfound hstatus ?_ ?_ (.inr (by omega)) ?_ ?_
    · rw [htolerance]
      exact hfresh.prefersOnly hnone _
    · rw [htolerance]
      exact hnone
    · rw [hvoter]
      rfl
    · rw [minimumStakeLamports, hrent, hheld]
      exact hkeeps
  apply h.opensAt hfresh hfree htokens hcalc hpos hstate hmeta hprice hadmitted
  · show lamports ≤ _
    rw [hheld]
    exact hle
  · exact hworth

/-- The whole account of a validator without transient stake, where there is nothing else to withdraw. -/
theorem Settled.opensAt_whole (hv : v ∈ l.validators) (hstatus : v.status = StakeStatus.active.toPod)
    (hnoActive : NoActiveAbove l (tierTolerance sv rent perToken))
    (hnoTransient : NoTransientAbove l (tierTolerance sv rent perToken))
    (hzero : v.transientStakeLamports = 0) (hsome : 0 < v.activeStakeLamports) :
    OpensAt rt sv k w p l (v.stakeKey rt k) := by
  have hheld := h.active v hv
  have htotal := hfresh.active_le hv
  have hfits := hfree.fits
  obtain ⟨state, info, d, hstate, hmeta, hrent, hdelegation, hvoter, hfound, hreserve⟩ :=
    h.reads hfresh hv hstatus (.inl rfl) (by omega)
  obtain ⟨poolTokens, htokens, lamports, hcalc, hreach, hexcess, hworth⟩ :=
    StakePool.withdraw_reaches hfree.total hfree.supply hfree.fits htotal hprice
  have htolerance : withdrawTolerance sv info perToken = tierTolerance sv rent perToken :=
    withdrawTolerance_eq hrent
  have hadd : saturatingAdd 64 (w (v.stakeKey rt k)).lamports perToken =
    min ((w (v.stakeKey rt k)).lamports + perToken) (2 ^ 64 - 1) := rfl
  have hadmitted : Admitted rt sv k (v.stakeKey rt k) p l state info (w (v.stakeKey rt k)).lamports lamports
      perToken { stakePool := p.forgetPreferred d.voterPubkey, lamports := (w (v.stakeKey rt k)).lamports,
                 item := some (v, .validatorRemoval) } := by
    refine .whole v d hreserve hdelegation hfound hstatus ?_ ?_ ?_ hzero ?_ (by omega) (by omega)
    · rw [htolerance]
      exact hfresh.prefersOnly hnoActive _
    · rw [htolerance]
      exact hnoActive
    · rw [htolerance]
      exact hnoTransient
    · rw [hvoter]
      rfl
  apply h.opensAt hfresh hfree htokens hcalc (by omega) hstate hmeta hprice hadmitted
  · exact Nat.le_refl _
  · show (w (v.stakeKey rt k)).lamports ≤ _
    rw [hheld]
    exact htotal

/-- The reserve, where there is nothing else to withdraw. -/
theorem Settled.opensAt_reserve (hnoActive : NoActiveAbove l (tierTolerance sv rent perToken))
    (hnoTransient : NoTransientAbove l (tierTolerance sv rent perToken))
    (hstate : (w p.reserveStake).tryStakeState = .ok state) (hmeta : state.meta? = some info)
    (hspare : minimumReserveLamports info + perToken ≤ (w p.reserveStake).lamports) :
    OpensAt rt sv k w p l p.reserveStake := by
  have htolerance : withdrawTolerance sv info perToken = tierTolerance sv rent perToken :=
    withdrawTolerance_eq (h.rent _ (.inl rfl) state info hstate hmeta)
  obtain ⟨poolTokens, htokens, lamports, hcalc, hpos, hless, hworth⟩ :=
    StakePool.withdraw_reaches hfree.total hfree.supply hfree.fits hfree.total hprice
  have hadmitted : Admitted rt sv k p.reserveStake p l state info (w p.reserveStake).lamports lamports perToken
      { stakePool := p, lamports, item := none } := by
    refine .reserve rfl ?_ ?_ (by omega)
    · rw [htolerance]
      exact hnoActive
    · rw [htolerance]
      exact hnoTransient
  apply h.opensAt hfresh hfree htokens hcalc hpos hstate hmeta hprice hadmitted
  · show lamports ≤ _
    omega
  · exact hworth

/-- A preferred validator that turns others away takes withdrawals itself. -/
theorem Settled.opensAt_preferred {vote : Pubkey}
    (hblocks : ¬PrefersOnly p l (tierTolerance sv rent perToken) vote) :
    ∃ preferred v, p.preferredWithdrawValidatorVoteAddress = some preferred ∧ l.find preferred = some v ∧
      OpensAt rt sv k w p l (v.stakeKey rt k) := by
  unfold PrefersOnly at hblocks
  push Not at hblocks
  obtain ⟨preferred, u, hname, hfound, hspare, -⟩ := hblocks
  have hstatus : u.status = StakeStatus.active.toPod :=
    (hfresh.preferred preferred u hname hfound).resolve_right (by omega)
  refine ⟨preferred, u, hname, hfound,
    h.opensAt_active hfresh hfree hprice (ValidatorList.find_mem hfound) hstatus ?_ hspare⟩
  intro other _ hother _ _
  rw [ValidatorList.find_vote hfound]
  exact Option.some.inj (hother.symm.trans hname)

/-- One of the tiers is open. -/
theorem Settled.opens (hsome : (∃ v ∈ l.validators, v.status = StakeStatus.active.toPod ∧
      v.transientStakeLamports = 0 ∧ 0 < v.activeStakeLamports) ∨
    ∃ state info, (w p.reserveStake).tryStakeState = .ok state ∧ state.meta? = some info ∧
      minimumReserveLamports info + perToken ≤ (w p.reserveStake).lamports) :
    ∃ source, OpensAt rt sv k w p l source := by
  by_cases hactive : NoActiveAbove l (tierTolerance sv rent perToken)
  · by_cases htransient : NoTransientAbove l (tierTolerance sv rent perToken)
    · rcases hsome with ⟨v, hv, hstatus, hzero, hpos⟩ | ⟨state, info, hstate, hmeta, hspare⟩
      · exact ⟨_, h.opensAt_whole hfresh hfree hprice hv hstatus hactive htransient hzero hpos⟩
      · exact ⟨_, h.opensAt_reserve hfresh hfree hprice hactive htransient hstate hmeta hspare⟩
    · unfold NoTransientAbove at htransient
      push Not at htransient
      obtain ⟨v, hv, hstatus, hspare⟩ := htransient
      exact ⟨_, h.opensAt_transient hfresh hfree hprice hv hstatus hactive hspare⟩
  · unfold NoActiveAbove at hactive
    push Not at hactive
    obtain ⟨v, hv, hstatus, hspare⟩ := hactive
    by_cases honly : PrefersOnly p l (tierTolerance sv rent perToken) v.voteAccountAddress
    · exact ⟨_, h.opensAt_active hfresh hfree hprice hv hstatus honly hspare⟩
    · obtain ⟨_, u, -, -, hopen⟩ := h.opensAt_preferred hfresh hfree hprice honly
      exact ⟨_, hopen⟩

end Open

end Tiers

/-! ## Runs -/

section Runs

variable {rt : Runtime} {sv : Sysvars} {w w' : Ledger} {s s' : World} {accounts : List AccountMeta}
  {a : AccountMeta} {p : StakePool} {l : ValidatorList} {rent : Nat}

theorem StakePool.advanceEpoch_upToDate (p : StakePool) (epoch : Epoch) :
    ¬(p.advanceEpoch epoch).lastUpdateEpoch < epoch := by
  unfold advanceEpoch
  split
  · exact Nat.lt_irrefl epoch
  · assumption

/-- The update of the pool leaves stake accounts alone. -/
theorem UpdatePoolRun.stake_kept (tokens : TokenLaws rt) (r : UpdatePoolRun rt sv accounts w w') {j : Pubkey}
    {state : StakeStateV2} (hstake : (w j).data = .stake state) : w' j = w j := by
  have hminted : r.minted j = w j := by
    rcases onlyIf_eq_ok.mp r.mint_fee with ⟨-, h⟩ | ⟨-, h⟩
    · simp only [tokenMintTo, bind_eq_ok, exists_unit] at h
      obtain ⟨-, -, h⟩ := h
      obtain ⟨hne, b, c, hf, -, -, -, hset⟩ := invoke₂_eq_ok.mp h
      obtain ⟨before, t, -, -, htoken, -⟩ := tokens.mintTo _ _ _ _ _ _ _ hf
      have hmint : j ≠ r.mint.key := by
        rintro rfl
        rw [r.mint_before] at hstake
        cases hstake
      have hfee : j ≠ r.managerFee.key := by
        rintro rfl
        rw [htoken] at hstake
        cases hstake
      rw [hset, Ledger.set_other _ _ hfee, Ledger.set_other _ _ hmint]
    · exact congrFun h.symm j
  have hpool : j ≠ r.pool.key := by
    rintro rfl
    rw [r.isPool.data] at hstake
    cases hstake
  obtain ⟨-, hwritten⟩ := writeStakePool_eq_ok.mp r.result
  rw [congrFun hwritten, Ledger.set_other _ _ hpool]
  exact hminted

theorem Executes.refreshed (laws : ProgramLaws rt) (tokens : TokenLaws rt) (hs : Reachable rt s)
    (executes : Executes rt accounts .updateStakePoolBalance s s') (ha : accounts[0]? = some a)
    (hp : PoolAt rt s'.ledger a.key p) (hl : ListAt rt s'.ledger p.validatorList l) :
    Refreshed s'.sysvars s'.ledger p l := by
  have hs' : Reachable rt s' := hs.executes executes [7] rfl
  obtain ⟨r⟩ := (processUpdateStakePoolBalance_run rt _).mp executes.run
  have heffect := r.effect laws ha (Option.some.inj (ha.symm.trans r.pool_at) ▸ r.isPool)
    (by rw [← r.list_key]; exact r.isList)
  obtain rfl := hp.unique heffect.own.after
  have hlist : (r.p.advanceEpoch s.sysvars.epoch).validatorList = r.p.validatorList := by
    unfold StakePool.advanceEpoch
    split <;> rfl
  have hreserve : (r.p.advanceEpoch s.sysvars.epoch).reserveStake = r.p.reserveStake := by
    unfold StakePool.advanceEpoch
    split <;> rfl
  obtain rfl := hl.unique (by rw [hlist]; exact heffect.list)
  obtain ⟨info, hdata, htotal⟩ := r.total_eq
  obtain ⟨found, hfound⟩ := hs'.discovered a.key
  refine ⟨?_, ⟨info, ?_⟩, fun v hv => ?_, (hs'.listWellFormed laws hp hl).distinct, fun vote v hname hv => ?_⟩
  · rw [executes.sysvars]
    exact StakePool.advanceEpoch_upToDate r.p _
  · show (s'.ledger (r.p.advanceEpoch s.sysvars.epoch).reserveStake).data = _
    rw [hreserve, r.stake_kept tokens hdata]
    exact hdata
  · have hmem : v.recorded ∈ r.l.validators.map ValidatorStakeInfo.recorded := List.mem_map_of_mem hv
    have hle : v.recorded ≤ r.l.recorded := List.le_sum_of_mem hmem
    have henough : minimumReserveLamports info ≤ (s.ledger r.p.reserveStake).lamports := by
      obtain ⟨info', hdata', hlamports⟩ := reserveLamports_eq_ok r.in_reserve
      rw [r.isReserve] at hdata' hlamports
      obtain rfl : info = info' :=
        StakeStateV2.initialized.inj (AccountData.stake.inj (hdata.symm.trans hdata'))
      omega
    show v.recorded ≤ r.total
    omega
  · exact ((hfound.sound laws hp hl).withdraw vote v hname hv).imp_right fun hleft => hleft.2

/-- After every update of the pool from a reachable state, with records that match the accounts, no fee and
a price: there is a source and an amount for which the checks of `WithdrawStake` pass, if an active validator
has only active stake or the reserve has the price of a token above its minimum.  Stake above the tolerance
leaves its minimum behind when an amount of a lamport or more is withdrawn, a preferred validator that turns
others away takes withdrawals itself, and every amount up to the total is matched within the tolerance. -/
theorem stake_withdrawals_open (laws : ProgramLaws rt) (tokens : TokenLaws rt) (hs : Reachable rt s)
    (executes : Executes rt accounts .updateStakePoolBalance s s') (ha : accounts[0]? = some a)
    (hp : PoolAt rt s'.ledger a.key p) (hl : ListAt rt s'.ledger p.validatorList l)
    (hsettled : Settled rt a.key s'.ledger p l rent) (hfree : p.Redeemable) :
    ∃ perToken, p.getLamportsPerPoolToken = some perToken ∧
      ((∃ v ∈ l.validators, v.status = StakeStatus.active.toPod ∧ v.transientStakeLamports = 0 ∧
            0 < v.activeStakeLamports) ∨
          (∃ state info, (s'.ledger p.reserveStake).tryStakeState = .ok state ∧ state.meta? = some info ∧
            minimumReserveLamports info + perToken ≤ (s'.ledger p.reserveStake).lamports) →
        ∃ source, OpensAt rt s'.sysvars a.key s'.ledger p l source) ∧
      (∀ v ∈ l.validators, v.status = StakeStatus.active.toPod →
        ∀ held, held = v.activeStakeLamports ∨ held = v.transientStakeLamports →
          tierTolerance s'.sysvars rent perToken < held →
          ∃ poolTokens ≤ p.poolTokenSupply, ∃ lamports, p.calcLamportsWithdrawAmount poolTokens = some lamports ∧
            0 < lamports ∧ requiredLamports s'.sysvars rent + lamports ≤ held) ∧
      (∀ vote, checkPreferredWithdraw p l (tierTolerance s'.sysvars rent perToken) vote ≠ .ok () →
        ∃ preferred v, p.preferredWithdrawValidatorVoteAddress = some preferred ∧ l.find preferred = some v ∧
          OpensAt rt s'.sysvars a.key s'.ledger p l (v.stakeKey rt a.key)) ∧
      (∀ amount ≤ p.totalLamports, 0 < amount → ∃ poolTokens ≤ p.poolTokenSupply, ∃ lamports,
        p.calcLamportsWithdrawAmount poolTokens = some lamports ∧ amount ≤ lamports ∧
          lamports ≤ amount + perToken) := by
  have hfresh := executes.refreshed laws tokens hs ha hp hl
  have hprice := StakePool.getLamportsPerPoolToken_eq hfree.total hfree.supply hfree.fits
  refine ⟨_, hprice, hsettled.opens hfresh hfree hprice, ?_, ?_, ?_⟩
  · -- A price below the tolerance leaves room for an amount that keeps the minimum.
    intro v hv _ held hheld hspare
    have hfits : held < 2 ^ 64 := by
      have htotal := hfree.fits
      have hactive := hfresh.active_le hv
      have htransient := hfresh.transient_le hv
      omega
    obtain ⟨poolTokens, htokens, lamports, hcalc, hpos, hkeeps, hle, -⟩ := hfree.leaves hprice hspare hfits
    exact ⟨poolTokens, htokens, lamports, hcalc, hpos, by omega⟩
  · intro vote hfails
    exact hsettled.opensAt_preferred hfresh hfree hprice fun honly =>
      hfails (checkPreferredWithdraw_eq_ok.mpr honly)
  · intro amount hle _
    obtain ⟨poolTokens, htokens, lamports, hcalc, hreach, hexcess, -⟩ :=
      StakePool.withdraw_reaches hfree.total hfree.supply hfree.fits hle hprice
    exact ⟨poolTokens, htokens, lamports, hcalc, hreach, Nat.le_of_lt hexcess⟩

end Runs

/-! ## A pool without fees -/

namespace Reference

/-- The pool of a manager who charges nothing. -/
def freeFounded : World :=
  genesisWorld.execute runtime initializeAccounts (.initializePool default default default 0 10)

def freeStaked : World := freeFounded.execute runtime addValidatorAccounts (.addValidatorToPool 0)

def freeUpdated : World := freeStaked.execute runtime updateAccounts .updateStakePoolBalance

theorem freeStaked_reachable : Reachable runtime freeStaked := by
  have founded : Executes runtime initializeAccounts (.initializePool default default default 0 10) genesisWorld
      freeFounded := .of_succeeded (by decide +kernel)
  have hinput : StakePoolInstruction.tryFromSlice ([0] ++ List.replicate 49 0 ++ leBytes 4 10) =
      .ok (.initializePool default default default 0 10) := by decide +kernel
  have hfounded : Reachable runtime freeFounded :=
    ⟨genesisWorld, genesis_untouched, .single (.call (founded.process hinput) founded.sysvars)⟩
  have staked : Executes runtime addValidatorAccounts (.addValidatorToPool 0) freeFounded freeStaked :=
    .of_succeeded (by decide +kernel)
  exact hfounded.executes staked [1, 0, 0, 0, 0] staked_decodes

/-- The entry of the first validator, with the least stake. -/
def leastEntry : ValidatorStakeInfo := ⟨3282880, 0, 0, 0, 0, 0, StakeStatus.active.toPod, vote⟩

theorem freeUpdated_settled {p : StakePool} {l : ValidatorList} (hreserve : p.reserveStake = reserve)
    (hentries : l.validators = [leastEntry]) :
    Settled runtime pool freeUpdated.ledger p l (minimumBalance stakeSpace) := by
  have hentry : ∀ v ∈ l.validators, v = leastEntry := fun v hv => List.mem_singleton.mp (hentries ▸ hv)
  have hrent : ∀ j ∈ [reserve, leastEntry.stakeKey runtime pool, leastEntry.transientKey runtime pool],
      (((freeUpdated.ledger j).tryStakeState.toOption.bind StakeStateV2.meta?).all
        fun info => decide (info.rentExemptReserve = minimumBalance stakeSpace)) = true := by decide +kernel
  refine ⟨fun v hv => ?_, fun v hv => ?_, fun j hj state info hstate hmeta => ?_, fun v hv _ j hj hpos => ?_⟩
  · rw [hentry v hv]
    decide +kernel
  · rw [hentry v hv]
    decide +kernel
  · have hmem : j ∈ [reserve, leastEntry.stakeKey runtime pool, leastEntry.transientKey runtime pool] := by
      rcases hj with rfl | ⟨v, hv, hj⟩
      · rw [hreserve]
        exact List.mem_cons_self
      · rw [hentry v hv] at hj
        rcases hj with rfl | rfl
        · exact List.mem_cons_of_mem _ List.mem_cons_self
        · exact List.mem_cons_of_mem _ (List.mem_cons_of_mem _ List.mem_cons_self)
    have hall := hrent j hmem
    have hread : (@Except.ok ProgramError _ state).toOption.bind StakeStateV2.meta? = some info := hmeta
    rw [hstate, hread] at hall
    exact of_decide_eq_true hall
  · rw [hentry v hv] at hj
    rcases hj with rfl | rfl
    · have hstate : (freeUpdated.ledger (leastEntry.stakeKey runtime pool)).tryStakeState =
          .ok (.stake poolMeta ⟨⟨vote, 1000000, 0, epochMax⟩, 0⟩) := by decide +kernel
      rw [hentry v hv]
      exact ⟨_, _, hstate, rfl, rfl⟩
    · exact absurd hpos (by decide +kernel)

end Reference

open Reference in
/-- The one validator holds the minimum and can be withdrawn from as a whole. -/
theorem stake_withdrawals_open_free : ∃ p l source, PoolAt runtime freeUpdated.ledger pool p ∧
    ListAt runtime freeUpdated.ledger p.validatorList l ∧
    OpensAt runtime freeUpdated.sysvars pool freeUpdated.ledger p l source := by
  have updated : Executes runtime updateAccounts .updateStakePoolBalance freeStaked freeUpdated :=
    .of_succeeded (by decide +kernel)
  obtain ⟨p, hp, hfields⟩ : ∃ p, PoolAt runtime freeUpdated.ledger pool p ∧
      ((p.totalLamports, p.poolTokenSupply), p.stakeWithdrawalFee.numerator, p.reserveStake, p.validatorList) =
        ((5000000000, 5000000000), 0, reserve, validatorList) := PoolAt.of_load _ (by decide +kernel)
  simp only [Prod.mk.injEq] at hfields
  obtain ⟨⟨htotal, hsupply⟩, hfee, hreserve, hlist⟩ := hfields
  obtain ⟨l, hl, hentries⟩ : ∃ l, ListAt runtime freeUpdated.ledger validatorList l ∧
      l.validators = [leastEntry] := ListAt.of_load _ (by decide +kernel)
  rw [← hlist] at hl
  have hfree : p.Redeemable := ⟨by omega, by omega, by omega, .inr hfee⟩
  obtain ⟨perToken, -, hopen, -⟩ := stake_withdrawals_open programLaws tokenLaws freeStaked_reachable updated rfl
    hp hl (freeUpdated_settled hreserve hentries) hfree
  have hmem : leastEntry ∈ l.validators := by
    rw [hentries]
    exact List.mem_cons_self
  obtain ⟨source, hsource⟩ := hopen (.inl ⟨leastEntry, hmem, rfl, rfl, by decide⟩)
  exact ⟨p, l, source, hp, hl, hsource⟩

end StakePoolFogo
