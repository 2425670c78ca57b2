import StakePoolFogo.Lib.Filling
import StakePoolFogo.Priority
import StakePoolFogo.Rounding

/-!
# Stake withdrawals one after another

What `process_withdraw_stake` checks and books by itself, apart from its calls.  The amounts of several
withdrawals are often fixed in advance, while each of them changes what the next one may take.
-/

open StakePoolFogo.Checked StakePoolFogo.Filling StakePoolFogo.Outcome

namespace StakePoolFogo

/-- What the checks of a stake withdrawal read: the pool, its list and the stake accounts. -/
structure StakeView where
  stakePool : StakePool
  validatorList : ValidatorList
  stakes : Pubkey → Account

/-- What a split leaves of a stake account; a whole account is left uninitialized. -/
def Account.splitOff (a : Account) (lamports : Nat) : Account :=
  if a.lamports ≤ lamports then { a with lamports := 0, data := .stake .uninitialized }
  else { a with
    lamports := a.lamports - lamports
    data := match a.data with
      | .stake (.stake info s) => .stake (.stake info { s with
          delegation := { s.delegation with stake := s.delegation.stake - lamports } })
      | data => data }

/-- The stake accounts after `lamports` have been split off one of them. -/
def StakeView.splitOff (view : StakeView) (splitFrom : Pubkey) (lamports : Nat) (k : Pubkey) : Account :=
  if k = splitFrom then (view.stakes k).splitOff lamports else view.stakes k

/-- The list after a withdrawal; the reserve has no entry. -/
def bookWithdrawal (l : ValidatorList) (plan : WithdrawPlan) : Except ProgramError ValidatorList :=
  match plan.item with
  | none => .ok l
  | some (v, source) => do
    let v' ← recordStakeWithdrawal v source plan.lamports
    return l.modify v.voteAccountAddress fun _ => v'

section Checks

variable (rt : Runtime) (sv : Sysvars) (pool burnFrom : Pubkey) (managerFee : Account)

/-- `process_withdraw_stake` without the account checks and the calls. -/
def withdrawChecks (view : StakeView) (splitFrom : Pubkey) (poolTokens : Nat) :
    Except ProgramError StakeView := do
  let stakePool := view.stakePool
  failIf (stakePool.lastUpdateEpoch < sv.epoch) (.custom .stakeListAndPoolOutOfDate)
  let fee ← withdrawalFee stakePool (stakePool.calcPoolTokensStakeWithdrawalFee poolTokens) burnFrom managerFee
  let quote ← quoteWithdrawal stakePool poolTokens fee none
  let state ← (view.stakes splitFrom).tryStakeState
  let info ← okOr state.meta? (.custom .wrongStakeStake)
  let plan ← planWithdrawal rt sv pool splitFrom stakePool view.validatorList state info
    (view.stakes splitFrom).lamports quote.lamports
  let stakePool ← plan.stakePool.recordWithdrawal quote.burnt plan.lamports
  let validatorList ← bookWithdrawal view.validatorList plan
  return { stakePool, validatorList, stakes := view.splitOff splitFrom plan.lamports }

end Checks

/-! ## What the checks admit -/

section Scans

variable {p : StakePool} {l : ValidatorList} {tolerance : Nat}

theorem anyActiveAbove_iff :
    (l.validators.any fun v => v.activeLamportsGreaterThan tolerance && v.isActive) = true ↔
      ¬NoActiveAbove l tolerance := by
  constructor
  · intro h hnone
    obtain ⟨v, hv, hscan⟩ := List.any_eq_true.mp h
    rw [Bool.and_eq_true, ValidatorStakeInfo.activeLamportsGreaterThan, decide_eq_true_eq] at hscan
    have hle := hnone v hv (ValidatorStakeInfo.isActive_iff.mp hscan.2)
    omega
  · intro h
    by_contra hscan
    exact h (noActiveAbove_of_scan (Bool.eq_false_of_not_eq_true hscan))

theorem anyTransientAbove_iff :
    (l.validators.any fun v => v.transientLamportsGreaterThan tolerance && v.isActive) = true ↔
      ¬NoTransientAbove l tolerance := by
  constructor
  · intro h hnone
    obtain ⟨v, hv, hscan⟩ := List.any_eq_true.mp h
    rw [Bool.and_eq_true, ValidatorStakeInfo.transientLamportsGreaterThan, decide_eq_true_eq] at hscan
    have hle := hnone v hv (ValidatorStakeInfo.isActive_iff.mp hscan.2)
    omega
  · intro h
    by_contra hscan
    exact h (noTransientAbove_of_scan (Bool.eq_false_of_not_eq_true hscan))

theorem checkPreferredWithdraw_eq_ok {vote : Pubkey} {u : Unit} :
    checkPreferredWithdraw p l tolerance vote = .ok u ↔ PrefersOnly p l tolerance vote := by
  constructor
  · exact checkPreferredWithdraw_only
  · intro h
    unfold checkPreferredWithdraw
    split
    · rfl
    · rename_i preferred hname
      split
      · rfl
      · rename_i v hfound
        apply failIf_neg
        rintro ⟨hne, hspare⟩
        exact hne (h preferred v hname hfound (by omega))

theorem withdrawSource_eq_ok {rt : Runtime} {pool splitFrom vote : Pubkey} {limits : WithdrawLimits}
    {v : ValidatorStakeInfo} {source : StakeWithdrawSource} :
    withdrawSource rt pool splitFrom vote limits v = .ok source ↔
      limits.hasActiveStake = true ∧ source = .active ∧
          (findStakeProgramAddress rt vote pool v.validatorSeedSuffix).1 = splitFrom ∨
        ¬limits.hasActiveStake = true ∧ source = .transient ∧
          (limits.hasTransientStake = true ∨ v.transientStakeLamports ≠ 0) ∧
          (findTransientStakeProgramAddress rt vote pool v.transientSeedSuffix).1 = splitFrom ∨
        ¬limits.hasActiveStake = true ∧ source = .validatorRemoval ∧
          ¬(limits.hasTransientStake = true ∨ v.transientStakeLamports ≠ 0) ∧
          (findStakeProgramAddress rt vote pool v.validatorSeedSuffix).1 = splitFrom := by
  unfold withdrawSource
  by_cases hactive : limits.hasActiveStake = true
  · rw [if_pos hactive]
    simp only [bind_eq_ok, exists_unit, checkValidatorStakeAddress_eq_ok, pure_eq_ok, hactive, true_and,
      not_true_eq_false, false_and, or_false]
    exact ⟨fun ⟨hkey, hsource⟩ => ⟨hsource.symm, hkey⟩, fun ⟨hsource, hkey⟩ => ⟨hkey, hsource.symm⟩⟩
  · rw [if_neg hactive]
    by_cases hsome : limits.hasTransientStake = true ∨ v.transientStakeLamports ≠ 0
    · rw [if_pos hsome]
      simp only [bind_eq_ok, checkTransientStakeAddress_eq_ok, pure_eq_ok, hactive, hsome, Bool.false_eq_true,
        false_and, true_and, false_or, not_false_eq_true, not_true_eq_false, and_false, or_false]
      constructor
      · rintro ⟨bump, hkey, hsource⟩
        exact ⟨hsource.symm, by rw [hkey]⟩
      · rintro ⟨hsource, hkey⟩
        exact ⟨_, Prod.ext hkey rfl, hsource.symm⟩
    · rw [if_neg hsome]
      simp only [bind_eq_ok, exists_unit, checkValidatorStakeAddress_eq_ok, pure_eq_ok, hactive, hsome,
        Bool.false_eq_true, false_and, and_false, true_and, false_or, not_false_eq_true]
      exact ⟨fun ⟨hkey, hsource⟩ => ⟨hsource.symm, hkey⟩, fun ⟨hsource, hkey⟩ => ⟨hkey, hsource.symm⟩⟩

end Scans

section Admitted

variable (rt : Runtime) (sv : Sysvars) (pool splitFrom : Pubkey) (p : StakePool) (l : ValidatorList)
  (state : StakeStateV2) (info : StakeMeta) (held lamports perToken : Nat)

/-- The withdrawals of `lamports` that the checks let through from an account that holds `held`. -/
inductive Admitted : WithdrawPlan → Prop where
  | reserve (isReserve : splitFrom = p.reserveStake)
      (noActive : NoActiveAbove l (withdrawTolerance sv info perToken))
      (noTransient : NoTransientAbove l (withdrawTolerance sv info perToken))
      (keeps : minimumReserveLamports info ≤ held - lamports) :
      Admitted { stakePool := p, lamports, item := none }
  | active (v : ValidatorStakeInfo) (d : Delegation) (notReserve : splitFrom ≠ p.reserveStake)
      (delegation : state.delegation? = some d) (found : l.find d.voterPubkey = some v)
      (status : v.status = StakeStatus.active.toPod)
      (preferred : PrefersOnly p l (withdrawTolerance sv info perToken) d.voterPubkey)
      (someActive : ¬NoActiveAbove l (withdrawTolerance sv info perToken))
      (key : (findStakeProgramAddress rt d.voterPubkey pool v.validatorSeedSuffix).1 = splitFrom)
      (keeps : minimumStakeLamports info sv.stakeMinimumDelegation ≤ held - lamports) :
      Admitted { stakePool := p, lamports, item := some (v, .active) }
  | transient (v : ValidatorStakeInfo) (d : Delegation) (notReserve : splitFrom ≠ p.reserveStake)
      (delegation : state.delegation? = some d) (found : l.find d.voterPubkey = some v)
      (status : v.status = StakeStatus.active.toPod)
      (preferred : PrefersOnly p l (withdrawTolerance sv info perToken) d.voterPubkey)
      (noActive : NoActiveAbove l (withdrawTolerance sv info perToken))
      (someTransient : ¬NoTransientAbove l (withdrawTolerance sv info perToken) ∨ v.transientStakeLamports ≠ 0)
      (key : (findTransientStakeProgramAddress rt d.voterPubkey pool v.transientSeedSuffix).1 = splitFrom)
      (keeps : minimumStakeLamports info sv.stakeMinimumDelegation ≤ held - lamports) :
      Admitted { stakePool := p, lamports, item := some (v, .transient) }
  | whole (v : ValidatorStakeInfo) (d : Delegation) (notReserve : splitFrom ≠ p.reserveStake)
      (delegation : state.delegation? = some d) (found : l.find d.voterPubkey = some v)
      (status : v.status = StakeStatus.active.toPod)
      (preferred : PrefersOnly p l (withdrawTolerance sv info perToken) d.voterPubkey)
      (noActive : NoActiveAbove l (withdrawTolerance sv info perToken))
      (noTransient : NoTransientAbove l (withdrawTolerance sv info perToken))
      (noOwnTransient : v.transientStakeLamports = 0)
      (key : (findStakeProgramAddress rt d.voterPubkey pool v.validatorSeedSuffix).1 = splitFrom)
      (enough : held ≤ lamports) (fits : lamports ≤ saturatingAdd 64 held perToken) :
      Admitted { stakePool := p.forgetPreferred d.voterPubkey, lamports := held,
                 item := some (v, .validatorRemoval) }

variable {rt sv pool splitFrom p l state info held lamports}

theorem planWithdrawal_eq_ok {plan : WithdrawPlan} :
    planWithdrawal rt sv pool splitFrom p l state info held lamports = .ok plan ↔
      ∃ perToken, p.getLamportsPerPoolToken = some perToken ∧
        Admitted rt sv pool splitFrom p l state info held lamports perToken plan := by
  simp only [planWithdrawal, withdrawLimits, bind_eq_ok, okOr_eq_ok, pure_eq_ok]
  constructor
  · rintro ⟨limits, ⟨perToken, htoken, rfl⟩, h⟩
    refine ⟨perToken, htoken, ?_⟩
    -- The reserve is tried first, then the source decides which of the three tiers is served.
    rcases ite_eq_ok.mp h with ⟨hreserve, h⟩ | ⟨hreserve, h⟩
    · simp only [bind_eq_ok, checkReserveWithdrawal, failIf_eq_ok, exists_unit, pure_eq_ok, not_or,
        Bool.not_eq_true, Nat.not_lt] at h
      obtain ⟨⟨⟨htransient, hactive⟩, hkeeps⟩, rfl⟩ := h
      exact .reserve hreserve (noActiveAbove_of_scan hactive) (noTransientAbove_of_scan htransient) hkeeps
    · simp only [bind_eq_ok, okOr_eq_ok, exists_unit, pure_eq_ok, failIf_eq_ok, Decidable.not_not,
        checkPreferredWithdraw_eq_ok] at h
      -- The stake must be delegated, to a validator that may serve, before its tier is looked up.
      obtain ⟨d, hd, hpreferred, v, hfound, source, hsource, hstatus, size, hsize, rfl⟩ := h
      rcases withdrawSource_eq_ok.mp hsource with ⟨hactive, rfl, hkey⟩ | ⟨hactive, rfl, hsome, hkey⟩ |
        ⟨hactive, rfl, hnone, hkey⟩
      · simp only [withdrawSize, bind_eq_ok, failIf_eq_ok, exists_unit, pure_eq_ok, Nat.not_lt] at hsize
        obtain ⟨hkeeps, rfl⟩ := hsize
        exact .active v d hreserve hd hfound hstatus hpreferred (anyActiveAbove_iff.mp hactive) hkey hkeeps
      · have hnoActive := noActiveAbove_of_scan (Bool.eq_false_of_not_eq_true hactive)
        simp only [withdrawSize, bind_eq_ok, failIf_eq_ok, exists_unit, pure_eq_ok, Nat.not_lt] at hsize
        obtain ⟨hkeeps, rfl⟩ := hsize
        exact .transient v d hreserve hd hfound hstatus hpreferred hnoActive
          (hsome.imp_left anyTransientAbove_iff.mp) hkey hkeeps
      · have hnoActive := noActiveAbove_of_scan (Bool.eq_false_of_not_eq_true hactive)
        rw [not_or, Decidable.not_not] at hnone
        simp only [withdrawSize, bind_eq_ok, failIf_eq_ok, exists_unit, pure_eq_ok] at hsize
        obtain ⟨hwhole, rfl⟩ := hsize
        exact .whole v d hreserve hd hfound hstatus hpreferred hnoActive
          (noTransientAbove_of_scan (Bool.eq_false_of_not_eq_true hnone.1)) hnone.2 hkey (by omega) (by omega)
  · rintro ⟨perToken, htoken, h⟩
    refine ⟨_, ⟨perToken, htoken, rfl⟩, ite_eq_ok.mpr ?_⟩
    -- Backwards: a tier is open exactly when the scans for the tiers above it find nothing.
    have hnoActive : NoActiveAbove l (withdrawTolerance sv info perToken) → ¬(l.validators.any fun v =>
        v.activeLamportsGreaterThan (withdrawTolerance sv info perToken) && v.isActive) = true :=
      fun hnone hany => anyActiveAbove_iff.mp hany hnone
    have hnoTransient : NoTransientAbove l (withdrawTolerance sv info perToken) → ¬(l.validators.any fun v =>
        v.transientLamportsGreaterThan (withdrawTolerance sv info perToken) && v.isActive) = true :=
      fun hnone hany => anyTransientAbove_iff.mp hany hnone
    cases h with
    | reserve isReserve noActive noTransient keeps =>
      refine .inl ⟨isReserve, ?_⟩
      simp only [bind_eq_ok, checkReserveWithdrawal, failIf_eq_ok, exists_unit, pure_eq_ok]
      refine ⟨⟨?_, Nat.not_lt.mpr keeps⟩, trivial⟩
      rintro (htransient | hactive)
      · exact hnoTransient noTransient htransient
      · exact hnoActive noActive hactive
    | active v d notReserve delegation found status preferred someActive key keeps =>
      refine .inr ⟨notReserve, ?_⟩
      simp only [bind_eq_ok, okOr_eq_ok, exists_unit, pure_eq_ok, failIf_eq_ok, Decidable.not_not,
        checkPreferredWithdraw_eq_ok]
      refine ⟨d, delegation, preferred, v, found, .active, ?_, status, lamports, ?_, rfl⟩
      · exact withdrawSource_eq_ok.mpr (.inl ⟨anyActiveAbove_iff.mpr someActive, rfl, key⟩)
      · rw [withdrawSize, failIf_neg (Nat.not_lt.mpr keeps)]
        rfl
    | transient v d notReserve delegation found status preferred noActive someTransient key keeps =>
      refine .inr ⟨notReserve, ?_⟩
      simp only [bind_eq_ok, okOr_eq_ok, exists_unit, pure_eq_ok, failIf_eq_ok, Decidable.not_not,
        checkPreferredWithdraw_eq_ok]
      refine ⟨d, delegation, preferred, v, found, .transient, ?_, status, lamports, ?_, rfl⟩
      · exact withdrawSource_eq_ok.mpr (.inr (.inl
          ⟨hnoActive noActive, rfl, someTransient.imp_left anyTransientAbove_iff.mpr, key⟩))
      · rw [withdrawSize, failIf_neg (Nat.not_lt.mpr keeps)]
        rfl
    | whole v d notReserve delegation found status preferred noActive noTransient noOwnTransient key enough
        fits =>
      refine .inr ⟨notReserve, ?_⟩
      simp only [bind_eq_ok, okOr_eq_ok, exists_unit, pure_eq_ok, failIf_eq_ok, Decidable.not_not,
        checkPreferredWithdraw_eq_ok]
      refine ⟨d, delegation, preferred, v, found, .validatorRemoval, ?_, status, held, ?_, rfl⟩
      · exact withdrawSource_eq_ok.mpr (.inr (.inr ⟨hnoActive noActive, rfl,
          not_or.mpr ⟨hnoTransient noTransient, Decidable.not_not.mpr noOwnTransient⟩, key⟩))
      · have hwithin : ¬(lamports < held ∨ lamports > saturatingAdd 64 held perToken) := by omega
        rw [withdrawSize, failIf_neg hwithin]
        rfl

end Admitted

section Serves

variable (rt : Runtime) (sv : Sysvars) (pool burnFrom : Pubkey) (managerFee : Account)

/-- A withdrawal of `poolTokens` from `splitFrom` that passes the checks, with what it leaves. -/
inductive Serves (view : StakeView) (splitFrom : Pubkey) (poolTokens : Nat) : StakeView → Prop where
  | mk {fee perToken : Nat} {quote : WithdrawalQuote} {state : StakeStateV2} {info : StakeMeta}
      {plan : WithdrawPlan} {p' : StakePool} {l' : ValidatorList}
      (upToDate : ¬view.stakePool.lastUpdateEpoch < sv.epoch)
      (charged : withdrawalFee view.stakePool (view.stakePool.calcPoolTokensStakeWithdrawalFee poolTokens)
        burnFrom managerFee = .ok fee)
      (quoted : quoteWithdrawal view.stakePool poolTokens fee none = .ok quote)
      (isStake : (view.stakes splitFrom).tryStakeState = .ok state) (hasMeta : state.meta? = some info)
      (price : view.stakePool.getLamportsPerPoolToken = some perToken)
      (admitted : Admitted rt sv pool splitFrom view.stakePool view.validatorList state info
        (view.stakes splitFrom).lamports quote.lamports perToken plan)
      (recorded : plan.stakePool.recordWithdrawal quote.burnt plan.lamports = .ok p')
      (booked : bookWithdrawal view.validatorList plan = .ok l') :
      Serves view splitFrom poolTokens ⟨p', l', view.splitOff splitFrom plan.lamports⟩

variable {rt sv pool burnFrom managerFee} {view view' : StakeView} {splitFrom : Pubkey} {poolTokens : Nat}

theorem withdrawChecks_eq_ok :
    withdrawChecks rt sv pool burnFrom managerFee view splitFrom poolTokens = .ok view' ↔
      Serves rt sv pool burnFrom managerFee view splitFrom poolTokens view' := by
  simp only [withdrawChecks, bind_eq_ok, failIf_eq_ok, exists_unit, okOr_eq_ok, planWithdrawal_eq_ok,
    pure_eq_ok]
  constructor
  · rintro ⟨upToDate, fee, charged, quote, quoted, state, isStake, info, hasMeta, plan,
      ⟨perToken, price, admitted⟩, p', recorded, l', booked, rfl⟩
    exact .mk upToDate charged quoted isStake hasMeta price admitted recorded booked
  · rintro ⟨upToDate, charged, quoted, isStake, hasMeta, price, admitted, recorded, booked⟩
    exact ⟨upToDate, _, charged, _, quoted, _, isStake, _, hasMeta, _, ⟨_, price, admitted⟩, _, recorded, _,
      booked, rfl⟩

end Serves

/-! ## Plans of the clients -/

/-- The accounts that a client empties in turn, and the pool tokens it takes each of them to be worth. -/
structure ClientPlan (ε σ : Type) where
  sources : List σ
  stakeAddress : σ → Pubkey
  worth : σ → Except ε Nat

namespace ClientPlan

variable {ε σ : Type} (rt : Runtime) (sv : Sysvars) (pool burnFrom : Pubkey) (managerFee : Account)
  (plan : ClientPlan ε σ) (view : StakeView) (amount : Nat)

/-- The accounts together are worth less than is asked for. -/
def FallsShort : Prop := RunsOut plan.worth plan.sources amount

/-- Each account passes the checks with all it is worth, and the last with what remains. -/
def ServedInTurn : Prop :=
  ServeAll plan.worth
    (fun view source => Serves rt sv pool burnFrom managerFee view (plan.stakeAddress source)) view plan.sources
    amount

/-- Withdraw what was taken from the accounts. -/
def withdraw (taken : List (σ × Nat)) : Except ProgramError StakeView :=
  carryOut (fun view source => withdrawChecks rt sv pool burnFrom managerFee view (plan.stakeAddress source))
    view taken

variable {rt sv pool burnFrom managerFee plan view amount}

theorem fallsShort_iff : plan.FallsShort amount ↔
    ∃ taken missing, fill plan.worth plan.sources amount = .ok (taken, missing) ∧ 0 < missing := runsOut_iff

theorem servedInTurn_iff (hamount : 0 < amount) :
    plan.ServedInTurn rt sv pool burnFrom managerFee view amount ↔
      ∃ taken, fill plan.worth plan.sources amount = .ok (taken, 0) ∧
        ∃ view', plan.withdraw rt sv pool burnFrom managerFee view taken = .ok view' :=
  serveAll_iff (fun _ _ _ _ => withdrawChecks_eq_ok) hamount

/-- Where the first account cannot give all it is worth, it has to serve the request alone. -/
theorem servedInTurn_single {first : σ} {others : List σ} (hsources : plan.sources = first :: others)
    (hwhole : ∀ k view', plan.worth first = .ok k →
      ¬Serves rt sv pool burnFrom managerFee view (plan.stakeAddress first) k view') :
    plan.ServedInTurn rt sv pool burnFrom managerFee view amount ↔
      ∃ k view', plan.worth first = .ok k ∧ amount < k ∧
        Serves rt sv pool burnFrom managerFee view (plan.stakeAddress first) amount view' := by
  unfold ServedInTurn
  rw [hsources]
  constructor
  · exact fun hserved => hserved.single hwhole
  · rintro ⟨k, view', hworth, hlt, hserved⟩
    exact .last hworth (Nat.le_of_lt hlt) hserved

end ClientPlan

/-! ## What is left of an account that gives all it is worth -/

section Drained

variable {p : StakePool} {held tokens burnt lamports perToken : Nat}

/-- The price of a token is rounded up. -/
theorem StakePool.getLamportsPerPoolToken_covers (h : p.getLamportsPerPoolToken = some perToken) :
    p.totalLamports ≤ perToken * p.poolTokenSupply := by
  simp only [getLamportsPerPoolToken, Option.bind_eq_bind, Option.bind_eq_some_iff, checkedAdd_eq_some,
    checkedSub_eq_some, checkedDiv_eq_some] at h
  obtain ⟨sum, ⟨hsum, -⟩, rest, hrest, hsupply, rfl⟩ := h
  have hceil := Nat.lt_div_mul_add (a := rest) (Nat.pos_of_ne_zero hsupply)
  omega

theorem StakePool.calcLamportsWithdrawAmount_pos (h : p.calcLamportsWithdrawAmount burnt = some lamports)
    (hpos : 0 < lamports) : 0 < p.poolTokenSupply ∧ 0 < p.totalLamports ∧
      burnt * p.totalLamports / p.poolTokenSupply = lamports := by
  simp only [calcLamportsWithdrawAmount, Option.bind_eq_bind, Option.bind_eq_some_iff,
    checkedMul_eq_some] at h
  obtain ⟨product, ⟨rfl, -⟩, h⟩ := h
  by_cases hsmall : burnt * p.totalLamports < p.poolTokenSupply ∨ p.poolTokenSupply = 0
  · rw [if_pos hsmall] at h
    cases h
    omega
  · rw [if_neg hsmall] at h
    simp only [Option.bind_eq_some_iff, checkedDiv_eq_some, fits_eq_some] at h
    obtain ⟨quotient, ⟨-, rfl⟩, rfl, -⟩ := h
    refine ⟨by omega, Nat.pos_of_ne_zero fun hzero => ?_, rfl⟩
    rw [hzero, Nat.mul_zero, Nat.zero_div] at hpos
    omega

theorem StakePool.calcPoolTokensForDeposit_eq (h : p.calcPoolTokensForDeposit held = some tokens)
    (hsupply : 0 < p.poolTokenSupply) (htotal : 0 < p.totalLamports) :
    held * p.poolTokenSupply / p.totalLamports = tokens := by
  unfold calcPoolTokensForDeposit at h
  rw [if_neg (by omega)] at h
  simp only [Option.bind_eq_bind, Option.bind_eq_some_iff, checkedMul_eq_some, checkedDiv_eq_some,
    fits_eq_some] at h
  obtain ⟨product, ⟨rfl, -⟩, quotient, ⟨-, rfl⟩, rfl, -⟩ := h
  rfl

/-- Lamports to tokens, a token given up at most, and back again: at most the price of two is lost. -/
theorem drained_rest (hburnt : held * p.poolTokenSupply / p.totalLamports ≤ burnt + 1)
    (hlamports : p.calcLamportsWithdrawAmount burnt = some lamports) (hpos : 0 < lamports)
    (hprice : p.getLamportsPerPoolToken = some perToken) : held ≤ lamports + 2 * perToken := by
  obtain ⟨hsupply, htotal, hworth⟩ := StakePool.calcLamportsWithdrawAmount_pos hlamports hpos
  have hcovers := StakePool.getLamportsPerPoolToken_covers hprice
  have hheld : held * p.poolTokenSupply < (burnt + 2) * p.totalLamports :=
    (Nat.div_lt_iff_lt_mul htotal).mp (by omega)
  have hgiven : burnt * p.totalLamports < (lamports + 1) * p.poolTokenSupply :=
    (Nat.div_lt_iff_lt_mul hsupply).mp (by omega)
  have hless : held * p.poolTokenSupply < (lamports + 1 + 2 * perToken) * p.poolTokenSupply := by
    calc held * p.poolTokenSupply < (burnt + 2) * p.totalLamports := hheld
      _ = burnt * p.totalLamports + 2 * p.totalLamports := Nat.add_mul ..
      _ ≤ (lamports + 1) * p.poolTokenSupply + 2 * (perToken * p.poolTokenSupply) := by omega
      _ = (lamports + 1 + 2 * perToken) * p.poolTokenSupply := by ring
  have hlt := Nat.lt_of_mul_lt_mul_right hless
  omega

/-- The fee on tokens that were grossed up for it leaves the tokens, or one less. -/
theorem Fee.grossed_up {fee : Fee} {grossed charged : Nat}
    (hless : fee.numerator.toNat < fee.denominator.toNat)
    (hgrossed : tokens * fee.denominator.toNat / (fee.denominator.toNat - fee.numerator.toNat) = grossed)
    (hcharged : fee.apply grossed = some charged) (hsum : grossed = burnt + charged) :
    tokens ≤ burnt + 1 := by
  have hden : fee.denominator ≠ 0 := by
    intro hzero
    rw [hzero] at hless
    exact Nat.not_lt_zero _ hless
  unfold Fee.apply at hcharged
  rw [if_neg hden] at hcharged
  simp only [Option.bind_eq_bind, Option.bind_eq_some_iff, checkedMul_eq_some, checkedAdd_eq_some,
    checkedSub_eq_some, checkedDiv_eq_some] at hcharged
  obtain ⟨product, ⟨rfl, -⟩, total, ⟨htotal, -⟩, rest, hrest, -, hquotient⟩ := hcharged
  generalize fee.denominator.toNat = d at *
  generalize fee.numerator.toNat = n at *
  obtain ⟨i, rfl⟩ : ∃ i, d = n + i := ⟨d - n, by omega⟩
  rw [Nat.add_sub_cancel_left] at hgrossed
  -- The tokens fall short of what was grossed up by less than one part, and so does the fee.
  have hupper : tokens * (n + i) < (grossed + 1) * i := (Nat.div_lt_iff_lt_mul (by omega)).mp (by omega)
  have hfee : charged * (n + i) ≤ grossed * n + (n + i) - 1 := by
    rw [← hquotient]
    exact Nat.le_trans (Nat.div_mul_le_self _ _) (by omega)
  have hparts : grossed * (n + i) = burnt * (n + i) + charged * (n + i) := by rw [hsum, Nat.add_mul]
  have hsplit : grossed * (n + i) = grossed * n + grossed * i := Nat.mul_add ..
  have hstep : (grossed + 1) * i = grossed * i + i := Nat.add_one_mul ..
  have hless : tokens * (n + i) < (burnt + 2) * (n + i) := by
    have hmore : (burnt + 2) * (n + i) = burnt * (n + i) + 2 * (n + i) := Nat.add_mul ..
    omega
  have hlt := Nat.lt_of_mul_lt_mul_right hless
  omega

/-- The tokens of an account as the clients ask for them, with the fee on top unless it is waived. -/
inductive GrossedUp (p : StakePool) (burnFrom : Pubkey) (tokens : Nat) : Nat → Prop where
  | waived (manager : p.managerFeeAccount = burnFrom) : GrossedUp p burnFrom tokens tokens
  | grossed (less : p.stakeWithdrawalFee.numerator.toNat < p.stakeWithdrawalFee.denominator.toNat) :
      GrossedUp p burnFrom tokens (tokens * p.stakeWithdrawalFee.denominator.toNat /
        (p.stakeWithdrawalFee.denominator.toNat - p.stakeWithdrawalFee.numerator.toNat))
  | whole (equal : p.stakeWithdrawalFee.numerator = p.stakeWithdrawalFee.denominator) :
      GrossedUp p burnFrom tokens tokens

theorem GrossedUp.le {burnFrom : Pubkey} {k : Nat} (h : GrossedUp p burnFrom tokens k) : tokens ≤ k := by
  cases h with
  | waived _ => exact Nat.le_refl _
  | grossed less =>
    apply (Nat.le_div_iff_mul_le (by omega)).mpr
    exact Nat.mul_le_mul_left _ (Nat.sub_le _ _)
  | whole _ => exact Nat.le_refl _

/-- What is burnt of them is one token less at most, if anything is burnt. -/
theorem GrossedUp.le_burnt {burnFrom : Pubkey} {managerFee : Account} {k fee : Nat}
    (h : GrossedUp p burnFrom tokens k)
    (hcharged : withdrawalFee p (p.calcPoolTokensStakeWithdrawalFee k) burnFrom managerFee = .ok fee)
    (hsum : k = burnt + fee) (hpos : 0 < burnt) : tokens ≤ burnt + 1 := by
  unfold withdrawalFee at hcharged
  rcases ite_eq_ok.mp hcharged with ⟨-, hcharged⟩ | ⟨hnot, hcharged⟩
  · -- Nothing is charged.
    cases hcharged
    have hgrows := h.le
    omega
  · rw [okOr_eq_ok, StakePool.calcPoolTokensStakeWithdrawalFee] at hcharged
    simp only [Option.bind_eq_bind, Option.bind_eq_some_iff, fits_eq_some] at hcharged
    obtain ⟨charged, happly, rfl, -⟩ := hcharged
    cases h with
    | waived manager => exact absurd (.inl manager) hnot
    | grossed less => exact Fee.grossed_up less rfl happly hsum
    | whole equal =>
      unfold Fee.apply at happly
      by_cases hzero : p.stakeWithdrawalFee.denominator = 0
      · rw [if_pos hzero] at happly
        cases happly
        omega
      · -- A fee of one hundred per cent leaves nothing to burn.
        rw [if_neg hzero, equal] at happly
        simp only [Option.bind_eq_bind, Option.bind_eq_some_iff, checkedMul_eq_some, checkedAdd_eq_some,
          checkedSub_eq_some, checkedDiv_eq_some] at happly
        obtain ⟨product, ⟨rfl, -⟩, total, ⟨htotal, -⟩, rest, hrest, hne, hquotient⟩ := happly
        have hall : tokens ≤ charged := by
          rw [← hquotient]
          exact (Nat.le_div_iff_mul_le (Nat.pos_of_ne_zero hne)).mpr (by omega)
        omega

end Drained

/-- A validator's account that gives all it is worth keeps the price of two tokens at most, where some
validator has stake to spare. -/
theorem Serves.keeps {rt : Runtime} {sv : Sysvars} {pool burnFrom : Pubkey} {managerFee : Account}
    {view view' : StakeView} {splitFrom : Pubkey} {tokens k perToken rent : Nat}
    (h : Serves rt sv pool burnFrom managerFee view splitFrom k view')
    (hgross : GrossedUp view.stakePool burnFrom tokens k)
    (htokens : 0 < view.stakePool.poolTokenSupply → 0 < view.stakePool.totalLamports →
      (view.stakes splitFrom).lamports * view.stakePool.poolTokenSupply / view.stakePool.totalLamports = tokens)
    (hrent : ∀ state info, (view.stakes splitFrom).tryStakeState = .ok state → state.meta? = some info →
      info.rentExemptReserve = rent)
    (hprice : view.stakePool.getLamportsPerPoolToken = some perToken) {v : ValidatorStakeInfo}
    (hv : v ∈ view.validatorList.validators) (hactive : v.status = StakeStatus.active.toPod)
    (hspare : saturatingAdd 64 (saturatingAdd 64 rent (minimumDelegation sv.stakeMinimumDelegation)) perToken <
      v.activeStakeLamports) :
    saturatingAdd 64 rent (minimumDelegation sv.stakeMinimumDelegation) ≤ 2 * perToken := by
  obtain @⟨_, _, _, _, info, _, _, _, -, charged, quoted, isStake, hasMeta, price, admitted, -, -⟩ := h
  obtain rfl := Option.some.inj (hprice.symm.trans price)
  obtain ⟨-, hsum, hlamports, hpos⟩ := quoteWithdrawal_eq_ok quoted
  obtain ⟨hsupply, htotal, hworth⟩ := StakePool.calcLamportsWithdrawAmount_pos hlamports hpos
  have hburnt := hgross.le_burnt charged hsum (by
    apply Nat.pos_of_ne_zero
    intro hzero
    rw [hzero, Nat.zero_mul, Nat.zero_div] at hworth
    omega)
  have hrest := drained_rest (by rw [htokens hsupply htotal]; exact hburnt) hlamports hpos price
  have hminimum : minimumStakeLamports info sv.stakeMinimumDelegation =
      saturatingAdd 64 rent (minimumDelegation sv.stakeMinimumDelegation) := by
    rw [minimumStakeLamports, hrent _ _ isStake hasMeta]
  have hsome : ¬NoActiveAbove view.validatorList (withdrawTolerance sv info perToken) := by
    intro hnone
    have hle := hnone v hv hactive
    rw [withdrawTolerance, hminimum] at hle
    omega
  cases admitted with
  | reserve _ noActive _ _ => exact absurd noActive hsome
  | active _ _ _ _ _ _ _ _ _ keeps =>
    rw [hminimum] at keeps
    omega
  | transient _ _ _ _ _ _ _ noActive _ _ _ => exact absurd noActive hsome
  | whole _ _ _ _ _ _ _ noActive _ _ _ _ _ => exact absurd noActive hsome

section Example

open Reference

def spareEntry : ValidatorStakeInfo where
  activeStakeLamports := 1003282880
  transientStakeLamports := 0
  lastUpdateEpoch := 9
  transientSeedSuffix := 0
  unused := 0
  validatorSeedSuffix := 0
  status := StakeStatus.active.toPod
  voteAccountAddress := key 70

/-- The only validator's stake account. -/
def soleStake : Pubkey := (findStakeProgramAddress runtime (key 70) pool 0).1

def soleStakeAccount : Account :=
  ⟨1003282880, stakeProgramId, stakeSpace, .stake (.stake poolMeta ⟨⟨key 70, 1001000000, 3, epochMax⟩, 0⟩)⟩

def soleLedger (k : Pubkey) : Account :=
  if k = soleStake then soleStakeAccount
  else if k = reserve then
    ⟨minimumBalance stakeSpace + 5000000, stakeProgramId, stakeSpace, .stake (.initialized poolMeta)⟩
  else emptyAccount

theorem soleLedger_stake : soleLedger soleStake = soleStakeAccount := if_pos rfl

/-- A pool that charges three in a thousand, with a validator that has a thousand million lamports above
the minimum. -/
def soleView : StakeView where
  stakePool := { StakePool.zeroed with
    reserveStake := reserve
    poolMint := mint
    managerFeeAccount := managerFee
    tokenProgramId := splTokenId
    totalLamports := 10000000000
    poolTokenSupply := 10000000000
    lastUpdateEpoch := 9
    stakeWithdrawalFee := { numerator := 3, denominator := 1000 } }
  validatorList := ⟨⟨.validatorList, 10⟩, [spareEntry]⟩
  stakes := soleLedger

theorem soleView_stakes : soleView.stakes = soleLedger := rfl

/-- Half of the stake can be taken. -/
theorem soleView_half : ∃ view, withdrawChecks runtime (sysvars 9) pool (key 40) (tokenAccount manager 0)
    soleView soleStake 500000000 = .ok view :=
  succeeded_iff.mp (by decide +kernel)

/-- All of it cannot. -/
theorem soleView_whole (view : StakeView) : withdrawChecks runtime (sysvars 9) pool (key 40)
    (tokenAccount manager 0) soleView soleStake 1006301785 ≠ .ok view := by
  have hfails : succeeded (withdrawChecks runtime (sysvars 9) pool (key 40) (tokenAccount manager 0) soleView
    soleStake 1006301785) = false := by decide +kernel
  intro h
  rw [h] at hfails
  exact Bool.noConfusion hfails

end Example

end StakePoolFogo
