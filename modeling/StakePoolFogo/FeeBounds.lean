import StakePoolFogo.Price

/-!
# No fee above one hundred per cent

Every way a fee enters a pool checks it, so no fee in force or waiting is above one hundred per cent.
Then the checked subtractions of the deposit and withdrawal handlers cannot fail, and the shares of a
deposit and the parts of a withdrawal add up.
-/

open StakePoolFogo.Checked StakePoolFogo.Outcome

namespace StakePoolFogo

/-- At most one hundred per cent. -/
def Fee.Bounded (fee : Fee) : Prop := fee.numerator ≤ fee.denominator

/-- The fees of a pool: in force, waiting, and how far the updates have come. -/
structure FeeTable where
  epoch : Fee
  nextEpoch : FutureEpoch Fee
  stakeDeposit : Fee
  stakeWithdrawal : Fee
  nextStakeWithdrawal : FutureEpoch Fee
  solDeposit : Fee
  solWithdrawal : Fee
  nextSolWithdrawal : FutureEpoch Fee
  stakeReferral : UInt8
  solReferral : UInt8
  lastUpdateEpoch : Epoch

def StakePool.feeTable (p : StakePool) : FeeTable where
  epoch := p.epochFee
  nextEpoch := p.nextEpochFee
  stakeDeposit := p.stakeDepositFee
  stakeWithdrawal := p.stakeWithdrawalFee
  nextStakeWithdrawal := p.nextStakeWithdrawalFee
  solDeposit := p.solDepositFee
  solWithdrawal := p.solWithdrawalFee
  nextSolWithdrawal := p.nextSolWithdrawalFee
  stakeReferral := p.stakeReferralFee
  solReferral := p.solReferralFee
  lastUpdateEpoch := p.lastUpdateEpoch

/-- Every fee in force or waiting is bounded, and so are the referrers' percentages. -/
structure FeeTable.Bounded (t : FeeTable) : Prop where
  epoch : t.epoch.Bounded
  nextEpoch : ∀ fee, t.nextEpoch.pending = some fee → fee.Bounded
  stakeDeposit : t.stakeDeposit.Bounded
  stakeWithdrawal : t.stakeWithdrawal.Bounded
  nextStakeWithdrawal : ∀ fee, t.nextStakeWithdrawal.pending = some fee → fee.Bounded
  solDeposit : t.solDeposit.Bounded
  solWithdrawal : t.solWithdrawal.Bounded
  nextSolWithdrawal : ∀ fee, t.nextSolWithdrawal.pending = some fee → fee.Bounded
  stakeReferral : t.stakeReferral ≤ 100
  solReferral : t.solReferral ≤ 100

/-! ## The arithmetic of one fee -/

/-- A bounded fee on a machine word is defined and at most the word. -/
theorem Fee.apply_defined {fee : Fee} (hfee : fee.Bounded) {amt : Nat} (hamt : amt < 2 ^ 64) :
    ∃ n, fee.apply amt = some n ∧ n ≤ amt := by
  have hdefined : ∃ n, fee.apply amt = some n := by
    unfold Fee.apply
    by_cases hzero : fee.denominator = 0
    · rw [if_pos hzero]
      exact ⟨0, rfl⟩
    rw [if_neg hzero]
    have hden : fee.denominator.toNat ≠ 0 := fun h => hzero (UInt64.toNat_inj.mp h)
    have hden_lt := fee.denominator.toNat_lt
    have hnum_lt := fee.numerator.toNat_lt
    -- Neither the product nor the sum overflows 128 bits.
    have hproduct : amt * fee.numerator.toNat ≤ (2 ^ 64 - 1) * (2 ^ 64 - 1) :=
      Nat.mul_le_mul (by omega) (by omega)
    have hsmall : (2 ^ 64 - 1) * (2 ^ 64 - 1) + 2 ^ 64 < 2 ^ 128 := by decide
    have hmul : checkedMul 128 amt fee.numerator.toNat = some (amt * fee.numerator.toNat) :=
      fits_of_lt (by omega)
    have hadd : checkedAdd 128 (amt * fee.numerator.toNat) fee.denominator.toNat =
        some (amt * fee.numerator.toNat + fee.denominator.toNat) := fits_of_lt (by omega)
    have hsub : checkedSub (amt * fee.numerator.toNat + fee.denominator.toNat) 1 =
        some (amt * fee.numerator.toNat + fee.denominator.toNat - 1) :=
      checkedSub_eq_some.mpr (by omega)
    simp only [hmul, hadd, hsub, Option.bind_eq_bind, Option.bind_some, checkedDiv]
    exact ⟨_, if_neg hden⟩
  obtain ⟨n, hn⟩ := hdefined
  exact ⟨n, hn, Fee.apply_le hn hfee⟩

/-- The same, as the fee calculations of the pool use it. -/
theorem Fee.apply_fits {fee : Fee} (hfee : fee.Bounded) {amt : Nat} (hamt : amt < 2 ^ 64) :
    ∃ n, (do fits 64 (← fee.apply amt)) = some n ∧ n ≤ amt := by
  obtain ⟨n, hn, hle⟩ := fee.apply_defined hfee hamt
  refine ⟨n, ?_, hle⟩
  rw [hn]
  exact fits_of_lt (by omega)

/-- A referrer's share of a fee is defined and at most the fee. -/
theorem referralShare_le {pct : UInt8} (hpct : pct ≤ 100) {fee : Nat} (hfee : fee < 2 ^ 64) :
    ∃ n, StakePool.referralShare pct fee = some n ∧ n ≤ fee := by
  have hpct' : pct.toNat ≤ 100 := UInt8.le_iff_toNat_le.mp hpct
  have hproduct : fee * pct.toNat ≤ fee * 100 := Nat.mul_le_mul_left fee hpct'
  have hshare : fee * pct.toNat / 100 ≤ fee := by omega
  have hfits : fee * pct.toNat < 2 ^ 128 := by omega
  have hmul : checkedMul 128 fee pct.toNat = some (fee * pct.toNat) := fits_of_lt hfits
  refine ⟨fee * pct.toNat / 100, ?_, hshare⟩
  simp only [StakePool.referralShare, hmul, Option.bind_eq_bind, Option.bind_some, checkedDiv]
  exact fits_of_lt (by omega)

/-- More lamports buy at least as many tokens. -/
theorem StakePool.calcPoolTokensForDeposit_mono {p : StakePool} {stake total tokens : Nat}
    (hle : stake ≤ total) (h : p.calcPoolTokensForDeposit total = some tokens) :
    ∃ fromStake, p.calcPoolTokensForDeposit stake = some fromStake ∧ fromStake ≤ tokens := by
  unfold calcPoolTokensForDeposit at h ⊢
  by_cases hempty : p.totalLamports = 0 ∨ p.poolTokenSupply = 0
  · rw [if_pos hempty] at h ⊢
    obtain rfl := Option.some.inj h
    exact ⟨stake, rfl, hle⟩
  rw [if_neg hempty] at h ⊢
  have hzero : p.totalLamports ≠ 0 := fun h0 => hempty (.inl h0)
  simp only [Option.bind_eq_bind, Option.bind_eq_some_iff, checkedMul_eq_some, checkedDiv_eq_some,
    fits_eq_some] at h
  obtain ⟨_, ⟨rfl, hmul⟩, _, ⟨-, rfl⟩, rfl, hfits⟩ := h
  have hproduct : stake * p.poolTokenSupply ≤ total * p.poolTokenSupply :=
    Nat.mul_le_mul_right _ hle
  have hquotient : stake * p.poolTokenSupply / p.totalLamports ≤
      total * p.poolTokenSupply / p.totalLamports := Nat.div_le_div_right hproduct
  refine ⟨stake * p.poolTokenSupply / p.totalLamports, ?_, hquotient⟩
  have hstake : checkedMul 128 stake p.poolTokenSupply = some (stake * p.poolTokenSupply) :=
    fits_of_lt (by omega)
  simp only [hstake, Option.bind_eq_bind, Option.bind_some, checkedDiv, if_neg hzero]
  exact fits_of_lt (by omega)

/-- The tokens of a deposit are a machine word. -/
theorem StakePool.calcPoolTokensForDeposit_lt {p : StakePool} {total tokens : Nat}
    (htotal : total < 2 ^ 64) (h : p.calcPoolTokensForDeposit total = some tokens) :
    tokens < 2 ^ 64 := by
  unfold calcPoolTokensForDeposit at h
  split at h
  · obtain rfl := Option.some.inj h
    exact htotal
  · simp only [Option.bind_eq_bind, Option.bind_eq_some_iff, fits_eq_some] at h
    obtain ⟨_, -, _, -, rfl, hfits⟩ := h
    exact hfits

/-! ## Deposits -/

/-- What is left to check once the shares of a deposit are known. -/
def DepositShares.offer (shares : DepositShares) (minimumPoolTokensOut : Option Nat) :
    Except ProgramError DepositShares := do
  failIf (shares.user = 0) (.custom .depositTooSmall)
  failIf (∃ m ∈ minimumPoolTokensOut, shares.user < m) (.custom .exceededSlippage)
  return shares

/-- Fees within the deposit split it exactly. -/
theorem splitDeposit_exact {tokens fee referral : Nat} (htokens : tokens < 2 ^ 64)
    (hfee : fee ≤ tokens) (hreferral : referral ≤ fee) (minimum : Option Nat) :
    splitDeposit tokens fee (some referral) minimum =
      DepositShares.offer ⟨tokens, tokens - fee, fee - referral, referral⟩ minimum := by
  have huser : checkedSub tokens fee = some (tokens - fee) := checkedSub_eq_some.mpr (by omega)
  have hmanager : checkedSub fee referral = some (fee - referral) :=
    checkedSub_eq_some.mpr (by omega)
  -- The sums do not saturate, so the consistency check passes.
  have hpart : saturatingAdd 64 (tokens - fee) (fee - referral) = tokens - fee + (fee - referral) :=
    saturatingAdd_of_lt (by omega)
  have hsum : saturatingAdd 64 (tokens - fee + (fee - referral)) referral = tokens := by
    rw [saturatingAdd_of_lt (by omega)]
    omega
  simp only [splitDeposit, huser, okOr_some, ok_bind, hmanager, hpart, hsum, ne_eq,
    failIf_neg not_false, not_true]
  rfl

namespace FeeTable.Bounded

variable {p : StakePool} (h : p.feeTable.Bounded)

include h

/-- The fee of a SOL deposit and its referral part are defined and within the deposit. -/
theorem depositSol {lamports tokens : Nat} (hlamports : lamports < 2 ^ 64)
    (htokens : p.calcPoolTokensForDeposit lamports = some tokens) (minimum : Option Nat) :
    ∃ shares : DepositShares, shares.newPoolTokens = tokens ∧
      shares.user + shares.manager + shares.referral = tokens ∧
      depositSolShares p lamports minimum = shares.offer minimum := by
  have hword := StakePool.calcPoolTokensForDeposit_lt hlamports htokens
  obtain ⟨fee, hfee, hfee_le⟩ := Fee.apply_fits h.solDeposit hword
  obtain ⟨referral, hreferral, hreferral_le⟩ := referralShare_le h.solReferral
    (Nat.lt_of_le_of_lt hfee_le hword)
  refine ⟨⟨tokens, tokens - fee, fee - referral, referral⟩, rfl, ?_, ?_⟩
  · show tokens - fee + (fee - referral) + referral = tokens
    omega
  · have hsol : p.calcPoolTokensSolDepositFee tokens = some fee := hfee
    have href : p.calcPoolTokensSolReferralFee fee = some referral := hreferral
    rw [← splitDeposit_exact hword hfee_le hreferral_le, depositSolShares, htokens]
    simp only [okOr_some, ok_bind, hsol, href]

/-- The two fees of a stake deposit, on its two parts, are together within the deposit. -/
theorem depositStake {total stake tokens : Nat} (htotal : total < 2 ^ 64) (hle : stake ≤ total)
    (htokens : p.calcPoolTokensForDeposit total = some tokens) (minimum : Option Nat) :
    ∃ shares : DepositShares, shares.newPoolTokens = tokens ∧
      shares.user + shares.manager + shares.referral = tokens ∧
      depositStakeShares p total stake minimum = shares.offer minimum := by
  have hword := StakePool.calcPoolTokensForDeposit_lt htotal htokens
  obtain ⟨fromStake, hfromStake, hpart⟩ := StakePool.calcPoolTokensForDeposit_mono hle htokens
  obtain ⟨stakeFee, hstakeFee, hstakeFee_le⟩ := Fee.apply_fits h.stakeDeposit
    (Nat.lt_of_le_of_lt hpart hword)
  have hrest : tokens - fromStake < 2 ^ 64 := by omega
  obtain ⟨solFee, hsolFee, hsolFee_le⟩ := Fee.apply_fits h.solDeposit hrest
  have hfee_le : stakeFee + solFee ≤ tokens := by omega
  obtain ⟨referral, hreferral, hreferral_le⟩ := referralShare_le h.stakeReferral
    (Nat.lt_of_le_of_lt hfee_le hword)
  refine ⟨⟨tokens, tokens - (stakeFee + solFee), stakeFee + solFee - referral, referral⟩, rfl, ?_, ?_⟩
  · show tokens - (stakeFee + solFee) + (stakeFee + solFee - referral) + referral = tokens
    omega
  · have hsub : checkedSub tokens fromStake = some (tokens - fromStake) :=
      checkedSub_eq_some.mpr (by omega)
    have hstake : p.calcPoolTokensStakeDepositFee fromStake = some stakeFee := hstakeFee
    have hsol : p.calcPoolTokensSolDepositFee (tokens - fromStake) = some solFee := hsolFee
    have hadd : checkedAdd 64 stakeFee solFee = some (stakeFee + solFee) := fits_of_lt (by omega)
    have href : p.calcPoolTokensStakeReferralFee (stakeFee + solFee) = some referral := hreferral
    rw [← splitDeposit_exact hword hfee_le hreferral_le, depositStakeShares, htokens, hfromStake]
    simp only [okOr_some, ok_bind, hsub, hstake, hsol, hadd, href]

end FeeTable.Bounded

/-! ## Withdrawals -/

/-- What is left to do once the fee of a withdrawal has been taken off. -/
def quoteBurn (p : StakePool) (burnt fee : Nat) (minimumLamportsOut : Option Nat) :
    Except ProgramError WithdrawalQuote := do
  let lamports ← okOr (p.calcLamportsWithdrawAmount burnt) (.custom .calculationFailure)
  failIf (lamports = 0) (.custom .withdrawalTooSmall)
  failIf (∃ m ∈ minimumLamportsOut, lamports < m) (.custom .exceededSlippage)
  return { fee, burnt, lamports }

/-- A fee within the withdrawal splits it exactly, whether it is waived or not. -/
theorem withdrawal_exact {p : StakePool} {poolTokens n : Nat} {fee : Option Nat} (hfee : fee = some n)
    (hn : n ≤ poolTokens) (burnFrom : Pubkey) (managerFee : Account) (minimum : Option Nat) :
    ∃ charged burnt, burnt + charged = poolTokens ∧
      withdrawalFee p fee burnFrom managerFee = .ok charged ∧
      quoteWithdrawal p poolTokens charged minimum = quoteBurn p burnt charged minimum := by
  have hsplit : ∀ charged, charged ≤ poolTokens →
      quoteWithdrawal p poolTokens charged minimum =
        quoteBurn p (poolTokens - charged) charged minimum := by
    intro charged hle
    have hsub : checkedSub poolTokens charged = some (poolTokens - charged) :=
      checkedSub_eq_some.mpr (by omega)
    simp only [quoteWithdrawal, hsub, okOr_some, ok_bind, quoteBurn]
  unfold withdrawalFee
  split
  · exact ⟨0, poolTokens - 0, rfl, rfl, hsplit 0 (Nat.zero_le _)⟩
  · exact ⟨n, poolTokens - n, Nat.sub_add_cancel hn, by rw [hfee]; rfl, hsplit n hn⟩

/-! ## What a step does to the fees -/

/-- `SetFee` and the update of the pool are the only instructions that change a fee. -/
inductive FeeStep (epoch : Epoch) (p p' : StakePool) : Prop where
  | kept (same : p'.feeTable = p.feeTable)
  | set (fee : FeeType) (notTooHigh : fee.tooHigh = false) (update : p.updateFee fee = .ok p')
  | advanced (same : p'.feeTable = (p.advanceEpoch epoch).feeTable)

theorem BookStep.feeStep {rt : Runtime} {sv : Sysvars} {signed : Pubkey → Prop} {k : Pubkey}
    {p p' : StakePool} {l l' : ValidatorList} (h : BookStep rt sv signed k p l p' l') :
    FeeStep sv.epoch p p' := by
  cases h with
  | setFee fee _ _ notTooHigh update => exact .set fee notTooHigh update
  | updatePool total supply _ => exact .advanced rfl
  | setPreferred t vote _ => cases t <;> exact .kept rfl
  | setFunding t authority _ => cases t <;> exact .kept rfl
  | withdrawStake vote v v' source => cases source <;> exact .kept rfl
  | _ => exact .kept rfl

/-! ## Every reachable pool -/

/-- A bounded fee stays bounded while it waits and when it takes effect. -/
theorem FutureEpoch.advance_bounded {fee : Fee} {next : FutureEpoch Fee} (hfee : fee.Bounded)
    (hnext : ∀ f, next.pending = some f → f.Bounded) :
    (next.get.getD fee).Bounded ∧ ∀ f, next.updateEpoch.pending = some f → f.Bounded := by
  cases next with
  | none => exact ⟨hfee, hnext⟩
  | one f => exact ⟨hnext f rfl, fun g hg => by cases hg⟩
  | two f => exact ⟨hfee, hnext⟩

theorem FeeTable.Bounded.advanceEpoch {p : StakePool} (h : p.feeTable.Bounded) (epoch : Epoch) :
    (p.advanceEpoch epoch).feeTable.Bounded := by
  unfold StakePool.advanceEpoch
  split
  · obtain ⟨hepoch, hnextEpoch⟩ := FutureEpoch.advance_bounded h.epoch h.nextEpoch
    obtain ⟨hstake, hnextStake⟩ :=
      FutureEpoch.advance_bounded h.stakeWithdrawal h.nextStakeWithdrawal
    obtain ⟨hsol, hnextSol⟩ := FutureEpoch.advance_bounded h.solWithdrawal h.nextSolWithdrawal
    exact ⟨hepoch, hnextEpoch, h.stakeDeposit, hstake, hnextStake, h.solDeposit, hsol, hnextSol,
      h.stakeReferral, h.solReferral⟩
  · exact h

theorem FeeTable.Bounded.updateFee {p p' : StakePool} (h : p.feeTable.Bounded) {fee : FeeType}
    (hfee : fee.tooHigh = false) (hu : p.updateFee fee = .ok p') : p'.feeTable.Bounded := by
  -- A fee that `SetFee` lets through, as one that waits.
  have hwaits : ∀ {f : Fee}, decide (f.numerator > f.denominator) = false →
      ∀ g, (FutureEpoch.new f).pending = some g → g.Bounded := by
    intro f hf g hg
    obtain rfl := Option.some.inj hg
    exact UInt64.not_lt.mp (of_decide_eq_false hf)
  cases fee with
  | solReferral pct =>
    cases hu
    exact { h with solReferral := UInt8.not_lt.mp (of_decide_eq_false hfee) }
  | stakeReferral pct =>
    cases hu
    exact { h with stakeReferral := UInt8.not_lt.mp (of_decide_eq_false hfee) }
  | epoch f =>
    cases hu
    exact { h with nextEpoch := hwaits hfee }
  | stakeWithdrawal f =>
    simp only [StakePool.updateFee, bind_eq_ok, exists_unit, pure_eq_ok] at hu
    obtain ⟨-, rfl⟩ := hu
    exact { h with nextStakeWithdrawal := hwaits hfee }
  | solDeposit f =>
    cases hu
    exact { h with solDeposit := UInt64.not_lt.mp (of_decide_eq_false hfee) }
  | stakeDeposit f =>
    cases hu
    exact { h with stakeDeposit := UInt64.not_lt.mp (of_decide_eq_false hfee) }
  | solWithdrawal f =>
    simp only [StakePool.updateFee, bind_eq_ok, exists_unit, pure_eq_ok] at hu
    obtain ⟨-, rfl⟩ := hu
    exact { h with nextSolWithdrawal := hwaits hfee }

theorem FeeStep.bounded {epoch : Epoch} {p p' : StakePool} (hstep : FeeStep epoch p p')
    (h : p.feeTable.Bounded) : p'.feeTable.Bounded := by
  cases hstep with
  | kept same =>
    rw [same]
    exact h
  | set fee notTooHigh update => exact h.updateFee notTooHigh update
  | advanced same =>
    rw [same]
    exact h.advanceEpoch epoch

theorem Reachable.feesBounded {rt : Runtime} (laws : ProgramLaws rt) {s : World} (hs : Reachable rt s)
    {k : Pubkey} {p : StakePool} (hp : PoolAt rt s.ledger k p) : p.feeTable.Bounded := by
  obtain ⟨l, hl⟩ := (hs.registry laws).hasList hp
  refine hs.invariant laws (P := fun _ p _ => p.feeTable.Bounded) (fun r => ?_)
    (fun hstep h => hstep.feeStep.bounded h) hp hl
  obtain ⟨hepoch, hwithdrawal, hdeposit, hreferral⟩ := r.fees
  have hnone : ∀ f, (FutureEpoch.none : FutureEpoch Fee).pending = some f → f.Bounded := by
    intro f hf
    cases hf
  exact ⟨hepoch, hnone, hdeposit, hwithdrawal, hnone, hdeposit, hwithdrawal, hnone, hreferral,
    hreferral⟩

/-- No reachable pool has a fee above one hundred per cent.  So on every amount the fees of a deposit
and of a withdrawal are defined and can be taken off: what remains of a deposit is only to offer its
shares, which make up the deposit, and what remains of a withdrawal is only to price the tokens
burnt, which with the fee make up the withdrawal. -/
theorem fees_split_exactly {rt : Runtime} (laws : ProgramLaws rt) {s : World} (hs : Reachable rt s)
    {k : Pubkey} {p : StakePool} (hp : PoolAt rt s.ledger k p) (minimum : Option Nat) :
    p.feeTable.Bounded ∧
    (∀ lamports tokens, lamports < 2 ^ 64 → p.calcPoolTokensForDeposit lamports = some tokens →
      ∃ shares : DepositShares, shares.newPoolTokens = tokens ∧
        shares.user + shares.manager + shares.referral = tokens ∧
        depositSolShares p lamports minimum = shares.offer minimum) ∧
    (∀ total stake tokens, total < 2 ^ 64 → stake ≤ total →
      p.calcPoolTokensForDeposit total = some tokens →
      ∃ shares : DepositShares, shares.newPoolTokens = tokens ∧
        shares.user + shares.manager + shares.referral = tokens ∧
        depositStakeShares p total stake minimum = shares.offer minimum) ∧
    (∀ poolTokens burnFrom managerFee, poolTokens < 2 ^ 64 → ∃ fee burnt, burnt + fee = poolTokens ∧
      withdrawalFee p (p.calcPoolTokensStakeWithdrawalFee poolTokens) burnFrom managerFee = .ok fee ∧
      quoteWithdrawal p poolTokens fee minimum = quoteBurn p burnt fee minimum) ∧
    (∀ poolTokens burnFrom managerFee, poolTokens < 2 ^ 64 → ∃ fee burnt, burnt + fee = poolTokens ∧
      withdrawalFee p (p.calcPoolTokensSolWithdrawalFee poolTokens) burnFrom managerFee = .ok fee ∧
      quoteWithdrawal p poolTokens fee minimum = quoteBurn p burnt fee minimum) := by
  have h := hs.feesBounded laws hp
  refine ⟨h, fun lamports tokens hlamports htokens => h.depositSol hlamports htokens minimum,
    fun total stake tokens htotal hle htokens => h.depositStake htotal hle htokens minimum,
    fun poolTokens burnFrom managerFee hword => ?_, fun poolTokens burnFrom managerFee hword => ?_⟩
  · obtain ⟨n, hn, hle⟩ := Fee.apply_fits h.stakeWithdrawal hword
    exact withdrawal_exact hn hle burnFrom managerFee minimum
  · obtain ⟨n, hn, hle⟩ := Fee.apply_fits h.solWithdrawal hword
    exact withdrawal_exact hn hle burnFrom managerFee minimum

open Reference in
/-- The founded pool has a withdrawal fee above zero: a withdrawal of one thousand tokens splits. -/
theorem fees_split_exactly_founded : ∃ p, PoolAt runtime founded.ledger pool p ∧
    p.stakeWithdrawalFee = lowFee ∧ p.feeTable.Bounded ∧ ∃ fee burnt, burnt + fee = 1000 ∧
      withdrawalFee p (p.calcPoolTokensStakeWithdrawalFee 1000) (key 40) (founded.ledger managerFee) =
        .ok fee ∧
      quoteWithdrawal p 1000 fee none = quoteBurn p burnt fee none := by
  obtain ⟨p, hp, hfee⟩ : ∃ p, PoolAt runtime founded.ledger pool p ∧
      p.stakeWithdrawalFee = lowFee := PoolAt.of_load _ (by decide +kernel)
  obtain ⟨hbounded, -, -, hstake, -⟩ := fees_split_exactly programLaws founded_reachable hp none
  exact ⟨p, hp, hfee, hbounded, hstake 1000 (key 40) (founded.ledger managerFee) (by decide)⟩

end StakePoolFogo
