import StakePoolFogo.Processor.Invoke

/-! `DepositStake` and `DepositSol`, with and without slippage bounds. -/

open StakePoolFogo.Checked StakePoolFogo.Outcome

namespace StakePoolFogo

variable (rt : Runtime) (sv : Sysvars)

/-- Who gets the pool tokens of a deposit. -/
structure DepositShares where
  newPoolTokens : Nat
  user : Nat
  manager : Nat
  referral : Nat
deriving DecidableEq, Repr

/-- Split the new tokens between the depositor, the manager and the referrer. -/
def splitDeposit (newPoolTokens totalFee : Nat) (referralFee : Option Nat)
    (minimumPoolTokensOut : Option Nat) : Except ProgramError DepositShares := do
  let user ← okOr (checkedSub newPoolTokens totalFee) (.custom .calculationFailure)
  let referral ← okOr referralFee (.custom .calculationFailure)
  let manager ← okOr (checkedSub totalFee referral) (.custom .calculationFailure)
  failIf (saturatingAdd 64 (saturatingAdd 64 user manager) referral ≠ newPoolTokens)
    (.custom .calculationFailure)
  failIf (user = 0) (.custom .depositTooSmall)
  failIf (∃ m ∈ minimumPoolTokensOut, user < m) (.custom .exceededSlippage)
  return { newPoolTokens, user, manager, referral }

/-- The shares add up to the new tokens, and the depositor's is not empty. -/
theorem splitDeposit_sum {newPoolTokens totalFee : Nat} {referralFee minimum : Option Nat}
    {shares : DepositShares} (h : splitDeposit newPoolTokens totalFee referralFee minimum = .ok shares) :
    shares.newPoolTokens = newPoolTokens ∧
      shares.user + shares.manager + shares.referral = shares.newPoolTokens ∧ 0 < shares.user := by
  simp only [splitDeposit, bind_eq_ok, okOr_eq_ok, failIf_eq_ok, exists_unit, pure_eq_ok,
    checkedSub_eq_some] at h
  obtain ⟨user, huser, referral, -, manager, hmanager, -, hpos, -, rfl⟩ := h
  refine ⟨rfl, ?_, Nat.pos_of_ne_zero hpos⟩
  show user + manager + referral = newPoolTokens
  omega

/-- The shares of a stake deposit.  The part above the merged delegation is charged as SOL. -/
def depositStakeShares (p : StakePool) (totalLamports stakeLamports : Nat)
    (minimumPoolTokensOut : Option Nat) : Except ProgramError DepositShares := do
  let newPoolTokens ← okOr (p.calcPoolTokensForDeposit totalLamports) (.custom .calculationFailure)
  let fromStake ← okOr (p.calcPoolTokensForDeposit stakeLamports) (.custom .calculationFailure)
  let fromSol ← okOr (checkedSub newPoolTokens fromStake) (.custom .calculationFailure)
  let stakeFee ← okOr (p.calcPoolTokensStakeDepositFee fromStake) (.custom .calculationFailure)
  let solFee ← okOr (p.calcPoolTokensSolDepositFee fromSol) (.custom .calculationFailure)
  let totalFee ← okOr (checkedAdd 64 stakeFee solFee) (.custom .calculationFailure)
  splitDeposit newPoolTokens totalFee (p.calcPoolTokensStakeReferralFee totalFee)
    minimumPoolTokensOut

def depositSolShares (p : StakePool) (lamports : Nat) (minimumPoolTokensOut : Option Nat) :
    Except ProgramError DepositShares := do
  let newPoolTokens ← okOr (p.calcPoolTokensForDeposit lamports) (.custom .calculationFailure)
  let fee ← okOr (p.calcPoolTokensSolDepositFee newPoolTokens) (.custom .calculationFailure)
  splitDeposit newPoolTokens fee (p.calcPoolTokensSolReferralFee fee) minimumPoolTokensOut

theorem depositStakeShares_sum {p : StakePool} {total stake : Nat} {minimum : Option Nat}
    {shares : DepositShares} (h : depositStakeShares p total stake minimum = .ok shares) :
    p.calcPoolTokensForDeposit total = some shares.newPoolTokens ∧
      shares.user + shares.manager + shares.referral = shares.newPoolTokens ∧ 0 < shares.user := by
  simp only [depositStakeShares, bind_eq_ok, okOr_eq_ok] at h
  obtain ⟨tokens, htokens, _, -, _, -, _, -, _, -, _, -, h⟩ := h
  obtain ⟨heq, hsum⟩ := splitDeposit_sum h
  exact ⟨by rw [heq]; exact htokens, hsum⟩

theorem depositSolShares_sum {p : StakePool} {lamports : Nat} {minimum : Option Nat}
    {shares : DepositShares} (h : depositSolShares p lamports minimum = .ok shares) :
    p.calcPoolTokensForDeposit lamports = some shares.newPoolTokens ∧
      shares.user + shares.manager + shares.referral = shares.newPoolTokens ∧ 0 < shares.user := by
  simp only [depositSolShares, bind_eq_ok, okOr_eq_ok] at h
  obtain ⟨tokens, htokens, _, -, h⟩ := h
  obtain ⟨heq, hsum⟩ := splitDeposit_sum h
  exact ⟨by rw [heq]; exact htokens, hsum⟩

/-- Mint each share that is not empty; the depositor's never is. -/
def mintShares (pool tokenProgram mint user manager referrer : Pubkey) (authority : AccountMeta)
    (bump : UInt8) (shares : DepositShares) (w : Ledger) : Except ProgramError Ledger := do
  let w ← tokenMintTo rt pool tokenProgram mint user authority bump shares.user w
  let w ← onlyIf (shares.manager > 0)
    (tokenMintTo rt pool tokenProgram mint manager authority bump shares.manager) w
  onlyIf (shares.referral > 0)
    (tokenMintTo rt pool tokenProgram mint referrer authority bump shares.referral) w

/-- Book a deposit: `tokens` were minted for `lamports`. -/
def StakePool.recordDeposit (p : StakePool) (tokens lamports : Nat) :
    Except ProgramError StakePool := do
  let poolTokenSupply ← okOr (checkedAdd 64 p.poolTokenSupply tokens) (.custom .calculationFailure)
  let totalLamports ← okOr (checkedAdd 64 p.totalLamports lamports) (.custom .calculationFailure)
  return { p with poolTokenSupply, totalLamports }

theorem StakePool.recordDeposit_eq_ok {p p' : StakePool} {tokens lamports : Nat} :
    p.recordDeposit tokens lamports = .ok p' ↔
      p' = { p with
        poolTokenSupply := p.poolTokenSupply + tokens
        totalLamports := p.totalLamports + lamports } ∧
      p.poolTokenSupply + tokens < 2 ^ 64 ∧ p.totalLamports + lamports < 2 ^ 64 := by
  simp only [recordDeposit, bind_eq_ok, okOr_eq_ok, pure_eq_ok, checkedAdd_eq_some]
  constructor
  · rintro ⟨_, ⟨rfl, hs⟩, _, ⟨rfl, ht⟩, rfl⟩
    exact ⟨rfl, hs, ht⟩
  · rintro ⟨rfl, hs, ht⟩
    exact ⟨_, ⟨rfl, hs⟩, _, ⟨rfl, ht⟩, rfl⟩

/-- Hand the deposited stake over to the pool's withdraw authority.  The default deposit authority
is a derived address, for which the program signs. -/
def takeOverStake (pool stake clock : Pubkey) (depositAuthority : AccountMeta)
    (withdrawAuthority : Pubkey) (w : Ledger) : Except ProgramError Ledger :=
  let derived := findDepositAuthorityProgramAddress rt pool
  if depositAuthority.key = derived.1 then
    stakeAuthorizeSigned rt sv pool stake depositAuthority authorityDeposit derived.2
      withdrawAuthority clock w
  else stakeAuthorize rt sv stake depositAuthority withdrawAuthority clock w

def processDepositStake (accounts : List AccountMeta) (minimumPoolTokensOut : Option Nat)
    (w : Ledger) : Except ProgramError Ledger := do
  let stakePoolInfo ← accountAt accounts 0
  let validatorListInfo ← accountAt accounts 1
  let depositAuthorityInfo ← accountAt accounts 2
  let withdrawAuthorityInfo ← accountAt accounts 3
  let stakeInfo ← accountAt accounts 4
  let validatorStakeInfo ← accountAt accounts 5
  let reserveStakeInfo ← accountAt accounts 6
  let destUserPoolInfo ← accountAt accounts 7
  let managerFeeInfo ← accountAt accounts 8
  let referrerFeeInfo ← accountAt accounts 9
  let poolMintInfo ← accountAt accounts 10
  let clockInfo ← accountAt accounts 11
  checkSysvar clockInfo rt.clockId
  let stakeHistoryInfo ← accountAt accounts 12
  let tokenProgramInfo ← accountAt accounts 13
  let stakeProgramInfo ← accountAt accounts 14
  checkStakeProgram rt stakeProgramInfo.key
  let stakePool ← loadStakePool rt w stakePoolInfo.key
  stakePool.checkAuthorityWithdraw rt withdrawAuthorityInfo.key stakePoolInfo.key
  stakePool.checkStakeDepositAuthority depositAuthorityInfo.key
  let _ ← stakePool.checkMint w poolMintInfo.key
  stakePool.checkValidatorList validatorListInfo.key
  stakePool.checkReserveStake reserveStakeInfo.key
  failIf (stakePool.tokenProgramId ≠ tokenProgramInfo.key) .incorrectProgramId
  failIf (stakePool.managerFeeAccount ≠ managerFeeInfo.key) (.custom .invalidFeeAccount)
  failIf (stakePool.lastUpdateEpoch < sv.epoch) (.custom .stakeListAndPoolOutOfDate)
  let validatorList ← loadValidatorList rt w validatorListInfo.key
  let (_, validatorStake) ← getStakeState (w validatorStakeInfo.key)
  let preLamports := (w validatorStakeInfo.key).lamports
  let vote := validatorStake.delegation.voterPubkey
  failIf (∃ preferred ∈ stakePool.preferredDepositValidatorVoteAddress, preferred ≠ vote)
    (.custom .incorrectDepositVoteAddress)
  let validator ← okOr (validatorList.find vote) (.custom .validatorNotFound)
  checkValidatorStakeAddress rt stakePoolInfo.key validatorStakeInfo.key vote
    validator.validatorSeedSuffix
  failIf (validator.status ≠ StakeStatus.active.toPod) (.custom .validatorNotFound)
  let w ← takeOverStake rt sv stakePoolInfo.key stakeInfo.key clockInfo.key depositAuthorityInfo
    withdrawAuthorityInfo.key w
  let w ← stakeMerge rt sv stakePoolInfo.key stakeInfo.key withdrawAuthorityInfo
    stakePool.stakeWithdrawBumpSeed validatorStakeInfo.key clockInfo.key stakeHistoryInfo.key w
  let (_, postValidatorStake) ← getStakeState (w validatorStakeInfo.key)
  let totalDepositLamports ← okOr (checkedSub (w validatorStakeInfo.key).lamports preLamports)
    (.custom .calculationFailure)
  let stakeDepositLamports ← okOr (checkedSub postValidatorStake.delegation.stake
    validatorStake.delegation.stake) (.custom .calculationFailure)
  let solDepositLamports ← okOr (checkedSub totalDepositLamports stakeDepositLamports)
    (.custom .calculationFailure)
  let shares ← depositStakeShares stakePool totalDepositLamports stakeDepositLamports
    minimumPoolTokensOut
  let w ← mintShares rt stakePoolInfo.key tokenProgramInfo.key poolMintInfo.key destUserPoolInfo.key
    managerFeeInfo.key referrerFeeInfo.key withdrawAuthorityInfo stakePool.stakeWithdrawBumpSeed
    shares w
  let w ← onlyIf (solDepositLamports > 0)
    (stakeWithdraw rt sv stakePoolInfo.key validatorStakeInfo.key withdrawAuthorityInfo
      stakePool.stakeWithdrawBumpSeed reserveStakeInfo.key clockInfo.key stakeHistoryInfo.key
      solDepositLamports) w
  let stakePool ← stakePool.recordDeposit shares.newPoolTokens totalDepositLamports
  let w ← writeStakePool w stakePoolInfo.key stakePool
  return writeValidatorList w validatorListInfo.key (validatorList.modify vote fun v =>
    { v with activeStakeLamports := (w validatorStakeInfo.key).lamports })

/-- A successful `DepositStake`, taken apart. -/
structure DepositStakeRun (accounts : List AccountMeta) (minimum : Option Nat) (w w' : Ledger) where
  pool : AccountMeta
  list : AccountMeta
  depositAuthority : AccountMeta
  authority : AccountMeta
  stakeAccount : AccountMeta
  validatorStake : AccountMeta
  reserve : AccountMeta
  user : AccountMeta
  managerFee : AccountMeta
  referrer : AccountMeta
  mint : AccountMeta
  clock : AccountMeta
  history : AccountMeta
  tokenProgram : AccountMeta
  p : StakePool
  p' : StakePool
  l : ValidatorList
  info : StakeMeta
  stake : Stake
  v : ValidatorStakeInfo
  info' : StakeMeta
  stake' : Stake
  deposited : Nat
  merged : Nat
  excess : Nat
  shares : DepositShares
  taken : Ledger
  joined : Ledger
  minted : Ledger
  swept : Ledger
  written : Ledger
  pool_at : accounts[0]? = some pool
  depositAuthority_at : accounts[2]? = some depositAuthority
  user_at : accounts[7]? = some user
  isPool : PoolAt rt w pool.key p
  isAuthority : poolAuthority rt pool.key authorityWithdraw p.stakeWithdrawBumpSeed =
    .ok authority.key
  isDepositAuthority : depositAuthority.key = p.stakeDepositAuthority
  mint_key : mint.key = p.poolMint
  list_key : list.key = p.validatorList
  isReserve : reserve.key = p.reserveStake
  token_key : tokenProgram.key = p.tokenProgramId
  upToDate : ¬ p.lastUpdateEpoch < sv.epoch
  isList : ListAt rt w list.key l
  stake_state : (w validatorStake.key).data = .stake (.stake info stake)
  found : l.find stake.delegation.voterPubkey = some v
  stake_key : (findStakeProgramAddress rt stake.delegation.voterPubkey pool.key
    v.validatorSeedSuffix).1 = validatorStake.key
  active : v.status = StakeStatus.active.toPod
  take : takeOverStake rt sv pool.key stakeAccount.key clock.key depositAuthority authority.key w =
    .ok taken
  merge : stakeMerge rt sv pool.key stakeAccount.key authority p.stakeWithdrawBumpSeed
    validatorStake.key clock.key history.key taken = .ok joined
  stake_state' : (joined validatorStake.key).data = .stake (.stake info' stake')
  deposited_eq : (joined validatorStake.key).lamports = deposited + (w validatorStake.key).lamports
  excess_eq : deposited = excess + merged
  shares_eq : depositStakeShares p deposited merged minimum = .ok shares
  mintTokens : mintShares rt pool.key tokenProgram.key mint.key user.key managerFee.key referrer.key
    authority p.stakeWithdrawBumpSeed shares joined = .ok minted
  sweep : onlyIf (excess > 0) (stakeWithdraw rt sv pool.key validatorStake.key authority
    p.stakeWithdrawBumpSeed reserve.key clock.key history.key excess) minted = .ok swept
  record : p.recordDeposit shares.newPoolTokens deposited = .ok p'
  write : writeStakePool swept pool.key p' = .ok written
  result : w' = writeValidatorList written list.key (l.modify stake.delegation.voterPubkey fun v =>
    { v with activeStakeLamports := (written validatorStake.key).lamports })

theorem processDepositStake_run {accounts : List AccountMeta} {minimum : Option Nat}
    {w w' : Ledger} (h : processDepositStake rt sv accounts minimum w = .ok w') :
    Nonempty (DepositStakeRun rt sv accounts minimum w w') := by
  simp only [processDepositStake, bind_eq_ok, accountAt_eq_ok, exists_unit, failIf_eq_ok,
    checkSysvar_eq_ok, checkStakeProgram_eq_ok, loadStakePool_eq_ok,
    StakePool.checkAuthorityWithdraw_eq_ok, StakePool.checkStakeDepositAuthority_eq_ok,
    StakePool.checkMint_eq_ok, StakePool.checkValidatorList_eq_ok,
    StakePool.checkReserveStake_eq_ok, loadValidatorList_eq_ok, okOr_eq_ok, pure_eq_ok,
    getStakeState_eq_ok, Prod.exists, checkValidatorStakeAddress_eq_ok, checkedSub_eq_some,
    Decidable.not_not] at h
  obtain ⟨pool, pool_at, list, -, depositAuthority, depositAuthority_at, authority, -, stakeAccount,
    -, validatorStake, -, reserve, -, user, user_at, managerFee, -, referrer, -, h⟩ := h
  obtain ⟨mint, -, clock, -, -, history, -, tokenProgram, -, program, -, -, p, isPool, isAuthority,
    isDepositAuthority, decimals, ⟨mint_key, -⟩, list_key, isReserve, h⟩ := h
  obtain ⟨token_key, -, upToDate, l, isList, info, stake, stake_state, -, v, found, stake_key,
    active, taken, take, joined, merge, info', stake', stake_state', h⟩ := h
  obtain ⟨deposited, deposited_eq, merged, -, excess, excess_eq, shares, shares_eq, minted,
    mintTokens, swept, sweep, p', record, written, write, result⟩ := h
  exact ⟨{
    pool, list, depositAuthority, authority, stakeAccount, validatorStake, reserve, user, managerFee,
    referrer, mint, clock, history, tokenProgram, p, p', l, info, stake, v, info', stake', deposited,
    merged, excess, shares, taken, joined, minted, swept, written, pool_at, depositAuthority_at,
    user_at, isPool, isAuthority, isDepositAuthority, mint_key, list_key, isReserve, upToDate, isList,
    stake_state, found, stake_key, active, take, merge, stake_state', deposited_eq, excess_eq,
    shares_eq, mintTokens, sweep, record, write
    token_key := token_key.symm
    result := result.symm }⟩

/-- `process_deposit_sol`.  On the wrapped-SOL path the lamports are in the reserve already. -/
def processDepositSol (accounts : List AccountMeta) (depositLamports : Nat)
    (minimumPoolTokensOut : Option Nat) (isWsolPath : Bool) (w : Ledger) :
    Except ProgramError Ledger := do
  let stakePoolInfo ← accountAt accounts 0
  let withdrawAuthorityInfo ← accountAt accounts 1
  let reserveStakeInfo ← accountAt accounts 2
  let fromUserLamportsInfo ← accountAt accounts 3
  let destUserPoolInfo ← accountAt accounts 4
  let managerFeeInfo ← accountAt accounts 5
  let referrerFeeInfo ← accountAt accounts 6
  let poolMintInfo ← accountAt accounts 7
  let systemProgramInfo ← accountAt accounts 8
  let tokenProgramInfo ← accountAt accounts 9
  let stakePool ← loadStakePool rt w stakePoolInfo.key
  stakePool.checkAuthorityWithdraw rt withdrawAuthorityInfo.key stakePoolInfo.key
  stakePool.checkSolDepositAuthority accounts 10
  let _ ← stakePool.checkMint w poolMintInfo.key
  stakePool.checkReserveStake reserveStakeInfo.key
  failIf (stakePool.tokenProgramId ≠ tokenProgramInfo.key) .incorrectProgramId
  checkSystemProgram rt systemProgramInfo.key
  failIf (stakePool.managerFeeAccount ≠ managerFeeInfo.key) (.custom .invalidFeeAccount)
  failIf (stakePool.lastUpdateEpoch < sv.epoch) (.custom .stakeListAndPoolOutOfDate)
  let shares ← depositSolShares stakePool depositLamports minimumPoolTokensOut
  let w ← onlyIf (isWsolPath = false)
    (solTransfer rt fromUserLamportsInfo reserveStakeInfo.key depositLamports) w
  let w ← mintShares rt stakePoolInfo.key tokenProgramInfo.key poolMintInfo.key destUserPoolInfo.key
    managerFeeInfo.key referrerFeeInfo.key withdrawAuthorityInfo stakePool.stakeWithdrawBumpSeed
    shares w
  let stakePool ← stakePool.recordDeposit shares.newPoolTokens depositLamports
  writeStakePool w stakePoolInfo.key stakePool

/-- A successful SOL deposit, taken apart. -/
structure DepositSolRun (accounts : List AccountMeta) (lamports : Nat) (minimum : Option Nat)
    (isWsolPath : Bool) (w w' : Ledger) where
  pool : AccountMeta
  authority : AccountMeta
  reserve : AccountMeta
  payer : AccountMeta
  user : AccountMeta
  managerFee : AccountMeta
  referrer : AccountMeta
  mint : AccountMeta
  tokenProgram : AccountMeta
  p : StakePool
  p' : StakePool
  shares : DepositShares
  paid : Ledger
  minted : Ledger
  pool_at : accounts[0]? = some pool
  reserve_at : accounts[2]? = some reserve
  user_at : accounts[4]? = some user
  managerFee_at : accounts[5]? = some managerFee
  referrer_at : accounts[6]? = some referrer
  mint_at : accounts[7]? = some mint
  tokenProgram_at : accounts[9]? = some tokenProgram
  isPool : PoolAt rt w pool.key p
  isAuthority : poolAuthority rt pool.key authorityWithdraw p.stakeWithdrawBumpSeed =
    .ok authority.key
  mint_key : mint.key = p.poolMint
  isReserve : reserve.key = p.reserveStake
  token_key : tokenProgram.key = p.tokenProgramId
  isManagerFee : managerFee.key = p.managerFeeAccount
  upToDate : ¬ p.lastUpdateEpoch < sv.epoch
  shares_eq : depositSolShares p lamports minimum = .ok shares
  pay : onlyIf (isWsolPath = false) (solTransfer rt payer reserve.key lamports) w = .ok paid
  mintTokens : mintShares rt pool.key tokenProgram.key mint.key user.key managerFee.key referrer.key
    authority p.stakeWithdrawBumpSeed shares paid = .ok minted
  record : p.recordDeposit shares.newPoolTokens lamports = .ok p'
  result : writeStakePool minted pool.key p' = .ok w'

theorem processDepositSol_run {accounts : List AccountMeta} {lamports : Nat} {minimum : Option Nat}
    {isWsolPath : Bool} {w w' : Ledger}
    (h : processDepositSol rt sv accounts lamports minimum isWsolPath w = .ok w') :
    Nonempty (DepositSolRun rt sv accounts lamports minimum isWsolPath w w') := by
  simp only [processDepositSol, bind_eq_ok, accountAt_eq_ok, exists_unit, failIf_eq_ok,
    checkSystemProgram_eq_ok, loadStakePool_eq_ok, StakePool.checkAuthorityWithdraw_eq_ok,
    StakePool.checkMint_eq_ok, StakePool.checkReserveStake_eq_ok, Decidable.not_not] at h
  obtain ⟨pool, pool_at, authority, -, reserve, reserve_at, payer, -, user, user_at, managerFee,
    managerFee_at, referrer, referrer_at, mint, mint_at, system, -, tokenProgram, tokenProgram_at,
    h⟩ := h
  obtain ⟨p, isPool, isAuthority, -, decimals, ⟨mint_key, -⟩, isReserve, token_key, -, isManagerFee,
    upToDate, shares, shares_eq, paid, pay, minted, mintTokens, p', record, result⟩ := h
  exact ⟨{
    pool, authority, reserve, payer, user, managerFee, referrer, mint, tokenProgram, p, p', shares,
    paid, minted, pool_at, reserve_at, user_at, managerFee_at, referrer_at, mint_at, tokenProgram_at,
    isPool, isAuthority, mint_key, isReserve, upToDate, shares_eq, pay, mintTokens, record, result
    token_key := token_key.symm, isManagerFee := isManagerFee.symm }⟩

end StakePoolFogo
