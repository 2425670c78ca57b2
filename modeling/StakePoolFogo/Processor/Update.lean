import StakePoolFogo.Processor.Invoke

/-!
# Cranks

`UpdateValidatorListBalance`, `UpdateStakePoolBalance` and `CleanupRemovedValidatorEntries`: anyone
may run them, and together they bring the books of the pool up to date once an epoch.
-/

open StakePoolFogo.Checked StakePoolFogo.Outcome

namespace StakePoolFogo

variable (rt : Runtime) (sv : Sysvars)

/-! ## `UpdateValidatorListBalance` -/

/-- What the visits of one update call share. -/
structure UpdateContext where
  pool : Pubkey
  stakePool : StakePool
  authority : AccountMeta
  reserve : Pubkey
  clock : Pubkey
  history : Pubkey
  noMerge : Bool

namespace UpdateContext

variable (c : UpdateContext)

/-- Can the pool manage an account with this meta? -/
def usable (info : StakeMeta) : Prop :=
  stakeIsUsableByPool info c.authority.key c.stakePool.lockup

instance (info : StakeMeta) : Decidable (c.usable info) :=
  inferInstanceAs (Decidable (stakeIsUsableByPool _ _ _))

def merge (source destination : Pubkey) (w : Ledger) : Except ProgramError Ledger :=
  stakeMerge rt sv c.pool source c.authority c.stakePool.stakeWithdrawBumpSeed destination c.clock
    c.history w

end UpdateContext

/-- Merge a transient stake that the pool can use and that is active into the validator stake, when
that one is active as well. -/
def mergeActiveTransient (c : UpdateContext) (validatorState : Option StakeStateV2) (stake : Stake)
    (validatorKey transientKey : Pubkey) (w : Ledger) : Except ProgramError Ledger :=
  match validatorState with
  | some (.stake _ validatorStake) =>
    onlyIf (stake.delegation.activationEpoch < sv.epoch ∧
      validatorStake.delegation.activationEpoch < sv.epoch)
      (c.merge rt sv transientKey validatorKey) w
  | _ => .ok w

/-- A delegated transient stake in merging mode: inactive goes to the reserve, active to the
validator, and what a leaving validator has left is deactivated. -/
def settleTransient (c : UpdateContext) (status : PodStakeStatus)
    (validatorState : Option StakeStateV2) (stake : Stake) (validatorKey transientKey : Pubkey)
    (w : Ledger) : Except ProgramError (PodStakeStatus × Ledger) :=
  if stakeIsInactiveWithoutHistory stake sv.epoch then do
    let w ← c.merge rt sv transientKey c.reserve w
    let status ← status.removeTransientStake
    return (status, w)
  else if status.toStatus? = some .active then do
    let w ← mergeActiveTransient rt sv c validatorState stake validatorKey transientKey w
    return (status, w)
  else do
    let w ← onlyIf (stake.delegation.deactivationEpoch = epochMax)
      (stakeDeactivate rt sv transientKey c.clock c.authority c.pool
        c.stakePool.stakeWithdrawBumpSeed) w
    return (status, w)

/-- The transient half of a visit: new status, `transient_stake_lamports`, ledger. -/
def refreshTransient (c : UpdateContext) (v : ValidatorStakeInfo) (validatorKey transientKey : Pubkey)
    (w : Ledger) : Except ProgramError (PodStakeStatus × Nat × Ledger) :=
  if v.transientStakeLamports = 0 then .ok (v.status, 0, w)
  else match (w transientKey).tryStakeState.toOption with
    | some (.initialized info) =>
      if c.usable info then
        if c.noMerge then .ok (v.status, (w transientKey).lamports, w)
        else do
          let w ← c.merge rt sv transientKey c.reserve w
          let status ← v.status.removeTransientStake
          return (status, 0, w)
      else .ok (v.status, 0, w)
    | some (.stake info stake) =>
      if c.usable info then
        if c.noMerge then .ok (v.status, (w transientKey).lamports, w)
        else do
          let r ← settleTransient rt sv c v.status (w validatorKey).tryStakeState.toOption stake
            validatorKey transientKey w
          return (r.1, (r.2 transientKey).lamports, r.2)
      else .ok (v.status, 0, w)
    | _ => .ok (v.status, 0, w)

/-- The lamports of a stake account above its delegation and rent exemption. -/
def additionalLamports (info : StakeMeta) (stake : Stake) (lamports : Nat) : Nat :=
  lamports - stake.delegation.stake - info.rentExemptReserve

/-- Account for a delegated validator stake, by the status of its entry. -/
def settleValidator (c : UpdateContext) (status : PodStakeStatus) (stake : Stake)
    (validatorKey : Pubkey) (w : Ledger) : Except ProgramError (PodStakeStatus × Nat × Ledger) := do
  match ← status.tryInto with
  | .active => return (status, (w validatorKey).lamports, w)
  | .deactivatingValidator | .deactivatingAll =>
    if c.noMerge = true ∨ ¬ stakeIsInactiveWithoutHistory stake sv.epoch then
      return (status, (w validatorKey).lamports, w)
    else do
      let w ← c.merge rt sv validatorKey c.reserve w
      let status ← status.removeValidatorStake
      return (status, 0, w)
  | .deactivatingTransient | .readyForRemoval => return (status, 0, w)

/-- The validator half of a visit: new status, `active_stake_lamports`, ledger. -/
def refreshValidator (c : UpdateContext) (status : PodStakeStatus) (transientLamports : Nat)
    (validatorKey : Pubkey) (w : Ledger) : Except ProgramError (PodStakeStatus × Nat × Ledger) :=
  match (w validatorKey).tryStakeState.toOption with
  | some (.stake info stake) =>
    if c.usable info then do
      let additional := additionalLamports info stake (w validatorKey).lamports
      let w ← onlyIf (additional > 0)
        (stakeWithdraw rt sv c.pool validatorKey c.authority c.stakePool.stakeWithdrawBumpSeed
          c.reserve c.clock c.history additional) w
      settleValidator rt sv c status stake validatorKey w
    else .ok (status, 0, w)
  | some (.initialized info) =>
    if c.usable info then do
      let w ← c.merge rt sv validatorKey c.reserve w
      return ((if transientLamports ≠ 0 then StakeStatus.deactivatingTransient
        else .readyForRemoval).toPod, 0, w)
    else .ok (status, 0, w)
  | _ => .ok (status, 0, w)

/-- Are these the accounts of the entry? -/
def ownAccounts (pool : Pubkey) (v : ValidatorStakeInfo) (validatorKey transientKey : Pubkey) :
    Prop :=
  (findStakeProgramAddress rt v.voteAccountAddress pool v.validatorSeedSuffix).1 = validatorKey ∧
    (findTransientStakeProgramAddress rt v.voteAccountAddress pool v.transientSeedSuffix).1 =
      transientKey

instance (pool : Pubkey) (v : ValidatorStakeInfo) (validatorKey transientKey : Pubkey) :
    Decidable (ownAccounts rt pool v validatorKey transientKey) := inferInstanceAs (Decidable (_ ∧ _))

/-- One turn of the update loop.  An entry paired with other accounts is skipped. -/
def refreshEntry (c : UpdateContext) (v : ValidatorStakeInfo) (validatorKey transientKey : Pubkey)
    (w : Ledger) : Except ProgramError (ValidatorStakeInfo × Ledger) :=
  if ownAccounts rt c.pool v validatorKey transientKey then do
    let (status, transientLamports, w) ← refreshTransient rt sv c v validatorKey transientKey w
    let (status, activeLamports, w) ← refreshValidator rt sv c status transientLamports validatorKey w
    return ({ v with
      status := status
      lastUpdateEpoch := sv.epoch
      activeStakeLamports := activeLamports
      transientStakeLamports := transientLamports }, w)
  else .ok (v, w)

/-- The update loop over a slice of the list and its account pairs. -/
def refreshEntries (c : UpdateContext) :
    List ValidatorStakeInfo → List (Pubkey × Pubkey) → Ledger →
      Except ProgramError (List ValidatorStakeInfo × Ledger)
  | v :: vs, (validatorKey, transientKey) :: pairs, w => do
    let r ← refreshEntry rt sv c v validatorKey transientKey w
    let rest ← refreshEntries c vs pairs r.2
    return (r.1 :: rest.1, rest.2)
  | vs, _, w => .ok (vs, w)

/-- `chunks_exact(2)`. -/
def stakePairs : List AccountMeta → List (Pubkey × Pubkey)
  | a :: b :: rest => (a.key, b.key) :: stakePairs rest
  | _ => []

def processUpdateValidatorListBalance (accounts : List AccountMeta) (startIndex : UInt32)
    (noMerge : Bool) (w : Ledger) : Except ProgramError Ledger := do
  let stakePoolInfo ← accountAt accounts 0
  let withdrawAuthorityInfo ← accountAt accounts 1
  let validatorListInfo ← accountAt accounts 2
  let reserveStakeInfo ← accountAt accounts 3
  let clockInfo ← accountAt accounts 4
  checkSysvar clockInfo rt.clockId
  let stakeHistoryInfo ← accountAt accounts 5
  let stakeProgramInfo ← accountAt accounts 6
  let validatorStakeAccounts := accounts.drop 7
  let stakePool ← loadStakePool rt w stakePoolInfo.key
  stakePool.checkValidatorList validatorListInfo.key
  stakePool.checkAuthorityWithdraw rt withdrawAuthorityInfo.key stakePoolInfo.key
  stakePool.checkReserveStake reserveStakeInfo.key
  checkStakeProgram rt stakeProgramInfo.key
  failIf (sv.epochRewardsActive = true) (.custom .epochRewardDistributionInProgress)
  failIf (validatorStakeAccounts.length % 2 ≠ 0) (.custom .unexpectedValidatorListAccountSize)
  checkAccountOwner (w validatorListInfo.key) rt.programId
  let validatorList ← (w validatorListInfo.key).tryValidatorList
  failIf (startIndex.toNat + validatorStakeAccounts.length / 2 > validatorList.validators.length)
    .accountDataTooSmall
  failIf (¬ validatorList.header.isValid) (.custom .invalidState)
  let c : UpdateContext :=
    { pool := stakePoolInfo.key, stakePool, authority := withdrawAuthorityInfo,
      reserve := reserveStakeInfo.key, clock := clockInfo.key, history := stakeHistoryInfo.key,
      noMerge }
  let (refreshed, w) ← refreshEntries rt sv c (validatorList.validators.drop startIndex.toNat)
    (stakePairs validatorStakeAccounts) w
  return writeValidatorList w validatorListInfo.key { validatorList with
    validators := validatorList.validators.take startIndex.toNat ++ refreshed }

/-- A successful `UpdateValidatorListBalance`, taken apart. -/
structure UpdateListRun (accounts : List AccountMeta) (startIndex : UInt32) (noMerge : Bool)
    (w w' : Ledger) where
  pool : AccountMeta
  authority : AccountMeta
  list : AccountMeta
  reserve : AccountMeta
  clock : AccountMeta
  history : AccountMeta
  program : AccountMeta
  p : StakePool
  l : ValidatorList
  refreshed : List ValidatorStakeInfo
  settled : Ledger
  pool_at : accounts[0]? = some pool
  authority_at : accounts[1]? = some authority
  list_at : accounts[2]? = some list
  reserve_at : accounts[3]? = some reserve
  clock_at : accounts[4]? = some clock
  clock_key : clock.key = rt.clockId
  history_at : accounts[5]? = some history
  program_at : accounts[6]? = some program
  isPool : PoolAt rt w pool.key p
  list_key : list.key = p.validatorList
  isAuthority : poolAuthority rt pool.key authorityWithdraw p.stakeWithdrawBumpSeed =
    .ok authority.key
  isReserve : reserve.key = p.reserveStake
  program_key : program.key = rt.stakeProgramId
  rewards : sv.epochRewardsActive = false
  even : (accounts.drop 7).length % 2 = 0
  isList : ListAt rt w list.key l
  bound : startIndex.toNat + (accounts.drop 7).length / 2 ≤ l.validators.length
  refresh : refreshEntries rt sv
    { pool := pool.key, stakePool := p, authority, reserve := reserve.key, clock := clock.key,
      history := history.key, noMerge }
    (l.validators.drop startIndex.toNat) (stakePairs (accounts.drop 7)) w = .ok (refreshed, settled)
  result : w' = writeValidatorList settled list.key
    { l with validators := l.validators.take startIndex.toNat ++ refreshed }

theorem processUpdateValidatorListBalance_run {accounts : List AccountMeta} {startIndex : UInt32}
    {noMerge : Bool} {w w' : Ledger} :
    processUpdateValidatorListBalance rt sv accounts startIndex noMerge w = .ok w' ↔
      Nonempty (UpdateListRun rt sv accounts startIndex noMerge w w') := by
  simp only [processUpdateValidatorListBalance, bind_eq_ok, accountAt_eq_ok, exists_unit,
    failIf_eq_ok, checkSysvar_eq_ok, checkStakeProgram_eq_ok, loadStakePool_eq_ok,
    StakePool.checkAuthorityWithdraw_eq_ok, StakePool.checkValidatorList_eq_ok,
    StakePool.checkReserveStake_eq_ok, checkAccountOwner_eq_ok, pure_eq_ok, Prod.exists,
    Decidable.not_not, Bool.not_eq_true, gt_iff_lt, Nat.not_lt, ne_eq]
  constructor
  · intro h
    obtain ⟨pool, pool_at, authority, authority_at, list, list_at, reserve, reserve_at, clock,
      clock_at, clock_key, history, history_at, program, program_at, p, isPool, list_key,
      isAuthority, isReserve, h⟩ := h
    obtain ⟨program_key, rewards, even, list_owner, l, list_data, bound, valid, refreshed, settled,
      refresh, result⟩ := h
    exact ⟨{
      pool, authority, list, reserve, clock, history, program, p, l, refreshed, settled, pool_at,
      authority_at, list_at, reserve_at, clock_at, clock_key, history_at, program_at, isPool,
      list_key, isAuthority, isReserve, program_key, rewards, even, bound, refresh
      isList := ⟨list_owner, Account.tryValidatorList_valid list_data valid, valid⟩
      result := result.symm }⟩
  · rintro ⟨r⟩
    have list_data : (w r.list.key).tryValidatorList = .ok r.l := by
      rw [Account.tryValidatorList, r.isList.data]
    exact ⟨r.pool, r.pool_at, r.authority, r.authority_at, r.list, r.list_at, r.reserve,
      r.reserve_at, r.clock, r.clock_at, r.clock_key, r.history, r.history_at, r.program,
      r.program_at, r.p, r.isPool, r.list_key, r.isAuthority, r.isReserve, r.program_key, r.rewards,
      r.even, r.isList.owner, r.l, list_data, r.bound, r.isList.valid, r.refreshed, r.settled,
      r.refresh, r.result.symm⟩

/-! ## `UpdateStakePoolBalance` -/

/-- Add up the recorded lamports; an entry not visited this epoch is an error. -/
def sumStakeLamports (epoch : Epoch) : Nat → List ValidatorStakeInfo → Except ProgramError Nat
  | total, [] => .ok total
  | total, v :: vs => do
    failIf (v.lastUpdateEpoch < epoch) (.custom .stakeListOutOfDate)
    let stakeLamports ← raise v.stakeLamports
    let total ← okOr (checkedAdd 64 total stakeLamports) (.custom .calculationFailure)
    sumStakeLamports epoch total vs

/-- The lamports of the reserve that back pool tokens. -/
def reserveLamports (reserve : Account) : Except ProgramError Nat := do
  match ← reserve.tryStakeState with
  | .initialized info =>
    okOr (checkedSub reserve.lamports (minimumReserveLamports info)) (.custom .calculationFailure)
  | _ => throw (.custom .wrongStakeStake)

/-- The manager's epoch fee; an unusable fee account forfeits it. -/
def epochFeeAmount (p : StakePool) (managerFee : Account) (rewardLamports : Nat) :
    Except ProgramError Nat :=
  if succeeded (p.checkManagerFeeInfo managerFee) then
    okOr (p.calcEpochFeeAmount rewardLamports) (.custom .calculationFailure)
  else .ok 0

/-- The first update of an epoch advances the pending fees and records last epoch's values. -/
def StakePool.advanceEpoch (p : StakePool) (epoch : Epoch) : StakePool :=
  if p.lastUpdateEpoch < epoch then
    { p with
      epochFee := p.nextEpochFee.get.getD p.epochFee
      nextEpochFee := p.nextEpochFee.updateEpoch
      stakeWithdrawalFee := p.nextStakeWithdrawalFee.get.getD p.stakeWithdrawalFee
      nextStakeWithdrawalFee := p.nextStakeWithdrawalFee.updateEpoch
      solWithdrawalFee := p.nextSolWithdrawalFee.get.getD p.solWithdrawalFee
      nextSolWithdrawalFee := p.nextSolWithdrawalFee.updateEpoch
      lastUpdateEpoch := epoch
      lastEpochTotalLamports := p.totalLamports
      lastEpochPoolTokenSupply := p.poolTokenSupply }
  else p

def processUpdateStakePoolBalance (accounts : List AccountMeta) (w : Ledger) :
    Except ProgramError Ledger := do
  let stakePoolInfo ← accountAt accounts 0
  let withdrawInfo ← accountAt accounts 1
  let validatorListInfo ← accountAt accounts 2
  let reserveStakeInfo ← accountAt accounts 3
  let managerFeeInfo ← accountAt accounts 4
  let poolMintInfo ← accountAt accounts 5
  let tokenProgramInfo ← accountAt accounts 6
  let stakePool ← loadStakePool rt w stakePoolInfo.key
  let _ ← stakePool.checkMint w poolMintInfo.key
  stakePool.checkAuthorityWithdraw rt withdrawInfo.key stakePoolInfo.key
  stakePool.checkReserveStake reserveStakeInfo.key
  failIf (stakePool.managerFeeAccount ≠ managerFeeInfo.key) (.custom .invalidFeeAccount)
  stakePool.checkValidatorList validatorListInfo.key
  failIf (stakePool.tokenProgramId ≠ tokenProgramInfo.key) .incorrectProgramId
  let validatorList ← loadValidatorList rt w validatorListInfo.key
  let inReserve ← reserveLamports (w reserveStakeInfo.key)
  let totalLamports ← sumStakeLamports sv.epoch inReserve validatorList.validators
  let rewardLamports := totalLamports - stakePool.totalLamports
  let fee ← epochFeeAmount stakePool (w managerFeeInfo.key) rewardLamports
  let w ← onlyIf (fee > 0)
    (tokenMintTo rt stakePoolInfo.key tokenProgramInfo.key poolMintInfo.key managerFeeInfo.key
      withdrawInfo stakePool.stakeWithdrawBumpSeed fee) w
  let poolMint ← (w poolMintInfo.key).unpackMint
  writeStakePool w stakePoolInfo.key
    { stakePool.advanceEpoch sv.epoch with totalLamports, poolTokenSupply := poolMint.supply }

/-- A successful `UpdateStakePoolBalance`, taken apart. -/
structure UpdatePoolRun (accounts : List AccountMeta) (w w' : Ledger) where
  pool : AccountMeta
  authority : AccountMeta
  list : AccountMeta
  reserve : AccountMeta
  managerFee : AccountMeta
  mint : AccountMeta
  tokenProgram : AccountMeta
  p : StakePool
  l : ValidatorList
  before : Mint
  inReserve : Nat
  total : Nat
  fee : Nat
  minted : Ledger
  after : Mint
  pool_at : accounts[0]? = some pool
  authority_at : accounts[1]? = some authority
  list_at : accounts[2]? = some list
  reserve_at : accounts[3]? = some reserve
  managerFee_at : accounts[4]? = some managerFee
  mint_at : accounts[5]? = some mint
  tokenProgram_at : accounts[6]? = some tokenProgram
  isPool : PoolAt rt w pool.key p
  mint_key : mint.key = p.poolMint
  mint_before : (w mint.key).data = .mint before
  isAuthority : poolAuthority rt pool.key authorityWithdraw p.stakeWithdrawBumpSeed =
    .ok authority.key
  isReserve : reserve.key = p.reserveStake
  isManagerFee : managerFee.key = p.managerFeeAccount
  list_key : list.key = p.validatorList
  token_key : tokenProgram.key = p.tokenProgramId
  isList : ListAt rt w list.key l
  in_reserve : reserveLamports (w reserve.key) = .ok inReserve
  sum : sumStakeLamports sv.epoch inReserve l.validators = .ok total
  fee_eq : epochFeeAmount p (w managerFee.key) (total - p.totalLamports) = .ok fee
  mint_fee : onlyIf (fee > 0) (tokenMintTo rt pool.key tokenProgram.key mint.key managerFee.key
    authority p.stakeWithdrawBumpSeed fee) w = .ok minted
  mint_after : (minted mint.key).data = .mint after
  result : writeStakePool minted pool.key { p.advanceEpoch sv.epoch with
    totalLamports := total, poolTokenSupply := after.supply } = .ok w'

theorem processUpdateStakePoolBalance_run {accounts : List AccountMeta} {w w' : Ledger} :
    processUpdateStakePoolBalance rt sv accounts w = .ok w' ↔
      Nonempty (UpdatePoolRun rt sv accounts w w') := by
  simp only [processUpdateStakePoolBalance, bind_eq_ok, accountAt_eq_ok, exists_unit, failIf_eq_ok,
    loadStakePool_eq_ok, StakePool.checkMint_eq_ok, StakePool.checkAuthorityWithdraw_eq_ok,
    StakePool.checkReserveStake_eq_ok, StakePool.checkValidatorList_eq_ok, loadValidatorList_eq_ok,
    Account.unpackMint_eq_ok, Decidable.not_not, ne_eq]
  constructor
  · intro h
    obtain ⟨pool, pool_at, authority, authority_at, list, list_at, reserve, reserve_at, managerFee,
      managerFee_at, mint, mint_at, tokenProgram, tokenProgram_at, p, isPool, decimals, ⟨mint_key,
      before, mint_before, -⟩, isAuthority, isReserve, h⟩ := h
    obtain ⟨isManagerFee, list_key, token_key, l, isList, inReserve, in_reserve, total, sum, fee,
      fee_eq, minted, mint_fee, after, mint_after, result⟩ := h
    exact ⟨{
      pool, authority, list, reserve, managerFee, mint, tokenProgram, p, l, before, inReserve, total,
      fee, minted, after, pool_at, authority_at, list_at, reserve_at, managerFee_at, mint_at,
      tokenProgram_at, isPool, mint_key, mint_before, isAuthority, isReserve, list_key, isList,
      in_reserve, sum, fee_eq, mint_fee, mint_after, result
      isManagerFee := isManagerFee.symm, token_key := token_key.symm }⟩
  · rintro ⟨r⟩
    exact ⟨r.pool, r.pool_at, r.authority, r.authority_at, r.list, r.list_at, r.reserve,
      r.reserve_at, r.managerFee, r.managerFee_at, r.mint, r.mint_at, r.tokenProgram,
      r.tokenProgram_at, r.p, r.isPool, _, ⟨r.mint_key, r.before, r.mint_before, rfl⟩, r.isAuthority,
      r.isReserve, r.isManagerFee.symm, r.list_key, r.token_key.symm, r.l, r.isList, r.inReserve,
      r.in_reserve, r.total, r.sum, r.fee, r.fee_eq, r.minted, r.mint_fee, r.after, r.mint_after,
      r.result⟩

/-! ## `CleanupRemovedValidatorEntries` -/

/-- Keep a preferred validator only while it is listed and active. -/
def keepPreferred (l : ValidatorList) (preferred : Option Pubkey) : Option Pubkey :=
  preferred.filter fun vote =>
    match l.find vote with
    | some v => v.status.toStatus? == some .active
    | none => false

/-- The list without its removed entries. -/
def ValidatorList.cleaned (l : ValidatorList) : ValidatorList :=
  { l with validators := l.validators.filter fun v => !v.isRemoved }

/-- The pool with its stale preferred validators reset. -/
def StakePool.keepListed (p : StakePool) (l : ValidatorList) : StakePool :=
  { p with
    preferredDepositValidatorVoteAddress := keepPreferred l p.preferredDepositValidatorVoteAddress
    preferredWithdrawValidatorVoteAddress := keepPreferred l p.preferredWithdrawValidatorVoteAddress }

/-- Reset stale preferred validators. -/
def cleanupPreferred (w : Ledger) (key : Pubkey) (l : ValidatorList) :
    Except ProgramError Ledger := do
  let stakePool ← (w key).tryStakePool
  writeStakePool w key (stakePool.keepListed l)

def processCleanupRemovedValidatorEntries (accounts : List AccountMeta) (w : Ledger) :
    Except ProgramError Ledger := do
  let stakePoolInfo ← accountAt accounts 0
  let validatorListInfo ← accountAt accounts 1
  let stakePool ← loadStakePool rt w stakePoolInfo.key
  stakePool.checkValidatorList validatorListInfo.key
  let validatorList ← loadValidatorList rt w validatorListInfo.key
  let w := writeValidatorList w validatorListInfo.key validatorList.cleaned
  onlyIf (stakePoolInfo.isWritable = true)
    (fun w => cleanupPreferred w stakePoolInfo.key validatorList.cleaned) w

/-- A successful `CleanupRemovedValidatorEntries`, taken apart. -/
structure CleanupRun (accounts : List AccountMeta) (w w' : Ledger) where
  pool : AccountMeta
  p : StakePool
  l : ValidatorList
  pool_at : accounts[0]? = some pool
  isPool : PoolAt rt w pool.key p
  isList : ListAt rt w p.validatorList l
  result : onlyIf (pool.isWritable = true)
    (fun w => writeStakePool w pool.key (p.keepListed l.cleaned))
    (writeValidatorList w p.validatorList l.cleaned) = .ok w'

theorem processCleanupRemovedValidatorEntries_run {accounts : List AccountMeta} {w w' : Ledger}
    (h : processCleanupRemovedValidatorEntries rt accounts w = .ok w') :
    Nonempty (CleanupRun rt accounts w w') := by
  simp only [processCleanupRemovedValidatorEntries, bind_eq_ok, accountAt_eq_ok, exists_unit,
    loadStakePool_eq_ok, StakePool.checkValidatorList_eq_ok, loadValidatorList_eq_ok] at h
  obtain ⟨pool, pool_at, list, -, p, isPool, list_key, l, isList, result⟩ := h
  rw [list_key] at isList result
  refine ⟨{ pool, p, l, pool_at, isPool, isList, result := ?_ }⟩
  -- The pool is read again after the list was written, which left it alone.
  have reread : (writeValidatorList w p.validatorList l.cleaned pool.key).tryStakePool = .ok p := by
    rw [writeValidatorList, Ledger.set_other _ _ (isPool.ne_list isList), Account.tryStakePool,
      isPool.data]
  rw [← result]
  unfold onlyIf cleanupPreferred
  by_cases hw : pool.isWritable = true
  · rw [if_pos hw, if_pos hw]
    beta_reduce
    rw [reread]
    rfl
  · rw [if_neg hw, if_neg hw]

end StakePoolFogo
