import StakePoolFogo.Processor.Invoke

/-! `AddValidatorToPool`, `RemoveValidatorFromPool` and `SetPreferredValidator`. -/

open StakePoolFogo.Checked StakePoolFogo.Outcome

namespace StakePoolFogo

variable (rt : Runtime) (sv : Sysvars)

/-- The lamports a validator stake account starts with: the minimum delegation and its rent. -/
def initialValidatorLamports : Nat :=
  saturatingAdd 64 (minimumDelegation sv.stakeMinimumDelegation) (sv.minimumBalance stakeSpace)

/-- The entry `AddValidatorToPool` pushes. -/
def newValidatorStakeInfo (vote : Pubkey) (seed : UInt32) : ValidatorStakeInfo where
  activeStakeLamports := initialValidatorLamports sv
  transientStakeLamports := 0
  lastUpdateEpoch := sv.epoch
  transientSeedSuffix := 0
  unused := 0
  validatorSeedSuffix := seed
  status := StakeStatus.active.toPod
  voteAccountAddress := vote

/-- `BigVec::push`. -/
def pushValidator (w : Ledger) (key : Pubkey) (l : ValidatorList) (v : ValidatorStakeInfo) :
    Except ProgramError Ledger := do
  failIf ((w key).dataLen < ValidatorList.packedLen (l.validators.length + 1)) .accountDataTooSmall
  return writeValidatorList w key { l with validators := l.validators ++ [v] }

def processAddValidatorToPool (accounts : List AccountMeta) (rawValidatorSeed : UInt32)
    (w : Ledger) : Except ProgramError Ledger := do
  let stakePoolInfo ← accountAt accounts 0
  let stakerInfo ← accountAt accounts 1
  let reserveStakeInfo ← accountAt accounts 2
  let withdrawAuthorityInfo ← accountAt accounts 3
  let validatorListInfo ← accountAt accounts 4
  let stakeInfo ← accountAt accounts 5
  let validatorVoteInfo ← accountAt accounts 6
  let rentInfo ← accountAt accounts 7
  checkSysvar rentInfo rt.rentId
  let clockInfo ← accountAt accounts 8
  checkSysvar clockInfo rt.clockId
  let stakeHistoryInfo ← accountAt accounts 9
  let stakeConfigInfo ← accountAt accounts 10
  let systemProgramInfo ← accountAt accounts 11
  let stakeProgramInfo ← accountAt accounts 12
  checkSystemProgram rt systemProgramInfo.key
  checkStakeProgram rt stakeProgramInfo.key
  let stakePool ← loadStakePool rt w stakePoolInfo.key
  stakePool.checkAuthorityWithdraw rt withdrawAuthorityInfo.key stakePoolInfo.key
  stakePool.checkStaker stakerInfo
  stakePool.checkReserveStake reserveStakeInfo.key
  stakePool.checkValidatorList validatorListInfo.key
  failIf (stakePool.lastUpdateEpoch < sv.epoch) (.custom .stakeListAndPoolOutOfDate)
  let validatorList ← loadValidatorList rt w validatorListInfo.key
  failIf (validatorList.header.maxValidators.toNat = validatorList.validators.length)
    .accountDataTooSmall
  failIf (validatorList.validators.length ≥ maxValidatorsInPool) (.custom .tooManyValidatorsInPool)
  failIf ((validatorList.find validatorVoteInfo.key).isSome = true) (.custom .validatorAlreadyAdded)
  let stakeAddress :=
    findStakeProgramAddress rt validatorVoteInfo.key stakePoolInfo.key rawValidatorSeed
  failIf (stakeAddress.1 ≠ stakeInfo.key) (.custom .invalidStakeAccountAddress)
  let requiredLamports := initialValidatorLamports sv
  let reserveStake ← (w reserveStakeInfo.key).tryStakeState
  let reserveMeta ← okOr reserveStake.meta? (.custom .wrongStakeStake)
  failIf ((w reserveStakeInfo.key).lamports - requiredLamports < minimumReserveLamports reserveMeta)
    .insufficientFunds
  let w ← createStakeAccount rt stakeInfo
    (validatorStakeSeeds validatorVoteInfo.key stakePoolInfo.key rawValidatorSeed ++
      [[stakeAddress.2]]) stakeSpace w
  let w ← stakeSplit rt sv stakePoolInfo.key reserveStakeInfo.key withdrawAuthorityInfo
    stakePool.stakeWithdrawBumpSeed requiredLamports stakeInfo.key w
  let w ← stakeDelegate rt sv stakeInfo.key validatorVoteInfo.key clockInfo.key
    stakeHistoryInfo.key stakeConfigInfo.key withdrawAuthorityInfo stakePoolInfo.key
    stakePool.stakeWithdrawBumpSeed w
  pushValidator w validatorListInfo.key validatorList
    (newValidatorStakeInfo sv validatorVoteInfo.key rawValidatorSeed)

/-- A successful `AddValidatorToPool`, taken apart: the accounts, what the checks found, and the
ledger after each call. -/
structure AddValidatorRun (accounts : List AccountMeta) (seed : UInt32) (w w' : Ledger) where
  pool : AccountMeta
  staker : AccountMeta
  reserve : AccountMeta
  authority : AccountMeta
  list : AccountMeta
  stake : AccountMeta
  vote : AccountMeta
  clock : AccountMeta
  history : AccountMeta
  config : AccountMeta
  p : StakePool
  l : ValidatorList
  reserveState : StakeStateV2
  reserveMeta : StakeMeta
  bump : UInt8
  created : Ledger
  funded : Ledger
  delegated : Ledger
  pool_at : accounts[0]? = some pool
  staker_at : accounts[1]? = some staker
  isPool : PoolAt rt w pool.key p
  isAuthority : poolAuthority rt pool.key authorityWithdraw p.stakeWithdrawBumpSeed =
    .ok authority.key
  isStaker : staker.key = p.staker ∧ staker.isSigner = true
  isReserve : reserve.key = p.reserveStake
  list_key : list.key = p.validatorList
  upToDate : ¬ p.lastUpdateEpoch < sv.epoch
  isList : ListAt rt w list.key l
  room : l.header.maxValidators.toNat ≠ l.validators.length
  notListed : l.find vote.key = none
  stake_key : findStakeProgramAddress rt vote.key pool.key seed = (stake.key, bump)
  reserve_state : (w reserve.key).tryStakeState = .ok reserveState
  reserve_meta : reserveState.meta? = some reserveMeta
  reserve_enough : minimumReserveLamports reserveMeta ≤
    (w reserve.key).lamports - initialValidatorLamports sv
  create : createStakeAccount rt stake (validatorStakeSeeds vote.key pool.key seed ++ [[bump]])
    stakeSpace w = .ok created
  split : stakeSplit rt sv pool.key reserve.key authority p.stakeWithdrawBumpSeed
    (initialValidatorLamports sv) stake.key created = .ok funded
  delegate : stakeDelegate rt sv stake.key vote.key clock.key history.key config.key authority
    pool.key p.stakeWithdrawBumpSeed funded = .ok delegated
  result : w' = writeValidatorList delegated list.key
    { l with validators := l.validators ++ [newValidatorStakeInfo sv vote.key seed] }

theorem processAddValidatorToPool_run {accounts : List AccountMeta} {seed : UInt32} {w w' : Ledger}
    (h : processAddValidatorToPool rt sv accounts seed w = .ok w') :
    Nonempty (AddValidatorRun rt sv accounts seed w w') := by
  simp only [processAddValidatorToPool, pushValidator, bind_eq_ok, accountAt_eq_ok, exists_unit,
    failIf_eq_ok, checkSysvar_eq_ok, checkSystemProgram_eq_ok, checkStakeProgram_eq_ok,
    loadStakePool_eq_ok, StakePool.checkAuthorityWithdraw_eq_ok, StakePool.checkStaker_eq_ok,
    StakePool.checkReserveStake_eq_ok, StakePool.checkValidatorList_eq_ok, loadValidatorList_eq_ok,
    okOr_eq_ok, pure_eq_ok, Decidable.not_not, Bool.not_eq_true, Option.isSome_eq_false_iff,
    Option.isNone_iff_eq_none, Nat.not_lt] at h
  obtain ⟨pool, pool_at, staker, staker_at, reserve, -, authority, -, list, -, stake, -, vote, -,
    rent, -, -, clock, -, -, h⟩ := h
  obtain ⟨history, -, config, -, system, -, program, -, -, -, p, isPool, isAuthority, isStaker,
    isReserve, list_key, upToDate, l, isList, room, h⟩ := h
  obtain ⟨-, notListed, stake_key, reserveState, reserve_state, reserveMeta, reserve_meta,
    reserve_enough, created, create, funded, split, delegated, delegate, -, result⟩ := h
  exact ⟨{
    pool, staker, reserve, authority, list, stake, vote, clock, history, config, p, l, reserveState,
    reserveMeta, created, funded, delegated, pool_at, staker_at, isPool, isAuthority, isStaker,
    isReserve, list_key, upToDate := Nat.not_lt.mpr upToDate, isList, room, notListed, reserve_state,
    reserve_meta, reserve_enough, create, split, delegate
    bump := _
    stake_key := Prod.ext stake_key rfl
    result := result.symm }⟩

/-- Deactivate the transient stake of a validator that leaves, if it is the pool's and active. -/
def deactivateTransient (pool transient clock : Pubkey) (authority : AccountMeta) (p : StakePool)
    (w : Ledger) : Except ProgramError Ledger :=
  match getStakeState (w transient) with
  | .ok (info, stake) =>
    onlyIf (stakeIsUsableByPool info authority.key p.lockup ∧
        stake.delegation.deactivationEpoch = epochMax)
      (stakeDeactivate rt sv transient clock authority pool p.stakeWithdrawBumpSeed) w
  | .error _ => .ok w

/-- The status a removed entry gets; a recorded transient stake is checked and deactivated. -/
def removalStatus (pool transient clock vote : Pubkey) (authority : AccountMeta) (p : StakePool)
    (v : ValidatorStakeInfo) (w : Ledger) : Except ProgramError (StakeStatus × Ledger) :=
  if v.transientStakeLamports > 0 then do
    let _ ← checkTransientStakeAddress rt pool transient vote v.transientSeedSuffix
    let w ← deactivateTransient rt sv pool transient clock authority p w
    return (.deactivatingAll, w)
  else .ok (.deactivatingValidator, w)

/-- Unset the preferred validators that are `vote`. -/
def StakePool.forgetPreferred (p : StakePool) (vote : Pubkey) : StakePool :=
  { p with
    preferredDepositValidatorVoteAddress :=
      if p.preferredDepositValidatorVoteAddress = some vote then none
      else p.preferredDepositValidatorVoteAddress
    preferredWithdrawValidatorVoteAddress :=
      if p.preferredWithdrawValidatorVoteAddress = some vote then none
      else p.preferredWithdrawValidatorVoteAddress }

def processRemoveValidatorFromPool (accounts : List AccountMeta) (w : Ledger) :
    Except ProgramError Ledger := do
  let stakePoolInfo ← accountAt accounts 0
  let stakerInfo ← accountAt accounts 1
  let withdrawAuthorityInfo ← accountAt accounts 2
  let validatorListInfo ← accountAt accounts 3
  let stakeAccountInfo ← accountAt accounts 4
  let transientStakeAccountInfo ← accountAt accounts 5
  let clockInfo ← accountAt accounts 6
  checkSysvar clockInfo rt.clockId
  let stakeProgramInfo ← accountAt accounts 7
  checkStakeProgram rt stakeProgramInfo.key
  let stakePool ← loadStakePool rt w stakePoolInfo.key
  stakePool.checkAuthorityWithdraw rt withdrawAuthorityInfo.key stakePoolInfo.key
  stakePool.checkStaker stakerInfo
  failIf (stakePool.lastUpdateEpoch < sv.epoch) (.custom .stakeListAndPoolOutOfDate)
  stakePool.checkValidatorList validatorListInfo.key
  let validatorList ← loadValidatorList rt w validatorListInfo.key
  let (_, stake) ← getStakeState (w stakeAccountInfo.key)
  let vote := stake.delegation.voterPubkey
  let validator ← okOr (validatorList.find vote) (.custom .validatorNotFound)
  checkValidatorStakeAddress rt stakePoolInfo.key stakeAccountInfo.key vote
    validator.validatorSeedSuffix
  failIf (validator.status ≠ StakeStatus.active.toPod) (.custom .validatorNotFound)
  let (newStatus, w) ← removalStatus rt sv stakePoolInfo.key transientStakeAccountInfo.key
    clockInfo.key vote withdrawAuthorityInfo stakePool validator w
  let w ← onlyIf (stake.delegation.deactivationEpoch = epochMax)
    (stakeDeactivate rt sv stakeAccountInfo.key clockInfo.key withdrawAuthorityInfo
      stakePoolInfo.key stakePool.stakeWithdrawBumpSeed) w
  let w := writeValidatorList w validatorListInfo.key
    (validatorList.modify vote fun v => { v with status := newStatus.toPod })
  writeStakePool w stakePoolInfo.key (stakePool.forgetPreferred vote)

/-- A successful `RemoveValidatorFromPool`, taken apart. -/
structure RemoveValidatorRun (accounts : List AccountMeta) (w w' : Ledger) where
  pool : AccountMeta
  staker : AccountMeta
  authority : AccountMeta
  list : AccountMeta
  stakeAccount : AccountMeta
  transient : AccountMeta
  clock : AccountMeta
  p : StakePool
  l : ValidatorList
  info : StakeMeta
  stake : Stake
  v : ValidatorStakeInfo
  newStatus : StakeStatus
  settled : Ledger
  deactivated : Ledger
  pool_at : accounts[0]? = some pool
  staker_at : accounts[1]? = some staker
  isPool : PoolAt rt w pool.key p
  isAuthority : poolAuthority rt pool.key authorityWithdraw p.stakeWithdrawBumpSeed =
    .ok authority.key
  isStaker : staker.key = p.staker ∧ staker.isSigner = true
  upToDate : ¬ p.lastUpdateEpoch < sv.epoch
  list_key : list.key = p.validatorList
  isList : ListAt rt w list.key l
  stake_state : (w stakeAccount.key).data = .stake (.stake info stake)
  found : l.find stake.delegation.voterPubkey = some v
  stake_key : (findStakeProgramAddress rt stake.delegation.voterPubkey pool.key
    v.validatorSeedSuffix).1 = stakeAccount.key
  active : v.status = StakeStatus.active.toPod
  removal : removalStatus rt sv pool.key transient.key clock.key stake.delegation.voterPubkey
    authority p v w = .ok (newStatus, settled)
  deactivate : onlyIf (stake.delegation.deactivationEpoch = epochMax)
    (stakeDeactivate rt sv stakeAccount.key clock.key authority pool.key p.stakeWithdrawBumpSeed)
    settled = .ok deactivated
  result : writeStakePool (writeValidatorList deactivated list.key
    (l.modify stake.delegation.voterPubkey fun v => { v with status := newStatus.toPod })) pool.key
    (p.forgetPreferred stake.delegation.voterPubkey) = .ok w'

theorem processRemoveValidatorFromPool_run {accounts : List AccountMeta} {w w' : Ledger}
    (h : processRemoveValidatorFromPool rt sv accounts w = .ok w') :
    Nonempty (RemoveValidatorRun rt sv accounts w w') := by
  simp only [processRemoveValidatorFromPool, bind_eq_ok, accountAt_eq_ok, exists_unit, failIf_eq_ok,
    checkSysvar_eq_ok, checkStakeProgram_eq_ok, loadStakePool_eq_ok,
    StakePool.checkAuthorityWithdraw_eq_ok, StakePool.checkStaker_eq_ok,
    StakePool.checkValidatorList_eq_ok, loadValidatorList_eq_ok, okOr_eq_ok, Decidable.not_not,
    getStakeState_eq_ok, Prod.exists, checkValidatorStakeAddress_eq_ok] at h
  obtain ⟨pool, pool_at, staker, staker_at, authority, -, list, -, stakeAccount, -, transient, -,
    clock, -, -, program, -, -, p, isPool, h⟩ := h
  obtain ⟨isAuthority, isStaker, upToDate, list_key, l, isList, info, stake, stake_state, v, found,
    stake_key, active, newStatus, settled, removal, deactivated, deactivate, result⟩ := h
  exact ⟨{
    pool, staker, authority, list, stakeAccount, transient, clock, p, l, info, stake, v, newStatus,
    settled, deactivated, pool_at, staker_at, isPool, isAuthority, isStaker, upToDate, list_key,
    isList, stake_state, found, stake_key, active, removal, deactivate, result }⟩

inductive PreferredValidatorType where
  | deposit
  | withdraw
deriving DecidableEq, Repr

def StakePool.setPreferred (p : StakePool) (t : PreferredValidatorType) (vote : Option Pubkey) :
    StakePool :=
  match t with
  | .deposit => { p with preferredDepositValidatorVoteAddress := vote }
  | .withdraw => { p with preferredWithdrawValidatorVoteAddress := vote }

/-- A preferred validator must be listed and active. -/
def checkPreferred (l : ValidatorList) (vote : Option Pubkey) : Except ProgramError Unit :=
  match vote with
  | none => .ok ()
  | some vote => do
    let v ← okOr (l.find vote) (.custom .validatorNotFound)
    failIf (v.status ≠ StakeStatus.active.toPod) (.custom .invalidPreferredValidator)

def processSetPreferredValidator (accounts : List AccountMeta) (t : PreferredValidatorType)
    (vote : Option Pubkey) (w : Ledger) : Except ProgramError Ledger := do
  let stakePoolInfo ← accountAt accounts 0
  let stakerInfo ← accountAt accounts 1
  let validatorListInfo ← accountAt accounts 2
  checkAccountOwner (w stakePoolInfo.key) rt.programId
  checkAccountOwner (w validatorListInfo.key) rt.programId
  let stakePool ← loadStakePool rt w stakePoolInfo.key
  stakePool.checkStaker stakerInfo
  stakePool.checkValidatorList validatorListInfo.key
  let validatorList ← loadValidatorList rt w validatorListInfo.key
  checkPreferred validatorList vote
  writeStakePool w stakePoolInfo.key (stakePool.setPreferred t vote)

theorem checkPreferred_eq_ok {l : ValidatorList} {vote : Option Pubkey} {u : Unit} :
    checkPreferred l vote = .ok u ↔
      ∀ k ∈ vote, ∃ v, l.find k = some v ∧ v.status = StakeStatus.active.toPod := by
  cases vote with
  | none => simp [checkPreferred]
  | some k =>
    simp only [checkPreferred, bind_eq_ok, okOr_eq_ok, failIf_eq_ok, Decidable.not_not,
      Option.mem_def, Option.some.injEq, forall_eq']

/-- A successful `SetPreferredValidator`, taken apart. -/
structure SetPreferredRun (accounts : List AccountMeta) (t : PreferredValidatorType)
    (vote : Option Pubkey) (w w' : Ledger) where
  pool : AccountMeta
  staker : AccountMeta
  p : StakePool
  l : ValidatorList
  pool_at : accounts[0]? = some pool
  staker_at : accounts[1]? = some staker
  isPool : PoolAt rt w pool.key p
  isStaker : staker.key = p.staker ∧ staker.isSigner = true
  isList : ListAt rt w p.validatorList l
  preferred : ∀ k ∈ vote, ∃ v, l.find k = some v ∧ v.status = StakeStatus.active.toPod
  result : writeStakePool w pool.key (p.setPreferred t vote) = .ok w'

theorem processSetPreferredValidator_run {accounts : List AccountMeta} {t : PreferredValidatorType}
    {vote : Option Pubkey} {w w' : Ledger}
    (h : processSetPreferredValidator rt accounts t vote w = .ok w') :
    Nonempty (SetPreferredRun rt accounts t vote w w') := by
  simp only [processSetPreferredValidator, bind_eq_ok, accountAt_eq_ok, exists_unit,
    checkAccountOwner_eq_ok, loadStakePool_eq_ok, StakePool.checkStaker_eq_ok,
    StakePool.checkValidatorList_eq_ok, loadValidatorList_eq_ok, checkPreferred_eq_ok] at h
  obtain ⟨pool, pool_at, staker, staker_at, list, -, -, -, p, isPool, isStaker, list_key, l, isList,
    preferred, result⟩ := h
  exact ⟨{
    pool, staker, p, l, pool_at, staker_at, isPool, isStaker, preferred, result
    isList := by rw [← list_key]; exact isList }⟩

end StakePoolFogo
