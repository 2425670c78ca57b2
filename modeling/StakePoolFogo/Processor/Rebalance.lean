import StakePoolFogo.Processor.Invoke

/-!
# Rebalancing

The handlers behind `DecreaseValidatorStake`, `DecreaseValidatorStakeWithReserve`,
`DecreaseAdditionalValidatorStake`, `IncreaseValidatorStake` and `IncreaseAdditionalValidatorStake`.
An additional change goes through an ephemeral stake account that is merged into the transient one.
-/

open StakePoolFogo.Checked StakePoolFogo.Outcome

namespace StakePoolFogo

variable (rt : Runtime) (sv : Sysvars)

/-- `Option::zip`. -/
def optionZip {α β : Type} : Option α → Option β → Option (α × β)
  | some a, some b => some (a, b)
  | _, _ => none

/-- What the steps of a rebalancing call share. -/
structure RebalanceContext where
  pool : Pubkey
  stakePool : StakePool
  authority : AccountMeta
  clock : Pubkey
  history : Option Pubkey
  vote : Pubkey

/-- With transient stake pending, only an additional change on the same seed is allowed, and only
while the transient account still moves in the same direction (`checkDirection`). -/
def checkPendingTransient (v : ValidatorStakeInfo) (transientSeed : UInt64)
    (ephemeralSeed : Option UInt64) (checkDirection : Except ProgramError Unit) :
    Except ProgramError Unit :=
  if v.transientStakeLamports > 0 then do
    failIf (ephemeralSeed.isNone = true) (.custom .transientAccountInUse)
    failIf (transientSeed ≠ v.transientSeedSuffix) .invalidSeeds
    checkDirection
  else .ok ()

/-- Top up the rent exemption of a new ephemeral account from the reserve. -/
def fundEphemeral (c : RebalanceContext) (reserve : Option AccountMeta) (ephemeral : Pubkey)
    (w : Ledger) : Except ProgramError Ledger :=
  match reserve with
  | none => .ok w
  | some reserve => do
    let required := sv.minimumBalance stakeSpace - (w ephemeral).lamports
    onlyIf (required > 0) (fun w => do
      failIf (required ≥ (w reserve.key).lamports) (.custom .reserveDepleted)
      let history ← okOr c.history (.custom .missingRequiredSysvar)
      stakeWithdraw rt sv c.pool reserve.key c.authority c.stakePool.stakeWithdrawBumpSeed ephemeral
        c.clock history required w) w

/-- Top up the rent exemption of a new transient account from the reserve.  A full split from an
ephemeral account brings its rent exemption along and needs no funding. -/
def fundTransient (c : RebalanceContext) (reserve : Option AccountMeta) (source : Pubkey)
    (splitLamports : Nat) (transient : Pubkey) (w : Ledger) : Except ProgramError Ledger :=
  match reserve with
  | none => .ok w
  | some reserve => do
    let required := sv.minimumBalance stakeSpace - (w transient).lamports
    onlyIf ((w source).lamports ≠ splitLamports) (fun w => do
      let history ← okOr c.history (.custom .missingRequiredSysvar)
      failIf (required ≥ (w reserve.key).lamports) (.custom .reserveDepleted)
      onlyIf (required > 0)
        (stakeWithdraw rt sv c.pool reserve.key c.authority c.stakePool.stakeWithdrawBumpSeed
          transient c.clock history required) w) w

/-- Split the decrease off into an ephemeral account and deactivate it there. -/
def splitToEphemeral (c : RebalanceContext) (reserve : Option AccountMeta) (validatorStake : Pubkey)
    (lamports : Nat) (ephemeral : AccountMeta) (seed : UInt64) (w : Ledger) :
    Except ProgramError Ledger := do
  let bump ← checkEphemeralStakeAddress rt c.pool ephemeral.key seed
  let w ← createStakeAccount rt ephemeral (ephemeralStakeSeeds c.pool seed ++ [[bump]]) stakeSpace w
  let w ← fundEphemeral rt sv c reserve ephemeral.key w
  let w ← stakeSplit rt sv c.pool validatorStake c.authority c.stakePool.stakeWithdrawBumpSeed
    lamports ephemeral.key w
  stakeDeactivate rt sv ephemeral.key c.clock c.authority c.pool c.stakePool.stakeWithdrawBumpSeed w

/-- The account the transient stake comes from and how much of it is split off. -/
def decreaseSource (c : RebalanceContext) (reserve : Option AccountMeta) (validatorStake : Pubkey)
    (lamports : Nat) (ephemeral : Option (UInt64 × AccountMeta)) (w : Ledger) :
    Except ProgramError (Pubkey × Nat × Ledger) :=
  match ephemeral with
  | some (seed, info) => do
    let w ← splitToEphemeral rt sv c reserve validatorStake lamports info seed w
    return (info.key, (w info.key).lamports, w)
  | none => .ok (validatorStake, lamports, w)

/-- Create the transient account, fund it, split into it and deactivate it. -/
def decreaseIntoNewTransient (c : RebalanceContext) (reserve : Option AccountMeta) (source : Pubkey)
    (splitLamports : Nat) (transient : AccountMeta) (seed : UInt64) (bump : UInt8) (w : Ledger) :
    Except ProgramError Ledger := do
  let w ← createStakeAccount rt transient
    (transientStakeSeeds c.vote c.pool seed ++ [[bump]]) stakeSpace w
  let w ← fundTransient rt sv c reserve source splitLamports transient.key w
  let w ← stakeSplit rt sv c.pool source c.authority c.stakePool.stakeWithdrawBumpSeed splitLamports
    transient.key w
  let (_, stake) ← getStakeState (w transient.key)
  onlyIf (stake.delegation.deactivationEpoch = epochMax)
    (stakeDeactivate rt sv transient.key c.clock c.authority c.pool
      c.stakePool.stakeWithdrawBumpSeed) w

/-- Merge the ephemeral account into the existing transient one.  The instruction forms that reach
this always carry the stake history; unwrapping a missing one would abort. -/
def mergeIntoTransient (c : RebalanceContext) (source transient : Pubkey) (w : Ledger) :
    Except ProgramError Ledger := do
  let history ← okOr c.history .programFailedToComplete
  stakeMerge rt sv c.pool source c.authority c.stakePool.stakeWithdrawBumpSeed transient c.clock
    history w

def processDecreaseValidatorStake (accounts : List AccountMeta) (lamports : Nat)
    (transientSeed : UInt64) (ephemeralSeed : Option UInt64) (fundRentExemptReserve : Bool)
    (w : Ledger) : Except ProgramError Ledger := do
  let stakePoolInfo ← accountAt accounts 0
  let stakerInfo ← accountAt accounts 1
  let withdrawAuthorityInfo ← accountAt accounts 2
  let validatorListInfo ← accountAt accounts 3
  let reserveStakeInfo ← optionalAccountAt fundRentExemptReserve accounts 4
  let i := 4 + fundRentExemptReserve.toNat
  let validatorStakeInfo ← accountAt accounts i
  let ephemeralInfo ← optionalAccountAt ephemeralSeed.isSome accounts (i + 1)
  let i := i + 1 + ephemeralSeed.isSome.toNat
  let transientInfo ← accountAt accounts i
  let clockInfo ← accountAt accounts (i + 1)
  checkSysvar clockInfo rt.clockId
  let historyOrRentInfo ← accountAt accounts (i + 2)
  let newForm := ephemeralSeed.isSome || fundRentExemptReserve
  failIf (newForm = false ∧ historyOrRentInfo.key ≠ rt.rentId) .invalidArgument
  let systemProgramInfo ← accountAt accounts (i + 3)
  let stakeProgramInfo ← accountAt accounts (i + 4)
  checkSystemProgram rt systemProgramInfo.key
  checkStakeProgram rt stakeProgramInfo.key
  let stakePool ← loadStakePool rt w stakePoolInfo.key
  stakePool.checkAuthorityWithdraw rt withdrawAuthorityInfo.key stakePoolInfo.key
  stakePool.checkStaker stakerInfo
  failIf (stakePool.lastUpdateEpoch < sv.epoch) (.custom .stakeListAndPoolOutOfDate)
  stakePool.checkValidatorList validatorListInfo.key
  let validatorList ← loadValidatorList rt w validatorListInfo.key
  failIf (∃ r ∈ reserveStakeInfo, r.key ≠ stakePool.reserveStake) (.custom .invalidProgramAddress)
  let (info, stake) ← getStakeState (w validatorStakeInfo.key)
  let vote := stake.delegation.voterPubkey
  let validator ← okOr (validatorList.find vote) (.custom .validatorNotFound)
  checkValidatorStakeAddress rt stakePoolInfo.key validatorStakeInfo.key vote
    validator.validatorSeedSuffix
  checkPendingTransient validator transientSeed ephemeralSeed
    (checkIfStakeDeactivating (w transientInfo.key) sv.epoch)
  failIf (validator.status ≠ StakeStatus.active.toPod) (.custom .validatorNotFound)
  failIf (lamports < minimumDelegation sv.stakeMinimumDelegation) .accountNotRentExempt
  let remaining ← okOr (checkedSub (w validatorStakeInfo.key).lamports lamports) .insufficientFunds
  let required := minimumStakeLamports info sv.stakeMinimumDelegation
  -- The maximum that the error message reports is itself a checked subtraction.
  failIf (remaining < required ∧ (w validatorStakeInfo.key).lamports < required)
    (.custom .calculationFailure)
  failIf (remaining < required) .insufficientFunds
  let c : RebalanceContext :=
    { pool := stakePoolInfo.key, stakePool, authority := withdrawAuthorityInfo,
      clock := clockInfo.key, history := if newForm then some historyOrRentInfo.key else none, vote }
  let (source, splitLamports, w) ← decreaseSource rt sv c reserveStakeInfo validatorStakeInfo.key
    lamports (optionZip ephemeralSeed ephemeralInfo) w
  let bump ← checkTransientStakeAddress rt stakePoolInfo.key transientInfo.key vote transientSeed
  let w ← (if validator.transientStakeLamports > 0 then
      mergeIntoTransient rt sv c source transientInfo.key w
    else
      decreaseIntoNewTransient rt sv c reserveStakeInfo source splitLamports transientInfo
        transientSeed bump w)
  let active ← okOr (checkedSub validator.activeStakeLamports lamports) (.custom .calculationFailure)
  return writeValidatorList w validatorListInfo.key (validatorList.modify vote fun v =>
    { v with
      activeStakeLamports := active
      transientStakeLamports := (w transientInfo.key).lamports
      transientSeedSuffix := transientSeed })

/-- A successful decrease, taken apart. -/
structure DecreaseRun (accounts : List AccountMeta) (lamports : Nat) (transientSeed : UInt64)
    (ephemeralSeed : Option UInt64) (fundRentExemptReserve : Bool) (w w' : Ledger) where
  pool : AccountMeta
  staker : AccountMeta
  authority : AccountMeta
  list : AccountMeta
  reserve : Option AccountMeta
  validatorStake : AccountMeta
  ephemeral : Option AccountMeta
  transient : AccountMeta
  p : StakePool
  l : ValidatorList
  info : StakeMeta
  stake : Stake
  v : ValidatorStakeInfo
  c : RebalanceContext
  source : Pubkey
  splitLamports : Nat
  bump : UInt8
  active : Nat
  prepared : Ledger
  moved : Ledger
  pool_at : accounts[0]? = some pool
  staker_at : accounts[1]? = some staker
  isPool : PoolAt rt w pool.key p
  isAuthority : poolAuthority rt pool.key authorityWithdraw p.stakeWithdrawBumpSeed =
    .ok authority.key
  isStaker : staker.key = p.staker ∧ staker.isSigner = true
  upToDate : ¬ p.lastUpdateEpoch < sv.epoch
  list_key : list.key = p.validatorList
  isList : ListAt rt w list.key l
  isReserve : ∀ r ∈ reserve, r.key = p.reserveStake
  ephemeral_given : ephemeral.isSome = ephemeralSeed.isSome
  stake_state : (w validatorStake.key).data = .stake (.stake info stake)
  found : l.find stake.delegation.voterPubkey = some v
  stake_key : (findStakeProgramAddress rt stake.delegation.voterPubkey pool.key
    v.validatorSeedSuffix).1 = validatorStake.key
  pending : checkPendingTransient v transientSeed ephemeralSeed
    (checkIfStakeDeactivating (w transient.key) sv.epoch) = .ok ()
  status_active : v.status = StakeStatus.active.toPod
  enough : minimumDelegation sv.stakeMinimumDelegation ≤ lamports
  remaining : lamports + minimumStakeLamports info sv.stakeMinimumDelegation ≤
    (w validatorStake.key).lamports
  c_pool : c.pool = pool.key
  c_stakePool : c.stakePool = p
  c_authority : c.authority = authority
  c_vote : c.vote = stake.delegation.voterPubkey
  prepare : decreaseSource rt sv c reserve validatorStake.key lamports
    (optionZip ephemeralSeed ephemeral) w = .ok (source, splitLamports, prepared)
  transient_key : findTransientStakeProgramAddress rt stake.delegation.voterPubkey pool.key
    transientSeed = (transient.key, bump)
  move : (if v.transientStakeLamports > 0 then
      mergeIntoTransient rt sv c source transient.key prepared
    else
      decreaseIntoNewTransient rt sv c reserve source splitLamports transient transientSeed bump
        prepared) = .ok moved
  active_eq : v.activeStakeLamports = active + lamports
  result : w' = writeValidatorList moved list.key
    (l.modify stake.delegation.voterPubkey fun v => { v with
      activeStakeLamports := active
      transientStakeLamports := (moved transient.key).lamports
      transientSeedSuffix := transientSeed })

theorem processDecreaseValidatorStake_run {accounts : List AccountMeta} {lamports : Nat}
    {transientSeed : UInt64} {ephemeralSeed : Option UInt64} {fund : Bool} {w w' : Ledger}
    (h : processDecreaseValidatorStake rt sv accounts lamports transientSeed ephemeralSeed fund w =
      .ok w') :
    Nonempty (DecreaseRun rt sv accounts lamports transientSeed ephemeralSeed fund w w') := by
  simp only [processDecreaseValidatorStake, bind_eq_ok, accountAt_eq_ok, exists_unit, failIf_eq_ok,
    checkSysvar_eq_ok, checkSystemProgram_eq_ok, checkStakeProgram_eq_ok, loadStakePool_eq_ok,
    StakePool.checkAuthorityWithdraw_eq_ok, StakePool.checkStaker_eq_ok,
    StakePool.checkValidatorList_eq_ok, loadValidatorList_eq_ok, okOr_eq_ok, pure_eq_ok,
    getStakeState_eq_ok, Prod.exists, checkValidatorStakeAddress_eq_ok,
    checkTransientStakeAddress_eq_ok, checkedSub_eq_some] at h
  obtain ⟨pool, pool_at, staker, staker_at, authority, -, list, -, reserve, -, validatorStake, -,
    ephemeral, ephemeral_at, transient, -, clock, -, -, history, h⟩ := h
  obtain ⟨-, -, system, -, program, -, -, -, p, isPool, isAuthority, isStaker, upToDate, list_key,
    l, isList, isReserve, info, stake, stake_state, h⟩ := h
  obtain ⟨v, found, stake_key, pending, status_active, enough, left, left_eq, -, remaining, source,
    splitLamports, prepared, prepare, bump, transient_key, moved, move, active, active_eq, result⟩
    := h
  exact ⟨{
    pool, staker, authority, list, reserve, validatorStake, ephemeral, transient, p, l, info, stake,
    v, source, splitLamports, bump, active, prepared, moved, pool_at, staker_at, isPool, isAuthority,
    isStaker, upToDate, list_key, isList, stake_state, found, stake_key, pending, transient_key,
    prepare, move, active_eq
    c := _
    isReserve := fun r hr => Decidable.not_not.mp fun hne => isReserve ⟨r, hr, hne⟩
    ephemeral_given := optionalAccountAt_isSome ephemeral_at
    status_active := Decidable.not_not.mp status_active
    enough := Nat.not_lt.mp enough
    remaining := by omega
    c_pool := rfl, c_stakePool := rfl, c_authority := rfl, c_vote := rfl
    result := result.symm }⟩

/-- Split the increase off into an ephemeral account and delegate it there; without one the split
comes straight from the reserve. -/
def increaseSource (c : RebalanceContext) (history config reserve : Pubkey)
    (totalLamports : Nat) (ephemeral : Option (UInt64 × AccountMeta)) (w : Ledger) :
    Except ProgramError (Pubkey × Ledger) :=
  match ephemeral with
  | some (seed, info) => do
    let bump ← checkEphemeralStakeAddress rt c.pool info.key seed
    let w ← createStakeAccount rt info (ephemeralStakeSeeds c.pool seed ++ [[bump]]) stakeSpace w
    let w ← stakeSplit rt sv c.pool reserve c.authority c.stakePool.stakeWithdrawBumpSeed
      totalLamports info.key w
    let w ← stakeDelegate rt sv info.key c.vote c.clock history config c.authority c.pool
      c.stakePool.stakeWithdrawBumpSeed w
    return (info.key, w)
  | none => .ok (reserve, w)

/-- Was this stake delegated on or before `epoch`? -/
def delegatedBy (s : StakeStateV2) (epoch : Epoch) : Prop :=
  ∃ d ∈ s.delegation?, d.activationEpoch ≤ epoch

instance (s : StakeStateV2) (epoch : Epoch) : Decidable (delegatedBy s epoch) := by
  unfold delegatedBy
  infer_instance

/-- Create the transient account, split into it and delegate it if it is not delegated yet. -/
def increaseIntoNewTransient (c : RebalanceContext) (history config source : Pubkey)
    (totalLamports : Nat) (transient : AccountMeta) (seed : UInt64) (bump : UInt8) (w : Ledger) :
    Except ProgramError Ledger := do
  let w ← createStakeAccount rt transient
    (transientStakeSeeds c.vote c.pool seed ++ [[bump]]) stakeSpace w
  let w ← stakeSplit rt sv c.pool source c.authority c.stakePool.stakeWithdrawBumpSeed totalLamports
    transient.key w
  let state ← (w transient.key).tryStakeState
  onlyIf (¬ delegatedBy state sv.epoch)
    (stakeDelegate rt sv transient.key c.vote c.clock history config c.authority c.pool
      c.stakePool.stakeWithdrawBumpSeed) w

def processIncreaseValidatorStake (accounts : List AccountMeta) (lamports : Nat)
    (transientSeed : UInt64) (ephemeralSeed : Option UInt64) (w : Ledger) :
    Except ProgramError Ledger := do
  let stakePoolInfo ← accountAt accounts 0
  let stakerInfo ← accountAt accounts 1
  let withdrawAuthorityInfo ← accountAt accounts 2
  let validatorListInfo ← accountAt accounts 3
  let reserveStakeInfo ← accountAt accounts 4
  let ephemeralInfo ← optionalAccountAt ephemeralSeed.isSome accounts 5
  let i := 5 + ephemeralSeed.isSome.toNat
  let transientInfo ← accountAt accounts i
  let validatorStakeInfo ← accountAt accounts (i + 1)
  let voteInfo ← accountAt accounts (i + 2)
  let clockInfo ← accountAt accounts (i + 3)
  checkSysvar clockInfo rt.clockId
  let rentInfo ← optionalAccountAt ephemeralSeed.isNone accounts (i + 4)
  failIf (∃ r ∈ rentInfo, r.key ≠ rt.rentId) .invalidArgument
  let i := i + 4 + ephemeralSeed.isNone.toNat
  let stakeHistoryInfo ← accountAt accounts i
  let stakeConfigInfo ← accountAt accounts (i + 1)
  let systemProgramInfo ← accountAt accounts (i + 2)
  let stakeProgramInfo ← accountAt accounts (i + 3)
  checkSystemProgram rt systemProgramInfo.key
  checkStakeProgram rt stakeProgramInfo.key
  let stakePool ← loadStakePool rt w stakePoolInfo.key
  stakePool.checkAuthorityWithdraw rt withdrawAuthorityInfo.key stakePoolInfo.key
  stakePool.checkStaker stakerInfo
  failIf (stakePool.lastUpdateEpoch < sv.epoch) (.custom .stakeListAndPoolOutOfDate)
  stakePool.checkValidatorList validatorListInfo.key
  stakePool.checkReserveStake reserveStakeInfo.key
  let validatorList ← loadValidatorList rt w validatorListInfo.key
  let vote := voteInfo.key
  let validator ← okOr (validatorList.find vote) (.custom .validatorNotFound)
  checkPendingTransient validator transientSeed ephemeralSeed
    (checkIfStakeActivating (w transientInfo.key) sv.epoch)
  checkValidatorStakeAccount rt w validatorStakeInfo.key stakePoolInfo.key withdrawAuthorityInfo.key
    vote validator.validatorSeedSuffix stakePool.lockup
  failIf (validator.status ≠ StakeStatus.active.toPod) (.custom .validatorNotFound)
  let stakeRent := sv.minimumBalance stakeSpace
  failIf (lamports < minimumDelegation sv.stakeMinimumDelegation) .insufficientDelegation
  -- The rent exemption is withdrawn again after the merge, so it travels with the increase.
  let totalLamports := saturatingAdd 64 lamports stakeRent
  failIf ((w reserveStakeInfo.key).lamports - totalLamports < stakeRent) .insufficientFunds
  let c : RebalanceContext :=
    { pool := stakePoolInfo.key, stakePool, authority := withdrawAuthorityInfo,
      clock := clockInfo.key, history := some stakeHistoryInfo.key, vote }
  let (source, w) ← increaseSource rt sv c stakeHistoryInfo.key stakeConfigInfo.key
    reserveStakeInfo.key totalLamports (optionZip ephemeralSeed ephemeralInfo) w
  let bump ← checkTransientStakeAddress rt stakePoolInfo.key transientInfo.key vote transientSeed
  let w ← (if validator.transientStakeLamports > 0 then
      mergeIntoTransient rt sv c source transientInfo.key w
    else
      increaseIntoNewTransient rt sv c stakeHistoryInfo.key stakeConfigInfo.key source totalLamports
        transientInfo transientSeed bump w)
  let transient ← okOr (checkedAdd 64 validator.transientStakeLamports totalLamports)
    (.custom .calculationFailure)
  return writeValidatorList w validatorListInfo.key (validatorList.modify vote fun v =>
    { v with transientStakeLamports := transient, transientSeedSuffix := transientSeed })

/-- A successful increase, taken apart. -/
structure IncreaseRun (accounts : List AccountMeta) (lamports : Nat) (transientSeed : UInt64)
    (ephemeralSeed : Option UInt64) (w w' : Ledger) where
  pool : AccountMeta
  staker : AccountMeta
  authority : AccountMeta
  list : AccountMeta
  reserve : AccountMeta
  ephemeral : Option AccountMeta
  transient : AccountMeta
  validatorStake : AccountMeta
  vote : AccountMeta
  history : AccountMeta
  config : AccountMeta
  p : StakePool
  l : ValidatorList
  v : ValidatorStakeInfo
  c : RebalanceContext
  source : Pubkey
  bump : UInt8
  prepared : Ledger
  moved : Ledger
  pool_at : accounts[0]? = some pool
  staker_at : accounts[1]? = some staker
  isPool : PoolAt rt w pool.key p
  isAuthority : poolAuthority rt pool.key authorityWithdraw p.stakeWithdrawBumpSeed =
    .ok authority.key
  isStaker : staker.key = p.staker ∧ staker.isSigner = true
  upToDate : ¬ p.lastUpdateEpoch < sv.epoch
  list_key : list.key = p.validatorList
  isReserve : reserve.key = p.reserveStake
  ephemeral_given : ephemeral.isSome = ephemeralSeed.isSome
  isList : ListAt rt w list.key l
  found : l.find vote.key = some v
  pending : checkPendingTransient v transientSeed ephemeralSeed
    (checkIfStakeActivating (w transient.key) sv.epoch) = .ok ()
  status_active : v.status = StakeStatus.active.toPod
  enough : minimumDelegation sv.stakeMinimumDelegation ≤ lamports
  rent_left : sv.minimumBalance stakeSpace ≤
    (w reserve.key).lamports - saturatingAdd 64 lamports (sv.minimumBalance stakeSpace)
  c_pool : c.pool = pool.key
  c_stakePool : c.stakePool = p
  c_authority : c.authority = authority
  c_vote : c.vote = vote.key
  prepare : increaseSource rt sv c history.key config.key reserve.key
    (saturatingAdd 64 lamports (sv.minimumBalance stakeSpace)) (optionZip ephemeralSeed ephemeral) w =
      .ok (source, prepared)
  transient_key : findTransientStakeProgramAddress rt vote.key pool.key transientSeed =
    (transient.key, bump)
  move : (if v.transientStakeLamports > 0 then
      mergeIntoTransient rt sv c source transient.key prepared
    else
      increaseIntoNewTransient rt sv c history.key config.key source
        (saturatingAdd 64 lamports (sv.minimumBalance stakeSpace)) transient transientSeed bump
        prepared) = .ok moved
  result : w' = writeValidatorList moved list.key (l.modify vote.key fun u => { u with
    transientStakeLamports :=
      v.transientStakeLamports + saturatingAdd 64 lamports (sv.minimumBalance stakeSpace)
    transientSeedSuffix := transientSeed })

theorem processIncreaseValidatorStake_run {accounts : List AccountMeta} {lamports : Nat}
    {transientSeed : UInt64} {ephemeralSeed : Option UInt64} {w w' : Ledger}
    (h : processIncreaseValidatorStake rt sv accounts lamports transientSeed ephemeralSeed w =
      .ok w') :
    Nonempty (IncreaseRun rt sv accounts lamports transientSeed ephemeralSeed w w') := by
  simp only [processIncreaseValidatorStake, bind_eq_ok, accountAt_eq_ok, exists_unit, failIf_eq_ok,
    checkSysvar_eq_ok, checkSystemProgram_eq_ok, checkStakeProgram_eq_ok, loadStakePool_eq_ok,
    StakePool.checkAuthorityWithdraw_eq_ok, StakePool.checkStaker_eq_ok,
    StakePool.checkReserveStake_eq_ok, StakePool.checkValidatorList_eq_ok, loadValidatorList_eq_ok,
    okOr_eq_ok, pure_eq_ok, Prod.exists, checkTransientStakeAddress_eq_ok, checkedAdd_eq_some] at h
  obtain ⟨pool, pool_at, staker, staker_at, authority, -, list, -, reserve, -, ephemeral,
    ephemeral_at, transient, -, validatorStake, -, vote, -, clock, -, h⟩ := h
  obtain ⟨-, rent, -, -, history, -, config, -, system, -, program, -, -, -, p, isPool, isAuthority,
    isStaker, upToDate, list_key, h⟩ := h
  obtain ⟨isReserve, l, isList, v, found, pending, -, status_active, enough, rent_left, source, prepared,
    prepare, bump, transient_key, moved, move, total, ⟨total_eq, -⟩, result⟩ := h
  exact ⟨{
    pool, staker, authority, list, reserve, ephemeral, transient, validatorStake, vote, history,
    config, p, l, v, source, bump, prepared, moved, pool_at, staker_at, isPool, isAuthority, isStaker,
    upToDate, list_key, isReserve, isList, found, pending, transient_key, prepare, move
    c := _
    ephemeral_given := optionalAccountAt_isSome ephemeral_at
    status_active := Decidable.not_not.mp status_active
    enough := Nat.not_lt.mp enough
    rent_left := Nat.not_lt.mp rent_left
    c_pool := rfl, c_stakePool := rfl, c_authority := rfl, c_vote := rfl
    result := by rw [← result, total_eq] }⟩

end StakePoolFogo
