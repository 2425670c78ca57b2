import StakePoolFogo.Processor.Invoke

/-! The manager's instructions: roles, fees, funding authorities and token metadata. -/

open StakePoolFogo.Outcome

namespace StakePoolFogo

variable (rt : Runtime) (sv : Sysvars)

def processSetManager (accounts : List AccountMeta) (w : Ledger) : Except ProgramError Ledger := do
  let stakePoolInfo ← accountAt accounts 0
  let managerInfo ← accountAt accounts 1
  let newManagerInfo ← accountAt accounts 2
  let newManagerFeeInfo ← accountAt accounts 3
  checkAccountOwner (w stakePoolInfo.key) rt.programId
  let stakePool ← (w stakePoolInfo.key).tryStakePool
  checkAccountOwner (w newManagerFeeInfo.key) stakePool.tokenProgramId
  failIf (¬ stakePool.isValid) (.custom .invalidState)
  stakePool.checkManager managerInfo
  failIf (newManagerInfo.isSigner = false) (.custom .signatureMissing)
  stakePool.checkManagerFeeInfo (w newManagerFeeInfo.key)
  writeStakePool w stakePoolInfo.key
    { stakePool with manager := newManagerInfo.key, managerFeeAccount := newManagerFeeInfo.key }

/-- A successful `SetManager`, taken apart. -/
structure SetManagerRun (accounts : List AccountMeta) (w w' : Ledger) where
  pool : AccountMeta
  manager : AccountMeta
  newManager : AccountMeta
  newManagerFee : AccountMeta
  p : StakePool
  pool_at : accounts[0]? = some pool
  manager_at : accounts[1]? = some manager
  isPool : PoolAt rt w pool.key p
  isManager : manager.key = p.manager ∧ manager.isSigner = true
  result : writeStakePool w pool.key
    { p with manager := newManager.key, managerFeeAccount := newManagerFee.key } = .ok w'

theorem processSetManager_run {accounts : List AccountMeta} {w w' : Ledger}
    (h : processSetManager rt accounts w = .ok w') : Nonempty (SetManagerRun rt accounts w w') := by
  simp only [processSetManager, bind_eq_ok, accountAt_eq_ok, exists_unit, failIf_eq_ok,
    checkAccountOwner_eq_ok, StakePool.checkManager_eq_ok, Decidable.not_not] at h
  obtain ⟨pool, pool_at, manager, manager_at, newManager, -, newManagerFee, -, owner, p, data, -,
    valid, isManager, -, -, result⟩ := h
  exact ⟨{
    pool, manager, newManager, newManagerFee, p, pool_at, manager_at, isManager, result
    isPool := ⟨owner, Account.tryStakePool_valid data valid, valid⟩ }⟩

def processSetFee (accounts : List AccountMeta) (fee : FeeType) (w : Ledger) :
    Except ProgramError Ledger := do
  let stakePoolInfo ← accountAt accounts 0
  let managerInfo ← accountAt accounts 1
  let stakePool ← loadStakePool rt w stakePoolInfo.key
  stakePool.checkManager managerInfo
  failIf (fee.canOnlyChangeNextEpoch = true ∧ stakePool.lastUpdateEpoch < sv.epoch)
    (.custom .stakeListAndPoolOutOfDate)
  raise fee.checkTooHigh
  let stakePool ← raise (stakePool.updateFee fee)
  writeStakePool w stakePoolInfo.key stakePool

/-- A successful `SetFee`, taken apart. -/
structure SetFeeRun (accounts : List AccountMeta) (fee : FeeType) (w w' : Ledger) where
  pool : AccountMeta
  manager : AccountMeta
  p : StakePool
  p' : StakePool
  pool_at : accounts[0]? = some pool
  manager_at : accounts[1]? = some manager
  isPool : PoolAt rt w pool.key p
  isManager : manager.key = p.manager ∧ manager.isSigner = true
  notTooHigh : fee.tooHigh = false
  update : p.updateFee fee = .ok p'
  result : writeStakePool w pool.key p' = .ok w'

theorem processSetFee_run {accounts : List AccountMeta} {fee : FeeType} {w w' : Ledger}
    (h : processSetFee rt sv accounts fee w = .ok w') : Nonempty (SetFeeRun rt accounts fee w w') := by
  simp only [processSetFee, bind_eq_ok, accountAt_eq_ok, exists_unit, failIf_eq_ok,
    loadStakePool_eq_ok, StakePool.checkManager_eq_ok, raise_eq_ok, FeeType.checkTooHigh,
    Bool.not_eq_true] at h
  obtain ⟨pool, pool_at, manager, manager_at, p, isPool, isManager, -, notTooHigh, p', update,
    result⟩ := h
  exact ⟨{
    pool, manager, p, p', pool_at, manager_at, isPool, isManager, notTooHigh, update, result }⟩

/-- Either the staker or the manager may name a new staker. -/
def processSetStaker (accounts : List AccountMeta) (w : Ledger) : Except ProgramError Ledger := do
  let stakePoolInfo ← accountAt accounts 0
  let authorityInfo ← accountAt accounts 1
  let newStakerInfo ← accountAt accounts 2
  let stakePool ← loadStakePool rt w stakePoolInfo.key
  failIf (succeeded (stakePool.checkStaker authorityInfo) = false ∧
    succeeded (stakePool.checkManager authorityInfo) = false) (.custom .signatureMissing)
  writeStakePool w stakePoolInfo.key { stakePool with staker := newStakerInfo.key }

/-- A successful `SetStaker`, taken apart. -/
structure SetStakerRun (accounts : List AccountMeta) (w w' : Ledger) where
  pool : AccountMeta
  authority : AccountMeta
  newStaker : AccountMeta
  p : StakePool
  pool_at : accounts[0]? = some pool
  authority_at : accounts[1]? = some authority
  isPool : PoolAt rt w pool.key p
  isAuthority : (authority.key = p.staker ∨ authority.key = p.manager) ∧ authority.isSigner = true
  result : writeStakePool w pool.key { p with staker := newStaker.key } = .ok w'

theorem processSetStaker_run {accounts : List AccountMeta} {w w' : Ledger}
    (h : processSetStaker rt accounts w = .ok w') : Nonempty (SetStakerRun rt accounts w w') := by
  simp only [processSetStaker, bind_eq_ok, accountAt_eq_ok, exists_unit, failIf_eq_ok,
    loadStakePool_eq_ok, not_and_or, Bool.not_eq_false, succeeded_iff,
    StakePool.checkManager_eq_ok, StakePool.checkStaker_eq_ok] at h
  obtain ⟨pool, pool_at, authority, authority_at, newStaker, -, p, isPool, signed, result⟩ := h
  refine ⟨{ pool, authority, newStaker, p, pool_at, authority_at, isPool, result, isAuthority := ?_ }⟩
  rcases signed with ⟨hkey, hsigner⟩ | ⟨hkey, hsigner⟩
  · exact ⟨Or.inl hkey, hsigner⟩
  · exact ⟨Or.inr hkey, hsigner⟩

inductive FundingType where
  | stakeDeposit
  | solDeposit
  | solWithdraw
deriving DecidableEq, Repr

/-- Without a new authority the default applies: the derived address for stake, none for SOL. -/
def StakePool.setFundingAuthority (p : StakePool) (pool : Pubkey) (fundingType : FundingType)
    (newAuthority : Option Pubkey) : StakePool :=
  match fundingType with
  | .stakeDeposit =>
    { p with stakeDepositAuthority :=
        newAuthority.getD (findDepositAuthorityProgramAddress rt pool).1 }
  | .solDeposit => { p with solDepositAuthority := newAuthority }
  | .solWithdraw => { p with solWithdrawAuthority := newAuthority }

def processSetFundingAuthority (accounts : List AccountMeta) (fundingType : FundingType)
    (w : Ledger) : Except ProgramError Ledger := do
  let stakePoolInfo ← accountAt accounts 0
  let managerInfo ← accountAt accounts 1
  let newAuthority := accounts[2]?.map (·.key)
  let stakePool ← loadStakePool rt w stakePoolInfo.key
  stakePool.checkManager managerInfo
  writeStakePool w stakePoolInfo.key
    (stakePool.setFundingAuthority rt stakePoolInfo.key fundingType newAuthority)

/-- A successful `SetFundingAuthority`, taken apart. -/
structure SetFundingRun (accounts : List AccountMeta) (fundingType : FundingType) (w w' : Ledger)
    where
  pool : AccountMeta
  manager : AccountMeta
  p : StakePool
  pool_at : accounts[0]? = some pool
  manager_at : accounts[1]? = some manager
  isPool : PoolAt rt w pool.key p
  isManager : manager.key = p.manager ∧ manager.isSigner = true
  result : writeStakePool w pool.key
    (p.setFundingAuthority rt pool.key fundingType (accounts[2]?.map (·.key))) = .ok w'

theorem processSetFundingAuthority_run {accounts : List AccountMeta} {fundingType : FundingType}
    {w w' : Ledger} (h : processSetFundingAuthority rt accounts fundingType w = .ok w') :
    Nonempty (SetFundingRun rt accounts fundingType w w') := by
  simp only [processSetFundingAuthority, bind_eq_ok, accountAt_eq_ok, exists_unit,
    loadStakePool_eq_ok, StakePool.checkManager_eq_ok] at h
  obtain ⟨pool, pool_at, manager, manager_at, p, isPool, isManager, result⟩ := h
  exact ⟨{ pool, manager, p, pool_at, manager_at, isPool, isManager, result }⟩

/-- Sign as the pool's withdraw authority with the canonical bump seed. -/
def signAsMintAuthority (pool : Pubkey) (authority : AccountMeta) : Except ProgramError Unit :=
  signAsWithdrawAuthority rt pool authority (findWithdrawAuthorityProgramAddress rt pool).2

def processCreatePoolTokenMetadata (accounts : List AccountMeta) (name symbol uri : List UInt8)
    (w : Ledger) : Except ProgramError Ledger := do
  let stakePoolInfo ← accountAt accounts 0
  let managerInfo ← accountAt accounts 1
  let withdrawAuthorityInfo ← accountAt accounts 2
  let poolMintInfo ← accountAt accounts 3
  let payerInfo ← accountAt accounts 4
  let metadataInfo ← accountAt accounts 5
  let metadataProgramInfo ← accountAt accounts 6
  let systemProgramInfo ← accountAt accounts 7
  failIf (payerInfo.isSigner = false) (.custom .signatureMissing)
  checkSystemProgram rt systemProgramInfo.key
  checkAccountOwner (w payerInfo.key) rt.systemProgramId
  checkAccountOwner (w stakePoolInfo.key) rt.programId
  checkMplMetadataProgram rt metadataProgramInfo.key
  let stakePool ← loadStakePool rt w stakePoolInfo.key
  stakePool.checkManager managerInfo
  stakePool.checkAuthorityWithdraw rt withdrawAuthorityInfo.key stakePoolInfo.key
  let _ ← stakePool.checkMint w poolMintInfo.key
  checkMplMetadataAccountAddress rt metadataInfo.key stakePool.poolMint
  signAsMintAuthority rt stakePoolInfo.key withdrawAuthorityInfo
  invokeCreate [rt.mplTokenMetadataId, rt.systemProgramId] payerInfo.key metadataInfo.key
    (rt.createMetadata poolMintInfo.key withdrawAuthorityInfo.key name symbol uri) w

def processUpdatePoolTokenMetadata (accounts : List AccountMeta) (name symbol uri : List UInt8)
    (w : Ledger) : Except ProgramError Ledger := do
  let stakePoolInfo ← accountAt accounts 0
  let managerInfo ← accountAt accounts 1
  let withdrawAuthorityInfo ← accountAt accounts 2
  let metadataInfo ← accountAt accounts 3
  let metadataProgramInfo ← accountAt accounts 4
  checkAccountOwner (w stakePoolInfo.key) rt.programId
  checkMplMetadataProgram rt metadataProgramInfo.key
  let stakePool ← loadStakePool rt w stakePoolInfo.key
  stakePool.checkManager managerInfo
  stakePool.checkAuthorityWithdraw rt withdrawAuthorityInfo.key stakePoolInfo.key
  checkMplMetadataAccountAddress rt metadataInfo.key stakePool.poolMint
  signAsMintAuthority rt stakePoolInfo.key withdrawAuthorityInfo
  invoke₁ [rt.mplTokenMetadataId] metadataInfo.key
    (rt.updateMetadata withdrawAuthorityInfo.key name symbol uri) w

end StakePoolFogo
