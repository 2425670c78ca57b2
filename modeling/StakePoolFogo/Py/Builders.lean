import StakePoolFogo.Builders
import StakePoolFogo.Py.Instructions

/-!
# The Python client's builders

The functions of `stake_pool/instructions.py` that build instructions, with their named tuples of
parameters.  An account is written `⟨pubkey, is_signer, is_writable⟩`, as in the source.
-/

namespace StakePoolFogo.Py

structure Instruction where
  accounts : List AccountMeta
  programId : Pubkey
  data : List UInt8
deriving DecidableEq, Repr

/-! ## Parameters -/

structure InitializeParams where
  programId : Pubkey
  stakePool : Pubkey
  manager : Pubkey
  staker : Pubkey
  withdrawAuthority : Pubkey
  validatorList : Pubkey
  reserveStake : Pubkey
  poolMint : Pubkey
  managerFeeAccount : Pubkey
  tokenProgramId : Pubkey
  epochFee : StakePoolFogo.Fee
  withdrawalFee : StakePoolFogo.Fee
  depositFee : StakePoolFogo.Fee
  referralFee : UInt8
  maxValidators : UInt32
  depositAuthority : Option Pubkey

structure AddValidatorToPoolParams where
  programId : Pubkey
  stakePool : Pubkey
  staker : Pubkey
  reserveStake : Pubkey
  withdrawAuthority : Pubkey
  validatorList : Pubkey
  validatorStake : Pubkey
  validatorVote : Pubkey
  rentSysvar : Pubkey
  clockSysvar : Pubkey
  stakeHistorySysvar : Pubkey
  stakeConfigSysvar : Pubkey
  systemProgramId : Pubkey
  stakeProgramId : Pubkey
  seed : Option UInt32

structure RemoveValidatorFromPoolParams where
  programId : Pubkey
  stakePool : Pubkey
  staker : Pubkey
  withdrawAuthority : Pubkey
  validatorList : Pubkey
  validatorStake : Pubkey
  transientStake : Pubkey
  clockSysvar : Pubkey
  stakeProgramId : Pubkey

structure DecreaseValidatorStakeParams where
  programId : Pubkey
  stakePool : Pubkey
  staker : Pubkey
  withdrawAuthority : Pubkey
  validatorList : Pubkey
  validatorStake : Pubkey
  transientStake : Pubkey
  clockSysvar : Pubkey
  rentSysvar : Pubkey
  systemProgramId : Pubkey
  stakeProgramId : Pubkey
  lamports : UInt64
  transientStakeSeed : UInt64

structure DecreaseValidatorStakeWithReserveParams where
  programId : Pubkey
  stakePool : Pubkey
  staker : Pubkey
  withdrawAuthority : Pubkey
  validatorList : Pubkey
  reserveStake : Pubkey
  validatorStake : Pubkey
  transientStake : Pubkey
  clockSysvar : Pubkey
  stakeHistorySysvar : Pubkey
  systemProgramId : Pubkey
  stakeProgramId : Pubkey
  lamports : UInt64
  transientStakeSeed : UInt64

structure IncreaseValidatorStakeParams where
  programId : Pubkey
  stakePool : Pubkey
  staker : Pubkey
  withdrawAuthority : Pubkey
  validatorList : Pubkey
  reserveStake : Pubkey
  transientStake : Pubkey
  validatorStake : Pubkey
  validatorVote : Pubkey
  clockSysvar : Pubkey
  rentSysvar : Pubkey
  stakeHistorySysvar : Pubkey
  stakeConfigSysvar : Pubkey
  systemProgramId : Pubkey
  stakeProgramId : Pubkey
  lamports : UInt64
  transientStakeSeed : UInt64

structure UpdateValidatorListBalanceParams where
  programId : Pubkey
  stakePool : Pubkey
  withdrawAuthority : Pubkey
  validatorList : Pubkey
  reserveStake : Pubkey
  clockSysvar : Pubkey
  stakeHistorySysvar : Pubkey
  stakeProgramId : Pubkey
  validatorAndTransientStakePairs : List Pubkey
  startIndex : UInt32
  noMerge : Bool

structure UpdateStakePoolBalanceParams where
  programId : Pubkey
  stakePool : Pubkey
  withdrawAuthority : Pubkey
  validatorList : Pubkey
  reserveStake : Pubkey
  managerFeeAccount : Pubkey
  poolMint : Pubkey
  tokenProgramId : Pubkey

structure CleanupRemovedValidatorEntriesParams where
  programId : Pubkey
  stakePool : Pubkey
  validatorList : Pubkey

structure DepositStakeParams where
  programId : Pubkey
  stakePool : Pubkey
  validatorList : Pubkey
  depositAuthority : Pubkey
  withdrawAuthority : Pubkey
  depositStake : Pubkey
  validatorStake : Pubkey
  reserveStake : Pubkey
  destinationPoolAccount : Pubkey
  managerFeeAccount : Pubkey
  referralPoolAccount : Pubkey
  poolMint : Pubkey
  clockSysvar : Pubkey
  stakeHistorySysvar : Pubkey
  tokenProgramId : Pubkey
  stakeProgramId : Pubkey

structure WithdrawStakeParams where
  programId : Pubkey
  stakePool : Pubkey
  validatorList : Pubkey
  withdrawAuthority : Pubkey
  validatorStake : Pubkey
  destinationStake : Pubkey
  destinationStakeAuthority : Pubkey
  sourceTransferAuthority : Pubkey
  sourcePoolAccount : Pubkey
  managerFeeAccount : Pubkey
  poolMint : Pubkey
  clockSysvar : Pubkey
  tokenProgramId : Pubkey
  stakeProgramId : Pubkey
  amount : UInt64

structure DepositSolParams where
  programId : Pubkey
  stakePool : Pubkey
  withdrawAuthority : Pubkey
  reserveStake : Pubkey
  fundingAccount : Pubkey
  destinationPoolAccount : Pubkey
  managerFeeAccount : Pubkey
  referralPoolAccount : Pubkey
  poolMint : Pubkey
  systemProgramId : Pubkey
  tokenProgramId : Pubkey
  amount : UInt64
  depositAuthority : Option Pubkey

structure WithdrawSolParams where
  programId : Pubkey
  stakePool : Pubkey
  withdrawAuthority : Pubkey
  sourceTransferAuthority : Pubkey
  sourcePoolAccount : Pubkey
  reserveStake : Pubkey
  destinationSystemAccount : Pubkey
  managerFeeAccount : Pubkey
  poolMint : Pubkey
  clockSysvar : Pubkey
  stakeHistorySysvar : Pubkey
  stakeProgramId : Pubkey
  tokenProgramId : Pubkey
  amount : UInt64
  solWithdrawAuthority : Option Pubkey

structure CreateTokenMetadataParams where
  programId : Pubkey
  stakePool : Pubkey
  manager : Pubkey
  withdrawAuthority : Pubkey
  poolMint : Pubkey
  payer : Pubkey
  tokenMetadata : Pubkey
  metadataProgramId : Pubkey
  systemProgramId : Pubkey
  name : String
  symbol : String
  uri : String

structure UpdateTokenMetadataParams where
  programId : Pubkey
  stakePool : Pubkey
  manager : Pubkey
  withdrawAuthority : Pubkey
  poolMint : Pubkey
  tokenMetadata : Pubkey
  metadataProgramId : Pubkey
  name : String
  symbol : String
  uri : String

structure IncreaseAdditionalValidatorStakeParams where
  programId : Pubkey
  stakePool : Pubkey
  staker : Pubkey
  withdrawAuthority : Pubkey
  validatorList : Pubkey
  reserveStake : Pubkey
  ephemeralStake : Pubkey
  transientStake : Pubkey
  validatorStake : Pubkey
  validatorVote : Pubkey
  clockSysvar : Pubkey
  rentSysvar : Pubkey
  stakeHistorySysvar : Pubkey
  stakeConfigSysvar : Pubkey
  systemProgramId : Pubkey
  stakeProgramId : Pubkey
  lamports : UInt64
  transientStakeSeed : UInt64
  ephemeralStakeSeed : UInt64

structure DecreaseAdditionalValidatorStakeParams where
  programId : Pubkey
  stakePool : Pubkey
  staker : Pubkey
  withdrawAuthority : Pubkey
  validatorList : Pubkey
  reserveStake : Pubkey
  validatorStake : Pubkey
  ephemeralStake : Pubkey
  transientStake : Pubkey
  clockSysvar : Pubkey
  rentSysvar : Pubkey
  stakeHistorySysvar : Pubkey
  systemProgramId : Pubkey
  stakeProgramId : Pubkey
  lamports : UInt64
  transientStakeSeed : UInt64
  ephemeralStakeSeed : UInt64

/-! ## Builders -/

variable (rt : Runtime)

def initializePool (params : InitializeParams) : Instruction where
  programId := params.programId
  accounts := [
    ⟨params.stakePool, false, true⟩,
    ⟨params.manager, true, false⟩,
    ⟨params.staker, false, false⟩,
    ⟨params.withdrawAuthority, false, false⟩,
    ⟨params.validatorList, false, true⟩,
    ⟨params.reserveStake, false, false⟩,
    ⟨params.poolMint, false, true⟩,
    ⟨params.managerFeeAccount, false, true⟩,
    ⟨rt.splTokenId, false, false⟩] ++
    params.depositAuthority.toList.map fun authority => ⟨authority, true, false⟩
  data := build .initializePool (.initializePool params.epochFee params.withdrawalFee params.depositFee
    params.referralFee params.maxValidators)

def addValidatorToPool (params : AddValidatorToPoolParams) : Instruction where
  programId := params.programId
  accounts := [
    ⟨params.stakePool, false, true⟩,
    ⟨params.staker, true, false⟩,
    ⟨params.reserveStake, false, true⟩,
    ⟨params.withdrawAuthority, false, false⟩,
    ⟨params.validatorList, false, true⟩,
    ⟨params.validatorStake, false, true⟩,
    ⟨params.validatorVote, false, false⟩,
    ⟨params.rentSysvar, false, false⟩,
    ⟨params.clockSysvar, false, false⟩,
    ⟨params.stakeHistorySysvar, false, false⟩,
    ⟨params.stakeConfigSysvar, false, false⟩,
    ⟨params.systemProgramId, false, false⟩,
    ⟨params.stakeProgramId, false, false⟩]
  data := build .addValidatorToPool (.seed (params.seed.getD 0))

def removeValidatorFromPool (params : RemoveValidatorFromPoolParams) : Instruction where
  programId := params.programId
  accounts := [
    ⟨params.stakePool, false, true⟩,
    ⟨params.staker, true, false⟩,
    ⟨params.withdrawAuthority, false, false⟩,
    ⟨params.validatorList, false, true⟩,
    ⟨params.validatorStake, false, true⟩,
    ⟨params.transientStake, false, true⟩,
    ⟨params.clockSysvar, false, false⟩,
    ⟨params.stakeProgramId, false, false⟩]
  data := build .removeValidatorFromPool .none

def depositStake (params : DepositStakeParams) : Instruction where
  programId := params.programId
  accounts := [
    ⟨params.stakePool, false, true⟩,
    ⟨params.validatorList, false, true⟩,
    ⟨params.depositAuthority, false, false⟩,
    ⟨params.withdrawAuthority, false, false⟩,
    ⟨params.depositStake, false, true⟩,
    ⟨params.validatorStake, false, true⟩,
    ⟨params.reserveStake, false, true⟩,
    ⟨params.destinationPoolAccount, false, true⟩,
    ⟨params.managerFeeAccount, false, true⟩,
    ⟨params.referralPoolAccount, false, true⟩,
    ⟨params.poolMint, false, true⟩,
    ⟨params.clockSysvar, false, false⟩,
    ⟨params.stakeHistorySysvar, false, false⟩,
    ⟨params.tokenProgramId, false, false⟩,
    ⟨params.stakeProgramId, false, false⟩]
  data := build .depositStake .none

def withdrawStake (params : WithdrawStakeParams) : Instruction where
  programId := params.programId
  accounts := [
    ⟨params.stakePool, false, true⟩,
    ⟨params.validatorList, false, true⟩,
    ⟨params.withdrawAuthority, false, false⟩,
    ⟨params.validatorStake, false, true⟩,
    ⟨params.destinationStake, false, true⟩,
    ⟨params.destinationStakeAuthority, false, false⟩,
    ⟨params.sourceTransferAuthority, true, false⟩,
    ⟨params.sourcePoolAccount, false, true⟩,
    ⟨params.managerFeeAccount, false, true⟩,
    ⟨params.poolMint, false, true⟩,
    ⟨params.clockSysvar, false, false⟩,
    ⟨params.tokenProgramId, false, false⟩,
    ⟨params.stakeProgramId, false, false⟩]
  data := build .withdrawStake (.amount params.amount)

def depositSol (params : DepositSolParams) : Instruction where
  programId := params.programId
  accounts := [
    ⟨params.stakePool, false, true⟩,
    ⟨params.withdrawAuthority, false, false⟩,
    ⟨params.reserveStake, false, true⟩,
    ⟨params.fundingAccount, true, true⟩,
    ⟨params.destinationPoolAccount, false, true⟩,
    ⟨params.managerFeeAccount, false, true⟩,
    ⟨params.referralPoolAccount, false, true⟩,
    ⟨params.poolMint, false, true⟩,
    ⟨params.systemProgramId, false, false⟩,
    ⟨params.tokenProgramId, false, false⟩] ++
    params.depositAuthority.toList.map fun authority => ⟨authority, true, false⟩
  data := build .depositSol (.amount params.amount)

def withdrawSol (params : WithdrawSolParams) : Instruction where
  programId := params.programId
  -- The entry for `sol_withdraw_authority` is made but not appended.
  accounts := [
    ⟨params.stakePool, false, true⟩,
    ⟨params.withdrawAuthority, false, false⟩,
    ⟨params.sourceTransferAuthority, true, false⟩,
    ⟨params.sourcePoolAccount, false, true⟩,
    ⟨params.reserveStake, false, true⟩,
    ⟨params.destinationSystemAccount, false, true⟩,
    ⟨params.managerFeeAccount, false, true⟩,
    ⟨params.poolMint, false, true⟩,
    ⟨params.clockSysvar, false, false⟩,
    ⟨params.stakeHistorySysvar, false, false⟩,
    ⟨params.stakeProgramId, false, false⟩,
    ⟨params.tokenProgramId, false, false⟩]
  data := build .withdrawSol (.amount params.amount)

def updateValidatorListBalance (params : UpdateValidatorListBalanceParams) : Instruction where
  programId := params.programId
  accounts := [
    ⟨params.stakePool, false, false⟩,
    ⟨params.withdrawAuthority, false, false⟩,
    ⟨params.validatorList, false, true⟩,
    ⟨params.reserveStake, false, true⟩,
    ⟨params.clockSysvar, false, false⟩,
    ⟨params.stakeHistorySysvar, false, false⟩,
    ⟨params.stakeProgramId, false, false⟩] ++
    params.validatorAndTransientStakePairs.map fun pubkey => ⟨pubkey, false, true⟩
  data := build .updateValidatorListBalance (.update params.startIndex params.noMerge)

def updateStakePoolBalance (params : UpdateStakePoolBalanceParams) : Instruction where
  programId := params.programId
  accounts := [
    ⟨params.stakePool, false, true⟩,
    ⟨params.withdrawAuthority, false, false⟩,
    ⟨params.validatorList, false, true⟩,
    ⟨params.reserveStake, false, false⟩,
    ⟨params.managerFeeAccount, false, true⟩,
    ⟨params.poolMint, false, true⟩,
    ⟨params.tokenProgramId, false, false⟩]
  data := build .updateStakePoolBalance .none

def cleanupRemovedValidatorEntries (params : CleanupRemovedValidatorEntriesParams) : Instruction where
  programId := params.programId
  accounts := [
    ⟨params.stakePool, false, false⟩,
    ⟨params.validatorList, false, true⟩]
  data := build .cleanupRemovedValidatorEntries .none

def increaseValidatorStake (params : IncreaseValidatorStakeParams) : Instruction where
  programId := params.programId
  accounts := [
    ⟨params.stakePool, false, false⟩,
    ⟨params.staker, true, false⟩,
    ⟨params.withdrawAuthority, false, false⟩,
    ⟨params.validatorList, false, true⟩,
    ⟨params.reserveStake, false, true⟩,
    ⟨params.transientStake, false, true⟩,
    ⟨params.validatorStake, false, false⟩,
    ⟨params.validatorVote, false, false⟩,
    ⟨params.clockSysvar, false, false⟩,
    ⟨params.rentSysvar, false, false⟩,
    ⟨params.stakeHistorySysvar, false, false⟩,
    ⟨params.stakeConfigSysvar, false, false⟩,
    ⟨params.systemProgramId, false, false⟩,
    ⟨params.stakeProgramId, false, false⟩]
  data := build .increaseValidatorStake
    (.moveStake params.lamports params.transientStakeSeed)

def increaseAdditionalValidatorStake (params : IncreaseAdditionalValidatorStakeParams) :
    Instruction where
  programId := params.programId
  accounts := [
    ⟨params.stakePool, false, false⟩,
    ⟨params.staker, true, false⟩,
    ⟨params.withdrawAuthority, false, false⟩,
    ⟨params.validatorList, false, true⟩,
    ⟨params.reserveStake, false, true⟩,
    ⟨params.ephemeralStake, false, true⟩,
    ⟨params.transientStake, false, true⟩,
    ⟨params.validatorStake, false, false⟩,
    ⟨params.validatorVote, false, false⟩,
    ⟨params.clockSysvar, false, false⟩,
    ⟨params.stakeHistorySysvar, false, false⟩,
    ⟨params.stakeConfigSysvar, false, false⟩,
    ⟨params.systemProgramId, false, false⟩,
    ⟨params.stakeProgramId, false, false⟩]
  data := build .increaseAdditionalValidatorStake
    (.moveStakeWithEphemeral params.lamports params.transientStakeSeed params.ephemeralStakeSeed)

def decreaseValidatorStake (params : DecreaseValidatorStakeParams) : Instruction where
  programId := params.programId
  accounts := [
    ⟨params.stakePool, false, false⟩,
    ⟨params.staker, true, false⟩,
    ⟨params.withdrawAuthority, false, false⟩,
    ⟨params.validatorList, false, true⟩,
    ⟨params.validatorStake, false, true⟩,
    ⟨params.transientStake, false, true⟩,
    ⟨params.clockSysvar, false, false⟩,
    ⟨params.rentSysvar, false, false⟩,
    ⟨params.systemProgramId, false, false⟩,
    ⟨params.stakeProgramId, false, false⟩]
  data := build .decreaseValidatorStake
    (.moveStake params.lamports params.transientStakeSeed)

def decreaseAdditionalValidatorStake (params : DecreaseAdditionalValidatorStakeParams) :
    Instruction where
  programId := params.programId
  accounts := [
    ⟨params.stakePool, false, false⟩,
    ⟨params.staker, true, false⟩,
    ⟨params.withdrawAuthority, false, false⟩,
    ⟨params.validatorList, false, true⟩,
    ⟨params.reserveStake, false, true⟩,
    ⟨params.validatorStake, false, true⟩,
    ⟨params.ephemeralStake, false, true⟩,
    ⟨params.transientStake, false, true⟩,
    ⟨params.clockSysvar, false, false⟩,
    ⟨params.stakeHistorySysvar, false, false⟩,
    ⟨params.systemProgramId, false, false⟩,
    ⟨params.stakeProgramId, false, false⟩]
  data := build .decreaseAdditionalValidatorStake
    (.moveStakeWithEphemeral params.lamports params.transientStakeSeed params.ephemeralStakeSeed)

def decreaseValidatorStakeWithReserve (params : DecreaseValidatorStakeWithReserveParams) :
    Instruction where
  programId := params.programId
  accounts := [
    ⟨params.stakePool, false, false⟩,
    ⟨params.staker, true, false⟩,
    ⟨params.withdrawAuthority, false, false⟩,
    ⟨params.validatorList, false, true⟩,
    ⟨params.reserveStake, false, true⟩,
    ⟨params.validatorStake, false, true⟩,
    ⟨params.transientStake, false, true⟩,
    ⟨params.clockSysvar, false, false⟩,
    ⟨params.stakeHistorySysvar, false, false⟩,
    ⟨params.systemProgramId, false, false⟩,
    ⟨params.stakeProgramId, false, false⟩]
  data := build .decreaseValidatorStakeWithReserve
    (.moveStake params.lamports params.transientStakeSeed)

def createTokenMetadata (params : CreateTokenMetadataParams) : Instruction where
  programId := params.programId
  accounts := [
    ⟨params.stakePool, false, false⟩,
    ⟨params.manager, true, false⟩,
    ⟨params.withdrawAuthority, false, false⟩,
    ⟨params.poolMint, false, false⟩,
    ⟨params.payer, true, true⟩,
    ⟨params.tokenMetadata, false, true⟩,
    ⟨params.metadataProgramId, false, false⟩,
    ⟨params.systemProgramId, false, false⟩]
  data := build .createTokenMetadata (.tokenMetadata params.name params.symbol params.uri)

def updateTokenMetadata (params : UpdateTokenMetadataParams) : Instruction where
  programId := params.programId
  accounts := [
    ⟨params.stakePool, false, false⟩,
    ⟨params.manager, true, false⟩,
    ⟨params.withdrawAuthority, false, false⟩,
    ⟨params.tokenMetadata, false, true⟩,
    ⟨params.metadataProgramId, false, false⟩]
  data := build .updateTokenMetadata (.tokenMetadata params.name params.symbol params.uri)

/-! ## Builders that derive their addresses -/

/-- `find_stake_program_address`. -/
def findStakeProgramAddress (programId voteAccountAddress stakePoolAddress : Pubkey)
    (seed : Option UInt32) : Pubkey × UInt8 :=
  rt.findProgramAddress [voteAccountAddress.toBytes, stakePoolAddress.toBytes,
    if seed.getD 0 = 0 then [] else leBytes 4 (seed.getD 0).toNat] programId

/-- `find_transient_stake_program_address`. -/
def findTransientStakeProgramAddress (programId voteAccountAddress stakePoolAddress : Pubkey)
    (seed : UInt64) : Pubkey × UInt8 :=
  rt.findProgramAddress [transientStakeSeedPrefix, voteAccountAddress.toBytes, stakePoolAddress.toBytes,
    leBytes 8 seed.toNat] programId

/-- `find_withdraw_authority_program_address`. -/
def findWithdrawAuthorityProgramAddress (programId stakePoolAddress : Pubkey) : Pubkey × UInt8 :=
  rt.findProgramAddress [stakePoolAddress.toBytes, authorityWithdraw] programId

/-- The instruction is sent to `STAKE_POOL_PROGRAM_ID`, whatever program the addresses belong to. -/
def addValidatorToPoolWithVote (stakePoolProgramId programId stakePool staker validatorList reserveStake
    validator : Pubkey) (validatorStakeSeed : Option UInt32) : Instruction :=
  addValidatorToPool {
    programId := stakePoolProgramId
    stakePool
    staker
    reserveStake
    withdrawAuthority := (findWithdrawAuthorityProgramAddress rt programId stakePool).1
    validatorList
    validatorStake := (findStakeProgramAddress rt programId validator stakePool validatorStakeSeed).1
    validatorVote := validator
    rentSysvar := rt.rentId
    clockSysvar := rt.clockId
    stakeHistorySysvar := rt.stakeHistoryId
    stakeConfigSysvar := rt.stakeConfigId
    systemProgramId := rt.systemProgramId
    stakeProgramId := rt.stakeProgramId
    seed := validatorStakeSeed }

def removeValidatorFromPoolWithVote (stakePoolProgramId programId stakePool staker validatorList
    validator : Pubkey) (validatorStakeSeed : Option UInt32) (transientStakeSeed : UInt64) : Instruction :=
  removeValidatorFromPool {
    programId := stakePoolProgramId
    stakePool
    staker
    withdrawAuthority := (findWithdrawAuthorityProgramAddress rt programId stakePool).1
    validatorList
    validatorStake := (findStakeProgramAddress rt programId validator stakePool validatorStakeSeed).1
    transientStake :=
      (findTransientStakeProgramAddress rt programId validator stakePool transientStakeSeed).1
    clockSysvar := rt.clockId
    stakeProgramId := rt.stakeProgramId }

end StakePoolFogo.Py
