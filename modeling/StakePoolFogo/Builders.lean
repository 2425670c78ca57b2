import StakePoolFogo.Instruction
import StakePoolFogo.Lib.Chunks

/-!
# The program's own instruction builders

`instruction.rs`: the account lists of the instructions, with the address of each account and whether it
signs or is written.  The program the instruction is for is `rt.programId`.
-/

namespace StakePoolFogo

/-- `MAX_VALIDATORS_TO_UPDATE`. -/
def maxValidatorsToUpdate : Nat := 4

/-- A writable account (`AccountMeta::new`). -/
def AccountMeta.new (key : Pubkey) (isSigner : Bool) : AccountMeta := ⟨key, isSigner, true⟩

def AccountMeta.newReadonly (key : Pubkey) (isSigner : Bool) : AccountMeta := ⟨key, isSigner, false⟩

/-- An instruction of the pool program with its accounts. -/
structure BuiltInstruction where
  accounts : List AccountMeta
  data : StakePoolInstruction
deriving DecidableEq, Repr

namespace Builder

open AccountMeta

variable (rt : Runtime)

def initializePool (stakePool manager staker stakePoolWithdrawAuthority validatorList reserveStake poolMint
    managerPoolAccount tokenProgramId : Pubkey) (depositAuthority : Option Pubkey)
    (fee withdrawalFee depositFee : Fee) (referralFee : UInt8) (maxValidators : UInt32) :
    BuiltInstruction where
  accounts := [new stakePool false, newReadonly manager true, newReadonly staker false,
    newReadonly stakePoolWithdrawAuthority false, new validatorList false, newReadonly reserveStake false,
    new poolMint false, new managerPoolAccount false, newReadonly tokenProgramId false] ++
    depositAuthority.toList.map fun authority => newReadonly authority true
  data := .initializePool fee withdrawalFee depositFee referralFee maxValidators

def addValidatorToPool (stakePool staker reserve stakePoolWithdraw validatorList stake validator : Pubkey)
    (seed : UInt32) : BuiltInstruction where
  accounts := [new stakePool false, newReadonly staker true, new reserve false,
    newReadonly stakePoolWithdraw false, new validatorList false, new stake false,
    newReadonly validator false, newReadonly rt.rentId false, newReadonly rt.clockId false,
    newReadonly rt.stakeHistoryId false, newReadonly rt.stakeConfigId false,
    newReadonly rt.systemProgramId false, newReadonly rt.stakeProgramId false]
  data := .addValidatorToPool seed

def removeValidatorFromPool (stakePool staker stakePoolWithdraw validatorList stakeAccount
    transientStakeAccount : Pubkey) : BuiltInstruction where
  accounts := [new stakePool false, newReadonly staker true, newReadonly stakePoolWithdraw false,
    new validatorList false, new stakeAccount false, new transientStakeAccount false,
    newReadonly rt.clockId false, newReadonly rt.stakeProgramId false]
  data := .removeValidatorFromPool

def decreaseValidatorStake (stakePool staker stakePoolWithdrawAuthority validatorList validatorStake
    transientStake : Pubkey) (lamports transientStakeSeed : UInt64) : BuiltInstruction where
  accounts := [newReadonly stakePool false, newReadonly staker true,
    newReadonly stakePoolWithdrawAuthority false, new validatorList false, new validatorStake false,
    new transientStake false, newReadonly rt.clockId false, newReadonly rt.rentId false,
    newReadonly rt.systemProgramId false, newReadonly rt.stakeProgramId false]
  data := .decreaseValidatorStake lamports transientStakeSeed

def decreaseAdditionalValidatorStake (stakePool staker stakePoolWithdrawAuthority validatorList
    reserveStake validatorStake ephemeralStake transientStake : Pubkey)
    (lamports transientStakeSeed ephemeralStakeSeed : UInt64) : BuiltInstruction where
  accounts := [newReadonly stakePool false, newReadonly staker true,
    newReadonly stakePoolWithdrawAuthority false, new validatorList false, new reserveStake false,
    new validatorStake false, new ephemeralStake false, new transientStake false,
    newReadonly rt.clockId false, newReadonly rt.stakeHistoryId false,
    newReadonly rt.systemProgramId false, newReadonly rt.stakeProgramId false]
  data := .decreaseAdditionalValidatorStake lamports transientStakeSeed ephemeralStakeSeed

def decreaseValidatorStakeWithReserve (stakePool staker stakePoolWithdrawAuthority validatorList
    reserveStake validatorStake transientStake : Pubkey) (lamports transientStakeSeed : UInt64) :
    BuiltInstruction where
  accounts := [newReadonly stakePool false, newReadonly staker true,
    newReadonly stakePoolWithdrawAuthority false, new validatorList false, new reserveStake false,
    new validatorStake false, new transientStake false, newReadonly rt.clockId false,
    newReadonly rt.stakeHistoryId false, newReadonly rt.systemProgramId false,
    newReadonly rt.stakeProgramId false]
  data := .decreaseValidatorStakeWithReserve lamports transientStakeSeed

def increaseValidatorStake (stakePool staker stakePoolWithdrawAuthority validatorList reserveStake
    transientStake validatorStake validator : Pubkey) (lamports transientStakeSeed : UInt64) :
    BuiltInstruction where
  accounts := [newReadonly stakePool false, newReadonly staker true,
    newReadonly stakePoolWithdrawAuthority false, new validatorList false, new reserveStake false,
    new transientStake false, newReadonly validatorStake false, newReadonly validator false,
    newReadonly rt.clockId false, newReadonly rt.rentId false, newReadonly rt.stakeHistoryId false,
    newReadonly rt.stakeConfigId false, newReadonly rt.systemProgramId false,
    newReadonly rt.stakeProgramId false]
  data := .increaseValidatorStake lamports transientStakeSeed

def increaseAdditionalValidatorStake (stakePool staker stakePoolWithdrawAuthority validatorList
    reserveStake ephemeralStake transientStake validatorStake validator : Pubkey)
    (lamports transientStakeSeed ephemeralStakeSeed : UInt64) : BuiltInstruction where
  accounts := [newReadonly stakePool false, newReadonly staker true,
    newReadonly stakePoolWithdrawAuthority false, new validatorList false, new reserveStake false,
    new ephemeralStake false, new transientStake false, newReadonly validatorStake false,
    newReadonly validator false, newReadonly rt.clockId false, newReadonly rt.stakeHistoryId false,
    newReadonly rt.stakeConfigId false, newReadonly rt.systemProgramId false,
    newReadonly rt.stakeProgramId false]
  data := .increaseAdditionalValidatorStake lamports transientStakeSeed ephemeralStakeSeed

/-! ## Builders that derive their addresses -/

def addValidatorToPoolWithVote (stakePool : StakePool) (stakePoolAddress voteAccountAddress : Pubkey)
    (seed : UInt32) : BuiltInstruction :=
  addValidatorToPool rt stakePoolAddress stakePool.staker stakePool.reserveStake
    (findWithdrawAuthorityProgramAddress rt stakePoolAddress).1 stakePool.validatorList
    (findStakeProgramAddress rt voteAccountAddress stakePoolAddress seed).1 voteAccountAddress seed

def removeValidatorFromPoolWithVote (stakePool : StakePool) (stakePoolAddress voteAccountAddress : Pubkey)
    (validatorStakeSeed : UInt32) (transientStakeSeed : UInt64) : BuiltInstruction :=
  removeValidatorFromPool rt stakePoolAddress stakePool.staker
    (findWithdrawAuthorityProgramAddress rt stakePoolAddress).1 stakePool.validatorList
    (findStakeProgramAddress rt voteAccountAddress stakePoolAddress validatorStakeSeed).1
    (findTransientStakeProgramAddress rt voteAccountAddress stakePoolAddress transientStakeSeed).1

/-! ## Updates -/

/-- The validator and the transient stake account of an entry. -/
def entryPair (stakePool : Pubkey) (v : ValidatorStakeInfo) : List Pubkey :=
  [(findStakeProgramAddress rt v.voteAccountAddress stakePool v.validatorSeedSuffix).1,
    (findTransientStakeProgramAddress rt v.voteAccountAddress stakePool v.transientSeedSuffix).1]

/-- The accounts of `UpdateValidatorListBalance` with the given pairs. -/
def updateListAccounts (stakePool stakePoolWithdrawAuthority validatorListAddress reserveStake : Pubkey)
    (pairs : List Pubkey) : List AccountMeta :=
  [newReadonly stakePool false, newReadonly stakePoolWithdrawAuthority false,
    new validatorListAddress false, new reserveStake false, newReadonly rt.clockId false,
    newReadonly rt.stakeHistoryId false, newReadonly rt.stakeProgramId false] ++
    pairs.map fun key => new key false

/-- An error if the chunk is not in the list. -/
def updateValidatorListBalanceChunk (stakePool stakePoolWithdrawAuthority validatorListAddress
    reserveStake : Pubkey) (validatorList : ValidatorList) (len startIndex : Nat) (noMerge : Bool) :
    Except ProgramError BuiltInstruction :=
  if startIndex + len ≤ validatorList.validators.length then
    .ok {
      accounts := updateListAccounts rt stakePool stakePoolWithdrawAuthority validatorListAddress
        reserveStake (((validatorList.validators.drop startIndex).take len).flatMap
          (entryPair rt stakePool))
      data := .updateValidatorListBalance (.ofNat startIndex) noMerge }
  else .error .invalidInstructionData

variable {rt} in
/-- A chunk that is built has the pairs of its entries. -/
theorem updateChunk_accounts {stakePool stakePoolWithdrawAuthority validatorListAddress
    reserveStake : Pubkey} {validatorList : ValidatorList} {len startIndex : Nat} {noMerge : Bool}
    {b : BuiltInstruction}
    (h : updateValidatorListBalanceChunk rt stakePool stakePoolWithdrawAuthority validatorListAddress
      reserveStake validatorList len startIndex noMerge = .ok b) :
    b.accounts = updateListAccounts rt stakePool stakePoolWithdrawAuthority validatorListAddress
      reserveStake (((validatorList.validators.drop startIndex).take len).flatMap
        (entryPair rt stakePool)) := by
  unfold updateValidatorListBalanceChunk at h
  split at h
  · cases h
    rfl
  · cases h

def updateStakePoolBalance (stakePool withdrawAuthority validatorListStorage reserveStake
    managerFeeAccount stakePoolMint tokenProgramId : Pubkey) : BuiltInstruction where
  accounts := [new stakePool false, newReadonly withdrawAuthority false, new validatorListStorage false,
    newReadonly reserveStake false, new managerFeeAccount false, new stakePoolMint false,
    newReadonly tokenProgramId false]
  data := .updateStakePoolBalance

def cleanupRemovedValidatorEntries (stakePool validatorListStorage : Pubkey) : BuiltInstruction where
  accounts := [new stakePool false, new validatorListStorage false]
  data := .cleanupRemovedValidatorEntries

/-- None if every entry of the chunk is of this epoch. -/
def updateStaleValidatorListBalanceChunk (stakePool stakePoolWithdrawAuthority validatorListAddress
    reserveStake : Pubkey) (validatorList : ValidatorList) (len startIndex : Nat) (noMerge : Bool)
    (currentEpoch : Epoch) : Except ProgramError (Option BuiltInstruction) :=
  if startIndex + len ≤ validatorList.validators.length then
    if ((validatorList.validators.drop startIndex).take len).all
        fun info => decide (currentEpoch ≤ info.lastUpdateEpoch) then
      .ok none
    else
      (updateValidatorListBalanceChunk rt stakePool stakePoolWithdrawAuthority validatorListAddress
        reserveStake validatorList len startIndex noMerge).map some
  else .error .invalidInstructionData

/-- `unwrap`, and the conversion of the start index to a `u32` on the way; none is a panic. -/
def unwrapChunk {α : Type} (startIndex : Nat) (built : Except ProgramError α) : Option α :=
  if startIndex < 2 ^ 32 then built.toOption else none

/-- The chunks of the list, built with their positions. -/
def enumerateChunks {α : Type} (validatorList : ValidatorList)
    (build : Nat → List ValidatorStakeInfo → Option α) : Option (List α) :=
  ((Chunks.chunks maxValidatorsToUpdate validatorList.validators).mapIdx build).mapM id

/-- What follows the updates of the list. -/
def finalInstructions (stakePool : StakePool) (stakePoolAddress withdrawAuthority : Pubkey) :
    List BuiltInstruction :=
  [updateStakePoolBalance stakePoolAddress withdrawAuthority stakePool.validatorList stakePool.reserveStake
      stakePool.managerFeeAccount stakePool.poolMint stakePool.tokenProgramId,
    cleanupRemovedValidatorEntries stakePoolAddress stakePool.validatorList]

/-- The updates of the list, and what follows them; none is a panic. -/
def updateStakePool (stakePool : StakePool) (validatorList : ValidatorList) (stakePoolAddress : Pubkey)
    (noMerge : Bool) : Option (List BuiltInstruction × List BuiltInstruction) := do
  let withdrawAuthority := (findWithdrawAuthorityProgramAddress rt stakePoolAddress).1
  let updateListInstructions ← enumerateChunks validatorList fun i chunk =>
    let startIndex := Checked.saturatingMul 64 i maxValidatorsToUpdate
    unwrapChunk startIndex (updateValidatorListBalanceChunk rt stakePoolAddress withdrawAuthority
      stakePool.validatorList stakePool.reserveStake validatorList chunk.length startIndex noMerge)
  return (updateListInstructions, finalInstructions stakePool stakePoolAddress withdrawAuthority)

def updateStaleStakePool (stakePool : StakePool) (validatorList : ValidatorList) (stakePoolAddress : Pubkey)
    (noMerge : Bool) (currentEpoch : Epoch) : Option (List BuiltInstruction × List BuiltInstruction) := do
  let withdrawAuthority := (findWithdrawAuthorityProgramAddress rt stakePoolAddress).1
  let updateListInstructions ← enumerateChunks validatorList fun i chunk =>
    let startIndex := Checked.saturatingMul 64 i maxValidatorsToUpdate
    unwrapChunk startIndex (updateStaleValidatorListBalanceChunk rt stakePoolAddress withdrawAuthority
      stakePool.validatorList stakePool.reserveStake validatorList chunk.length startIndex noMerge
      currentEpoch)
  return (updateListInstructions.reduceOption,
    finalInstructions stakePool stakePoolAddress withdrawAuthority)

/-! ## Deposits and withdrawals -/

/-- `deposit_stake_internal`, without the instructions of the stake program before it: a deposit
authority that is given signs, the derived one does not. -/
def depositStakeInternal (stakePool validatorListStorage : Pubkey)
    (stakePoolDepositAuthority : Option Pubkey) (stakePoolWithdrawAuthority depositStakeAddress
    validatorStakeAccount reserveStakeAccount poolTokensTo managerFeeAccount referrerPoolTokensAccount
    poolMint tokenProgramId : Pubkey) (minimumPoolTokensOut : Option UInt64) : BuiltInstruction where
  accounts := [new stakePool false, new validatorListStorage false] ++
    [match stakePoolDepositAuthority with
      | some authority => newReadonly authority true
      | none => newReadonly (findDepositAuthorityProgramAddress rt stakePool).1 false] ++
    [newReadonly stakePoolWithdrawAuthority false, new depositStakeAddress false,
      new validatorStakeAccount false, new reserveStakeAccount false, new poolTokensTo false,
      new managerFeeAccount false, new referrerPoolTokensAccount false, new poolMint false,
      newReadonly rt.clockId false, newReadonly rt.stakeHistoryId false,
      newReadonly tokenProgramId false, newReadonly rt.stakeProgramId false]
  data := match minimumPoolTokensOut with
    | some minimum => .depositStakeWithSlippage minimum
    | none => .depositStake

def depositSolInternal (stakePool stakePoolWithdrawAuthority reserveStakeAccount lamportsFrom poolTokensTo
    managerFeeAccount referrerPoolTokensAccount poolMint tokenProgramId : Pubkey)
    (solDepositAuthority : Option Pubkey) (lamportsIn : UInt64)
    (minimumPoolTokensOut : Option UInt64) : BuiltInstruction where
  accounts := [new stakePool false, newReadonly stakePoolWithdrawAuthority false,
    new reserveStakeAccount false, new lamportsFrom true, new poolTokensTo false,
    new managerFeeAccount false, new referrerPoolTokensAccount false, new poolMint false,
    newReadonly rt.systemProgramId false, newReadonly tokenProgramId false] ++
    solDepositAuthority.toList.map fun authority => newReadonly authority true
  data := match minimumPoolTokensOut with
    | some minimum => .depositSolWithSlippage lamportsIn minimum
    | none => .depositSol lamportsIn

def depositWsolWithSession (signerOrSession feePayer programSigner userWsolAccount transientWsolAccount
    wsolMint stakePool stakePoolWithdrawAuthority : Pubkey) (solDepositAuthority : Option Pubkey)
    (reserveStakeAccount poolTokensTo managerFeeAccount referrerPoolTokensAccount poolMint tokenProgramId
    systemProgramId : Pubkey) (lamportsIn : UInt64) : BuiltInstruction where
  accounts := [new stakePool false, newReadonly stakePoolWithdrawAuthority false,
    new reserveStakeAccount false, new poolTokensTo false, new managerFeeAccount false,
    new referrerPoolTokensAccount false, new poolMint false, newReadonly systemProgramId false,
    newReadonly tokenProgramId false, new signerOrSession true, newReadonly wsolMint false,
    new feePayer true, new userWsolAccount false, new transientWsolAccount false,
    new programSigner false] ++ solDepositAuthority.toList.map fun authority => newReadonly authority true
  data := .depositWsolWithSession lamportsIn

def withdrawStakeInternal (stakePool validatorListStorage stakePoolWithdraw stakeToSplit stakeToReceive
    userStakeAuthority userTransferAuthority userPoolTokenAccount managerFeeAccount poolMint
    tokenProgramId : Pubkey) (poolTokensIn : UInt64) (minimumLamportsOut : Option UInt64) :
    BuiltInstruction where
  accounts := [new stakePool false, new validatorListStorage false, newReadonly stakePoolWithdraw false,
    new stakeToSplit false, new stakeToReceive false, newReadonly userStakeAuthority false,
    newReadonly userTransferAuthority true, new userPoolTokenAccount false, new managerFeeAccount false,
    new poolMint false, newReadonly rt.clockId false, newReadonly tokenProgramId false,
    newReadonly rt.stakeProgramId false]
  data := match minimumLamportsOut with
    | some minimum => .withdrawStakeWithSlippage poolTokensIn minimum
    | none => .withdrawStake poolTokensIn

def withdrawSolInternal (stakePool stakePoolWithdrawAuthority userTransferAuthority poolTokensFrom
    reserveStakeAccount lamportsTo managerFeeAccount poolMint tokenProgramId : Pubkey)
    (solWithdrawAuthority : Option Pubkey) (poolTokensIn : UInt64)
    (minimumLamportsOut : Option UInt64) : BuiltInstruction where
  accounts := [new stakePool false, newReadonly stakePoolWithdrawAuthority false,
    newReadonly userTransferAuthority true, new poolTokensFrom false, new reserveStakeAccount false,
    new lamportsTo false, new managerFeeAccount false, new poolMint false, newReadonly rt.clockId false,
    newReadonly rt.stakeHistoryId false, newReadonly rt.stakeProgramId false,
    newReadonly tokenProgramId false] ++
    solWithdrawAuthority.toList.map fun authority => newReadonly authority true
  data := match minimumLamportsOut with
    | some minimum => .withdrawSolWithSlippage poolTokensIn minimum
    | none => .withdrawSol poolTokensIn

def withdrawWsolWithSession (stakePool stakePoolWithdrawAuthority userTransferAuthority poolTokensFrom
    reserveStakeAccount userWsolAccount managerFeeAccount poolMint tokenProgramId : Pubkey)
    (solWithdrawAuthority : Option Pubkey) (wsolMint feePayer userOwner systemProgramId programSigner
    associatedTokenProgramId : Pubkey) (poolTokensIn : UInt64) : BuiltInstruction where
  accounts := [new stakePool false, newReadonly stakePoolWithdrawAuthority false,
    newReadonly userTransferAuthority true, new poolTokensFrom false, new reserveStakeAccount false,
    new userWsolAccount false, new managerFeeAccount false, new poolMint false,
    newReadonly rt.clockId false, newReadonly rt.stakeHistoryId false,
    newReadonly rt.stakeProgramId false, newReadonly tokenProgramId false, newReadonly wsolMint false,
    new feePayer true, newReadonly userOwner false, newReadonly systemProgramId false,
    new programSigner false, newReadonly associatedTokenProgramId false] ++
    solWithdrawAuthority.toList.map fun authority => newReadonly authority true
  data := .withdrawWsolWithSession poolTokensIn

/-! ## Metadata -/

def updateTokenMetadata (stakePool manager poolMint : Pubkey) (name symbol uri : List UInt8) :
    BuiltInstruction where
  accounts := [newReadonly stakePool false, newReadonly manager true,
    newReadonly (findWithdrawAuthorityProgramAddress rt stakePool).1 false,
    new (findMetadataAccount rt poolMint).1 false, newReadonly rt.mplTokenMetadataId false]
  data := .updateTokenMetadata name symbol uri

def createTokenMetadata (stakePool manager poolMint payer : Pubkey) (name symbol uri : List UInt8) :
    BuiltInstruction where
  accounts := [newReadonly stakePool false, newReadonly manager true,
    newReadonly (findWithdrawAuthorityProgramAddress rt stakePool).1 false, newReadonly poolMint false,
    new payer true, new (findMetadataAccount rt poolMint).1 false,
    newReadonly rt.mplTokenMetadataId false, newReadonly rt.systemProgramId false]
  data := .createTokenMetadata name symbol uri

end Builder

end StakePoolFogo
