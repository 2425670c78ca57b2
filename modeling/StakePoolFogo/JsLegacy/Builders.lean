import StakePoolFogo.Builders
import StakePoolFogo.JsLegacy.Instructions

/-!
# The JavaScript client's builders and decoders

The static methods of `StakePoolInstruction` in `instructions.ts`.  A key of an instruction is written
`⟨pubkey, isSigner, isWritable⟩`, as in the source.
-/

namespace StakePoolFogo.JsLegacy

/-- The two addresses of `constants.ts` that `checkProgramId` accepts. -/
structure ProgramIds where
  stakePoolProgramId : Pubkey
  devnetStakePoolProgramId : Pubkey

/-- `TransactionInstruction`. -/
structure TransactionInstruction where
  programId : Pubkey
  keys : List AccountMeta
  data : List UInt8
deriving DecidableEq, Repr

/-! ## Parameters -/

structure AddValidatorToPoolParams where
  programId : Option Pubkey
  stakePool : Pubkey
  staker : Pubkey
  reserveStake : Pubkey
  withdrawAuthority : Pubkey
  validatorList : Pubkey
  validatorStake : Pubkey
  validatorVote : Pubkey
  seed : Option Nat

structure RemoveValidatorFromPoolParams where
  programId : Option Pubkey
  stakePool : Pubkey
  staker : Pubkey
  withdrawAuthority : Pubkey
  validatorList : Pubkey
  validatorStake : Pubkey
  transientStake : Pubkey

structure CleanupRemovedValidatorEntriesParams where
  programId : Option Pubkey
  stakePool : Pubkey
  validatorList : Pubkey

structure UpdateValidatorListBalanceParams where
  programId : Option Pubkey
  stakePool : Pubkey
  withdrawAuthority : Pubkey
  validatorList : Pubkey
  reserveStake : Pubkey
  validatorAndTransientStakePairs : List Pubkey
  startIndex : Nat
  noMerge : Bool

structure UpdateStakePoolBalanceParams where
  programId : Option Pubkey
  stakePool : Pubkey
  withdrawAuthority : Pubkey
  validatorList : Pubkey
  reserveStake : Pubkey
  managerFeeAccount : Pubkey
  poolMint : Pubkey

structure DecreaseValidatorStakeParams where
  programId : Option Pubkey
  stakePool : Pubkey
  staker : Pubkey
  withdrawAuthority : Pubkey
  validatorList : Pubkey
  validatorStake : Pubkey
  transientStake : Pubkey
  lamports : Nat
  transientStakeSeed : Nat

structure DecreaseValidatorStakeWithReserveParams extends DecreaseValidatorStakeParams where
  reserveStake : Pubkey

structure DecreaseAdditionalValidatorStakeParams extends DecreaseValidatorStakeParams where
  reserveStake : Pubkey
  ephemeralStake : Pubkey
  ephemeralStakeSeed : Nat

structure IncreaseValidatorStakeParams where
  programId : Option Pubkey
  stakePool : Pubkey
  staker : Pubkey
  withdrawAuthority : Pubkey
  validatorList : Pubkey
  reserveStake : Pubkey
  transientStake : Pubkey
  validatorStake : Pubkey
  validatorVote : Pubkey
  lamports : Nat
  transientStakeSeed : Nat

structure IncreaseAdditionalValidatorStakeParams extends IncreaseValidatorStakeParams where
  ephemeralStake : Pubkey
  ephemeralStakeSeed : Nat

structure DepositStakeParams where
  programId : Option Pubkey
  stakePool : Pubkey
  validatorList : Pubkey
  depositAuthority : Pubkey
  withdrawAuthority : Pubkey
  depositStake : Pubkey
  validatorStake : Pubkey
  reserveStake : Pubkey
  destinationPoolAccount : Pubkey
  managerFeeAccount : Pubkey
  referralPoolAccount : Pubkey
  poolMint : Pubkey
deriving DecidableEq, Repr

structure WithdrawStakeParams where
  programId : Option Pubkey
  stakePool : Pubkey
  validatorList : Pubkey
  withdrawAuthority : Pubkey
  validatorStake : Pubkey
  destinationStake : Pubkey
  destinationStakeAuthority : Pubkey
  sourceTransferAuthority : Pubkey
  sourcePoolAccount : Pubkey
  managerFeeAccount : Pubkey
  poolMint : Pubkey
  poolTokens : Nat

structure WithdrawSolParams where
  programId : Option Pubkey
  stakePool : Pubkey
  sourcePoolAccount : Pubkey
  withdrawAuthority : Pubkey
  reserveStake : Pubkey
  destinationSystemAccount : Pubkey
  sourceTransferAuthority : Pubkey
  solWithdrawAuthority : Option Pubkey
  managerFeeAccount : Pubkey
  poolMint : Pubkey
  poolTokens : Nat

structure WithdrawWsolWithSessionParams where
  programId : Pubkey
  stakePool : Pubkey
  withdrawAuthority : Pubkey
  userTransferAuthority : Pubkey
  poolTokensFrom : Pubkey
  reserveStake : Pubkey
  userWsolAccount : Pubkey
  managerFeeAccount : Pubkey
  poolMint : Pubkey
  tokenProgramId : Pubkey
  solWithdrawAuthority : Option Pubkey
  wsolMint : Pubkey
  feePayer : Pubkey
  userOwner : Pubkey
  programSigner : Pubkey
  poolTokens : Nat

/-- The parameters of `depositSol` with `lamports` a number, or one that may be undefined. -/
structure DepositSolParams (number : Type) where
  programId : Option Pubkey
  stakePool : Pubkey
  depositAuthority : Option Pubkey
  withdrawAuthority : Pubkey
  reserveStake : Pubkey
  fundingAccount : Pubkey
  destinationPoolAccount : Pubkey
  managerFeeAccount : Pubkey
  referralPoolAccount : Pubkey
  poolMint : Pubkey
  lamports : number
deriving DecidableEq, Repr

structure DepositWsolWithSessionParams where
  programId : Pubkey
  signerOrSession : Pubkey
  feePayer : Pubkey
  programSigner : Pubkey
  userWsolAccount : Pubkey
  transientWsolPda : Pubkey
  wsolMint : Pubkey
  stakePool : Pubkey
  withdrawAuthority : Pubkey
  solDepositAuthority : Option Pubkey
  reserveStake : Pubkey
  destinationPoolAccount : Pubkey
  managerFeeAccount : Pubkey
  referralPoolAccount : Pubkey
  poolMint : Pubkey
  tokenProgramId : Pubkey
  lamports : Nat

structure CreateTokenMetadataParams where
  programId : Option Pubkey
  stakePool : Pubkey
  manager : Pubkey
  tokenMetadata : Pubkey
  withdrawAuthority : Pubkey
  poolMint : Pubkey
  payer : Pubkey
  name : String
  symbol : String
  uri : String

structure UpdateTokenMetadataParams where
  programId : Option Pubkey
  stakePool : Pubkey
  manager : Pubkey
  tokenMetadata : Pubkey
  withdrawAuthority : Pubkey
  name : String
  symbol : String
  uri : String

/-! ## Builders -/

/-- The data fields of an instruction, by name. -/
def fields (values : List (FieldName × Nat)) : FieldName → Option Nat := fun name => values.lookup name

variable (rt : Runtime) (ids : ProgramIds)

/-- `programId ?? STAKE_POOL_PROGRAM_ID`. -/
def ProgramIds.orDefault (programId : Option Pubkey) : Pubkey := programId.getD ids.stakePoolProgramId

def addValidatorToPool (params : AddValidatorToPoolParams) : TransactionInstruction where
  programId := ids.orDefault params.programId
  keys := [
    ⟨params.stakePool, false, true⟩,
    ⟨params.staker, true, false⟩,
    ⟨params.reserveStake, false, true⟩,
    ⟨params.withdrawAuthority, false, false⟩,
    ⟨params.validatorList, false, true⟩,
    ⟨params.validatorStake, false, true⟩,
    ⟨params.validatorVote, false, false⟩,
    ⟨rt.rentId, false, false⟩,
    ⟨rt.clockId, false, false⟩,
    ⟨rt.stakeHistoryId, false, false⟩,
    ⟨rt.stakeConfigId, false, false⟩,
    ⟨rt.systemProgramId, false, false⟩,
    ⟨rt.stakeProgramId, false, false⟩]
  data := encodeData (layouts .addValidatorToPool) (fields [(.seed, params.seed.getD 0)])

def removeValidatorFromPool (params : RemoveValidatorFromPoolParams) : TransactionInstruction where
  programId := ids.orDefault params.programId
  keys := [
    ⟨params.stakePool, false, true⟩,
    ⟨params.staker, true, false⟩,
    ⟨params.withdrawAuthority, false, false⟩,
    ⟨params.validatorList, false, true⟩,
    ⟨params.validatorStake, false, true⟩,
    ⟨params.transientStake, false, true⟩,
    ⟨rt.clockId, false, false⟩,
    ⟨rt.stakeProgramId, false, false⟩]
  data := encodeData (layouts .removeValidatorFromPool) (fields [])

def updateValidatorListBalance (params : UpdateValidatorListBalanceParams) :
    TransactionInstruction where
  programId := ids.orDefault params.programId
  keys := [
    ⟨params.stakePool, false, false⟩,
    ⟨params.withdrawAuthority, false, false⟩,
    ⟨params.validatorList, false, true⟩,
    ⟨params.reserveStake, false, true⟩,
    ⟨rt.clockId, false, false⟩,
    ⟨rt.stakeHistoryId, false, false⟩,
    ⟨rt.stakeProgramId, false, false⟩] ++
    params.validatorAndTransientStakePairs.map fun pubkey => ⟨pubkey, false, true⟩
  data := encodeData (layouts .updateValidatorListBalance)
    (fields [(.startIndex, params.startIndex), (.noMerge, if params.noMerge then 1 else 0)])

def updateStakePoolBalance (params : UpdateStakePoolBalanceParams) : TransactionInstruction where
  programId := ids.orDefault params.programId
  keys := [
    ⟨params.stakePool, false, true⟩,
    ⟨params.withdrawAuthority, false, false⟩,
    ⟨params.validatorList, false, true⟩,
    ⟨params.reserveStake, false, false⟩,
    ⟨params.managerFeeAccount, false, true⟩,
    ⟨params.poolMint, false, true⟩,
    ⟨rt.splTokenId, false, false⟩]
  data := encodeData (layouts .updateStakePoolBalance) (fields [])

def cleanupRemovedValidatorEntries (params : CleanupRemovedValidatorEntriesParams) :
    TransactionInstruction where
  programId := ids.orDefault params.programId
  -- Unlike the program's own builder, the pool is passed for reading only.
  keys := [
    ⟨params.stakePool, false, false⟩,
    ⟨params.validatorList, false, true⟩]
  data := encodeData (layouts .cleanupRemovedValidatorEntries) (fields [])

def increaseValidatorStake (params : IncreaseValidatorStakeParams) : TransactionInstruction where
  programId := ids.orDefault params.programId
  keys := [
    ⟨params.stakePool, false, false⟩,
    ⟨params.staker, true, false⟩,
    ⟨params.withdrawAuthority, false, false⟩,
    ⟨params.validatorList, false, true⟩,
    ⟨params.reserveStake, false, true⟩,
    ⟨params.transientStake, false, true⟩,
    ⟨params.validatorStake, false, false⟩,
    ⟨params.validatorVote, false, false⟩,
    ⟨rt.clockId, false, false⟩,
    ⟨rt.rentId, false, false⟩,
    ⟨rt.stakeHistoryId, false, false⟩,
    ⟨rt.stakeConfigId, false, false⟩,
    ⟨rt.systemProgramId, false, false⟩,
    ⟨rt.stakeProgramId, false, false⟩]
  data := encodeData (layouts .increaseValidatorStake)
    (fields [(.lamports, params.lamports), (.transientStakeSeed, params.transientStakeSeed)])

def increaseAdditionalValidatorStake (params : IncreaseAdditionalValidatorStakeParams) :
    TransactionInstruction where
  programId := ids.orDefault params.programId
  keys := [
    ⟨params.stakePool, false, false⟩,
    ⟨params.staker, true, false⟩,
    ⟨params.withdrawAuthority, false, false⟩,
    ⟨params.validatorList, false, true⟩,
    ⟨params.reserveStake, false, true⟩,
    ⟨params.ephemeralStake, false, true⟩,
    ⟨params.transientStake, false, true⟩,
    ⟨params.validatorStake, false, false⟩,
    ⟨params.validatorVote, false, false⟩,
    ⟨rt.clockId, false, false⟩,
    ⟨rt.stakeHistoryId, false, false⟩,
    ⟨rt.stakeConfigId, false, false⟩,
    ⟨rt.systemProgramId, false, false⟩,
    ⟨rt.stakeProgramId, false, false⟩]
  data := encodeData (layouts .increaseAdditionalValidatorStake)
    (fields [(.lamports, params.lamports), (.transientStakeSeed, params.transientStakeSeed),
      (.ephemeralStakeSeed, params.ephemeralStakeSeed)])

def decreaseValidatorStake (params : DecreaseValidatorStakeParams) : TransactionInstruction where
  programId := ids.orDefault params.programId
  keys := [
    ⟨params.stakePool, false, false⟩,
    ⟨params.staker, true, false⟩,
    ⟨params.withdrawAuthority, false, false⟩,
    ⟨params.validatorList, false, true⟩,
    ⟨params.validatorStake, false, true⟩,
    ⟨params.transientStake, false, true⟩,
    ⟨rt.clockId, false, false⟩,
    ⟨rt.rentId, false, false⟩,
    ⟨rt.systemProgramId, false, false⟩,
    ⟨rt.stakeProgramId, false, false⟩]
  data := encodeData (layouts .decreaseValidatorStake)
    (fields [(.lamports, params.lamports), (.transientStakeSeed, params.transientStakeSeed)])

def decreaseValidatorStakeWithReserve (params : DecreaseValidatorStakeWithReserveParams) :
    TransactionInstruction where
  programId := ids.orDefault params.programId
  keys := [
    ⟨params.stakePool, false, false⟩,
    ⟨params.staker, true, false⟩,
    ⟨params.withdrawAuthority, false, false⟩,
    ⟨params.validatorList, false, true⟩,
    ⟨params.reserveStake, false, true⟩,
    ⟨params.validatorStake, false, true⟩,
    ⟨params.transientStake, false, true⟩,
    ⟨rt.clockId, false, false⟩,
    ⟨rt.stakeHistoryId, false, false⟩,
    ⟨rt.systemProgramId, false, false⟩,
    ⟨rt.stakeProgramId, false, false⟩]
  data := encodeData (layouts .decreaseValidatorStakeWithReserve)
    (fields [(.lamports, params.lamports), (.transientStakeSeed, params.transientStakeSeed)])

def decreaseAdditionalValidatorStake (params : DecreaseAdditionalValidatorStakeParams) :
    TransactionInstruction where
  programId := ids.orDefault params.programId
  keys := [
    ⟨params.stakePool, false, false⟩,
    ⟨params.staker, true, false⟩,
    ⟨params.withdrawAuthority, false, false⟩,
    ⟨params.validatorList, false, true⟩,
    ⟨params.reserveStake, false, true⟩,
    ⟨params.validatorStake, false, true⟩,
    ⟨params.ephemeralStake, false, true⟩,
    ⟨params.transientStake, false, true⟩,
    ⟨rt.clockId, false, false⟩,
    ⟨rt.stakeHistoryId, false, false⟩,
    ⟨rt.systemProgramId, false, false⟩,
    ⟨rt.stakeProgramId, false, false⟩]
  data := encodeData (layouts .decreaseAdditionalValidatorStake)
    (fields [(.lamports, params.lamports), (.transientStakeSeed, params.transientStakeSeed),
      (.ephemeralStakeSeed, params.ephemeralStakeSeed)])

def depositStake (params : DepositStakeParams) : TransactionInstruction where
  programId := ids.orDefault params.programId
  keys := [
    ⟨params.stakePool, false, true⟩,
    ⟨params.validatorList, false, true⟩,
    ⟨params.depositAuthority, false, false⟩,
    ⟨params.withdrawAuthority, false, false⟩,
    ⟨params.depositStake, false, true⟩,
    ⟨params.validatorStake, false, true⟩,
    ⟨params.reserveStake, false, true⟩,
    ⟨params.destinationPoolAccount, false, true⟩,
    ⟨params.managerFeeAccount, false, true⟩,
    ⟨params.referralPoolAccount, false, true⟩,
    ⟨params.poolMint, false, true⟩,
    ⟨rt.clockId, false, false⟩,
    ⟨rt.stakeHistoryId, false, false⟩,
    ⟨rt.splTokenId, false, false⟩,
    ⟨rt.stakeProgramId, false, false⟩]
  data := encodeData (layouts .depositStake) (fields [])

def depositSol (params : DepositSolParams Nat) : TransactionInstruction where
  programId := ids.orDefault params.programId
  keys := [
    ⟨params.stakePool, false, true⟩,
    ⟨params.withdrawAuthority, false, false⟩,
    ⟨params.reserveStake, false, true⟩,
    ⟨params.fundingAccount, true, true⟩,
    ⟨params.destinationPoolAccount, false, true⟩,
    ⟨params.managerFeeAccount, false, true⟩,
    ⟨params.referralPoolAccount, false, true⟩,
    ⟨params.poolMint, false, true⟩,
    ⟨rt.systemProgramId, false, false⟩,
    ⟨rt.splTokenId, false, false⟩] ++
    params.depositAuthority.toList.map fun pubkey => ⟨pubkey, true, false⟩
  data := encodeData (layouts .depositSol) (fields [(.lamports, params.lamports)])

def buildDepositWsolWithSessionInstruction (params : DepositWsolWithSessionParams) :
    TransactionInstruction where
  programId := params.programId
  keys := [
    ⟨params.stakePool, false, true⟩,
    ⟨params.withdrawAuthority, false, false⟩,
    ⟨params.reserveStake, false, true⟩,
    ⟨params.destinationPoolAccount, false, true⟩,
    ⟨params.managerFeeAccount, false, true⟩,
    ⟨params.referralPoolAccount, false, true⟩,
    ⟨params.poolMint, false, true⟩,
    ⟨rt.systemProgramId, false, false⟩,
    ⟨params.tokenProgramId, false, false⟩,
    ⟨params.signerOrSession, true, true⟩,
    ⟨params.wsolMint, false, false⟩,
    ⟨params.feePayer, true, true⟩,
    ⟨params.userWsolAccount, false, true⟩,
    ⟨params.transientWsolPda, false, true⟩,
    ⟨params.programSigner, false, true⟩] ++
    params.solDepositAuthority.toList.map fun pubkey => ⟨pubkey, true, false⟩
  data := encodeData (layouts .depositWsolWithSession) (fields [(.lamports, params.lamports)])

def withdrawStake (params : WithdrawStakeParams) : TransactionInstruction where
  programId := ids.orDefault params.programId
  keys := [
    ⟨params.stakePool, false, true⟩,
    ⟨params.validatorList, false, true⟩,
    ⟨params.withdrawAuthority, false, false⟩,
    ⟨params.validatorStake, false, true⟩,
    ⟨params.destinationStake, false, true⟩,
    ⟨params.destinationStakeAuthority, false, false⟩,
    ⟨params.sourceTransferAuthority, true, false⟩,
    ⟨params.sourcePoolAccount, false, true⟩,
    ⟨params.managerFeeAccount, false, true⟩,
    ⟨params.poolMint, false, true⟩,
    ⟨rt.clockId, false, false⟩,
    ⟨rt.splTokenId, false, false⟩,
    ⟨rt.stakeProgramId, false, false⟩]
  data := encodeData (layouts .withdrawStake) (fields [(.poolTokens, params.poolTokens)])

def withdrawSol (params : WithdrawSolParams) : TransactionInstruction where
  programId := ids.orDefault params.programId
  keys := [
    ⟨params.stakePool, false, true⟩,
    ⟨params.withdrawAuthority, false, false⟩,
    ⟨params.sourceTransferAuthority, true, false⟩,
    ⟨params.sourcePoolAccount, false, true⟩,
    ⟨params.reserveStake, false, true⟩,
    ⟨params.destinationSystemAccount, false, true⟩,
    ⟨params.managerFeeAccount, false, true⟩,
    ⟨params.poolMint, false, true⟩,
    ⟨rt.clockId, false, false⟩,
    ⟨rt.stakeHistoryId, false, false⟩,
    ⟨rt.stakeProgramId, false, false⟩,
    ⟨rt.splTokenId, false, false⟩] ++
    params.solWithdrawAuthority.toList.map fun pubkey => ⟨pubkey, true, false⟩
  data := encodeData (layouts .withdrawSol) (fields [(.poolTokens, params.poolTokens)])

def buildWithdrawWsolWithSessionInstruction (params : WithdrawWsolWithSessionParams) :
    TransactionInstruction where
  programId := params.programId
  keys := [
    ⟨params.stakePool, false, true⟩,
    ⟨params.withdrawAuthority, false, false⟩,
    ⟨params.userTransferAuthority, true, true⟩,
    ⟨params.poolTokensFrom, false, true⟩,
    ⟨params.reserveStake, false, true⟩,
    ⟨params.userWsolAccount, false, true⟩,
    ⟨params.managerFeeAccount, false, true⟩,
    ⟨params.poolMint, false, true⟩,
    ⟨rt.clockId, false, false⟩,
    ⟨rt.stakeHistoryId, false, false⟩,
    ⟨rt.stakeProgramId, false, false⟩,
    ⟨params.tokenProgramId, false, false⟩,
    ⟨params.wsolMint, false, false⟩,
    ⟨params.feePayer, true, true⟩,
    ⟨params.userOwner, false, false⟩,
    ⟨rt.systemProgramId, false, false⟩,
    ⟨params.programSigner, false, true⟩,
    ⟨rt.associatedTokenProgramId, false, false⟩] ++
    params.solWithdrawAuthority.toList.map fun pubkey => ⟨pubkey, true, false⟩
  data := encodeData (layouts .withdrawWsolWithSession) (fields [(.poolTokens, params.poolTokens)])

/-! ## Metadata -/

def metadataMaxNameLength : Nat := 32

def metadataMaxSymbolLength : Nat := 10

def metadataMaxUriLength : Nat := 200

/-- The `length` of a JavaScript string: its UTF-16 code units. -/
def jsLength (s : String) : Nat := (s.toList.map fun c => if c.toNat < 2 ^ 16 then 1 else 2).sum

/-- `Buffer.from`. -/
def utf8Buffer (s : String) : List UInt8 := s.toByteArray.data.toList

inductive JsError where
  | thrown (message : String)
  | typeError
deriving DecidableEq, Repr

/-- The layout of the data, by the lengths of its blobs. -/
structure MetadataLayout where
  index : UInt8
  nameLength : Nat
  symbolLength : Nat
  uriLength : Nat
deriving DecidableEq, Repr

def tokenMetadataLayout (instruction : UInt8) (nameLength symbolLength uriLength : Nat) :
    Except JsError MetadataLayout := do
  if nameLength > metadataMaxNameLength then
    throw (.thrown "maximum token name length is 32 characters")
  if symbolLength > metadataMaxSymbolLength then
    throw (.thrown "maximum token symbol length is 10 characters")
  if uriLength > metadataMaxUriLength then
    throw (.thrown "maximum token uri length is 200 characters")
  return { index := instruction, nameLength, symbolLength, uriLength }

section Encode

variable (blobEncode : Nat → List UInt8 → Except JsError (List UInt8))

/-- `encodeData` with such a layout and the fields of the two builders. -/
def MetadataLayout.encodeData (type : MetadataLayout) (name symbol uri : String) :
    Except JsError (List UInt8) := do
  let nameBlob ← blobEncode type.nameLength (utf8Buffer name)
  let symbolBlob ← blobEncode type.symbolLength (utf8Buffer symbol)
  let uriBlob ← blobEncode type.uriLength (utf8Buffer uri)
  return List.flatten [[type.index], leBytes 4 (jsLength name), nameBlob, leBytes 4 (jsLength symbol),
    symbolBlob, leBytes 4 (jsLength uri), uriBlob]

def encodeTokenMetadata (instruction : UInt8) (name symbol uri : String) :
    Except JsError (List UInt8) := do
  let type ← tokenMetadataLayout instruction (jsLength name) (jsLength symbol) (jsLength uri)
  type.encodeData blobEncode name symbol uri

/-- The data of `createTokenMetadata`. -/
def createTokenMetadataData (params : CreateTokenMetadataParams) : Except JsError (List UInt8) :=
  encodeTokenMetadata blobEncode 17 params.name params.symbol params.uri

/-- The data of `updateTokenMetadata`. -/
def updateTokenMetadataData (params : UpdateTokenMetadataParams) : Except JsError (List UInt8) :=
  encodeTokenMetadata blobEncode 18 params.name params.symbol params.uri

end Encode

/-- The blob layout as documented: it encodes a buffer of its own length. -/
def strictBlob (length : Nat) (src : List UInt8) : Except JsError (List UInt8) :=
  if src.length = length then .ok src else .error .typeError

/-- `none` where the data cannot be encoded. -/
def createTokenMetadata (params : CreateTokenMetadataParams) : Option TransactionInstruction := do
  let keys := [
    ⟨params.stakePool, false, false⟩,
    ⟨params.manager, true, false⟩,
    ⟨params.withdrawAuthority, false, false⟩,
    ⟨params.poolMint, false, false⟩,
    ⟨params.payer, true, true⟩,
    ⟨params.tokenMetadata, false, true⟩,
    ⟨rt.mplTokenMetadataId, false, false⟩,
    ⟨rt.systemProgramId, false, false⟩,
    ⟨rt.rentId, false, false⟩]
  let data ← (createTokenMetadataData strictBlob params).toOption
  return { programId := ids.orDefault params.programId, keys, data }

def updateTokenMetadata (params : UpdateTokenMetadataParams) : Option TransactionInstruction := do
  let keys := [
    ⟨params.stakePool, false, false⟩,
    ⟨params.manager, true, false⟩,
    ⟨params.withdrawAuthority, false, false⟩,
    ⟨params.tokenMetadata, false, true⟩,
    ⟨rt.mplTokenMetadataId, false, false⟩]
  let data ← (updateTokenMetadataData strictBlob params).toOption
  return { programId := ids.orDefault params.programId, keys, data }

/-! ## Decoders -/

/-- `checkProgramId`; `none` where it throws. -/
def checkProgramId (programId : Pubkey) : Option Unit :=
  guard (programId = ids.stakePoolProgramId ∨ programId = ids.devnetStakePoolProgramId)

def checkKeyLength (keys : List AccountMeta) (expectedLength : Nat) : Option Unit :=
  guard (expectedLength ≤ keys.length)

def keyAt (i : TransactionInstruction) (index : Nat) : Option Pubkey := i.keys[index]?.map (·.key)

def decodeDepositStake (instruction : TransactionInstruction) : Option DepositStakeParams := do
  checkProgramId ids instruction.programId
  checkKeyLength instruction.keys 11
  let _ ← decodeData (layouts .depositStake) instruction.data
  return {
    programId := instruction.programId
    stakePool := ← keyAt instruction 0
    validatorList := ← keyAt instruction 1
    depositAuthority := ← keyAt instruction 2
    withdrawAuthority := ← keyAt instruction 3
    depositStake := ← keyAt instruction 4
    validatorStake := ← keyAt instruction 5
    reserveStake := ← keyAt instruction 6
    destinationPoolAccount := ← keyAt instruction 7
    managerFeeAccount := ← keyAt instruction 8
    referralPoolAccount := ← keyAt instruction 9
    poolMint := ← keyAt instruction 10 }

/-- The amount is read from a field of the name `amount`, and the keys from the second on one place too
late. -/
def decodeDepositSol (instruction : TransactionInstruction) : Option (DepositSolParams (Option Int)) := do
  checkProgramId ids instruction.programId
  checkKeyLength instruction.keys 9
  let data ← decodeData (layouts .depositSol) instruction.data
  return {
    programId := instruction.programId
    stakePool := ← keyAt instruction 0
    depositAuthority := ← keyAt instruction 1
    withdrawAuthority := ← keyAt instruction 2
    reserveStake := ← keyAt instruction 3
    fundingAccount := ← keyAt instruction 4
    destinationPoolAccount := ← keyAt instruction 5
    managerFeeAccount := ← keyAt instruction 6
    referralPoolAccount := ← keyAt instruction 7
    poolMint := ← keyAt instruction 8
    lamports := data.lookup .amount }

/-! ## The decoders against the builders -/

/-- A program id that the decoders accept, or none. -/
def ProgramIds.Accepts (programId : Option Pubkey) : Prop :=
  ∀ id, programId = some id → id = ids.stakePoolProgramId ∨ id = ids.devnetStakePoolProgramId

/-- The decoded parameters are the given ones, field for field. -/
def DepositStakeParams.Restores (p r : DepositStakeParams) : Prop :=
  (∀ id, p.programId = some id → r.programId = some id) ∧ r = { p with programId := r.programId }

def DepositSolParams.Restores (q : DepositSolParams Nat) (r : DepositSolParams (Option Int)) : Prop :=
  (∀ id, q.programId = some id → r.programId = some id) ∧
    (∀ key, q.depositAuthority = some key → r.depositAuthority = some key) ∧
    r = { q with
      programId := r.programId
      depositAuthority := r.depositAuthority
      lamports := some (q.lamports : Int) }

variable {ids}

theorem ProgramIds.Accepts.check {programId : Option Pubkey} (h : ids.Accepts programId) :
    checkProgramId ids (ids.orDefault programId) = some () := by
  have haccepted : ids.orDefault programId = ids.stakePoolProgramId ∨
      ids.orDefault programId = ids.devnetStakePoolProgramId := by
    cases programId with
    | none => exact .inl rfl
    | some id => exact h id rfl
  rw [checkProgramId, guard, if_pos haccepted]
  rfl

/-- The data has the fields `instruction` and `lamports`. -/
theorem decodeData_depositSol (lamports : Nat) : ∃ value, decodeData (layouts .depositSol)
    (encodeData (layouts .depositSol) (fields [(.lamports, lamports)])) =
      some [(.instruction, 14), (.lamports, value)] := ⟨_, rfl⟩

theorem decodeDepositStake_depositStake (p : DepositStakeParams) (h : ids.Accepts p.programId) :
    decodeDepositStake ids (depositStake rt ids p) =
      some { p with programId := some (ids.orDefault p.programId) } := by
  unfold decodeDepositStake
  show (checkProgramId ids (ids.orDefault p.programId)).bind _ = _
  rw [h.check]
  rfl

/-- Whatever the parameters are, what is decoded from the second key on is the account after it. -/
theorem decodeDepositSol_depositSol (q : DepositSolParams Nat) (h : ids.Accepts q.programId) :
    decodeDepositSol ids (depositSol rt ids q) = some {
      programId := some (ids.orDefault q.programId)
      stakePool := q.stakePool
      depositAuthority := some q.withdrawAuthority
      withdrawAuthority := q.reserveStake
      reserveStake := q.fundingAccount
      fundingAccount := q.destinationPoolAccount
      destinationPoolAccount := q.managerFeeAccount
      managerFeeAccount := q.referralPoolAccount
      referralPoolAccount := q.poolMint
      poolMint := rt.systemProgramId
      lamports := none } := by
  unfold decodeDepositSol
  obtain ⟨value, hdata⟩ := decodeData_depositSol q.lamports
  have hlength : 9 ≤ (depositSol rt ids q).keys.length := by simp [depositSol]
  have hkeys : checkKeyLength (depositSol rt ids q).keys 9 = some () := by
    rw [checkKeyLength, guard, if_pos hlength]
    rfl
  show (checkProgramId ids (ids.orDefault q.programId)).bind _ = _
  rw [h.check, Option.bind_some]
  show (checkKeyLength (depositSol rt ids q).keys 9).bind _ = _
  rw [hkeys, Option.bind_some]
  show (decodeData (layouts .depositSol) (depositSol rt ids q).data).bind _ = _
  rw [show (depositSol rt ids q).data = encodeData (layouts .depositSol)
    (fields [(.lamports, q.lamports)]) from rfl, hdata]
  rfl

end StakePoolFogo.JsLegacy
