import StakePoolFogo.Coverage
import StakePoolFogo.JsLegacy.Builders
import StakePoolFogo.Lib.Chunks

/-!
# The JavaScript client's actions

The functions of `index.ts` and `utils/stake.ts` that derive the validators' addresses: what they fetch is
passed to them, what they throw is `none`, and of the instructions they return only those for the pool
program are modelled.
-/

open StakePoolFogo.Borsh StakePoolFogo.Codec StakePoolFogo.Outcome

namespace StakePoolFogo.JsLegacy

/-! ## Addresses -/

section

variable (rt : Runtime)

/-- `findStakeProgramAddress` of `utils/program-address.ts`; a seed does not have more than four bytes. -/
def findStakeProgramAddress (programId voteAccountAddress stakePoolAddress : Pubkey) (seed : Option Nat) :
    Option Pubkey := do
  let bytes ← match seed with
    | none | some 0 => some []
    | some n => if n < 2 ^ 32 then some (leBytes 4 n) else none
  return (rt.findProgramAddress [voteAccountAddress.toBytes, stakePoolAddress.toBytes, bytes] programId).1

/-- `findTransientStakeProgramAddress`. -/
def findTransientStakeProgramAddress (programId voteAccountAddress stakePoolAddress : Pubkey) (seed : Nat) :
    Option Pubkey := do
  guard (seed < 2 ^ 64)
  return (rt.findProgramAddress [transientStakeSeedPrefix, voteAccountAddress.toBytes,
    stakePoolAddress.toBytes, leBytes 8 seed] programId).1

/-- `findEphemeralStakeProgramAddress`. -/
def findEphemeralStakeProgramAddress (programId stakePoolAddress : Pubkey) (seed : Nat) : Option Pubkey := do
  guard (seed < 2 ^ 64)
  return (rt.findProgramAddress [ephemeralStakeSeedPrefix, stakePoolAddress.toBytes, leBytes 8 seed]
    programId).1

/-- `findWithdrawAuthorityProgramAddress`. -/
def findWithdrawAuthorityProgramAddress (programId stakePoolAddress : Pubkey) : Pubkey :=
  (rt.findProgramAddress [stakePoolAddress.toBytes, authorityWithdraw] programId).1

end

/-- `toNumber` of a big number. -/
def toNumber (n : Nat) : Option Nat := if n < 2 ^ 53 then some n else none

/-- Integers that a number holds and a big number is made of: beyond them, `toNumber` and `new BN` throw. -/
def IsSafe (n : Int) : Prop := n.natAbs < 2 ^ 53

instance (n : Int) : Decidable (IsSafe n) := inferInstanceAs (Decidable (_ < _))

/-- The entry of a vote account. -/
def ValidatorList.find (l : ValidatorList) (vote : Pubkey) : Option ValidatorStakeInfo :=
  l.validators.find? (·.voteAccountAddress == vote)

/-! ## Validators -/

section

variable (rt : Runtime) (ids : ProgramIds) (stakePoolProgramId : Pubkey)

/-- The stake account is derived with the seed, which the instruction does not carry. -/
def addValidatorToPoolAction (stakePool : StakePool) (validatorListData : List UInt8)
    (stakePoolAddress validatorVote : Pubkey) (seed : Option Nat) : Option TransactionInstruction := do
  let validatorList ← ValidatorList.decode validatorListData
  guard (validatorList.find validatorVote).isNone
  let validatorStake ← findStakeProgramAddress rt stakePoolProgramId validatorVote stakePoolAddress seed
  return addValidatorToPool rt ids {
    programId := stakePoolProgramId
    stakePool := stakePoolAddress
    staker := stakePool.staker
    reserveStake := stakePool.reserveStake
    withdrawAuthority := findWithdrawAuthorityProgramAddress rt stakePoolProgramId stakePoolAddress
    validatorList := stakePool.validatorList
    validatorStake
    validatorVote
    seed := none }

/-- The seed of the transient account: the next one, or with an ephemeral account the current one. -/
def transientStakeSeed (validatorInfo : ValidatorStakeInfo) (ephemeralStakeSeed : Option Nat) : Nat :=
  match ephemeralStakeSeed with
  | none => validatorInfo.transientSeedSuffixStart + 1
  | some _ => validatorInfo.transientSeedSuffixStart

def increaseValidatorStakeAction (stakePool : StakePool) (validatorListData : List UInt8)
    (stakePoolAddress validatorVote : Pubkey) (lamports : Nat) (ephemeralStakeSeed : Option Nat) :
    Option TransactionInstruction := do
  let validatorList ← ValidatorList.decode validatorListData
  let validatorInfo ← validatorList.find validatorVote
  let withdrawAuthority := findWithdrawAuthorityProgramAddress rt stakePoolProgramId stakePoolAddress
  let seed := transientStakeSeed validatorInfo ephemeralStakeSeed
  let transientStake ← findTransientStakeProgramAddress rt stakePoolProgramId
    validatorInfo.voteAccountAddress stakePoolAddress seed
  let validatorStake ← findStakeProgramAddress rt stakePoolProgramId validatorInfo.voteAccountAddress
    stakePoolAddress none
  let transientStakeSeed ← toNumber seed
  let params : IncreaseValidatorStakeParams := {
    programId := stakePoolProgramId
    stakePool := stakePoolAddress
    staker := stakePool.staker
    validatorList := stakePool.validatorList
    reserveStake := stakePool.reserveStake
    transientStakeSeed, withdrawAuthority, transientStake, validatorStake, validatorVote, lamports }
  match ephemeralStakeSeed with
  | some ephemeralStakeSeed =>
    guard (IsSafe ephemeralStakeSeed)
    let ephemeralStake ← findEphemeralStakeProgramAddress rt stakePoolProgramId stakePoolAddress
      ephemeralStakeSeed
    return increaseAdditionalValidatorStake rt ids { params with ephemeralStake, ephemeralStakeSeed }
  | none => return increaseValidatorStake rt ids params

def decreaseValidatorStakeAction (stakePool : StakePool) (validatorListData : List UInt8)
    (stakePoolAddress validatorVote : Pubkey) (lamports : Nat) (ephemeralStakeSeed : Option Nat) :
    Option TransactionInstruction := do
  let validatorList ← ValidatorList.decode validatorListData
  let validatorInfo ← validatorList.find validatorVote
  let withdrawAuthority := findWithdrawAuthorityProgramAddress rt stakePoolProgramId stakePoolAddress
  let validatorStake ← findStakeProgramAddress rt stakePoolProgramId validatorInfo.voteAccountAddress
    stakePoolAddress none
  let seed := transientStakeSeed validatorInfo ephemeralStakeSeed
  let transientStake ← findTransientStakeProgramAddress rt stakePoolProgramId
    validatorInfo.voteAccountAddress stakePoolAddress seed
  let transientStakeSeed ← toNumber seed
  let params : DecreaseValidatorStakeParams := {
    programId := stakePoolProgramId
    stakePool := stakePoolAddress
    staker := stakePool.staker
    validatorList := stakePool.validatorList
    transientStakeSeed, withdrawAuthority, validatorStake, transientStake, lamports }
  match ephemeralStakeSeed with
  | some ephemeralStakeSeed =>
    guard (IsSafe ephemeralStakeSeed)
    let ephemeralStake ← findEphemeralStakeProgramAddress rt stakePoolProgramId stakePoolAddress
      ephemeralStakeSeed
    return decreaseAdditionalValidatorStake rt ids { params with
      reserveStake := stakePool.reserveStake, ephemeralStake, ephemeralStakeSeed }
  | none =>
    return decreaseValidatorStakeWithReserve rt ids { params with reserveStake := stakePool.reserveStake }

/-! ## Updates -/

/-- `arrayChunk`: the slices from `0`, `size`, `2 * size` and so on. -/
def arrayChunk {α : Type} (array : List α) (size : Nat) : List (List α) := Chunks.chunks size array

/-- The two addresses the update derives for an entry. -/
def stakePair (stakePoolAddress : Pubkey) (validator : ValidatorStakeInfo) : Option (List Pubkey) := do
  let validatorStake ← findStakeProgramAddress rt stakePoolProgramId validator.voteAccountAddress
    stakePoolAddress none
  let transientStake ← findTransientStakeProgramAddress rt stakePoolProgramId
    validator.voteAccountAddress stakePoolAddress validator.transientSeedSuffixStart
  return [validatorStake, transientStake]

/-- The instructions for the chunks, the first of which starts at `startIndex`. -/
def updateListInstructions (stakePool : StakePool) (stakePoolAddress : Pubkey) (noMerge : Bool) :
    (startIndex : Nat) → List (List ValidatorStakeInfo) → Option (List TransactionInstruction)
  | _, [] => some []
  | startIndex, validatorChunk :: validatorChunks => do
    let pairs ← validatorChunk.mapM (stakePair rt stakePoolProgramId stakePoolAddress)
    let instruction := updateValidatorListBalance rt ids {
      programId := stakePoolProgramId
      stakePool := stakePoolAddress
      validatorList := stakePool.validatorList
      reserveStake := stakePool.reserveStake
      validatorAndTransientStakePairs := pairs.flatten
      withdrawAuthority := findWithdrawAuthorityProgramAddress rt stakePoolProgramId stakePoolAddress
      startIndex, noMerge }
    let instructions ← updateListInstructions stakePool stakePoolAddress noMerge
      (startIndex + maxValidatorsToUpdate) validatorChunks
    return instruction :: instructions

/-- `updateStakePool`: the updates of the list and the final instructions. -/
def updateStakePoolAction (stakePool : StakePool) (validatorListData : List UInt8)
    (stakePoolAddress : Pubkey) (noMerge : Bool) :
    Option (List TransactionInstruction × List TransactionInstruction) := do
  let validatorList ← ValidatorList.decode validatorListData
  let withdrawAuthority := findWithdrawAuthorityProgramAddress rt stakePoolProgramId stakePoolAddress
  let updates ← updateListInstructions rt ids stakePoolProgramId stakePool stakePoolAddress noMerge 0
    (arrayChunk validatorList.validators maxValidatorsToUpdate)
  return (updates, [
    updateStakePoolBalance rt ids {
      programId := stakePoolProgramId
      stakePool := stakePoolAddress
      validatorList := stakePool.validatorList
      reserveStake := stakePool.reserveStake
      managerFeeAccount := stakePool.managerFeeAccount
      poolMint := stakePool.poolMint
      withdrawAuthority },
    cleanupRemovedValidatorEntries ids {
      programId := stakePoolProgramId
      stakePool := stakePoolAddress
      validatorList := stakePool.validatorList }])

end

/-! ## Withdrawals -/

/-- `MINIMUM_ACTIVE_STAKE`. -/
def minimumActiveStake : Nat := 1000000000

inductive AccountType where
  | preferred
  | active
  | transient
  | reserve
deriving DecidableEq, Repr

structure ValidatorAccount where
  type : AccountType
  voteAddress : Option Pubkey
  stakeAddress : Pubkey
  lamports : Nat
deriving DecidableEq, Repr

structure WithdrawAccount where
  stakeAddress : Pubkey
  voteAddress : Option Pubkey
  poolAmount : Int
deriving DecidableEq, Repr

/-- What the client asks the cluster: `getMinimumBalanceForRentExemption` of a stake account and the
lamports of an account, where there is one. -/
structure Cluster where
  rentExemption : Nat
  lamports : Pubkey → Option Nat

def calcPoolTokensForDeposit (stakePool : StakePool) (stakeLamports : Nat) : Int :=
  if stakePool.poolTokenSupply = 0 ∨ stakePool.totalLamports = 0 then stakeLamports
  else (stakeLamports * stakePool.poolTokenSupply / stakePool.totalLamports : Nat)

/-- A division by zero throws. -/
def calcLamportsWithdrawAmount (stakePool : StakePool) (poolTokens : Int) : Option Int :=
  if poolTokens * stakePool.totalLamports < stakePool.poolTokenSupply then some 0
  else if stakePool.poolTokenSupply = 0 then none
  else some ((poolTokens * stakePool.totalLamports).tdiv stakePool.poolTokenSupply)

section

variable (rt : Runtime) (ids : ProgramIds) (stakePoolProgramId : Pubkey)

/-- The accounts of an entry that stake can be withdrawn from. -/
def entryAccounts (stakePool : StakePool) (stakePoolAddress : Pubkey) (minBalance : Nat)
    (validator : ValidatorStakeInfo) : Option (List ValidatorAccount) :=
  if validator.status ≠ 0 then some []
  else do
    let stakeAccountAddress ← findStakeProgramAddress rt stakePoolProgramId validator.voteAccountAddress
      stakePoolAddress none
    let active : List ValidatorAccount :=
      if validator.activeStakeLamports = 0 then []
      else [{
        type := if stakePool.preferredWithdrawValidatorVoteAddress = some validator.voteAccountAddress
          then .preferred else .active
        voteAddress := validator.voteAccountAddress
        stakeAddress := stakeAccountAddress
        lamports := validator.activeStakeLamports }]
    if minBalance < validator.transientStakeLamports then
      let transientStakeAccountAddress ← findTransientStakeProgramAddress rt stakePoolProgramId
        validator.voteAccountAddress stakePoolAddress validator.transientSeedSuffixStart
      return active ++ [{
        type := .transient
        voteAddress := validator.voteAccountAddress
        stakeAddress := transientStakeAccountAddress
        lamports := validator.transientStakeLamports - minBalance }]
    else return active

/-- The pairs of accounts that the engine compares when it sorts a list of them, which is up to it. -/
abbrev Comparisons := List ValidatorAccount → List (ValidatorAccount × ValidatorAccount)

/-- The default order, from the highest to the lowest balance. -/
def compareLamports (a b : ValidatorAccount) : Int := b.lamports - a.lamports

/-- The pool tokens that an account is worth, with the fee on top. -/
def availableForWithdrawal (stakePool : StakePool) (skipFee : Bool) (lamports : Nat) : Int :=
  let fee := stakePool.stakeWithdrawalFee
  let inverse : Int := fee.denominator - fee.numerator
  let tokens := calcPoolTokensForDeposit stakePool lamports
  if skipFee = false ∧ inverse ≠ 0 then (tokens * fee.denominator).tdiv inverse else tokens

/-- Take pool tokens from the accounts in turn until `remainingAmount` is used up. -/
def takeFrom (stakePool : StakePool) (minBalance : Nat) (skipFee : Bool) :
    List ValidatorAccount → (remainingAmount : Int) → List WithdrawAccount × Int
  | [], remainingAmount => ([], remainingAmount)
  | account :: accounts, remainingAmount =>
    let poolAmount := min (availableForWithdrawal stakePool skipFee account.lamports) remainingAmount
    if account.lamports ≤ minBalance ∧ account.type = .transient ∨ poolAmount ≤ 0 then
      takeFrom stakePool minBalance skipFee accounts remainingAmount
    else if remainingAmount - poolAmount = 0 then
      ([⟨account.stakeAddress, account.voteAddress, poolAmount⟩], 0)
    else
      let rest := takeFrom stakePool minBalance skipFee accounts (remainingAmount - poolAmount)
      (⟨account.stakeAddress, account.voteAddress, poolAmount⟩ :: rest.1, rest.2)

/-- `accounts.sort`, which is stable.  The default order takes the number of the difference, so it throws
where the engine compares two balances that are too far apart. -/
def sortAccounts (compared : Comparisons) (compareFn : Option (ValidatorAccount → ValidatorAccount → Int))
    (accounts : List ValidatorAccount) : Option (List ValidatorAccount) := do
  guard (compareFn.isNone = true → ∀ pair ∈ compared accounts, IsSafe (compareLamports pair.1 pair.2))
  let compare := compareFn.getD compareLamports
  return accounts.mergeSort fun a b => compare a b ≤ 0

/-- `prepareWithdrawAccounts`. -/
def prepareWithdrawAccounts (cluster : Cluster) (compared : Comparisons) (stakePool : StakePool)
    (validatorListData : List UInt8) (stakePoolAddress : Pubkey) (amount : Nat)
    (compareFn : Option (ValidatorAccount → ValidatorAccount → Int)) (skipFee : Bool) :
    Option (List WithdrawAccount) := do
  let validatorList ← ValidatorList.decode validatorListData
  guard (validatorList.validators ≠ [])
  let minBalance := cluster.rentExemption + minimumActiveStake
  guard (IsSafe minBalance)
  let accounts ← validatorList.validators.mapM
    (entryAccounts rt stakePoolProgramId stakePool stakePoolAddress minBalance)
  let accounts ← sortAccounts compared compareFn accounts.flatten
  let reserve := (cluster.lamports stakePool.reserveStake).getD 0
  guard (IsSafe ((reserve : Int) - cluster.rentExemption))
  let accounts := accounts ++ if cluster.rentExemption < reserve then
    [{ type := .reserve, voteAddress := none, stakeAddress := stakePool.reserveStake,
       lamports := reserve - cluster.rentExemption }] else []
  let ordered := [AccountType.preferred, .active, .transient, .reserve].flatMap fun type =>
    accounts.filter (·.type = type)
  let (withdrawFrom, remainingAmount) := takeFrom stakePool minBalance skipFee ordered amount
  guard (remainingAmount ≤ 0)
  return withdrawFrom

/-- The stake account of a validator, if it has enough for the withdrawal. -/
def validatorSource (cluster : Cluster) (stakePool : StakePool) (stakePoolAddress voteAccount : Pubkey)
    (poolAmount : Nat) (checkAvailable : Bool) : Option WithdrawAccount := do
  let stakeAddress ← findStakeProgramAddress rt stakePoolProgramId voteAccount stakePoolAddress none
  let lamports ← cluster.lamports stakeAddress
  let availableLamports : Int := lamports - minimumActiveStake - cluster.rentExemption
  guard (IsSafe availableLamports)
  guard (checkAvailable = true → 0 ≤ availableLamports)
  let availableForWithdrawal ← calcLamportsWithdrawAmount stakePool availableLamports
  guard ((poolAmount : Int) ≤ availableForWithdrawal)
  return ⟨stakeAddress, voteAccount, poolAmount⟩

/-- The parameters of `withdrawStake`; `receiverVoter` is the vote account that the stake receiver is
delegated to, where it is delegated. -/
structure WithdrawStakeRequest where
  tokenOwner : Pubkey
  poolTokenAccount : Pubkey
  tokenAmount : Nat
  poolAmount : Nat
  useReserve : Bool
  voteAccountAddress : Option Pubkey
  receiverVoter : Option Pubkey
  stakeReceiver : Option Pubkey
  validatorComparator : Option (ValidatorAccount → ValidatorAccount → Int)
  userTransferAuthority : Pubkey
  newStakeAccount : Nat → Pubkey

/-- The accounts `withdrawStake` takes stake from. -/
def withdrawAccounts (cluster : Cluster) (compared : Comparisons) (stakePool : StakePool)
    (validatorListData : List UInt8) (stakePoolAddress : Pubkey) (request : WithdrawStakeRequest) :
    Option (List WithdrawAccount) :=
  if request.useReserve then
    some [⟨stakePool.reserveStake, none, request.poolAmount⟩]
  else match request.receiverVoter with
    | some voteAccount => do
      let validatorList ← ValidatorList.decode validatorListData
      -- The keys are compared as objects, so a given vote account never matches.
      guard request.voteAccountAddress.isNone
      guard (validatorList.find voteAccount).isSome
      let account ← validatorSource rt stakePoolProgramId cluster stakePool stakePoolAddress voteAccount
        request.poolAmount false
      return [account]
    | none =>
      match request.voteAccountAddress with
      | some voteAccount => do
        let account ← validatorSource rt stakePoolProgramId cluster stakePool stakePoolAddress voteAccount
          request.poolAmount true
        return [account]
      | none => prepareWithdrawAccounts rt stakePoolProgramId cluster compared stakePool
          validatorListData stakePoolAddress request.poolAmount request.validatorComparator
          (request.poolTokenAccount = stakePool.managerFeeAccount)

inductive Step where
  | approve (account delegate owner : Pubkey) (amount : Nat)
  | createAccount (fromPubkey newAccountPubkey : Pubkey) (lamports : Nat)
  | withdrawStake (params : WithdrawStakeParams)
  | merge (stakePubkey sourceStakePubKey authorizedPubkey : Pubkey)

/-- What the loop has collected. -/
structure Progress where
  instructions : List Step
  signers : List Pubkey
  totalRentFreeBalances : Nat

structure WithdrawStakeResult where
  instructions : List Step
  signers : List Pubkey
  stakeReceiver : Option Pubkey
  totalRentFreeBalances : Nat

/-- `maxWithdrawAccounts`. -/
def maxWithdrawAccounts : Nat := 5

/-- `newStakeAccount`, where the stake does not go to the receiver itself. -/
def Progress.receive (cluster : Cluster) (request : WithdrawStakeRequest) (i : Nat) (progress : Progress) :
    Pubkey × Progress :=
  match request.stakeReceiver, request.receiverVoter with
  | some stakeReceiver, none => (stakeReceiver, progress)
  | _, _ => (request.newStakeAccount i, {
      instructions := progress.instructions ++
        [.createAccount request.tokenOwner (request.newStakeAccount i) cluster.rentExemption]
      signers := progress.signers ++ [request.newStakeAccount i]
      totalRentFreeBalances := progress.totalRentFreeBalances + cluster.rentExemption })

def withdrawStep (stakePool : StakePool) (stakePoolAddress : Pubkey) (request : WithdrawStakeRequest)
    (withdrawAccount : WithdrawAccount) (stakeToReceive : Pubkey) : Step :=
  .withdrawStake {
    programId := stakePoolProgramId
    stakePool := stakePoolAddress
    validatorList := stakePool.validatorList
    validatorStake := withdrawAccount.stakeAddress
    destinationStake := stakeToReceive
    destinationStakeAuthority := request.tokenOwner
    sourceTransferAuthority := request.userTransferAuthority
    sourcePoolAccount := request.poolTokenAccount
    managerFeeAccount := stakePool.managerFeeAccount
    poolMint := stakePool.poolMint
    poolTokens := withdrawAccount.poolAmount.toNat
    withdrawAuthority := findWithdrawAuthorityProgramAddress rt stakePoolProgramId stakePoolAddress }

/-- Withdraw from the accounts in turn, until the counter is beyond the maximum. -/
def withdrawEach (cluster : Cluster) (stakePool : StakePool) (stakePoolAddress : Pubkey)
    (request : WithdrawStakeRequest) : List WithdrawAccount → (i : Nat) → Progress → Option Progress
  | [], _, progress => some progress
  | withdrawAccount :: withdrawAccounts, i, progress =>
    if i > maxWithdrawAccounts then some progress
    else do
      -- The lamports are worked out for a message only.
      let _ ← calcLamportsWithdrawAmount stakePool withdrawAccount.poolAmount
      let (stakeToReceive, progress) := progress.receive cluster request i
      withdrawEach cluster stakePool stakePoolAddress request withdrawAccounts (i + 1) { progress with
        instructions := progress.instructions ++ [withdrawStep rt stakePoolProgramId stakePool
          stakePoolAddress request withdrawAccount stakeToReceive] }

/-- The merges into a delegated receiver.  `concat` makes a new list, which nobody keeps. -/
def mergeEach (stakeReceiver tokenOwner : Pubkey) (signers : List Pubkey) (instructions : List Step) :
    List Step :=
  signers.foldl (fun instructions newStakeKeypair =>
    let _merged := instructions ++ [.merge stakeReceiver newStakeKeypair tokenOwner]
    instructions) instructions

/-- `withdrawStake`; `none` where it throws. -/
def withdrawStakeResult (cluster : Cluster) (compared : Comparisons) (stakePool : StakePool)
    (validatorListData : List UInt8) (stakePoolAddress : Pubkey) (request : WithdrawStakeRequest) :
    Option WithdrawStakeResult := do
  guard (IsSafe request.poolAmount)
  guard (request.poolAmount ≤ request.tokenAmount)
  let accounts ← withdrawAccounts rt stakePoolProgramId cluster compared stakePool validatorListData
    stakePoolAddress request
  let progress ← withdrawEach rt stakePoolProgramId cluster stakePool stakePoolAddress request accounts 0 {
    instructions := [.approve request.poolTokenAccount request.userTransferAuthority request.tokenOwner
      request.poolAmount]
    signers := [request.userTransferAuthority]
    totalRentFreeBalances := 0 }
  let instructions := match request.stakeReceiver, request.receiverVoter with
    | some stakeReceiver, some _ =>
      mergeEach stakeReceiver request.tokenOwner progress.signers progress.instructions
    | _, _ => progress.instructions
  return {
    instructions
    signers := progress.signers
    stakeReceiver := request.stakeReceiver
    totalRentFreeBalances := progress.totalRentFreeBalances }

/-- The instruction for the pool program in a step. -/
def Step.instruction : Step → Option TransactionInstruction
  | .withdrawStake params => some (JsLegacy.withdrawStake rt ids params)
  | _ => none

/-- The withdrawals among what `withdrawStake` returns. -/
def withdrawStakeAction (cluster : Cluster) (compared : Comparisons) (stakePool : StakePool)
    (validatorListData : List UInt8) (stakePoolAddress : Pubkey) (request : WithdrawStakeRequest) :
    Option (List TransactionInstruction) := do
  let result ← withdrawStakeResult rt stakePoolProgramId cluster compared stakePool validatorListData
    stakePoolAddress request
  return result.instructions.filterMap (Step.instruction rt ids)

end

end StakePoolFogo.JsLegacy
