import StakePoolFogo.Processor.Withdraw

/-!
# Stake withdrawals from the command line

`clients/cli/src/main.rs`: which accounts `command_withdraw_stake` takes stake from.  What it asks the
cluster is a parameter; what it prints is left out.
-/

open StakePoolFogo.Checked StakePoolFogo.Outcome

namespace StakePoolFogo.Cli

inductive CliError where
  /-- An `unwrap` of `None` or a division by zero. -/
  | panicked
  /-- A plain operation beyond its type: a panic or a wrong number, depending on the build. -/
  | overflowed
  | accountNotFound (address : Pubkey)
  | voteAccountNotFound (vote : Pubkey)
  /-- "Not enough lamports available for withdrawal from ..., ... asked, ... available". -/
  | notEnoughLamports (stakeAddress : Pubkey) (asked available : Nat)
  /-- "No stake accounts found in this pool with enough balance to withdraw ... pool tokens." -/
  | noStakeAccounts (poolAmount : Nat)
deriving DecidableEq, Repr

structure WithdrawAccount where
  stakeAddress : Pubkey
  voteAddress : Option Pubkey
  poolAmount : Nat
deriving DecidableEq, Repr

/-- The answers of the cluster. -/
structure Cluster where
  stakeMinimumDelegation : Nat
  /-- `get_minimum_balance_for_rent_exemption` of a stake account. -/
  rentExemption : Nat
  lamports : Pubkey → Option Nat

/-- An account that can be withdrawn from, with its lamports and its vote account. -/
structure Source where
  stakeAddress : Pubkey
  lamports : Nat
  voteAddress : Option Pubkey
deriving DecidableEq, Repr

variable (rt : Runtime) (cluster : Cluster)

/-! ## One validator -/

/-- The branch for a given vote account. -/
def validatorSource (stakePool : StakePool) (stakePoolAddress : Pubkey) (validatorList : ValidatorList)
    (voteAccount : Pubkey) (poolAmount : Nat) : Except CliError (List WithdrawAccount) := do
  let stakePoolMinimumDelegation := minimumDelegation cluster.stakeMinimumDelegation
  let validatorStakeInfo ← okOr (validatorList.find voteAccount) (.voteAccountNotFound voteAccount)
  let stakeAccountAddress :=
    (findStakeProgramAddress rt voteAccount stakePoolAddress validatorStakeInfo.validatorSeedSuffix).1
  let lamports ← okOr (cluster.lamports stakeAccountAddress) (.accountNotFound stakeAccountAddress)
  let availableForWithdrawal ← okOr (stakePool.calcLamportsWithdrawAmount
    (lamports - stakePoolMinimumDelegation - cluster.rentExemption)) .panicked
  failIf (availableForWithdrawal < poolAmount)
    (.notEnoughLamports stakeAccountAddress poolAmount availableForWithdrawal)
  return [⟨stakeAccountAddress, some voteAccount, poolAmount⟩]

/-! ## All of them -/

/-- `sorted_accounts`: the preferred validator first, then from the largest balance down. -/
def sortedAccounts (validatorList : ValidatorList) (stakePool : StakePool)
    (getInfo : ValidatorStakeInfo → Source) : List Source :=
  (validatorList.validators.map getInfo).mergeSort fun left right =>
    if left.voteAddress = stakePool.preferredWithdrawValidatorVoteAddress then true
    else if right.voteAddress = stakePool.preferredWithdrawValidatorVoteAddress then false
    else right.lamports ≤ left.lamports

def activeSource (stakePoolAddress : Pubkey) (validator : ValidatorStakeInfo) : Source where
  stakeAddress :=
    (findStakeProgramAddress rt validator.voteAccountAddress stakePoolAddress validator.validatorSeedSuffix).1
  lamports := validator.activeStakeLamports
  voteAddress := some validator.voteAccountAddress

def transientSource (stakePoolAddress : Pubkey) (minBalance : Nat) (validator : ValidatorStakeInfo) :
    Source where
  stakeAddress := (findTransientStakeProgramAddress rt validator.voteAccountAddress stakePoolAddress
    validator.transientSeedSuffix).1
  lamports := validator.transientStakeLamports - minBalance
  voteAddress := some validator.voteAccountAddress

/-- The pool tokens that `lamports` are worth, with the fee on top. -/
def availableForWithdrawal (stakePool : StakePool) (inverseFee : Nat) (skipFee : Bool) (lamports : Nat) :
    Except CliError Nat := do
  let availableWithoutFee ← okOr (stakePool.calcPoolTokensForDeposit lamports) .panicked
  if skipFee then return availableWithoutFee
  else do
    let product ← okOr (checkedMul 64 availableWithoutFee stakePool.stakeWithdrawalFee.denominator.toNat)
      .overflowed
    okOr (checkedDiv product inverseFee) .panicked

/-- Take pool tokens from the accounts in turn until nothing remains. -/
def takeFrom (stakePool : StakePool) (inverseFee minBalance : Nat) (skipFee : Bool) :
    List Source → (remainingAmount : Nat) → Except CliError (List WithdrawAccount × Nat)
  | [], remainingAmount => .ok ([], remainingAmount)
  | source :: sources, remainingAmount =>
    if source.lamports ≤ minBalance then
      takeFrom stakePool inverseFee minBalance skipFee sources remainingAmount
    else do
      let available ← availableForWithdrawal stakePool inverseFee skipFee source.lamports
      let poolAmount := min available remainingAmount
      let account : WithdrawAccount := ⟨source.stakeAddress, source.voteAddress, poolAmount⟩
      if remainingAmount - poolAmount = 0 then return ([account], 0)
      else do
        let (accounts, remaining) ←
          takeFrom stakePool inverseFee minBalance skipFee sources (remainingAmount - poolAmount)
        return (account :: accounts, remaining)

def prepareWithdrawAccounts (stakePool : StakePool) (validatorList : ValidatorList) (poolAmount : Nat)
    (stakePoolAddress : Pubkey) (skipFee : Bool) : Except CliError (List WithdrawAccount) := do
  let stakePoolMinimumDelegation := minimumDelegation cluster.stakeMinimumDelegation
  let minBalance := saturatingAdd 64 cluster.rentExemption stakePoolMinimumDelegation
  let accounts := sortedAccounts validatorList stakePool (activeSource rt stakePoolAddress) ++
    sortedAccounts validatorList stakePool (transientSource rt stakePoolAddress minBalance)
  let reserve ← okOr (cluster.lamports stakePool.reserveStake) (.accountNotFound stakePool.reserveStake)
  let spare ← okOr (checkedSub reserve (cluster.rentExemption + minimumReserve)) .overflowed
  let accounts := accounts ++ [⟨stakePool.reserveStake, spare, none⟩]
  let fee := stakePool.stakeWithdrawalFee
  let inverseFee ← okOr (checkedSub fee.denominator.toNat fee.numerator.toNat) .overflowed
  let (withdrawFrom, remainingAmount) ←
    takeFrom stakePool inverseFee minBalance skipFee accounts poolAmount
  failIf (remainingAmount > 0) (.noStakeAccounts poolAmount)
  return withdrawFrom

end StakePoolFogo.Cli
