import StakePoolFogo.Lib.Levels
import StakePoolFogo.Py.State

/-!
# The rebalancing bot

`bot/rebalance.py`: how the bot decides which stake to move.  What it prints on the way is left out.
-/

open StakePoolFogo.Levels

namespace StakePoolFogo.Py

/-- `MINIMUM_ACTIVE_STAKE`, that is `MINIMUM_DELEGATION`. -/
def minimumActiveStake : Int := 1000000000 * 100

/-- `MINIMUM_RESERVE_LAMPORTS`. -/
def minimumReserveLamports : Int := 0

/-- `StakeStatus.ACTIVE`. -/
def StakeStatus.activeValue : Nat := 0

/-- A stake movement: positive to increase the stake of the validator, negative to decrease it. -/
structure StakeChange where
  voteAccountAddress : Pubkey
  lamports : Int
deriving DecidableEq, Repr

inductive PyError where
  | zeroDivisionError
deriving DecidableEq, Repr

/-- `a // b`. -/
def floorDiv (a b : Int) : Except PyError Int :=
  if b = 0 then .error .zeroDivisionError else .ok (a.fdiv b)

/-! ## An even split -/

/-- The change for one validator when every validator is to have `lamportsPerValidator`. -/
def evenSplitChange (lamportsPerValidator stakeRentExemption : Int) (validator : ValidatorStakeInfo) :
    Option StakeChange :=
  if validator.transientStakeLamports ≠ 0 then none
  else if lamportsPerValidator < validator.activeStakeLamports then
    let lamportsToDecrease := validator.activeStakeLamports - lamportsPerValidator
    if lamportsToDecrease ≤ stakeRentExemption then none
    else some ⟨validator.voteAccountAddress, -lamportsToDecrease⟩
  else if validator.activeStakeLamports < lamportsPerValidator then
    let lamportsToIncrease := lamportsPerValidator - validator.activeStakeLamports
    if lamportsToIncrease < minimumActiveStake then none
    else some ⟨validator.voteAccountAddress, lamportsToIncrease⟩
  else none

def planEvenSplit (validators : List ValidatorStakeInfo) (distributableLamports stakeRentExemption : Int) :
    Except PyError (List StakeChange) := do
  let numValidators : Int := validators.length
  let lamportsPerValidator ← floorDiv distributableLamports numValidators
  let numIncreases : Int := (validators.filter fun validator =>
    validator.transientStakeLamports = 0 ∧ validator.activeStakeLamports < lamportsPerValidator).length
  let totalUsableLamports := distributableLamports - numIncreases * stakeRentExemption
  let lamportsPerValidator ← floorDiv totalUsableLamports numValidators
  return validators.filterMap (evenSplitChange lamportsPerValidator stakeRentExemption)

/-! ## Equal total stakes -/

/-- Lamports to stake to a validator to bring its total stake up to `level`. -/
def stakeFromPool (externalLamports level capLamports : Int) : Int :=
  min (max (level - externalLamports) 0) capLamports

/-- The highest level whose bill fits in the budget. -/
def computeStakeLevel (externalStakes poolStakes : List Int) (capLamports budgetLamports maxLevel : Int) :
    Int :=
  let bill (level : Int) : Int :=
    (List.zipWith (fun external pool => max (min (max (level - external) 0) capLamports - pool) 0)
      externalStakes poolStakes).sum
  lastUpTo (fun level => bill level ≤ budgetLamports) 0 (max maxLevel 0)

/-- What `plan_equalized_stake` is called with. -/
structure Equalization where
  validators : List ValidatorStakeInfo
  activatedStakes : Pubkey → Option Int
  distributableLamports : Int
  capLamports : Int
  usableReserveLamports : Int
  stakeRentExemption : Int

/-- Give up on the validators at the end until the reserve covers a rent exemption for each. -/
def dropUnfunded (usableReserveLamports stakeRentExemption : Int) (toIncrease : List ValidatorStakeInfo) :
    List ValidatorStakeInfo :=
  if toIncrease ≠ [] ∧ usableReserveLamports < toIncrease.length * stakeRentExemption then
    dropUnfunded usableReserveLamports stakeRentExemption toIncrease.dropLast
  else toIncrease
termination_by toIncrease.length
decreasing_by
  rename_i h
  have hpos := List.length_pos_of_ne_nil h.1
  rw [List.length_dropLast]
  omega

namespace Equalization

variable (e : Equalization)

def minimumValidatorLamports : Int := e.stakeRentExemption + minimumActiveStake

def canChange (validator : ValidatorStakeInfo) : Bool :=
  validator.status = StakeStatus.activeValue ∧ validator.transientStakeLamports = 0

def actionable : List ValidatorStakeInfo := e.validators.filter canChange

def skipped : List ValidatorStakeInfo := e.validators.filter fun validator => !canChange validator

def untouchableLamports : Int :=
  (e.skipped.map fun validator =>
    (validator.activeStakeLamports + validator.transientStakeLamports : Int)).sum

/-- What the validator votes with beyond the stake of the pool. -/
def externalStake (validator : ValidatorStakeInfo) : Int :=
  max ((e.activatedStakes validator.voteAccountAddress).getD 0 - validator.activeStakeLamports) 0

def poolStake (validator : ValidatorStakeInfo) : Int := validator.activeStakeLamports

/-- Only used when there is an actionable validator. -/
def ceilingLevel : Int := ((e.actionable.map e.externalStake).max?).getD 0 + e.capLamports

def remainingLamports : Int := max (e.distributableLamports - e.untouchableLamports) 0

def targetLevel : Int :=
  computeStakeLevel (e.actionable.map e.externalStake) (List.replicate e.actionable.length 0)
    e.capLamports e.remainingLamports e.ceilingLevel

def targetStake (validator : ValidatorStakeInfo) : Int :=
  stakeFromPool (e.externalStake validator) e.targetLevel e.capLamports

def decreaseChange (validator : ValidatorStakeInfo) : Option StakeChange :=
  if e.targetStake validator < validator.activeStakeLamports then
    let lamportsToDecrease :=
      validator.activeStakeLamports - max (e.targetStake validator) e.minimumValidatorLamports
    if lamportsToDecrease < minimumActiveStake then none
    else some ⟨validator.voteAccountAddress, -lamportsToDecrease⟩
  else none

/-- The validators below their target, those that are staked the least first. -/
def toIncrease : List ValidatorStakeInfo :=
  (e.actionable.filter fun validator => validator.activeStakeLamports < e.targetStake validator).mergeSort
    fun a b => e.externalStake a + poolStake a ≤ e.externalStake b + poolStake b

/-- Those of them the reserve can pay a rent exemption for. -/
def kept : List ValidatorStakeInfo :=
  dropUnfunded e.usableReserveLamports e.stakeRentExemption e.toIncrease

def increaseBudget : Int := e.usableReserveLamports - e.kept.length * e.stakeRentExemption

def reachableLevel : Int :=
  computeStakeLevel (e.kept.map e.externalStake) (e.kept.map poolStake) e.capLamports e.increaseBudget
    e.targetLevel

def increaseChange (validator : ValidatorStakeInfo) : Option StakeChange :=
  let lamportsToIncrease :=
    stakeFromPool (e.externalStake validator) e.reachableLevel e.capLamports -
      validator.activeStakeLamports
  if lamportsToIncrease ≤ 0 then none
  else if lamportsToIncrease < minimumActiveStake then none
  else some ⟨validator.voteAccountAddress, lamportsToIncrease⟩

end Equalization

def planEqualizedStake (e : Equalization) : List StakeChange :=
  if e.actionable = [] then []
  else e.actionable.filterMap e.decreaseChange ++ e.kept.filterMap e.increaseChange

end StakePoolFogo.Py
