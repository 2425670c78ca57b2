import Mathlib

/-! Errors of the program, of the runtime and of the programs it calls. -/

namespace StakePoolFogo

inductive StakePoolError where
  | alreadyInUse
  | invalidProgramAddress
  | invalidState
  | calculationFailure
  | feeTooHigh
  | wrongAccountMint
  | wrongManager
  | signatureMissing
  | invalidValidatorStakeList
  | invalidFeeAccount
  | wrongPoolMint
  | wrongStakeStake
  | userStakeNotActive
  | validatorAlreadyAdded
  | validatorNotFound
  | invalidStakeAccountAddress
  | stakeListOutOfDate
  | stakeListAndPoolOutOfDate
  | unknownValidatorStakeAccount
  | wrongMintingAuthority
  | unexpectedValidatorListAccountSize
  | wrongStaker
  | nonZeroPoolTokenSupply
  | stakeLamportsNotEqualToMinimum
  | incorrectDepositVoteAddress
  | incorrectWithdrawVoteAddress
  | invalidMintFreezeAuthority
  | feeIncreaseTooHigh
  | withdrawalTooSmall
  | depositTooSmall
  | invalidStakeDepositAuthority
  | invalidSolDepositAuthority
  | invalidPreferredValidator
  | transientAccountInUse
  | invalidSolWithdrawAuthority
  | solWithdrawalTooLarge
  | invalidMetadataAccount
  | unsupportedMintExtension
  | unsupportedFeeAccountExtension
  | exceededSlippage
  | incorrectMintDecimals
  | reserveDepleted
  | missingRequiredSysvar
  | epochRewardDistributionInProgress
  | tooManyValidatorsInPool
deriving DecidableEq, Repr

/-- `ProgramError`: the program's own errors are `Custom` codes; the rest come from the SDK, from
the runtime (`privilegeEscalation` and below) or, as `external`, from a called program. -/
inductive ProgramError where
  | custom (e : StakePoolError)
  | insufficientDelegation
  | invalidArgument
  | invalidInstructionData
  | invalidAccountData
  | accountDataTooSmall
  | insufficientFunds
  | incorrectProgramId
  | missingRequiredSignature
  | notEnoughAccountKeys
  | invalidSeeds
  | accountNotRentExempt
  | borshIoError
  | privilegeEscalation
  | accountBorrowFailed
  | missingAccount
  | programFailedToComplete
  | externalAccountModified
  | unbalancedInstruction
  | external (code : Nat)
deriving DecidableEq, Repr

end StakePoolFogo
