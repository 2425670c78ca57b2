import StakePoolFogo.Instruction
import StakePoolFogo.Processor.Initialize
import StakePoolFogo.Processor.Rebalance
import StakePoolFogo.Processor.Session
import StakePoolFogo.Processor.Update

/-! The entry point: decode the instruction and run its handler. -/

namespace StakePoolFogo

variable (rt : Runtime) (sv : Sysvars)

/-- Run one decoded instruction. -/
def processInstruction (accounts : List AccountMeta) (instruction : StakePoolInstruction)
    (w : Ledger) : Except ProgramError Ledger :=
  match instruction with
  | .initializePool fee withdrawalFee depositFee referralFee maxValidators =>
    processInitialize rt sv accounts fee withdrawalFee depositFee referralFee maxValidators w
  | .addValidatorToPool seed => processAddValidatorToPool rt sv accounts seed w
  | .removeValidatorFromPool => processRemoveValidatorFromPool rt sv accounts w
  | .decreaseValidatorStake lamports seed =>
    processDecreaseValidatorStake rt sv accounts lamports.toNat seed none false w
  | .decreaseValidatorStakeWithReserve lamports seed =>
    processDecreaseValidatorStake rt sv accounts lamports.toNat seed none true w
  | .decreaseAdditionalValidatorStake lamports seed ephemeralSeed =>
    processDecreaseValidatorStake rt sv accounts lamports.toNat seed (some ephemeralSeed) true w
  | .increaseValidatorStake lamports seed =>
    processIncreaseValidatorStake rt sv accounts lamports.toNat seed none w
  | .increaseAdditionalValidatorStake lamports seed ephemeralSeed =>
    processIncreaseValidatorStake rt sv accounts lamports.toNat seed (some ephemeralSeed) w
  | .setPreferredValidator validatorType vote =>
    processSetPreferredValidator rt accounts validatorType vote w
  | .updateValidatorListBalance startIndex noMerge =>
    processUpdateValidatorListBalance rt sv accounts startIndex noMerge w
  | .updateStakePoolBalance => processUpdateStakePoolBalance rt sv accounts w
  | .cleanupRemovedValidatorEntries => processCleanupRemovedValidatorEntries rt accounts w
  | .depositStake => processDepositStake rt sv accounts none w
  | .withdrawStake amount => processWithdrawStake rt sv accounts amount.toNat none w
  | .setFee fee => processSetFee rt sv accounts fee w
  | .setManager => processSetManager rt accounts w
  | .setStaker => processSetStaker rt accounts w
  | .setFundingAuthority fundingType => processSetFundingAuthority rt accounts fundingType w
  | .depositSol lamports => processDepositSol rt sv accounts lamports.toNat none false w
  | .depositWsolWithSession lamports =>
    processDepositWsolWithSession rt sv accounts lamports.toNat w
  | .withdrawSol poolTokens => processWithdrawSol rt sv accounts poolTokens.toNat none false w
  | .createTokenMetadata name symbol uri =>
    processCreatePoolTokenMetadata rt accounts name symbol uri w
  | .updateTokenMetadata name symbol uri =>
    processUpdatePoolTokenMetadata rt accounts name symbol uri w
  | .redelegate _ _ _ _ => .error .invalidInstructionData
  | .depositStakeWithSlippage minimumPoolTokensOut =>
    processDepositStake rt sv accounts (some minimumPoolTokensOut.toNat) w
  | .withdrawStakeWithSlippage poolTokensIn minimumLamportsOut =>
    processWithdrawStake rt sv accounts poolTokensIn.toNat (some minimumLamportsOut.toNat) w
  | .depositSolWithSlippage lamportsIn minimumPoolTokensOut =>
    processDepositSol rt sv accounts lamportsIn.toNat (some minimumPoolTokensOut.toNat) false w
  | .withdrawSolWithSlippage poolTokensIn minimumLamportsOut =>
    processWithdrawSol rt sv accounts poolTokensIn.toNat (some minimumLamportsOut.toNat) false w
  | .withdrawWsolWithSession poolTokensIn =>
    processWithdrawWsolWithSession rt sv accounts poolTokensIn.toNat w

/-- `Processor::process`. -/
def process (accounts : List AccountMeta) (input : List UInt8) (w : Ledger) :
    Except ProgramError Ledger := do
  let instruction ← StakePoolInstruction.tryFromSlice input
  processInstruction rt sv accounts instruction w

/-- What a successful instruction did, by handler. -/
inductive Handled (accounts : List AccountMeta) (w w' : Ledger) : Prop where
  | initializePool {fee withdrawalFee depositFee : Fee} {referralFee : UInt8}
      {maxValidators : UInt32} (run : InitializeRun rt sv accounts fee withdrawalFee depositFee
        referralFee maxValidators w w')
  | addValidator {seed : UInt32} (run : AddValidatorRun rt sv accounts seed w w')
  | removeValidator (run : RemoveValidatorRun rt sv accounts w w')
  | decrease {lamports : Nat} {seed : UInt64} {ephemeralSeed : Option UInt64} {fund : Bool}
      (run : DecreaseRun rt sv accounts lamports seed ephemeralSeed fund w w')
  | increase {lamports : Nat} {seed : UInt64} {ephemeralSeed : Option UInt64}
      (run : IncreaseRun rt sv accounts lamports seed ephemeralSeed w w')
  | setPreferred {validatorType : PreferredValidatorType} {vote : Option Pubkey}
      (run : SetPreferredRun rt accounts validatorType vote w w')
  | updateList {startIndex : UInt32} {noMerge : Bool}
      (run : UpdateListRun rt sv accounts startIndex noMerge w w')
  | updatePool (run : UpdatePoolRun rt sv accounts w w')
  | cleanup (run : CleanupRun rt accounts w w')
  | depositStake {minimum : Option Nat} (run : DepositStakeRun rt sv accounts minimum w w')
  | depositSol {lamports : Nat} {minimum : Option Nat}
      (run : DepositSolRun rt sv accounts lamports minimum false w w')
  | depositWsol {lamports : Nat} (run : DepositWsolRun rt sv accounts lamports w w')
  | withdrawStake {poolTokens : Nat} {minimum : Option Nat}
      (run : WithdrawStakeRun rt sv accounts poolTokens minimum w w')
  | withdrawSol {poolTokens : Nat} {minimum : Option Nat}
      (run : WithdrawSolRun rt sv accounts poolTokens minimum false w w')
  | withdrawWsol {poolTokens : Nat} (run : WithdrawWsolRun rt sv accounts poolTokens w w')
  | setManager (run : SetManagerRun rt accounts w w')
  | setFee {fee : FeeType} (run : SetFeeRun rt accounts fee w w')
  | setStaker (run : SetStakerRun rt accounts w w')
  | setFunding {fundingType : FundingType} (run : SetFundingRun rt accounts fundingType w w')
  | createMetadata {name symbol uri : List UInt8}
      (run : processCreatePoolTokenMetadata rt accounts name symbol uri w = .ok w')
  | updateMetadata {name symbol uri : List UInt8}
      (run : processUpdatePoolTokenMetadata rt accounts name symbol uri w = .ok w')

variable {rt sv}

theorem processInstruction_handled {accounts : List AccountMeta} {i : StakePoolInstruction}
    {w w' : Ledger} (h : processInstruction rt sv accounts i w = .ok w') :
    Handled rt sv accounts w w' := by
  cases i with
  | initializePool => exact (processInitialize_run rt sv h).elim .initializePool
  | addValidatorToPool => exact (processAddValidatorToPool_run rt sv h).elim .addValidator
  | removeValidatorFromPool => exact (processRemoveValidatorFromPool_run rt sv h).elim .removeValidator
  | decreaseValidatorStake => exact (processDecreaseValidatorStake_run rt sv h).elim .decrease
  | decreaseValidatorStakeWithReserve =>
    exact (processDecreaseValidatorStake_run rt sv h).elim .decrease
  | decreaseAdditionalValidatorStake =>
    exact (processDecreaseValidatorStake_run rt sv h).elim .decrease
  | increaseValidatorStake => exact (processIncreaseValidatorStake_run rt sv h).elim .increase
  | increaseAdditionalValidatorStake =>
    exact (processIncreaseValidatorStake_run rt sv h).elim .increase
  | setPreferredValidator => exact (processSetPreferredValidator_run rt h).elim .setPreferred
  | updateValidatorListBalance =>
    exact ((processUpdateValidatorListBalance_run rt sv).mp h).elim .updateList
  | updateStakePoolBalance => exact ((processUpdateStakePoolBalance_run rt sv).mp h).elim .updatePool
  | cleanupRemovedValidatorEntries =>
    exact (processCleanupRemovedValidatorEntries_run rt h).elim .cleanup
  | depositStake => exact (processDepositStake_run rt sv h).elim .depositStake
  | depositStakeWithSlippage => exact (processDepositStake_run rt sv h).elim .depositStake
  | depositSol => exact (processDepositSol_run rt sv h).elim .depositSol
  | depositSolWithSlippage => exact (processDepositSol_run rt sv h).elim .depositSol
  | depositWsolWithSession => exact (processDepositWsolWithSession_run rt sv h).elim .depositWsol
  | withdrawStake => exact (processWithdrawStake_run rt sv h).elim .withdrawStake
  | withdrawStakeWithSlippage => exact (processWithdrawStake_run rt sv h).elim .withdrawStake
  | withdrawSol => exact (processWithdrawSol_run rt sv h).elim .withdrawSol
  | withdrawSolWithSlippage => exact (processWithdrawSol_run rt sv h).elim .withdrawSol
  | withdrawWsolWithSession => exact (processWithdrawWsolWithSession_run rt sv h).elim .withdrawWsol
  | setManager => exact (processSetManager_run rt h).elim .setManager
  | setFee => exact (processSetFee_run rt sv h).elim .setFee
  | setStaker => exact (processSetStaker_run rt h).elim .setStaker
  | setFundingAuthority => exact (processSetFundingAuthority_run rt h).elim .setFunding
  | createTokenMetadata => exact .createMetadata h
  | updateTokenMetadata => exact .updateMetadata h
  | redelegate => cases h

theorem process_handled {accounts : List AccountMeta} {input : List UInt8} {w w' : Ledger}
    (h : process rt sv accounts input w = .ok w') : Handled rt sv accounts w w' := by
  simp only [process, Outcome.bind_eq_ok] at h
  obtain ⟨i, -, h⟩ := h
  exact processInstruction_handled h

end StakePoolFogo
