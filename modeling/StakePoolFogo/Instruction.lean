import StakePoolFogo.Processor.Manage
import StakePoolFogo.Processor.Validators

/-!
# Instructions and their encoding

`StakePoolInstruction` with its Borsh decoder: a tag byte, then the fields in order, little endian.
Bytes left over after the last field are an error.
-/

open StakePoolFogo.Outcome

namespace StakePoolFogo

inductive StakePoolInstruction where
  | initializePool (fee withdrawalFee depositFee : Fee) (referralFee : UInt8) (maxValidators : UInt32)
  | addValidatorToPool (seed : UInt32)
  | removeValidatorFromPool
  | decreaseValidatorStake (lamports transientStakeSeed : UInt64)
  | increaseValidatorStake (lamports transientStakeSeed : UInt64)
  | setPreferredValidator (validatorType : PreferredValidatorType)
      (validatorVoteAddress : Option Pubkey)
  | updateValidatorListBalance (startIndex : UInt32) (noMerge : Bool)
  | updateStakePoolBalance
  | cleanupRemovedValidatorEntries
  | depositStake
  | withdrawStake (amount : UInt64)
  | setManager
  | setFee (fee : FeeType)
  | setStaker
  | depositSol (lamports : UInt64)
  | setFundingAuthority (fundingType : FundingType)
  | withdrawSol (poolTokens : UInt64)
  | createTokenMetadata (name symbol uri : List UInt8)
  | updateTokenMetadata (name symbol uri : List UInt8)
  | increaseAdditionalValidatorStake (lamports transientStakeSeed ephemeralStakeSeed : UInt64)
  | decreaseAdditionalValidatorStake (lamports transientStakeSeed ephemeralStakeSeed : UInt64)
  | decreaseValidatorStakeWithReserve (lamports transientStakeSeed : UInt64)
  | redelegate (lamports sourceTransientStakeSeed ephemeralStakeSeed
      destinationTransientStakeSeed : UInt64)
  | depositStakeWithSlippage (minimumPoolTokensOut : UInt64)
  | withdrawStakeWithSlippage (poolTokensIn minimumLamportsOut : UInt64)
  | depositSolWithSlippage (lamportsIn minimumPoolTokensOut : UInt64)
  | withdrawSolWithSlippage (poolTokensIn minimumLamportsOut : UInt64)
  | depositWsolWithSession (lamports : UInt64)
  | withdrawWsolWithSession (poolTokens : UInt64)
deriving DecidableEq, Repr

namespace Borsh

/-- A reader consumes a part of the input or fails. -/
abbrev Reader := StateT (List UInt8) Option

def readU8 : Reader UInt8 := fun input =>
  match input with
  | b :: rest => some (b, rest)
  | [] => none

/-- The next `n` bytes. -/
def readBytes : Nat → Reader (List UInt8)
  | 0 => pure []
  | n + 1 => do
    let b ← readU8
    let rest ← readBytes n
    return b :: rest

/-- The value of little-endian bytes. -/
def ofLeBytes : List UInt8 → Nat
  | [] => 0
  | b :: rest => b.toNat + 256 * ofLeBytes rest

def readNat (n : Nat) : Reader Nat := ofLeBytes <$> readBytes n

def readU32 : Reader UInt32 := UInt32.ofNat <$> readNat 4

def readU64 : Reader UInt64 := UInt64.ofNat <$> readNat 8

def readPubkey : Reader Pubkey := Pubkey.ofNat <$> readNat 32

/-- A byte that must be zero or one. -/
def readBool : Reader Bool := do
  match (← readU8).toNat with
  | 0 => return false
  | 1 => return true
  | _ => failure

def readOption {α : Type} (read : Reader α) : Reader (Option α) := do
  match (← readU8).toNat with
  | 0 => return none
  | 1 => some <$> read
  | _ => failure

/-- A length and that many bytes, which must be UTF-8. -/
def readString : Reader (List UInt8) := do
  let length ← readNat 4
  let bytes ← readBytes length
  if (ByteArray.mk bytes.toArray).validateUTF8 then return bytes else failure

def readFee : Reader Fee := do
  let denominator ← readU64
  let numerator ← readU64
  return { denominator, numerator }

def readFeeType : Reader FeeType := do
  match (← readU8).toNat with
  | 0 => .solReferral <$> readU8
  | 1 => .stakeReferral <$> readU8
  | 2 => .epoch <$> readFee
  | 3 => .stakeWithdrawal <$> readFee
  | 4 => .solDeposit <$> readFee
  | 5 => .stakeDeposit <$> readFee
  | 6 => .solWithdrawal <$> readFee
  | _ => failure

def readPreferredValidatorType : Reader PreferredValidatorType := do
  match (← readU8).toNat with
  | 0 => return .deposit
  | 1 => return .withdraw
  | _ => failure

def readFundingType : Reader FundingType := do
  match (← readU8).toNat with
  | 0 => return .stakeDeposit
  | 1 => return .solDeposit
  | 2 => return .solWithdraw
  | _ => failure

def readInstruction : Reader StakePoolInstruction := do
  match (← readU8).toNat with
  | 0 => return .initializePool (← readFee) (← readFee) (← readFee) (← readU8) (← readU32)
  | 1 => return .addValidatorToPool (← readU32)
  | 2 => return .removeValidatorFromPool
  | 3 => return .decreaseValidatorStake (← readU64) (← readU64)
  | 4 => return .increaseValidatorStake (← readU64) (← readU64)
  | 5 => return .setPreferredValidator (← readPreferredValidatorType) (← readOption readPubkey)
  | 6 => return .updateValidatorListBalance (← readU32) (← readBool)
  | 7 => return .updateStakePoolBalance
  | 8 => return .cleanupRemovedValidatorEntries
  | 9 => return .depositStake
  | 10 => return .withdrawStake (← readU64)
  | 11 => return .setManager
  | 12 => return .setFee (← readFeeType)
  | 13 => return .setStaker
  | 14 => return .depositSol (← readU64)
  | 15 => return .setFundingAuthority (← readFundingType)
  | 16 => return .withdrawSol (← readU64)
  | 17 => return .createTokenMetadata (← readString) (← readString) (← readString)
  | 18 => return .updateTokenMetadata (← readString) (← readString) (← readString)
  | 19 => return .increaseAdditionalValidatorStake (← readU64) (← readU64) (← readU64)
  | 20 => return .decreaseAdditionalValidatorStake (← readU64) (← readU64) (← readU64)
  | 21 => return .decreaseValidatorStakeWithReserve (← readU64) (← readU64)
  | 22 => return .redelegate (← readU64) (← readU64) (← readU64) (← readU64)
  | 23 => return .depositStakeWithSlippage (← readU64)
  | 24 => return .withdrawStakeWithSlippage (← readU64) (← readU64)
  | 25 => return .depositSolWithSlippage (← readU64) (← readU64)
  | 26 => return .withdrawSolWithSlippage (← readU64) (← readU64)
  | 27 => return .depositWsolWithSession (← readU64)
  | 28 => return .withdrawWsolWithSession (← readU64)
  | _ => failure

end Borsh

/-- `StakePoolInstruction::try_from_slice`. -/
def StakePoolInstruction.tryFromSlice (input : List UInt8) :
    Except ProgramError StakePoolInstruction :=
  match Borsh.readInstruction input with
  | some (instruction, []) => .ok instruction
  | _ => .error .borshIoError

end StakePoolFogo
