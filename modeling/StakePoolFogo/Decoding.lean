import StakePoolFogo.Encoding

/-!
# Reading the accounts

The Borsh decoders that the program reads its accounts with, and its writes over what an account holds.
-/

open StakePoolFogo.Codec StakePoolFogo.Outcome StakePoolFogo.Buffer

namespace StakePoolFogo

namespace Borsh

/-- Two's complement. -/
def readI64 : Reader Int := do
  let bits ← readNat 8
  return if bits < 2 ^ 63 then bits else bits - 2 ^ 64

def readAccountType : Reader AccountType := do
  match (← readU8).toNat with
  | 0 => return .uninitialized
  | 1 => return .stakePool
  | 2 => return .validatorList
  | _ => failure

def readLockup : Reader Lockup := do
  let unixTimestamp ← readI64
  let epoch ← readNat 8
  let custodian ← readPubkey
  return { unixTimestamp, epoch, custodian }

def readFutureEpoch {α : Type} (read : Reader α) : Reader (FutureEpoch α) := do
  match (← readU8).toNat with
  | 0 => return .none
  | 1 => .one <$> read
  | 2 => .two <$> read
  | _ => failure

def readStakePool : Reader StakePool := do
  let accountType ← readAccountType
  let manager ← readPubkey
  let staker ← readPubkey
  let stakeDepositAuthority ← readPubkey
  let stakeWithdrawBumpSeed ← readU8
  let validatorList ← readPubkey
  let reserveStake ← readPubkey
  let poolMint ← readPubkey
  let managerFeeAccount ← readPubkey
  let tokenProgramId ← readPubkey
  let totalLamports ← readNat 8
  let poolTokenSupply ← readNat 8
  let lastUpdateEpoch ← readNat 8
  let lockup ← readLockup
  let epochFee ← readFee
  let nextEpochFee ← readFutureEpoch readFee
  let preferredDepositValidatorVoteAddress ← readOption readPubkey
  let preferredWithdrawValidatorVoteAddress ← readOption readPubkey
  let stakeDepositFee ← readFee
  let stakeWithdrawalFee ← readFee
  let nextStakeWithdrawalFee ← readFutureEpoch readFee
  let stakeReferralFee ← readU8
  let solDepositAuthority ← readOption readPubkey
  let solDepositFee ← readFee
  let solReferralFee ← readU8
  let solWithdrawAuthority ← readOption readPubkey
  let solWithdrawalFee ← readFee
  let nextSolWithdrawalFee ← readFutureEpoch readFee
  let lastEpochPoolTokenSupply ← readNat 8
  let lastEpochTotalLamports ← readNat 8
  return {
    accountType, manager, staker, stakeDepositAuthority, stakeWithdrawBumpSeed, validatorList,
    reserveStake, poolMint, managerFeeAccount, tokenProgramId, totalLamports, poolTokenSupply,
    lastUpdateEpoch, lockup, epochFee, nextEpochFee, preferredDepositValidatorVoteAddress,
    preferredWithdrawValidatorVoteAddress, stakeDepositFee, stakeWithdrawalFee,
    nextStakeWithdrawalFee, stakeReferralFee, solDepositAuthority, solDepositFee, solReferralFee,
    solWithdrawAuthority, solWithdrawalFee, nextSolWithdrawalFee, lastEpochPoolTokenSupply,
    lastEpochTotalLamports }

def readValidatorStakeInfo : Reader ValidatorStakeInfo := do
  let activeStakeLamports ← readNat 8
  let transientStakeLamports ← readNat 8
  let lastUpdateEpoch ← readNat 8
  let transientSeedSuffix ← readU64
  let unused ← readU32
  let validatorSeedSuffix ← readU32
  let status ← readU8
  let voteAccountAddress ← readPubkey
  return {
    activeStakeLamports, transientStakeLamports, lastUpdateEpoch, transientSeedSuffix, unused,
    validatorSeedSuffix, status := ⟨status⟩, voteAccountAddress }

def readValidatorList : Reader ValidatorList := do
  let accountType ← readAccountType
  let maxValidators ← readU32
  let length ← readNat 4
  let validators ← readMany readValidatorStakeInfo length
  return { header := { accountType, maxValidators }, validators }

/-- `try_from_slice_unchecked`: bytes left over are ignored. -/
def tryFromSliceUnchecked {α : Type} (read : Reader α) (data : List UInt8) : Except ProgramError α :=
  match read data with
  | some (value, _) => .ok value
  | none => .error .borshIoError

/-- `borsh::to_writer` on the data of an account, which it does not make longer. -/
def toWriter (data bytes : List UInt8) : Except ProgramError (List UInt8) := do
  failIf (data.length < bytes.length) .borshIoError
  return patch data 0 bytes

/-! ## What is written is read -/

theorem reads_accountType (accountType : AccountType) :
    Reads readAccountType [accountType.toByte] accountType := by
  cases accountType <;> exact fun _ => rfl

theorem reads_pubkey (k : Pubkey) : Reads readPubkey k.toBytes k := by
  have hread := ((reads_bytes k.toBytes k.toBytes_length).map ofLeBytes).map Pubkey.ofNat
  rw [k.ofLeBytes_toBytes] at hread
  exact hread

theorem reads_option {α : Type} {read : Reader α} {encode : α → List UInt8} {o : Option α}
    (h : ∀ a, o = some a → Reads read (encode a) a) :
    Reads (readOption read) (optionToBytes encode o) o := by
  cases o with
  | none => exact fun _ => rfl
  | some a => exact (reads_u8 1).bind ((h a rfl).map some)

theorem reads_futureEpoch {α : Type} {read : Reader α} {encode : α → List UInt8} {f : FutureEpoch α}
    (h : ∀ a, Reads read (encode a) a) : Reads (readFutureEpoch read) (f.toBytes encode) f := by
  cases f with
  | none => exact fun _ => rfl
  | one a => exact (reads_u8 1).bind ((h a).map FutureEpoch.one)
  | two a => exact (reads_u8 2).bind ((h a).map FutureEpoch.two)

theorem reads_i64 {v : Int} (hge : -2 ^ 63 ≤ v) (hlt : v < 2 ^ 63) :
    Reads readI64 (leBytesInt 8 v) v := by
  have hbits : (v % 256 ^ 8).toNat < 256 ^ 8 := by omega
  have hread := (reads_nat hbits).last fun bits : Nat =>
    if bits < 2 ^ 63 then (bits : Int) else bits - 2 ^ 64
  have hvalue : (if (v % 256 ^ 8).toNat < 2 ^ 63 then ((v % 256 ^ 8).toNat : Int)
      else (v % 256 ^ 8).toNat - 2 ^ 64) = v := by
    split <;> omega
  rwa [hvalue] at hread

theorem reads_lockup {lockup : Lockup} (hge : -2 ^ 63 ≤ lockup.unixTimestamp)
    (hlt : lockup.unixTimestamp < 2 ^ 63) (hepoch : lockup.epoch < 256 ^ 8) :
    Reads readLockup lockup.toBytes lockup :=
  .field (reads_i64 hge hlt) <| .field (reads_nat hepoch) <| .field (reads_pubkey _) <| .pure _

theorem reads_stakePool {p : StakePool} (h : p.Fits) : Reads readStakePool p.toBytes p :=
  .field (reads_accountType _) <| .field (reads_pubkey _) <| .field (reads_pubkey _) <|
  .field (reads_pubkey _) <| .field (reads_u8 _) <| .field (reads_pubkey _) <|
  .field (reads_pubkey _) <| .field (reads_pubkey _) <| .field (reads_pubkey _) <|
  .field (reads_pubkey _) <| .field (reads_nat h.totalLamports) <|
  .field (reads_nat h.poolTokenSupply) <| .field (reads_nat h.lastUpdateEpoch) <|
  .field (reads_lockup h.timestamp_ge h.timestamp_lt h.lockupEpoch) <| .field (reads_borshFee _) <|
  .field (reads_futureEpoch reads_borshFee) <| .field (reads_option fun k _ => reads_pubkey k) <|
  .field (reads_option fun k _ => reads_pubkey k) <| .field (reads_borshFee _) <|
  .field (reads_borshFee _) <| .field (reads_futureEpoch reads_borshFee) <| .field (reads_u8 _) <|
  .field (reads_option fun k _ => reads_pubkey k) <| .field (reads_borshFee _) <|
  .field (reads_u8 _) <| .field (reads_option fun k _ => reads_pubkey k) <|
  .field (reads_borshFee _) <| .field (reads_futureEpoch reads_borshFee) <|
  .field (reads_nat h.lastEpochPoolTokenSupply) <| .field (reads_nat h.lastEpochTotalLamports) <|
  .pure _

theorem reads_validatorStakeInfo {v : ValidatorStakeInfo} (h : v.Fits) :
    Reads readValidatorStakeInfo v.toBytes v := by
  rw [v.toBytes_parts]
  exact .field (reads_nat h.activeStakeLamports) <| .field (reads_nat h.transientStakeLamports) <|
    .field (reads_nat h.lastUpdateEpoch) <| .field (reads_borshU64 _) <| .field (reads_borshU32 _) <|
    .field (reads_borshU32 _) <| .field (reads_u8 _) <| .field (reads_pubkey _) <| .pure _

theorem tryFromSliceUnchecked_of_reads {α : Type} {read : Reader α} {bytes data : List UInt8} {a : α}
    (h : Reads read bytes a) (hinitial : bytes <+: data) : tryFromSliceUnchecked read data = .ok a := by
  rw [tryFromSliceUnchecked, h.of_initial hinitial]

/-- A write that fits leaves its bytes at the front and what was behind them behind them. -/
theorem toWriter_of_le {data bytes : List UInt8} (h : bytes.length ≤ data.length) :
    toWriter data bytes = .ok (bytes ++ data.drop bytes.length) := by
  rw [toWriter, failIf_neg (Nat.not_lt.mpr h), ok_bind, patch, List.take_zero, Nat.zero_add]
  rfl

end Borsh

/-! ## Rewriting the pool -/

theorem Fee.toBytes_length (fee : Fee) : fee.toBytes.length = 16 := by
  rw [toBytes, List.flatten_cons, List.flatten_cons, List.flatten_nil, List.length_append,
    List.length_append, BigVec.leBytes_length, BigVec.leBytes_length]
  rfl

theorem Lockup.toBytes_length (lockup : Lockup) : lockup.toBytes.length = 48 := by
  simp only [toBytes, leBytesInt, List.flatten_cons, List.flatten_nil, List.length_append,
    BigVec.leBytes_length, Pubkey.toBytes_length, List.length_nil]

theorem optionToBytes_length_le (o : Option Pubkey) : (optionToBytes Pubkey.toBytes o).length ≤ 33 := by
  cases o with
  | none => exact (by decide : 1 ≤ 33)
  | some k => rw [optionToBytes, List.length_cons, k.toBytes_length]

theorem FutureEpoch.toBytes_length_le (f : FutureEpoch Fee) : (f.toBytes Fee.toBytes).length ≤ 17 := by
  cases f with
  | none => exact (by decide : 1 ≤ 17)
  | one fee => rw [toBytes, List.length_cons, fee.toBytes_length]
  | two fee => rw [toBytes, List.length_cons, fee.toBytes_length]

/-- No pool takes more bytes than one whose optional fields are all set. -/
theorem StakePool.toBytes_length_le (p : StakePool) : p.toBytes.length ≤ 611 := by
  have hpreferredDeposit := optionToBytes_length_le p.preferredDepositValidatorVoteAddress
  have hpreferredWithdraw := optionToBytes_length_le p.preferredWithdrawValidatorVoteAddress
  have hsolDeposit := optionToBytes_length_le p.solDepositAuthority
  have hsolWithdraw := optionToBytes_length_le p.solWithdrawAuthority
  have hepoch := p.nextEpochFee.toBytes_length_le
  have hstake := p.nextStakeWithdrawalFee.toBytes_length_le
  have hsol := p.nextSolWithdrawalFee.toBytes_length_le
  simp only [toBytes, List.flatten_cons, List.flatten_nil, List.length_append, BigVec.leBytes_length,
    Pubkey.toBytes_length, Fee.toBytes_length, Lockup.toBytes_length, List.length_singleton,
    List.length_nil]
  linarith

/-- Writing a pool over another loses nothing: whatever is left of the longer encoding behind it, the
new pool is read back.  For no encoding is the beginning of another, so a pool is all that can be read
from data that begin with its encoding. -/
theorem pool_rewrite_lossless {old new : StakePool} {buffer : List UInt8} (hold : old.Fits)
    (hnew : new.Fits) (hroom : ∀ p : StakePool, p.Fits → p.toBytes.length ≤ buffer.length) :
    (∃ written rewritten, Borsh.toWriter buffer old.toBytes = .ok written ∧
      Borsh.toWriter written new.toBytes = .ok rewritten ∧
      rewritten.drop new.toBytes.length = written.drop new.toBytes.length ∧
      Borsh.tryFromSliceUnchecked Borsh.readStakePool rewritten = .ok new) ∧
    (∀ p q : StakePool, p.Fits → q.Fits → p.toBytes <+: q.toBytes → p = q) ∧
    ∀ (p q : StakePool) (data : List UInt8), p.Fits → p.toBytes <+: data →
      Borsh.tryFromSliceUnchecked Borsh.readStakePool data = .ok q → q = p := by
  refine ⟨?_, fun p q hp hq hinitial => ?_, fun p q data hp hinitial hread => ?_⟩
  · have hwritten := Borsh.toWriter_of_le (hroom old hold)
    have hlength : (old.toBytes ++ buffer.drop old.toBytes.length).length = buffer.length := by
      have hle := hroom old hold
      rw [List.length_append, List.length_drop]
      omega
    have hrewritten := Borsh.toWriter_of_le (hlength.symm ▸ hroom new hnew)
    refine ⟨_, _, hwritten, hrewritten, List.drop_left, ?_⟩
    exact Borsh.tryFromSliceUnchecked_of_reads (Borsh.reads_stakePool hnew) (List.prefix_append _ _)
  · exact (Borsh.reads_stakePool hp).eq_of_initial (Borsh.reads_stakePool hq) hinitial
  · rw [Borsh.tryFromSliceUnchecked_of_reads (Borsh.reads_stakePool hp) hinitial] at hread
    exact (Except.ok.inj hread).symm

/-- Clearing a preferred validator: the pool is 32 bytes shorter than what it is written over. -/
theorem pool_rewrite_lossless_cleared : ∃ written rewritten,
    Borsh.toWriter (List.replicate 611 0)
      { StakePool.zeroed with preferredDepositValidatorVoteAddress := some default }.toBytes = .ok written ∧
    Borsh.toWriter written StakePool.zeroed.toBytes = .ok rewritten ∧
    Borsh.tryFromSliceUnchecked Borsh.readStakePool rewritten = .ok StakePool.zeroed := by
  obtain ⟨⟨written, rewritten, hwritten, hrewritten, -, hread⟩, -⟩ := pool_rewrite_lossless
    (show { StakePool.zeroed with preferredDepositValidatorVoteAddress := some default }.Fits by
      constructor <;> decide)
    (show StakePool.zeroed.Fits by constructor <;> decide)
    (fun p _ => p.toBytes_length_le.trans (List.length_replicate (a := (0 : UInt8))).ge)
  exact ⟨written, rewritten, hwritten, hrewritten, hread⟩

end StakePoolFogo
