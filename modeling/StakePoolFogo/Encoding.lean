import StakePoolFogo.Lib.Codec
import StakePoolFogo.ListShape

/-!
# The bytes of the accounts

The Borsh encoding of the stake pool, and what the readers make of encoded fields.
-/

open StakePoolFogo.Codec

namespace StakePoolFogo

/-- `to_le_bytes` of a signed integer: two's complement. -/
def leBytesInt (n : Nat) (v : Int) : List UInt8 := leBytes n (v % 256 ^ n).toNat

def Fee.toBytes (fee : Fee) : List UInt8 :=
  List.flatten [leBytes 8 fee.denominator.toNat, leBytes 8 fee.numerator.toNat]

def Lockup.toBytes (lockup : Lockup) : List UInt8 :=
  List.flatten [leBytesInt 8 lockup.unixTimestamp, leBytes 8 lockup.epoch, lockup.custodian.toBytes]

def optionToBytes {α : Type} (encode : α → List UInt8) : Option α → List UInt8
  | none => [0]
  | some a => 1 :: encode a

def FutureEpoch.toBytes {α : Type} (encode : α → List UInt8) : FutureEpoch α → List UInt8
  | .none => [0]
  | .one a => 1 :: encode a
  | .two a => 2 :: encode a

/-- `borsh::to_writer` on a stake pool. -/
def StakePool.toBytes (p : StakePool) : List UInt8 := List.flatten [
  [p.accountType.toByte], p.manager.toBytes, p.staker.toBytes, p.stakeDepositAuthority.toBytes,
  [p.stakeWithdrawBumpSeed], p.validatorList.toBytes, p.reserveStake.toBytes, p.poolMint.toBytes,
  p.managerFeeAccount.toBytes, p.tokenProgramId.toBytes, leBytes 8 p.totalLamports,
  leBytes 8 p.poolTokenSupply, leBytes 8 p.lastUpdateEpoch, p.lockup.toBytes, p.epochFee.toBytes,
  p.nextEpochFee.toBytes Fee.toBytes,
  optionToBytes Pubkey.toBytes p.preferredDepositValidatorVoteAddress,
  optionToBytes Pubkey.toBytes p.preferredWithdrawValidatorVoteAddress, p.stakeDepositFee.toBytes,
  p.stakeWithdrawalFee.toBytes, p.nextStakeWithdrawalFee.toBytes Fee.toBytes, [p.stakeReferralFee],
  optionToBytes Pubkey.toBytes p.solDepositAuthority, p.solDepositFee.toBytes, [p.solReferralFee],
  optionToBytes Pubkey.toBytes p.solWithdrawAuthority, p.solWithdrawalFee.toBytes,
  p.nextSolWithdrawalFee.toBytes Fee.toBytes, leBytes 8 p.lastEpochPoolTokenSupply,
  leBytes 8 p.lastEpochTotalLamports]

/-- The widths of the source's types: `i64` for the time stamp, `u64` for the rest. -/
structure StakePool.Fits (p : StakePool) : Prop where
  totalLamports : p.totalLamports < 256 ^ 8
  poolTokenSupply : p.poolTokenSupply < 256 ^ 8
  lastUpdateEpoch : p.lastUpdateEpoch < 256 ^ 8
  timestamp_ge : -2 ^ 63 ≤ p.lockup.unixTimestamp
  timestamp_lt : p.lockup.unixTimestamp < 2 ^ 63
  lockupEpoch : p.lockup.epoch < 256 ^ 8
  lastEpochPoolTokenSupply : p.lastEpochPoolTokenSupply < 256 ^ 8
  lastEpochTotalLamports : p.lastEpochTotalLamports < 256 ^ 8

structure ValidatorStakeInfo.Fits (v : ValidatorStakeInfo) : Prop where
  activeStakeLamports : v.activeStakeLamports < 256 ^ 8
  transientStakeLamports : v.transientStakeLamports < 256 ^ 8
  lastUpdateEpoch : v.lastUpdateEpoch < 256 ^ 8

structure ValidatorList.Fits (l : ValidatorList) : Prop where
  length : l.validators.length < 256 ^ 4
  entries : ∀ v ∈ l.validators, v.Fits

/-- The parts of an entry, for decoders that go from field to field. -/
theorem ValidatorStakeInfo.toBytes_parts (v : ValidatorStakeInfo) : v.toBytes = List.flatten [
    leBytes 8 v.activeStakeLamports, leBytes 8 v.transientStakeLamports, leBytes 8 v.lastUpdateEpoch,
    leBytes 8 v.transientSeedSuffix.toNat, leBytes 4 v.unused.toNat,
    leBytes 4 v.validatorSeedSuffix.toNat, [v.status.byte], v.voteAccountAddress.toBytes] := by
  simp only [toBytes, List.flatten_cons, List.flatten_nil, List.append_nil, List.append_assoc]

theorem ValidatorList.toBytes_parts (l : ValidatorList) (rest : List UInt8) :
    l.toBytes rest = List.flatten [[l.header.accountType.toByte],
      leBytes 4 l.header.maxValidators.toNat, leBytes 4 l.validators.length,
      (l.validators.map ValidatorStakeInfo.toBytes).flatten] ++ rest := by
  simp only [toBytes, ValidatorListHeader.toBytes, BigVec.encode, BigVec.vecSizeBytes, List.length_map,
    List.flatten_cons, List.flatten_nil, List.append_nil, List.append_assoc, List.cons_append,
    List.nil_append]

/-- Two numbers side by side are one. -/
theorem leBytes_append {n a : Nat} (m b : Nat) (h : a < 256 ^ n) :
    leBytes n a ++ leBytes m b = leBytes (n + m) (a + 256 ^ n * b) := by
  induction n generalizing a with
  | zero =>
    obtain rfl : a = 0 := by omega
    rw [leBytes, List.nil_append, Nat.zero_add, Nat.zero_add, Nat.pow_zero, Nat.one_mul]
  | succ n ih =>
    have hdiv : a / 256 < 256 ^ n := Nat.div_lt_of_lt_mul (by rw [← Nat.pow_succ']; exact h)
    have hsplit : a + 256 ^ (n + 1) * b = a + 256 * (256 ^ n * b) := by
      rw [Nat.pow_succ', Nat.mul_assoc]
    rw [Nat.add_right_comm, leBytes, leBytes, List.cons_append, ih hdiv, hsplit,
      Nat.add_mul_mod_self_left, Nat.add_mul_div_left _ _ (by decide)]

/-! ## Reading fields back -/

theorem Pubkey.ofLeBytes_toBytes (k : Pubkey) : Pubkey.ofNat (Borsh.ofLeBytes k.toBytes) = k := by
  have hlt : (k.val : Nat) < 256 ^ 32 := by
    have hval := k.val.isLt
    omega
  rw [Pubkey.toBytes, BigVec.ofLeBytes_leBytes hlt, Pubkey.ofNat]
  exact congrArg Pubkey.mk (Fin.ext (Nat.mod_eq_of_lt k.val.isLt))

namespace Borsh

theorem reads_u8 (b : UInt8) : Reads readU8 [b] b := fun _ => rfl

theorem reads_bytes (bytes : List UInt8) {n : Nat} (h : bytes.length = n) :
    Reads (readBytes n) bytes bytes := by
  induction bytes generalizing n with
  | nil =>
    subst h
    exact .pure []
  | cons b bytes ih =>
    subst h
    exact (reads_u8 b).bind ((ih rfl).last (b :: ·))

theorem reads_nat {n v : Nat} (h : v < 256 ^ n) : Reads (readNat n) (leBytes n v) v := by
  have hread := (reads_bytes (leBytes n v) (BigVec.leBytes_length n v)).map ofLeBytes
  rwa [BigVec.ofLeBytes_leBytes h] at hread

theorem reads_u32 {n : Nat} (h : n < 256 ^ 4) : Reads readU32 (leBytes 4 n) (UInt32.ofNat n) :=
  (reads_nat h).map UInt32.ofNat

theorem reads_u64 {n : Nat} (h : n < 256 ^ 8) : Reads readU64 (leBytes 8 n) (UInt64.ofNat n) :=
  (reads_nat h).map UInt64.ofNat

theorem reads_borshU64 (n : UInt64) : Reads readU64 (leBytes 8 n.toNat) n := by
  have hread := reads_u64 n.toNat_lt
  rwa [UInt64.ofNat_toNat] at hread

theorem reads_borshU32 (n : UInt32) : Reads readU32 (leBytes 4 n.toNat) n := by
  have hread := reads_u32 n.toNat_lt
  rwa [UInt32.ofNat_toNat] at hread

theorem reads_borshBool (b : Bool) : Reads readBool (leBytes 1 b.toNat) b := by
  cases b <;> exact fun _ => rfl

theorem reads_borshFee (fee : Fee) : Reads readFee fee.toBytes fee :=
  .field (reads_borshU64 _) (.field (reads_borshU64 _) (.pure _))

end Borsh

/-- Bytes that are read to the end decode. -/
theorem StakePoolInstruction.tryFromSlice_of_reads {bytes : List UInt8} {i : StakePoolInstruction}
    (h : Reads Borsh.readInstruction bytes i) : tryFromSlice bytes = .ok i := by
  have hread := h []
  rw [List.append_nil] at hread
  rw [tryFromSlice, hread]

end StakePoolFogo
