import StakePoolFogo.Error
import StakePoolFogo.Solana
import StakePoolFogo.Lib.Checked
import StakePoolFogo.Lib.Outcome

/-!
# State of the pool program

The structures of `state.rs` with their calculations.  Lamports, pool tokens and epochs are natural
numbers with the source's width checks; fees, seeds and status bytes keep their machine types.
-/

open StakePoolFogo.Checked StakePoolFogo.Outcome

namespace StakePoolFogo

/-! ## Constants of `lib.rs` -/

def minimumActiveStake : Nat := 1000000

def minimumReserve : Nat := 0

def maxValidatorsInPool : Nat := 20000

/-- `size_of::<StakeStateV2>()`. -/
def stakeSpace : Nat := 200

def minimumDelegation (stakeProgramMinimumDelegation : Nat) : Nat :=
  max stakeProgramMinimumDelegation minimumActiveStake

def minimumStakeLamports (info : StakeMeta) (stakeProgramMinimumDelegation : Nat) : Nat :=
  saturatingAdd 64 info.rentExemptReserve (minimumDelegation stakeProgramMinimumDelegation)

def minimumReserveLamports (info : StakeMeta) : Nat :=
  saturatingAdd 64 info.rentExemptReserve minimumReserve

/-- `?` on a `Result<_, StakePoolError>` inside a handler. -/
def raise {α : Type} (x : Except StakePoolError α) : Except ProgramError α :=
  x.mapError .custom

theorem raise_eq_ok {α : Type} {x : Except StakePoolError α} {a : α} :
    raise x = .ok a ↔ x = .ok a := by
  cases x <;> simp [raise, Except.mapError]

theorem raise_eq_error {α : Type} {x : Except StakePoolError α} {e : ProgramError} :
    raise x = .error e ↔ ∃ e', x = .error e' ∧ .custom e' = e := by
  cases x <;> simp [raise, Except.mapError]

inductive AccountType where
  | uninitialized
  | stakePool
  | validatorList
deriving DecidableEq, Repr

/-! ## Fees -/

/-- A fee rate; it counts as zero when either part is zero. -/
structure Fee where
  denominator : UInt64
  numerator : UInt64
deriving DecidableEq, Repr, Inhabited

def maxWithdrawalFeeIncrease : Fee := { numerator := 3, denominator := 2 }

def withdrawalBaselineFee : Fee := { numerator := 1, denominator := 1000 }

namespace Fee

/-- The fee on `amt`, rounded up, in `u128`. -/
def apply (fee : Fee) (amt : Nat) : Option Nat := do
  if fee.denominator = 0 then
    return 0
  let numerator ← checkedMul 128 amt fee.numerator.toNat
  let denominator := fee.denominator.toNat
  let total ← checkedAdd 128 numerator denominator
  let total ← checkedSub total 1
  checkedDiv total denominator

/-- `Option<u128>`'s derived order: an overflow is below every value. -/
def optionLt : Option Nat → Option Nat → Bool
  | none, none => false
  | none, some _ => true
  | some _, none => false
  | some a, some b => a < b

/-- The fee a withdrawal fee is measured against: the old one, or the baseline when it is zero. -/
def referenceFee (old : Fee) : Fee :=
  if old.denominator = 0 ∨ old.numerator = 0 then withdrawalBaselineFee else old

def checkWithdrawal (fee old : Fee) : Except StakePoolError Unit := do
  let reference := referenceFee old
  let lhs ← okOr ((checkedMul 128 reference.numerator.toNat fee.denominator.toNat).map
    fun x => checkedMul 128 x maxWithdrawalFeeIncrease.numerator.toNat) .calculationFailure
  let rhs ← okOr ((checkedMul 128 fee.numerator.toNat reference.denominator.toNat).map
    fun x => checkedMul 128 x maxWithdrawalFeeIncrease.denominator.toNat) .calculationFailure
  failIf (optionLt lhs rhs = true) .feeIncreaseTooHigh

end Fee

/-- A value that takes effect after two epoch boundaries. -/
inductive FutureEpoch (α : Type) where
  | none
  | one (value : α)
  | two (value : α)
deriving DecidableEq, Repr

namespace FutureEpoch

variable {α : Type}

def new (value : α) : FutureEpoch α := .two value

def updateEpoch : FutureEpoch α → FutureEpoch α
  | .none => .none
  | .one _ => .none
  | .two v => .one v

/-- The value, once it is one boundary away. -/
def get : FutureEpoch α → Option α
  | .none => Option.none
  | .two _ => Option.none
  | .one v => some v

/-- The scheduled value, whatever its remaining wait. -/
def pending : FutureEpoch α → Option α
  | .none => Option.none
  | .one v => some v
  | .two v => some v

end FutureEpoch

inductive FeeType where
  | solReferral (pct : UInt8)
  | stakeReferral (pct : UInt8)
  | epoch (fee : Fee)
  | stakeWithdrawal (fee : Fee)
  | solDeposit (fee : Fee)
  | stakeDeposit (fee : Fee)
  | solWithdrawal (fee : Fee)
deriving DecidableEq, Repr

namespace FeeType

def tooHigh : FeeType → Bool
  | .solReferral pct => pct > 100
  | .stakeReferral pct => pct > 100
  | .epoch fee => fee.numerator > fee.denominator
  | .stakeWithdrawal fee => fee.numerator > fee.denominator
  | .solWithdrawal fee => fee.numerator > fee.denominator
  | .solDeposit fee => fee.numerator > fee.denominator
  | .stakeDeposit fee => fee.numerator > fee.denominator

def checkTooHigh (fee : FeeType) : Except StakePoolError Unit :=
  failIf (fee.tooHigh = true) .feeTooHigh

def canOnlyChangeNextEpoch : FeeType → Bool
  | .stakeWithdrawal _ => true
  | .solWithdrawal _ => true
  | .epoch _ => true
  | _ => false

end FeeType

/-! ## The stake pool account -/

structure StakePool where
  accountType : AccountType
  manager : Pubkey
  staker : Pubkey
  stakeDepositAuthority : Pubkey
  stakeWithdrawBumpSeed : UInt8
  validatorList : Pubkey
  reserveStake : Pubkey
  poolMint : Pubkey
  managerFeeAccount : Pubkey
  tokenProgramId : Pubkey
  totalLamports : Nat
  poolTokenSupply : Nat
  lastUpdateEpoch : Epoch
  lockup : Lockup
  epochFee : Fee
  nextEpochFee : FutureEpoch Fee
  preferredDepositValidatorVoteAddress : Option Pubkey
  preferredWithdrawValidatorVoteAddress : Option Pubkey
  stakeDepositFee : Fee
  stakeWithdrawalFee : Fee
  nextStakeWithdrawalFee : FutureEpoch Fee
  stakeReferralFee : UInt8
  solDepositAuthority : Option Pubkey
  solDepositFee : Fee
  solReferralFee : UInt8
  solWithdrawAuthority : Option Pubkey
  solWithdrawalFee : Fee
  nextSolWithdrawalFee : FutureEpoch Fee
  lastEpochPoolTokenSupply : Nat
  lastEpochTotalLamports : Nat
deriving DecidableEq, Repr

namespace StakePool

/-- `StakePool::default`, which is also what a zeroed account decodes to. -/
def zeroed : StakePool where
  accountType := .uninitialized
  manager := default
  staker := default
  stakeDepositAuthority := default
  stakeWithdrawBumpSeed := 0
  validatorList := default
  reserveStake := default
  poolMint := default
  managerFeeAccount := default
  tokenProgramId := default
  totalLamports := 0
  poolTokenSupply := 0
  lastUpdateEpoch := 0
  lockup := default
  epochFee := default
  nextEpochFee := .none
  preferredDepositValidatorVoteAddress := none
  preferredWithdrawValidatorVoteAddress := none
  stakeDepositFee := default
  stakeWithdrawalFee := default
  nextStakeWithdrawalFee := .none
  stakeReferralFee := 0
  solDepositAuthority := none
  solDepositFee := default
  solReferralFee := 0
  solWithdrawAuthority := none
  solWithdrawalFee := default
  nextSolWithdrawalFee := .none
  lastEpochPoolTokenSupply := 0
  lastEpochTotalLamports := 0

def calcPoolTokensForDeposit (p : StakePool) (stakeLamports : Nat) : Option Nat := do
  if p.totalLamports = 0 ∨ p.poolTokenSupply = 0 then
    return stakeLamports
  let product ← checkedMul 128 stakeLamports p.poolTokenSupply
  let quotient ← checkedDiv product p.totalLamports
  fits 64 quotient

def calcLamportsWithdrawAmount (p : StakePool) (poolTokens : Nat) : Option Nat := do
  let numerator ← checkedMul 128 poolTokens p.totalLamports
  let denominator := p.poolTokenSupply
  if numerator < denominator ∨ denominator = 0 then
    return 0
  let quotient ← checkedDiv numerator denominator
  fits 64 quotient

def calcPoolTokensStakeWithdrawalFee (p : StakePool) (poolTokens : Nat) : Option Nat := do
  fits 64 (← p.stakeWithdrawalFee.apply poolTokens)

def calcPoolTokensSolWithdrawalFee (p : StakePool) (poolTokens : Nat) : Option Nat := do
  fits 64 (← p.solWithdrawalFee.apply poolTokens)

def calcPoolTokensStakeDepositFee (p : StakePool) (poolTokensMinted : Nat) : Option Nat := do
  fits 64 (← p.stakeDepositFee.apply poolTokensMinted)

def calcPoolTokensSolDepositFee (p : StakePool) (poolTokensMinted : Nat) : Option Nat := do
  fits 64 (← p.solDepositFee.apply poolTokensMinted)

/-- The referrer's percentage of a deposit fee, rounded down. -/
def referralShare (pct : UInt8) (depositFee : Nat) : Option Nat := do
  let product ← checkedMul 128 depositFee pct.toNat
  let quotient ← checkedDiv product 100
  fits 64 quotient

def calcPoolTokensStakeReferralFee (p : StakePool) (stakeDepositFee : Nat) : Option Nat :=
  referralShare p.stakeReferralFee stakeDepositFee

def calcPoolTokensSolReferralFee (p : StakePool) (solDepositFee : Nat) : Option Nat :=
  referralShare p.solReferralFee solDepositFee

def calcEpochFeeAmount (p : StakePool) (rewardLamports : Nat) : Option Nat := do
  if rewardLamports = 0 then
    return 0
  let totalLamports ← checkedAdd 128 p.totalLamports rewardLamports
  let feeLamports ← p.epochFee.apply rewardLamports
  if totalLamports = feeLamports ∨ p.poolTokenSupply = 0 then
    return rewardLamports
  let product ← checkedMul 128 p.poolTokenSupply feeLamports
  let remainder ← checkedSub totalLamports feeLamports
  let quotient ← checkedDiv product remainder
  fits 64 quotient

def getLamportsPerPoolToken (p : StakePool) : Option Nat := do
  let sum ← checkedAdd 64 p.totalLamports p.poolTokenSupply
  let sum ← checkedSub sum 1
  checkedDiv sum p.poolTokenSupply

def isValid (p : StakePool) : Prop := p.accountType = .stakePool

instance (p : StakePool) : Decidable p.isValid := inferInstanceAs (Decidable (_ = _))

def isUninitialized (p : StakePool) : Prop := p.accountType = .uninitialized

instance (p : StakePool) : Decidable p.isUninitialized := inferInstanceAs (Decidable (_ = _))

def updateFee (p : StakePool) : FeeType → Except StakePoolError StakePool
  | .solReferral pct => .ok { p with solReferralFee := pct }
  | .stakeReferral pct => .ok { p with stakeReferralFee := pct }
  | .epoch fee => .ok { p with nextEpochFee := FutureEpoch.new fee }
  | .stakeWithdrawal fee => do
    fee.checkWithdrawal p.stakeWithdrawalFee
    return { p with nextStakeWithdrawalFee := FutureEpoch.new fee }
  | .solWithdrawal fee => do
    fee.checkWithdrawal p.solWithdrawalFee
    return { p with nextSolWithdrawalFee := FutureEpoch.new fee }
  | .solDeposit fee => .ok { p with solDepositFee := fee }
  | .stakeDeposit fee => .ok { p with stakeDepositFee := fee }

end StakePool

def isExtensionSupportedForMint (t : ExtensionType) : Bool :=
  [.uninitialized, .transferFeeConfig, .confidentialTransferMint, .confidentialTransferFeeConfig,
    .defaultAccountState, .interestBearingConfig, .metadataPointer, .tokenMetadata].contains t

def isExtensionSupportedForFeeAccount (t : ExtensionType) : Bool :=
  [.uninitialized, .transferFeeAmount, .immutableOwner, .cpiGuard].contains t

/-! ## The validator list account -/

inductive StakeStatus where
  | active
  | deactivatingTransient
  | readyForRemoval
  | deactivatingValidator
  | deactivatingAll
deriving DecidableEq, Repr

/-- The raw status byte of a list entry. -/
structure PodStakeStatus where
  byte : UInt8
deriving DecidableEq, Repr

def StakeStatus.toPod : StakeStatus → PodStakeStatus
  | .active => ⟨0⟩
  | .deactivatingTransient => ⟨1⟩
  | .readyForRemoval => ⟨2⟩
  | .deactivatingValidator => ⟨3⟩
  | .deactivatingAll => ⟨4⟩

namespace PodStakeStatus

/-- `FromPrimitive::from_u8`. -/
def toStatus? (pod : PodStakeStatus) : Option StakeStatus :=
  if pod.byte = 0 then some .active
  else if pod.byte = 1 then some .deactivatingTransient
  else if pod.byte = 2 then some .readyForRemoval
  else if pod.byte = 3 then some .deactivatingValidator
  else if pod.byte = 4 then some .deactivatingAll
  else none

/-- `StakeStatus::try_from`. -/
def tryInto (pod : PodStakeStatus) : Except ProgramError StakeStatus :=
  okOr pod.toStatus? .invalidAccountData

def removeValidatorStake (pod : PodStakeStatus) : Except ProgramError PodStakeStatus := do
  let status ← pod.tryInto
  return (match status with
    | .active => StakeStatus.active
    | .deactivatingTransient => .deactivatingTransient
    | .readyForRemoval => .readyForRemoval
    | .deactivatingAll => .deactivatingTransient
    | .deactivatingValidator => .readyForRemoval).toPod

def removeTransientStake (pod : PodStakeStatus) : Except ProgramError PodStakeStatus := do
  let status ← pod.tryInto
  return (match status with
    | .active => StakeStatus.active
    | .deactivatingValidator => .deactivatingValidator
    | .readyForRemoval => .readyForRemoval
    | .deactivatingAll => .deactivatingValidator
    | .deactivatingTransient => .readyForRemoval).toPod

theorem toStatus?_eq_some {pod : PodStakeStatus} {s : StakeStatus} :
    pod.toStatus? = some s ↔ pod = s.toPod := by
  constructor
  · obtain ⟨b⟩ := pod
    intro h
    unfold toStatus? at h
    split at h
    · simp_all [StakeStatus.toPod, eq_comm]
    split at h
    · simp_all [StakeStatus.toPod, eq_comm]
    split at h
    · simp_all [StakeStatus.toPod, eq_comm]
    split at h
    · simp_all [StakeStatus.toPod, eq_comm]
    split at h
    · simp_all [StakeStatus.toPod, eq_comm]
    · cases h
  · rintro rfl
    cases s <;> rfl

theorem tryInto_eq_ok {pod : PodStakeStatus} {s : StakeStatus} :
    pod.tryInto = .ok s ↔ pod = s.toPod := by
  rw [tryInto, okOr_eq_ok, toStatus?_eq_some]

theorem removeValidatorStake_eq_ok {pod pod' : PodStakeStatus} :
    pod.removeValidatorStake = .ok pod' ↔ ∃ s, pod = StakeStatus.toPod s ∧
      (match s with
      | .active => StakeStatus.active
      | .deactivatingTransient => .deactivatingTransient
      | .readyForRemoval => .readyForRemoval
      | .deactivatingAll => .deactivatingTransient
      | .deactivatingValidator => .readyForRemoval).toPod = pod' := by
  simp only [removeValidatorStake, bind_eq_ok, tryInto_eq_ok, pure_eq_ok]

theorem removeTransientStake_eq_ok {pod pod' : PodStakeStatus} :
    pod.removeTransientStake = .ok pod' ↔ ∃ s, pod = StakeStatus.toPod s ∧
      (match s with
      | .active => StakeStatus.active
      | .deactivatingValidator => .deactivatingValidator
      | .readyForRemoval => .readyForRemoval
      | .deactivatingAll => .deactivatingValidator
      | .deactivatingTransient => .readyForRemoval).toPod = pod' := by
  simp only [removeTransientStake, bind_eq_ok, tryInto_eq_ok, pure_eq_ok]

end PodStakeStatus

theorem StakeStatus.toPod_inj {s t : StakeStatus} : s.toPod = t.toPod ↔ s = t := by
  cases s <;> cases t <;> simp [toPod]

/-- Where a stake withdrawal takes its lamports from. -/
inductive StakeWithdrawSource where
  | active
  | transient
  | validatorRemoval
deriving DecidableEq, Repr

structure ValidatorStakeInfo where
  activeStakeLamports : Nat
  transientStakeLamports : Nat
  lastUpdateEpoch : Epoch
  transientSeedSuffix : UInt64
  unused : UInt32
  validatorSeedSuffix : UInt32
  status : PodStakeStatus
  voteAccountAddress : Pubkey
deriving DecidableEq, Repr

namespace ValidatorStakeInfo

/-- Bytes of one packed entry. -/
def packedLen : Nat := 73

def stakeLamports (v : ValidatorStakeInfo) : Except StakePoolError Nat :=
  okOr (checkedAdd 64 v.activeStakeLamports v.transientStakeLamports) .calculationFailure

def memcmpPubkey (v : ValidatorStakeInfo) (voteAddress : Pubkey) : Bool :=
  v.voteAccountAddress == voteAddress

def activeLamportsGreaterThan (v : ValidatorStakeInfo) (lamports : Nat) : Bool :=
  v.activeStakeLamports > lamports

def transientLamportsGreaterThan (v : ValidatorStakeInfo) (lamports : Nat) : Bool :=
  v.transientStakeLamports > lamports

def isRemoved (v : ValidatorStakeInfo) : Bool :=
  v.status.toStatus? == some .readyForRemoval && v.activeStakeLamports == 0 &&
    v.transientStakeLamports == 0

def isActive (v : ValidatorStakeInfo) : Bool := v.status.toStatus? == some .active

end ValidatorStakeInfo

structure ValidatorListHeader where
  accountType : AccountType
  maxValidators : UInt32
deriving DecidableEq, Repr

namespace ValidatorListHeader

def packedLen : Nat := 1 + 4

def isValid (h : ValidatorListHeader) : Prop := h.accountType = .validatorList

instance (h : ValidatorListHeader) : Decidable h.isValid := inferInstanceAs (Decidable (_ = _))

def isUninitialized (h : ValidatorListHeader) : Prop := h.accountType = .uninitialized

instance (h : ValidatorListHeader) : Decidable h.isUninitialized :=
  inferInstanceAs (Decidable (_ = _))

end ValidatorListHeader

structure ValidatorList where
  header : ValidatorListHeader
  validators : List ValidatorStakeInfo
deriving DecidableEq, Repr

namespace ValidatorList

/-- What a zeroed account decodes to. -/
def zeroed : ValidatorList := ⟨⟨.uninitialized, 0⟩, []⟩

/-- Bytes of a list of `n` entries: header, length prefix, entries. -/
def packedLen (n : Nat) : Nat :=
  ValidatorListHeader.packedLen + 4 + n * ValidatorStakeInfo.packedLen

def calculateMaxValidators (bufferLength : Nat) : Nat :=
  (bufferLength - (ValidatorListHeader.packedLen + 4)) / ValidatorStakeInfo.packedLen

def find (l : ValidatorList) (voteAddress : Pubkey) : Option ValidatorStakeInfo :=
  l.validators.find? (·.memcmpPubkey voteAddress)

/-- Write `f` over the entry that `find_mut` returns for `voteAddress`. -/
def modify (l : ValidatorList) (voteAddress : Pubkey)
    (f : ValidatorStakeInfo → ValidatorStakeInfo) : ValidatorList :=
  { l with validators := go l.validators }
where
  go : List ValidatorStakeInfo → List ValidatorStakeInfo
    | [] => []
    | v :: rest => if v.memcmpPubkey voteAddress then f v :: rest else v :: go rest

variable {l : ValidatorList} {voteAddress : Pubkey} {v : ValidatorStakeInfo}
  {f g : ValidatorStakeInfo → ValidatorStakeInfo}

@[simp] theorem modify_header : (l.modify voteAddress f).header = l.header := rfl

theorem find_mem (h : l.find voteAddress = some v) : v ∈ l.validators :=
  List.mem_of_find?_eq_some h

theorem find_vote (h : l.find voteAddress = some v) : v.voteAccountAddress = voteAddress := by
  have := List.find?_some h
  simpa [ValidatorStakeInfo.memcmpPubkey] using this

/-- Only the entry that was found matters. -/
theorem modify_congr (h : l.find voteAddress = some v) (hv : f v = g v) :
    l.modify voteAddress f = l.modify voteAddress g := by
  obtain ⟨header, vs⟩ := l
  have key : ∀ us : List ValidatorStakeInfo, us.find? (·.memcmpPubkey voteAddress) = some v →
      modify.go voteAddress f us = modify.go voteAddress g us := by
    intro us
    induction us with
    | nil => simp
    | cons u us ih =>
      intro hfind
      by_cases hu : u.memcmpPubkey voteAddress
      · simp only [List.find?_cons, hu, Option.some.injEq] at hfind
        rw [modify.go, modify.go, if_pos hu, if_pos hu, hfind, hv]
      · simp only [List.find?_cons, hu] at hfind
        rw [modify.go, modify.go, if_neg hu, if_neg hu, ih hfind]
  exact congrArg (ValidatorList.mk header) (key vs h)

end ValidatorList

end StakePoolFogo
