import Mathlib

/-!
# Account contents of the programs around the pool

Addresses and the layouts of stake, mint and token accounts, as the interface crates define them.
-/

namespace StakePoolFogo

/-- A 32-byte address, as the number its bytes spell. -/
structure Pubkey where
  val : Fin (2 ^ 256)
deriving DecidableEq, Repr

instance : Inhabited Pubkey := ⟨⟨0⟩⟩

def Pubkey.ofNat (n : Nat) : Pubkey := ⟨n % 2 ^ 256, Nat.mod_lt _ (Nat.two_pow_pos 256)⟩

/-- The `n` low bytes of `v`, least significant first (`to_le_bytes`). -/
def leBytes (n v : Nat) : List UInt8 :=
  match n with
  | 0 => []
  | n + 1 => UInt8.ofNat (v % 256) :: leBytes n (v / 256)

def Pubkey.toBytes (k : Pubkey) : List UInt8 := leBytes 32 k.val

abbrev Epoch := Nat

/-- `Epoch::MAX`, the deactivation epoch of a stake nobody deactivated. -/
def epochMax : Epoch := 2 ^ 64 - 1

structure Lockup where
  unixTimestamp : Int
  epoch : Epoch
  custodian : Pubkey
deriving DecidableEq, Repr, Inhabited

structure Authorized where
  staker : Pubkey
  withdrawer : Pubkey
deriving DecidableEq, Repr, Inhabited

/-- `stake::state::Meta`. -/
structure StakeMeta where
  rentExemptReserve : Nat
  authorized : Authorized
  lockup : Lockup
deriving DecidableEq, Repr, Inhabited

structure Delegation where
  voterPubkey : Pubkey
  stake : Nat
  activationEpoch : Epoch
  deactivationEpoch : Epoch
deriving DecidableEq, Repr, Inhabited

structure Stake where
  delegation : Delegation
  creditsObserved : Nat
deriving DecidableEq, Repr, Inhabited

inductive StakeStateV2 where
  | uninitialized
  | initialized (info : StakeMeta)
  | stake (info : StakeMeta) (stake : Stake)
  | rewardsPool
deriving DecidableEq, Repr

namespace StakeStateV2

/-- `StakeStateV2::meta`. -/
def meta? : StakeStateV2 → Option StakeMeta
  | .initialized info => some info
  | .stake info _ => some info
  | .uninitialized => none
  | .rewardsPool => none

/-- `StakeStateV2::delegation`. -/
def delegation? : StakeStateV2 → Option Delegation
  | .stake _ s => some s.delegation
  | .uninitialized => none
  | .initialized _ => none
  | .rewardsPool => none

end StakeStateV2

inductive StakeAuthorize where
  | staker
  | withdrawer
deriving DecidableEq, Repr

/-- Token extension types; the ones no check of the pool names are `other`. -/
inductive ExtensionType where
  | uninitialized
  | transferFeeConfig
  | transferFeeAmount
  | confidentialTransferMint
  | confidentialTransferFeeConfig
  | defaultAccountState
  | immutableOwner
  | interestBearingConfig
  | cpiGuard
  | metadataPointer
  | tokenMetadata
  | other (code : Nat)
deriving DecidableEq, Repr

structure Mint where
  mintAuthority : Option Pubkey
  supply : Nat
  decimals : UInt8
  freezeAuthority : Option Pubkey
  extensions : List ExtensionType
deriving DecidableEq, Repr

inductive AccountState where
  | uninitialized
  | initialized
  | frozen
deriving DecidableEq, Repr

structure TokenAccount where
  mint : Pubkey
  owner : Pubkey
  amount : Nat
  state : AccountState
  extensions : List ExtensionType
deriving DecidableEq, Repr

end StakePoolFogo
