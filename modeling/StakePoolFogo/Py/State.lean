import StakePoolFogo.Encoding

/-!
# The Python client's view of the accounts

`stake_pool/state.py`: the layouts that decode a stake pool and a validator list, the named tuples they
fill, and when these agree with what the program wrote.
-/

open StakePoolFogo.Borsh StakePoolFogo.Codec

namespace StakePoolFogo.Py

/-! ## Layouts -/

def int8ul : Reader Nat := readNat 1

def int32ul : Reader Nat := readNat 4

def int64ul : Reader Nat := readNat 8

def publicKeyLayout : Reader (List UInt8) := readBytes 32

/-- `Pass`: parse nothing. -/
def pass {α : Type} : Reader (Option α) := pure none

/-- `Switch`: the layout listed for the key, or nothing. -/
def switch {α : Type} (key : Nat) (cases : List (Nat × Reader (Option α))) : Reader (Option α) :=
  (cases.lookup key).getD pass

/-- A fee, with Python's unbounded integers. -/
structure Fee where
  numerator : Nat
  denominator : Nat
deriving DecidableEq, Repr

def feeLayout : Reader Fee := do
  let denominator ← int64ul
  let numerator ← int64ul
  return { numerator, denominator }

structure LockupContainer where
  unixTimestamp : Nat
  epoch : Nat
  custodian : List UInt8

def lockupLayout : Reader LockupContainer := do
  let unixTimestamp ← int64ul
  let epoch ← int64ul
  let custodian ← publicKeyLayout
  return { unixTimestamp, epoch, custodian }

def optionalFee (option : Nat) : Reader (Option Fee) :=
  switch option [(0, pass), (1, some <$> feeLayout)]

def optionalPublicKey (option : Nat) : Reader (Option (List UInt8)) :=
  switch option [(0, pass), (1, some <$> publicKeyLayout)]

/-- What `DECODE_STAKE_POOL_LAYOUT` parses. -/
structure StakePoolContainer where
  accountType : Nat
  manager : List UInt8
  staker : List UInt8
  stakeDepositAuthority : List UInt8
  stakeWithdrawBumpSeed : Nat
  validatorList : List UInt8
  reserveStake : List UInt8
  poolMint : List UInt8
  managerFeeAccount : List UInt8
  tokenProgramId : List UInt8
  totalLamports : Nat
  poolTokenSupply : Nat
  lastUpdateEpoch : Nat
  lockup : LockupContainer
  epochFee : Fee
  nextEpochFee : Option Fee
  preferredDepositValidator : Option (List UInt8)
  preferredWithdrawValidator : Option (List UInt8)
  stakeDepositFee : Fee
  stakeWithdrawalFee : Fee
  nextStakeWithdrawalFee : Option Fee
  stakeReferralFee : Nat
  solDepositAuthority : Option (List UInt8)
  solDepositFee : Fee
  solReferralFee : Nat
  solWithdrawAuthority : Option (List UInt8)
  solWithdrawalFee : Fee
  nextSolWithdrawalFee : Option Fee
  lastEpochPoolTokenSupply : Nat
  lastEpochTotalLamports : Nat

def decodeStakePoolLayout : Reader StakePoolContainer := do
  let accountType ← int8ul
  let manager ← publicKeyLayout
  let staker ← publicKeyLayout
  let stakeDepositAuthority ← publicKeyLayout
  let stakeWithdrawBumpSeed ← int8ul
  let validatorList ← publicKeyLayout
  let reserveStake ← publicKeyLayout
  let poolMint ← publicKeyLayout
  let managerFeeAccount ← publicKeyLayout
  let tokenProgramId ← publicKeyLayout
  let totalLamports ← int64ul
  let poolTokenSupply ← int64ul
  let lastUpdateEpoch ← int64ul
  let lockup ← lockupLayout
  let epochFee ← feeLayout
  let nextEpochFeeOption ← int8ul
  let nextEpochFee ← optionalFee nextEpochFeeOption
  let preferredDepositValidatorOption ← int8ul
  let preferredDepositValidator ← optionalPublicKey preferredDepositValidatorOption
  let preferredWithdrawValidatorOption ← int8ul
  let preferredWithdrawValidator ← optionalPublicKey preferredWithdrawValidatorOption
  let stakeDepositFee ← feeLayout
  let stakeWithdrawalFee ← feeLayout
  let nextStakeWithdrawalFeeOption ← int8ul
  let nextStakeWithdrawalFee ← optionalFee nextStakeWithdrawalFeeOption
  let stakeReferralFee ← int8ul
  let solDepositAuthorityOption ← int8ul
  let solDepositAuthority ← optionalPublicKey solDepositAuthorityOption
  let solDepositFee ← feeLayout
  let solReferralFee ← int8ul
  let solWithdrawAuthorityOption ← int8ul
  let solWithdrawAuthority ← optionalPublicKey solWithdrawAuthorityOption
  let solWithdrawalFee ← feeLayout
  let nextSolWithdrawalFeeOption ← int8ul
  let nextSolWithdrawalFee ← optionalFee nextSolWithdrawalFeeOption
  let lastEpochPoolTokenSupply ← int64ul
  let lastEpochTotalLamports ← int64ul
  return {
    accountType, manager, staker, stakeDepositAuthority, stakeWithdrawBumpSeed, validatorList,
    reserveStake, poolMint, managerFeeAccount, tokenProgramId, totalLamports, poolTokenSupply,
    lastUpdateEpoch, lockup, epochFee, nextEpochFee, preferredDepositValidator,
    preferredWithdrawValidator, stakeDepositFee, stakeWithdrawalFee, nextStakeWithdrawalFee,
    stakeReferralFee, solDepositAuthority, solDepositFee, solReferralFee, solWithdrawAuthority,
    solWithdrawalFee, nextSolWithdrawalFee, lastEpochPoolTokenSupply, lastEpochTotalLamports }

/-! ## Named tuples -/

/-- `Pubkey(bytes)`. -/
def pubkey (bytes : List UInt8) : Pubkey := Pubkey.ofNat (ofLeBytes bytes)

/-- An empty container counts as absent. -/
def decodeOptionalPublickey (container : Option (List UInt8)) : Option Pubkey :=
  match container with
  | some bytes => if bytes.isEmpty then none else some (pubkey bytes)
  | none => none

structure Lockup where
  unixTimestamp : Int
  epoch : Nat
  custodian : Pubkey
deriving DecidableEq, Repr

def Lockup.decodeContainer (c : LockupContainer) : Lockup where
  unixTimestamp := c.unixTimestamp
  epoch := c.epoch
  custodian := pubkey c.custodian

structure StakePool where
  manager : Pubkey
  staker : Pubkey
  stakeDepositAuthority : Pubkey
  stakeWithdrawBumpSeed : Nat
  validatorList : Pubkey
  reserveStake : Pubkey
  poolMint : Pubkey
  managerFeeAccount : Pubkey
  tokenProgramId : Pubkey
  totalLamports : Nat
  poolTokenSupply : Nat
  lastUpdateEpoch : Nat
  lockup : Lockup
  epochFee : Fee
  nextEpochFee : Option Fee
  preferredDepositValidator : Option Pubkey
  preferredWithdrawValidator : Option Pubkey
  stakeDepositFee : Fee
  stakeWithdrawalFee : Fee
  nextStakeWithdrawalFee : Option Fee
  stakeReferralFee : Nat
  solDepositAuthority : Option Pubkey
  solDepositFee : Fee
  solReferralFee : Nat
  solWithdrawAuthority : Option Pubkey
  solWithdrawalFee : Fee
  nextSolWithdrawalFee : Option Fee
  lastEpochPoolTokenSupply : Nat
  lastEpochTotalLamports : Nat
deriving DecidableEq, Repr

def StakePool.ofContainer (parsed : StakePoolContainer) : StakePool where
  manager := pubkey parsed.manager
  staker := pubkey parsed.staker
  stakeDepositAuthority := pubkey parsed.stakeDepositAuthority
  stakeWithdrawBumpSeed := parsed.stakeWithdrawBumpSeed
  validatorList := pubkey parsed.validatorList
  reserveStake := pubkey parsed.reserveStake
  poolMint := pubkey parsed.poolMint
  managerFeeAccount := pubkey parsed.managerFeeAccount
  tokenProgramId := pubkey parsed.tokenProgramId
  totalLamports := parsed.totalLamports
  poolTokenSupply := parsed.poolTokenSupply
  lastUpdateEpoch := parsed.lastUpdateEpoch
  lockup := Lockup.decodeContainer parsed.lockup
  epochFee := parsed.epochFee
  nextEpochFee := parsed.nextEpochFee
  preferredDepositValidator := decodeOptionalPublickey parsed.preferredDepositValidator
  preferredWithdrawValidator := decodeOptionalPublickey parsed.preferredWithdrawValidator
  stakeDepositFee := parsed.stakeDepositFee
  stakeWithdrawalFee := parsed.stakeWithdrawalFee
  nextStakeWithdrawalFee := parsed.nextStakeWithdrawalFee
  stakeReferralFee := parsed.stakeReferralFee
  solDepositAuthority := decodeOptionalPublickey parsed.solDepositAuthority
  solDepositFee := parsed.solDepositFee
  solReferralFee := parsed.solReferralFee
  solWithdrawAuthority := decodeOptionalPublickey parsed.solWithdrawAuthority
  solWithdrawalFee := parsed.solWithdrawalFee
  nextSolWithdrawalFee := parsed.nextSolWithdrawalFee
  lastEpochPoolTokenSupply := parsed.lastEpochPoolTokenSupply
  lastEpochTotalLamports := parsed.lastEpochTotalLamports

/-- `StakePool.decode`; bytes behind the last field are not looked at. -/
def StakePool.decode (data : List UInt8) : Option StakePool :=
  (decodeStakePoolLayout data).map fun parsed => .ofContainer parsed.1

/-! ## What the program's pools decode to -/

def Fee.ofFee (fee : StakePoolFogo.Fee) : Fee where
  numerator := fee.numerator.toNat
  denominator := fee.denominator.toNat

/-- The named tuple with the values of `p`; a pending fee is a fee, whatever its wait. -/
def StakePool.ofPool (p : StakePoolFogo.StakePool) : StakePool where
  manager := p.manager
  staker := p.staker
  stakeDepositAuthority := p.stakeDepositAuthority
  stakeWithdrawBumpSeed := p.stakeWithdrawBumpSeed.toNat
  validatorList := p.validatorList
  reserveStake := p.reserveStake
  poolMint := p.poolMint
  managerFeeAccount := p.managerFeeAccount
  tokenProgramId := p.tokenProgramId
  totalLamports := p.totalLamports
  poolTokenSupply := p.poolTokenSupply
  lastUpdateEpoch := p.lastUpdateEpoch
  lockup := ⟨p.lockup.unixTimestamp, p.lockup.epoch, p.lockup.custodian⟩
  epochFee := .ofFee p.epochFee
  nextEpochFee := p.nextEpochFee.pending.map .ofFee
  preferredDepositValidator := p.preferredDepositValidatorVoteAddress
  preferredWithdrawValidator := p.preferredWithdrawValidatorVoteAddress
  stakeDepositFee := .ofFee p.stakeDepositFee
  stakeWithdrawalFee := .ofFee p.stakeWithdrawalFee
  nextStakeWithdrawalFee := p.nextStakeWithdrawalFee.pending.map .ofFee
  stakeReferralFee := p.stakeReferralFee.toNat
  solDepositAuthority := p.solDepositAuthority
  solDepositFee := .ofFee p.solDepositFee
  solReferralFee := p.solReferralFee.toNat
  solWithdrawAuthority := p.solWithdrawAuthority
  solWithdrawalFee := .ofFee p.solWithdrawalFee
  nextSolWithdrawalFee := p.nextSolWithdrawalFee.pending.map .ofFee
  lastEpochPoolTokenSupply := p.lastEpochPoolTokenSupply
  lastEpochTotalLamports := p.lastEpochTotalLamports

theorem reads_int8ul (b : UInt8) : Reads int8ul [b] b.toNat := fun _ => rfl

theorem reads_int64ul {n : Nat} (h : n < 256 ^ 8) : Reads int64ul (leBytes 8 n) n := reads_nat h

theorem reads_uint64 (n : UInt64) : Reads int64ul (leBytes 8 n.toNat) n.toNat :=
  reads_int64ul n.toNat_lt

theorem reads_publicKey (k : Pubkey) : Reads publicKeyLayout k.toBytes k.toBytes :=
  reads_bytes _ k.toBytes_length

theorem reads_fee (fee : StakePoolFogo.Fee) : Reads feeLayout fee.toBytes (.ofFee fee) :=
  .field (reads_uint64 _) (.field (reads_uint64 _) (.pure _))

theorem reads_optionalPublicKey (k : Option Pubkey) :
    Reads (int8ul >>= optionalPublicKey) (optionToBytes Pubkey.toBytes k) (k.map Pubkey.toBytes) := by
  cases k with
  | none => exact (reads_int8ul 0).bind (.pure _)
  | some k => exact (reads_int8ul 1).bind ((reads_publicKey k).map some)

theorem reads_optionalFee {f : FutureEpoch StakePoolFogo.Fee} (h : ∀ fee, f ≠ .two fee) :
    Reads (int8ul >>= optionalFee) (f.toBytes StakePoolFogo.Fee.toBytes) (f.pending.map .ofFee) := by
  cases f with
  | none => exact (reads_int8ul 0).bind (.pure _)
  | one fee => exact (reads_int8ul 1).bind ((reads_fee fee).map some)
  | two fee => exact absurd rfl (h fee)

/-- The layout does not know the tag of a fee two epochs away. -/
theorem yields_of_two {α : Type} {P : α → Prop} {next : Option Fee → Reader α}
    (fee : StakePoolFogo.Fee) (parts : List (List UInt8)) (h : Yields P (next none)) :
    YieldsOn P (int8ul >>= fun option => optionalFee option >>= next)
      ((FutureEpoch.two fee).toBytes StakePoolFogo.Fee.toBytes :: parts).flatten := by
  intro rest a more hread
  have hnext : next none (StakePoolFogo.Fee.toBytes fee ++ (parts.flatten ++ rest)) = some (a, more) := by
    rw [← List.append_assoc]
    exact hread
  exact h _ a more hnext

/-- What is parsed of `p`; the time stamp is read as unsigned. -/
def StakePoolContainer.ofPool (p : StakePoolFogo.StakePool) : StakePoolContainer where
  accountType := p.accountType.toByte.toNat
  manager := p.manager.toBytes
  staker := p.staker.toBytes
  stakeDepositAuthority := p.stakeDepositAuthority.toBytes
  stakeWithdrawBumpSeed := p.stakeWithdrawBumpSeed.toNat
  validatorList := p.validatorList.toBytes
  reserveStake := p.reserveStake.toBytes
  poolMint := p.poolMint.toBytes
  managerFeeAccount := p.managerFeeAccount.toBytes
  tokenProgramId := p.tokenProgramId.toBytes
  totalLamports := p.totalLamports
  poolTokenSupply := p.poolTokenSupply
  lastUpdateEpoch := p.lastUpdateEpoch
  lockup := ⟨(p.lockup.unixTimestamp % 256 ^ 8).toNat, p.lockup.epoch, p.lockup.custodian.toBytes⟩
  epochFee := .ofFee p.epochFee
  nextEpochFee := p.nextEpochFee.pending.map .ofFee
  preferredDepositValidator := p.preferredDepositValidatorVoteAddress.map Pubkey.toBytes
  preferredWithdrawValidator := p.preferredWithdrawValidatorVoteAddress.map Pubkey.toBytes
  stakeDepositFee := .ofFee p.stakeDepositFee
  stakeWithdrawalFee := .ofFee p.stakeWithdrawalFee
  nextStakeWithdrawalFee := p.nextStakeWithdrawalFee.pending.map .ofFee
  stakeReferralFee := p.stakeReferralFee.toNat
  solDepositAuthority := p.solDepositAuthority.map Pubkey.toBytes
  solDepositFee := .ofFee p.solDepositFee
  solReferralFee := p.solReferralFee.toNat
  solWithdrawAuthority := p.solWithdrawAuthority.map Pubkey.toBytes
  solWithdrawalFee := .ofFee p.solWithdrawalFee
  nextSolWithdrawalFee := p.nextSolWithdrawalFee.pending.map .ofFee
  lastEpochPoolTokenSupply := p.lastEpochPoolTokenSupply
  lastEpochTotalLamports := p.lastEpochTotalLamports

theorem reads_lockup {lockup : StakePoolFogo.Lockup} (h : lockup.epoch < 256 ^ 8) :
    Reads lockupLayout lockup.toBytes
      ⟨(lockup.unixTimestamp % 256 ^ 8).toNat, lockup.epoch, lockup.custodian.toBytes⟩ := by
  have hstamp : (lockup.unixTimestamp % 256 ^ 8).toNat < 256 ^ 8 := by omega
  exact .field (reads_int64ul hstamp) (.field (reads_int64ul h) (.field (reads_publicKey _) (.pure _)))

section Pool

variable {p : StakePoolFogo.StakePool}

/-- Without a fee two epochs away, every field is parsed from its place. -/
theorem reads_stakePool (h : p.Fits) (hepoch : ∀ fee, p.nextEpochFee ≠ .two fee)
    (hstake : ∀ fee, p.nextStakeWithdrawalFee ≠ .two fee)
    (hsol : ∀ fee, p.nextSolWithdrawalFee ≠ .two fee) :
    Reads decodeStakePoolLayout p.toBytes (.ofPool p) :=
  .field (reads_int8ul _) <| .field (reads_publicKey _) <| .field (reads_publicKey _) <|
  .field (reads_publicKey _) <| .field (reads_int8ul _) <| .field (reads_publicKey _) <|
  .field (reads_publicKey _) <| .field (reads_publicKey _) <| .field (reads_publicKey _) <|
  .field (reads_publicKey _) <| .field (reads_int64ul h.totalLamports) <|
  .field (reads_int64ul h.poolTokenSupply) <| .field (reads_int64ul h.lastUpdateEpoch) <|
  .field (reads_lockup h.lockupEpoch) <| .field (reads_fee _) <| .tagged (reads_optionalFee hepoch) <|
  .tagged (reads_optionalPublicKey _) <| .tagged (reads_optionalPublicKey _) <| .field (reads_fee _) <|
  .field (reads_fee _) <| .tagged (reads_optionalFee hstake) <| .field (reads_int8ul _) <|
  .tagged (reads_optionalPublicKey _) <| .field (reads_fee _) <| .field (reads_int8ul _) <|
  .tagged (reads_optionalPublicKey _) <| .field (reads_fee _) <| .tagged (reads_optionalFee hsol) <|
  .field (reads_int64ul h.lastEpochPoolTokenSupply) <|
  .field (reads_int64ul h.lastEpochTotalLamports) <| .pure _

/-- The first fee that is two epochs away is lost. -/
theorem yields_stakePool_of_two (h : p.Fits) {fee : StakePoolFogo.Fee}
    (htwo : p.nextEpochFee = .two fee ∨ p.nextStakeWithdrawalFee = .two fee ∨
      p.nextSolWithdrawalFee = .two fee) :
    YieldsOn (fun c => c.nextEpochFee ≠ p.nextEpochFee.pending.map .ofFee ∨
      c.nextStakeWithdrawalFee ≠ p.nextStakeWithdrawalFee.pending.map .ofFee ∨
      c.nextSolWithdrawalFee ≠ p.nextSolWithdrawalFee.pending.map .ofFee)
      decodeStakePoolLayout p.toBytes := by
  refine .field (reads_int8ul _) <| .field (reads_publicKey _) <| .field (reads_publicKey _) <|
    .field (reads_publicKey _) <| .field (reads_int8ul _) <| .field (reads_publicKey _) <|
    .field (reads_publicKey _) <| .field (reads_publicKey _) <| .field (reads_publicKey _) <|
    .field (reads_publicKey _) <| .field (reads_int64ul h.totalLamports) <|
    .field (reads_int64ul h.poolTokenSupply) <| .field (reads_int64ul h.lastUpdateEpoch) <|
    .field (reads_lockup h.lockupEpoch) <| .field (reads_fee _) ?_
  by_cases hepoch : ∃ fee, p.nextEpochFee = .two fee
  · obtain ⟨fee, hepoch⟩ := hepoch
    rw [hepoch]
    refine yields_of_two fee _ ?_
    repeat refine .bind fun _ => ?_
    exact .pure (.inl (by simp [FutureEpoch.pending]))
  have hepoch' : ∀ fee, p.nextEpochFee ≠ .two fee := fun fee heq => hepoch ⟨fee, heq⟩
  refine .tagged (reads_optionalFee hepoch') <| .tagged (reads_optionalPublicKey _) <|
    .tagged (reads_optionalPublicKey _) <| .field (reads_fee _) <| .field (reads_fee _) ?_
  by_cases hstake : ∃ fee, p.nextStakeWithdrawalFee = .two fee
  · obtain ⟨fee, hstake⟩ := hstake
    rw [hstake]
    refine yields_of_two fee _ ?_
    repeat refine .bind fun _ => ?_
    exact .pure (.inr (.inl (by simp [FutureEpoch.pending])))
  have hstake' : ∀ fee, p.nextStakeWithdrawalFee ≠ .two fee := fun fee heq => hstake ⟨fee, heq⟩
  refine .tagged (reads_optionalFee hstake') <| .field (reads_int8ul _) <|
    .tagged (reads_optionalPublicKey _) <| .field (reads_fee _) <| .field (reads_int8ul _) <|
    .tagged (reads_optionalPublicKey _) <| .field (reads_fee _) ?_
  obtain hsol : p.nextSolWithdrawalFee = .two fee := by
    rcases htwo with htwo | htwo | htwo
    · exact absurd htwo (hepoch' fee)
    · exact absurd htwo (hstake' fee)
    · exact htwo
  rw [hsol]
  refine yields_of_two fee _ ?_
  repeat refine .bind fun _ => ?_
  exact .pure (.inr (.inr (by simp [FutureEpoch.pending])))

theorem pubkey_toBytes (k : Pubkey) : pubkey k.toBytes = k := k.ofLeBytes_toBytes

theorem decodeOptionalPublickey_toBytes (k : Option Pubkey) :
    decodeOptionalPublickey (k.map Pubkey.toBytes) = k := by
  cases k with
  | none => rfl
  | some k =>
    have hne : k.toBytes.isEmpty = false := by
      rw [List.isEmpty_eq_false_iff_exists_mem]
      exact ⟨_, List.getElem_mem (by rw [k.toBytes_length]; decide : 0 < k.toBytes.length)⟩
    show (if k.toBytes.isEmpty then none else some (pubkey k.toBytes)) = some k
    rw [hne, if_neg Bool.false_ne_true, pubkey_toBytes]

/-- The time stamp is right unless it is negative. -/
theorem StakePool.ofContainer_ofPool (h : p.Fits) :
    StakePool.ofContainer (.ofPool p) = .ofPool p ↔ 0 ≤ p.lockup.unixTimestamp := by
  have hlt := h.timestamp_lt
  have hge := h.timestamp_ge
  constructor
  · intro heq
    have hstamp := congrArg (fun q => q.lockup.unixTimestamp) heq
    change ((p.lockup.unixTimestamp % 256 ^ 8).toNat : Int) = p.lockup.unixTimestamp at hstamp
    omega
  · intro hpos
    have hstamp : ((p.lockup.unixTimestamp % 256 ^ 8).toNat : Int) = p.lockup.unixTimestamp := by omega
    simp only [StakePool.ofContainer, StakePool.ofPool, StakePoolContainer.ofPool, pubkey_toBytes,
      decodeOptionalPublickey_toBytes, Lockup.decodeContainer, hstamp]

/-- The pools that the layout reads as they are. -/
theorem StakePool.decode_toBytes (h : p.Fits) (rest : List UInt8) :
    StakePool.decode (p.toBytes ++ rest) = some (.ofPool p) ↔
      (∀ fee, p.nextEpochFee ≠ .two fee) ∧ (∀ fee, p.nextStakeWithdrawalFee ≠ .two fee) ∧
        (∀ fee, p.nextSolWithdrawalFee ≠ .two fee) ∧ 0 ≤ p.lockup.unixTimestamp := by
  constructor
  · intro hdecode
    obtain ⟨⟨parsed, more⟩, hread, heq⟩ := Option.map_eq_some_iff.mp hdecode
    dsimp only at heq
    have hnone : ∀ fee, ¬(p.nextEpochFee = .two fee ∨ p.nextStakeWithdrawalFee = .two fee ∨
        p.nextSolWithdrawalFee = .two fee) := by
      intro fee htwo
      rcases yields_stakePool_of_two h htwo rest parsed more hread with hlost | hlost | hlost
      · exact hlost (congrArg StakePool.nextEpochFee heq)
      · exact hlost (congrArg StakePool.nextStakeWithdrawalFee heq)
      · exact hlost (congrArg StakePool.nextSolWithdrawalFee heq)
    have hepoch : ∀ fee, p.nextEpochFee ≠ .two fee := fun fee h => hnone fee (.inl h)
    have hstake : ∀ fee, p.nextStakeWithdrawalFee ≠ .two fee := fun fee h => hnone fee (.inr (.inl h))
    have hsol : ∀ fee, p.nextSolWithdrawalFee ≠ .two fee := fun fee h => hnone fee (.inr (.inr h))
    rw [reads_stakePool h hepoch hstake hsol rest] at hread
    cases hread
    exact ⟨hepoch, hstake, hsol, (StakePool.ofContainer_ofPool h).mp heq⟩
  · rintro ⟨hepoch, hstake, hsol, hstamp⟩
    rw [StakePool.decode, reads_stakePool h hepoch hstake hsol rest]
    exact congrArg some ((StakePool.ofContainer_ofPool h).mpr hstamp)

end Pool

/-! ## Validator lists -/

structure ValidatorInfoContainer where
  activeStakeLamports : Nat
  transientStakeLamports : Nat
  lastUpdateEpoch : Nat
  transientSeedSuffix : Nat
  unused : Nat
  validatorSeedSuffix : Nat
  status : Nat
  voteAccountAddress : List UInt8

def validatorInfoLayout : Reader ValidatorInfoContainer := do
  let activeStakeLamports ← int64ul
  let transientStakeLamports ← int64ul
  let lastUpdateEpoch ← int64ul
  let transientSeedSuffix ← int64ul
  let unused ← int32ul
  let validatorSeedSuffix ← int32ul
  let status ← int8ul
  let voteAccountAddress ← publicKeyLayout
  return {
    activeStakeLamports, transientStakeLamports, lastUpdateEpoch, transientSeedSuffix, unused,
    validatorSeedSuffix, status, voteAccountAddress }

structure ValidatorListContainer where
  accountType : Nat
  maxValidators : Nat
  validatorsLen : Nat
  validators : List ValidatorInfoContainer

def decodeValidatorListLayout : Reader ValidatorListContainer := do
  let accountType ← int8ul
  let maxValidators ← int32ul
  let validatorsLen ← int32ul
  let validators ← readMany validatorInfoLayout validatorsLen
  return { accountType, maxValidators, validatorsLen, validators }

/-- The members of the enumeration.  `DEACTIVATING_ALL` has the value of `DEACTIVATING_VALIDATOR`, which
makes it another name of that member. -/
inductive StakeStatus where
  | active
  | deactivatingTransient
  | readyForRemoval
  | deactivatingValidator
deriving DecidableEq, Repr

def StakeStatus.deactivatingAll : StakeStatus := .deactivatingValidator

/-- `StakeStatus(value)`. -/
def StakeStatus.ofValue : Nat → Option StakeStatus
  | 0 => some .active
  | 1 => some .deactivatingTransient
  | 2 => some .readyForRemoval
  | 3 => some .deactivatingValidator
  | _ => none

/-- An entry; its status is the byte, to be compared with the members of `StakeStatus`. -/
structure ValidatorStakeInfo where
  activeStakeLamports : Nat
  transientStakeLamports : Nat
  lastUpdateEpoch : Nat
  transientSeedSuffix : Nat
  unused : Nat
  validatorSeedSuffix : Nat
  status : Nat
  voteAccountAddress : Pubkey
deriving DecidableEq, Repr

def ValidatorStakeInfo.decodeContainer (c : ValidatorInfoContainer) : ValidatorStakeInfo where
  activeStakeLamports := c.activeStakeLamports
  transientStakeLamports := c.transientStakeLamports
  lastUpdateEpoch := c.lastUpdateEpoch
  transientSeedSuffix := c.transientSeedSuffix
  unused := c.unused
  validatorSeedSuffix := c.validatorSeedSuffix
  status := c.status
  voteAccountAddress := pubkey c.voteAccountAddress

structure ValidatorList where
  maxValidators : Nat
  validators : List ValidatorStakeInfo
deriving DecidableEq, Repr

def ValidatorList.decode (data : List UInt8) : Option ValidatorList :=
  (decodeValidatorListLayout data).map fun (parsed, _) => {
    maxValidators := parsed.maxValidators
    validators := parsed.validators.map .decodeContainer }

/-- The named tuple with the values of the entry `v`. -/
def ValidatorStakeInfo.ofInfo (v : StakePoolFogo.ValidatorStakeInfo) : ValidatorStakeInfo where
  activeStakeLamports := v.activeStakeLamports
  transientStakeLamports := v.transientStakeLamports
  lastUpdateEpoch := v.lastUpdateEpoch
  transientSeedSuffix := v.transientSeedSuffix.toNat
  unused := v.unused.toNat
  validatorSeedSuffix := v.validatorSeedSuffix.toNat
  status := v.status.byte.toNat
  voteAccountAddress := v.voteAccountAddress

def ValidatorList.ofList (l : StakePoolFogo.ValidatorList) : ValidatorList where
  maxValidators := l.header.maxValidators.toNat
  validators := l.validators.map .ofInfo

/-- The member that stands for a status of the program. -/
def StakeStatus.ofStatus : StakePoolFogo.StakeStatus → StakeStatus
  | .active => .active
  | .deactivatingTransient => .deactivatingTransient
  | .readyForRemoval => .readyForRemoval
  | .deactivatingValidator => .deactivatingValidator
  | .deactivatingAll => .deactivatingAll

theorem reads_uint32 (n : UInt32) : Reads int32ul (leBytes 4 n.toNat) n.toNat := reads_nat n.toNat_lt

def ValidatorInfoContainer.ofInfo (v : StakePoolFogo.ValidatorStakeInfo) : ValidatorInfoContainer where
  activeStakeLamports := v.activeStakeLamports
  transientStakeLamports := v.transientStakeLamports
  lastUpdateEpoch := v.lastUpdateEpoch
  transientSeedSuffix := v.transientSeedSuffix.toNat
  unused := v.unused.toNat
  validatorSeedSuffix := v.validatorSeedSuffix.toNat
  status := v.status.byte.toNat
  voteAccountAddress := v.voteAccountAddress.toBytes

theorem reads_validatorInfo {v : StakePoolFogo.ValidatorStakeInfo} (h : v.Fits) :
    Reads validatorInfoLayout v.toBytes (.ofInfo v) := by
  rw [v.toBytes_parts]
  exact .field (reads_int64ul h.activeStakeLamports) <| .field (reads_int64ul h.transientStakeLamports) <|
    .field (reads_int64ul h.lastUpdateEpoch) <| .field (reads_uint64 _) <| .field (reads_uint32 _) <|
    .field (reads_uint32 _) <| .field (reads_int8ul _) <| .field (reads_publicKey _) <| .pure _

/-- Every list is decoded to its entries. -/
theorem ValidatorList.decode_toBytes {l : StakePoolFogo.ValidatorList} (h : l.Fits)
    (rest : List UInt8) : ValidatorList.decode (l.toBytes rest) = some (.ofList l) := by
  have hread : Reads decodeValidatorListLayout (List.flatten [[l.header.accountType.toByte],
      leBytes 4 l.header.maxValidators.toNat, leBytes 4 l.validators.length,
      (l.validators.map StakePoolFogo.ValidatorStakeInfo.toBytes).flatten])
      ⟨_, l.header.maxValidators.toNat, _, l.validators.map .ofInfo⟩ :=
    .field (reads_int8ul l.header.accountType.toByte) <|
    .field (reads_uint32 l.header.maxValidators) <| .field (reads_nat h.length) <|
    .field (.many l.validators fun v hv => reads_validatorInfo (h.entries v hv)) <| .pure _
  have hentries : ∀ v : StakePoolFogo.ValidatorStakeInfo,
      ValidatorStakeInfo.decodeContainer (.ofInfo v) = .ofInfo v := by
    intro v
    simp only [ValidatorStakeInfo.decodeContainer, ValidatorInfoContainer.ofInfo,
      ValidatorStakeInfo.ofInfo, pubkey_toBytes]
  rw [ValidatorList.decode, l.toBytes_parts, hread rest]
  simp only [Option.map_some, ValidatorList.ofList, List.map_map, Function.comp_def, hentries]

/-- A status is recognised as its own member, except for `DeactivatingAll`. -/
theorem StakeStatus.ofValue_toPod (s : StakePoolFogo.StakeStatus) :
    StakeStatus.ofValue s.toPod.byte.toNat = some (.ofStatus s) ↔ s ≠ .deactivatingAll := by
  cases s <;> decide

/-- The Python client decodes exactly the pools that have no fee two epochs away and no negative time
stamp, and recognises the statuses of exactly the lists without an entry in `DeactivatingAll`. -/
theorem py_decodes {p : StakePoolFogo.StakePool} {l : StakePoolFogo.ValidatorList} (hp : p.Fits)
    (hl : l.Fits) (rest rest' : List UInt8) :
    (StakePool.decode (p.toBytes ++ rest) = some (.ofPool p) ↔
        (∀ fee, p.nextEpochFee ≠ .two fee) ∧ (∀ fee, p.nextStakeWithdrawalFee ≠ .two fee) ∧
          (∀ fee, p.nextSolWithdrawalFee ≠ .two fee) ∧ 0 ≤ p.lockup.unixTimestamp) ∧
      ((ValidatorList.decode (l.toBytes rest') = some (.ofList l) ∧
          ∀ v ∈ l.validators, ∀ s : StakePoolFogo.StakeStatus, v.status = s.toPod →
            StakeStatus.ofValue (ValidatorStakeInfo.ofInfo v).status = some (.ofStatus s)) ↔
        ∀ v ∈ l.validators, v.status ≠ StakePoolFogo.StakeStatus.deactivatingAll.toPod) := by
  refine ⟨StakePool.decode_toBytes hp rest, fun ⟨_, hstatus⟩ v hv hall => ?_, fun hnone =>
    ⟨ValidatorList.decode_toBytes hl rest', fun v hv s hs => ?_⟩⟩
  · have hmember := hstatus v hv _ hall
    rw [ValidatorStakeInfo.ofInfo, hall] at hmember
    exact (StakeStatus.ofValue_toPod _).mp hmember rfl
  · rw [ValidatorStakeInfo.ofInfo, hs]
    refine (StakeStatus.ofValue_toPod s).mpr fun hall => ?_
    subst hall
    exact hnone v hv hs

/-- A pool that is about to change its epoch fee. -/
def changing (next : FutureEpoch StakePoolFogo.Fee) : StakePoolFogo.StakePool :=
  { StakePoolFogo.StakePool.zeroed with accountType := .stakePool, nextEpochFee := next }

/-- A list with one entry that is being removed. -/
def removing (status : StakePoolFogo.StakeStatus) : StakePoolFogo.ValidatorList where
  header := ⟨.validatorList, 1⟩
  validators := [⟨0, 0, 0, 0, 0, 0, status.toPod, default⟩]

theorem changing_fits (next : FutureEpoch StakePoolFogo.Fee) : (changing next).Fits := by
  have hword : 0 < 256 ^ 8 := by decide
  exact ⟨hword, hword, hword, (by decide : (-2 ^ 63 : Int) ≤ 0), (by decide : (0 : Int) < 2 ^ 63), hword, hword, hword⟩

theorem removing_fits (status : StakePoolFogo.StakeStatus) : (removing status).Fits := by
  have hword : 0 < 256 ^ 8 := by decide
  refine ⟨(by decide : 1 < 256 ^ 4), fun v hv => ?_⟩
  rw [List.mem_singleton.mp hv]
  exact ⟨hword, hword, hword⟩

/-- A fee one epoch away and a deactivating validator are read as they are. -/
theorem py_decodes_changing :
    StakePool.decode ((changing (.one ⟨100, 1⟩)).toBytes ++ [7]) =
        some (.ofPool (changing (.one ⟨100, 1⟩))) ∧
      ValidatorList.decode ((removing .deactivatingValidator).toBytes []) =
        some (.ofList (removing .deactivatingValidator)) := by
  obtain ⟨hpool, hlist⟩ := py_decodes (changing_fits (.one ⟨100, 1⟩))
    (removing_fits .deactivatingValidator) [7] []
  refine ⟨hpool.mpr ⟨by simp [changing], by simp [changing, StakePoolFogo.StakePool.zeroed],
    by simp [changing, StakePoolFogo.StakePool.zeroed], by decide⟩, (hlist.mpr fun v hv => ?_).1⟩
  rw [List.mem_singleton.mp hv]
  decide

/-- A fee two epochs away is lost, and `DeactivatingAll` is no member. -/
theorem py_loses_fee_and_status :
    StakePool.decode (changing (.two ⟨100, 1⟩)).toBytes ≠ some (.ofPool (changing (.two ⟨100, 1⟩))) ∧
      ∃ v ∈ (removing .deactivatingAll).validators,
        v.status = StakePoolFogo.StakeStatus.deactivatingAll.toPod ∧
        StakeStatus.ofValue (ValidatorStakeInfo.ofInfo v).status = none := by
  refine ⟨fun hdecode => ?_, _, List.mem_singleton_self _, rfl, rfl⟩
  have hiff := StakePool.decode_toBytes (changing_fits (.two ⟨100, 1⟩)) []
  rw [List.append_nil] at hiff
  exact (hiff.mp hdecode).1 _ rfl

end StakePoolFogo.Py
