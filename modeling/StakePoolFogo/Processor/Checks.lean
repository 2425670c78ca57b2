import StakePoolFogo.Runtime

/-!
# Shared checks

Derived addresses of `lib.rs`, the checks of `StakePool` in `state.rs` and the free functions at the
top of `processor.rs`.
-/

open StakePoolFogo.Outcome

namespace StakePoolFogo

/-! ## Derived addresses -/

/-- `b"deposit"`. -/
def authorityDeposit : List UInt8 := [100, 101, 112, 111, 115, 105, 116]

/-- `b"withdraw"`. -/
def authorityWithdraw : List UInt8 := [119, 105, 116, 104, 100, 114, 97, 119]

/-- `b"transient"`. -/
def transientStakeSeedPrefix : List UInt8 := [116, 114, 97, 110, 115, 105, 101, 110, 116]

/-- `b"ephemeral"`. -/
def ephemeralStakeSeedPrefix : List UInt8 := [101, 112, 104, 101, 109, 101, 114, 97, 108]

/-- `b"metadata"`. -/
def metadataSeed : List UInt8 := [109, 101, 116, 97, 100, 97, 116, 97]

/-- The optional part of a validator stake address: a zero seed adds no bytes. -/
def validatorSeedBytes (seed : UInt32) : List UInt8 :=
  if seed = 0 then [] else leBytes 4 seed.toNat

def validatorStakeSeeds (vote pool : Pubkey) (seed : UInt32) : List (List UInt8) :=
  [vote.toBytes, pool.toBytes, validatorSeedBytes seed]

def transientStakeSeeds (vote pool : Pubkey) (seed : UInt64) : List (List UInt8) :=
  [transientStakeSeedPrefix, vote.toBytes, pool.toBytes, leBytes 8 seed.toNat]

def ephemeralStakeSeeds (pool : Pubkey) (seed : UInt64) : List (List UInt8) :=
  [ephemeralStakeSeedPrefix, pool.toBytes, leBytes 8 seed.toNat]

variable (rt : Runtime)

def findDepositAuthorityProgramAddress (pool : Pubkey) : Pubkey × UInt8 :=
  rt.findProgramAddress [pool.toBytes, authorityDeposit] rt.programId

def findWithdrawAuthorityProgramAddress (pool : Pubkey) : Pubkey × UInt8 :=
  rt.findProgramAddress [pool.toBytes, authorityWithdraw] rt.programId

def findStakeProgramAddress (vote pool : Pubkey) (seed : UInt32) : Pubkey × UInt8 :=
  rt.findProgramAddress (validatorStakeSeeds vote pool seed) rt.programId

def findTransientStakeProgramAddress (vote pool : Pubkey) (seed : UInt64) : Pubkey × UInt8 :=
  rt.findProgramAddress (transientStakeSeeds vote pool seed) rt.programId

def findEphemeralStakeProgramAddress (pool : Pubkey) (seed : UInt64) : Pubkey × UInt8 :=
  rt.findProgramAddress (ephemeralStakeSeeds pool seed) rt.programId

def findMetadataAccount (mint : Pubkey) : Pubkey × UInt8 :=
  rt.findProgramAddress [metadataSeed, rt.mplTokenMetadataId.toBytes, mint.toBytes]
    rt.mplTokenMetadataId

/-- The address a program signs for with `[pool, authority type, bump]`. -/
def poolAuthority (pool : Pubkey) (authorityType : List UInt8) (bump : UInt8) :
    Except ProgramError Pubkey :=
  rt.createProgramAddress [pool.toBytes, authorityType, [bump]] rt.programId

/-! ## Programs, owners and sysvars -/

def checkSystemProgram (key : Pubkey) : Except ProgramError Unit :=
  failIf (key ≠ rt.systemProgramId) .incorrectProgramId

def checkStakeProgram (key : Pubkey) : Except ProgramError Unit :=
  failIf (key ≠ rt.stakeProgramId) .incorrectProgramId

def checkMplMetadataProgram (key : Pubkey) : Except ProgramError Unit :=
  failIf (key ≠ rt.mplTokenMetadataId) .incorrectProgramId

/-- `check_spl_token_program_account`. -/
def checkTokenProgram (key : Pubkey) : Except ProgramError Unit :=
  failIf (¬ rt.isTokenProgram key) .incorrectProgramId

def checkAccountOwner (account : Account) (owner : Pubkey) : Except ProgramError Unit :=
  failIf (owner ≠ account.owner) .incorrectProgramId

/-- `Sysvar::from_account_info`: the account must be the sysvar. -/
def checkSysvar (info : AccountMeta) (id : Pubkey) : Except ProgramError Unit :=
  failIf (info.key ≠ id) .invalidArgument

def checkMplMetadataAccountAddress (metadata mint : Pubkey) : Except ProgramError Unit :=
  failIf ((findMetadataAccount rt mint).1 ≠ metadata) (.custom .invalidMetadataAccount)

/-! ## Stake accounts -/

/-- The content of a delegated stake account. -/
def getStakeState (account : Account) : Except ProgramError (StakeMeta × Stake) := do
  match ← account.tryStakeState with
  | .stake info stake => return (info, stake)
  | _ => throw (.custom .wrongStakeStake)

def checkValidatorStakeAddress (pool stakeAccount vote : Pubkey) (seed : UInt32) :
    Except ProgramError Unit :=
  failIf ((findStakeProgramAddress rt vote pool seed).1 ≠ stakeAccount)
    (.custom .invalidStakeAccountAddress)

def checkTransientStakeAddress (pool stakeAccount vote : Pubkey) (seed : UInt64) :
    Except ProgramError UInt8 := do
  let (address, bump) := findTransientStakeProgramAddress rt vote pool seed
  failIf (address ≠ stakeAccount) (.custom .invalidStakeAccountAddress)
  return bump

def checkEphemeralStakeAddress (pool stakeAccount : Pubkey) (seed : UInt64) :
    Except ProgramError UInt8 := do
  let (address, bump) := findEphemeralStakeProgramAddress rt pool seed
  failIf (address ≠ stakeAccount) (.custom .invalidStakeAccountAddress)
  return bump

/-- Can the pool manage a stake account with this meta? -/
def stakeIsUsableByPool (info : StakeMeta) (expectedAuthority : Pubkey) (expectedLockup : Lockup) :
    Prop :=
  info.authorized.staker = expectedAuthority ∧ info.authorized.withdrawer = expectedAuthority ∧
    info.lockup = expectedLockup

instance (info : StakeMeta) (authority : Pubkey) (lockup : Lockup) :
    Decidable (stakeIsUsableByPool info authority lockup) := inferInstanceAs (Decidable (_ ∧ _))

/-- Is the stake inactive, not counting a cool down? -/
def stakeIsInactiveWithoutHistory (stake : Stake) (epoch : Epoch) : Prop :=
  stake.delegation.deactivationEpoch < epoch ∨
    (stake.delegation.activationEpoch = epoch ∧ stake.delegation.deactivationEpoch = epoch)

instance (stake : Stake) (epoch : Epoch) : Decidable (stakeIsInactiveWithoutHistory stake epoch) :=
  inferInstanceAs (Decidable (_ ∨ _))

def checkIfStakeDeactivating (account : Account) (epoch : Epoch) : Except ProgramError Unit := do
  let (_, stake) ← getStakeState account
  failIf (stake.delegation.deactivationEpoch ≠ epoch) (.custom .wrongStakeStake)

def checkIfStakeActivating (account : Account) (epoch : Epoch) : Except ProgramError Unit := do
  let (_, stake) ← getStakeState account
  failIf (stake.delegation.deactivationEpoch ≠ epochMax ∨ stake.delegation.activationEpoch ≠ epoch)
    (.custom .wrongStakeStake)

def checkStakeState (account : Account) (withdrawAuthority vote : Pubkey) (lockup : Lockup) :
    Except ProgramError Unit := do
  let (info, stake) ← getStakeState account
  failIf (¬ stakeIsUsableByPool info withdrawAuthority lockup) (.custom .wrongStakeStake)
  failIf (stake.delegation.voterPubkey ≠ vote) (.custom .wrongStakeStake)

def checkValidatorStakeAccount (w : Ledger) (stakeAccount pool withdrawAuthority vote : Pubkey)
    (seed : UInt32) (lockup : Lockup) : Except ProgramError Unit := do
  checkAccountOwner (w stakeAccount) rt.stakeProgramId
  checkValidatorStakeAddress rt pool stakeAccount vote seed
  checkStakeState (w stakeAccount) withdrawAuthority vote lockup

/-! ## Checks of `StakePool` -/

namespace StakePool

variable (p : StakePool)

def checkManagerFeeInfo (account : Account) : Except ProgramError Unit := do
  let token ← account.unpackToken
  failIf (account.owner ≠ p.tokenProgramId ∨ token.state ≠ .initialized ∨ token.mint ≠ p.poolMint)
    (.custom .invalidFeeAccount)
  failIf (token.extensions.any (!isExtensionSupportedForFeeAccount ·) = true)
    (.custom .unsupportedFeeAccountExtension)

/-- `check_program_derived_authority` with the withdraw seed. -/
def checkAuthorityWithdraw (withdrawAuthority pool : Pubkey) : Except ProgramError Unit := do
  let expected ← poolAuthority rt pool authorityWithdraw p.stakeWithdrawBumpSeed
  failIf (withdrawAuthority ≠ expected) (.custom .invalidProgramAddress)

def checkStakeDepositAuthority (authority : Pubkey) : Except ProgramError Unit :=
  failIf (p.stakeDepositAuthority ≠ authority) (.custom .invalidStakeDepositAuthority)

/-- An optional authority: when it is set, the account at `i` must be it and must have signed. -/
def checkOptionalAuthority (authority : Option Pubkey) (accounts : List AccountMeta) (i : Nat)
    (mismatch : StakePoolError) : Except ProgramError Unit :=
  match authority with
  | none => .ok ()
  | some auth => do
    let info ← accountAt accounts i
    failIf (auth ≠ info.key) (.custom mismatch)
    failIf (info.isSigner = false) (.custom .signatureMissing)

def checkSolDepositAuthority (accounts : List AccountMeta) (i : Nat) : Except ProgramError Unit :=
  checkOptionalAuthority p.solDepositAuthority accounts i .invalidSolDepositAuthority

def checkSolWithdrawAuthority (accounts : List AccountMeta) (i : Nat) : Except ProgramError Unit :=
  checkOptionalAuthority p.solWithdrawAuthority accounts i .invalidSolWithdrawAuthority

/-- Returns the decimals of the mint. -/
def checkMint (w : Ledger) (mint : Pubkey) : Except ProgramError UInt8 := do
  failIf (mint ≠ p.poolMint) (.custom .wrongPoolMint)
  let m ← (w mint).unpackMint
  return m.decimals

def checkManager (info : AccountMeta) : Except ProgramError Unit := do
  failIf (info.key ≠ p.manager) (.custom .wrongManager)
  failIf (info.isSigner = false) (.custom .signatureMissing)

def checkStaker (info : AccountMeta) : Except ProgramError Unit := do
  failIf (info.key ≠ p.staker) (.custom .wrongStaker)
  failIf (info.isSigner = false) (.custom .signatureMissing)

def checkValidatorList (key : Pubkey) : Except ProgramError Unit :=
  failIf (key ≠ p.validatorList) (.custom .invalidValidatorStakeList)

def checkReserveStake (key : Pubkey) : Except ProgramError Unit :=
  failIf (key ≠ p.reserveStake) (.custom .invalidProgramAddress)

end StakePool

/-! ## Reading the program's own accounts -/

/-- Owner check, decoding and type check of the stake pool. -/
def loadStakePool (w : Ledger) (key : Pubkey) : Except ProgramError StakePool := do
  checkAccountOwner (w key) rt.programId
  let p ← (w key).tryStakePool
  failIf (¬ p.isValid) (.custom .invalidState)
  return p

/-- Owner check, decoding and type check of the validator list. -/
def loadValidatorList (w : Ledger) (key : Pubkey) : Except ProgramError ValidatorList := do
  checkAccountOwner (w key) rt.programId
  let l ← (w key).tryValidatorList
  failIf (¬ l.header.isValid) (.custom .invalidState)
  return l

/-! ## What a passed check says -/

/-- `p` is the stake pool at `k`. -/
structure PoolAt (w : Ledger) (k : Pubkey) (p : StakePool) : Prop where
  owner : (w k).owner = rt.programId
  data : (w k).data = .stakePool p
  valid : p.isValid

/-- `l` is the validator list at `k`. -/
structure ListAt (w : Ledger) (k : Pubkey) (l : ValidatorList) : Prop where
  owner : (w k).owner = rt.programId
  data : (w k).data = .validatorList l
  valid : l.header.isValid

variable {rt}

theorem checkAccountOwner_eq_ok {a : Account} {owner : Pubkey} {u : Unit} :
    checkAccountOwner a owner = .ok u ↔ a.owner = owner := by
  rw [checkAccountOwner, failIf_eq_ok, Decidable.not_not, eq_comm]

theorem checkSysvar_eq_ok {info : AccountMeta} {id : Pubkey} {u : Unit} :
    checkSysvar info id = .ok u ↔ info.key = id := by
  rw [checkSysvar, failIf_eq_ok, Decidable.not_not]

theorem checkSystemProgram_eq_ok {k : Pubkey} {u : Unit} :
    checkSystemProgram rt k = .ok u ↔ k = rt.systemProgramId := by
  rw [checkSystemProgram, failIf_eq_ok, Decidable.not_not]

theorem checkStakeProgram_eq_ok {k : Pubkey} {u : Unit} :
    checkStakeProgram rt k = .ok u ↔ k = rt.stakeProgramId := by
  rw [checkStakeProgram, failIf_eq_ok, Decidable.not_not]

theorem checkTokenProgram_eq_ok {k : Pubkey} {u : Unit} :
    checkTokenProgram rt k = .ok u ↔ rt.isTokenProgram k := by
  rw [checkTokenProgram, failIf_eq_ok, Decidable.not_not]

theorem getStakeState_eq_ok {a : Account} {r : StakeMeta × Stake} :
    getStakeState a = .ok r ↔ a.data = .stake (.stake r.1 r.2) := by
  obtain ⟨lamports, owner, dataLen, data⟩ := a
  obtain ⟨info, stake⟩ := r
  simp only [getStakeState, Account.tryStakeState, bind_eq_ok]
  cases data with
  | stake s => cases s <;> simp [pure_eq_ok, throw_ne_ok]
  | zeroed => by_cases h : 4 ≤ dataLen <;> simp [h, throw_ne_ok]
  | _ => simp

theorem checkValidatorStakeAddress_eq_ok {pool k vote : Pubkey} {seed : UInt32} {u : Unit} :
    checkValidatorStakeAddress rt pool k vote seed = .ok u ↔
      (findStakeProgramAddress rt vote pool seed).1 = k := by
  rw [checkValidatorStakeAddress, failIf_eq_ok, Decidable.not_not]

theorem checkTransientStakeAddress_eq_ok {pool k vote : Pubkey} {seed : UInt64} {bump : UInt8} :
    checkTransientStakeAddress rt pool k vote seed = .ok bump ↔
      findTransientStakeProgramAddress rt vote pool seed = (k, bump) := by
  simp only [checkTransientStakeAddress, bind_eq_ok, failIf_eq_ok, exists_unit, pure_eq_ok,
    Decidable.not_not, Prod.ext_iff]

namespace StakePool

variable {p : StakePool}

theorem checkAuthorityWithdraw_eq_ok {authority pool : Pubkey} {u : Unit} :
    p.checkAuthorityWithdraw rt authority pool = .ok u ↔
      poolAuthority rt pool authorityWithdraw p.stakeWithdrawBumpSeed = .ok authority := by
  simp only [checkAuthorityWithdraw, bind_eq_ok, failIf_eq_ok, Decidable.not_not]
  constructor
  · rintro ⟨a, ha, rfl⟩
    exact ha
  · intro h
    exact ⟨authority, h, rfl⟩

theorem checkStakeDepositAuthority_eq_ok {authority : Pubkey} {u : Unit} :
    p.checkStakeDepositAuthority authority = .ok u ↔ authority = p.stakeDepositAuthority := by
  rw [checkStakeDepositAuthority, failIf_eq_ok, Decidable.not_not, eq_comm]

theorem checkMint_eq_ok {w : Ledger} {mint : Pubkey} {decimals : UInt8} :
    p.checkMint w mint = .ok decimals ↔
      mint = p.poolMint ∧ ∃ m, (w mint).data = .mint m ∧ m.decimals = decimals := by
  simp only [checkMint, bind_eq_ok, failIf_eq_ok, exists_unit, pure_eq_ok, Decidable.not_not,
    Account.unpackMint_eq_ok]

theorem checkManager_eq_ok {info : AccountMeta} {u : Unit} :
    p.checkManager info = .ok u ↔ info.key = p.manager ∧ info.isSigner = true := by
  simp only [checkManager, bind_eq_ok, failIf_eq_ok, exists_unit, Decidable.not_not,
    Bool.not_eq_false]

theorem checkStaker_eq_ok {info : AccountMeta} {u : Unit} :
    p.checkStaker info = .ok u ↔ info.key = p.staker ∧ info.isSigner = true := by
  simp only [checkStaker, bind_eq_ok, failIf_eq_ok, exists_unit, Decidable.not_not,
    Bool.not_eq_false]

theorem checkValidatorList_eq_ok {k : Pubkey} {u : Unit} :
    p.checkValidatorList k = .ok u ↔ k = p.validatorList := by
  rw [checkValidatorList, failIf_eq_ok, Decidable.not_not]

theorem checkReserveStake_eq_ok {k : Pubkey} {u : Unit} :
    p.checkReserveStake k = .ok u ↔ k = p.reserveStake := by
  rw [checkReserveStake, failIf_eq_ok, Decidable.not_not]

end StakePool

theorem loadStakePool_eq_ok {w : Ledger} {k : Pubkey} {p : StakePool} :
    loadStakePool rt w k = .ok p ↔ PoolAt rt w k p := by
  simp only [loadStakePool, bind_eq_ok, failIf_eq_ok, exists_unit, pure_eq_ok,
    checkAccountOwner_eq_ok, Decidable.not_not]
  constructor
  · rintro ⟨ho, q, hq, hv, rfl⟩
    exact ⟨ho, Account.tryStakePool_valid hq hv, hv⟩
  · rintro ⟨ho, hd, hv⟩
    exact ⟨ho, p, by rw [Account.tryStakePool, hd], hv, rfl⟩

/-- A field of a pool on a concrete ledger. -/
theorem PoolAt.of_load {w : Ledger} {k : Pubkey} {α : Type} (field : StakePool → α) {x : α}
    (h : (loadStakePool rt w k).toOption.map field = some x) : ∃ p, PoolAt rt w k p ∧ field p = x := by
  cases hload : loadStakePool rt w k with
  | error e =>
    rw [hload] at h
    cases h
  | ok p =>
    rw [hload] at h
    exact ⟨p, loadStakePool_eq_ok.mp hload, Option.some.inj h⟩

theorem loadValidatorList_eq_ok {w : Ledger} {k : Pubkey} {l : ValidatorList} :
    loadValidatorList rt w k = .ok l ↔ ListAt rt w k l := by
  simp only [loadValidatorList, bind_eq_ok, failIf_eq_ok, exists_unit, pure_eq_ok,
    checkAccountOwner_eq_ok, Decidable.not_not]
  constructor
  · rintro ⟨ho, q, hq, hv, rfl⟩
    exact ⟨ho, Account.tryValidatorList_valid hq hv, hv⟩
  · rintro ⟨ho, hd, hv⟩
    exact ⟨ho, l, by rw [Account.tryValidatorList, hd], hv, rfl⟩

/-- A field of a validator list on a concrete ledger. -/
theorem ListAt.of_load {w : Ledger} {k : Pubkey} {α : Type} (field : ValidatorList → α) {x : α}
    (h : (loadValidatorList rt w k).toOption.map field = some x) :
    ∃ l, ListAt rt w k l ∧ field l = x := by
  cases hload : loadValidatorList rt w k with
  | error e =>
    rw [hload] at h
    cases h
  | ok l =>
    rw [hload] at h
    exact ⟨l, loadValidatorList_eq_ok.mp hload, Option.some.inj h⟩

theorem PoolAt.unique {w : Ledger} {k : Pubkey} {p q : StakePool} (hp : PoolAt rt w k p)
    (hq : PoolAt rt w k q) : p = q :=
  AccountData.stakePool.inj (hp.data.symm.trans hq.data)

theorem ListAt.unique {w : Ledger} {k : Pubkey} {l m : ValidatorList} (hl : ListAt rt w k l)
    (hm : ListAt rt w k m) : l = m :=
  AccountData.validatorList.inj (hl.data.symm.trans hm.data)

theorem PoolAt.ne_list {w : Ledger} {k j : Pubkey} {p : StakePool} {l : ValidatorList}
    (hp : PoolAt rt w k p) (hl : ListAt rt w j l) : k ≠ j := by
  rintro rfl
  exact AccountData.noConfusion (hp.data.symm.trans hl.data)

end StakePoolFogo
