import StakePoolFogo.Processor.Invoke

/-! `Initialize`: check a new pool's accounts and write its two state accounts. -/

open StakePoolFogo.Checked StakePoolFogo.Outcome

namespace StakePoolFogo

variable (rt : Runtime) (sv : Sysvars)

/-- `native_mint::DECIMALS`. -/
def nativeMintDecimals : UInt8 := 9

/-- The checks of the pool mint. -/
def checkPoolMint (mint : Mint) (withdrawAuthority : Pubkey) : Except ProgramError Unit := do
  failIf (mint.supply ≠ 0) (.custom .nonZeroPoolTokenSupply)
  failIf (mint.decimals ≠ nativeMintDecimals) (.custom .incorrectMintDecimals)
  failIf (mint.mintAuthority ≠ some withdrawAuthority) (.custom .wrongMintingAuthority)
  failIf (mint.freezeAuthority.isSome = true) (.custom .invalidMintFreezeAuthority)
  failIf (mint.extensions.any (!isExtensionSupportedForMint ·) = true)
    (.custom .unsupportedMintExtension)

/-- The lamports of a fresh reserve that count towards the pool. -/
def checkInitialReserve (reserve : Account) (withdrawAuthority : Pubkey) :
    Except ProgramError Nat := do
  failIf (reserve.owner ≠ rt.stakeProgramId) .incorrectProgramId
  match ← reserve.tryStakeState with
  | .initialized info => do
    failIf (info.lockup ≠ default) (.custom .wrongStakeStake)
    failIf (info.authorized.staker ≠ withdrawAuthority) (.custom .wrongStakeStake)
    failIf (info.authorized.withdrawer ≠ withdrawAuthority) (.custom .wrongStakeStake)
    okOr (checkedSub reserve.lamports (minimumReserveLamports info)) (.custom .calculationFailure)
  | _ => throw (.custom .wrongStakeStake)

theorem checkPoolMint_eq_ok {mint : Mint} {authority : Pubkey} {u : Unit}
    (h : checkPoolMint mint authority = .ok u) :
    mint.supply = 0 ∧ mint.mintAuthority = some authority := by
  simp only [checkPoolMint, bind_eq_ok, failIf_eq_ok, exists_unit, Decidable.not_not] at h
  exact ⟨h.1, h.2.2.1⟩

theorem checkInitialReserve_eq_ok {rt : Runtime} {reserve : Account} {authority : Pubkey}
    {total : Nat} (h : checkInitialReserve rt reserve authority = .ok total) :
    reserve.owner = rt.stakeProgramId ∧ ∃ info, reserve.data = .stake (.initialized info) ∧
      stakeIsUsableByPool info authority default ∧
      reserve.lamports = total + minimumReserveLamports info := by
  obtain ⟨n, owner, dataLen, data⟩ := reserve
  simp only [checkInitialReserve, bind_eq_ok, failIf_eq_ok, exists_unit, Decidable.not_not,
    Account.tryStakeState] at h
  obtain ⟨rfl, s, hs, h⟩ := h
  refine ⟨rfl, ?_⟩
  cases data with
  | stake t =>
    cases hs
    cases s with
    | initialized info =>
      simp only [bind_eq_ok, failIf_eq_ok, exists_unit, Decidable.not_not, okOr_eq_ok,
        checkedSub_eq_some] at h
      obtain ⟨hlockup, hstaker, hwithdrawer, htotal⟩ := h
      exact ⟨info, rfl, ⟨hstaker, hwithdrawer, hlockup⟩, htotal⟩
    | _ => simp [throw_ne_ok] at h
  | zeroed =>
    by_cases hlen : 4 ≤ dataLen
    · simp only [hlen, if_true, Except.ok.injEq] at hs
      subst hs
      simp [throw_ne_ok] at h
    · simp [hlen] at hs
  | _ => simp at hs

/-- The deposit authorities of the new pool: the optional tenth account, or the derived address. -/
def initialDepositAuthorities (accounts : List AccountMeta) (pool : Pubkey) :
    Pubkey × Option Pubkey :=
  match accountAt accounts 9 with
  | .ok info => (info.key, some info.key)
  | .error _ => ((findDepositAuthorityProgramAddress rt pool).1, none)

/-- The fields `Initialize` fills in; mint and token program are set already. -/
def newStakePool (p : StakePool) (manager staker : Pubkey)
    (depositAuthorities : Pubkey × Option Pubkey) (bump : UInt8)
    (validatorList reserveStake managerFee : Pubkey) (totalLamports : Nat) (epoch : Epoch)
    (epochFee withdrawalFee depositFee : Fee) (referralFee : UInt8) : StakePool :=
  { p with
    accountType := .stakePool
    manager := manager
    staker := staker
    stakeDepositAuthority := depositAuthorities.1
    stakeWithdrawBumpSeed := bump
    validatorList := validatorList
    reserveStake := reserveStake
    managerFeeAccount := managerFee
    totalLamports := totalLamports
    poolTokenSupply := totalLamports
    lastUpdateEpoch := epoch
    lockup := default
    epochFee := epochFee
    nextEpochFee := .none
    preferredDepositValidatorVoteAddress := none
    preferredWithdrawValidatorVoteAddress := none
    stakeDepositFee := depositFee
    stakeWithdrawalFee := withdrawalFee
    nextStakeWithdrawalFee := .none
    stakeReferralFee := referralFee
    solDepositAuthority := depositAuthorities.2
    solDepositFee := depositFee
    solReferralFee := referralFee
    solWithdrawAuthority := none
    solWithdrawalFee := withdrawalFee
    nextSolWithdrawalFee := .none
    lastEpochPoolTokenSupply := 0
    lastEpochTotalLamports := 0 }

def processInitialize (accounts : List AccountMeta) (epochFee withdrawalFee depositFee : Fee)
    (referralFee : UInt8) (maxValidators : UInt32) (w : Ledger) : Except ProgramError Ledger := do
  let stakePoolInfo ← accountAt accounts 0
  let managerInfo ← accountAt accounts 1
  let stakerInfo ← accountAt accounts 2
  let withdrawAuthorityInfo ← accountAt accounts 3
  let validatorListInfo ← accountAt accounts 4
  let reserveStakeInfo ← accountAt accounts 5
  let poolMintInfo ← accountAt accounts 6
  let managerFeeInfo ← accountAt accounts 7
  let tokenProgramInfo ← accountAt accounts 8
  failIf (managerInfo.isSigner = false) (.custom .signatureMissing)
  failIf (stakePoolInfo.key = validatorListInfo.key) (.custom .alreadyInUse)
  checkAccountOwner (w stakePoolInfo.key) rt.programId
  let stakePool ← (w stakePoolInfo.key).tryStakePool
  failIf (¬ stakePool.isUninitialized) (.custom .alreadyInUse)
  checkAccountOwner (w validatorListInfo.key) rt.programId
  let validatorList ← (w validatorListInfo.key).tryValidatorList
  failIf (¬ validatorList.header.isUninitialized) (.custom .alreadyInUse)
  let expectedMaxValidators :=
    ValidatorList.calculateMaxValidators (w validatorListInfo.key).dataLen
  failIf (expectedMaxValidators ≠ maxValidators.toNat ∨ maxValidators = 0)
    (.custom .unexpectedValidatorListAccountSize)
  failIf (maxValidators.toNat > maxValidatorsInPool) (.custom .tooManyValidatorsInPool)
  failIf ((w stakePoolInfo.key).lamports < sv.minimumBalance (w stakePoolInfo.key).dataLen)
    .accountNotRentExempt
  failIf ((w validatorListInfo.key).lamports < sv.minimumBalance (w validatorListInfo.key).dataLen)
    .accountNotRentExempt
  failIf (epochFee.numerator > epochFee.denominator ∨
    withdrawalFee.numerator > withdrawalFee.denominator ∨
    depositFee.numerator > depositFee.denominator ∨ referralFee > 100) (.custom .feeTooHigh)
  checkTokenProgram rt tokenProgramInfo.key
  failIf ((w poolMintInfo.key).owner ≠ tokenProgramInfo.key) .incorrectProgramId
  let stakePool := { stakePool with
    tokenProgramId := tokenProgramInfo.key, poolMint := poolMintInfo.key }
  let depositAuthorities := initialDepositAuthorities rt accounts stakePoolInfo.key
  let withdrawAuthority := findWithdrawAuthorityProgramAddress rt stakePoolInfo.key
  failIf (withdrawAuthority.1 ≠ withdrawAuthorityInfo.key) (.custom .invalidProgramAddress)
  let poolMint ← (w poolMintInfo.key).unpackMint
  checkPoolMint poolMint withdrawAuthority.1
  stakePool.checkManagerFeeInfo (w managerFeeInfo.key)
  let totalLamports ← checkInitialReserve rt (w reserveStakeInfo.key) withdrawAuthority.1
  let w ← onlyIf (totalLamports > 0)
    (tokenMintTo rt stakePoolInfo.key tokenProgramInfo.key poolMintInfo.key managerFeeInfo.key
      withdrawAuthorityInfo withdrawAuthority.2 totalLamports) w
  let w := writeValidatorList w validatorListInfo.key
    { header := { accountType := .validatorList, maxValidators }, validators := [] }
  writeStakePool w stakePoolInfo.key (newStakePool stakePool managerInfo.key stakerInfo.key
    depositAuthorities withdrawAuthority.2 validatorListInfo.key reserveStakeInfo.key
    managerFeeInfo.key totalLamports sv.epoch epochFee withdrawalFee depositFee referralFee)

/-- A successful `Initialize`, taken apart. -/
structure InitializeRun (accounts : List AccountMeta) (epochFee withdrawalFee depositFee : Fee)
    (referralFee : UInt8) (maxValidators : UInt32) (w w' : Ledger) where
  pool : AccountMeta
  manager : AccountMeta
  staker : AccountMeta
  authority : AccountMeta
  list : AccountMeta
  reserve : AccountMeta
  mint : AccountMeta
  managerFee : AccountMeta
  tokenProgram : AccountMeta
  old : StakePool
  oldList : ValidatorList
  poolMint : Mint
  total : Nat
  minted : Ledger
  pool_at : accounts[0]? = some pool
  list_at : accounts[4]? = some list
  list_ne : list.key ≠ pool.key
  pool_owner : (w pool.key).owner = rt.programId
  pool_data : (w pool.key).tryStakePool = .ok old
  pool_new : old.isUninitialized
  list_owner : (w list.key).owner = rt.programId
  list_data : (w list.key).tryValidatorList = .ok oldList
  list_new : oldList.header.isUninitialized
  capacity : ValidatorList.calculateMaxValidators (w list.key).dataLen = maxValidators.toNat
  max_ne : maxValidators ≠ 0
  max_le : maxValidators.toNat ≤ maxValidatorsInPool
  fees : epochFee.numerator ≤ epochFee.denominator ∧
    withdrawalFee.numerator ≤ withdrawalFee.denominator ∧
    depositFee.numerator ≤ depositFee.denominator ∧ referralFee ≤ 100
  isToken : rt.isTokenProgram tokenProgram.key
  mint_owner : (w mint.key).owner = tokenProgram.key
  isAuthority : (findWithdrawAuthorityProgramAddress rt pool.key).1 = authority.key
  mint_data : (w mint.key).data = .mint poolMint
  mint_ok : poolMint.supply = 0 ∧ poolMint.mintAuthority = some authority.key
  reserve_ok : checkInitialReserve rt (w reserve.key) authority.key = .ok total
  mint_initial : onlyIf (total > 0) (tokenMintTo rt pool.key tokenProgram.key mint.key
    managerFee.key authority (findWithdrawAuthorityProgramAddress rt pool.key).2 total) w = .ok minted
  result : writeStakePool (writeValidatorList minted list.key
      { header := { accountType := .validatorList, maxValidators }, validators := [] }) pool.key
    (newStakePool { old with tokenProgramId := tokenProgram.key, poolMint := mint.key }
      manager.key staker.key (initialDepositAuthorities rt accounts pool.key)
      (findWithdrawAuthorityProgramAddress rt pool.key).2 list.key reserve.key managerFee.key total
      sv.epoch epochFee withdrawalFee depositFee referralFee) = .ok w'

theorem processInitialize_run {accounts : List AccountMeta} {epochFee withdrawalFee depositFee : Fee}
    {referralFee : UInt8} {maxValidators : UInt32} {w w' : Ledger}
    (h : processInitialize rt sv accounts epochFee withdrawalFee depositFee referralFee maxValidators
      w = .ok w') :
    Nonempty (InitializeRun rt sv accounts epochFee withdrawalFee depositFee referralFee
      maxValidators w w') := by
  simp only [processInitialize, bind_eq_ok, accountAt_eq_ok, exists_unit, failIf_eq_ok,
    checkAccountOwner_eq_ok, checkTokenProgram_eq_ok, Account.unpackMint_eq_ok,
    Decidable.not_not] at h
  obtain ⟨pool, pool_at, manager, -, staker, -, authority, -, list, list_at, reserve, -, mint, -,
    managerFee, -, tokenProgram, -, -, list_ne, h⟩ := h
  obtain ⟨pool_owner, old, pool_data, pool_new, list_owner, oldList, list_data, list_new, capacity,
    max_le, -, -, fees, isToken, mint_owner, isAuthority, poolMint, mint_data, mint_ok, -, total,
    reserve_ok, minted, mint_initial, result⟩ := h
  simp only [not_or, gt_iff_lt, UInt64.not_lt, UInt8.not_lt] at fees
  rw [isAuthority] at mint_ok reserve_ok
  exact ⟨{
    pool, manager, staker, authority, list, reserve, mint, managerFee, tokenProgram, old, oldList,
    poolMint, total, minted, pool_at, list_at, pool_owner, pool_data, pool_new, list_owner,
    list_data, list_new, fees, isToken, mint_owner, isAuthority, mint_data, reserve_ok, mint_initial,
    result
    list_ne := fun heq => list_ne heq.symm
    capacity := Decidable.not_not.mp fun hne => capacity (.inl hne)
    max_ne := fun heq => capacity (.inr heq)
    max_le := Nat.not_lt.mp max_le
    mint_ok := checkPoolMint_eq_ok mint_ok }⟩

end StakePoolFogo
