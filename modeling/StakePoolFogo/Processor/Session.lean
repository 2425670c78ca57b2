import StakePoolFogo.Processor.Deposit
import StakePoolFogo.Processor.Withdraw

/-!
# Wrapped SOL with a session key

`DepositWsolWithSession` unwraps the user's SOL through a transient token account and runs
`DepositSol`; `WithdrawWsolWithSession` runs `WithdrawSol` into the user's wrapped-SOL account.
-/

open StakePoolFogo.Outcome

namespace StakePoolFogo

variable (rt : Runtime) (sv : Sysvars)

/-- `b"transient_wsol"`. -/
def transientWsolSeed : List UInt8 :=
  [116, 114, 97, 110, 115, 105, 101, 110, 116, 95, 119, 115, 111, 108]

/-- `spl_token::state::Account::LEN`. -/
def tokenAccountLen : Nat := 165

def findTransientWsolAddress (user : Pubkey) : Pubkey × UInt8 :=
  rt.findProgramAddress [transientWsolSeed, user.toBytes] rt.programId

/-- `spl_token`'s own program check, narrower than `check_spl_token_program_account`. -/
def checkSplToken (key : Pubkey) : Except ProgramError Unit :=
  failIf (key ≠ rt.splTokenId) .incorrectProgramId

/-- The checks both session handlers make: native mint, owners, and the user's token account.
Returns the user behind the signer. -/
def checkSessionUser (signer : AccountMeta) (wsolMint userWsol tokenProgram : Pubkey) (w : Ledger) :
    Except ProgramError Pubkey := do
  failIf (wsolMint ≠ rt.nativeMintId) .invalidAccountData
  failIf ((w wsolMint).owner ≠ tokenProgram) .invalidAccountData
  failIf ((w userWsol).owner ≠ tokenProgram) .invalidAccountData
  let user ← rt.extractUser sv signer (w signer.key)
  failIf (rt.getAssociatedTokenAddress user wsolMint ≠ userWsol) .invalidAccountData
  return user

theorem checkSplToken_eq_ok {k : Pubkey} {u : Unit} :
    checkSplToken rt k = .ok u ↔ k = rt.splTokenId := by
  rw [checkSplToken, failIf_eq_ok, Decidable.not_not]

theorem checkSessionUser_eq_ok {signer : AccountMeta} {wsolMint userWsol tokenProgram user : Pubkey}
    {w : Ledger} : checkSessionUser rt sv signer wsolMint userWsol tokenProgram w = .ok user ↔
      wsolMint = rt.nativeMintId ∧ (w wsolMint).owner = tokenProgram ∧
        (w userWsol).owner = tokenProgram ∧ rt.extractUser sv signer (w signer.key) = .ok user ∧
        rt.getAssociatedTokenAddress user wsolMint = userWsol := by
  simp only [checkSessionUser, bind_eq_ok, failIf_eq_ok, exists_unit, pure_eq_ok,
    Decidable.not_not]
  constructor
  · rintro ⟨hm, ho, hu, u, he, ha, rfl⟩
    exact ⟨hm, ho, hu, he, ha⟩
  · rintro ⟨hm, ho, hu, he, ha⟩
    exact ⟨hm, ho, hu, user, he, ha, rfl⟩

/-- Create the transient wrapped-SOL account of `user`, owned by the program signer. -/
def createTransientWsol (user wsolMint tokenProgram programSigner : Pubkey)
    (feePayer transientWsol : AccountMeta) (w : Ledger) : Except ProgramError Ledger := do
  let expected := findTransientWsolAddress rt user
  failIf (expected.1 ≠ transientWsol.key) .invalidSeeds
  let derived ← rt.createProgramAddress [transientWsolSeed, user.toBytes, [expected.2]] rt.programId
  requireSigner transientWsol [derived]
  let w ← invokeCreate [rt.systemProgramId] feePayer.key transientWsol.key
    (rt.createPdaAccount sv tokenAccountLen tokenProgram feePayer.isSigner) w
  checkSplToken rt tokenProgram
  invoke₁ [tokenProgram] transientWsol.key
    (rt.token.initializeAccount3 wsolMint programSigner (w wsolMint)) w

/-- Move lamports out of the program signer's account. -/
def programSignerTransfer (signer : AccountMeta) (bump : UInt8) (destination : Pubkey)
    (lamports : Nat) (w : Ledger) : Except ProgramError Ledger := do
  let derived ← rt.createProgramAddress [rt.programSignerSeed, [bump]] rt.programId
  requireSigner signer [derived]
  invokeMove [rt.systemProgramId] signer.key destination (rt.system.transfer lamports) w

/-- Move `lamports` wrapped SOL from the user to the reserve, unwrapping them on the way. -/
def unwrapIntoReserve (tokenProgram userWsol wsolMint : Pubkey)
    (session feePayer transientWsol signer : AccountMeta) (bump : UInt8) (reserve : Pubkey)
    (lamports : Nat) (w : Ledger) : Except ProgramError Ledger := do
  signWithSession rt session signer bump
  let w ← invokeMove [tokenProgram] userWsol transientWsol.key
    (rt.token.transferChecked wsolMint session.key (some signer.key) lamports 9 (w wsolMint)) w
  let balance ← (w transientWsol.key).unpackToken
  failIf (balance.amount ≠ lamports) .invalidAccountData
  checkSplToken rt tokenProgram
  let w ← invoke₂ [tokenProgram] transientWsol.key signer.key (rt.token.closeAccount signer.key) w
  let w ← programSignerTransfer rt signer bump feePayer.key (sv.minimumBalance tokenAccountLen) w
  programSignerTransfer rt signer bump reserve lamports w

def processDepositWsolWithSession (accounts : List AccountMeta) (depositLamports : Nat)
    (w : Ledger) : Except ProgramError Ledger := do
  let stakePoolInfo ← accountAt accounts 0
  let withdrawAuthorityInfo ← accountAt accounts 1
  let reserveStakeInfo ← accountAt accounts 2
  let poolTokensToInfo ← accountAt accounts 3
  let managerFeeInfo ← accountAt accounts 4
  let referrerPoolTokensInfo ← accountAt accounts 5
  let poolMintInfo ← accountAt accounts 6
  let systemProgramInfo ← accountAt accounts 7
  let tokenProgramInfo ← accountAt accounts 8
  let sessionInfo ← accountAt accounts 9
  let wsolMintInfo ← accountAt accounts 10
  let feePayerInfo ← accountAt accounts 11
  let userWsolInfo ← accountAt accounts 12
  let transientWsolInfo ← accountAt accounts 13
  let programSignerInfo ← accountAt accounts 14
  checkSystemProgram rt systemProgramInfo.key
  let user ← checkSessionUser rt sv sessionInfo wsolMintInfo.key userWsolInfo.key
    tokenProgramInfo.key w
  let expected := programSigner rt
  failIf (expected.1 ≠ programSignerInfo.key) .invalidSeeds
  let w ← createTransientWsol rt sv user wsolMintInfo.key tokenProgramInfo.key programSignerInfo.key
    feePayerInfo transientWsolInfo w
  let w ← unwrapIntoReserve rt sv tokenProgramInfo.key userWsolInfo.key wsolMintInfo.key sessionInfo
    feePayerInfo transientWsolInfo programSignerInfo expected.2 reserveStakeInfo.key depositLamports w
  -- The reserve stands in for the paying account, which the wrapped-SOL path does not use.
  let newAccounts := [stakePoolInfo, withdrawAuthorityInfo, reserveStakeInfo, reserveStakeInfo,
    poolTokensToInfo, managerFeeInfo, referrerPoolTokensInfo, poolMintInfo, systemProgramInfo,
    tokenProgramInfo] ++ accounts[15]?.toList
  processDepositSol rt sv newAccounts depositLamports none true w

/-- A successful `DepositWsolWithSession`, taken apart up to the inner `DepositSol`. -/
structure DepositWsolRun (accounts : List AccountMeta) (lamports : Nat) (w w' : Ledger) where
  pool : AccountMeta
  authority : AccountMeta
  reserve : AccountMeta
  poolTokensTo : AccountMeta
  managerFee : AccountMeta
  referrer : AccountMeta
  mint : AccountMeta
  systemProgram : AccountMeta
  tokenProgram : AccountMeta
  session : AccountMeta
  wsolMint : AccountMeta
  feePayer : AccountMeta
  userWsol : AccountMeta
  transientWsol : AccountMeta
  signer : AccountMeta
  user : Pubkey
  created : Ledger
  unwrapped : Ledger
  pool_at : accounts[0]? = some pool
  reserve_at : accounts[2]? = some reserve
  poolTokensTo_at : accounts[3]? = some poolTokensTo
  managerFee_at : accounts[4]? = some managerFee
  referrer_at : accounts[5]? = some referrer
  mint_at : accounts[6]? = some mint
  tokenProgram_at : accounts[8]? = some tokenProgram
  session_at : accounts[9]? = some session
  feePayer_at : accounts[11]? = some feePayer
  userWsol_at : accounts[12]? = some userWsol
  transientWsol_at : accounts[13]? = some transientWsol
  signer_at : accounts[14]? = some signer
  isUser : checkSessionUser rt sv session wsolMint.key userWsol.key tokenProgram.key w = .ok user
  isSigner : (programSigner rt).1 = signer.key
  create : createTransientWsol rt sv user wsolMint.key tokenProgram.key signer.key feePayer
    transientWsol w = .ok created
  unwrap : unwrapIntoReserve rt sv tokenProgram.key userWsol.key wsolMint.key session feePayer
    transientWsol signer (programSigner rt).2 reserve.key lamports created = .ok unwrapped
  deposit : processDepositSol rt sv ([pool, authority, reserve, reserve, poolTokensTo, managerFee,
    referrer, mint, systemProgram, tokenProgram] ++ accounts[15]?.toList) lamports none true
    unwrapped = .ok w'

theorem processDepositWsolWithSession_run {accounts : List AccountMeta} {lamports : Nat}
    {w w' : Ledger} (h : processDepositWsolWithSession rt sv accounts lamports w = .ok w') :
    Nonempty (DepositWsolRun rt sv accounts lamports w w') := by
  simp only [processDepositWsolWithSession, bind_eq_ok, accountAt_eq_ok, exists_unit, failIf_eq_ok,
    checkSystemProgram_eq_ok, Decidable.not_not] at h
  obtain ⟨pool, pool_at, authority, -, reserve, reserve_at, poolTokensTo, poolTokensTo_at,
    managerFee, managerFee_at, referrer, referrer_at, mint, mint_at, systemProgram, -, tokenProgram,
    tokenProgram_at, session, session_at, h⟩ := h
  obtain ⟨wsolMint, -, feePayer, feePayer_at, userWsol, userWsol_at, transientWsol,
    transientWsol_at, signer, signer_at, -, user, isUser, isSigner, created, create, unwrapped,
    unwrap, deposit⟩ := h
  exact ⟨{
    pool, authority, reserve, poolTokensTo, managerFee, referrer, mint, systemProgram, tokenProgram,
    session, wsolMint, feePayer, userWsol, transientWsol, signer, user, created, unwrapped, pool_at,
    reserve_at, poolTokensTo_at, managerFee_at, referrer_at, mint_at, tokenProgram_at, session_at,
    feePayer_at, userWsol_at, transientWsol_at, signer_at, isUser, isSigner, create, unwrap,
    deposit }⟩

/-- The inner deposit, with the accounts it was handed. -/
theorem DepositWsolRun.inner {accounts : List AccountMeta} {lamports : Nat} {w w' : Ledger}
    (r : DepositWsolRun rt sv accounts lamports w w') :
    ∃ d : DepositSolRun rt sv ([r.pool, r.authority, r.reserve, r.reserve, r.poolTokensTo,
        r.managerFee, r.referrer, r.mint, r.systemProgram, r.tokenProgram] ++ accounts[15]?.toList)
        lamports none true r.unwrapped w',
      d.pool = r.pool ∧ d.reserve = r.reserve ∧ d.user = r.poolTokensTo ∧
        d.managerFee = r.managerFee ∧ d.referrer = r.referrer ∧ d.mint = r.mint ∧
        d.tokenProgram = r.tokenProgram := by
  obtain ⟨d⟩ := processDepositSol_run rt sv r.deposit
  exact ⟨d, Option.some.inj (d.pool_at.symm.trans rfl), Option.some.inj (d.reserve_at.symm.trans rfl),
    Option.some.inj (d.user_at.symm.trans rfl), Option.some.inj (d.managerFee_at.symm.trans rfl),
    Option.some.inj (d.referrer_at.symm.trans rfl), Option.some.inj (d.mint_at.symm.trans rfl),
    Option.some.inj (d.tokenProgram_at.symm.trans rfl)⟩

def processWithdrawWsolWithSession (accounts : List AccountMeta) (poolTokens : Nat) (w : Ledger) :
    Except ProgramError Ledger := do
  let stakePoolInfo ← accountAt accounts 0
  let withdrawAuthorityInfo ← accountAt accounts 1
  let sessionInfo ← accountAt accounts 2
  let burnFromPoolInfo ← accountAt accounts 3
  let reserveStakeInfo ← accountAt accounts 4
  let userWsolInfo ← accountAt accounts 5
  let managerFeeInfo ← accountAt accounts 6
  let poolMintInfo ← accountAt accounts 7
  let clockInfo ← accountAt accounts 8
  let stakeHistoryInfo ← accountAt accounts 9
  let stakeProgramInfo ← accountAt accounts 10
  let tokenProgramInfo ← accountAt accounts 11
  let wsolMintInfo ← accountAt accounts 12
  let feePayerInfo ← accountAt accounts 13
  let userOwnerInfo ← accountAt accounts 14
  let systemProgramInfo ← accountAt accounts 15
  let programSignerInfo ← accountAt accounts 16
  let associatedTokenProgramInfo ← accountAt accounts 17
  checkSystemProgram rt systemProgramInfo.key
  failIf (associatedTokenProgramInfo.key ≠ rt.associatedTokenProgramId) .incorrectProgramId
  let user ← checkSessionUser rt sv sessionInfo wsolMintInfo.key userWsolInfo.key
    tokenProgramInfo.key w
  failIf (userOwnerInfo.key ≠ user) .invalidAccountData
  requireSigner feePayerInfo []
  let w ← invokeMove [rt.associatedTokenProgramId, rt.systemProgramId, tokenProgramInfo.key]
    feePayerInfo.key userWsolInfo.key
    (rt.createAssociatedIdempotent user wsolMintInfo.key tokenProgramInfo.key) w
  -- Without a withdraw authority the system program fills its place.
  let newAccounts := [stakePoolInfo, withdrawAuthorityInfo, sessionInfo, burnFromPoolInfo,
    reserveStakeInfo, userWsolInfo, managerFeeInfo, poolMintInfo, clockInfo, stakeHistoryInfo,
    stakeProgramInfo, tokenProgramInfo, accounts[18]?.getD systemProgramInfo, programSignerInfo]
  let w ← processWithdrawSol rt sv newAccounts poolTokens none true w
  checkSplToken rt tokenProgramInfo.key
  invoke₁ [tokenProgramInfo.key] userWsolInfo.key rt.token.syncNative w

/-- A successful `WithdrawWsolWithSession`, taken apart up to the inner `WithdrawSol`. -/
structure WithdrawWsolRun (accounts : List AccountMeta) (poolTokens : Nat) (w w' : Ledger) where
  pool : AccountMeta
  authority : AccountMeta
  session : AccountMeta
  burnFrom : AccountMeta
  reserve : AccountMeta
  userWsol : AccountMeta
  managerFee : AccountMeta
  mint : AccountMeta
  clock : AccountMeta
  history : AccountMeta
  stakeProgram : AccountMeta
  tokenProgram : AccountMeta
  wsolMint : AccountMeta
  feePayer : AccountMeta
  systemProgram : AccountMeta
  signer : AccountMeta
  user : Pubkey
  created : Ledger
  withdrawn : Ledger
  pool_at : accounts[0]? = some pool
  session_at : accounts[2]? = some session
  burnFrom_at : accounts[3]? = some burnFrom
  reserve_at : accounts[4]? = some reserve
  userWsol_at : accounts[5]? = some userWsol
  managerFee_at : accounts[6]? = some managerFee
  mint_at : accounts[7]? = some mint
  tokenProgram_at : accounts[11]? = some tokenProgram
  feePayer_at : accounts[13]? = some feePayer
  isUser : checkSessionUser rt sv session wsolMint.key userWsol.key tokenProgram.key w = .ok user
  create : invokeMove [rt.associatedTokenProgramId, rt.systemProgramId, tokenProgram.key]
    feePayer.key userWsol.key
    (rt.createAssociatedIdempotent user wsolMint.key tokenProgram.key) w = .ok created
  withdraw : processWithdrawSol rt sv [pool, authority, session, burnFrom, reserve, userWsol,
    managerFee, mint, clock, history, stakeProgram, tokenProgram, accounts[18]?.getD systemProgram,
    signer] poolTokens none true created = .ok withdrawn
  token_key : tokenProgram.key = rt.splTokenId
  sync : invoke₁ [tokenProgram.key] userWsol.key rt.token.syncNative withdrawn = .ok w'

theorem processWithdrawWsolWithSession_run {accounts : List AccountMeta} {poolTokens : Nat}
    {w w' : Ledger} (h : processWithdrawWsolWithSession rt sv accounts poolTokens w = .ok w') :
    Nonempty (WithdrawWsolRun rt sv accounts poolTokens w w') := by
  simp only [processWithdrawWsolWithSession, bind_eq_ok, accountAt_eq_ok, exists_unit, failIf_eq_ok,
    checkSystemProgram_eq_ok, checkSplToken_eq_ok, Decidable.not_not] at h
  obtain ⟨pool, pool_at, authority, -, session, session_at, burnFrom, burnFrom_at, reserve,
    reserve_at, userWsol, userWsol_at, managerFee, managerFee_at, mint, mint_at, clock, -, history,
    -, h⟩ := h
  obtain ⟨stakeProgram, -, tokenProgram, tokenProgram_at, wsolMint, -, feePayer, feePayer_at,
    userOwner, -, systemProgram, -, signer, -, associated, -, -, -, user, isUser, h⟩ := h
  obtain ⟨-, -, created, create, withdrawn, withdraw, token_key, sync⟩ := h
  exact ⟨{
    pool, authority, session, burnFrom, reserve, userWsol, managerFee, mint, clock, history,
    stakeProgram, tokenProgram, wsolMint, feePayer, systemProgram, signer, user, created, withdrawn,
    pool_at, session_at, burnFrom_at, reserve_at, userWsol_at, managerFee_at, mint_at,
    tokenProgram_at, feePayer_at, isUser, create, withdraw, token_key, sync }⟩

/-- The inner withdrawal, with the accounts it was handed. -/
theorem WithdrawWsolRun.inner {accounts : List AccountMeta} {poolTokens : Nat} {w w' : Ledger}
    (r : WithdrawWsolRun rt sv accounts poolTokens w w') :
    ∃ d : WithdrawSolRun rt sv [r.pool, r.authority, r.session, r.burnFrom, r.reserve, r.userWsol,
        r.managerFee, r.mint, r.clock, r.history, r.stakeProgram, r.tokenProgram,
        accounts[18]?.getD r.systemProgram, r.signer] poolTokens none true r.created r.withdrawn,
      d.pool = r.pool ∧ d.transferAuthority = r.session ∧ d.burnFrom = r.burnFrom ∧
        d.reserve = r.reserve ∧ d.destination = r.userWsol ∧ d.managerFee = r.managerFee ∧
        d.mint = r.mint ∧ d.tokenProgram = r.tokenProgram := by
  obtain ⟨d⟩ := processWithdrawSol_run rt sv r.withdraw
  exact ⟨d, Option.some.inj (d.pool_at.symm.trans rfl),
    Option.some.inj (d.transferAuthority_at.symm.trans rfl),
    Option.some.inj (d.burnFrom_at.symm.trans rfl), Option.some.inj (d.reserve_at.symm.trans rfl),
    Option.some.inj (d.destination_at.symm.trans rfl),
    Option.some.inj (d.managerFee_at.symm.trans rfl), Option.some.inj (d.mint_at.symm.trans rfl),
    Option.some.inj (d.tokenProgram_at.symm.trans rfl)⟩

end StakePoolFogo
