import StakePoolFogo.Processor.Invoke
import StakePoolFogo.Processor.Validators

/-! `WithdrawStake` and `WithdrawSol`, with and without slippage bounds. -/

open StakePoolFogo.Checked StakePoolFogo.Outcome

namespace StakePoolFogo

variable (rt : Runtime) (sv : Sysvars)

/-- The withdrawal fee `fee`, waived for the manager and when the fee account is unusable. -/
def withdrawalFee (p : StakePool) (fee : Option Nat) (burnFrom : Pubkey) (managerFee : Account) :
    Except ProgramError Nat :=
  if p.managerFeeAccount = burnFrom ∨ succeeded (p.checkManagerFeeInfo managerFee) = false then .ok 0
  else okOr fee (.custom .calculationFailure)

/-- The tokens a withdrawal burns and the lamports they are worth. -/
structure WithdrawalQuote where
  fee : Nat
  burnt : Nat
  lamports : Nat
deriving DecidableEq, Repr

def quoteWithdrawal (p : StakePool) (poolTokens fee : Nat) (minimumLamportsOut : Option Nat) :
    Except ProgramError WithdrawalQuote := do
  let burnt ← okOr (checkedSub poolTokens fee) (.custom .calculationFailure)
  let lamports ← okOr (p.calcLamportsWithdrawAmount burnt) (.custom .calculationFailure)
  failIf (lamports = 0) (.custom .withdrawalTooSmall)
  failIf (∃ m ∈ minimumLamportsOut, lamports < m) (.custom .exceededSlippage)
  return { fee, burnt, lamports }

theorem quoteWithdrawal_eq_ok {p : StakePool} {poolTokens fee : Nat} {minimum : Option Nat}
    {quote : WithdrawalQuote} (h : quoteWithdrawal p poolTokens fee minimum = .ok quote) :
    quote.fee = fee ∧ poolTokens = quote.burnt + fee ∧
      p.calcLamportsWithdrawAmount quote.burnt = some quote.lamports ∧ 0 < quote.lamports := by
  simp only [quoteWithdrawal, bind_eq_ok, okOr_eq_ok, failIf_eq_ok, exists_unit, pure_eq_ok,
    checkedSub_eq_some] at h
  obtain ⟨burnt, hburnt, lamports, hlamports, hpos, -, rfl⟩ := h
  exact ⟨rfl, hburnt, hlamports, Nat.pos_of_ne_zero hpos⟩

/-- Book a withdrawal: `tokens` were burnt for `lamports`. -/
def StakePool.recordWithdrawal (p : StakePool) (tokens lamports : Nat) :
    Except ProgramError StakePool := do
  let poolTokenSupply ← okOr (checkedSub p.poolTokenSupply tokens) (.custom .calculationFailure)
  let totalLamports ← okOr (checkedSub p.totalLamports lamports) (.custom .calculationFailure)
  return { p with poolTokenSupply, totalLamports }

theorem StakePool.recordWithdrawal_eq_ok {p p' : StakePool} {tokens lamports : Nat} :
    p.recordWithdrawal tokens lamports = .ok p' ↔
      p' = { p with
        poolTokenSupply := p.poolTokenSupply - tokens
        totalLamports := p.totalLamports - lamports } ∧
      tokens ≤ p.poolTokenSupply ∧ lamports ≤ p.totalLamports := by
  simp only [recordWithdrawal, bind_eq_ok, okOr_eq_ok, pure_eq_ok, checkedSub_eq_some]
  constructor
  · rintro ⟨s, hs, t, ht, rfl⟩
    have hs' : p.poolTokenSupply - tokens = s := by omega
    have ht' : p.totalLamports - lamports = t := by omega
    exact ⟨by rw [hs', ht'], by omega, by omega⟩
  · rintro ⟨rfl, hs, ht⟩
    exact ⟨_, (Nat.sub_add_cancel hs).symm, _, (Nat.sub_add_cancel ht).symm, rfl⟩

/-! ## `WithdrawStake` -/

/-- The limits a stake withdrawal is measured against. -/
structure WithdrawLimits where
  required : Nat
  lamportsPerPoolToken : Nat
  tolerance : Nat
  hasActiveStake : Bool
  hasTransientStake : Bool

def withdrawLimits (p : StakePool) (l : ValidatorList) (info : StakeMeta) :
    Except ProgramError WithdrawLimits := do
  let required := minimumStakeLamports info sv.stakeMinimumDelegation
  let lamportsPerPoolToken ← okOr p.getLamportsPerPoolToken (.custom .calculationFailure)
  let tolerance := saturatingAdd 64 required lamportsPerPoolToken
  return {
    required, lamportsPerPoolToken, tolerance
    hasActiveStake := l.validators.any fun v => v.activeLamportsGreaterThan tolerance && v.isActive
    hasTransientStake :=
      l.validators.any fun v => v.transientLamportsGreaterThan tolerance && v.isActive }

/-- The reserve is only for when no validator stake is left to take. -/
def checkReserveWithdrawal (limits : WithdrawLimits) (info : StakeMeta) (reserveLamports lamports : Nat) :
    Except ProgramError Unit := do
  failIf (limits.hasTransientStake = true ∨ limits.hasActiveStake = true)
    (.custom .stakeLamportsNotEqualToMinimum)
  failIf (reserveLamports - lamports < minimumReserveLamports info) (.custom .solWithdrawalTooLarge)

/-- A listed preferred validator with stake to spare must be used first. -/
def checkPreferredWithdraw (p : StakePool) (l : ValidatorList) (tolerance : Nat) (vote : Pubkey) :
    Except ProgramError Unit :=
  match p.preferredWithdrawValidatorVoteAddress with
  | none => .ok ()
  | some preferred =>
    match l.find preferred with
    | none => .ok ()
    | some v =>
      failIf (preferred ≠ vote ∧ v.activeStakeLamports - tolerance > 0)
        (.custom .incorrectWithdrawVoteAddress)

/-- Active stake first, then transient stake, and only then the whole validator account. -/
def withdrawSource (pool splitFrom vote : Pubkey) (limits : WithdrawLimits)
    (v : ValidatorStakeInfo) : Except ProgramError StakeWithdrawSource :=
  if limits.hasActiveStake then do
    checkValidatorStakeAddress rt pool splitFrom vote v.validatorSeedSuffix
    return .active
  else if limits.hasTransientStake = true ∨ v.transientStakeLamports ≠ 0 then do
    let _ ← checkTransientStakeAddress rt pool splitFrom vote v.transientSeedSuffix
    return .transient
  else do
    checkValidatorStakeAddress rt pool splitFrom vote v.validatorSeedSuffix
    return .validatorRemoval

/-- The lamports to split off.  A whole account is withdrawn exactly, within one pool token. -/
def withdrawSize (limits : WithdrawLimits) (source : StakeWithdrawSource)
    (splitFromLamports lamports : Nat) : Except ProgramError Nat :=
  match source with
  | .validatorRemoval => do
    failIf (lamports < splitFromLamports ∨
      lamports > saturatingAdd 64 splitFromLamports limits.lamportsPerPoolToken)
      (.custom .stakeLamportsNotEqualToMinimum)
    return splitFromLamports
  | .active | .transient => do
    failIf (splitFromLamports - lamports < limits.required) (.custom .stakeLamportsNotEqualToMinimum)
    return lamports

/-- Where the lamports come from: the entry (`none` for the reserve), how many, and the pool with
its preferred validators reset. -/
structure WithdrawPlan where
  stakePool : StakePool
  lamports : Nat
  item : Option (ValidatorStakeInfo × StakeWithdrawSource)

def planWithdrawal (pool splitFrom : Pubkey) (p : StakePool) (l : ValidatorList)
    (state : StakeStateV2) (info : StakeMeta) (splitFromLamports lamports : Nat) :
    Except ProgramError WithdrawPlan := do
  let limits ← withdrawLimits sv p l info
  (if splitFrom = p.reserveStake then do
    checkReserveWithdrawal limits info splitFromLamports lamports
    return { stakePool := p, lamports, item := none }
  else do
    let delegation ← okOr state.delegation? (.custom .wrongStakeStake)
    let vote := delegation.voterPubkey
    checkPreferredWithdraw p l limits.tolerance vote
    let v ← okOr (l.find vote) (.custom .validatorNotFound)
    let source ← withdrawSource rt pool splitFrom vote limits v
    failIf (v.status ≠ StakeStatus.active.toPod) (.custom .validatorNotFound)
    let lamports ← withdrawSize limits source splitFromLamports lamports
    return {
      stakePool := if source = .validatorRemoval then p.forgetPreferred vote else p
      lamports
      item := some (v, source) })

/-- What a plan can be: the reserve, a part of an entry's active or transient stake, or all of its
active stake. -/
inductive PlanCases (pool splitFrom : Pubkey) (p : StakePool) (l : ValidatorList)
    (state : StakeStateV2) (info : StakeMeta) (splitFromLamports lamports : Nat) :
    WithdrawPlan → Prop where
  | reserve (isReserve : splitFrom = p.reserveStake)
      (enough : minimumReserveLamports info ≤ splitFromLamports - lamports) :
      PlanCases pool splitFrom p l state info splitFromLamports lamports
        { stakePool := p, lamports, item := none }
  | active (v : ValidatorStakeInfo) (d : Delegation) (notReserve : splitFrom ≠ p.reserveStake)
      (delegation : state.delegation? = some d) (found : l.find d.voterPubkey = some v)
      (status : v.status = StakeStatus.active.toPod)
      (key : (findStakeProgramAddress rt d.voterPubkey pool v.validatorSeedSuffix).1 = splitFrom)
      (enough : minimumStakeLamports info sv.stakeMinimumDelegation ≤ splitFromLamports - lamports) :
      PlanCases pool splitFrom p l state info splitFromLamports lamports
        { stakePool := p, lamports, item := some (v, .active) }
  | transient (v : ValidatorStakeInfo) (d : Delegation) (notReserve : splitFrom ≠ p.reserveStake)
      (delegation : state.delegation? = some d) (found : l.find d.voterPubkey = some v)
      (status : v.status = StakeStatus.active.toPod)
      (key : (findTransientStakeProgramAddress rt d.voterPubkey pool v.transientSeedSuffix).1 =
        splitFrom)
      (enough : minimumStakeLamports info sv.stakeMinimumDelegation ≤ splitFromLamports - lamports) :
      PlanCases pool splitFrom p l state info splitFromLamports lamports
        { stakePool := p, lamports, item := some (v, .transient) }
  | removal (v : ValidatorStakeInfo) (d : Delegation) (notReserve : splitFrom ≠ p.reserveStake)
      (delegation : state.delegation? = some d) (found : l.find d.voterPubkey = some v)
      (status : v.status = StakeStatus.active.toPod)
      (key : (findStakeProgramAddress rt d.voterPubkey pool v.validatorSeedSuffix).1 = splitFrom)
      (noTransient : v.transientStakeLamports = 0) (whole : splitFromLamports ≤ lamports) :
      PlanCases pool splitFrom p l state info splitFromLamports lamports
        { stakePool := p.forgetPreferred d.voterPubkey, lamports := splitFromLamports,
          item := some (v, .validatorRemoval) }

theorem planWithdrawal_cases {pool splitFrom : Pubkey} {p : StakePool} {l : ValidatorList}
    {state : StakeStateV2} {info : StakeMeta} {splitFromLamports lamports : Nat}
    {plan : WithdrawPlan}
    (h : planWithdrawal rt sv pool splitFrom p l state info splitFromLamports lamports = .ok plan) :
    PlanCases rt sv pool splitFrom p l state info splitFromLamports lamports plan := by
  simp only [planWithdrawal, withdrawLimits, bind_eq_ok, okOr_eq_ok, pure_eq_ok] at h
  obtain ⟨limits, ⟨perToken, -, rfl⟩, h⟩ := h
  by_cases hr : splitFrom = p.reserveStake
  · simp only [if_pos hr, bind_eq_ok, checkReserveWithdrawal, failIf_eq_ok, exists_unit,
      pure_eq_ok, Nat.not_lt] at h
    obtain ⟨⟨-, henough⟩, rfl⟩ := h
    exact .reserve hr henough
  · simp only [if_neg hr, bind_eq_ok, okOr_eq_ok, failIf_eq_ok, exists_unit, pure_eq_ok,
      Decidable.not_not] at h
    obtain ⟨d, hd, -, v, hfound, source, hsource, hstatus, size, hsize, rfl⟩ := h
    -- The three sources, in the order the program tries them.
    unfold withdrawSource at hsource
    split at hsource
    · simp only [bind_eq_ok, exists_unit, checkValidatorStakeAddress_eq_ok, pure_eq_ok] at hsource
      obtain ⟨hkey, rfl⟩ := hsource
      simp only [withdrawSize, bind_eq_ok, failIf_eq_ok, exists_unit, pure_eq_ok, Nat.not_lt] at hsize
      obtain ⟨henough, rfl⟩ := hsize
      exact .active v d hr hd hfound hstatus hkey henough
    · split at hsource
      · simp only [bind_eq_ok, checkTransientStakeAddress_eq_ok, pure_eq_ok] at hsource
        obtain ⟨bump, hkey, rfl⟩ := hsource
        simp only [withdrawSize, bind_eq_ok, failIf_eq_ok, exists_unit, pure_eq_ok, Nat.not_lt]
          at hsize
        obtain ⟨henough, rfl⟩ := hsize
        exact .transient v d hr hd hfound hstatus (by rw [hkey]) henough
      · rename_i hnone
        simp only [bind_eq_ok, exists_unit, checkValidatorStakeAddress_eq_ok, pure_eq_ok] at hsource
        obtain ⟨hkey, rfl⟩ := hsource
        simp only [withdrawSize, bind_eq_ok, failIf_eq_ok, exists_unit, pure_eq_ok] at hsize
        obtain ⟨hwhole, rfl⟩ := hsize
        have hzero : v.transientStakeLamports = 0 :=
          Decidable.not_not.mp fun hne => hnone (Or.inr hne)
        exact .removal v d hr hd hfound hstatus hkey hzero (by omega)

/-- Book a withdrawal of `lamports` on the entry they came from. -/
def recordStakeWithdrawal (v : ValidatorStakeInfo) (source : StakeWithdrawSource) (lamports : Nat) :
    Except ProgramError ValidatorStakeInfo :=
  match source with
  | .active => do
    let rest ← okOr (checkedSub v.activeStakeLamports lamports) (.custom .calculationFailure)
    return { v with activeStakeLamports := rest }
  | .transient => do
    let rest ← okOr (checkedSub v.transientStakeLamports lamports) (.custom .calculationFailure)
    return { v with transientStakeLamports := rest }
  | .validatorRemoval => do
    let rest ← okOr (checkedSub v.activeStakeLamports lamports) (.custom .calculationFailure)
    failIf (rest ≠ 0) (.custom .stakeListAndPoolOutOfDate)
    return { v with activeStakeLamports := rest, status := StakeStatus.readyForRemoval.toPod }

/-- Book the withdrawal in the list; the reserve has no entry. -/
def writeWithdrawal (listKey : Pubkey) (l : ValidatorList) (plan : WithdrawPlan) (w : Ledger) :
    Except ProgramError Ledger :=
  match plan.item with
  | none => .ok w
  | some (v, source) => do
    let v' ← recordStakeWithdrawal v source plan.lamports
    return writeValidatorList w listKey (l.modify v.voteAccountAddress fun _ => v')

/-- What `writeWithdrawal` makes of the list. -/
def WithdrawPlan.Books (plan : WithdrawPlan) (l l' : ValidatorList) : Prop :=
  plan.item = none ∧ l' = l ∨ ∃ v source v', plan.item = some (v, source) ∧
    recordStakeWithdrawal v source plan.lamports = .ok v' ∧
    l' = l.modify v.voteAccountAddress fun _ => v'

def processWithdrawStake (accounts : List AccountMeta) (poolTokens : Nat)
    (minimumLamportsOut : Option Nat) (w : Ledger) : Except ProgramError Ledger := do
  let stakePoolInfo ← accountAt accounts 0
  let validatorListInfo ← accountAt accounts 1
  let withdrawAuthorityInfo ← accountAt accounts 2
  let stakeSplitFrom ← accountAt accounts 3
  let stakeSplitTo ← accountAt accounts 4
  let userStakeAuthorityInfo ← accountAt accounts 5
  let userTransferAuthorityInfo ← accountAt accounts 6
  let burnFromPoolInfo ← accountAt accounts 7
  let managerFeeInfo ← accountAt accounts 8
  let poolMintInfo ← accountAt accounts 9
  let clockInfo ← accountAt accounts 10
  checkSysvar clockInfo rt.clockId
  let tokenProgramInfo ← accountAt accounts 11
  let stakeProgramInfo ← accountAt accounts 12
  checkStakeProgram rt stakeProgramInfo.key
  let stakePool ← loadStakePool rt w stakePoolInfo.key
  let decimals ← stakePool.checkMint w poolMintInfo.key
  stakePool.checkValidatorList validatorListInfo.key
  stakePool.checkAuthorityWithdraw rt withdrawAuthorityInfo.key stakePoolInfo.key
  failIf (stakePool.managerFeeAccount ≠ managerFeeInfo.key) (.custom .invalidFeeAccount)
  failIf (stakePool.tokenProgramId ≠ tokenProgramInfo.key) .incorrectProgramId
  failIf (stakePool.lastUpdateEpoch < sv.epoch) (.custom .stakeListAndPoolOutOfDate)
  let validatorList ← loadValidatorList rt w validatorListInfo.key
  let fee ← withdrawalFee stakePool (stakePool.calcPoolTokensStakeWithdrawalFee poolTokens)
    burnFromPoolInfo.key (w managerFeeInfo.key)
  let quote ← quoteWithdrawal stakePool poolTokens fee minimumLamportsOut
  let state ← (w stakeSplitFrom.key).tryStakeState
  let info ← okOr state.meta? (.custom .wrongStakeStake)
  let plan ← planWithdrawal rt sv stakePoolInfo.key stakeSplitFrom.key stakePool validatorList state
    info (w stakeSplitFrom.key).lamports quote.lamports
  let w ← tokenBurn rt tokenProgramInfo.key burnFromPoolInfo.key poolMintInfo.key
    userTransferAuthorityInfo quote.burnt w
  let w ← stakeSplit rt sv stakePoolInfo.key stakeSplitFrom.key withdrawAuthorityInfo
    stakePool.stakeWithdrawBumpSeed plan.lamports stakeSplitTo.key w
  let w ← stakeAuthorizeSigned rt sv stakePoolInfo.key stakeSplitTo.key withdrawAuthorityInfo
    authorityWithdraw stakePool.stakeWithdrawBumpSeed userStakeAuthorityInfo.key clockInfo.key w
  let w ← onlyIf (quote.fee > 0)
    (tokenTransfer rt tokenProgramInfo.key burnFromPoolInfo.key poolMintInfo.key managerFeeInfo.key
      userTransferAuthorityInfo quote.fee decimals) w
  let stakePool ← plan.stakePool.recordWithdrawal quote.burnt plan.lamports
  let w ← writeStakePool w stakePoolInfo.key stakePool
  writeWithdrawal validatorListInfo.key validatorList plan w

/-- A successful `WithdrawStake`, taken apart. -/
structure WithdrawStakeRun (accounts : List AccountMeta) (poolTokens : Nat) (minimum : Option Nat)
    (w w' : Ledger) where
  pool : AccountMeta
  list : AccountMeta
  authority : AccountMeta
  splitFrom : AccountMeta
  splitTo : AccountMeta
  newAuthority : AccountMeta
  transferAuthority : AccountMeta
  burnFrom : AccountMeta
  managerFee : AccountMeta
  mint : AccountMeta
  clock : AccountMeta
  tokenProgram : AccountMeta
  p : StakePool
  p' : StakePool
  l : ValidatorList
  decimals : UInt8
  fee : Nat
  quote : WithdrawalQuote
  state : StakeStateV2
  info : StakeMeta
  plan : WithdrawPlan
  burnt : Ledger
  split : Ledger
  handed : Ledger
  charged : Ledger
  written : Ledger
  pool_at : accounts[0]? = some pool
  splitFrom_at : accounts[3]? = some splitFrom
  splitTo_at : accounts[4]? = some splitTo
  isPool : PoolAt rt w pool.key p
  mint_key : mint.key = p.poolMint
  list_key : list.key = p.validatorList
  isAuthority : poolAuthority rt pool.key authorityWithdraw p.stakeWithdrawBumpSeed =
    .ok authority.key
  token_key : tokenProgram.key = p.tokenProgramId
  upToDate : ¬ p.lastUpdateEpoch < sv.epoch
  isList : ListAt rt w list.key l
  quote_eq : quoteWithdrawal p poolTokens fee minimum = .ok quote
  state_eq : (w splitFrom.key).tryStakeState = .ok state
  meta_eq : state.meta? = some info
  plan_eq : planWithdrawal rt sv pool.key splitFrom.key p l state info (w splitFrom.key).lamports
    quote.lamports = .ok plan
  burn : tokenBurn rt tokenProgram.key burnFrom.key mint.key transferAuthority quote.burnt w =
    .ok burnt
  splitOff : stakeSplit rt sv pool.key splitFrom.key authority p.stakeWithdrawBumpSeed plan.lamports
    splitTo.key burnt = .ok split
  handOver : stakeAuthorizeSigned rt sv pool.key splitTo.key authority authorityWithdraw
    p.stakeWithdrawBumpSeed newAuthority.key clock.key split = .ok handed
  charge : onlyIf (quote.fee > 0) (tokenTransfer rt tokenProgram.key burnFrom.key mint.key
    managerFee.key transferAuthority quote.fee decimals) handed = .ok charged
  record : plan.stakePool.recordWithdrawal quote.burnt plan.lamports = .ok p'
  write : writeStakePool charged pool.key p' = .ok written
  result : writeWithdrawal list.key l plan written = .ok w'

/-- The run of a successful `WithdrawStake`, with the fee it charges. -/
theorem processWithdrawStake_charged {accounts : List AccountMeta} {poolTokens : Nat}
    {minimum : Option Nat} {w w' : Ledger}
    (h : processWithdrawStake rt sv accounts poolTokens minimum w = .ok w') :
    ∃ r : WithdrawStakeRun rt sv accounts poolTokens minimum w w',
      accounts[7]? = some r.burnFrom ∧ accounts[8]? = some r.managerFee ∧
      withdrawalFee r.p (r.p.calcPoolTokensStakeWithdrawalFee poolTokens) r.burnFrom.key
        (w r.managerFee.key) = .ok r.fee := by
  simp only [processWithdrawStake, bind_eq_ok, accountAt_eq_ok, exists_unit, failIf_eq_ok,
    checkSysvar_eq_ok, checkStakeProgram_eq_ok, loadStakePool_eq_ok,
    StakePool.checkAuthorityWithdraw_eq_ok, StakePool.checkMint_eq_ok,
    StakePool.checkValidatorList_eq_ok, loadValidatorList_eq_ok, okOr_eq_ok, Decidable.not_not] at h
  obtain ⟨pool, pool_at, list, -, authority, -, splitFrom, splitFrom_at, splitTo, splitTo_at,
    newAuthority, -, transferAuthority, -, burnFrom, burnFrom_at, managerFee, managerFee_at, mint, -,
    h⟩ := h
  obtain ⟨clock, -, -, tokenProgram, -, program, -, -, p, isPool, decimals, ⟨mint_key, -⟩, list_key,
    isAuthority, -, token_key, upToDate, l, isList, fee, h⟩ := h
  obtain ⟨fee_eq, quote, quote_eq, state, state_eq, info, meta_eq, plan, plan_eq, burnt, burn, split,
    splitOff, handed, handOver, charged, charge, p', record, written, write, result⟩ := h
  exact ⟨{
    pool, list, authority, splitFrom, splitTo, newAuthority, transferAuthority, burnFrom, managerFee,
    mint, clock, tokenProgram, p, p', l, decimals, fee, quote, state, info, plan, burnt, split,
    handed, charged, written, pool_at, splitFrom_at, splitTo_at, isPool, mint_key, list_key,
    isAuthority, upToDate, isList, quote_eq, state_eq, meta_eq, plan_eq, burn, splitOff, handOver,
    charge, record, write, result
    token_key := token_key.symm }, burnFrom_at, managerFee_at, fee_eq⟩

theorem processWithdrawStake_run {accounts : List AccountMeta} {poolTokens : Nat}
    {minimum : Option Nat} {w w' : Ledger}
    (h : processWithdrawStake rt sv accounts poolTokens minimum w = .ok w') :
    Nonempty (WithdrawStakeRun rt sv accounts poolTokens minimum w w') := by
  obtain ⟨r, -⟩ := processWithdrawStake_charged rt sv h
  exact ⟨r⟩

/-! ## `WithdrawSol` -/

/-- The program signer and its bump seed. -/
def programSigner : Pubkey × UInt8 := rt.findProgramAddress [rt.programSignerSeed] rt.programId

/-- The signers of a call made with a session key: the key itself and the program signer. -/
def signWithSession (authority signer : AccountMeta) (bump : UInt8) : Except ProgramError Unit := do
  let derived ← rt.createProgramAddress [rt.programSignerSeed, [bump]] rt.programId
  requireSigner authority [derived]
  requireSigner signer [derived]

/-- Burn and pay the fee with a session key, vouched for by the program signer. -/
def burnWithSession (tokenProgram burnFrom mint managerFee : Pubkey) (authority signer : AccountMeta)
    (quote : WithdrawalQuote) (decimals : UInt8) (w : Ledger) : Except ProgramError Ledger := do
  let expected := programSigner rt
  failIf (expected.1 ≠ signer.key) .invalidSeeds
  signWithSession rt authority signer expected.2
  let w ← invoke₂ [tokenProgram] burnFrom mint
    (rt.token.burn mint authority.key (some signer.key) quote.burnt) w
  onlyIf (quote.fee > 0) (fun w => invokeMove [tokenProgram] burnFrom managerFee
    (rt.token.transferChecked mint authority.key (some signer.key) quote.fee decimals (w mint)) w) w

/-- Burn and pay the fee with the user's own signature. -/
def burnWithSignature (tokenProgram burnFrom mint managerFee : Pubkey) (authority : AccountMeta)
    (quote : WithdrawalQuote) (decimals : UInt8) (w : Ledger) : Except ProgramError Ledger := do
  let w ← tokenBurn rt tokenProgram burnFrom mint authority quote.burnt w
  onlyIf (quote.fee > 0)
    (tokenTransfer rt tokenProgram burnFrom mint managerFee authority quote.fee decimals) w

def checkReserveRemainder (reserve : Account) (lamports : Nat) : Except ProgramError Unit := do
  match ← reserve.tryStakeState with
  | .initialized info =>
    failIf (reserve.lamports - lamports < minimumReserveLamports info)
      (.custom .solWithdrawalTooLarge)
  | _ => throw (.custom .wrongStakeStake)

/-- The burn of a withdrawal: by session on the wrapped-SOL path, where a program signer is given. -/
def burnForSol (isWsolPath : Bool) (signer : Option AccountMeta)
    (tokenProgram burnFrom mint managerFee : Pubkey) (authority : AccountMeta)
    (quote : WithdrawalQuote) (decimals : UInt8) (w : Ledger) : Except ProgramError Ledger :=
  match isWsolPath, signer with
  | true, some signer =>
    burnWithSession rt tokenProgram burnFrom mint managerFee authority signer quote decimals w
  | _, _ => burnWithSignature rt tokenProgram burnFrom mint managerFee authority quote decimals w

def processWithdrawSol (accounts : List AccountMeta) (poolTokens : Nat)
    (minimumLamportsOut : Option Nat) (isWsolPath : Bool) (w : Ledger) :
    Except ProgramError Ledger := do
  let stakePoolInfo ← accountAt accounts 0
  let withdrawAuthorityInfo ← accountAt accounts 1
  let userTransferAuthorityInfo ← accountAt accounts 2
  let burnFromPoolInfo ← accountAt accounts 3
  let reserveStakeInfo ← accountAt accounts 4
  let destinationInfo ← accountAt accounts 5
  let managerFeeInfo ← accountAt accounts 6
  let poolMintInfo ← accountAt accounts 7
  let clockInfo ← accountAt accounts 8
  let stakeHistoryInfo ← accountAt accounts 9
  let stakeProgramInfo ← accountAt accounts 10
  let tokenProgramInfo ← accountAt accounts 11
  let stakePool ← loadStakePool rt w stakePoolInfo.key
  stakePool.checkAuthorityWithdraw rt withdrawAuthorityInfo.key stakePoolInfo.key
  stakePool.checkSolWithdrawAuthority accounts 12
  let decimals ← stakePool.checkMint w poolMintInfo.key
  stakePool.checkReserveStake reserveStakeInfo.key
  failIf (stakePool.tokenProgramId ≠ tokenProgramInfo.key) .incorrectProgramId
  checkStakeProgram rt stakeProgramInfo.key
  failIf (stakePool.managerFeeAccount ≠ managerFeeInfo.key) (.custom .invalidFeeAccount)
  failIf (stakePool.lastUpdateEpoch < sv.epoch) (.custom .stakeListAndPoolOutOfDate)
  let fee ← withdrawalFee stakePool (stakePool.calcPoolTokensSolWithdrawalFee poolTokens)
    burnFromPoolInfo.key (w managerFeeInfo.key)
  let quote ← quoteWithdrawal stakePool poolTokens fee minimumLamportsOut
  checkReserveRemainder (w reserveStakeInfo.key) quote.lamports
  let w ← burnForSol rt isWsolPath accounts[13]? tokenProgramInfo.key burnFromPoolInfo.key
    poolMintInfo.key managerFeeInfo.key userTransferAuthorityInfo quote decimals w
  let w ← stakeWithdraw rt sv stakePoolInfo.key reserveStakeInfo.key withdrawAuthorityInfo
    stakePool.stakeWithdrawBumpSeed destinationInfo.key clockInfo.key stakeHistoryInfo.key
    quote.lamports w
  let stakePool ← stakePool.recordWithdrawal quote.burnt quote.lamports
  writeStakePool w stakePoolInfo.key stakePool

theorem checkReserveRemainder_eq_ok {reserve : Account} {lamports : Nat} {u : Unit} :
    checkReserveRemainder reserve lamports = .ok u ↔
      ∃ info, reserve.data = .stake (.initialized info) ∧
        minimumReserveLamports info ≤ reserve.lamports - lamports := by
  obtain ⟨n, owner, dataLen, data⟩ := reserve
  simp only [checkReserveRemainder, Account.tryStakeState, bind_eq_ok]
  cases data with
  | stake s => cases s <;> simp [throw_ne_ok, failIf_eq_ok]
  | zeroed => by_cases h : 4 ≤ dataLen <;> simp [h, throw_ne_ok]
  | _ => simp

/-- A successful SOL withdrawal, taken apart. -/
structure WithdrawSolRun (accounts : List AccountMeta) (poolTokens : Nat) (minimum : Option Nat)
    (isWsolPath : Bool) (w w' : Ledger) where
  pool : AccountMeta
  authority : AccountMeta
  transferAuthority : AccountMeta
  burnFrom : AccountMeta
  reserve : AccountMeta
  destination : AccountMeta
  managerFee : AccountMeta
  mint : AccountMeta
  clock : AccountMeta
  history : AccountMeta
  tokenProgram : AccountMeta
  p : StakePool
  p' : StakePool
  decimals : UInt8
  fee : Nat
  quote : WithdrawalQuote
  info : StakeMeta
  burnt : Ledger
  paid : Ledger
  pool_at : accounts[0]? = some pool
  transferAuthority_at : accounts[2]? = some transferAuthority
  burnFrom_at : accounts[3]? = some burnFrom
  reserve_at : accounts[4]? = some reserve
  destination_at : accounts[5]? = some destination
  managerFee_at : accounts[6]? = some managerFee
  mint_at : accounts[7]? = some mint
  tokenProgram_at : accounts[11]? = some tokenProgram
  isPool : PoolAt rt w pool.key p
  isAuthority : poolAuthority rt pool.key authorityWithdraw p.stakeWithdrawBumpSeed =
    .ok authority.key
  mint_key : mint.key = p.poolMint
  isReserve : reserve.key = p.reserveStake
  token_key : tokenProgram.key = p.tokenProgramId
  isManagerFee : managerFee.key = p.managerFeeAccount
  upToDate : ¬ p.lastUpdateEpoch < sv.epoch
  fee_eq : withdrawalFee p (p.calcPoolTokensSolWithdrawalFee poolTokens) burnFrom.key
    (w managerFee.key) = .ok fee
  quote_eq : quoteWithdrawal p poolTokens fee minimum = .ok quote
  reserve_data : (w reserve.key).data = .stake (.initialized info)
  reserve_enough : minimumReserveLamports info ≤ (w reserve.key).lamports - quote.lamports
  burn : burnForSol rt isWsolPath accounts[13]? tokenProgram.key burnFrom.key mint.key
    managerFee.key transferAuthority quote decimals w = .ok burnt
  pay : stakeWithdraw rt sv pool.key reserve.key authority p.stakeWithdrawBumpSeed destination.key
    clock.key history.key quote.lamports burnt = .ok paid
  record : p.recordWithdrawal quote.burnt quote.lamports = .ok p'
  result : writeStakePool paid pool.key p' = .ok w'

theorem processWithdrawSol_run {accounts : List AccountMeta} {poolTokens : Nat}
    {minimum : Option Nat} {isWsolPath : Bool} {w w' : Ledger}
    (h : processWithdrawSol rt sv accounts poolTokens minimum isWsolPath w = .ok w') :
    Nonempty (WithdrawSolRun rt sv accounts poolTokens minimum isWsolPath w w') := by
  simp only [processWithdrawSol, bind_eq_ok, accountAt_eq_ok, exists_unit, failIf_eq_ok,
    checkStakeProgram_eq_ok, loadStakePool_eq_ok, StakePool.checkAuthorityWithdraw_eq_ok,
    StakePool.checkMint_eq_ok, StakePool.checkReserveStake_eq_ok, checkReserveRemainder_eq_ok,
    Decidable.not_not] at h
  obtain ⟨pool, pool_at, authority, -, transferAuthority, transferAuthority_at, burnFrom,
    burnFrom_at, reserve, reserve_at, destination, destination_at, managerFee, managerFee_at, mint,
    mint_at, clock, -, history, -, h⟩ := h
  obtain ⟨program, -, tokenProgram, tokenProgram_at, p, isPool, isAuthority, -, decimals, ⟨mint_key,
    -⟩, isReserve, token_key, -, isManagerFee, upToDate, fee, fee_eq, quote, quote_eq, ⟨info,
    reserve_data, reserve_enough⟩, h⟩ := h
  obtain ⟨burnt, burn, paid, pay, p', record, result⟩ := h
  exact ⟨{
    pool, authority, transferAuthority, burnFrom, reserve, destination, managerFee, mint, clock,
    history, tokenProgram, p, p', decimals, fee, quote, info, burnt, paid, pool_at,
    transferAuthority_at, burnFrom_at, reserve_at, destination_at, managerFee_at, mint_at,
    tokenProgram_at, isPool, isAuthority, mint_key, isReserve, upToDate, fee_eq, quote_eq,
    reserve_data, reserve_enough, burn, pay, record, result
    token_key := token_key.symm, isManagerFee := isManagerFee.symm }⟩

end StakePoolFogo
