import StakePoolFogo.Confinement

/-!
# Withdrawing to a wrapped-SOL account that is not there yet

`WithdrawWsolWithSession` creates the user's account where it is missing, after it has checked who owns the
account.  The withdrawal with the account in place is set beside the one without it.
-/

open StakePoolFogo.Outcome

namespace StakePoolFogo

/-- Creating an associated account that exists changes nothing. -/
def IdempotentCreate (rt : Runtime) : Prop :=
  ∀ wallet mintKey tokenProgram payer account t, account.owner = tokenProgram →
    account.data = .token t → t.owner = wallet → t.mint = mintKey →
    rt.createAssociatedIdempotent wallet mintKey tokenProgram payer account = .ok (payer, account)

/-- A token account or a mint with `n` tokens less. -/
def Account.lessTokens (a : Account) (n : Nat) : Account :=
  match a.data with
  | .token t => { a with data := .token { t with amount := t.amount - n } }
  | .mint m => { a with data := .mint { m with supply := m.supply - n } }
  | _ => a

/-- A burn changes the amounts of an account and of its mint, which is not the one of wrapped SOL. -/
structure BurnLaws (rt : Runtime) : Prop where
  burn : ∀ mintKey authority cosigner amount account mint account' mint',
    rt.token.burn mintKey authority cosigner amount account mint = .ok (account', mint') →
    (∃ m, mint.data = .mint m) ∧ (∃ t, account.data = .token t ∧ t.mint = mintKey) ∧
      mintKey ≠ rt.nativeMintId ∧ account' = account.lessTokens amount ∧ mint' = mint.lessTokens amount

/-! ## Two ledgers -/

/-- The wrapped-SOL account of `user` exists and is empty. -/
structure EmptyWsol (rt : Runtime) (w : Ledger) (wsol user : Pubkey) : Prop where
  owner : (w wsol).owner = rt.splTokenId
  data : ∃ t, (w wsol).data = .token t ∧ t.owner = user ∧ t.mint = rt.nativeMintId ∧ t.amount = 0

/-- The same ledger, with nothing at the address of the account. -/
def Ledger.without (w : Ledger) (rt : Runtime) (wsol : Pubkey) : Ledger :=
  w.set wsol ⟨0, rt.systemProgramId, 0, .zeroed⟩

/-- The same effect on the pool and its token accounts, and the same balance for the user. -/
structure SameOutcome (accounts : List AccountMeta) (wsol : Pubkey) (w₁ w₂ : Ledger) : Prop where
  pool : ∀ i ∈ [0, 3, 4, 6, 7], ∀ info, accounts[i]? = some info → w₁ info.key = w₂ info.key
  balance : (w₁ wsol).data = (w₂ wsol).data

section

variable (rt : Runtime) (sv : Sysvars)

/-- With the account and without it, the withdrawal succeeds with the same outcome or fails. -/
def IndependentOfWsol (accounts : List AccountMeta) (poolTokens : Nat) (wsol : Pubkey) (w : Ledger) : Prop :=
  (∃ w₁ w₂, processWithdrawWsolWithSession rt sv accounts poolTokens w = .ok w₁ ∧
    processWithdrawWsolWithSession rt sv accounts poolTokens (w.without rt wsol) = .ok w₂ ∧
    SameOutcome accounts wsol w₁ w₂) ∨
  (∀ w₁, processWithdrawWsolWithSession rt sv accounts poolTokens w ≠ .ok w₁) ∧
    ∀ w₂, processWithdrawWsolWithSession rt sv accounts poolTokens (w.without rt wsol) ≠ .ok w₂

/-! ## What a withdrawal needs -/

/-- A called program takes the accounts as they are, and the runtime lets what it makes of them stand. -/
def Takes (callees : List Pubkey) (f : Account → Account → Except ProgramError (Account × Account))
    (a b : Account) : Prop :=
  ∃ a' b', f a b = .ok (a', b') ∧ a.changedLegally callees a' ∧ b.changedLegally callees b' ∧
    a'.lamports + b'.lamports = a.lamports + b.lamports

def Takes₁ (callees : List Pubkey) (f : Account → Except ProgramError Account) (a : Account) : Prop :=
  ∃ a', f a = .ok a' ∧ a.changedLegally callees a' ∧ a'.lamports = a.lamports

/-- What `WithdrawWsolWithSession` checks, and what the programs it calls ask of the accounts, all on the
ledger before it.  The record of the pool fixes the fee and the quote. -/
structure SessionChecks (accounts : List AccountMeta) (poolTokens : Nat) (user : Pubkey) (w : Ledger) where
  pool : AccountMeta
  authority : AccountMeta
  session : AccountMeta
  burnFrom : AccountMeta
  reserve : AccountMeta
  userWsol : AccountMeta
  managerFee : AccountMeta
  mint : AccountMeta
  clock : AccountMeta
  history : AccountMeta
  stakeProgram : AccountMeta
  tokenProgram : AccountMeta
  wsolMint : AccountMeta
  feePayer : AccountMeta
  userOwner : AccountMeta
  systemProgram : AccountMeta
  signer : AccountMeta
  associated : AccountMeta
  p : StakePool
  decimals : UInt8
  fee : Nat
  quote : WithdrawalQuote
  info : StakeMeta
  pool_at : accounts[0]? = some pool
  authority_at : accounts[1]? = some authority
  session_at : accounts[2]? = some session
  burnFrom_at : accounts[3]? = some burnFrom
  reserve_at : accounts[4]? = some reserve
  userWsol_at : accounts[5]? = some userWsol
  managerFee_at : accounts[6]? = some managerFee
  mint_at : accounts[7]? = some mint
  clock_at : accounts[8]? = some clock
  history_at : accounts[9]? = some history
  stakeProgram_at : accounts[10]? = some stakeProgram
  tokenProgram_at : accounts[11]? = some tokenProgram
  wsolMint_at : accounts[12]? = some wsolMint
  feePayer_at : accounts[13]? = some feePayer
  userOwner_at : accounts[14]? = some userOwner
  systemProgram_at : accounts[15]? = some systemProgram
  signer_at : accounts[16]? = some signer
  associated_at : accounts[17]? = some associated
  system_key : systemProgram.key = rt.systemProgramId
  associated_key : associated.key = rt.associatedTokenProgramId
  stake_key : stakeProgram.key = rt.stakeProgramId
  token_key : tokenProgram.key = rt.splTokenId
  wsolMint_key : wsolMint.key = rt.nativeMintId
  wsolMint_owner : (w wsolMint.key).owner = tokenProgram.key
  isUser : rt.extractUser sv session (w session.key) = .ok user
  isAssociated : rt.getAssociatedTokenAddress user wsolMint.key = userWsol.key
  owner_key : userOwner.key = user
  pays : requireSigner feePayer [] = .ok ()
  isPool : PoolAt rt w pool.key p
  isAuthority : poolAuthority rt pool.key authorityWithdraw p.stakeWithdrawBumpSeed = .ok authority.key
  mayWithdraw : ∀ k, p.solWithdrawAuthority = some k →
    (accounts[18]?.getD systemProgram).key = k ∧ (accounts[18]?.getD systemProgram).isSigner = true
  isMint : p.checkMint w mint.key = .ok decimals
  isReserve : reserve.key = p.reserveStake
  isTokenProgram : p.tokenProgramId = tokenProgram.key
  isManagerFee : p.managerFeeAccount = managerFee.key
  upToDate : ¬p.lastUpdateEpoch < sv.epoch
  charged : withdrawalFee p (p.calcPoolTokensSolWithdrawalFee poolTokens) burnFrom.key
    (w managerFee.key) = .ok fee
  quoted : quoteWithdrawal p poolTokens fee none = .ok quote
  reserve_data : (w reserve.key).data = .stake (.initialized info)
  reserve_enough : minimumReserveLamports info ≤ (w reserve.key).lamports - quote.lamports
  signer_key : (programSigner rt).1 = signer.key
  signs : signWithSession rt session signer (programSigner rt).2 = .ok ()
  burns : Takes [tokenProgram.key] (rt.token.burn mint.key session.key (some signer.key) quote.burnt)
    (w burnFrom.key) (w mint.key)
  paysFee : quote.fee > 0 → Takes [tokenProgram.key] (rt.token.transferChecked mint.key session.key
      (some signer.key) quote.fee decimals ((w mint.key).lessTokens quote.burnt))
    ((w burnFrom.key).lessTokens quote.burnt) (w managerFee.key)
  sysvars : requireSysvars [clock.key, history.key] [rt.clockId, rt.stakeHistoryId] = .ok ()
  authoritySigns : signAsWithdrawAuthority rt pool.key authority p.stakeWithdrawBumpSeed = .ok ()
  paysOut : Takes [rt.stakeProgramId] (rt.stake.withdraw sv authority.key quote.lamports)
    (w reserve.key) (w userWsol.key)
  records : ∃ p', p.recordWithdrawal quote.burnt quote.lamports = .ok p' ∧
    p'.packedLen ≤ (w pool.key).dataLen
  syncs : Takes₁ [tokenProgram.key] rt.token.syncNative
    { w userWsol.key with lamports := (w userWsol.key).lamports + quote.lamports }

end

section

variable {rt : Runtime} {sv : Sysvars} {accounts : List AccountMeta} {poolTokens : Nat} {user wsol : Pubkey}
  {w w' : Ledger}

/-- Where the account exists, creating it changes nothing, and it is the user's. -/
theorem create_existing (ht : TokenLaws rt) (hp : ProgramLaws rt) {feePayer : Pubkey} {user' : Pubkey}
    {created : Ledger} (hw : EmptyWsol rt w wsol user)
    (h : invokeMove [rt.associatedTokenProgramId, rt.systemProgramId, rt.splTokenId] feePayer wsol
      (rt.createAssociatedIdempotent user' rt.nativeMintId rt.splTokenId) w = .ok created) :
    created = w ∧ user' = user := by
  have hkept : ∀ payer payer' account', rt.createAssociatedIdempotent user' rt.nativeMintId rt.splTokenId payer
      (w wsol) = .ok (payer', account') → payer' = payer ∧ account' = w wsol ∧ user' = user := by
    intro payer payer' account' hcreate
    obtain ⟨t, hdata, howner, -, -⟩ := hw.data
    obtain ⟨-, -, hsystem | ⟨rfl, rfl, t', hdata', howner', -⟩⟩ := ht.associated _ _ _ _ _ _ _ hcreate
    · exact absurd (hw.owner.symm.trans hsystem) (hp.token_ne_system _ (.inl rfl))
    · obtain rfl : t = t' := by
        rw [hdata] at hdata'
        exact AccountData.token.inj hdata'
      exact ⟨rfl, rfl, howner'.symm.trans howner⟩
  unfold invokeMove at h
  split at h
  · obtain ⟨⟨payer', account'⟩, hcreate, hresult⟩ := bind_eq_ok.mp h
    obtain ⟨-, -, huser⟩ := hkept _ _ _ hcreate
    exact ⟨(pure_eq_ok.mp hresult).symm, huser⟩
  · obtain ⟨-, payer', account', hcreate, -, -, -, hset⟩ := invoke₂_eq_ok.mp h
    obtain ⟨rfl, rfl, huser⟩ := hkept _ _ _ hcreate
    rw [Ledger.set_self, Ledger.set_self] at hset
    exact ⟨hset, huser⟩

theorem create_idempotent (hi : IdempotentCreate rt) {feePayer : Pubkey} {t : TokenAccount}
    (hprogram : (w wsol).owner = rt.splTokenId) (hdata : (w wsol).data = .token t) (howner : t.owner = user)
    (hmint : t.mint = rt.nativeMintId) :
    invokeMove [rt.associatedTokenProgramId, rt.systemProgramId, rt.splTokenId] feePayer wsol
      (rt.createAssociatedIdempotent user rt.nativeMintId rt.splTokenId) w = .ok w := by
  have hcreate : ∀ payer, rt.createAssociatedIdempotent user rt.nativeMintId rt.splTokenId payer (w wsol) =
      .ok (payer, w wsol) := fun payer => hi _ _ _ _ _ t hprogram hdata howner hmint
  unfold invokeMove
  split
  · rw [hcreate]
    rfl
  · rename_i hne
    refine invoke₂_eq_ok.mpr ⟨hne, _, _, hcreate _, ?_, ?_, rfl, ?_⟩
    · exact .inr ⟨rfl, rfl, rfl, Nat.le_refl _⟩
    · exact .inr ⟨rfl, rfl, rfl, Nat.le_refl _⟩
    · rw [Ledger.set_self, Ledger.set_self]

/-! ## The calls on the ledger before -/

section Calls

variable {callees : List Pubkey} {j k tokenProgram burnFrom mint managerFee : Pubkey}
  {authority signer : AccountMeta} {quote : WithdrawalQuote} {decimals : UInt8}

theorem invoke₂_takes {f : Account → Account → Except ProgramError (Account × Account)} :
    (∃ w', invoke₂ callees j k f w = .ok w') ↔ j ≠ k ∧ Takes callees f (w j) (w k) := by
  simp only [invoke₂_eq_ok, Takes]
  constructor
  · rintro ⟨w', hne, a, b, hf, ha, hb, hl, -⟩
    exact ⟨hne, a, b, hf, ha, hb, hl⟩
  · rintro ⟨hne, a, b, hf, ha, hb, hl⟩
    exact ⟨_, hne, a, b, hf, ha, hb, hl, rfl⟩

theorem invoke₁_takes {f : Account → Except ProgramError Account} :
    (∃ w', invoke₁ callees k f w = .ok w') ↔ Takes₁ callees f (w k) := by
  simp only [invoke₁_eq_ok, Takes₁]
  constructor
  · rintro ⟨w', a, hf, hc, hl, -⟩
    exact ⟨a, hf, hc, hl⟩
  · rintro ⟨a, hf, hc, hl⟩
    exact ⟨_, a, hf, hc, hl, rfl⟩

/-- The ledger after a burn. -/
theorem burn_eq_ok (laws : BurnLaws rt) {cosigner : Option Pubkey} {n : Nat} :
    invoke₂ [tokenProgram] burnFrom mint (rt.token.burn mint authority.key cosigner n) w = .ok w' ↔
      Takes [tokenProgram] (rt.token.burn mint authority.key cosigner n) (w burnFrom) (w mint) ∧
        w' = (w.set burnFrom ((w burnFrom).lessTokens n)).set mint ((w mint).lessTokens n) := by
  rw [invoke₂_eq_ok]
  constructor
  · rintro ⟨-, a, b, hburn, ha, hb, hl, rfl⟩
    obtain ⟨-, -, -, rfl, rfl⟩ := laws.burn _ _ _ _ _ _ _ _ hburn
    exact ⟨⟨_, _, hburn, ha, hb, hl⟩, rfl⟩
  · rintro ⟨⟨a, b, hburn, ha, hb, hl⟩, rfl⟩
    obtain ⟨⟨m, hm⟩, ⟨t, ht, -⟩, -, rfl, rfl⟩ := laws.burn _ _ _ _ _ _ _ _ hburn
    refine ⟨?_, _, _, hburn, ha, hb, hl, rfl⟩
    rintro rfl
    cases hm.symm.trans ht

/-- The burn and the fee, where the fee goes to an account of its own. -/
theorem burnWithSession_ok_iff (laws : BurnLaws rt)
    (hfee : quote.fee > 0 → burnFrom ≠ managerFee ∧ ∃ t, (w managerFee).data = .token t) :
    (∃ w', burnWithSession rt tokenProgram burnFrom mint managerFee authority signer quote decimals w = .ok w') ↔
      (programSigner rt).1 = signer.key ∧ signWithSession rt authority signer (programSigner rt).2 = .ok () ∧
      Takes [tokenProgram] (rt.token.burn mint authority.key (some signer.key) quote.burnt) (w burnFrom)
        (w mint) ∧
      (quote.fee > 0 → Takes [tokenProgram] (rt.token.transferChecked mint authority.key (some signer.key)
        quote.fee decimals ((w mint).lessTokens quote.burnt)) ((w burnFrom).lessTokens quote.burnt)
        (w managerFee)) := by
  simp only [burnWithSession, bind_eq_ok, failIf_eq_ok, exists_unit, Decidable.not_not, burn_eq_ok laws]
  -- What the fee is taken from is the account after the burn.
  have hpay : ∀ burnt, Takes [tokenProgram] (rt.token.burn mint authority.key (some signer.key) quote.burnt)
      (w burnFrom) (w mint) → quote.fee > 0 →
      burnt = (w.set burnFrom ((w burnFrom).lessTokens quote.burnt)).set mint ((w mint).lessTokens quote.burnt) →
      ((∃ w', invokeMove [tokenProgram] burnFrom managerFee (rt.token.transferChecked mint authority.key
          (some signer.key) quote.fee decimals (burnt mint)) burnt = .ok w') ↔
        Takes [tokenProgram] (rt.token.transferChecked mint authority.key (some signer.key)
          quote.fee decimals ((w mint).lessTokens quote.burnt)) ((w burnFrom).lessTokens quote.burnt)
          (w managerFee)) := by
    rintro _ ⟨a, b, hburn, -⟩ hpos rfl
    obtain ⟨hne, u, hu⟩ := hfee hpos
    obtain ⟨⟨m, hm⟩, ⟨t, ht, -⟩, -⟩ := laws.burn _ _ _ _ _ _ _ _ hburn
    have hsource : burnFrom ≠ mint := by
      rintro rfl
      cases hm.symm.trans ht
    have htarget : managerFee ≠ mint := by
      rintro rfl
      cases hm.symm.trans hu
    rw [invokeMove, if_neg hne, invoke₂_takes, Ledger.set_same, Ledger.set_other _ _ hsource,
      Ledger.set_same, Ledger.set_other _ _ htarget, Ledger.set_other _ _ (Ne.symm hne)]
    exact ⟨fun h => h.2, fun h => ⟨hne, h⟩⟩
  constructor
  · rintro ⟨w', hkey, hsigns, burnt, ⟨hburn, hburnt⟩, hrest⟩
    refine ⟨hkey, hsigns, hburn, fun hpos => (hpay burnt hburn hpos hburnt).mp ?_⟩
    rcases onlyIf_eq_ok.mp hrest with ⟨-, hmove⟩ | ⟨hnone, -⟩
    · exact ⟨w', hmove⟩
    · exact absurd hpos hnone
  · rintro ⟨hkey, hsigns, hburn, hpays⟩
    by_cases hpos : quote.fee > 0
    · obtain ⟨w', hmove⟩ := (hpay _ hburn hpos rfl).mpr (hpays hpos)
      exact ⟨w', hkey, hsigns, _, ⟨hburn, rfl⟩, onlyIf_eq_ok.mpr (.inl ⟨hpos, hmove⟩)⟩
    · exact ⟨_, hkey, hsigns, _, ⟨hburn, rfl⟩, onlyIf_eq_ok.mpr (.inr ⟨hpos, rfl⟩)⟩

/-- Accounts that are neither burnt from nor paid are left alone. -/
theorem burnWithSession_others
    (h : burnWithSession rt tokenProgram burnFrom mint managerFee authority signer quote decimals w = .ok w')
    (hfrom : k ≠ burnFrom) (hmint : k ≠ mint) (hfee : quote.fee > 0 → k ≠ managerFee) : w' k = w k := by
  simp only [burnWithSession, bind_eq_ok, failIf_eq_ok, exists_unit] at h
  obtain ⟨-, -, burnt, hburn, hrest⟩ := h
  obtain ⟨-, a, b, -, -, -, -, rfl⟩ := invoke₂_eq_ok.mp hburn
  have hburnt : ((w.set burnFrom a).set mint b) k = w k := by
    rw [Ledger.set_other _ _ hmint, Ledger.set_other _ _ hfrom]
  rcases onlyIf_eq_ok.mp hrest with ⟨hpos, hmove⟩ | ⟨-, rfl⟩
  · unfold invokeMove at hmove
    split at hmove
    · obtain ⟨-, -, hsame⟩ := bind_eq_ok.mp hmove
      rw [← pure_eq_ok.mp hsame]
      exact hburnt
    · obtain ⟨-, a', b', -, -, -, -, rfl⟩ := invoke₂_eq_ok.mp hmove
      rw [Ledger.set_other _ _ (hfee hpos), Ledger.set_other _ _ hfrom]
      exact hburnt
  · exact hburnt

/-- The burn leaves every account alone that is neither a mint nor holds tokens of this one. -/
theorem burnWithSession_same (laws : BurnLaws rt) (ht : TokenLaws rt)
    (hfee : quote.fee > 0 → burnFrom ≠ managerFee ∧ ∃ t, (w managerFee).data = .token t)
    (h : burnWithSession rt tokenProgram burnFrom mint managerFee authority signer quote decimals w = .ok w')
    (hkind : ∀ m, (w k).data ≠ .mint m) (hother : ∀ t, (w k).data = .token t → t.mint ≠ mint) :
    w' k = w k := by
  obtain ⟨-, -, ⟨a, b, hburn, -⟩, hpays⟩ := (burnWithSession_ok_iff laws hfee).mp ⟨w', h⟩
  obtain ⟨⟨m, hm⟩, ⟨t, hdata, hmint⟩, -⟩ := laws.burn _ _ _ _ _ _ _ _ hburn
  refine burnWithSession_others h ?_ ?_ fun hpos => ?_
  · rintro rfl
    exact hother t hdata hmint
  · rintro rfl
    exact hkind m hm
  · rintro rfl
    obtain ⟨a', b', hmove, -⟩ := hpays hpos
    obtain ⟨t', u, -, hu, -, humint, -⟩ := ht.transfer _ _ _ _ _ _ _ _ _ _ hmove
    exact hother u hu humint

/-- What follows the burn: the payment, the record of the pool and the sync, on accounts that the burn has
left alone. -/
theorem payOut_ok_iff (credit : CreditLaws rt) {p : StakePool} {burnt : Ledger} {lamports tokens : Nat}
    {pool reserve userWsol clock history : Pubkey} {bump : UInt8} (hreserve : burnt reserve = w reserve)
    (huser : burnt userWsol = w userWsol) (hpool : burnt pool = w pool) (hapart : reserve ≠ userWsol)
    (hpoolReserve : pool ≠ reserve) (hpoolUser : pool ≠ userWsol) :
    (∃ paid, stakeWithdraw rt sv pool reserve authority bump userWsol clock history lamports burnt = .ok paid ∧
      ∃ p', p.recordWithdrawal tokens lamports = .ok p' ∧ ∃ written, writeStakePool paid pool p' = .ok written ∧
        ∃ synced, invoke₁ [tokenProgram] userWsol rt.token.syncNative written = .ok synced) ↔
      requireSysvars [clock, history] [rt.clockId, rt.stakeHistoryId] = .ok () ∧
        signAsWithdrawAuthority rt pool authority bump = .ok () ∧
        Takes [rt.stakeProgramId] (rt.stake.withdraw sv authority.key lamports) (w reserve) (w userWsol) ∧
        (∃ p', p.recordWithdrawal tokens lamports = .ok p' ∧ p'.packedLen ≤ (w pool).dataLen) ∧
        Takes₁ [tokenProgram] rt.token.syncNative
          { w userWsol with lamports := (w userWsol).lamports + lamports } := by
  -- The pool and the user's account, once the stake program has paid.
  have hpaid : ∀ {a b}, rt.stake.withdraw sv authority.key lamports (w reserve) (w userWsol) = .ok (a, b) →
      ((burnt.set reserve a).set userWsol b) pool = w pool ∧
        ((burnt.set reserve a).set userWsol b) userWsol =
          { w userWsol with lamports := (w userWsol).lamports + lamports } := by
    intro a b hwithdraw
    rw [Ledger.set_same, Ledger.set_other _ _ hpoolUser, Ledger.set_other _ _ hpoolReserve]
    exact ⟨hpool, credit.withdraw _ _ _ _ _ _ _ hwithdraw⟩
  have hsync : ∀ {a b p'}, rt.stake.withdraw sv authority.key lamports (w reserve) (w userWsol) = .ok (a, b) →
      ((∃ synced, invoke₁ [tokenProgram] userWsol rt.token.syncNative
          (((burnt.set reserve a).set userWsol b).set pool p') = .ok synced) ↔
        Takes₁ [tokenProgram] rt.token.syncNative
          { w userWsol with lamports := (w userWsol).lamports + lamports }) := by
    intro a b p' hwithdraw
    rw [invoke₁_takes, Ledger.set_other _ _ (Ne.symm hpoolUser), (hpaid hwithdraw).2]
  simp only [stakeWithdraw, bind_eq_ok, exists_unit, invokeMove, if_neg hapart, invoke₂_eq_ok, hreserve, huser,
    writeStakePool_eq_ok]
  constructor
  · rintro ⟨paid, ⟨hsysvars, hsigns, -, a, b, hwithdraw, ha, hb, hl, rfl⟩, p', hrecord, written, ⟨hfits, rfl⟩,
      hsynced⟩
    rw [(hpaid hwithdraw).1] at hfits
    exact ⟨hsysvars, hsigns, ⟨a, b, hwithdraw, ha, hb, hl⟩, ⟨p', hrecord, hfits⟩,
      (hsync hwithdraw).mp hsynced⟩
  · rintro ⟨hsysvars, hsigns, ⟨a, b, hwithdraw, ha, hb, hl⟩, ⟨p', hrecord, hfits⟩, hsyncs⟩
    refine ⟨_, ⟨hsysvars, hsigns, hapart, a, b, hwithdraw, ha, hb, hl, rfl⟩, p', hrecord, _, ⟨?_, rfl⟩,
      (hsync hwithdraw).mpr hsyncs⟩
    rw [(hpaid hwithdraw).1]
    exact hfits

end Calls

/-- A fee is charged only to another account, which holds tokens. -/
theorem withdrawalFee_pos {p : StakePool} {fee : Option Nat} {burnFrom managerFee : Pubkey} {charged : Nat}
    (h : withdrawalFee p fee burnFrom (w managerFee) = .ok charged) (hmanager : p.managerFeeAccount = managerFee)
    (hpos : charged > 0) : burnFrom ≠ managerFee ∧ ∃ t, (w managerFee).data = .token t := by
  unfold withdrawalFee at h
  split at h
  · obtain rfl := Except.ok.inj h
    exact absurd hpos (Nat.lt_irrefl 0)
  · rename_i hcharged
    rw [not_or] at hcharged
    refine ⟨fun hsame => hcharged.1 (hmanager.trans hsame.symm), ?_⟩
    obtain ⟨u, hu⟩ := succeeded_iff.mp (Bool.not_eq_false _ ▸ hcharged.2)
    simp only [StakePool.checkManagerFeeInfo, bind_eq_ok] at hu
    obtain ⟨t, ht, -⟩ := hu
    exact ⟨t, Account.unpackToken_data ht⟩

/-- `WithdrawSol` with the accounts that the session handler gives it. -/
theorem processWithdrawSol_session {pool authority session burnFrom reserve userWsol managerFee mint clock
      history stakeProgram tokenProgram withdrawAuthority signer : AccountMeta} :
    processWithdrawSol rt sv [pool, authority, session, burnFrom, reserve, userWsol, managerFee, mint, clock,
        history, stakeProgram, tokenProgram, withdrawAuthority, signer] poolTokens none true w = .ok w' ↔
      ∃ p, PoolAt rt w pool.key p ∧
        poolAuthority rt pool.key authorityWithdraw p.stakeWithdrawBumpSeed = .ok authority.key ∧
        (∀ k, p.solWithdrawAuthority = some k →
          withdrawAuthority.key = k ∧ withdrawAuthority.isSigner = true) ∧
        ∃ decimals, p.checkMint w mint.key = .ok decimals ∧ reserve.key = p.reserveStake ∧
        p.tokenProgramId = tokenProgram.key ∧ stakeProgram.key = rt.stakeProgramId ∧
        p.managerFeeAccount = managerFee.key ∧ ¬p.lastUpdateEpoch < sv.epoch ∧
        ∃ fee, withdrawalFee p (p.calcPoolTokensSolWithdrawalFee poolTokens) burnFrom.key
          (w managerFee.key) = .ok fee ∧
        ∃ quote, quoteWithdrawal p poolTokens fee none = .ok quote ∧
        (∃ info, (w reserve.key).data = .stake (.initialized info) ∧
          minimumReserveLamports info ≤ (w reserve.key).lamports - quote.lamports) ∧
        ∃ burnt, burnWithSession rt tokenProgram.key burnFrom.key mint.key managerFee.key session signer quote
          decimals w = .ok burnt ∧
        ∃ paid, stakeWithdraw rt sv pool.key reserve.key authority p.stakeWithdrawBumpSeed userWsol.key
          clock.key history.key quote.lamports burnt = .ok paid ∧
        ∃ p', p.recordWithdrawal quote.burnt quote.lamports = .ok p' ∧
          writeStakePool paid pool.key p' = .ok w' := by
  have hauthority : ∀ p : StakePool, p.checkSolWithdrawAuthority [pool, authority, session, burnFrom, reserve,
      userWsol, managerFee, mint, clock, history, stakeProgram, tokenProgram, withdrawAuthority, signer] 12 =
        .ok () ↔ ∀ k, p.solWithdrawAuthority = some k →
          withdrawAuthority.key = k ∧ withdrawAuthority.isSigner = true := by
    intro p
    unfold StakePool.checkSolWithdrawAuthority StakePool.checkOptionalAuthority
    cases p.solWithdrawAuthority with
    | none => simp
    | some auth =>
      simp only [accountAt, List.getElem?_cons_succ, List.getElem?_cons_zero, okOr_some, ok_bind, bind_eq_ok,
        failIf_eq_ok, exists_unit, Decidable.not_not, Bool.not_eq_false, Option.some.injEq]
      constructor
      · rintro ⟨hkey, hsigner⟩ k rfl
        exact ⟨hkey.symm, hsigner⟩
      · intro h
        obtain ⟨hkey, hsigner⟩ := h auth rfl
        exact ⟨hkey.symm, hsigner⟩
  simp only [processWithdrawSol, accountAt, List.getElem?_cons_succ, List.getElem?_cons_zero, okOr_some, ok_bind,
    bind_eq_ok, exists_unit, hauthority, failIf_eq_ok, checkStakeProgram_eq_ok, loadStakePool_eq_ok,
    StakePool.checkAuthorityWithdraw_eq_ok, StakePool.checkReserveStake_eq_ok, checkReserveRemainder_eq_ok,
    Decidable.not_not, burnForSol]

/-- With the account in place, the checks on the ledger before decide. -/
theorem session_withdraw_iff (ht : TokenLaws rt) (hp : ProgramLaws rt) (hb : BurnLaws rt) (hc : CreditLaws rt)
    (hi : IdempotentCreate rt) {userWsol : AccountMeta} (hat : accounts[5]? = some userWsol)
    (hw : EmptyWsol rt w userWsol.key user) :
    (∃ w', processWithdrawWsolWithSession rt sv accounts poolTokens w = .ok w') ↔
      Nonempty (SessionChecks rt sv accounts poolTokens user w) := by
  obtain ⟨wsol, hwsol, hwallet, hnative, -⟩ := hw.data
  -- The burn concerns neither the pool nor the reserve nor the user's account.
  have hkept : ∀ {p : StakePool} {pool reserve burnFrom mint managerFee session signer : AccountMeta}
      {tokenProgram : Pubkey} {decimals : UInt8} {quote : WithdrawalQuote} {info : StakeMeta} {burnt : Ledger},
      PoolAt rt w pool.key p → (w reserve.key).data = .stake (.initialized info) →
      (quote.fee > 0 → burnFrom.key ≠ managerFee.key ∧ ∃ t, (w managerFee.key).data = .token t) →
      burnWithSession rt tokenProgram burnFrom.key mint.key managerFee.key session signer quote decimals w =
        .ok burnt →
      burnt reserve.key = w reserve.key ∧ burnt userWsol.key = w userWsol.key ∧ burnt pool.key = w pool.key := by
    intro p pool reserve burnFrom mint managerFee session signer tokenProgram decimals quote info burnt hpool
      hreserve hfee hburn
    obtain ⟨-, -, ⟨a, b, hburns, -⟩, -⟩ := (burnWithSession_ok_iff hb hfee).mp ⟨burnt, hburn⟩
    have hmint := (hb.burn _ _ _ _ _ _ _ _ hburns).2.2.1
    refine ⟨?_, ?_, ?_⟩
    · refine burnWithSession_same hb ht hfee hburn (fun m hm => ?_) fun t htoken => ?_
      · cases hreserve.symm.trans hm
      · cases hreserve.symm.trans htoken
    · refine burnWithSession_same hb ht hfee hburn (fun m hm => ?_) fun t htoken => ?_
      · cases hwsol.symm.trans hm
      · cases hwsol.symm.trans htoken
        rw [hnative]
        exact Ne.symm hmint
    · refine burnWithSession_same hb ht hfee hburn (fun m hm => ?_) fun t htoken => ?_
      · cases hpool.data.symm.trans hm
      · cases hpool.data.symm.trans htoken
  have hapart : ∀ {p : StakePool} {pool reserve : AccountMeta} {info : StakeMeta}, PoolAt rt w pool.key p →
      (w reserve.key).data = .stake (.initialized info) →
      reserve.key ≠ userWsol.key ∧ pool.key ≠ reserve.key ∧ pool.key ≠ userWsol.key := by
    intro p pool reserve info hpool hreserve
    refine ⟨fun hsame => ?_, fun hsame => ?_, fun hsame => ?_⟩
    · rw [hsame] at hreserve
      cases hreserve.symm.trans hwsol
    · rw [← hsame] at hreserve
      cases hreserve.symm.trans hpool.data
    · have hdata := hpool.data
      rw [hsame] at hdata
      cases hdata.symm.trans hwsol
  constructor
  · rintro ⟨w', h⟩
    simp only [processWithdrawWsolWithSession, bind_eq_ok, accountAt_eq_ok, exists_unit, failIf_eq_ok,
      checkSystemProgram_eq_ok, checkSplToken_eq_ok, Decidable.not_not] at h
    obtain ⟨pool, pool_at, authority, authority_at, session, session_at, burnFrom, burnFrom_at, reserve,
      reserve_at, userWsol', userWsol_at, managerFee, managerFee_at, mint, mint_at, clock, clock_at, history,
      history_at, h⟩ := h
    obtain ⟨stakeProgram, stakeProgram_at, tokenProgram, tokenProgram_at, wsolMint, wsolMint_at, feePayer,
      feePayer_at, userOwner, userOwner_at, systemProgram, systemProgram_at, signer, signer_at, associated,
      associated_at, system_key, associated_key, user', isUser, h⟩ := h
    obtain ⟨owner_key, pays, created, create, withdrawn, withdraw, token_key, sync⟩ := h
    obtain rfl : userWsol = userWsol' := Option.some.inj (hat.symm.trans userWsol_at)
    obtain ⟨wsolMint_key, wsolMint_owner, -, extracted, isAssociated⟩ := (checkSessionUser_eq_ok rt sv).mp isUser
    rw [token_key, wsolMint_key] at create
    obtain ⟨rfl, rfl⟩ := create_existing ht hp hw create
    obtain ⟨p, isPool, isAuthority, mayWithdraw, decimals, isMint, isReserve, isTokenProgram, stake_key,
      isManagerFee, upToDate, fee, charged, quote, quoted, ⟨info, reserve_data, reserve_enough⟩, burnt, burn,
      paid, pay, p', record, written⟩ := processWithdrawSol_session.mp withdraw
    have hfee : quote.fee > 0 → burnFrom.key ≠ managerFee.key ∧ ∃ t, (created managerFee.key).data = .token t := by
      rw [(quoteWithdrawal_eq_ok quoted).1]
      exact withdrawalFee_pos charged isManagerFee
    obtain ⟨signer_key, signs, burns, paysFee⟩ := (burnWithSession_ok_iff hb hfee).mp ⟨burnt, burn⟩
    obtain ⟨hreserve, huser, hpool⟩ := hkept isPool reserve_data hfee burn
    obtain ⟨hapart, hpoolReserve, hpoolUser⟩ := hapart isPool reserve_data
    obtain ⟨sysvars, authoritySigns, paysOut, records, syncs⟩ := (payOut_ok_iff hc hreserve huser hpool hapart
      hpoolReserve hpoolUser).mp ⟨paid, pay, p', record, withdrawn, written, w', sync⟩
    exact ⟨{
      pool, authority, session, burnFrom, reserve, userWsol, managerFee, mint, clock, history, stakeProgram,
      tokenProgram, wsolMint, feePayer, userOwner, systemProgram, signer, associated, p, decimals, fee, quote,
      info, pool_at, authority_at, session_at, burnFrom_at, reserve_at, userWsol_at, managerFee_at, mint_at,
      clock_at, history_at, stakeProgram_at, tokenProgram_at, wsolMint_at, feePayer_at, userOwner_at,
      systemProgram_at, signer_at, associated_at, system_key, associated_key, stake_key, token_key,
      wsolMint_key, wsolMint_owner, isAssociated, owner_key, pays, isPool, isAuthority, mayWithdraw, isMint,
      isReserve, isTokenProgram, isManagerFee, upToDate, charged, quoted, reserve_data, reserve_enough,
      signer_key, signs, burns, paysFee, sysvars, authoritySigns, paysOut, records, syncs
      isUser := extracted }⟩
  · rintro ⟨r⟩
    obtain rfl : userWsol = r.userWsol := Option.some.inj (hat.symm.trans r.userWsol_at)
    have hfee : r.quote.fee > 0 → r.burnFrom.key ≠ r.managerFee.key ∧
        ∃ t, (w r.managerFee.key).data = .token t := by
      rw [(quoteWithdrawal_eq_ok r.quoted).1]
      exact withdrawalFee_pos r.charged r.isManagerFee
    obtain ⟨burnt, burn⟩ := (burnWithSession_ok_iff hb hfee).mpr ⟨r.signer_key, r.signs, r.burns, r.paysFee⟩
    obtain ⟨hreserve, huser, hpool⟩ := hkept r.isPool r.reserve_data hfee burn
    obtain ⟨hapart, hpoolReserve, hpoolUser⟩ := hapart r.isPool r.reserve_data
    obtain ⟨paid, pay, p', record, withdrawn, written, w', sync⟩ := (payOut_ok_iff hc hreserve huser hpool hapart
      hpoolReserve hpoolUser).mpr ⟨r.sysvars, r.authoritySigns, r.paysOut, r.records, r.syncs⟩
    have isUser : checkSessionUser rt sv r.session r.wsolMint.key r.userWsol.key r.tokenProgram.key w =
        .ok user := (checkSessionUser_eq_ok rt sv).mpr
      ⟨r.wsolMint_key, r.wsolMint_owner, hw.owner.trans r.token_key.symm, r.isUser, r.isAssociated⟩
    have create : invokeMove [rt.associatedTokenProgramId, rt.systemProgramId, r.tokenProgram.key]
        r.feePayer.key r.userWsol.key
        (rt.createAssociatedIdempotent user r.wsolMint.key r.tokenProgram.key) w = .ok w := by
      rw [r.token_key, r.wsolMint_key]
      exact create_idempotent hi hw.owner hwsol hwallet hnative
    refine ⟨w', ?_⟩
    simp only [processWithdrawWsolWithSession, bind_eq_ok, accountAt_eq_ok, exists_unit, failIf_eq_ok,
      checkSystemProgram_eq_ok, checkSplToken_eq_ok, Decidable.not_not]
    exact ⟨_, r.pool_at, _, r.authority_at, _, r.session_at, _, r.burnFrom_at, _, r.reserve_at, _, r.userWsol_at,
      _, r.managerFee_at, _, r.mint_at, _, r.clock_at, _, r.history_at, _, r.stakeProgram_at, _,
      r.tokenProgram_at, _, r.wsolMint_at, _, r.feePayer_at, _, r.userOwner_at, _, r.systemProgram_at, _,
      r.signer_at, _, r.associated_at, r.system_key, r.associated_key, _, isUser, r.owner_key, r.pays, w, create,
      _, processWithdrawSol_session.mpr ⟨r.p, r.isPool, r.isAuthority, r.mayWithdraw, r.decimals, r.isMint,
        r.isReserve, r.isTokenProgram, r.stake_key, r.isManagerFee, r.upToDate, r.fee, r.charged, r.quote,
        r.quoted, ⟨r.info, r.reserve_data, r.reserve_enough⟩, burnt, burn, paid, pay, p', record, written⟩,
      r.token_key, sync⟩

/-- Without the account the withdrawal stops at the owner of what is not there. -/
theorem session_withdraw_without (hp : ProgramLaws rt) {userWsol : AccountMeta}
    (hat : accounts[5]? = some userWsol) (w₂ : Ledger) :
    processWithdrawWsolWithSession rt sv accounts poolTokens (w.without rt userWsol.key) ≠ .ok w₂ := by
  intro h
  obtain ⟨r⟩ := processWithdrawWsolWithSession_run rt sv h
  have hwsol : userWsol = r.userWsol := Option.some.inj (hat.symm.trans r.userWsol_at)
  obtain ⟨-, -, howner, -, -⟩ := (checkSessionUser_eq_ok rt sv).mp r.isUser
  rw [← hwsol] at howner
  have hsystem : ((w.without rt userWsol.key) userWsol.key).owner = rt.systemProgramId := by
    rw [Ledger.without, Ledger.set_same]
  exact hp.token_ne_system _ (.inl rfl) ((r.token_key.symm.trans howner.symm).trans hsystem)

/-- The two withdrawals agree exactly where the ledger before fails one of the checks. -/
theorem independentOfWsol_iff (ht : TokenLaws rt) (hp : ProgramLaws rt) (hb : BurnLaws rt) (hc : CreditLaws rt)
    (hi : IdempotentCreate rt) {userWsol : AccountMeta} (hat : accounts[5]? = some userWsol)
    (hw : EmptyWsol rt w userWsol.key user) :
    IndependentOfWsol rt sv accounts poolTokens userWsol.key w ↔
      IsEmpty (SessionChecks rt sv accounts poolTokens user w) := by
  rw [← not_nonempty_iff, ← session_withdraw_iff ht hp hb hc hi hat hw]
  constructor
  · rintro (⟨-, w₂, -, hwithout, -⟩ | ⟨hfails, -⟩)
    · exact absurd hwithout (session_withdraw_without hp hat w₂)
    · rintro ⟨w₁, hwith⟩
      exact hfails w₁ hwith
  · intro hfails
    exact .inr ⟨fun w₁ hwith => hfails ⟨w₁, hwith⟩, fun w₂ => session_withdraw_without hp hat w₂⟩

end

section Example

open Reference

theorem burnLaws : BurnLaws runtime where
  burn mintKey authority cosigner amount account mint account' mint' h := by
    simp only [runtime, burn, bind_eq_ok, openMint_eq_ok, failIf_eq_ok, exists_unit, pure_eq_ok,
      Prod.mk.injEq] at h
    obtain ⟨m, hm, t, ht, -, hnative, -, rfl, rfl⟩ := h
    obtain ⟨htoken, hmint⟩ := openToken_eq_ok ht
    refine ⟨⟨m, hm⟩, ⟨t, htoken, hmint⟩, hnative, ?_, ?_⟩
    · rw [Account.lessTokens, htoken]
    · rw [Account.lessTokens, hm]

theorem idempotentCreate : IdempotentCreate runtime := by
  intro wallet mintKey tokenProgram payer account t howner hdata hwallet hmint
  show createAssociatedIdempotent wallet mintKey tokenProgram payer account = _
  rw [createAssociatedIdempotent, hdata]
  exact if_pos ⟨hwallet, hmint⟩

/-- The wallet with its wrapped SOL spent. -/
def spentWsol : Ledger := inSession.ledger.set (wsolOf runtime wallet)
  ⟨minimumBalance 165, splTokenId, 165, .token ⟨nativeMintId, wallet, 0, .initialized, []⟩⟩

theorem spentWsol_empty : EmptyWsol runtime spentWsol (writes (wsolOf runtime wallet)).key wallet := by
  have hspent : spentWsol (wsolOf runtime wallet) = ⟨minimumBalance 165, splTokenId, 165,
    .token ⟨nativeMintId, wallet, 0, .initialized, []⟩⟩ := Ledger.set_same ..
  exact ⟨congrArg Account.owner hspent, _, congrArg Account.data hspent, rfl, rfl, rfl⟩

/-- More tokens than the wallet has cannot be withdrawn either way: the token program does not burn them. -/
theorem independentOfWsol_tooMany :
    IndependentOfWsol runtime inSession.sysvars sessionWithdrawAccounts 9000000000
      (writes (wsolOf runtime wallet)).key spentWsol := by
  have hat : sessionWithdrawAccounts[5]? = some (writes (wsolOf runtime wallet)) := rfl
  have hfails : ∀ w', processWithdrawWsolWithSession runtime inSession.sysvars sessionWithdrawAccounts 9000000000
      spentWsol ≠ .ok w' := by
    intro w' hw'
    have hfailed : succeeded (processWithdrawWsolWithSession runtime inSession.sysvars sessionWithdrawAccounts
      9000000000 spentWsol) = false := by decide +kernel
    rw [hw'] at hfailed
    cases hfailed
  refine (independentOfWsol_iff tokenLaws programLaws burnLaws creditLaws idempotentCreate hat
    spentWsol_empty).mpr (not_nonempty_iff.mp fun hchecks => ?_)
  obtain ⟨w', hw'⟩ := (session_withdraw_iff tokenLaws programLaws burnLaws creditLaws idempotentCreate hat
    spentWsol_empty).mpr hchecks
  exact hfails w' hw'

/-- A token can be withdrawn with the account in place, and not without it. -/
theorem dependsOnWsol :
    (∃ w₁, processWithdrawWsolWithSession runtime inSession.sysvars sessionWithdrawAccounts 1000000000
      spentWsol = .ok w₁) ∧
    (∀ w₂, processWithdrawWsolWithSession runtime inSession.sysvars sessionWithdrawAccounts 1000000000
      (spentWsol.without runtime (wsolOf runtime wallet)) ≠ .ok w₂) ∧
    ¬ IndependentOfWsol runtime inSession.sysvars sessionWithdrawAccounts 1000000000 (wsolOf runtime wallet)
      spentWsol := by
  have hat : sessionWithdrawAccounts[5]? = some (writes (wsolOf runtime wallet)) := rfl
  obtain ⟨w₁, hw₁⟩ := succeeded_iff.mp (show succeeded (processWithdrawWsolWithSession runtime inSession.sysvars
    sessionWithdrawAccounts 1000000000 spentWsol) = true by decide +kernel)
  have hwithout : ∀ w₂, processWithdrawWsolWithSession runtime inSession.sysvars sessionWithdrawAccounts 1000000000
      (spentWsol.without runtime (wsolOf runtime wallet)) ≠ .ok w₂ :=
    @session_withdraw_without runtime inSession.sysvars sessionWithdrawAccounts 1000000000 spentWsol programLaws
      (writes (wsolOf runtime wallet)) hat
  refine ⟨⟨w₁, hw₁⟩, hwithout, ?_⟩
  rintro (⟨-, w₂, -, hw₂, -⟩ | ⟨hfails, -⟩)
  · exact hwithout w₂ hw₂
  · exact hfails w₁ hw₁

end Example

end StakePoolFogo
