import StakePoolFogo.Confinement
import StakePoolFogo.Price
import StakePoolFogo.Solvency.Users

/-!
# What slippage limits promise

A withdrawal checks its limit on the lamports the pool tokens are worth, a deposit on the tokens that
go to the depositor.  What a withdrawal then hands over is decided later, by the account it is taken
from.
-/

open StakePoolFogo.Outcome

namespace StakePoolFogo

variable {rt : Runtime} {sv : Sysvars} {w w' w'' : Ledger} {x : Pubkey}

/-! ## Calls that leave every balance alone -/

/-- Every account holds the lamports it held. -/
def SameLamports (w w' : Ledger) : Prop := ∀ k, (w' k).lamports = (w k).lamports

namespace SameLamports

theorem refl (w : Ledger) : SameLamports w w := fun _ => rfl

theorem trans (h : SameLamports w w') (h' : SameLamports w' w'') : SameLamports w w'' :=
  fun k => (h' k).trans (h k)

theorem set {k : Pubkey} {a : Account} (h : a.lamports = (w k).lamports) :
    SameLamports w (w.set k a) := by
  intro j
  by_cases hj : j = k
  · rw [hj, Ledger.set_same, h]
  · rw [Ledger.set_other _ _ hj]

theorem of_invoke₁ {callees : List Pubkey} {k : Pubkey} {f : Account → Except ProgramError Account}
    (h : invoke₁ callees k f w = .ok w') : SameLamports w w' := by
  obtain ⟨a, -, -, hlamports, rfl⟩ := invoke₁_eq_ok.mp h
  exact set hlamports

theorem of_invoke₂ {callees : List Pubkey} {j k : Pubkey}
    {f : Account → Account → Except ProgramError (Account × Account)}
    (hf : ∀ a b a' b', f a b = .ok (a', b') → a'.lamports = a.lamports ∧ b'.lamports = b.lamports)
    (h : invoke₂ callees j k f w = .ok w') : SameLamports w w' := by
  obtain ⟨hne, a, b, hcall, -, -, -, rfl⟩ := invoke₂_eq_ok.mp h
  obtain ⟨ha, hb⟩ := hf _ _ _ _ hcall
  refine (set ha).trans (set ?_)
  rw [Ledger.set_other _ _ hne.symm]
  exact hb

theorem of_invokeMove {callees : List Pubkey} {j k : Pubkey}
    {f : Account → Account → Except ProgramError (Account × Account)}
    (hf : ∀ a b a' b', f a b = .ok (a', b') → a'.lamports = a.lamports ∧ b'.lamports = b.lamports)
    (h : invokeMove callees j k f w = .ok w') : SameLamports w w' := by
  rcases ite_eq_ok.mp h with ⟨-, h⟩ | ⟨-, h⟩
  · simp only [bind_eq_ok, pure_eq_ok] at h
    obtain ⟨_, -, rfl⟩ := h
    exact refl w
  · exact of_invoke₂ hf h

theorem of_writeStakePool {k : Pubkey} {p : StakePool} (h : writeStakePool w k p = .ok w') :
    SameLamports w w' := by
  obtain ⟨-, rfl⟩ := writeStakePool_eq_ok.mp h
  exact set rfl

theorem of_writeValidatorList (w : Ledger) (k : Pubkey) (l : ValidatorList) :
    SameLamports w (writeValidatorList w k l) := set rfl

end SameLamports

section Weightless

variable (weights : WeightLaws rt) {tokenProgram source mint destination : Pubkey}
  {authority : AccountMeta} {amount : Nat} {decimals : UInt8}

include weights

theorem tokenBurn_lamports (h : tokenBurn rt tokenProgram source mint authority amount w = .ok w') :
    mint ≠ rt.nativeMintId ∧ SameLamports w w' := by
  simp only [tokenBurn, bind_eq_ok, exists_unit] at h
  obtain ⟨-, -, hcall⟩ := (invoke₂_spec h.2.2)
  exact ⟨(weights.burn _ _ _ _ _ _ _ _ hcall).1,
    .of_invoke₂ (fun _ _ _ _ hf => (weights.burn _ _ _ _ _ _ _ _ hf).2) h.2.2⟩

theorem tokenTransfer_lamports (hmint : mint ≠ rt.nativeMintId)
    (h : tokenTransfer rt tokenProgram source mint destination authority amount decimals w = .ok w') :
    SameLamports w w' := by
  simp only [tokenTransfer, bind_eq_ok, exists_unit] at h
  exact .of_invokeMove (fun _ _ _ _ hf => weights.transfer _ _ _ _ _ _ _ _ _ _ hf hmint) h.2.2

theorem burnForSol_lamports {isWsolPath : Bool} {signer : Option AccountMeta} {managerFee : Pubkey}
    {quote : WithdrawalQuote} (h : burnForSol rt isWsolPath signer tokenProgram source mint managerFee
      authority quote decimals w = .ok w') : SameLamports w w' := by
  unfold burnForSol at h
  split at h
  · simp only [burnWithSession, bind_eq_ok, exists_unit] at h
    obtain ⟨-, -, w₁, hburn, hfee⟩ := h
    have hmint := (weights.burn _ _ _ _ _ _ _ _ (invoke₂_spec hburn).2.2).1
    refine .trans (.of_invoke₂ (fun _ _ _ _ hf => (weights.burn _ _ _ _ _ _ _ _ hf).2) hburn) ?_
    exact onlyIf_rel SameLamports.refl (fun _ => .of_invokeMove
      (fun _ _ _ _ hf => weights.transfer _ _ _ _ _ _ _ _ _ _ hf hmint)) hfee
  · simp only [burnWithSignature, bind_eq_ok] at h
    obtain ⟨w₁, hburn, hfee⟩ := h
    obtain ⟨hmint, hsame⟩ := tokenBurn_lamports weights hburn
    exact hsame.trans (onlyIf_rel SameLamports.refl
      (fun _ => tokenTransfer_lamports weights hmint) hfee)

end Weightless

/-! ## Token calls and stake accounts -/

section Strangers

variable (tokens : TokenLaws rt) {callees : List Pubkey} {source mint destination authority : Pubkey}
  {cosigner : Option Pubkey} {amount : Nat} {decimals : UInt8} {s : StakeStateV2}

include tokens

theorem invokeBurn_stake (hx : (w x).data = .stake s)
    (h : invoke₂ callees source mint (rt.token.burn mint authority cosigner amount) w = .ok w') :
    w' x = w x := by
  obtain ⟨-, honly, hcall⟩ := invoke₂_spec h
  obtain ⟨_, _, hm, -, ht, -⟩ := tokens.burn _ _ _ _ _ _ _ _ hcall
  refine honly x fun hin => ?_
  rcases List.mem_pair.mp hin with rfl | rfl
  · rw [hx] at ht
    cases ht
  · rw [hx] at hm
    cases hm

theorem invokeTransfer_stake (hx : (w x).data = .stake s) {mintAccount : Account}
    (h : invokeMove callees source destination
      (rt.token.transferChecked mint authority cosigner amount decimals mintAccount) w = .ok w') :
    w' x = w x := by
  rcases ite_eq_ok.mp h with ⟨-, h⟩ | ⟨-, h⟩
  · simp only [bind_eq_ok, pure_eq_ok] at h
    obtain ⟨_, -, rfl⟩ := h
    rfl
  · obtain ⟨-, honly, hcall⟩ := invoke₂_spec h
    obtain ⟨_, _, ht, hu, -⟩ := tokens.transfer _ _ _ _ _ _ _ _ _ _ hcall
    refine honly x fun hin => ?_
    rcases List.mem_pair.mp hin with rfl | rfl
    · rw [hx] at ht
      cases ht
    · rw [hx] at hu
      cases hu

theorem burnForSol_stake (hx : (w x).data = .stake s) {isWsolPath : Bool} {signer : Option AccountMeta}
    {tokenProgram managerFee : Pubkey} {user : AccountMeta} {quote : WithdrawalQuote}
    (h : burnForSol rt isWsolPath signer tokenProgram source mint managerFee user quote decimals w =
      .ok w') : w' x = w x := by
  unfold burnForSol at h
  split at h
  · simp only [burnWithSession, bind_eq_ok, exists_unit] at h
    obtain ⟨-, -, w₁, hburn, hfee⟩ := h
    have hburnt := invokeBurn_stake tokens hx hburn
    rcases onlyIf_eq_ok.mp hfee with ⟨-, hfee⟩ | ⟨-, rfl⟩
    · exact (invokeTransfer_stake tokens (hburnt ▸ hx) hfee).trans hburnt
    · exact hburnt
  · simp only [burnWithSignature, tokenBurn, bind_eq_ok, exists_unit] at h
    obtain ⟨w₁, ⟨-, -, hburn⟩, hfee⟩ := h
    have hburnt := invokeBurn_stake tokens hx hburn
    rcases onlyIf_eq_ok.mp hfee with ⟨-, hfee⟩ | ⟨-, rfl⟩
    · simp only [tokenTransfer, bind_eq_ok, exists_unit] at hfee
      exact (invokeTransfer_stake tokens (hburnt ▸ hx) hfee.2.2).trans hburnt
    · exact hburnt

end Strangers

theorem stakeAuthorizeSigned_lamports {pool stake newAuthority clock : Pubkey} {authority : AccountMeta}
    {authorityType : List UInt8} {bump : UInt8}
    (h : stakeAuthorizeSigned rt sv pool stake authority authorityType bump newAuthority clock w =
      .ok w') : SameLamports w w' := by
  simp only [stakeAuthorizeSigned, authorizeBoth, bind_eq_ok, exists_unit] at h
  obtain ⟨_, -, -, -, _, hstaker, hwithdrawer⟩ := h
  exact (SameLamports.of_invoke₁ hstaker).trans (.of_invoke₁ hwithdrawer)

/-! ## Withdrawals -/

section Withdraw

variable (weights : WeightLaws rt) (stakes : StakeLaws rt) {accounts : List AccountMeta}
  {poolTokens : Nat} {minimum : Option Nat}

/-- A quote that passed the limit is worth at least the limit. -/
theorem quoteWithdrawal_minimum {p : StakePool} {fee m : Nat} {quote : WithdrawalQuote}
    (h : quoteWithdrawal p poolTokens fee (some m) = .ok quote) : m ≤ quote.lamports := by
  simp only [quoteWithdrawal, bind_eq_ok, okOr_eq_ok, failIf_eq_ok, exists_unit, pure_eq_ok] at h
  obtain ⟨_, -, lamports, -, -, hlimit, rfl⟩ := h
  exact Nat.not_lt.mp fun hlt => hlimit ⟨m, rfl, hlt⟩

theorem writeWithdrawal_lamports {list : Pubkey} {l : ValidatorList} {plan : WithdrawPlan}
    (h : writeWithdrawal list l plan w = .ok w') : SameLamports w w' := by
  unfold writeWithdrawal at h
  split at h
  · cases h
    exact .refl _
  · simp only [bind_eq_ok, pure_eq_ok] at h
    obtain ⟨_, -, rfl⟩ := h
    exact .of_writeValidatorList _ _ _

include weights stakes

/-- What is split off arrives, and nothing else of the two accounts' lamports moves. -/
theorem WithdrawStakeRun.moved (r : WithdrawStakeRun rt sv accounts poolTokens minimum w w') :
    (w' r.splitTo.key).lamports = (w r.splitTo.key).lamports + r.plan.lamports ∧
      (w' r.splitFrom.key).lamports + r.plan.lamports = (w r.splitFrom.key).lamports := by
  obtain ⟨hmint, hburnt⟩ := tokenBurn_lamports weights r.burn
  obtain ⟨-, -, hcall⟩ := stakeSplit_spec r.splitOff
  obtain ⟨hleft, hgained⟩ := stakes.split_lamports hcall
  have hrest : SameLamports r.split w' :=
    ((stakeAuthorizeSigned_lamports r.handOver).trans (onlyIf_rel SameLamports.refl
      (fun _ => tokenTransfer_lamports weights hmint) r.charge)).trans
      ((SameLamports.of_writeStakePool r.write).trans (writeWithdrawal_lamports r.result))
  rw [hrest, hrest, ← hburnt r.splitTo.key, ← hburnt r.splitFrom.key]
  exact ⟨hgained, hleft⟩

/-- Only a validator account taken whole can hold less than the tokens are worth. -/
theorem WithdrawStakeRun.planned (r : WithdrawStakeRun rt sv accounts poolTokens minimum w w') :
    r.plan.lamports ≤ (w r.splitFrom.key).lamports ∧
      (r.plan.lamports = r.quote.lamports ∨ r.plan.lamports = (w r.splitFrom.key).lamports) := by
  obtain ⟨-, hleft⟩ := r.moved weights stakes
  refine ⟨by omega, ?_⟩
  have hcases := planWithdrawal_cases rt sv r.plan_eq
  generalize r.plan = plan at hcases
  cases hcases with
  | reserve => exact .inl rfl
  | active => exact .inl rfl
  | transient => exact .inl rfl
  | removal => exact .inr rfl

/-- A stake withdrawal keeps its limit exactly if the source account holds that much. -/
theorem WithdrawStakeRun.delivers_iff {m : Nat}
    (r : WithdrawStakeRun rt sv accounts poolTokens (some m) w w') :
    (w r.splitTo.key).lamports + m ≤ (w' r.splitTo.key).lamports ↔
      m ≤ (w r.splitFrom.key).lamports := by
  obtain ⟨hgained, -⟩ := r.moved weights stakes
  obtain ⟨hle, heq⟩ := r.planned weights stakes
  have hlimit := quoteWithdrawal_minimum r.quote_eq
  omega

/-- A SOL withdrawal pays what the tokens are worth; to the reserve itself it pays nothing. -/
theorem WithdrawSolRun.moved (tokens : TokenLaws rt) {isWsolPath : Bool}
    (r : WithdrawSolRun rt sv accounts poolTokens minimum isWsolPath w w') :
    (w' r.destination.key).lamports = (w r.destination.key).lamports +
      if r.destination.key = r.reserve.key then 0 else r.quote.lamports := by
  have hburnt := burnForSol_lamports weights r.burn
  have hwritten := SameLamports.of_writeStakePool r.result
  rw [hwritten, ← hburnt r.destination.key]
  split
  · rename_i heq
    have hpay := r.pay
    rw [heq] at hpay
    rw [(stakeWithdraw_self hpay).1]
    rfl
  · rename_i hne
    obtain ⟨-, hcall⟩ := stakeWithdraw_spec r.pay (Ne.symm hne)
    have hreserve : (r.burnt r.reserve.key).data = .stake (.initialized r.info) := by
      rw [burnForSol_stake tokens r.reserve_data r.burn]
      exact r.reserve_data
    obtain ⟨-, -, -, -, hcredit, -⟩ := stakes.withdraw _ _ _ _ _ _ _ _ _ hcall hreserve rfl
    rw [hcredit]

/-- A SOL withdrawal keeps its limit unless it pays the reserve back. -/
theorem WithdrawSolRun.delivers_iff (tokens : TokenLaws rt) {m : Nat} {isWsolPath : Bool}
    (r : WithdrawSolRun rt sv accounts poolTokens (some m) isWsolPath w w') :
    (w r.destination.key).lamports + m ≤ (w' r.destination.key).lamports ↔
      r.destination.key ≠ r.reserve.key ∨ m = 0 := by
  have hlimit := quoteWithdrawal_minimum r.quote_eq
  rw [r.moved weights stakes tokens]
  by_cases heq : r.destination.key = r.reserve.key
  · simp [heq]
  · simp only [heq, if_false, ne_eq, not_false_eq_true, true_or, iff_true]
    omega

end Withdraw

/-! ## Deposits -/

/-- At least `m` tokens of the pool have been added to the token account `user`. -/
def PoolTokensCredited (rt : Runtime) (pool user : Pubkey) (m : Nat) (w w' : Ledger) : Prop :=
  ∃ p t n, PoolAt rt w pool p ∧ (w user).data = .token t ∧ t.mint = p.poolMint ∧ m ≤ n ∧
    (w' user).data = .token { t with amount := t.amount + n }

theorem splitDeposit_minimum {newPoolTokens totalFee m : Nat} {referralFee : Option Nat}
    {shares : DepositShares}
    (h : splitDeposit newPoolTokens totalFee referralFee (some m) = .ok shares) : m ≤ shares.user := by
  simp only [splitDeposit, bind_eq_ok, okOr_eq_ok, failIf_eq_ok, exists_unit, pure_eq_ok] at h
  obtain ⟨user, -, _, -, _, -, -, -, hlimit, rfl⟩ := h
  exact Nat.not_lt.mp fun hlt => hlimit ⟨m, rfl, hlt⟩

theorem depositSolShares_minimum {p : StakePool} {lamports m : Nat} {shares : DepositShares}
    (h : depositSolShares p lamports (some m) = .ok shares) : m ≤ shares.user := by
  simp only [depositSolShares, bind_eq_ok] at h
  obtain ⟨_, -, _, -, h⟩ := h
  exact splitDeposit_minimum h

theorem depositStakeShares_minimum {p : StakePool} {total stake m : Nat} {shares : DepositShares}
    (h : depositStakeShares p total stake (some m) = .ok shares) : m ≤ shares.user := by
  simp only [depositStakeShares, bind_eq_ok] at h
  obtain ⟨_, -, _, -, _, -, _, -, _, -, _, -, h⟩ := h
  exact splitDeposit_minimum h

theorem solTransfer_data (system : SystemLaws rt) {source : AccountMeta} {destination : Pubkey}
    {amount : Nat} (h : solTransfer rt source destination amount w = .ok w') :
    (w' x).data = (w x).data := by
  simp only [solTransfer, bind_eq_ok, exists_unit] at h
  rcases ite_eq_ok.mp h.2 with ⟨-, h⟩ | ⟨-, h⟩
  · simp only [bind_eq_ok, pure_eq_ok] at h
    obtain ⟨_, -, rfl⟩ := h
    rfl
  · obtain ⟨-, honly, hcall⟩ := invoke₂_spec h
    obtain ⟨-, -, hsource, hdestination⟩ := system.transfer _ _ _ _ _ hcall
    by_cases hin : x ∈ [source.key, destination]
    · rcases List.mem_pair.mp hin with rfl | rfl
      · rw [hsource]
      · rw [hdestination]
    · rw [honly x hin]

theorem takeOverStake_onlyAt {pool stake clock : Pubkey} {depositAuthority : AccountMeta}
    {withdrawAuthority : Pubkey}
    (h : takeOverStake rt sv pool stake clock depositAuthority withdrawAuthority w = .ok w') :
    OnlyAt [stake] w w' := by
  unfold takeOverStake at h
  dsimp only at h
  split at h
  · simp only [stakeAuthorizeSigned, bind_eq_ok, exists_unit] at h
    obtain ⟨_, -, -, h⟩ := h
    exact authorizeBoth_onlyAt h
  · simp only [stakeAuthorize, bind_eq_ok, exists_unit] at h
    exact authorizeBoth_onlyAt h.2

/-- Stake withdrawals do not write to token accounts. -/
theorem stakeWithdraw_token (stakes : StakeLaws rt) {pool source destination clock history : Pubkey}
    {authority : AccountMeta} {bump : UInt8} {n : Nat} {s : StakeStateV2} {info : StakeMeta}
    {t : TokenAccount} (hsource : (w source).data = .stake s) (hmeta : s.meta? = some info)
    (ht : (w x).data = .token t)
    (h : stakeWithdraw rt sv pool source authority bump destination clock history n w = .ok w') :
    (w' x).data = .token t := by
  by_cases hne : source = destination
  · subst hne
    rw [(stakeWithdraw_self h).1]
    exact ht
  · obtain ⟨honly, hcall⟩ := stakeWithdraw_spec h hne
    obtain ⟨-, -, -, -, hcredit, -⟩ := stakes.withdraw _ _ _ _ _ _ _ _ _ hcall hsource hmeta
    by_cases hin : x ∈ [source, destination]
    · rcases List.mem_pair.mp hin with rfl | rfl
      · rw [hsource] at ht
        cases ht
      · rw [hcredit]
        exact ht
    · rw [honly x hin]
      exact ht

section Deposit

variable (tokens : TokenLaws rt) {accounts : List AccountMeta} {m : Nat}

include tokens

theorem DepositSolRun.credits (system : SystemLaws rt) {lamports : Nat} {isWsolPath : Bool}
    (r : DepositSolRun rt sv accounts lamports (some m) isWsolPath w w') :
    PoolTokensCredited rt r.pool.key r.user.key m w w' := by
  obtain ⟨⟨t, n, ht, hmint, hshare, ht'⟩, -⟩ :=
    mintShares_credits (x := r.user.key) tokens r.mintTokens
  have hpaid : (r.paid r.user.key).data = (w r.user.key).data := by
    rcases onlyIf_eq_ok.mp r.pay with ⟨-, hpay⟩ | ⟨-, hsame⟩
    · exact solTransfer_data system hpay
    · exact congrArg Account.data (congrFun hsame.symm _)
  have htw : (w r.user.key).data = .token t := hpaid ▸ ht
  have hne : r.user.key ≠ r.pool.key := by
    intro heq
    rw [heq, r.isPool.data] at htw
    cases htw
  refine ⟨r.p, t, n, r.isPool, htw, by rw [hmint, r.mint_key], ?_, ?_⟩
  · exact Nat.le_trans (depositSolShares_minimum r.shares_eq) hshare
  · rw [OnlyAt.of_writeStakePool r.result _ (by simpa using hne)]
    exact ht'

theorem DepositStakeRun.credits (laws : ProgramLaws rt) (stakes : StakeLaws rt)
    (r : DepositStakeRun rt sv accounts (some m) w w') :
    PoolTokensCredited rt r.pool.key r.user.key m w w' := by
  obtain ⟨⟨t, n, ht, hmint, hshare, ht'⟩, -⟩ :=
    mintShares_credits (x := r.user.key) tokens r.mintTokens
  obtain ⟨-, hmerged, hcall⟩ := stakeMerge_spec r.merge
  obtain ⟨_, _, d', -, -, -, howner, -, hd', -, -, -, hshape, hsource⟩ := stakes.merge _ _ _ _ _ _ hcall
  -- The two stake accounts hold stake after the merge, so the depositor's account is neither.
  have hvalidator : r.user.key ≠ r.validatorStake.key := by
    intro heq
    rw [heq, hd'] at ht
    cases ht
  have hdeposited : r.user.key ≠ r.stakeAccount.key := by
    intro heq
    rw [heq, hsource] at ht
    cases ht
  have htw : (w r.user.key).data = .token t := by
    rw [← takeOverStake_onlyAt r.take _ (by simpa using hdeposited),
      ← hmerged _ (by simp [hvalidator, hdeposited])]
    exact ht
  have hpool : r.user.key ≠ r.pool.key := by
    intro heq
    rw [heq, r.isPool.data] at htw
    cases htw
  have hlist : r.user.key ≠ r.list.key := by
    intro heq
    rw [heq, r.isList.data] at htw
    cases htw
  have hswept : (r.swept r.user.key).data = .token { t with amount := t.amount + n } := by
    rcases onlyIf_eq_ok.mp r.sweep with ⟨-, hsweep⟩ | ⟨-, hsame⟩
    · have hframe := (mintShares_frames r.mintTokens).others r.validatorStake.key (by
        rw [hshape.1, howner]
        simpa using (laws.token_ne_stake _ (mintShares_token r.mintTokens)).symm)
      exact stakeWithdraw_token stakes (hframe.data.trans r.stake_state') rfl ht' hsweep
    · rw [← hsame]
      exact ht'
  refine ⟨r.p, t, n, r.isPool, htw, by rw [hmint, r.mint_key], ?_, ?_⟩
  · exact Nat.le_trans (depositStakeShares_minimum r.shares_eq) hshare
  · rw [congrFun r.result, writeValidatorList, Ledger.set_other _ _ hlist,
      OnlyAt.of_writeStakePool r.write _ (by simpa using hpool)]
    exact hswept

end Deposit

/-- For every successful instruction with a slippage limit and any accounts: a stake withdrawal moves
at least the limit into its destination exactly if its source account holds that much, a SOL withdrawal
unless it pays the reserve into itself, and a deposit always credits the limit. -/
theorem slippage_limits_bind (laws : ProgramLaws rt) (tokens : TokenLaws rt) (weights : WeightLaws rt)
    (system : SystemLaws rt) (stakes : StakeLaws rt) {accounts : List AccountMeta} {s s' : World} :
    (∀ poolTokens minimum source destination,
      accounts[3]? = some source → accounts[4]? = some destination →
      Executes rt accounts (.withdrawStakeWithSlippage poolTokens minimum) s s' →
      ((s.ledger destination.key).lamports + minimum.toNat ≤ (s'.ledger destination.key).lamports ↔
        minimum.toNat ≤ (s.ledger source.key).lamports)) ∧
    (∀ poolTokens minimum reserve destination,
      accounts[4]? = some reserve → accounts[5]? = some destination →
      Executes rt accounts (.withdrawSolWithSlippage poolTokens minimum) s s' →
      ((s.ledger destination.key).lamports + minimum.toNat ≤ (s'.ledger destination.key).lamports ↔
        destination.key ≠ reserve.key ∨ minimum.toNat = 0)) ∧
    (∀ minimum pool user, accounts[0]? = some pool → accounts[7]? = some user →
      Executes rt accounts (.depositStakeWithSlippage minimum) s s' →
      PoolTokensCredited rt pool.key user.key minimum.toNat s.ledger s'.ledger) ∧
    ∀ lamports minimum pool user, accounts[0]? = some pool → accounts[4]? = some user →
      Executes rt accounts (.depositSolWithSlippage lamports minimum) s s' →
      PoolTokensCredited rt pool.key user.key minimum.toNat s.ledger s'.ledger := by
  refine ⟨fun poolTokens minimum source destination hsource hdestination h => ?_,
    fun poolTokens minimum reserve destination hreserve hdestination h => ?_,
    fun minimum pool user hpool huser h => ?_, fun lamports minimum pool user hpool huser h => ?_⟩
  · -- Stake: the source account decides.
    obtain ⟨r⟩ := processWithdrawStake_run rt _ h.run
    obtain rfl := Option.some.inj (hsource.symm.trans r.splitFrom_at)
    obtain rfl := Option.some.inj (hdestination.symm.trans r.splitTo_at)
    exact r.delivers_iff weights stakes
  · -- SOL: paid from the reserve, so only a payment to the reserve itself goes nowhere.
    obtain ⟨r⟩ := processWithdrawSol_run rt _ h.run
    obtain rfl := Option.some.inj (hreserve.symm.trans r.reserve_at)
    obtain rfl := Option.some.inj (hdestination.symm.trans r.destination_at)
    exact r.delivers_iff weights stakes tokens
  · obtain ⟨r⟩ := processDepositStake_run rt _ h.run
    obtain rfl := Option.some.inj (hpool.symm.trans r.pool_at)
    obtain rfl := Option.some.inj (huser.symm.trans r.user_at)
    exact r.credits tokens laws stakes
  · obtain ⟨r⟩ := processDepositSol_run rt _ h.run
    obtain rfl := Option.some.inj (hpool.symm.trans r.pool_at)
    obtain rfl := Option.some.inj (huser.symm.trans r.user_at)
    exact r.credits tokens system

/-! ## A validator account that is worth less than the tokens -/

namespace Reference

def payout : Pubkey := key 60
def usersStake : Pubkey := key 61
def depositAuthority : Pubkey := (findDepositAuthorityProgramAddress runtime pool).1

/-- The pool with its first validator, an empty stake account to withdraw to, and half a SOL of stake
to deposit. -/
def trading : World where
  sysvars := staked.sysvars
  ledger := (staked.ledger.set payout
    ⟨minimumBalance stakeSpace, stakeProgramId, stakeSpace, .zeroed⟩).set usersStake
    ⟨minimumBalance stakeSpace + 500000000, stakeProgramId, stakeSpace, .stake (.stake
      { poolMeta with authorized := ⟨depositAuthority, depositAuthority⟩ }
      ⟨⟨vote, 500000000, 0, epochMax⟩, 0⟩)⟩

/-- The manager withdraws stake for the tokens in the fee account. -/
def withdrawStakeAccounts : List AccountMeta :=
  [writes pool, writes validatorList, reads withdrawAuthority, writes validatorStake, writes payout,
    reads manager, signs manager, writes managerFee, writes managerFee, writes mint,
    reads runtime.clockId, reads splTokenId, reads stakeProgramId]

def depositStakeAccounts : List AccountMeta :=
  [writes pool, writes validatorList, reads depositAuthority, reads withdrawAuthority,
    writes usersStake, writes validatorStake, writes reserve, writes managerFee, writes managerFee,
    writes managerFee, writes mint, reads runtime.clockId, reads runtime.stakeHistoryId,
    reads splTokenId, reads stakeProgramId]

/-- The whole account of the validator for one token more than it holds lamports. -/
def cashedOut (minimum : UInt64) : World :=
  trading.execute runtime withdrawStakeAccounts (.withdrawStakeWithSlippage 3282881 minimum)

end Reference

open Reference in
/-- With a limit the account can pay every instruction keeps it. -/
theorem slippage_limits_bind_paid :
    (trading.ledger payout).lamports + (3282880 : UInt64).toNat ≤
      ((cashedOut 3282880).ledger payout).lamports ∧
    (deposited.ledger user).lamports + (300000000 : UInt64).toNat ≤
      ((deposited.execute runtime withdrawSolAccounts
        (.withdrawSolWithSlippage 400000000 300000000)).ledger user).lamports ∧
    PoolTokensCredited runtime pool managerFee (500000000 : UInt64).toNat trading.ledger
      (trading.execute runtime depositStakeAccounts (.depositStakeWithSlippage 500000000)).ledger ∧
    PoolTokensCredited runtime pool userTokens (1000000000 : UInt64).toNat joined.ledger
      (joined.execute runtime depositSolAccounts
        (.depositSolWithSlippage 2000000000 1000000000)).ledger := by
  have hstake : Executes runtime withdrawStakeAccounts (.withdrawStakeWithSlippage 3282881 3282880)
      trading (cashedOut 3282880) := .of_succeeded (by decide +kernel)
  have hsol : Executes runtime withdrawSolAccounts (.withdrawSolWithSlippage 400000000 300000000)
      deposited _ := .of_succeeded (by decide +kernel)
  have hstakeIn : Executes runtime depositStakeAccounts (.depositStakeWithSlippage 500000000) trading
      _ := .of_succeeded (by decide +kernel)
  have hsolIn : Executes runtime depositSolAccounts (.depositSolWithSlippage 2000000000 1000000000)
      joined _ := .of_succeeded (by decide +kernel)
  have hfrom : withdrawStakeAccounts[3]? = some (writes validatorStake) := rfl
  have hto : withdrawStakeAccounts[4]? = some (writes payout) := rfl
  have hreserve : withdrawSolAccounts[4]? = some (writes reserve) := rfl
  have hpaid : withdrawSolAccounts[5]? = some (writes user) := rfl
  have hpool : depositStakeAccounts[0]? = some (writes pool) := rfl
  have huser : depositStakeAccounts[7]? = some (writes managerFee) := rfl
  have hpool' : depositSolAccounts[0]? = some (writes pool) := rfl
  have huser' : depositSolAccounts[4]? = some (writes userTokens) := rfl
  have hout := (slippage_limits_bind programLaws tokenLaws weightLaws systemLaws stakeLaws).1 _ _ _ _
    hfrom hto hstake
  have hsolOut := (slippage_limits_bind programLaws tokenLaws weightLaws systemLaws stakeLaws).2.1 _ _
    _ _ hreserve hpaid hsol
  have hin := (slippage_limits_bind programLaws tokenLaws weightLaws systemLaws stakeLaws).2.2.1 _ _ _
    hpool huser hstakeIn
  have hsolPaid := (slippage_limits_bind programLaws tokenLaws weightLaws systemLaws stakeLaws).2.2.2 _
    _ _ _ hpool' huser' hsolIn
  rw [show (writes payout).key = payout from rfl] at hout
  rw [show (writes user).key = user from rfl] at hsolOut
  exact ⟨hout.mpr (by decide +kernel), hsolOut.mpr (.inl (by decide)), hin, hsolPaid⟩

open Reference in
/-- A limit of 3282881 lamports is accepted, and 3282880 lamports are handed over. -/
theorem slippage_limit_missed :
    Executes runtime withdrawStakeAccounts (.withdrawStakeWithSlippage 3282881 3282881) trading
      (cashedOut 3282881) ∧
    ((cashedOut 3282881).ledger payout).lamports = (trading.ledger payout).lamports + 3282880 ∧
    ¬ (trading.ledger payout).lamports + 3282881 ≤ ((cashedOut 3282881).ledger payout).lamports :=
  ⟨.of_succeeded (by decide +kernel), by decide +kernel, by decide +kernel⟩

end StakePoolFogo
