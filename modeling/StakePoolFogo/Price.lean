import StakePoolFogo.Lib.Share
import StakePoolFogo.Supply

/-!
# The price of a pool token

Deposits, withdrawals and updates are steps of the share book with the pool's lamports as assets and
its tokens as shares, so the price of a token does not fall.
-/

open StakePoolFogo.Checked StakePoolFogo.Outcome StakePoolFogo.Share

namespace StakePoolFogo

def StakePool.book (p : StakePool) : Book := ⟨p.totalLamports, p.poolTokenSupply⟩

/-! ## Every quote is rounded in favour of the pool -/

theorem Fee.apply_le {fee : Fee} {amount charged : Nat} (h : fee.apply amount = some charged)
    (hfee : fee.numerator ≤ fee.denominator) : charged ≤ amount := by
  unfold Fee.apply at h
  split at h
  · cases h
    exact Nat.zero_le _
  · rename_i hpos
    simp only [Option.bind_eq_bind, Option.bind_eq_some_iff, checkedMul_eq_some, checkedAdd_eq_some,
      checkedSub_eq_some, checkedDiv_eq_some] at h
    obtain ⟨n, ⟨hn, -⟩, t, ⟨ht, -⟩, u, hu, hden, rfl⟩ := h
    have hle : fee.numerator.toNat ≤ fee.denominator.toNat := UInt64.le_iff_toNat_le.mp hfee
    have hmul : n ≤ amount * fee.denominator.toNat := hn ▸ Nat.mul_le_mul_left _ hle
    have hpos : 0 < fee.denominator.toNat := Nat.pos_of_ne_zero hden
    refine Nat.lt_succ_iff.mp ((Nat.div_lt_iff_lt_mul hpos).mpr ?_)
    rw [Nat.succ_mul]
    omega

theorem StakePool.calcPoolTokensForDeposit_fair {p : StakePool} {lamports tokens : Nat}
    (h : p.calcPoolTokensForDeposit lamports = some tokens) (hs : 0 < p.poolTokenSupply) :
    tokens * p.totalLamports ≤ lamports * p.poolTokenSupply := by
  unfold calcPoolTokensForDeposit at h
  split at h
  · rename_i hzero
    rcases hzero with hzero | hzero
    · rw [hzero, Nat.mul_zero]
      exact Nat.zero_le _
    · omega
  · simp only [Option.bind_eq_bind, Option.bind_eq_some_iff, checkedMul_eq_some, checkedDiv_eq_some,
      fits_eq_some] at h
    obtain ⟨_, ⟨rfl, -⟩, _, ⟨-, rfl⟩, rfl, -⟩ := h
    exact Nat.div_mul_le_self _ _

theorem StakePool.calcLamportsWithdrawAmount_fair {p : StakePool} {tokens lamports : Nat}
    (h : p.calcLamportsWithdrawAmount tokens = some lamports) :
    lamports * p.poolTokenSupply ≤ tokens * p.totalLamports := by
  simp only [calcLamportsWithdrawAmount, Option.bind_eq_bind, Option.bind_eq_some_iff,
    checkedMul_eq_some] at h
  obtain ⟨_, ⟨rfl, -⟩, h⟩ := h
  split at h
  · cases h
    rw [Nat.zero_mul]
    exact Nat.zero_le _
  · simp only [Option.bind_eq_some_iff, checkedDiv_eq_some, fits_eq_some] at h
    obtain ⟨_, ⟨-, rfl⟩, rfl, -⟩ := h
    exact Nat.div_mul_le_self _ _

/-- The manager's tokens are backed by a part of the reward. -/
theorem StakePool.calcEpochFeeAmount_fair {p : StakePool} {reward tokens : Nat}
    (h : p.calcEpochFeeAmount reward = some tokens) (hs : 0 < p.poolTokenSupply)
    (hfee : p.epochFee.numerator ≤ p.epochFee.denominator) : ∃ fee ≤ reward,
      tokens * (p.totalLamports + reward - fee) ≤ p.poolTokenSupply * fee := by
  unfold calcEpochFeeAmount at h
  split at h
  · cases h
    exact ⟨0, Nat.zero_le _, by rw [Nat.zero_mul]; exact Nat.zero_le _⟩
  · simp only [Option.bind_eq_bind, Option.bind_eq_some_iff, checkedAdd_eq_some] at h
    obtain ⟨_, ⟨rfl, -⟩, fee, happly, h⟩ := h
    have hle := Fee.apply_le happly hfee
    refine ⟨fee, hle, ?_⟩
    split at h
    · -- A fee of the whole total: the pool held nothing before.
      rename_i hall
      cases h
      have hzero : p.totalLamports + reward - fee = 0 := by omega
      rw [hzero, Nat.mul_zero]
      exact Nat.zero_le _
    · simp only [Option.bind_eq_some_iff, checkedMul_eq_some, checkedSub_eq_some,
        checkedDiv_eq_some, fits_eq_some] at h
      obtain ⟨_, ⟨rfl, -⟩, rest, hrest, _, ⟨-, rfl⟩, rfl, -⟩ := h
      have heq : p.totalLamports + reward - fee = rest := by omega
      rw [heq]
      exact Nat.div_mul_le_self _ _

/-! ## Steps of one pool -/

/-- A deposit of `lamports` into the pool at `k` for which `tokens` are minted. -/
inductive Deposits (rt : Runtime) (k : Pubkey) (s s' : World) : (lamports tokens : Nat) → Prop where
  | stake {accounts : List AccountMeta} {minimum : Option Nat}
      (run : DepositStakeRun rt s.sysvars accounts minimum s.ledger s'.ledger)
      (pool : run.pool.key = k) : Deposits rt k s s' run.deposited run.shares.newPoolTokens
  | sol {accounts : List AccountMeta} {lamports : Nat} {minimum : Option Nat}
      (run : DepositSolRun rt s.sysvars accounts lamports minimum false s.ledger s'.ledger)
      (pool : run.pool.key = k) : Deposits rt k s s' lamports run.shares.newPoolTokens
  | wsol {accounts inside : List AccountMeta} {lamports : Nat}
      (run : DepositWsolRun rt s.sysvars accounts lamports s.ledger s'.ledger)
      (inner : DepositSolRun rt s.sysvars inside lamports none true run.unwrapped s'.ledger)
      (pool : run.pool.key = k) (same : inner.pool = run.pool) :
      Deposits rt k s s' lamports inner.shares.newPoolTokens

/-- A withdrawal from the pool at `k` that burns `tokens` and pays `lamports`. -/
inductive Withdraws (rt : Runtime) (k : Pubkey) (s s' : World) : (tokens lamports : Nat) → Prop where
  | stake {accounts : List AccountMeta} {poolTokens : Nat} {minimum : Option Nat}
      (run : WithdrawStakeRun rt s.sysvars accounts poolTokens minimum s.ledger s'.ledger)
      (pool : run.pool.key = k) : Withdraws rt k s s' run.quote.burnt run.plan.lamports
  | sol {accounts : List AccountMeta} {poolTokens : Nat} {minimum : Option Nat}
      (run : WithdrawSolRun rt s.sysvars accounts poolTokens minimum false s.ledger s'.ledger)
      (pool : run.pool.key = k) : Withdraws rt k s s' run.quote.burnt run.quote.lamports
  | wsol {accounts inside : List AccountMeta} {poolTokens : Nat}
      (run : WithdrawWsolRun rt s.sysvars accounts poolTokens s.ledger s'.ledger)
      (inner : WithdrawSolRun rt s.sysvars inside poolTokens none true run.created run.withdrawn)
      (pool : run.pool.key = k) (same : inner.pool = run.pool)
      (token : rt.isTokenProgram inner.tokenProgram.key) :
      Withdraws rt k s s' inner.quote.burnt inner.quote.lamports

/-- A deposit, a withdrawal, or an update that finds no loss. -/
inductive Trades (rt : Runtime) (k : Pubkey) (s s' : World) : Prop where
  | deposit {lamports tokens : Nat} (h : Deposits rt k s s' lamports tokens)
  | withdraw {tokens lamports : Nat} (h : Withdraws rt k s s' tokens lamports)
  | update {accounts : List AccountMeta}
      (run : UpdatePoolRun rt s.sysvars accounts s.ledger s'.ledger) (pool : run.pool.key = k)
      (noLoss : run.p.totalLamports ≤ run.total)

/-- An epoch fee of at most one hundred per cent, now and next. -/
structure StakePool.FeesBounded (p : StakePool) : Prop where
  epochFee : p.epochFee.numerator ≤ p.epochFee.denominator
  nextEpochFee : ∀ fee, p.nextEpochFee.pending = some fee → fee.numerator ≤ fee.denominator

/-- A pool with its list, mirrored by its mint, with bounded fees. -/
structure Priced (rt : Runtime) (w : Ledger) (k : Pubkey) (p : StakePool) : Prop where
  pool : PoolAt rt w k p
  list : ∃ l, ListAt rt w p.validatorList l
  mint : ∃ m, PoolMint rt w k p m ∧ m.supply = p.poolTokenSupply
  fees : p.FeesBounded

variable {rt : Runtime} {k : Pubkey} {s s' : World} {p p' : StakePool} {lamports tokens : Nat}

theorem StakePool.FeesBounded.congr (h : p.FeesBounded) (hfee : p'.epochFee = p.epochFee)
    (hnext : p'.nextEpochFee = p.nextEpochFee) : p'.FeesBounded :=
  ⟨by rw [hfee]; exact h.epochFee, by rw [hnext]; exact h.nextEpochFee⟩

theorem StakePool.FeesBounded.advanceEpoch (h : p.FeesBounded) (epoch : Epoch) :
    (p.advanceEpoch epoch).FeesBounded := by
  unfold StakePool.advanceEpoch
  split
  · have hnext := h.nextEpochFee
    cases hn : p.nextEpochFee with
    | none => exact ⟨h.epochFee, fun fee hfee => nomatch hfee⟩
    | one fee =>
      rw [hn] at hnext
      exact ⟨hnext fee rfl, fun fee hfee => nomatch hfee⟩
    | two fee =>
      rw [hn] at hnext
      exact ⟨h.epochFee, hnext⟩
  · exact h

/-- The handler behind a trade. -/
theorem Trades.handled (h : Trades rt k s s') : ∃ accounts a,
    Handled rt s.sysvars accounts s.ledger s'.ledger ∧ accounts[0]? = some a ∧ a.key = k := by
  cases h with
  | deposit h =>
    cases h with
    | stake run pool => exact ⟨_, _, .depositStake run, run.pool_at, pool⟩
    | sol run pool => exact ⟨_, _, .depositSol run, run.pool_at, pool⟩
    | wsol run inner pool _ => exact ⟨_, _, .depositWsol run, run.pool_at, pool⟩
  | withdraw h =>
    cases h with
    | stake run pool => exact ⟨_, _, .withdrawStake run, run.pool_at, pool⟩
    | sol run pool => exact ⟨_, _, .withdrawSol run, run.pool_at, pool⟩
    | wsol run inner pool _ _ => exact ⟨_, _, .withdrawWsol run, run.pool_at, pool⟩
  | update run pool _ => exact ⟨_, _, .updatePool run, run.pool_at, pool⟩

theorem Deposits.record (laws : ProgramLaws rt) (h : Deposits rt k s s' lamports tokens)
    (hs : Priced rt s.ledger k p) (hp' : PoolAt rt s'.ledger k p') :
    p' = p.deposited tokens lamports ∧ p.calcPoolTokensForDeposit lamports = some tokens := by
  obtain ⟨l, hl⟩ := hs.list
  have hp := hs.pool
  cases h with
  | stake run pool =>
    subst pool
    have he := run.effect laws run.pool_at hp hl
    obtain rfl := hp.unique run.isPool
    exact ⟨hp'.unique he.own.after, (depositStakeShares_sum run.shares_eq).1⟩
  | sol run pool =>
    subst pool
    have he := run.effect laws run.pool_at hp hl rfl
    obtain rfl := hp.unique run.isPool
    exact ⟨hp'.unique he.own.after, (depositSolShares_sum run.shares_eq).1⟩
  | wsol run inner pool same =>
    subst pool
    have hp₁ := hp.of_frames laws run.frames
    have he := inner.effect laws run.pool_at hp₁ (hl.of_frames laws run.frames) same
    have hinner := inner.isPool
    rw [same] at hinner
    obtain rfl := hp₁.unique hinner
    exact ⟨hp'.unique he.own.after, (depositSolShares_sum inner.shares_eq).1⟩

/-- What a plan takes is at most what the burnt tokens are worth. -/
theorem PlanCases.lamports_le {sv : Sysvars} {pool splitFrom : Pubkey} {l : ValidatorList}
    {state : StakeStateV2} {info : StakeMeta} {inAccount : Nat} {plan : WithdrawPlan}
    (h : PlanCases rt sv pool splitFrom p l state info inAccount lamports plan) :
    plan.lamports ≤ lamports := by
  cases h with
  | removal v d _ _ _ _ _ _ whole => exact whole
  | _ => exact Nat.le_refl _

theorem PlanCases.fees {sv : Sysvars} {pool splitFrom : Pubkey} {l : ValidatorList}
    {state : StakeStateV2} {info : StakeMeta} {inAccount : Nat} {plan : WithdrawPlan}
    (h : PlanCases rt sv pool splitFrom p l state info inAccount lamports plan) :
    plan.stakePool.epochFee = p.epochFee ∧ plan.stakePool.nextEpochFee = p.nextEpochFee := by
  cases h <;> exact ⟨rfl, rfl⟩

theorem Withdraws.record (laws : ProgramLaws rt) (h : Withdraws rt k s s' tokens lamports)
    (hs : Priced rt s.ledger k p) (hp' : PoolAt rt s'.ledger k p') :
    p'.book = ⟨p.totalLamports - lamports, p.poolTokenSupply - tokens⟩ ∧
      tokens ≤ p.poolTokenSupply ∧ lamports ≤ p.totalLamports ∧
      lamports * p.poolTokenSupply ≤ tokens * p.totalLamports ∧ p'.FeesBounded := by
  obtain ⟨l, hl⟩ := hs.list
  have hp := hs.pool
  cases h with
  | stake run pool =>
    subst pool
    obtain ⟨l', -, he⟩ := run.effect laws run.pool_at hp hl
    obtain rfl := hp.unique run.isPool
    have hplan := planWithdrawal_cases rt s.sysvars run.plan_eq
    obtain ⟨hsupply, htotal⟩ := hplan.supply
    obtain ⟨hfee, hnext⟩ := hplan.fees
    obtain ⟨hrecord, hs₁, ht₁⟩ := StakePool.recordWithdrawal_eq_ok.mp run.record
    have hquote := StakePool.calcLamportsWithdrawAmount_fair (quoteWithdrawal_eq_ok run.quote_eq).2.2.1
    rw [hsupply] at hs₁
    rw [htotal] at ht₁
    rw [hp'.unique he.own.after, hrecord]
    refine ⟨?_, hs₁, ht₁, ?_, hs.fees.congr hfee hnext⟩
    · rw [StakePool.book, htotal, hsupply]
    · exact Nat.le_trans (Nat.mul_le_mul_right _ hplan.lamports_le) hquote
  | sol run pool =>
    subst pool
    have he := run.effect laws run.pool_at hp hl run.isToken rfl
    obtain rfl := hp.unique run.isPool
    obtain ⟨-, hs₁, ht₁⟩ := StakePool.recordWithdrawal_eq_ok.mp run.record
    have hquote := StakePool.calcLamportsWithdrawAmount_fair (quoteWithdrawal_eq_ok run.quote_eq).2.2.1
    rw [hp'.unique he.own.after]
    exact ⟨rfl, hs₁, ht₁, hquote, hs.fees.congr rfl rfl⟩
  | wsol run inner pool same token =>
    subst pool
    have hp₁ := hp.of_frames laws run.create_frames
    have he := (inner.effect laws run.pool_at hp₁ (hl.of_frames laws run.create_frames) token
      same).own.after.of_frames laws run.sync_frames
    have hinner := inner.isPool
    rw [same] at hinner
    obtain rfl := hp₁.unique hinner
    obtain ⟨-, hs₁, ht₁⟩ := StakePool.recordWithdrawal_eq_ok.mp inner.record
    have hquote :=
      StakePool.calcLamportsWithdrawAmount_fair (quoteWithdrawal_eq_ok inner.quote_eq).2.2.1
    rw [hp'.unique he]
    exact ⟨rfl, hs₁, ht₁, hquote, hs.fees.congr rfl rfl⟩

theorem UpdatePoolRun.step {accounts : List AccountMeta} (laws : ProgramLaws rt) (tokens : TokenLaws rt)
    (run : UpdatePoolRun rt s.sysvars accounts s.ledger s'.ledger) (hk : run.pool.key = k)
    (noLoss : run.p.totalLamports ≤ run.total) (hs : Priced rt s.ledger k p)
    (hpos : 0 < p.poolTokenSupply) (hp' : PoolAt rt s'.ledger k p') :
    Step p.book p'.book ∧ p'.FeesBounded := by
  subst hk
  obtain ⟨l, hl⟩ := hs.list
  have he := run.effect laws run.pool_at hs.pool hl
  obtain rfl := hs.pool.unique run.isPool
  obtain ⟨m, hmint, hm⟩ := hs.mint
  have hsupply := run.supply tokens (by rw [hmint.owner]; exact hmint.token) hmint.data
  have hfees := hs.fees.advanceEpoch s.sysvars.epoch
  rw [hp'.unique he.own.after]
  refine ⟨?_, ⟨hfees.epochFee, hfees.nextEpochFee⟩⟩
  -- The reward is what the total gained, and the fee tokens are minted against a part of it.
  obtain ⟨fee, hfee, hfair⟩ : ∃ fee ≤ run.total - run.p.totalLamports,
      run.fee * (run.p.totalLamports + (run.total - run.p.totalLamports) - fee) ≤
        run.p.poolTokenSupply * fee := by
    have hquote := run.fee_eq
    unfold epochFeeAmount at hquote
    split at hquote
    · exact StakePool.calcEpochFeeAmount_fair (okOr_eq_ok.mp hquote) hpos hs.fees.epochFee
    · refine ⟨0, Nat.zero_le _, ?_⟩
      rw [← Except.ok.inj hquote, Nat.zero_mul]
      exact Nat.zero_le _
  have hstep : Step run.p.book ⟨run.p.totalLamports + (run.total - run.p.totalLamports),
      run.p.poolTokenSupply + run.fee⟩ := .reward _ fee _ hfee hfair
  rw [Nat.add_sub_cancel' noLoss, ← hm, ← hsupply] at hstep
  exact hstep

/-- A trade keeps the pool, its list and the mirror, and is a step of the share book. -/
theorem Trades.step (laws : ProgramLaws rt) (tokens : TokenLaws rt) (h : Trades rt k s s')
    (hs : Priced rt s.ledger k p) (hpos : 0 < p.poolTokenSupply) :
    ∃ p', Priced rt s'.ledger k p' ∧ Step p.book p'.book := by
  obtain ⟨l, hl⟩ := hs.list
  obtain ⟨m, hmint, hm⟩ := hs.mint
  obtain ⟨accounts, a, hh, ha, rfl⟩ := h.handled
  obtain ⟨p', l', he⟩ := hh.effect laws ha hs.pool hl
  have hp' := he.own.after
  have hsame := he.step.sameIdentity
  obtain ⟨n, hmint', -, hn⟩ := (hh.supply laws tokens ha hs.pool hl hp').poolMint hsame hmint
  have hpriced : p'.FeesBounded → Priced rt s'.ledger a.key p' := fun hfees =>
    ⟨hp', ⟨l', hsame.validatorList ▸ he.list⟩, ⟨_, hmint', hn hm⟩, hfees⟩
  cases h with
  | deposit h =>
    obtain ⟨rfl, hprice⟩ := h.record laws hs hp'
    exact ⟨_, hpriced (hs.fees.congr rfl rfl),
      .deposit _ _ (StakePool.calcPoolTokensForDeposit_fair hprice hpos)⟩
  | withdraw h =>
    obtain ⟨hbook, htokens, hlamports, hfair, hfees⟩ := h.record laws hs hp'
    refine ⟨p', hpriced hfees, ?_⟩
    rw [hbook]
    exact .withdraw _ _ htokens hlamports hfair
  | update run pool noLoss =>
    obtain ⟨hstep, hfees⟩ := run.step laws tokens pool noLoss hs hpos hp'
    exact ⟨p', hpriced hfees, hstep⟩

/-! ## Runs -/

/-- The instructions that trade. -/
def StakePoolInstruction.trades : StakePoolInstruction → Bool
  | .depositStake | .depositStakeWithSlippage _ | .depositSol _ | .depositSolWithSlippage _ _
  | .depositWsolWithSession _ | .withdrawStake _ | .withdrawStakeWithSlippage _ _ | .withdrawSol _
  | .withdrawSolWithSlippage _ _ | .withdrawWsolWithSession _ | .updateStakePoolBalance => true
  | _ => false

/-- A successful instruction of that kind on the pool at `k`, for an update one whose new total is not
below the old one. -/
structure PriceMove (rt : Runtime) (k : Pubkey) (s s' : World) (accounts : List AccountMeta)
    (i : StakePoolInstruction) : Prop where
  executes : Executes rt accounts i s s'
  onPool : ∃ a, accounts[0]? = some a ∧ a.key = k
  trades : i.trades = true
  noLoss : i = .updateStakePoolBalance → ∀ p p', PoolAt rt s.ledger k p → PoolAt rt s'.ledger k p' →
    p.totalLamports ≤ p'.totalLamports

theorem PriceMove.toTrades (laws : ProgramLaws rt) {accounts : List AccountMeta}
    {i : StakePoolInstruction} (h : PriceMove rt k s s' accounts i) (hs : Priced rt s.ledger k p) :
    Trades rt k s s' := by
  obtain ⟨a, ha, hk⟩ := h.onPool
  have hrun := h.executes.run
  have htrades := h.trades
  -- The pool of the call is the one in first place.
  have hkey : ∀ {b : AccountMeta}, accounts[0]? = some b → b.key = k := by
    intro b hb
    rw [← Option.some.inj (ha.symm.trans hb), hk]
  cases i with
  | depositStake =>
    obtain ⟨r⟩ := processDepositStake_run rt _ hrun
    exact .deposit (.stake r (hkey r.pool_at))
  | depositStakeWithSlippage =>
    obtain ⟨r⟩ := processDepositStake_run rt _ hrun
    exact .deposit (.stake r (hkey r.pool_at))
  | depositSol =>
    obtain ⟨r⟩ := processDepositSol_run rt _ hrun
    exact .deposit (.sol r (hkey r.pool_at))
  | depositSolWithSlippage =>
    obtain ⟨r⟩ := processDepositSol_run rt _ hrun
    exact .deposit (.sol r (hkey r.pool_at))
  | depositWsolWithSession =>
    obtain ⟨r⟩ := processDepositWsolWithSession_run rt _ hrun
    obtain ⟨inner, hpool, -⟩ := r.inner
    exact .deposit (.wsol r inner (hkey r.pool_at) hpool)
  | withdrawStake =>
    obtain ⟨r⟩ := processWithdrawStake_run rt _ hrun
    exact .withdraw (.stake r (hkey r.pool_at))
  | withdrawStakeWithSlippage =>
    obtain ⟨r⟩ := processWithdrawStake_run rt _ hrun
    exact .withdraw (.stake r (hkey r.pool_at))
  | withdrawSol =>
    obtain ⟨r⟩ := processWithdrawSol_run rt _ hrun
    exact .withdraw (.sol r (hkey r.pool_at))
  | withdrawSolWithSlippage =>
    obtain ⟨r⟩ := processWithdrawSol_run rt _ hrun
    exact .withdraw (.sol r (hkey r.pool_at))
  | withdrawWsolWithSession =>
    obtain ⟨r⟩ := processWithdrawWsolWithSession_run rt _ hrun
    obtain ⟨inner, hpool, -, -, -, -, -, -, htoken⟩ := r.inner
    exact .withdraw (.wsol r inner (hkey r.pool_at) hpool (by rw [htoken]; exact Or.inl r.token_key))
  | updateStakePoolBalance =>
    obtain ⟨r⟩ := (processUpdateStakePoolBalance_run rt _).mp hrun
    have hpool := hkey r.pool_at
    subst hpool
    -- The update is the one event that may lower the price, which the run excludes.
    obtain ⟨l, hl⟩ := hs.list
    have he := r.effect laws r.pool_at hs.pool hl
    obtain rfl := hs.pool.unique r.isPool
    exact .update r rfl (h.noLoss rfl _ _ hs.pool he.own.after)
  | _ => cases htrades

/-- A price move that leaves tokens in circulation, or anything else that does not touch the mint. -/
inductive PriceStep (rt : Runtime) (k : Pubkey) (s s' : World) : Prop where
  | trade {accounts : List AccountMeta} {i : StakePoolInstruction}
      (move : PriceMove rt k s s' accounts i)
      (positive : ∀ p', PoolAt rt s'.ledger k p' → 0 < p'.poolTokenSupply)
  | elsewhere (step : Elsewhere rt s s')
      (mint : ∀ p m, PoolMint rt s.ledger k p m → PoolMint rt s'.ledger k p m)

/-- Withdrawals in a row, with what they burn and pay in total. -/
inductive Burns (rt : Runtime) (k : Pubkey) (s : World) : World → (tokens lamports : Nat) → Prop where
  | refl : Burns rt k s s 0 0
  | tail {s₁ s₂ : World} {t n t' n' : Nat} (run : Burns rt k s s₁ t n)
      (step : Withdraws rt k s₁ s₂ t' n') : Burns rt k s s₂ (t + t') (n + n')

theorem PriceStep.notBelow (laws : ProgramLaws rt) (tokens : TokenLaws rt) (h : PriceStep rt k s s')
    (hs : Priced rt s.ledger k p) (hpos : 0 < p.poolTokenSupply) :
    ∃ p', Priced rt s'.ledger k p' ∧ 0 < p'.poolTokenSupply ∧ NotBelow p.book p'.book := by
  cases h with
  | trade move positive =>
    obtain ⟨p', hs', hstep⟩ := (move.toTrades laws hs).step laws tokens hs hpos
    exact ⟨p', hs', positive p' hs'.pool, hstep.notBelow⟩
  | elsewhere step mint =>
    obtain ⟨l, hl⟩ := hs.list
    obtain ⟨m, hm, heq⟩ := hs.mint
    exact ⟨p, ⟨step.poolAt hs.pool, ⟨l, step.listAt hl⟩, ⟨m, mint p m hm, heq⟩, hs.fees⟩, hpos,
      .refl _⟩

theorem PriceStep.run_notBelow (laws : ProgramLaws rt) (tokens : TokenLaws rt)
    (h : Relation.ReflTransGen (PriceStep rt k) s s') (hs : Priced rt s.ledger k p)
    (hpos : 0 < p.poolTokenSupply) :
    ∃ p', Priced rt s'.ledger k p' ∧ 0 < p'.poolTokenSupply ∧ NotBelow p.book p'.book := by
  induction h with
  | refl => exact ⟨p, hs, hpos, .refl _⟩
  | tail _ hstep ih =>
    obtain ⟨q, hq, hq₀, hbelow⟩ := ih
    obtain ⟨p', hp', hp₀, hbelow'⟩ := hstep.notBelow laws tokens hq hq₀
    exact ⟨p', hp', hp₀, hbelow.trans hbelow' hq₀⟩

/-- As long as tokens are left, withdrawals move the totals by what they burn and pay. -/
theorem Burns.record (laws : ProgramLaws rt) (tokens : TokenLaws rt) {t n : Nat}
    (h : Burns rt k s s' t n) (hs : Priced rt s.ledger k p) (ht : t < p.poolTokenSupply) :
    ∃ p', Priced rt s'.ledger k p' ∧ p'.poolTokenSupply + t = p.poolTokenSupply ∧
      p'.totalLamports + n = p.totalLamports ∧ NotBelow p.book p'.book := by
  induction h with
  | refl => exact ⟨p, hs, rfl, rfl, .refl _⟩
  | tail _ step ih =>
    obtain ⟨q, hq, hsupply, htotal, hbelow⟩ := ih (by omega)
    have hq₀ : 0 < q.poolTokenSupply := by omega
    obtain ⟨p', hp', hstep⟩ := (Trades.withdraw step).step laws tokens hq hq₀
    obtain ⟨hbook, htokens, hlamports, -, -⟩ := step.record laws hq hp'.pool
    obtain ⟨hassets, hshares⟩ := Book.mk.inj hbook
    exact ⟨p', hp', by omega, by omega, hbelow.trans hstep.notBelow hq₀⟩

/-- Whoever deposits and burns no more than was minted gets at most the deposit back. -/
theorem Deposits.roundTrip (laws : ProgramLaws rt) (tokens : TokenLaws rt) {s₁ s₂ : World}
    {d minted burnt paid : Nat} (h : Deposits rt k s s₁ d minted) (hburn : Burns rt k s₁ s₂ burnt paid)
    (hle : burnt ≤ minted) (hs : Priced rt s.ledger k p) (hpos : 0 < p.poolTokenSupply) :
    paid ≤ d := by
  obtain ⟨p₁, hs₁, hstep⟩ := (Trades.deposit h).step laws tokens hs hpos
  obtain ⟨rfl, -⟩ := h.record laws hs hs₁.pool
  have hsupply₁ : (p.deposited minted d).poolTokenSupply = p.poolTokenSupply + minted := rfl
  have htotal₁ : (p.deposited minted d).totalLamports = p.totalLamports + d := rfl
  obtain ⟨p₂, -, hsupply, htotal, hbelow⟩ := hburn.record laws tokens hs₁ (by omega)
  have hfinal : NotBelow p.book p₂.book := hstep.notBelow.trans hbelow (by
    show 0 < (p.deposited minted d).poolTokenSupply
    omega)
  have hassets : p.totalLamports ≤ p₂.totalLamports := by
    refine hfinal.assets_le hpos ?_
    show p.poolTokenSupply ≤ p₂.poolTokenSupply
    omega
  omega

/-- The price of a pool token, total lamports over pool tokens, does not fall: not by a deposit, a
withdrawal or an update without loss, not over any run of them, and a deposit cannot be turned into
more lamports by burning the minted tokens in pieces. -/
theorem exchange_rate_never_falls (laws : ProgramLaws rt) (tokens : TokenLaws rt)
    (hs : Priced rt s.ledger k p) (hpos : 0 < p.poolTokenSupply) :
    (∀ s' accounts i p', PriceMove rt k s s' accounts i → PoolAt rt s'.ledger k p' →
      p.totalLamports * p'.poolTokenSupply ≤ p'.totalLamports * p.poolTokenSupply) ∧
    (∀ s', Relation.ReflTransGen (PriceStep rt k) s s' →
      ∃ p', Priced rt s'.ledger k p' ∧ 0 < p'.poolTokenSupply ∧
        p.totalLamports * p'.poolTokenSupply ≤ p'.totalLamports * p.poolTokenSupply) ∧
    ∀ s₁ s₂ d minted burnt paid, Deposits rt k s s₁ d minted → Burns rt k s₁ s₂ burnt paid →
      burnt ≤ minted → paid ≤ d := by
  refine ⟨fun s' accounts i p' hmove hp' => ?_, fun s' hrun => ?_, ?_⟩
  · obtain ⟨q, hq, hstep⟩ := (hmove.toTrades laws hs).step laws tokens hs hpos
    obtain rfl := hp'.unique hq.pool
    exact hstep.notBelow
  · exact PriceStep.run_notBelow laws tokens hrun hs hpos
  · intro s₁ s₂ d minted burnt paid hdeposit hburn hle
    exact hdeposit.roundTrip laws tokens hburn hle hs hpos

/-! ## A round trip on the reference chain -/

namespace Reference

def user : Pubkey := key 30
def userTokens : Pubkey := key 31

/-- The founded pool and a user with ten SOL and a token account. -/
def joined : World where
  sysvars := founded.sysvars
  ledger := (founded.ledger.set user ⟨10000000000, systemProgramId, 0, .zeroed⟩).set userTokens
    (tokenAccount user 0)

def depositSolAccounts : List AccountMeta :=
  [writes pool, reads withdrawAuthority, writes reserve, signs user, writes userTokens,
    writes managerFee, writes managerFee, writes mint, reads systemProgramId, reads splTokenId]

def withdrawSolAccounts : List AccountMeta :=
  [writes pool, reads withdrawAuthority, signs user, writes userTokens, writes reserve, writes user,
    writes managerFee, writes mint, reads runtime.clockId, reads runtime.stakeHistoryId,
    reads stakeProgramId, reads splTokenId]

def deposited : World := joined.execute runtime depositSolAccounts (.depositSol 1000000000)

def withdrawn : World := deposited.execute runtime withdrawSolAccounts (.withdrawSol 400000000)

theorem joined_priced : ∃ p, Priced runtime joined.ledger pool p ∧ p.poolTokenSupply = 5000000000 := by
  obtain ⟨p, hp, hfields⟩ : ∃ p, PoolAt runtime joined.ledger pool p ∧
      (p.poolTokenSupply, p.validatorList, p.poolMint, p.tokenProgramId) =
        (5000000000, validatorList, mint, splTokenId) := PoolAt.of_load _ (by decide +kernel)
  obtain ⟨q, hq, hfees⟩ : ∃ p, PoolAt runtime joined.ledger pool p ∧
      (p.epochFee, p.nextEpochFee.pending) = (default, none) := PoolAt.of_load _ (by decide +kernel)
  obtain rfl := hp.unique hq
  simp only [Prod.mk.injEq] at hfields hfees
  obtain ⟨hsupply, hlist, hmint, htoken⟩ := hfields
  obtain ⟨hfee, hnext⟩ := hfees
  refine ⟨p, ⟨hp, ?_, ?_, ?_⟩, hsupply⟩
  · rw [hlist]
    obtain ⟨l, hl⟩ : ∃ l, loadValidatorList runtime joined.ledger validatorList = .ok l :=
      succeeded_iff.mp (by decide +kernel)
    exact ⟨l, loadValidatorList_eq_ok.mp hl⟩
  · refine ⟨⟨some withdrawAuthority, 5000000000, 9, none, []⟩, ⟨?_, ?_, ?_, rfl⟩, hsupply.symm⟩
    · rw [hmint, htoken]
      decide +kernel
    · rw [htoken]
      exact Or.inl rfl
    · rw [hmint]
      decide +kernel
  · refine ⟨?_, fun fee hpending => ?_⟩
    · rw [hfee]
      decide
    · rw [hnext] at hpending
      cases hpending

end Reference

open Reference in
/-- One SOL in, 0.4 SOL's worth of tokens out. -/
theorem exchange_rate_never_falls_round_trip : ∃ minted burnt paid,
    Deposits runtime pool joined deposited 1000000000 minted ∧
    Burns runtime pool deposited withdrawn burnt paid ∧ 0 < burnt ∧ burnt ≤ minted ∧
    paid ≤ 1000000000 := by
  obtain ⟨p, hs, hsupply⟩ := joined_priced
  have hin : Executes runtime depositSolAccounts (.depositSol 1000000000) joined deposited :=
    .of_succeeded (by decide +kernel)
  have hout : Executes runtime withdrawSolAccounts (.withdrawSol 400000000) deposited withdrawn :=
    .of_succeeded (by decide +kernel)
  obtain ⟨p₁, hp₁, hsupply₁⟩ : ∃ p, PoolAt runtime deposited.ledger pool p ∧
      p.poolTokenSupply = 6000000000 := PoolAt.of_load _ (by decide +kernel)
  obtain ⟨p₂, hp₂, hsupply₂⟩ : ∃ p, PoolAt runtime withdrawn.ledger pool p ∧
      p.poolTokenSupply = 5600000001 := PoolAt.of_load _ (by decide +kernel)
  obtain ⟨run⟩ := processDepositSol_run runtime _ hin.run
  obtain ⟨run'⟩ := processWithdrawSol_run runtime _ hout.run
  have hdeposit := Deposits.sol run (congrArg AccountMeta.key (Option.some.inj run.pool_at)).symm
  have hwithdraw := Withdraws.sol run' (congrArg AccountMeta.key (Option.some.inj run'.pool_at)).symm
  have hburns := Burns.tail .refl hwithdraw
  obtain ⟨q₁, hs₁, -⟩ := (Trades.deposit hdeposit).step programLaws tokenLaws hs (by omega)
  obtain rfl := hp₁.unique hs₁.pool
  have hminted : p₁.poolTokenSupply = _ :=
    congrArg StakePool.poolTokenSupply (hdeposit.record programLaws hs hp₁).1
  obtain ⟨hbook, htokens, -⟩ := hwithdraw.record programLaws hs₁ hp₂
  obtain ⟨-, hburnt⟩ := Book.mk.inj hbook
  have hadd : p₁.poolTokenSupply = p.poolTokenSupply + run.shares.newPoolTokens := hminted
  have hle : 0 + run'.quote.burnt ≤ run.shares.newPoolTokens := by omega
  exact ⟨_, _, _, hdeposit, hburns, by omega, hle,
    (exchange_rate_never_falls programLaws tokenLaws hs (by omega)).2.2 _ _ _ _ _ _ hdeposit hburns
      hle⟩

end StakePoolFogo
