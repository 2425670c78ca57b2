import StakePoolFogo.StakeWithdrawals

/-!
# Stake withdrawals in the ledger

`process_withdraw_stake` succeeds exactly if its accounts, its own checks and its calls allow it.  What the checks
leave of the stake accounts is what the stake program leaves of them, as far as the next withdrawal reads it, so
the checks say of several withdrawals what becomes of them in the ledger.
-/

open StakePoolFogo.Checked StakePoolFogo.Filling StakePoolFogo.Outcome

namespace StakePoolFogo

variable {rt : Runtime} {sv : Sysvars} {w w' : Ledger} {accounts : List AccountMeta} {poolTokens : Nat}
  {minimum : Option Nat}

/-! ## What the checks grant -/

section Granted

variable (rt sv) (pool burnFrom : Pubkey) (managerFee : Account)

/-- A withdrawal that the checks let through, with its quote and where it is taken from. -/
structure Granted (view : StakeView) (splitFrom : Pubkey) (poolTokens : Nat) (quote : WithdrawalQuote)
    (plan : WithdrawPlan) (view' : StakeView) : Prop where
  upToDate : ¬view.stakePool.lastUpdateEpoch < sv.epoch
  quoted : ∃ fee, withdrawalFee view.stakePool (view.stakePool.calcPoolTokensStakeWithdrawalFee poolTokens)
      burnFrom managerFee = .ok fee ∧ quoteWithdrawal view.stakePool poolTokens fee none = .ok quote
  planned : ∃ state info, (view.stakes splitFrom).tryStakeState = .ok state ∧ state.meta? = some info ∧
    planWithdrawal rt sv pool splitFrom view.stakePool view.validatorList state info
      (view.stakes splitFrom).lamports quote.lamports = .ok plan
  recorded : plan.stakePool.recordWithdrawal quote.burnt plan.lamports = .ok view'.stakePool
  booked : bookWithdrawal view.validatorList plan = .ok view'.validatorList
  stakes : view'.stakes = view.splitOff splitFrom plan.lamports

variable {rt sv pool burnFrom managerFee} {view view' : StakeView} {splitFrom : Pubkey}

theorem withdrawChecks_granted :
    withdrawChecks rt sv pool burnFrom managerFee view splitFrom poolTokens = .ok view' ↔
      ∃ quote plan, Granted rt sv pool burnFrom managerFee view splitFrom poolTokens quote plan view' := by
  simp only [withdrawChecks, bind_eq_ok, failIf_eq_ok, exists_unit, okOr_eq_ok, pure_eq_ok]
  constructor
  · rintro ⟨upToDate, fee, charged, quote, quoted, state, isStake, info, hasMeta, plan, planned, p', recorded,
      l', booked, rfl⟩
    exact ⟨quote, plan, upToDate, ⟨fee, charged, quoted⟩, ⟨state, info, isStake, hasMeta, planned⟩, recorded,
      booked, rfl⟩
  · rintro ⟨quote, plan, h⟩
    obtain ⟨fee, charged, quoted⟩ := h.quoted
    obtain ⟨state, info, isStake, hasMeta, planned⟩ := h.planned
    refine ⟨h.upToDate, fee, charged, quote, quoted, state, isStake, info, hasMeta, plan, planned, _, h.recorded,
      _, h.booked, ?_⟩
    rw [← h.stakes]

end Granted

/-! ## The accounts and the calls of the instruction -/

variable (rt) in
/-- The accounts of a `WithdrawStake` call that pass the account checks, with the records they hold. -/
structure WithdrawAccounts (w : Ledger) (accounts : List AccountMeta) where
  pool : AccountMeta
  list : AccountMeta
  authority : AccountMeta
  splitFrom : AccountMeta
  splitTo : AccountMeta
  newAuthority : AccountMeta
  transferAuthority : AccountMeta
  burnFrom : AccountMeta
  managerFee : AccountMeta
  mint : AccountMeta
  clock : AccountMeta
  tokenProgram : AccountMeta
  stakeProgram : AccountMeta
  p : StakePool
  l : ValidatorList
  decimals : UInt8
  pool_at : accounts[0]? = some pool
  list_at : accounts[1]? = some list
  authority_at : accounts[2]? = some authority
  splitFrom_at : accounts[3]? = some splitFrom
  splitTo_at : accounts[4]? = some splitTo
  newAuthority_at : accounts[5]? = some newAuthority
  transferAuthority_at : accounts[6]? = some transferAuthority
  burnFrom_at : accounts[7]? = some burnFrom
  managerFee_at : accounts[8]? = some managerFee
  mint_at : accounts[9]? = some mint
  clock_at : accounts[10]? = some clock
  tokenProgram_at : accounts[11]? = some tokenProgram
  stakeProgram_at : accounts[12]? = some stakeProgram
  isClock : clock.key = rt.clockId
  isStakeProgram : stakeProgram.key = rt.stakeProgramId
  isPool : PoolAt rt w pool.key p
  isMint : p.checkMint w mint.key = .ok decimals
  list_key : list.key = p.validatorList
  isAuthority : poolAuthority rt pool.key authorityWithdraw p.stakeWithdrawBumpSeed = .ok authority.key
  isManagerFee : p.managerFeeAccount = managerFee.key
  token_key : p.tokenProgramId = tokenProgram.key
  isList : ListAt rt w list.key l

namespace WithdrawAccounts

variable (c : WithdrawAccounts rt w accounts)

variable (sv) in
/-- Burn, split, hand over, charge. -/
def calls (quote : WithdrawalQuote) (lamports : Nat) (w : Ledger) : Except ProgramError Ledger := do
  let w ← tokenBurn rt c.tokenProgram.key c.burnFrom.key c.mint.key c.transferAuthority quote.burnt w
  let w ← stakeSplit rt sv c.pool.key c.splitFrom.key c.authority c.p.stakeWithdrawBumpSeed lamports
    c.splitTo.key w
  let w ← stakeAuthorizeSigned rt sv c.pool.key c.splitTo.key c.authority authorityWithdraw
    c.p.stakeWithdrawBumpSeed c.newAuthority.key c.clock.key w
  onlyIf (quote.fee > 0)
    (tokenTransfer rt c.tokenProgram.key c.burnFrom.key c.mint.key c.managerFee.key c.transferAuthority
      quote.fee c.decimals) w

end WithdrawAccounts

/-- The limit is one more check on the quote. -/
theorem quoteWithdrawal_limit {p : StakePool} {fee : Nat} {quote : WithdrawalQuote} :
    quoteWithdrawal p poolTokens fee minimum = .ok quote ↔
      quoteWithdrawal p poolTokens fee none = .ok quote ∧ ∀ m ∈ minimum, m ≤ quote.lamports := by
  simp only [quoteWithdrawal, bind_eq_ok, okOr_eq_ok, failIf_eq_ok, exists_unit, pure_eq_ok]
  constructor
  · rintro ⟨burnt, hburnt, lamports, hlamports, hpos, hlimit, rfl⟩
    refine ⟨⟨burnt, hburnt, lamports, hlamports, hpos, ?_, rfl⟩, fun m hm => ?_⟩
    · rintro ⟨m, hm, -⟩
      cases hm
    · exact Nat.not_lt.mp fun hlt => hlimit ⟨m, hm, hlt⟩
  · rintro ⟨⟨burnt, hburnt, lamports, hlamports, hpos, -, rfl⟩, hlimit⟩
    refine ⟨burnt, hburnt, lamports, hlamports, hpos, ?_, rfl⟩
    rintro ⟨m, hm, hlt⟩
    exact Nat.not_lt.mpr (hlimit m hm) hlt

/-- The list is written unless the reserve paid. -/
theorem writeWithdrawal_eq_ok {list : Pubkey} {l : ValidatorList} {plan : WithdrawPlan} :
    writeWithdrawal list l plan w = .ok w' ↔ ∃ l', bookWithdrawal l plan = .ok l' ∧
      w' = if plan.item.isSome = true then writeValidatorList w list l' else w := by
  unfold writeWithdrawal bookWithdrawal
  cases hitem : plan.item with
  | none =>
    constructor
    · rintro h
      exact ⟨l, rfl, (Except.ok.inj h).symm⟩
    · rintro ⟨l', -, rfl⟩
      rfl
  | some item =>
    simp only [bind_eq_ok, pure_eq_ok, Option.isSome_some, if_true]
    constructor
    · rintro ⟨v', hv', rfl⟩
      exact ⟨_, ⟨v', hv', rfl⟩, rfl⟩
    · rintro ⟨l', ⟨v', hv', rfl⟩, rfl⟩
      exact ⟨v', hv', rfl⟩

/-- Past the account checks, the instruction succeeds exactly if the checks let the withdrawal through at its
limit and the calls succeed and the pool record has room. -/
theorem processWithdrawStake_iff (c : WithdrawAccounts rt w accounts) :
    processWithdrawStake rt sv accounts poolTokens minimum w = .ok w' ↔
      ∃ quote plan view, Granted rt sv c.pool.key c.burnFrom.key (w c.managerFee.key) ⟨c.p, c.l, w⟩
          c.splitFrom.key poolTokens quote plan view ∧
        (∀ m ∈ minimum, m ≤ quote.lamports) ∧
        ∃ called written, c.calls sv quote plan.lamports w = .ok called ∧
          writeStakePool called c.pool.key view.stakePool = .ok written ∧
          w' = if plan.item.isSome = true then writeValidatorList written c.list.key view.validatorList
            else written := by
  have hclock := checkSysvar_eq_ok (u := ()).mpr c.isClock
  have hstake := checkStakeProgram_eq_ok (u := ()).mpr c.isStakeProgram
  have hpool := loadStakePool_eq_ok.mpr c.isPool
  have hlistKey := StakePool.checkValidatorList_eq_ok (u := ()).mpr c.list_key
  have hauthority := StakePool.checkAuthorityWithdraw_eq_ok (u := ()).mpr c.isAuthority
  have hlist := loadValidatorList_eq_ok.mpr c.isList
  have hmint := c.isMint
  have hfee := c.isManagerFee
  have htoken := c.token_key
  -- The account checks pass, so only the rest of the instruction is left.
  simp only [processWithdrawStake, accountAt, c.pool_at, c.list_at, c.authority_at, c.splitFrom_at, c.splitTo_at,
    c.newAuthority_at, c.transferAuthority_at, c.burnFrom_at, c.managerFee_at, c.mint_at, c.clock_at,
    c.tokenProgram_at, c.stakeProgram_at, okOr_some, ok_bind, hclock, hstake, hpool, hmint, hlistKey,
    hauthority, failIf_neg (not_not_intro hfee), failIf_neg (not_not_intro htoken), hlist]
  simp only [bind_eq_ok, failIf_eq_ok, exists_unit, okOr_eq_ok, WithdrawAccounts.calls]
  constructor
  · rintro ⟨upToDate, fee, charged, quote, quoted, state, isStake, info, hasMeta, plan, planned, burnt, burn,
      split, splitOff, handed, handOver, called, charge, p', recorded, written, write, result⟩
    obtain ⟨hquote, hlimit⟩ := quoteWithdrawal_limit.mp quoted
    obtain ⟨l', booked, hresult⟩ := writeWithdrawal_eq_ok.mp result
    exact ⟨quote, plan, ⟨p', l', StakeView.splitOff ⟨c.p, c.l, w⟩ c.splitFrom.key plan.lamports⟩,
      ⟨upToDate, ⟨fee, charged, hquote⟩, ⟨state, info, isStake, hasMeta, planned⟩, recorded, booked, rfl⟩,
      hlimit, called, written, ⟨burnt, burn, split, splitOff, handed, handOver, charge⟩, write, hresult⟩
  · rintro ⟨quote, plan, view, granted, hlimit, called, written,
      ⟨burnt, burn, split, splitOff, handed, handOver, charge⟩, write, hresult⟩
    obtain ⟨fee, charged, hquote⟩ := granted.quoted
    obtain ⟨state, info, isStake, hasMeta, planned⟩ := granted.planned
    have result := writeWithdrawal_eq_ok.mpr ⟨_, granted.booked, hresult⟩
    exact ⟨granted.upToDate, fee, charged, quote, quoteWithdrawal_limit.mpr ⟨hquote, hlimit⟩, state, isStake,
      info, hasMeta, plan, planned, burnt, burn, split, splitOff, handed, handOver, called, charge, _,
      granted.recorded, written, write, result⟩

/-- Nothing else can fail. -/
theorem processWithdrawStake_succeeds_iff (c : WithdrawAccounts rt w accounts) :
    (∃ w', processWithdrawStake rt sv accounts poolTokens minimum w = .ok w') ↔
      ∃ quote plan view, Granted rt sv c.pool.key c.burnFrom.key (w c.managerFee.key) ⟨c.p, c.l, w⟩
          c.splitFrom.key poolTokens quote plan view ∧
        (∀ m ∈ minimum, m ≤ quote.lamports) ∧
        ∃ called, c.calls sv quote plan.lamports w = .ok called ∧
          view.stakePool.packedLen ≤ (called c.pool.key).dataLen := by
  constructor
  · rintro ⟨w', h⟩
    obtain ⟨quote, plan, view, granted, hlimit, called, written, hcalls, hwrite, -⟩ :=
      (processWithdrawStake_iff c).mp h
    exact ⟨quote, plan, view, granted, hlimit, called, hcalls, (writeStakePool_eq_ok.mp hwrite).1⟩
  · rintro ⟨quote, plan, view, granted, hlimit, called, hcalls, hroom⟩
    exact ⟨_, (processWithdrawStake_iff c).mpr ⟨quote, plan, view, granted, hlimit, called, _, hcalls,
      writeStakePool_eq_ok.mpr ⟨hroom, rfl⟩, rfl⟩⟩

/-- The account checks are needed. -/
theorem processWithdrawStake_accounts
    (h : processWithdrawStake rt sv accounts poolTokens minimum w = .ok w') :
    Nonempty (WithdrawAccounts rt w accounts) := by
  simp only [processWithdrawStake, bind_eq_ok, accountAt_eq_ok, exists_unit, failIf_eq_ok,
    checkSysvar_eq_ok, checkStakeProgram_eq_ok, loadStakePool_eq_ok,
    StakePool.checkAuthorityWithdraw_eq_ok, StakePool.checkValidatorList_eq_ok, loadValidatorList_eq_ok,
    Decidable.not_not] at h
  obtain ⟨pool, pool_at, list, list_at, authority, authority_at, splitFrom, splitFrom_at, splitTo, splitTo_at,
    newAuthority, newAuthority_at, transferAuthority, transferAuthority_at, burnFrom, burnFrom_at, managerFee,
    managerFee_at, mint, mint_at, h⟩ := h
  obtain ⟨clock, clock_at, isClock, tokenProgram, tokenProgram_at, stakeProgram, stakeProgram_at,
    isStakeProgram, p, isPool, decimals, isMint, list_key, isAuthority, isManagerFee, token_key, -, l, isList,
    -⟩ := h
  exact ⟨{
    pool, list, authority, splitFrom, splitTo, newAuthority, transferAuthority, burnFrom, managerFee, mint,
    clock, tokenProgram, stakeProgram, p, l, decimals, pool_at, list_at, authority_at, splitFrom_at,
    splitTo_at, newAuthority_at, transferAuthority_at, burnFrom_at, managerFee_at, mint_at, clock_at,
    tokenProgram_at, stakeProgram_at, isClock, isStakeProgram, isPool, isMint, list_key, isAuthority,
    isManagerFee, token_key, isList }⟩

/-! ## The program passes through the checks -/

theorem WithdrawPlan.Books.book {plan : WithdrawPlan} {l' : ValidatorList} (h : plan.Books l l') :
    bookWithdrawal l plan = .ok l' := by
  unfold bookWithdrawal
  rcases h with ⟨hitem, rfl⟩ | ⟨v, source, v', hitem, hrecord, rfl⟩
  · rw [hitem]
  · simp only [hitem, hrecord, ok_bind]
    rfl

/-- A successful `WithdrawStake` passes its own checks, and they say what becomes of the books. -/
theorem processWithdrawStake_checks (laws : ProgramLaws rt) {a splitFrom burnFrom managerFee : AccountMeta}
    {p : StakePool} {l : ValidatorList}
    (ha : accounts[0]? = some a) (hfrom : accounts[3]? = some splitFrom)
    (hburn : accounts[7]? = some burnFrom) (hfee : accounts[8]? = some managerFee)
    (hp : PoolAt rt w a.key p) (hl : ListAt rt w p.validatorList l)
    (h : processWithdrawStake rt sv accounts poolTokens minimum w = .ok w') :
    ∃ view, withdrawChecks rt sv a.key burnFrom.key (w managerFee.key) ⟨p, l, w⟩ splitFrom.key poolTokens =
        .ok view ∧
      PoolAt rt w' a.key view.stakePool ∧ ListAt rt w' p.validatorList view.validatorList := by
  obtain ⟨r, hburn', hfee', hcharge⟩ := processWithdrawStake_charged rt sv h
  obtain ⟨l', hbooks, heffect⟩ := r.effect laws ha hp hl
  obtain rfl := Option.some.inj (ha.symm.trans r.pool_at)
  obtain rfl := Option.some.inj (hfrom.symm.trans r.splitFrom_at)
  obtain rfl := Option.some.inj (hburn.symm.trans hburn')
  obtain rfl := Option.some.inj (hfee.symm.trans hfee')
  obtain rfl := hp.unique r.isPool
  obtain rfl := hl.unique (by rw [← r.list_key]; exact r.isList)
  refine ⟨⟨r.p', l', StakeView.splitOff ⟨r.p, r.l, w⟩ r.splitFrom.key r.plan.lamports⟩, ?_,
    heffect.own.after, heffect.list⟩
  unfold withdrawChecks
  simp only [failIf_neg r.upToDate, ok_bind, hcharge, (quoteWithdrawal_limit.mp r.quote_eq).1, r.state_eq,
    r.meta_eq, okOr_some, r.plan_eq, r.record, hbooks.book]
  rfl

/-! ## What the checks read of a stake account -/

/-- Lamports, stake meta and validator. -/
def Account.reading (a : Account) : Nat × Except ProgramError (Option StakeMeta × Option Pubkey) :=
  (a.lamports, a.tryStakeState.map fun s => (s.meta?, s.delegation?.map (·.voterPubkey)))

section Reading

variable {a b : Account} {s : StakeStateV2} {n : Nat}

theorem Account.reading_lamports (h : a.reading = b.reading) : a.lamports = b.lamports :=
  congrArg Prod.fst h

/-- What one stake state decodes to, the other does, as far as the checks read it. -/
theorem Account.reading_state (h : a.reading = b.reading) (ha : a.tryStakeState = .ok s) :
    ∃ t, b.tryStakeState = .ok t ∧ t.meta? = s.meta? ∧
      t.delegation?.map (·.voterPubkey) = s.delegation?.map (·.voterPubkey) := by
  have hstate := congrArg Prod.snd h
  simp only [reading, ha] at hstate
  obtain ⟨t, ht, hread⟩ := map_eq_ok.mp hstate.symm
  obtain ⟨hmeta, hvoter⟩ := Prod.mk.inj hread
  exact ⟨t, ht, hmeta, hvoter⟩

theorem Account.reading_of_data (hlamports : b.lamports = a.lamports) (hdata : b.data = a.data)
    (hlen : b.dataLen = a.dataLen) : b.reading = a.reading := by
  rw [reading, reading, tryStakeState, tryStakeState, hlamports, hdata, hlen]

theorem planWithdrawal_congr {pool splitFrom : Pubkey} {p : StakePool} {l : ValidatorList}
    {t : StakeStateV2} {info : StakeMeta} {held lamports : Nat}
    (h : t.delegation?.map (·.voterPubkey) = s.delegation?.map (·.voterPubkey)) :
    planWithdrawal rt sv pool splitFrom p l t info held lamports =
      planWithdrawal rt sv pool splitFrom p l s info held lamports := by
  cases hs : s.delegation? with
  | none =>
    rw [hs, Option.map_none, Option.map_eq_none_iff] at h
    simp only [planWithdrawal, hs, h]
  | some d =>
    rw [hs, Option.map_some, Option.map_eq_some_iff] at h
    obtain ⟨e, he, hvoter⟩ := h
    simp only [planWithdrawal, hs, he, okOr_some, ok_bind, hvoter]

/-- A split leaves of a reading what it leaves of the account. -/
theorem Account.reading_splitOff : (a.splitOff n).reading =
    if a.lamports ≤ n then (0, .ok (none, none)) else (a.lamports - n, a.reading.2) := by
  unfold splitOff
  split
  · rfl
  · -- Only the delegated amount of the data changes, which is not read.
    obtain ⟨held, owner, dataLen, data⟩ := a
    cases data with
    | stake s => cases s <;> rfl
    | _ => rfl

theorem Account.reading_splitOff_congr (h : a.reading = b.reading) :
    (a.splitOff n).reading = (b.splitOff n).reading := by
  rw [reading_splitOff, reading_splitOff, h, reading_lamports h]

theorem SameStake.voter_eq {t : StakeStateV2} (h : SameStake s t) :
    t.delegation?.map (·.voterPubkey) = s.delegation?.map (·.voterPubkey) := by
  cases h with
  | initialized => rfl
  | stake info voter _ _ => exact congrArg some voter

/-- The stake program leaves what the checks expect. -/
theorem StakeLaws.split_reading (stakes : StakeLaws rt) {authority : Pubkey}
    {source destination source' destination' : Account}
    (h : rt.stake.split sv authority n source destination = .ok (source', destination')) :
    source'.reading = (source.splitOff n).reading := by
  obtain ⟨s, sm, _, _, hdata, -, -, -, -, -, hlamports, -, -, -, -, -, -, -, -, -, -, -, hempty, hrest⟩ :=
    stakes.split _ _ _ _ _ _ _ h
  rw [Account.reading_splitOff]
  -- An emptied account reads as uninitialized, any other one keeps its meta and its validator.
  by_cases hzero : source'.lamports = 0
  · rw [if_pos (by omega), Account.reading, Account.tryStakeState, hzero, hempty hzero]
    rfl
  · obtain ⟨-, s', hdata', hsame⟩ := hrest hzero
    have heq : source.lamports - n = source'.lamports := by omega
    rw [if_neg (by omega), heq]
    simp only [Account.reading, Account.tryStakeState, hdata, hdata']
    show (_, Except.ok (s'.meta?, s'.delegation?.map (·.voterPubkey))) = _
    rw [hsame.meta_eq, hsame.voter_eq]
    rfl

end Reading

/-! ## Views that follow the ledger -/

section Tracks

variable {pool burnFrom splitFrom : Pubkey} {managerFee fee : Account} {view view' other : StakeView}
  {sources : List Pubkey} {quote : WithdrawalQuote} {plan : WithdrawPlan} {k : Pubkey}

/-- The checks cannot tell views apart that read the same, nor fee accounts that are both usable. -/
theorem Granted.congr
    (h : Granted rt sv pool burnFrom managerFee view splitFrom poolTokens quote plan view')
    (hpool : other.stakePool = view.stakePool) (hlist : other.validatorList = view.validatorList)
    (hreads : (view.stakes splitFrom).reading = (other.stakes splitFrom).reading)
    (hfee : succeeded (view.stakePool.checkManagerFeeInfo fee) =
      succeeded (view.stakePool.checkManagerFeeInfo managerFee)) :
    Granted rt sv pool burnFrom fee other splitFrom poolTokens quote plan
      { view' with stakes := other.splitOff splitFrom plan.lamports } := by
  obtain ⟨charged, hcharged, hquote⟩ := h.quoted
  obtain ⟨state, info, isStake, hasMeta, planned⟩ := h.planned
  obtain ⟨state', isStake', hmeta, hvoter⟩ := Account.reading_state hreads isStake
  refine ⟨?_, ⟨charged, ?_, ?_⟩, ⟨state', info, isStake', hmeta.trans hasMeta, ?_⟩, h.recorded, ?_, rfl⟩
  · rw [hpool]
    exact h.upToDate
  · rw [hpool, withdrawalFee, hfee]
    exact hcharged
  · rw [hpool]
    exact hquote
  · rw [hpool, hlist, planWithdrawal_congr hvoter, ← Account.reading_lamports hreads]
    exact planned
  · rw [hlist]
    exact h.booked

/-- The view agrees with the records of the pool and, as far as the checks read them, with the stake accounts at
`sources`. -/
structure StakeView.Tracks (rt : Runtime) (pool : Pubkey) (sources : List Pubkey) (view : StakeView)
    (w : Ledger) : Prop where
  isPool : PoolAt rt w pool view.stakePool
  isList : ListAt rt w view.stakePool.validatorList view.validatorList
  isStake : ∀ k ∈ sources, (w k).owner = rt.stakeProgramId
  reads : ∀ k ∈ sources, (view.stakes k).reading = (w k).reading

theorem WithdrawAccounts.calls_frames (c : WithdrawAccounts rt w accounts) {lamports : Nat} {called : Ledger}
    (h : c.calls sv quote lamports w = .ok called) : Frames (outsiders rt) w called := by
  simp only [WithdrawAccounts.calls, bind_eq_ok] at h
  obtain ⟨burnt, burn, split, splitOff, handed, handOver, charge⟩ := h
  have htoken := token_subset_outsiders (tokenBurn_token burn)
  have hstake := ((stakeSplit_frames splitOff).trans (stakeAuthorizeSigned_frames handOver)).mono
    stake_subset_outsiders
  exact (((tokenBurn_frames burn).mono htoken).trans hstake).trans
    ((Frames.of_onlyIf (fun _ => tokenTransfer_frames) charge).mono htoken)

/-- The calls leave a stake account as the checks expect, unless the stake goes there. -/
theorem WithdrawAccounts.calls_reading (laws : ProgramLaws rt) (weights : WeightLaws rt) (stakes : StakeLaws rt)
    (c : WithdrawAccounts rt w accounts) {lamports : Nat} {called : Ledger}
    (h : c.calls sv quote lamports w = .ok called) (hk : (w k).owner = rt.stakeProgramId)
    (hne : k ≠ c.splitTo.key) :
    (called k).owner = rt.stakeProgramId ∧
      (called k).reading = (StakeView.splitOff ⟨c.p, c.l, w⟩ c.splitFrom.key lamports k).reading := by
  simp only [WithdrawAccounts.calls, bind_eq_ok] at h
  obtain ⟨burnt, burn, split, splitOff, handed, handOver, charge⟩ := h
  have hnotToken : rt.stakeProgramId ∉ [c.tokenProgram.key] := by
    simpa using (laws.token_ne_stake _ (tokenBurn_token burn)).symm
  -- Burning and charging pool tokens moves no lamports and leaves stake accounts alone.
  obtain ⟨hmint, hburnt⟩ := tokenBurn_lamports weights burn
  have hburn := (tokenBurn_frames burn).others k (by rw [hk]; exact hnotToken)
  have hsame : (burnt k).reading = (w k).reading :=
    Account.reading_of_data (hburnt k) hburn.data hburn.dataLen
  have hshape : (split k).owner = rt.stakeProgramId ∧
      (split k).reading = (StakeView.splitOff ⟨c.p, c.l, w⟩ c.splitFrom.key lamports k).reading := by
    obtain ⟨-, honly, hcall⟩ := stakeSplit_spec splitOff
    unfold StakeView.splitOff
    split
    · rename_i heq
      subst heq
      obtain ⟨_, _, _, _, -, -, -, -, -, -, -, -, hshape, -⟩ := stakes.split _ _ _ _ _ _ _ hcall
      exact ⟨hshape.1.trans (hburn.owner.trans hk),
        (stakes.split_reading hcall).trans (Account.reading_splitOff_congr hsame)⟩
    · rename_i hfrom
      rw [honly k (by simp [hne, hfrom])]
      exact ⟨hburn.owner.trans hk, hsame⟩
  obtain ⟨howner, hread⟩ := hshape
  -- Handing over concerns only the account the stake went to.
  have hhanded : handed k = split k := by
    simp only [stakeAuthorizeSigned, bind_eq_ok, exists_unit] at handOver
    obtain ⟨_, -, -, hover⟩ := handOver
    exact authorizeBoth_onlyAt hover k (by simpa using hne)
  have hcharge := (Frames.of_onlyIf (fun _ => tokenTransfer_frames) charge).others k
    (by rw [hhanded, howner]; exact hnotToken)
  have hlamports := onlyIf_rel SameLamports.refl (fun _ => tokenTransfer_lamports weights hmint) charge k
  rw [hhanded] at hcharge hlamports
  exact ⟨hcharge.owner.trans howner,
    (Account.reading_of_data hlamports hcharge.data hcharge.dataLen).trans hread⟩

/-- A withdrawal leaves the pool where its list is. -/
theorem Granted.validatorList
    (h : Granted rt sv pool burnFrom managerFee view splitFrom poolTokens quote plan view') :
    view'.stakePool.validatorList = view.stakePool.validatorList := by
  obtain ⟨state, info, -, -, planned⟩ := h.planned
  obtain ⟨hrecord, -⟩ := StakePool.recordWithdrawal_eq_ok.mp h.recorded
  have hcases := planWithdrawal_cases rt sv planned
  rw [hrecord]
  cases hcases <;> rfl

/-- The two writes leave stake accounts alone. -/
theorem writes_spare (laws : ProgramLaws rt) {list : Pubkey} {l l' : ValidatorList} {p p' : StakePool}
    {called written : Ledger} (hp : PoolAt rt called pool p) (hl : ListAt rt called list l)
    (hwrite : writeStakePool called pool p' = .ok written) (c : Prop) [Decidable c]
    (hw : w' = if c then writeValidatorList written list l' else written)
    (hk : (called k).owner = rt.stakeProgramId) : w' k = called k := by
  have hpool : k ≠ pool := by
    rintro rfl
    exact laws.stake_ne (hk.symm.trans hp.owner)
  have hlist : k ≠ list := by
    rintro rfl
    exact laws.stake_ne (hk.symm.trans hl.owner)
  obtain ⟨-, rfl⟩ := writeStakePool_eq_ok.mp hwrite
  rw [hw]
  split
  · rw [writeValidatorList, Ledger.set_other _ _ hlist, Ledger.set_other _ _ hpool]
  · exact Ledger.set_other _ _ hpool

/-- After a successful withdrawal, the view after the checks tracks the ledger. -/
theorem StakeView.Tracks.step (laws : ProgramLaws rt) (weights : WeightLaws rt) (stakes : StakeLaws rt)
    (c : WithdrawAccounts rt w accounts) (h : view.Tracks rt c.pool.key sources w)
    (hfrom : c.splitFrom.key ∈ sources) (hto : c.splitTo.key ∉ sources)
    (hfee : succeeded (view.stakePool.checkManagerFeeInfo (w c.managerFee.key)) =
      succeeded (view.stakePool.checkManagerFeeInfo managerFee))
    (hcall : processWithdrawStake rt sv accounts poolTokens minimum w = .ok w') :
    ∃ view', withdrawChecks rt sv c.pool.key c.burnFrom.key managerFee view c.splitFrom.key poolTokens =
        .ok view' ∧ view'.Tracks rt c.pool.key sources w' := by
  obtain ⟨quote, plan, after, hgranted, -, called, written, hcalls, hwrite, hw⟩ :=
    (processWithdrawStake_iff c).mp hcall
  have hpool : view.stakePool = c.p := h.isPool.unique c.isPool
  have hlist : view.validatorList = c.l := h.isList.unique (by rw [hpool, ← c.list_key]; exact c.isList)
  obtain ⟨after', hchecks, hp', hl'⟩ := processWithdrawStake_checks laws c.pool_at c.splitFrom_at c.burnFrom_at
    c.managerFee_at c.isPool (by rw [← c.list_key]; exact c.isList) hcall
  obtain rfl : after' = after :=
    Except.ok.inj (hchecks.symm.trans (withdrawChecks_granted.mpr ⟨quote, plan, hgranted⟩))
  -- The handler grants the withdrawal on the ledger, which reads like the view.
  have hfee' : succeeded (c.p.checkManagerFeeInfo managerFee) =
      succeeded (c.p.checkManagerFeeInfo (w c.managerFee.key)) := by
    rw [← hpool]
    exact hfee.symm
  have hgranted' := hgranted.congr hpool hlist (h.reads _ hfrom).symm hfee'
  have hframes : Frames (outsiders rt) w called := c.calls_frames hcalls
  have hkept : ∀ k ∈ sources, (w' k).owner = rt.stakeProgramId ∧
      (w' k).reading = (StakeView.splitOff ⟨c.p, c.l, w⟩ c.splitFrom.key plan.lamports k).reading := by
    intro k hk
    obtain ⟨howner, hread⟩ := c.calls_reading laws weights stakes hcalls (h.isStake k hk)
      (fun heq => hto (heq ▸ hk))
    have hsame := writes_spare laws (c.isPool.of_frames laws hframes) (c.isList.of_frames laws hframes) hwrite
      _ hw howner
    rw [hsame]
    exact ⟨howner, hread⟩
  refine ⟨_, withdrawChecks_granted.mpr ⟨quote, plan, hgranted'⟩, hp', ?_, fun k hk => (hkept k hk).1,
    fun k hk => ?_⟩
  · show ListAt rt w' after'.stakePool.validatorList after'.validatorList
    rw [hgranted.validatorList]
    exact hl'
  · rw [(hkept k hk).2]
    show (view.splitOff c.splitFrom.key plan.lamports k).reading = _
    have hread := h.reads k hk
    unfold StakeView.splitOff
    split
    · exact Account.reading_splitOff_congr hread
    · exact hread

/-- Whether the instruction succeeds, the view says as well as the ledger. -/
theorem StakeView.Tracks.succeeds_iff (c : WithdrawAccounts rt w accounts)
    (h : view.Tracks rt c.pool.key sources w) (hfrom : c.splitFrom.key ∈ sources)
    (hfee : succeeded (view.stakePool.checkManagerFeeInfo (w c.managerFee.key)) =
      succeeded (view.stakePool.checkManagerFeeInfo managerFee)) :
    (∃ w', processWithdrawStake rt sv accounts poolTokens minimum w = .ok w') ↔
      ∃ quote plan view', Granted rt sv c.pool.key c.burnFrom.key managerFee view c.splitFrom.key poolTokens
          quote plan view' ∧
        (∀ m ∈ minimum, m ≤ quote.lamports) ∧
        ∃ called, c.calls sv quote plan.lamports w = .ok called ∧
          view'.stakePool.packedLen ≤ (called c.pool.key).dataLen := by
  have hpool : view.stakePool = c.p := h.isPool.unique c.isPool
  have hlist : view.validatorList = c.l := h.isList.unique (by rw [hpool, ← c.list_key]; exact c.isList)
  have hread := h.reads _ hfrom
  rw [processWithdrawStake_succeeds_iff c]
  constructor
  · rintro ⟨quote, plan, after, hgranted, hrest⟩
    have hfee' : succeeded (c.p.checkManagerFeeInfo managerFee) =
        succeeded (c.p.checkManagerFeeInfo (w c.managerFee.key)) := by
      rw [← hpool]
      exact hfee.symm
    exact ⟨quote, plan, _, hgranted.congr hpool hlist hread.symm hfee', hrest⟩
  · rintro ⟨quote, plan, after, hgranted, hrest⟩
    exact ⟨quote, plan, _, hgranted.congr hpool.symm hlist.symm hread hfee, hrest⟩

end Tracks

/-! ## Several withdrawals -/

section Run

variable {ε σ : Type} (rt sv) (pool burnFrom : Pubkey) (managerFee : Account) (sources : List Pubkey)
  (address : σ → Pubkey)

/-- The program carries out the withdrawals one after the other.  What is split off goes elsewhere, and the fee
account stays as usable as it is. -/
inductive WithdrawalsRun : List (σ × Nat) → Ledger → Ledger → Prop where
  | nil (w : Ledger) : WithdrawalsRun [] w w
  | cons {source : σ} {poolTokens : Nat} {rest : List (σ × Nat)} {minimum : Option Nat}
      {accounts : List AccountMeta} {w w₁ w' : Ledger} (c : WithdrawAccounts rt w accounts)
      (isPool : c.pool.key = pool) (isBurnFrom : c.burnFrom.key = burnFrom)
      (isSource : c.splitFrom.key = address source) (listed : address source ∈ sources)
      (elsewhere : c.splitTo.key ∉ sources)
      (usable : succeeded (c.p.checkManagerFeeInfo (w c.managerFee.key)) =
        succeeded (c.p.checkManagerFeeInfo managerFee))
      (call : processWithdrawStake rt sv accounts poolTokens minimum w = .ok w₁)
      (others : WithdrawalsRun rest w₁ w') : WithdrawalsRun ((source, poolTokens) :: rest) w w'

variable {rt sv pool burnFrom managerFee sources address} {plan : ClientPlan ε σ} {taken : List (σ × Nat)}
  {view : StakeView}

/-- What the program has carried out, the checks alone carry out too, and they know what is left. -/
theorem WithdrawalsRun.carriedOut (laws : ProgramLaws rt) (weights : WeightLaws rt) (stakes : StakeLaws rt)
    (hrun : WithdrawalsRun rt sv pool burnFrom managerFee sources plan.stakeAddress taken w w')
    (h : view.Tracks rt pool sources w) :
    ∃ view', plan.withdraw rt sv pool burnFrom managerFee view taken = .ok view' ∧
      view'.Tracks rt pool sources w' := by
  induction hrun generalizing view with
  | nil w => exact ⟨view, carryOut_nil, h⟩
  | cons c isPool isBurnFrom isSource listed elsewhere usable call _ ih =>
    subst isPool isBurnFrom
    rw [← h.isPool.unique c.isPool] at usable
    -- One withdrawal by the step, the others by induction from the view it leaves.
    obtain ⟨next, hchecks, hnext⟩ := h.step laws weights stakes c (isSource ▸ listed) elsewhere usable call
    rw [isSource] at hchecks
    obtain ⟨view', hothers, h'⟩ := ih hnext
    exact ⟨view', carryOut_cons_eq_ok.mpr ⟨next, hchecks, hothers⟩, h'⟩

/-- A client whose withdrawals the program carries out is served in turn. -/
theorem WithdrawalsRun.servedInTurn (laws : ProgramLaws rt) (weights : WeightLaws rt) (stakes : StakeLaws rt)
    {amount : Nat} (hamount : 0 < amount) (hfill : fill plan.worth plan.sources amount = .ok (taken, 0))
    (hrun : WithdrawalsRun rt sv pool burnFrom managerFee sources plan.stakeAddress taken w w')
    (h : view.Tracks rt pool sources w) :
    plan.ServedInTurn rt sv pool burnFrom managerFee view amount := by
  obtain ⟨view', hwithdraw, -⟩ := hrun.carriedOut laws weights stakes h
  exact (ClientPlan.servedInTurn_iff hamount).mpr ⟨taken, hfill, view', hwithdraw⟩

end Run

end StakePoolFogo
