import StakePoolFogo.Preferred
import StakePoolFogo.Slippage

/-!
# Which stake a withdrawal may take

Active stake first, then stake in transit, then whole validators and the reserve.  The program scans
the list for entries with more than the tolerance and compares the source account with what it finds.
-/

open StakePoolFogo.Checked StakePoolFogo.Outcome

namespace StakePoolFogo

variable {rt : Runtime} {sv : Sysvars} {w w' : Ledger}

/-- What a withdrawal must leave behind, plus the worth of one pool token. -/
def withdrawTolerance (sv : Sysvars) (info : StakeMeta) (lamportsPerPoolToken : Nat) : Nat :=
  saturatingAdd 64 (minimumStakeLamports info sv.stakeMinimumDelegation) lamportsPerPoolToken

/-- No validator has more than `tolerance` active stake to withdraw. -/
def NoActiveAbove (l : ValidatorList) (tolerance : Nat) : Prop :=
  ∀ v ∈ l.validators, v.status = StakeStatus.active.toPod → v.activeStakeLamports ≤ tolerance

/-- No validator has more than `tolerance` stake in transit to withdraw. -/
def NoTransientAbove (l : ValidatorList) (tolerance : Nat) : Prop :=
  ∀ v ∈ l.validators, v.status = StakeStatus.active.toPod → v.transientStakeLamports ≤ tolerance

/-- A listed preferred validator with more than `tolerance` active stake is `vote`. -/
def PrefersOnly (p : StakePool) (l : ValidatorList) (tolerance : Nat) (vote : Pubkey) : Prop :=
  ∀ preferred u, p.preferredWithdrawValidatorVoteAddress = some preferred →
    l.find preferred = some u → tolerance < u.activeStakeLamports → preferred = vote

/-! ## The scans -/

theorem ValidatorStakeInfo.isActive_iff {v : ValidatorStakeInfo} :
    v.isActive = true ↔ v.status = StakeStatus.active.toPod := by
  rw [isActive, beq_iff_eq, PodStakeStatus.toStatus?_eq_some]

theorem noActiveAbove_of_scan {l : ValidatorList} {tolerance : Nat}
    (h : (l.validators.any fun v => v.activeLamportsGreaterThan tolerance && v.isActive) = false) :
    NoActiveAbove l tolerance := by
  intro v hv hstatus
  have hscan := List.any_eq_false.mp h v hv
  rw [ValidatorStakeInfo.isActive_iff.mpr hstatus, Bool.and_true,
    ValidatorStakeInfo.activeLamportsGreaterThan, decide_eq_true_eq] at hscan
  exact Nat.not_lt.mp hscan

theorem noTransientAbove_of_scan {l : ValidatorList} {tolerance : Nat}
    (h : (l.validators.any fun v => v.transientLamportsGreaterThan tolerance && v.isActive) = false) :
    NoTransientAbove l tolerance := by
  intro v hv hstatus
  have hscan := List.any_eq_false.mp h v hv
  rw [ValidatorStakeInfo.isActive_iff.mpr hstatus, Bool.and_true,
    ValidatorStakeInfo.transientLamportsGreaterThan, decide_eq_true_eq] at hscan
  exact Nat.not_lt.mp hscan

theorem checkPreferredWithdraw_only {p : StakePool} {l : ValidatorList} {tolerance : Nat}
    {vote : Pubkey} {u : Unit} (h : checkPreferredWithdraw p l tolerance vote = .ok u) :
    PrefersOnly p l tolerance vote := by
  intro preferred v hname hfound hlt
  simp only [checkPreferredWithdraw, hname, hfound, failIf_eq_ok, not_and_or, Decidable.not_not] at h
  rcases h with heq | hnone
  · exact heq
  · omega

/-- What a plan's tier says about the rest of the list. -/
def WithdrawPlan.InTurn (plan : WithdrawPlan) (p : StakePool) (l : ValidatorList) (tolerance : Nat) :
    Prop :=
  match plan.item with
  | none => NoActiveAbove l tolerance ∧ NoTransientAbove l tolerance
  | some (v, source) => PrefersOnly p l tolerance v.voteAccountAddress ∧
    match source with
    | .active => True
    | .transient => NoActiveAbove l tolerance
    | .validatorRemoval => NoActiveAbove l tolerance ∧ NoTransientAbove l tolerance

theorem planWithdrawal_inTurn {pool splitFrom : Pubkey} {p : StakePool} {l : ValidatorList}
    {state : StakeStateV2} {info : StakeMeta} {splitFromLamports lamports : Nat} {plan : WithdrawPlan}
    (h : planWithdrawal rt sv pool splitFrom p l state info splitFromLamports lamports = .ok plan) :
    ∃ perToken, p.getLamportsPerPoolToken = some perToken ∧
      plan.InTurn p l (withdrawTolerance sv info perToken) := by
  simp only [planWithdrawal, withdrawLimits, bind_eq_ok, okOr_eq_ok, pure_eq_ok] at h
  obtain ⟨limits, ⟨perToken, htoken, rfl⟩, h⟩ := h
  refine ⟨perToken, htoken, ?_⟩
  rcases ite_eq_ok.mp h with ⟨-, h⟩ | ⟨-, h⟩
  · simp only [bind_eq_ok, checkReserveWithdrawal, failIf_eq_ok, exists_unit, pure_eq_ok, not_or,
      Bool.not_eq_true] at h
    obtain ⟨⟨⟨htransient, hactive⟩, -⟩, rfl⟩ := h
    exact ⟨noActiveAbove_of_scan hactive, noTransientAbove_of_scan htransient⟩
  · simp only [bind_eq_ok, okOr_eq_ok, exists_unit, pure_eq_ok] at h
    obtain ⟨d, -, hpreferred, v, hfound, source, hsource, -, size, -, rfl⟩ := h
    refine ⟨ValidatorList.find_vote hfound ▸ checkPreferredWithdraw_only hpreferred, ?_⟩
    -- The source says which of the scans came back empty.
    unfold withdrawSource at hsource
    split at hsource
    · simp only [bind_eq_ok, exists_unit, pure_eq_ok] at hsource
      obtain ⟨-, rfl⟩ := hsource
      trivial
    · rename_i hactive
      rw [Bool.not_eq_true] at hactive
      split at hsource
      · simp only [bind_eq_ok, pure_eq_ok] at hsource
        obtain ⟨_, -, rfl⟩ := hsource
        exact noActiveAbove_of_scan hactive
      · rename_i hnone
        rw [not_or, Bool.not_eq_true] at hnone
        simp only [bind_eq_ok, exists_unit, pure_eq_ok] at hsource
        obtain ⟨-, rfl⟩ := hsource
        exact ⟨noActiveAbove_of_scan hactive, noTransientAbove_of_scan hnone.1⟩

/-! ## What a withdrawal leaves -/

/-- The entry a withdrawal took from: active, named by the source account's delegation, preferred if
another with enough stake would be, and the only one that changed. -/
structure SourceEntry (p : StakePool) (l l' : ValidatorList) (state : StakeStateV2) (tolerance : Nat)
    (v v' : ValidatorStakeInfo) : Prop where
  delegated : ∃ d, state.delegation? = some d ∧ d.voterPubkey = v.voteAccountAddress
  active : v.status = StakeStatus.active.toPod
  preferred : PrefersOnly p l tolerance v.voteAccountAddress
  changed : ∃ i, l.validators[i]? = some v ∧ l'.validators = l.validators.set i v'
  header : l'.header = l.header

/-- Where a withdrawal from `source`, which holds `left` lamports afterwards, took its stake: from the
reserve, from part of an entry's active or transient stake, or all of an entry's active stake. -/
inductive TakenInTurn (rt : Runtime) (sv : Sysvars) (pool source : Pubkey) (p p' : StakePool)
    (l l' : ValidatorList) (state : StakeStateV2) (info : StakeMeta) (tolerance left : Nat) : Prop where
  | reserve (isReserve : source = p.reserveStake) (active : NoActiveAbove l tolerance)
      (transient : NoTransientAbove l tolerance) (keeps : minimumReserveLamports info ≤ left)
      (same : l' = l)
  | active (v v' : ValidatorStakeInfo)
      (key : source = (findStakeProgramAddress rt v.voteAccountAddress pool v.validatorSeedSuffix).1)
      (entry : SourceEntry p l l' state tolerance v v')
      (keeps : minimumStakeLamports info sv.stakeMinimumDelegation ≤ left)
  | transient (v v' : ValidatorStakeInfo)
      (key : source =
        (findTransientStakeProgramAddress rt v.voteAccountAddress pool v.transientSeedSuffix).1)
      (entry : SourceEntry p l l' state tolerance v v') (active : NoActiveAbove l tolerance)
      (keeps : minimumStakeLamports info sv.stakeMinimumDelegation ≤ left)
  | whole (v v' : ValidatorStakeInfo)
      (key : source = (findStakeProgramAddress rt v.voteAccountAddress pool v.validatorSeedSuffix).1)
      (entry : SourceEntry p l l' state tolerance v v') (active : NoActiveAbove l tolerance)
      (transient : NoTransientAbove l tolerance) (noTransient : v.transientStakeLamports = 0)
      (emptied : v'.activeStakeLamports = 0 ∧ v'.transientStakeLamports = 0 ∧
        v'.status = StakeStatus.readyForRemoval.toPod) (drained : left = 0)
      (forgotten : p'.preferredDepositValidatorVoteAddress ≠ some v.voteAccountAddress ∧
        p'.preferredWithdrawValidatorVoteAddress ≠ some v.voteAccountAddress)

theorem SourceEntry.of_booked {p : StakePool} {l : ValidatorList} {state : StakeStateV2}
    {tolerance : Nat} {v : ValidatorStakeInfo} {d : Delegation} (delegation : state.delegation? = some d)
    (found : l.find d.voterPubkey = some v) (active : v.status = StakeStatus.active.toPod)
    (preferred : PrefersOnly p l tolerance v.voteAccountAddress) (v' : ValidatorStakeInfo) :
    SourceEntry p l (l.modify v.voteAccountAddress fun _ => v') state tolerance v v' where
  delegated := ⟨d, delegation, (ValidatorList.find_vote found).symm⟩
  active := active
  preferred := preferred
  changed := by
    rw [ValidatorList.find_vote found]
    exact ValidatorList.modify_eq_set v' found
  header := rfl

theorem StakePool.forgetPreferred_none (p : StakePool) (vote : Pubkey) :
    (p.forgetPreferred vote).preferredDepositValidatorVoteAddress ≠ some vote ∧
      (p.forgetPreferred vote).preferredWithdrawValidatorVoteAddress ≠ some vote := by
  have hforget : ∀ o : Option Pubkey, (if o = some vote then none else o) ≠ some vote := by
    intro o
    split
    · simp
    · assumption
  exact ⟨hforget _, hforget _⟩

section Run

variable (weights : WeightLaws rt) (stakes : StakeLaws rt) {accounts : List AccountMeta}
  {poolTokens : Nat} {minimum : Option Nat} {l' : ValidatorList}

include weights stakes

theorem WithdrawStakeRun.inTurn (r : WithdrawStakeRun rt sv accounts poolTokens minimum w w')
    (hbooks : r.plan.Books r.l l') : ∃ perToken, r.p.getLamportsPerPoolToken = some perToken ∧
      TakenInTurn rt sv r.pool.key r.splitFrom.key r.p r.p' r.l l' r.state r.info
        (withdrawTolerance sv r.info perToken) (w' r.splitFrom.key).lamports := by
  obtain ⟨perToken, htoken, hturn⟩ := planWithdrawal_inTurn r.plan_eq
  obtain ⟨-, hleft⟩ := r.moved weights stakes
  obtain ⟨hrecord, -, -⟩ := StakePool.recordWithdrawal_eq_ok.mp r.record
  have hcases := planWithdrawal_cases rt sv r.plan_eq
  refine ⟨perToken, htoken, ?_⟩
  rw [hrecord]
  -- The tier of the plan says both which records change and how much is left.
  generalize r.plan = plan at hcases hturn hbooks hleft
  cases hcases with
  | reserve isReserve enough =>
    change (w' r.splitFrom.key).lamports + r.quote.lamports = _ at hleft
    rcases hbooks with ⟨-, rfl⟩ | ⟨_, _, _, hitem, -⟩
    · exact .reserve isReserve hturn.1 hturn.2 (by omega) rfl
    · cases hitem
  | active v d _ delegation found status key enough =>
    change (w' r.splitFrom.key).lamports + r.quote.lamports = _ at hleft
    rcases hbooks with ⟨hitem, -⟩ | ⟨_, _, v', hitem, -, rfl⟩
    · cases hitem
    · cases hitem
      exact .active v v' (by rw [ValidatorList.find_vote found, key])
        (.of_booked delegation found status hturn.1 v') (by omega)
  | transient v d _ delegation found status key enough =>
    change (w' r.splitFrom.key).lamports + r.quote.lamports = _ at hleft
    rcases hbooks with ⟨hitem, -⟩ | ⟨_, _, v', hitem, -, rfl⟩
    · cases hitem
    · cases hitem
      exact .transient v v' (by rw [ValidatorList.find_vote found, key])
        (.of_booked delegation found status hturn.1 v') hturn.2 (by omega)
  | removal v d _ delegation found status key noTransient whole =>
    change (w' r.splitFrom.key).lamports + (w r.splitFrom.key).lamports = _ at hleft
    rcases hbooks with ⟨hitem, -⟩ | ⟨_, _, v', hitem, hbook, rfl⟩
    · cases hitem
    · cases hitem
      -- A whole withdrawal empties the entry.
      have hv' : v'.activeStakeLamports = 0 ∧ v'.transientStakeLamports = 0 ∧
          v'.status = StakeStatus.readyForRemoval.toPod := by
        obtain ⟨hsource, -⟩ | ⟨hsource, -⟩ | ⟨-, -, rfl⟩ := recordStakeWithdrawal_cases hbook
        · cases hsource
        · cases hsource
        · exact ⟨rfl, noTransient, rfl⟩
      exact .whole v v' (by rw [ValidatorList.find_vote found, key])
        (.of_booked delegation found status hturn.1 v') hturn.2.1 hturn.2.2 noTransient hv' (by omega)
        (ValidatorList.find_vote found ▸ r.p.forgetPreferred_none d.voterPubkey)

end Run

/-- The instructions that withdraw stake. -/
inductive StakePoolInstruction.WithdrawsStake : StakePoolInstruction → Prop where
  | plain (poolTokens : UInt64) : WithdrawsStake (.withdrawStake poolTokens)
  | slippage (poolTokens minimum : UInt64) :
      WithdrawsStake (.withdrawStakeWithSlippage poolTokens minimum)

/-- For every list and every successful stake withdrawal the source was in its turn.  In a reachable
world a listed preferred validator with enough active stake is the one the source is delegated to; in
any other that can fail for the reserve alone, when the preferred validator has left. -/
theorem withdrawal_priority (laws : ProgramLaws rt) (weights : WeightLaws rt) (stakes : StakeLaws rt)
    {accounts : List AccountMeta} {a source : AccountMeta} {i : StakePoolInstruction} {s s' : World}
    {p : StakePool} {l : ValidatorList} (ha : accounts[0]? = some a) (hsource : accounts[3]? = some source)
    (hp : PoolAt rt s.ledger a.key p) (hl : ListAt rt s.ledger p.validatorList l)
    (hi : i.WithdrawsStake) (h : Executes rt accounts i s s') :
    ∃ state info perToken p' l', (s.ledger source.key).tryStakeState = .ok state ∧
      state.meta? = some info ∧ p.getLamportsPerPoolToken = some perToken ∧
      PoolAt rt s'.ledger a.key p' ∧ ListAt rt s'.ledger p.validatorList l' ∧
      TakenInTurn rt s.sysvars a.key source.key p p' l l' state info
        (withdrawTolerance s.sysvars info perToken) (s'.ledger source.key).lamports ∧
      (Reachable rt s → ∀ preferred u, p.preferredWithdrawValidatorVoteAddress = some preferred →
        l.find preferred = some u →
        withdrawTolerance s.sysvars info perToken < u.activeStakeLamports →
        ∃ d, state.delegation? = some d ∧ d.voterPubkey = preferred) := by
  obtain ⟨poolTokens, minimum, hrun⟩ : ∃ poolTokens minimum, processWithdrawStake rt s.sysvars accounts
      poolTokens minimum s.ledger = .ok s'.ledger := by
    cases hi with
    | plain poolTokens => exact ⟨_, _, h.run⟩
    | slippage poolTokens minimum => exact ⟨_, _, h.run⟩
  obtain ⟨r⟩ := processWithdrawStake_run rt _ hrun
  obtain ⟨l', hbooks, heffect⟩ := r.effect laws ha hp hl
  obtain rfl := Option.some.inj (ha.symm.trans r.pool_at)
  obtain rfl := Option.some.inj (hsource.symm.trans r.splitFrom_at)
  obtain rfl := hp.unique r.isPool
  obtain rfl := hl.unique (by rw [← r.list_key]; exact r.isList)
  obtain ⟨perToken, htoken, hturn⟩ := r.inTurn weights stakes hbooks
  refine ⟨r.state, r.info, perToken, r.p', l', r.state_eq, r.meta_eq, htoken, heffect.own.after,
    heffect.list, hturn, fun hs preferred u hname hfound hlt => ?_⟩
  have hentry : ∀ {v v'}, SourceEntry r.p r.l l' r.state (withdrawTolerance s.sysvars r.info perToken)
      v v' → ∃ d, r.state.delegation? = some d ∧ d.voterPubkey = preferred := by
    intro v v' hv
    obtain ⟨d, hd, hvote⟩ := hv.delegated
    exact ⟨d, hd, hvote.trans (hv.preferred preferred u hname hfound hlt).symm⟩
  cases hturn with
  | reserve _ active _ _ _ =>
    -- A preferred validator that is listed and has stake is active, and the scan would have found it.
    obtain ⟨found, hdiscovered⟩ := hs.discovered r.pool.key
    rcases (hdiscovered.sound laws hp hl).withdraw preferred u hname hfound with hactive | hleft
    · have hle := active u (ValidatorList.find_mem hfound) hactive
      omega
    · have hzero := hleft.2
      omega
  | active v v' _ entry _ => exact hentry entry
  | transient v v' _ entry _ _ => exact hentry entry
  | whole v v' _ entry _ _ _ _ _ _ => exact hentry entry

/-! ## Withdrawals on the reference chain -/

namespace Reference

def preferring (a : Account) : Account :=
  match a.tryStakePool with
  | .ok p =>
    { a with data := .stakePool { p with preferredWithdrawValidatorVoteAddress := some vote } }
  | .error _ => a

/-- An entry on its way out, with one SOL of active stake. -/
def leaving : ValidatorStakeInfo :=
  ⟨1000000000, 0, 0, 0, 0, 0, StakeStatus.deactivatingValidator.toPod, vote⟩

/-- The pool prefers a validator that is being removed. -/
def leftBehind : World where
  sysvars := trading.sysvars
  ledger := (trading.ledger.set pool (preferring (trading.ledger pool))).set validatorList
    { trading.ledger validatorList with
      data := .validatorList ⟨⟨.validatorList, 10⟩, [leaving]⟩ }

def withdrawReserveAccounts : List AccountMeta :=
  [writes pool, writes validatorList, reads withdrawAuthority, writes reserve, writes payout,
    reads manager, signs manager, writes managerFee, writes managerFee, writes mint,
    reads runtime.clockId, reads splTokenId, reads stakeProgramId]

def wholeTaken : World := trading.execute runtime withdrawStakeAccounts (.withdrawStake 3282880)

end Reference

open Reference in
/-- The one validator's whole account is taken, and its entry is ready for removal. -/
theorem withdrawal_priority_whole : ∃ p p' l l' state info perToken,
    PoolAt runtime trading.ledger pool p ∧ PoolAt runtime wholeTaken.ledger pool p' ∧
    ListAt runtime trading.ledger p.validatorList l ∧
    ListAt runtime wholeTaken.ledger p.validatorList l' ∧
    TakenInTurn runtime trading.sysvars pool validatorStake p p' l l' state info
      (withdrawTolerance trading.sysvars info perToken) (wholeTaken.ledger validatorStake).lamports := by
  obtain ⟨p, hp, hlist⟩ : ∃ p, PoolAt runtime trading.ledger pool p ∧ p.validatorList = validatorList :=
    PoolAt.of_load _ (by decide +kernel)
  obtain ⟨l, hl⟩ : ∃ l, loadValidatorList runtime trading.ledger validatorList = .ok l :=
    succeeded_iff.mp (by decide +kernel)
  have hl : ListAt runtime trading.ledger p.validatorList l := hlist ▸ loadValidatorList_eq_ok.mp hl
  have hrun : Executes runtime withdrawStakeAccounts (.withdrawStake 3282880) trading wholeTaken :=
    .of_succeeded (by decide +kernel)
  have hpool : withdrawStakeAccounts[0]? = some (writes pool) := rfl
  have hsource : withdrawStakeAccounts[3]? = some (writes validatorStake) := rfl
  obtain ⟨state, info, perToken, p', l', -, -, -, hp', hl', hturn, -⟩ :=
    withdrawal_priority programLaws weightLaws stakeLaws hpool hsource hp hl (.plain _) hrun
  rw [show (writes validatorStake).key = validatorStake from rfl] at hturn
  exact ⟨p, p', l, l', state, info, perToken, hp, hp', hl, hl', hturn⟩

open Reference in
/-- The preferred validator is listed with one SOL of active stake, far above the tolerance, and the
reserve, which is not delegated, pays. -/
theorem withdrawal_priority_left_behind :
    (∃ w, processInstruction runtime leftBehind.sysvars withdrawReserveAccounts (.withdrawStake 1000000)
      leftBehind.ledger = .ok w) ∧
    (∃ p, PoolAt runtime leftBehind.ledger pool p ∧
      p.preferredWithdrawValidatorVoteAddress = some vote ∧ p.getLamportsPerPoolToken = some 1) ∧
    (∃ l, ListAt runtime leftBehind.ledger validatorList l ∧ l.find vote = some leaving) ∧
    (leftBehind.ledger reserve).tryStakeState = .ok (.initialized poolMeta) ∧
    withdrawTolerance leftBehind.sysvars poolMeta 1 < leaving.activeStakeLamports ∧
    ¬ ∃ d, StakeStateV2.delegation? (.initialized poolMeta) = some d ∧ d.voterPubkey = vote := by
  refine ⟨succeeded_iff.mp (by decide +kernel), ?_, ?_, ?_, ?_, ?_⟩
  · obtain ⟨p, hp, hfields⟩ : ∃ p, PoolAt runtime leftBehind.ledger pool p ∧
        (p.preferredWithdrawValidatorVoteAddress, p.getLamportsPerPoolToken) = (some vote, some 1) :=
      PoolAt.of_load _ (by decide +kernel)
    exact ⟨p, hp, Prod.mk.inj hfields⟩
  · exact ListAt.of_load _ (by decide +kernel)
  · decide +kernel
  · decide +kernel
  · generalize poolMeta = info
    rintro ⟨d, hd, -⟩
    cases hd

end StakePoolFogo
