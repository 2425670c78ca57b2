import StakePoolFogo.Cli.Withdraw
import StakePoolFogo.StakeWithdrawals

/-!
# Carrying out the command line's plan

`prepare_withdraw_accounts` fixes all amounts from one look at the pool and empties every account but the
last.  The program has each withdrawal leave the minimum behind.
-/

open StakePoolFogo.Checked StakePoolFogo.Filling StakePoolFogo.Outcome

namespace StakePoolFogo.Cli

section Plan

variable (rt : Runtime) (sv : Sysvars) (pool burnFrom : Pubkey) (managerFee : Account) (cluster : Cluster)
  (view : StakeView) (amount : Nat)

/-- The fee is skipped for the manager's own account. -/
def skipsFee (p : StakePool) : Bool := p.managerFeeAccount = burnFrom

/-- One `WithdrawStake` for each account of the plan. -/
def withdrawAll (accounts : List WithdrawAccount) : Except ProgramError StakeView :=
  accounts.foldlM (fun view account =>
    withdrawChecks rt sv pool burnFrom managerFee view account.stakeAddress account.poolAmount) view

/-- The plan is worked out without a fault, and if there is one, its positive amounts make up `amount` and
the program's checks let all of it through. -/
structure PlanExecutable : Prop where
  noFault : ∀ e, prepareWithdrawAccounts rt cluster view.stakePool view.validatorList amount pool
    (skipsFee burnFrom view.stakePool) = .error e → e ≠ .panicked ∧ e ≠ .overflowed
  carriedOut : ∀ accounts, prepareWithdrawAccounts rt cluster view.stakePool view.validatorList amount pool
      (skipsFee burnFrom view.stakePool) = .ok accounts →
    (∀ account ∈ accounts, 0 < account.poolAmount) ∧ (accounts.map (·.poolAmount)).sum = amount ∧
      ∃ view', withdrawAll rt sv pool burnFrom managerFee view accounts = .ok view'

/-- What the plan leaves on every account. -/
def minBalance : Nat := saturatingAdd 64 cluster.rentExemption (minimumDelegation cluster.stakeMinimumDelegation)

/-- All accounts in the plan's order. -/
def allSources (p : StakePool) (l : ValidatorList) (reserve : Nat) : List Source :=
  sortedAccounts l p (activeSource rt pool) ++
    sortedAccounts l p (transientSource rt pool (minBalance cluster)) ++
    [⟨p.reserveStake, reserve - (cluster.rentExemption + minimumReserve), none⟩]

/-- The accounts with more than the minimum. -/
def planSources (p : StakePool) (l : ValidatorList) (reserve : Nat) : List Source :=
  (allSources rt pool cluster p l reserve).filter fun source => minBalance cluster < source.lamports

/-- The pool tokens a source is taken to be worth. -/
def sourceWorth (p : StakePool) (source : Source) : Except CliError Nat :=
  availableForWithdrawal p (p.stakeWithdrawalFee.denominator.toNat - p.stakeWithdrawalFee.numerator.toNat)
    (skipsFee burnFrom p) source.lamports

/-- What the command line plans for a view. -/
def planOf : ClientPlan CliError Source where
  sources := planSources rt pool cluster view.stakePool view.validatorList
    (view.stakes view.stakePool.reserveStake).lamports
  stakeAddress := (·.stakeAddress)
  worth := sourceWorth burnFrom view.stakePool

/-- The lists are of this epoch and say what the stake accounts hold. -/
structure UpToDate : Prop where
  epoch : ¬view.stakePool.lastUpdateEpoch < sv.epoch
  delegation : cluster.stakeMinimumDelegation = sv.stakeMinimumDelegation
  reserve : cluster.lamports view.stakePool.reserveStake =
    some (view.stakes view.stakePool.reserveStake).lamports
  active : ∀ v ∈ view.validatorList.validators,
    (view.stakes (findStakeProgramAddress rt v.voteAccountAddress pool v.validatorSeedSuffix).1).lamports =
      v.activeStakeLamports
  rent : ∀ v ∈ view.validatorList.validators, ∀ state info,
    (view.stakes (findStakeProgramAddress rt v.voteAccountAddress pool v.validatorSeedSuffix).1).tryStakeState =
      .ok state → state.meta? = some info → info.rentExemptReserve = cluster.rentExemption

end Plan

/-! ## The plan fills the request -/

section Fill

variable {p : StakePool} {inverseFee minBalance : Nat} {skipFee : Bool}

/-- What is asked of a source. -/
def accountOf (part : Source × Nat) : WithdrawAccount := ⟨part.1.stakeAddress, part.1.voteAddress, part.2⟩

theorem takeFrom_eq_fill (sources : List Source) (remaining : Nat) :
    takeFrom p inverseFee minBalance skipFee sources remaining =
      (fun filled => (filled.1.map accountOf, filled.2)) <$>
        fill (fun source => availableForWithdrawal p inverseFee skipFee source.lamports)
          (sources.filter fun source => minBalance < source.lamports) remaining := by
  induction sources generalizing remaining with
  | nil => rfl
  | cons source sources ih =>
    unfold takeFrom
    by_cases hlow : source.lamports ≤ minBalance
    · rw [if_pos hlow, List.filter_cons_of_neg (by simpa using hlow), ih]
    · rw [if_neg hlow, List.filter_cons_of_pos (by simpa using hlow), fill]
      cases hworth : availableForWithdrawal p inverseFee skipFee source.lamports with
      | error e => rfl
      | ok k =>
        simp only [ok_bind]
        by_cases hle : remaining ≤ k
        · have hmin : min k remaining = remaining := Nat.min_eq_right hle
          rw [if_pos hle, hmin, if_pos (Nat.sub_self _)]
          rfl
        · have hmin : min k remaining = k := Nat.min_eq_left (by omega)
          rw [if_neg hle, hmin, if_neg (by omega), ih]
          cases fill (fun source => availableForWithdrawal p inverseFee skipFee source.lamports)
              (sources.filter fun source => minBalance < source.lamports) (remaining - k) with
          | error e => rfl
          | ok filled => rfl

end Fill

/-! ## When the plan is carried out -/

section Execution

variable {rt : Runtime} {sv : Sysvars} {pool burnFrom : Pubkey} {managerFee : Account} {cluster : Cluster}
  {view : StakeView} {amount : Nat}

theorem withdrawAll_taken (cluster : Cluster) (taken : List (Source × Nat)) :
    withdrawAll rt sv pool burnFrom managerFee view (taken.map accountOf) =
      (planOf rt pool burnFrom cluster view).withdraw rt sv pool burnFrom managerFee view taken := by
  rw [withdrawAll, ClientPlan.withdraw, carryOut, List.foldlM_map]
  rfl

theorem withdrawChecks_zero {splitFrom : Pubkey} {view' : StakeView} :
    withdrawChecks rt sv pool burnFrom managerFee view splitFrom 0 ≠ .ok view' := by
  intro h
  obtain ⟨-, -, quoted, -, -, -, -, -, -⟩ := withdrawChecks_eq_ok.mp h
  obtain ⟨-, hsum, hlamports, hpos⟩ := quoteWithdrawal_eq_ok quoted
  obtain ⟨-, -, hworth⟩ := StakePool.calcLamportsWithdrawAmount_pos hlamports hpos
  have hburnt : _ = 0 := Nat.eq_zero_of_add_eq_zero_right hsum.symm
  rw [hburnt, Nat.zero_mul, Nat.zero_div] at hworth
  omega

/-- The arithmetic of the plan before its loop. -/
structure FeeLeaves (cluster : Cluster) (p : StakePool) (reserve : Nat) : Prop where
  spare : cluster.rentExemption + minimumReserve ≤ reserve
  fee : p.stakeWithdrawalFee.numerator.toNat ≤ p.stakeWithdrawalFee.denominator.toNat

section Prepare

variable {p : StakePool} {l : ValidatorList} {reserve : Nat}

theorem prepareWithdrawAccounts_eq (hreserve : cluster.lamports p.reserveStake = some reserve)
    (h : FeeLeaves cluster p reserve) :
    prepareWithdrawAccounts rt cluster p l amount pool (skipsFee burnFrom p) = (do
      let (taken, missing) ← fill (sourceWorth burnFrom p) (planSources rt pool cluster p l reserve) amount
      failIf (missing > 0) (.noStakeAccounts amount)
      return taken.map accountOf) := by
  have hspare : checkedSub reserve (cluster.rentExemption + minimumReserve) =
      some (reserve - (cluster.rentExemption + minimumReserve)) :=
    checkedSub_eq_some.mpr (Nat.sub_add_cancel h.spare).symm
  have hfee : checkedSub p.stakeWithdrawalFee.denominator.toNat p.stakeWithdrawalFee.numerator.toNat =
      some (p.stakeWithdrawalFee.denominator.toNat - p.stakeWithdrawalFee.numerator.toNat) :=
    checkedSub_eq_some.mpr (Nat.sub_add_cancel h.fee).symm
  unfold prepareWithdrawAccounts
  simp only [hreserve, okOr_some, ok_bind, hspare, hfee, takeFrom_eq_fill]
  show ((fun filled : List (Source × Nat) × Nat => (filled.1.map accountOf, filled.2)) <$>
    fill (sourceWorth burnFrom p) (planSources rt pool cluster p l reserve) amount >>= _) = _
  cases fill (sourceWorth burnFrom p) (planSources rt pool cluster p l reserve) amount with
  | error e => rfl
  | ok filled => rfl

theorem prepareWithdrawAccounts_overflowed (hreserve : cluster.lamports p.reserveStake = some reserve)
    (h : ¬FeeLeaves cluster p reserve) :
    prepareWithdrawAccounts rt cluster p l amount pool (skipsFee burnFrom p) = .error .overflowed := by
  unfold prepareWithdrawAccounts
  simp only [hreserve, okOr_some, ok_bind]
  by_cases hspare : cluster.rentExemption + minimumReserve ≤ reserve
  · have hfee : ¬p.stakeWithdrawalFee.numerator.toNat ≤ p.stakeWithdrawalFee.denominator.toNat :=
      fun hfee => h ⟨hspare, hfee⟩
    rw [checkedSub, if_pos hspare, okOr_some, ok_bind, checkedSub, if_neg hfee]
    rfl
  · rw [checkedSub, if_neg hspare]
    rfl

theorem sourceWorth_fault {source : Source} {e : CliError} (h : sourceWorth burnFrom p source = .error e) :
    e = .panicked ∨ e = .overflowed := by
  unfold sourceWorth availableForWithdrawal at h
  cases htokens : p.calcPoolTokensForDeposit source.lamports with
  | none =>
    rw [htokens] at h
    cases h
    exact .inl rfl
  | some tokens =>
    rw [htokens, okOr_some, ok_bind] at h
    by_cases hskip : skipsFee burnFrom p = true
    · rw [if_pos hskip] at h
      cases h
    · rw [if_neg hskip] at h
      cases hproduct : checkedMul 64 tokens p.stakeWithdrawalFee.denominator.toNat with
      | none =>
        rw [hproduct] at h
        cases h
        exact .inr rfl
      | some product =>
        rw [hproduct, okOr_some, ok_bind] at h
        cases hquotient : checkedDiv product
            (p.stakeWithdrawalFee.denominator.toNat - p.stakeWithdrawalFee.numerator.toNat) with
        | none =>
          rw [hquotient] at h
          cases h
          exact .inl rfl
        | some quotient =>
          rw [hquotient] at h
          cases h

end Prepare

/-- The plan is executable where its arithmetic has no fault and its accounts are not worth enough, or
each of them passes the checks with all it is worth and the last with what remains. -/
theorem planExecutable_iff (h : UpToDate rt sv pool cluster view) (hamount : 0 < amount) :
    PlanExecutable rt sv pool burnFrom managerFee cluster view amount ↔
      FeeLeaves cluster view.stakePool (view.stakes view.stakePool.reserveStake).lamports ∧
        ((planOf rt pool burnFrom cluster view).FallsShort amount ∨
          (planOf rt pool burnFrom cluster view).ServedInTurn rt sv pool burnFrom managerFee view amount) := by
  by_cases hleaves : FeeLeaves cluster view.stakePool (view.stakes view.stakePool.reserveStake).lamports
  · have hprepare := @prepareWithdrawAccounts_eq rt pool burnFrom cluster amount view.stakePool
      view.validatorList _ h.reserve hleaves
    have hplan : fill (planOf rt pool burnFrom cluster view).worth (planOf rt pool burnFrom cluster view).sources
        amount = fill (sourceWorth burnFrom view.stakePool) (planSources rt pool cluster view.stakePool
          view.validatorList (view.stakes view.stakePool.reserveStake).lamports) amount := rfl
    rw [ClientPlan.servedInTurn_iff hamount, ClientPlan.fallsShort_iff, hplan]
    constructor
    · -- An executable plan did not fault, so the amount was filled or fell short.
      intro hplan
      refine ⟨hleaves, ?_⟩
      cases hfill : fill (sourceWorth burnFrom view.stakePool) (planSources rt pool cluster view.stakePool
          view.validatorList (view.stakes view.stakePool.reserveStake).lamports) amount with
      | error e =>
        obtain ⟨source, -, hfault⟩ := fill_error hfill
        rw [hfill] at hprepare
        obtain ⟨hpanicked, hoverflowed⟩ := hplan.noFault e hprepare
        rcases sourceWorth_fault hfault with rfl | rfl
        · exact absurd rfl hpanicked
        · exact absurd rfl hoverflowed
      | ok filled =>
        obtain ⟨taken, missing⟩ := filled
        by_cases hmissing : missing > 0
        · exact .inl ⟨taken, missing, rfl, hmissing⟩
        · obtain rfl : missing = 0 := by omega
          rw [hfill] at hprepare
          obtain ⟨-, -, hrun⟩ := hplan.carriedOut (taken.map accountOf) hprepare
          rw [withdrawAll_taken cluster] at hrun
          exact .inr ⟨taken, rfl, hrun⟩
    · rintro ⟨-, ⟨taken, missing, hfill, hmissing⟩ | ⟨taken, hfill, view', hrun⟩⟩
      · -- Falling short is an error of its own, and nothing is planned.
        have hshort : prepareWithdrawAccounts rt cluster view.stakePool view.validatorList amount pool
            (skipsFee burnFrom view.stakePool) = .error (.noStakeAccounts amount) := by
          rw [hprepare, hfill, ok_bind]
          show (failIf (missing > 0) (CliError.noStakeAccounts amount) >>= _) = _
          rw [failIf, if_pos hmissing]
          rfl
        constructor
        · intro e he
          cases hshort.symm.trans he
          constructor
          · intro hfault
            cases hfault
          · intro hfault
            cases hfault
        · intro accounts haccounts
          cases hshort.symm.trans haccounts
      · -- What was filled is carried out as it stands.
        have hplanned : prepareWithdrawAccounts rt cluster view.stakePool view.validatorList amount pool
            (skipsFee burnFrom view.stakePool) = .ok (taken.map accountOf) := by
          rw [hprepare, hfill, ok_bind]
          rfl
        constructor
        · intro e he
          cases hplanned.symm.trans he
        · intro accounts haccounts
          obtain rfl := Except.ok.inj (hplanned.symm.trans haccounts)
          refine ⟨?_, ?_, view', ?_⟩
          · intro account haccount
            obtain ⟨part, hpart, rfl⟩ := List.mem_map.mp haccount
            exact carryOut_pos (fun _ _ _ => withdrawChecks_zero) hrun part hpart
          · rw [List.map_map]
            exact fill_sum hfill
          · rw [withdrawAll_taken cluster]
            exact hrun
  · constructor
    · intro hplan
      have hfault := hplan.noFault _ (prepareWithdrawAccounts_overflowed h.reserve hleaves)
      exact absurd rfl hfault.2
    · rintro ⟨h, -⟩
      exact absurd h hleaves

/-- A source is worth its lamports in tokens, with the fee on top. -/
theorem sourceWorth_grossedUp {p : StakePool} {source : Source} {k : Nat}
    (hworth : sourceWorth burnFrom p source = .ok k) :
    ∃ tokens, p.calcPoolTokensForDeposit source.lamports = some tokens ∧ GrossedUp p burnFrom tokens k := by
  simp only [sourceWorth, availableForWithdrawal, bind_eq_ok, okOr_eq_ok] at hworth
  obtain ⟨tokens, htokens, hworth⟩ := hworth
  refine ⟨tokens, htokens, ?_⟩
  rcases ite_eq_ok.mp hworth with ⟨hskip, hworth⟩ | ⟨-, hworth⟩
  · cases hworth
    exact .waived (of_decide_eq_true hskip)
  · simp only [bind_eq_ok, okOr_eq_ok, checkedMul_eq_some, checkedDiv_eq_some] at hworth
    obtain ⟨product, ⟨rfl, -⟩, hinverse, rfl⟩ := hworth
    exact .grossed (by omega)

/-- The first source is a validator's active stake, where some validator has more than the minimum. -/
theorem planSources_head {p : StakePool} {l : ValidatorList} {reserve : Nat} {v : ValidatorStakeInfo}
    (hv : v ∈ l.validators) (hmore : minBalance cluster < v.activeStakeLamports) :
    ∃ u ∈ l.validators, ∃ rest, planSources rt pool cluster p l reserve = activeSource rt pool u :: rest := by
  have hperm : (sortedAccounts l p (activeSource rt pool)).Perm (l.validators.map (activeSource rt pool)) :=
    List.mergeSort_perm _ _
  have hlisted : activeSource rt pool v ∈ (sortedAccounts l p (activeSource rt pool)).filter
      fun source => minBalance cluster < source.lamports := by
    rw [List.mem_filter]
    exact ⟨hperm.mem_iff.mpr (List.mem_map_of_mem hv), decide_eq_true hmore⟩
  obtain ⟨first, rest, hactive⟩ := List.exists_cons_of_ne_nil (List.ne_nil_of_mem hlisted)
  have hfirst : first ∈ sortedAccounts l p (activeSource rt pool) := by
    apply List.mem_of_mem_filter (p := fun source => minBalance cluster < source.lamports)
    rw [hactive]
    exact List.mem_cons_self
  obtain ⟨u, hu, rfl⟩ := List.mem_map.mp (hperm.mem_iff.mp hfirst)
  refine ⟨u, hu, ?_⟩
  unfold planSources allSources
  rw [List.append_assoc, List.filter_append, hactive]
  exact ⟨_, rfl⟩

/-- A validator's account that gives all it is worth keeps less than the minimum. -/
theorem not_serves_whole (h : UpToDate rt sv pool cluster view) {u v : ValidatorStakeInfo} {perToken k : Nat}
    {view' : StakeView} (hprice : view.stakePool.getLamportsPerPoolToken = some perToken)
    (hv : v ∈ view.validatorList.validators) (hactive : v.status = StakeStatus.active.toPod)
    (hspare : saturatingAdd 64 (minBalance cluster) perToken < v.activeStakeLamports)
    (hordinary : 2 * perToken < minBalance cluster) (hu : u ∈ view.validatorList.validators)
    (hworth : sourceWorth burnFrom view.stakePool (activeSource rt pool u) = .ok k) :
    ¬Serves rt sv pool burnFrom managerFee view (activeSource rt pool u).stakeAddress k view' := by
  intro hserved
  obtain ⟨tokens, htokens, hgross⟩ := sourceWorth_grossedUp hworth
  have hheld : (view.stakes (activeSource rt pool u).stakeAddress).lamports =
      (activeSource rt pool u).lamports := h.active u hu
  have hkeeps := hserved.keeps hgross (fun hsupply htotal => by
    rw [hheld]
    exact StakePool.calcPoolTokensForDeposit_eq htokens hsupply htotal) (h.rent u hu) hprice hv hactive
  unfold minBalance at hspare hordinary
  rw [h.delegation] at hspare hordinary
  have hle := hkeeps hspare
  omega

/-- For every list of this epoch, every fee and every request: the command line's plan is executable exactly
where its arithmetic has no fault and its accounts are not worth enough or each in turn passes the checks
with all it is worth, the last with what remains.  While a validator has stake to spare and a token is worth
less than half of the minimum, only a plan of one account, which keeps something, is. -/
theorem cli_plan_executable_iff (h : UpToDate rt sv pool cluster view) (hamount : 0 < amount) :
    (PlanExecutable rt sv pool burnFrom managerFee cluster view amount ↔
      FeeLeaves cluster view.stakePool (view.stakes view.stakePool.reserveStake).lamports ∧
        ((planOf rt pool burnFrom cluster view).FallsShort amount ∨
          (planOf rt pool burnFrom cluster view).ServedInTurn rt sv pool burnFrom managerFee view amount)) ∧
    ∀ v ∈ view.validatorList.validators, ∀ perToken, v.status = StakeStatus.active.toPod →
      view.stakePool.getLamportsPerPoolToken = some perToken →
      saturatingAdd 64 (minBalance cluster) perToken < v.activeStakeLamports →
      2 * perToken < minBalance cluster →
      ((planOf rt pool burnFrom cluster view).ServedInTurn rt sv pool burnFrom managerFee view amount ↔
        ∃ u ∈ view.validatorList.validators, ∃ rest k view', planSources rt pool cluster view.stakePool
            view.validatorList (view.stakes view.stakePool.reserveStake).lamports =
              activeSource rt pool u :: rest ∧
          sourceWorth burnFrom view.stakePool (activeSource rt pool u) = .ok k ∧ amount < k ∧
          Serves rt sv pool burnFrom managerFee view (activeSource rt pool u).stakeAddress amount view') := by
  refine ⟨planExecutable_iff h hamount, ?_⟩
  intro v hv perToken hactive hprice hspare hordinary
  have hmore : minBalance cluster < v.activeStakeLamports := by
    have hfits : minBalance cluster ≤ maxValue 64 := Nat.min_le_right _ _
    have hadd : saturatingAdd 64 (minBalance cluster) perToken =
      min (minBalance cluster + perToken) (maxValue 64) := rfl
    omega
  obtain ⟨u, hu, rest, hsources⟩ := @planSources_head rt pool cluster view.stakePool view.validatorList
    (view.stakes view.stakePool.reserveStake).lamports v hv hmore
  rw [ClientPlan.servedInTurn_single hsources fun k view' hworth =>
    not_serves_whole h hprice hv hactive hspare hordinary hu hworth]
  constructor
  · rintro ⟨k, view', hworth, hlt, hserved⟩
    exact ⟨u, hu, rest, k, view', hsources, hworth, hlt, hserved⟩
  · rintro ⟨u', -, rest', k, view', hsources', hworth, hlt, hserved⟩
    obtain ⟨hfirst, -⟩ := List.cons.inj (hsources.symm.trans hsources')
    rw [← hfirst] at hworth hserved
    exact ⟨k, view', hworth, hlt, hserved⟩

end Execution

section Example

open Reference

def soleCluster : Cluster := ⟨1000000, minimumBalance stakeSpace, fun k => some (soleView.stakes k).lamports⟩

theorem soleStake_eq : (findStakeProgramAddress runtime spareEntry.voteAccountAddress pool
    spareEntry.validatorSeedSuffix).1 = soleStake := rfl

theorem sole_upToDate : UpToDate runtime (sysvars 9) pool soleCluster soleView where
  epoch := by decide
  delegation := rfl
  reserve := rfl
  active := by decide +kernel
  rent := by
    intro v hv state info hstate hmeta
    have hentry : v ∈ [spareEntry] := hv
    rw [List.mem_singleton.mp hentry, soleStake_eq] at hstate
    rw [soleView_stakes, soleLedger_stake] at hstate
    cases hstate
    cases hmeta
    rfl

theorem sole_leaves : FeeLeaves soleCluster soleView.stakePool
    (soleView.stakes soleView.stakePool.reserveStake).lamports :=
  ⟨by decide +kernel, by decide⟩

theorem sole_sources : ∃ rest, planSources runtime pool soleCluster soleView.stakePool
    soleView.validatorList (soleView.stakes soleView.stakePool.reserveStake).lamports =
      ⟨soleStake, 1003282880, some (key 70)⟩ :: rest := by
  unfold planSources allSources sortedAccounts
  rw [show soleView.validatorList.validators.map (activeSource runtime pool) =
    [⟨soleStake, 1003282880, some (key 70)⟩] from rfl, List.mergeSort_singleton]
  exact ⟨_, List.filter_cons_of_pos (by decide)⟩

theorem sole_worth : sourceWorth (key 40) soleView.stakePool ⟨soleStake, 1003282880, some (key 70)⟩ =
    .ok 1006301785 := by
  decide

/-- Half of the validator's stake is withdrawn. -/
theorem cli_plan_executable_half :
    PlanExecutable runtime (sysvars 9) pool (key 40) (tokenAccount manager 0) soleCluster soleView 500000000 := by
  have hserved : (planOf runtime pool (key 40) soleCluster soleView).ServedInTurn runtime (sysvars 9) pool
      (key 40) (tokenAccount manager 0) soleView 500000000 := by
    obtain ⟨rest, hsources⟩ := sole_sources
    obtain ⟨view', hhalf⟩ := soleView_half
    unfold ClientPlan.ServedInTurn planOf
    rw [hsources]
    exact .last sole_worth (by decide) (withdrawChecks_eq_ok.mp hhalf)
  exact (cli_plan_executable_iff sole_upToDate (by decide)).1.mpr ⟨sole_leaves, .inr hserved⟩

/-- A plan that empties the account is rejected, since the minimum has to stay. -/
theorem cli_plan_executable_emptied :
    (∃ account, prepareWithdrawAccounts runtime soleCluster soleView.stakePool soleView.validatorList
      1006301785 pool (skipsFee (key 40) soleView.stakePool) = .ok [account]) ∧
    ¬PlanExecutable runtime (sysvars 9) pool (key 40) (tokenAccount manager 0) soleCluster soleView
      1006301785 := by
  obtain ⟨rest, hsources⟩ := sole_sources
  have hprepare : prepareWithdrawAccounts runtime soleCluster soleView.stakePool soleView.validatorList
      1006301785 pool (skipsFee (key 40) soleView.stakePool) = .ok [⟨soleStake, some (key 70), 1006301785⟩] := by
    have hfill : fill (sourceWorth (key 40) soleView.stakePool) (planSources runtime pool soleCluster
        soleView.stakePool soleView.validatorList (soleView.stakes soleView.stakePool.reserveStake).lamports)
        1006301785 = .ok ([(⟨soleStake, 1003282880, some (key 70)⟩, 1006301785)], 0) := by
      rw [hsources]
      exact fill_cons_of_le sole_worth (Nat.le_refl _)
    rw [prepareWithdrawAccounts_eq sole_upToDate.reserve sole_leaves]
    rw [hfill]
    rfl
  refine ⟨⟨_, hprepare⟩, fun hplan => ?_⟩
  obtain ⟨-, -, view', hrun⟩ := hplan.carriedOut _ hprepare
  obtain ⟨next, hnext, -⟩ := carryOut_cons_eq_ok.mp
    (withdrawAll_taken soleCluster [(⟨soleStake, 1003282880, some (key 70)⟩, 1006301785)] ▸ hrun)
  exact soleView_whole next hnext

end Example

end StakePoolFogo.Cli
