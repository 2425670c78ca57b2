import StakePoolFogo.JsLegacy.Addresses
import StakePoolFogo.StakeWithdrawals

/-!
# Carrying out JavaScript's plan

`prepareWithdrawAccounts` leaves the minimum on transient accounts only.  It empties every active account
but the last one of the plan, and derives them without a seed.
-/

open StakePoolFogo.Checked StakePoolFogo.Filling StakePoolFogo.Outcome

namespace StakePoolFogo.JsLegacy

section Plan

variable (rt : Runtime) (sv : Sysvars) (pool burnFrom : Pubkey) (managerFee : Account) (cluster : Cluster)
  (compared : Comparisons) (view : StakeView) (rest : List UInt8) (amount : Nat)

/-- The fee is skipped for the manager's own account. -/
def skipsFee (p : StakePool) : Bool := burnFrom = p.managerFeeAccount

/-- One `WithdrawStake` for each account of the plan. -/
def withdrawAll (accounts : List WithdrawAccount) : Except ProgramError StakeView :=
  accounts.foldlM (fun view account =>
    withdrawChecks rt sv pool burnFrom managerFee view account.stakeAddress account.poolAmount.toNat) view

/-- The positive amounts of the plan make up `amount`, and the program's checks let all of it through. -/
structure PlanExecutable : Prop where
  carriedOut : ∀ accounts, prepareWithdrawAccounts rt rt.programId cluster compared
      (.ofPool view.stakePool) (view.validatorList.toBytes rest) pool amount none
        (skipsFee burnFrom (.ofPool view.stakePool)) = some accounts →
    (∀ account ∈ accounts, 0 < account.poolAmount) ∧ (accounts.map (·.poolAmount)).sum = amount ∧
      ∃ view', withdrawAll rt sv pool burnFrom managerFee view accounts = .ok view'

/-- What the plan leaves on a transient account. -/
def minBalance : Nat := cluster.rentExemption + minimumActiveStake

/-- The active account of an entry. -/
def activeSource (p : StakePoolFogo.StakePool) (v : StakePoolFogo.ValidatorStakeInfo) : ValidatorAccount where
  type := if p.preferredWithdrawValidatorVoteAddress = some v.voteAccountAddress then .preferred else .active
  voteAddress := v.voteAccountAddress
  stakeAddress := (StakePoolFogo.findStakeProgramAddress rt v.voteAccountAddress pool 0).1
  lamports := v.activeStakeLamports

/-- Its transient account, less what is left there. -/
def transientSource (v : StakePoolFogo.ValidatorStakeInfo) : ValidatorAccount where
  type := .transient
  voteAddress := v.voteAccountAddress
  stakeAddress := (StakePoolFogo.findTransientStakeProgramAddress rt v.voteAccountAddress pool
    v.transientSeedSuffix).1
  lamports := v.transientStakeLamports - minBalance cluster

/-- The accounts of an active entry. -/
def entrySources (p : StakePoolFogo.StakePool) (v : StakePoolFogo.ValidatorStakeInfo) :
    List ValidatorAccount :=
  if v.status ≠ StakeStatus.active.toPod then []
  else (if v.activeStakeLamports = 0 then [] else [activeSource rt pool p v]) ++
    (if minBalance cluster < v.transientStakeLamports then [transientSource rt pool cluster v] else [])

/-- The accounts of all entries. -/
def listSources (p : StakePoolFogo.StakePool) (l : StakePoolFogo.ValidatorList) : List ValidatorAccount :=
  (l.validators.map (entrySources rt pool cluster p)).flatten

/-- The client's numbers hold the minimum, the differences of the balances that it compares, and what the
reserve has above its rent. -/
structure NumbersFit (p : StakePoolFogo.StakePool) (l : StakePoolFogo.ValidatorList) (reserve : Nat) : Prop where
  least : IsSafe (minBalance cluster)
  balances : ∀ pair ∈ compared (listSources rt pool cluster p l), IsSafe (compareLamports pair.1 pair.2)
  reserve : IsSafe ((reserve : Int) - cluster.rentExemption)

/-- The accounts from the highest to the lowest balance, with the reserve at the end. -/
def sortedSources (p : StakePoolFogo.StakePool) (l : StakePoolFogo.ValidatorList) (reserve : Nat) :
    List ValidatorAccount :=
  ((listSources rt pool cluster p l).mergeSort fun a b => compareLamports a b ≤ 0) ++
    if cluster.rentExemption < reserve then
      [{ type := .reserve, voteAddress := none, stakeAddress := p.reserveStake,
         lamports := reserve - cluster.rentExemption }] else []

/-- Accounts that the loop does not pass over. -/
def usable (p : StakePoolFogo.StakePool) (a : ValidatorAccount) : Bool :=
  ¬(a.lamports ≤ minBalance cluster ∧ a.type = .transient) ∧
    0 < availableForWithdrawal (.ofPool p) (skipsFee burnFrom (.ofPool p)) a.lamports

/-- The accounts of the plan in its order. -/
def planSources (p : StakePoolFogo.StakePool) (l : StakePoolFogo.ValidatorList) (reserve : Nat) :
    List ValidatorAccount :=
  ([AccountType.preferred, .active, .transient, .reserve].flatMap fun type =>
    (sortedSources rt pool cluster p l reserve).filter (·.type = type)).filter (usable burnFrom cluster p)

/-- The pool tokens an account is taken to be worth. -/
def sourceWorth (p : StakePoolFogo.StakePool) (a : ValidatorAccount) : Except Empty Nat :=
  .ok (availableForWithdrawal (.ofPool p) (skipsFee burnFrom (.ofPool p)) a.lamports).toNat

/-- What JavaScript plans for a view. -/
def planOf : ClientPlan Empty ValidatorAccount where
  sources := planSources rt pool burnFrom cluster view.stakePool view.validatorList
    (view.stakes view.stakePool.reserveStake).lamports
  stakeAddress := (·.stakeAddress)
  worth := sourceWorth burnFrom view.stakePool

/-- The lists are of this epoch and say what the stake accounts hold. -/
structure UpToDate : Prop where
  epoch : ¬view.stakePool.lastUpdateEpoch < sv.epoch
  reserve : cluster.lamports view.stakePool.reserveStake =
    some (view.stakes view.stakePool.reserveStake).lamports
  active : ∀ v ∈ view.validatorList.validators,
    (view.stakes (StakePoolFogo.findStakeProgramAddress rt v.voteAccountAddress pool
      v.validatorSeedSuffix).1).lamports = v.activeStakeLamports
  rent : ∀ v ∈ view.validatorList.validators, ∀ state info,
    (view.stakes (StakePoolFogo.findStakeProgramAddress rt v.voteAccountAddress pool
      v.validatorSeedSuffix).1).tryStakeState = .ok state →
    state.meta? = some info → info.rentExemptReserve = cluster.rentExemption

end Plan

/-! ## The plan fills the request -/

section Fill

variable {rt : Runtime} {pool burnFrom : Pubkey} {cluster : Cluster} {compared : Comparisons}
  {p : StakePoolFogo.StakePool} {l : StakePoolFogo.ValidatorList}

/-- What is asked of an account. -/
def accountOf (part : ValidatorAccount × Nat) : WithdrawAccount :=
  ⟨part.1.stakeAddress, part.1.voteAddress, part.2⟩

theorem takeFrom_fill (accounts : List ValidatorAccount) {amount : Nat} (hamount : 0 < amount) :
    ∃ taken missing, fill (sourceWorth burnFrom p) (accounts.filter (usable burnFrom cluster p)) amount =
        .ok (taken, missing) ∧
      takeFrom (.ofPool p) (minBalance cluster) (skipsFee burnFrom (.ofPool p)) accounts amount =
        (taken.map accountOf, (missing : Int)) := by
  induction accounts generalizing amount with
  | nil => exact ⟨[], amount, rfl, rfl⟩
  | cons account accounts ih =>
    simp only [takeFrom]
    by_cases husable : usable burnFrom cluster p account = true
    · rw [List.filter_cons_of_pos husable]
      have hparts := of_decide_eq_true husable
      have hworth : sourceWorth burnFrom p account = .ok (availableForWithdrawal (.ofPool p)
        (skipsFee burnFrom (.ofPool p)) account.lamports).toNat := rfl
      obtain ⟨hkind, hpos⟩ := hparts
      generalize availableForWithdrawal (.ofPool p) (skipsFee burnFrom (.ofPool p)) account.lamports = k at *
      have hcast : (k.toNat : Int) = k := Int.toNat_of_nonneg (Int.le_of_lt hpos)
      by_cases hle : amount ≤ k.toNat
      · have hmin : min k (amount : Int) = amount := by omega
        refine ⟨_, 0, fill_cons_of_le hworth hle, ?_⟩
        rw [hmin, if_neg (not_or.mpr ⟨hkind, by omega⟩), if_pos (Int.sub_self _)]
        rfl
      · have hmin : min k (amount : Int) = k := by omega
        obtain ⟨taken, missing, hfill, htake⟩ := @ih (amount - k.toNat) (by omega)
        refine ⟨_, missing, fill_cons_of_lt hworth (by omega) hfill, ?_⟩
        have hrest : (amount : Int) - k = ((amount - k.toNat : Nat) : Int) := by omega
        rw [hmin, if_neg (not_or.mpr ⟨hkind, by omega⟩), if_neg (by omega), hrest, htake, List.map_cons,
          accountOf, hcast]
    · rw [List.filter_cons_of_neg husable]
      have hskip : account.lamports ≤ minBalance cluster ∧ account.type = .transient ∨
          min (availableForWithdrawal (.ofPool p) (skipsFee burnFrom (.ofPool p)) account.lamports)
            (amount : Int) ≤ 0 := by
        by_contra hnot
        rw [not_or] at hnot
        exact husable (decide_eq_true ⟨hnot.1, by omega⟩)
      rw [if_pos hskip]
      exact ih hamount

/-- The accounts of an active entry, from their addresses. -/
theorem entryAccounts_active {programId active transient : Pubkey} {stakePool : StakePool} {least : Nat}
    {validator : ValidatorStakeInfo} (hstatus : validator.status = 0)
    (hactive : findStakeProgramAddress rt programId validator.voteAccountAddress pool none = some active)
    (htransient : findTransientStakeProgramAddress rt programId validator.voteAccountAddress pool
      validator.transientSeedSuffixStart = some transient) :
    entryAccounts rt programId stakePool pool least validator = some (
      (if validator.activeStakeLamports = 0 then []
      else [{
        type := if stakePool.preferredWithdrawValidatorVoteAddress = some validator.voteAccountAddress
          then .preferred else .active
        voteAddress := validator.voteAccountAddress
        stakeAddress := active
        lamports := validator.activeStakeLamports }]) ++
      if least < validator.transientStakeLamports then [{
        type := .transient
        voteAddress := validator.voteAccountAddress
        stakeAddress := transient
        lamports := validator.transientStakeLamports - least }] else []) := by
  unfold entryAccounts
  rw [if_neg (not_not.mpr hstatus), hactive, htransient]
  by_cases hmore : least < validator.transientStakeLamports
  · simp only [if_pos hmore, Option.bind_eq_bind, Option.bind_some, Option.pure_def]
  · simp only [if_neg hmore, Option.bind_eq_bind, Option.bind_some, Option.pure_def, List.append_nil]

/-- The client derives the accounts of an entry without a fault. -/
theorem entryAccounts_ofInfo (v : StakePoolFogo.ValidatorStakeInfo) :
    entryAccounts rt rt.programId (.ofPool p) pool (minBalance cluster) (.ofInfo v) =
      some (entrySources rt pool cluster p v) := by
  have hstatus : (ValidatorStakeInfo.ofInfo v).status ≠ 0 ↔ v.status ≠ StakeStatus.active.toPod := by
    show v.status.byte.toNat ≠ 0 ↔ _
    rw [not_iff_not]
    constructor
    · intro hzero
      have hbyte : v.status.byte = 0 := UInt8.toNat_inj.mp hzero
      show v.status = ⟨0⟩
      rw [← hbyte]
    · intro hactive
      rw [hactive]
      rfl
  unfold entrySources transientSource
  -- the minimum is a large number, which must not be computed with
  generalize minBalance cluster = least
  by_cases hleft : v.status ≠ StakeStatus.active.toPod
  · rw [if_pos hleft]
    unfold entryAccounts
    rw [if_pos (hstatus.mpr hleft)]
  · rw [if_neg hleft]
    exact entryAccounts_active (not_not.mp (mt hstatus.mp hleft)) rfl
      (findTransientStakeProgramAddress_toNat v.transientSeedSuffix)

theorem entryAccounts_all (vs : List StakePoolFogo.ValidatorStakeInfo) :
    (vs.map ValidatorStakeInfo.ofInfo).mapM
        (entryAccounts rt rt.programId (.ofPool p) pool (minBalance cluster)) =
      some (vs.map (entrySources rt pool cluster p)) := by
  induction vs with
  | nil => rfl
  | cons v vs ih =>
    rw [List.map_cons, List.mapM_cons, entryAccounts_ofInfo, ih]
    rfl

theorem sortAccounts_none {accounts : List ValidatorAccount} :
    sortAccounts compared none accounts =
      if ∀ pair ∈ compared accounts, IsSafe (compareLamports pair.1 pair.2) then
        some (accounts.mergeSort fun a b => compareLamports a b ≤ 0) else none := by
  unfold sortAccounts
  by_cases hsafe : ∀ pair ∈ compared accounts, IsSafe (compareLamports pair.1 pair.2)
  · rw [if_pos hsafe, guard, if_pos fun _ => hsafe]
    rfl
  · rw [if_neg hsafe, guard, if_neg fun h => hsafe (h rfl)]
    rfl

/-- A plan is what is taken from the accounts, sorted and grouped, if nothing remains. -/
theorem prepareWithdrawAccounts_eq {rt : Runtime} {programId pool : Pubkey} {cluster : Cluster}
    {stakePool : StakePool} {data : List UInt8} {amount reserve : Nat} {skipFee : Bool}
    {list : ValidatorList} {entries : List (List ValidatorAccount)}
    (hlist : ValidatorList.decode data = some list) (hlisted : list.validators ≠ [])
    (hleast : IsSafe (minBalance cluster))
    (hentries : list.validators.mapM (entryAccounts rt programId stakePool pool (minBalance cluster)) =
      some entries)
    (hbalances : ∀ pair ∈ compared entries.flatten, IsSafe (compareLamports pair.1 pair.2))
    (hreserve : cluster.lamports stakePool.reserveStake = some reserve)
    (hspare : IsSafe ((reserve : Int) - cluster.rentExemption)) :
    prepareWithdrawAccounts rt programId cluster compared stakePool data pool amount none skipFee =
      let accounts := (entries.flatten.mergeSort fun a b => compareLamports a b ≤ 0) ++
        if cluster.rentExemption < reserve then
          [{ type := .reserve, voteAddress := none, stakeAddress := stakePool.reserveStake,
             lamports := reserve - cluster.rentExemption }] else []
      let filled := takeFrom stakePool (minBalance cluster) skipFee
        ([AccountType.preferred, .active, .transient, .reserve].flatMap fun type =>
          accounts.filter (·.type = type)) amount
      if filled.2 ≤ 0 then some filled.1 else none := by
  unfold prepareWithdrawAccounts
  unfold minBalance at hleast hentries ⊢
  simp only [hlist, hentries, hreserve, sortAccounts_none, Option.bind_eq_bind, Option.bind_some, guard,
    if_pos hlisted, if_pos hleast, if_pos hbalances, if_pos hspare, Option.pure_def, Option.getD_some]
  generalize takeFrom stakePool (cluster.rentExemption + minimumActiveStake) skipFee _ (amount : Int) = filled
  by_cases hdone : filled.2 ≤ 0
  · rw [if_pos hdone, if_pos hdone]
    rfl
  · rw [if_neg hdone, if_neg hdone]
    rfl

/-- The plan is what the accounts are filled with, if nothing is missing. -/
theorem prepareWithdrawAccounts_plan {rest : List UInt8} {reserve amount : Nat} (hl : l.Fits)
    (hlisted : l.validators ≠ []) (hfit : NumbersFit rt pool cluster compared p l reserve)
    (hreserve : cluster.lamports p.reserveStake = some reserve) (hamount : 0 < amount) :
    ∃ taken missing, fill (sourceWorth burnFrom p) (planSources rt pool burnFrom cluster p l reserve) amount =
        .ok (taken, missing) ∧
      prepareWithdrawAccounts rt rt.programId cluster compared (.ofPool p) (l.toBytes rest) pool amount none
          (skipsFee burnFrom (.ofPool p)) =
        if missing = 0 then some (taken.map accountOf) else none := by
  obtain ⟨taken, missing, hfill, htake⟩ := @takeFrom_fill burnFrom cluster p
    ([AccountType.preferred, .active, .transient, .reserve].flatMap fun type =>
      (sortedSources rt pool cluster p l reserve).filter (·.type = type)) amount hamount
  refine ⟨taken, missing, hfill, ?_⟩
  have hnonempty : (ValidatorList.ofList l).validators ≠ [] := fun hnil => hlisted (List.map_eq_nil_iff.mp hnil)
  have hreserve : cluster.lamports (StakePool.ofPool p).reserveStake = some reserve := hreserve
  rw [prepareWithdrawAccounts_eq (ValidatorList.decode_toBytes hl rest) hnonempty hfit.least
    (entryAccounts_all l.validators) hfit.balances hreserve hfit.reserve]
  have hkept : (StakePool.ofPool p).reserveStake = p.reserveStake := rfl
  unfold sortedSources listSources at htake
  simp only [hkept, htake]
  by_cases hzero : missing = 0
  · rw [if_pos hzero, if_pos (by omega)]
  · rw [if_neg hzero, if_neg (by omega)]

/-- A plan needs a listed validator, and numbers that the client holds. -/
theorem prepareWithdrawAccounts_needs {rest : List UInt8} {reserve amount : Nat} {skipFee : Bool}
    {accounts : List WithdrawAccount} (hl : l.Fits)
    (hreserve : cluster.lamports p.reserveStake = some reserve)
    (h : prepareWithdrawAccounts rt rt.programId cluster compared (.ofPool p) (l.toBytes rest) pool amount none
      skipFee = some accounts) : l.validators ≠ [] ∧ NumbersFit rt pool cluster compared p l reserve := by
  have hreserve : cluster.lamports (StakePool.ofPool p).reserveStake = some reserve := hreserve
  unfold prepareWithdrawAccounts at h
  simp only [ValidatorList.decode_toBytes hl rest, hreserve, Option.bind_eq_bind, Option.bind_some,
    Option.bind_eq_some_iff, Option.guard_eq_some', exists_const, Option.getD_some] at h
  obtain ⟨hlisted, hleast, entries, hentries, sorted, hsorted, hspare, -⟩ := h
  have hlisted : (ValidatorList.ofList l).validators ≠ [] := hlisted
  have hall : (ValidatorList.ofList l).validators.mapM (entryAccounts rt rt.programId (.ofPool p) pool
      (cluster.rentExemption + minimumActiveStake)) = some (l.validators.map (entrySources rt pool cluster p)) :=
    entryAccounts_all l.validators
  obtain rfl := Option.some.inj (hall.symm.trans hentries)
  refine ⟨fun hnil => hlisted (List.map_eq_nil_iff.mpr hnil), hleast, ?_, hspare⟩
  rw [sortAccounts_none] at hsorted
  split at hsorted
  · assumption
  · cases hsorted

end Fill

/-! ## When the plan is carried out -/

section Execution

variable {rt : Runtime} {sv : Sysvars} {pool burnFrom : Pubkey} {managerFee : Account} {cluster : Cluster}
  {compared : Comparisons} {view : StakeView} {rest : List UInt8} {amount : Nat}

theorem withdrawAll_taken (cluster : Cluster) (taken : List (ValidatorAccount × Nat)) :
    withdrawAll rt sv pool burnFrom managerFee view (taken.map accountOf) =
      (planOf rt pool burnFrom cluster view).withdraw rt sv pool burnFrom managerFee view taken := by
  rw [withdrawAll, ClientPlan.withdraw, carryOut, List.foldlM_map]
  rfl

theorem planExecutable_iff (hl : view.validatorList.Fits) (h : UpToDate rt sv pool cluster view)
    (hamount : 0 < amount) :
    PlanExecutable rt sv pool burnFrom managerFee cluster compared view rest amount ↔
      view.validatorList.validators = [] ∨
        ¬NumbersFit rt pool cluster compared view.stakePool view.validatorList
          (view.stakes view.stakePool.reserveStake).lamports ∨
        (planOf rt pool burnFrom cluster view).FallsShort amount ∨
        (planOf rt pool burnFrom cluster view).ServedInTurn rt sv pool burnFrom managerFee view amount := by
  have hplan : fill (planOf rt pool burnFrom cluster view).worth (planOf rt pool burnFrom cluster view).sources
      amount = fill (sourceWorth burnFrom view.stakePool) (planSources rt pool burnFrom cluster view.stakePool
        view.validatorList (view.stakes view.stakePool.reserveStake).lamports) amount := rfl
  rw [ClientPlan.servedInTurn_iff hamount, ClientPlan.fallsShort_iff, hplan]
  -- Without a listed validator or with a number too large, the client returns no plan.
  by_cases hlisted : view.validatorList.validators = []
  · refine iff_of_true ⟨fun accounts haccounts => ?_⟩ (.inl hlisted)
    exact absurd hlisted (prepareWithdrawAccounts_needs hl h.reserve haccounts).1
  by_cases hfit : NumbersFit rt pool cluster compared view.stakePool view.validatorList
    (view.stakes view.stakePool.reserveStake).lamports
  · obtain ⟨taken, missing, hfill, hprepare⟩ := @prepareWithdrawAccounts_plan rt pool burnFrom cluster compared
      view.stakePool view.validatorList rest _ amount hl hlisted hfit h.reserve hamount
    rw [hfill]
    constructor
    · -- Otherwise the amount is filled or falls short, and only the first is returned.
      intro hplan
      by_cases hzero : missing = 0
      · subst hzero
        obtain ⟨-, -, hrun⟩ := hplan.carriedOut _ (hprepare.trans (if_pos rfl))
        rw [withdrawAll_taken cluster] at hrun
        exact .inr (.inr (.inr ⟨taken, rfl, hrun⟩))
      · exact .inr (.inr (.inl ⟨taken, missing, rfl, Nat.pos_of_ne_zero hzero⟩))
    · rintro (hnil | hunfit | ⟨taken', missing', hsame, hmissing⟩ | ⟨taken', hsame, view', hrun⟩)
      · exact absurd hnil hlisted
      · exact absurd hfit hunfit
      · obtain ⟨rfl, rfl⟩ := Prod.mk.inj (Except.ok.inj hsame)
        refine ⟨fun accounts haccounts => ?_⟩
        rw [hprepare, if_neg (Nat.ne_of_gt hmissing)] at haccounts
        cases haccounts
      · obtain ⟨rfl, rfl⟩ := Prod.mk.inj (Except.ok.inj hsame)
        refine ⟨fun accounts haccounts => ?_⟩
        obtain ⟨hpos, hsum⟩ := prepareWithdrawAccounts_sum haccounts
        rw [hprepare, if_pos rfl] at haccounts
        obtain rfl := Option.some.inj haccounts
        refine ⟨hpos, hsum, view', ?_⟩
        rw [withdrawAll_taken cluster]
        exact hrun
  · refine iff_of_true ⟨fun accounts haccounts => ?_⟩ (.inr (.inl hfit))
    exact absurd (prepareWithdrawAccounts_needs hl h.reserve haccounts).2 hfit

/-! ### At an ordinary price -/

section Ordinary

variable {p : StakePoolFogo.StakePool} {l : StakePoolFogo.ValidatorList} {perToken : Nat}

/-- The tokens that lamports are worth to the client. -/
def tokensOf (p : StakePoolFogo.StakePool) (lamports : Nat) : Nat :=
  if p.poolTokenSupply = 0 ∨ p.totalLamports = 0 then lamports
  else lamports * p.poolTokenSupply / p.totalLamports

theorem calcPoolTokensForDeposit_ofPool (lamports : Nat) :
    calcPoolTokensForDeposit (.ofPool p) lamports = (tokensOf p lamports : Int) := by
  unfold calcPoolTokensForDeposit tokensOf
  show (if p.poolTokenSupply = 0 ∨ p.totalLamports = 0 then (lamports : Int)
    else ((lamports * p.poolTokenSupply / p.totalLamports : Nat) : Int)) = _
  split <;> rfl

/-- While the fee is at most a whole, an account is worth its tokens with the fee on top. -/
theorem availableForWithdrawal_grossedUp (lamports : Nat)
    (hfee : p.stakeWithdrawalFee.numerator.toNat ≤ p.stakeWithdrawalFee.denominator.toNat) :
    ∃ k : Nat, availableForWithdrawal (.ofPool p) (skipsFee burnFrom (.ofPool p)) lamports = k ∧
      GrossedUp p burnFrom (tokensOf p lamports) k := by
  unfold availableForWithdrawal
  rw [calcPoolTokensForDeposit_ofPool]
  have hinverse : ((StakePool.ofPool p).stakeWithdrawalFee.denominator : Int) -
      (StakePool.ofPool p).stakeWithdrawalFee.numerator =
      ((p.stakeWithdrawalFee.denominator.toNat - p.stakeWithdrawalFee.numerator.toNat : Nat) : Int) := by
    show (p.stakeWithdrawalFee.denominator.toNat : Int) - p.stakeWithdrawalFee.numerator.toNat = _
    omega
  simp only [hinverse]
  by_cases hskip : skipsFee burnFrom (.ofPool p) = true
  · have hmanager : burnFrom = p.managerFeeAccount := of_decide_eq_true hskip
    rw [hskip, if_neg (by simp)]
    exact ⟨_, rfl, .waived hmanager.symm⟩
  · rw [Bool.not_eq_true] at hskip
    rw [hskip]
    by_cases hequal : p.stakeWithdrawalFee.numerator.toNat = p.stakeWithdrawalFee.denominator.toNat
    · rw [hequal, Nat.sub_self, if_neg (by simp)]
      exact ⟨_, rfl, .whole (UInt64.toNat_inj.mp hequal)⟩
    · rw [if_pos ⟨rfl, by omega⟩]
      exact ⟨_, rfl, .grossed (by omega)⟩

/-- Lamports that cover the price of a token are worth one. -/
theorem tokensOf_pos {lamports : Nat} (hprice : p.getLamportsPerPoolToken = some perToken)
    (hcovers : perToken ≤ lamports) (hpos : 0 < lamports) : 0 < tokensOf p lamports := by
  unfold tokensOf
  split
  · exact hpos
  · rename_i hsome
    rw [not_or] at hsome
    have htotal := StakePool.getLamportsPerPoolToken_covers hprice
    refine Nat.div_pos (htotal.trans ?_) (Nat.pos_of_ne_zero hsome.2)
    exact Nat.mul_le_mul_right _ hcovers

theorem mem_sortedSources {reserve : Nat} {v : StakePoolFogo.ValidatorStakeInfo} (hv : v ∈ l.validators)
    (hactive : v.status = StakeStatus.active.toPod) (hsome : v.activeStakeLamports ≠ 0) :
    activeSource rt pool p v ∈ sortedSources rt pool cluster p l reserve := by
  unfold sortedSources listSources
  refine List.mem_append_left _ (List.mem_mergeSort.mpr (List.mem_flatten.mpr ⟨_, List.mem_map_of_mem hv, ?_⟩))
  unfold entrySources
  rw [if_neg (not_not.mpr hactive), if_neg hsome]
  exact List.mem_append_left _ List.mem_cons_self

/-- What is neither transient nor the reserve is the active stake of an entry. -/
theorem sortedSources_active {reserve : Nat} {a : ValidatorAccount}
    (ha : a ∈ sortedSources rt pool cluster p l reserve) (htype : a.type = .preferred ∨ a.type = .active) :
    ∃ u ∈ l.validators, a = activeSource rt pool p u := by
  have hkind : a.type ≠ .transient ∧ a.type ≠ .reserve := by
    rcases htype with htype | htype <;> rw [htype] <;> exact ⟨by decide, by decide⟩
  rcases List.mem_append.mp ha with ha | ha
  · obtain ⟨sources, hsources, ha⟩ := List.mem_flatten.mp (List.mem_mergeSort.mp ha)
    obtain ⟨u, hu, rfl⟩ := List.mem_map.mp hsources
    refine ⟨u, hu, ?_⟩
    unfold entrySources at ha
    split at ha
    · cases ha
    · rcases List.mem_append.mp ha with ha | ha
      · split at ha
        · cases ha
        · exact List.mem_singleton.mp ha
      · split at ha
        · rw [List.mem_singleton.mp ha] at hkind
          exact absurd rfl hkind.1
        · cases ha
  · split at ha
    · rw [List.mem_singleton.mp ha] at hkind
      exact absurd rfl hkind.2
    · cases ha

theorem usable_activeSource {v : StakePoolFogo.ValidatorStakeInfo}
    (hfee : p.stakeWithdrawalFee.numerator.toNat ≤ p.stakeWithdrawalFee.denominator.toNat)
    (hprice : p.getLamportsPerPoolToken = some perToken) (hmore : perToken < v.activeStakeLamports) :
    usable burnFrom cluster p (activeSource rt pool p v) = true := by
  refine decide_eq_true ⟨fun hskip => ?_, ?_⟩
  · have htype : (if p.preferredWithdrawValidatorVoteAddress = some v.voteAccountAddress
        then AccountType.preferred else .active) = .transient := hskip.2
    split at htype <;> cases htype
  · obtain ⟨k, hk, hgross⟩ := @availableForWithdrawal_grossedUp burnFrom p v.activeStakeLamports hfee
    have htokens := tokensOf_pos hprice (Nat.le_of_lt hmore) (by omega)
    have hle := hgross.le
    show 0 < availableForWithdrawal (.ofPool p) (skipsFee burnFrom (.ofPool p)) v.activeStakeLamports
    rw [hk]
    omega

/-- The first account is a validator's active stake, where some validator has more than a token's price. -/
theorem planSources_head {reserve : Nat} {v : StakePoolFogo.ValidatorStakeInfo}
    (hfee : p.stakeWithdrawalFee.numerator.toNat ≤ p.stakeWithdrawalFee.denominator.toNat)
    (hprice : p.getLamportsPerPoolToken = some perToken) (hv : v ∈ l.validators)
    (hactive : v.status = StakeStatus.active.toPod) (hmore : perToken < v.activeStakeLamports) :
    ∃ u ∈ l.validators, ∃ rest,
      planSources rt pool burnFrom cluster p l reserve = activeSource rt pool p u :: rest := by
  have hlisted : activeSource rt pool p v ∈
      ((sortedSources rt pool cluster p l reserve).filter (·.type = .preferred) ++
        (sortedSources rt pool cluster p l reserve).filter (·.type = .active)).filter
          (usable burnFrom cluster p) := by
    have hmem : activeSource rt pool p v ∈ sortedSources rt pool cluster p l reserve :=
      mem_sortedSources hv hactive (by omega)
    refine List.mem_filter.mpr ⟨?_, usable_activeSource hfee hprice hmore⟩
    rw [List.mem_append, List.mem_filter, List.mem_filter]
    by_cases hpreferred : p.preferredWithdrawValidatorVoteAddress = some v.voteAccountAddress
    · exact .inl ⟨hmem, decide_eq_true (if_pos hpreferred)⟩
    · exact .inr ⟨hmem, decide_eq_true (if_neg hpreferred)⟩
  obtain ⟨first, rest, hfront⟩ := List.exists_cons_of_ne_nil (List.ne_nil_of_mem hlisted)
  have hfirst : first ∈ (sortedSources rt pool cluster p l reserve).filter (·.type = .preferred) ++
      (sortedSources rt pool cluster p l reserve).filter (·.type = .active) := by
    apply List.mem_of_mem_filter (p := usable burnFrom cluster p)
    rw [hfront]
    exact List.mem_cons_self
  obtain ⟨u, hu, rfl⟩ : ∃ u ∈ l.validators, first = activeSource rt pool p u := by
    rcases List.mem_append.mp hfirst with hfirst | hfirst
    · obtain ⟨hmem, htype⟩ := List.mem_filter.mp hfirst
      exact sortedSources_active hmem (.inl (of_decide_eq_true htype))
    · obtain ⟨hmem, htype⟩ := List.mem_filter.mp hfirst
      exact sortedSources_active hmem (.inr (of_decide_eq_true htype))
  refine ⟨u, hu, ?_⟩
  unfold planSources
  rw [List.flatMap_cons, List.flatMap_cons, ← List.append_assoc, List.filter_append, hfront]
  exact ⟨_, rfl⟩

end Ordinary

/-- What the program leaves on a stake account. -/
def minimumStake (cluster : Cluster) (sv : Sysvars) : Nat :=
  saturatingAdd 64 cluster.rentExemption (minimumDelegation sv.stakeMinimumDelegation)

/-- A validator's account that gives all it is worth keeps less than the minimum. -/
theorem not_serves_whole (h : UpToDate rt sv pool cluster view) {u v : StakePoolFogo.ValidatorStakeInfo}
    {perToken k : Nat} {view' : StakeView}
    (hfee : view.stakePool.stakeWithdrawalFee.numerator.toNat ≤
      view.stakePool.stakeWithdrawalFee.denominator.toNat)
    (hprice : view.stakePool.getLamportsPerPoolToken = some perToken)
    (hv : v ∈ view.validatorList.validators) (hactive : v.status = StakeStatus.active.toPod)
    (hspare : saturatingAdd 64 (minimumStake cluster sv) perToken < v.activeStakeLamports)
    (hordinary : 2 * perToken < minimumStake cluster sv) (hu : u ∈ view.validatorList.validators)
    (hseed : u.validatorSeedSuffix = 0)
    (hworth : sourceWorth burnFrom view.stakePool (activeSource rt pool view.stakePool u) = .ok k) :
    ¬Serves rt sv pool burnFrom managerFee view (activeSource rt pool view.stakePool u).stakeAddress k
      view' := by
  intro hserved
  obtain ⟨worth, havailable, hgross⟩ :=
    @availableForWithdrawal_grossedUp burnFrom view.stakePool u.activeStakeLamports hfee
  have hk : (availableForWithdrawal (.ofPool view.stakePool) (skipsFee burnFrom (.ofPool view.stakePool))
      u.activeStakeLamports).toNat = k := Except.ok.inj hworth
  rw [havailable, Int.toNat_natCast] at hk
  subst hk
  have hheld : (view.stakes (activeSource rt pool view.stakePool u).stakeAddress).lamports =
      u.activeStakeLamports := by
    have hactive := h.active u hu
    rw [hseed] at hactive
    exact hactive
  have hrent := h.rent u hu
  rw [hseed] at hrent
  have hkeeps := hserved.keeps hgross (fun hsupply htotal => by
    rw [hheld, tokensOf, if_neg (by omega)]) hrent hprice hv hactive
  have hle := hkeeps hspare
  exact absurd hle (Nat.not_le.mpr hordinary)

/-- For every list of this epoch, every fee and every request: JavaScript's plan is executable exactly where
there is none, since no validator is listed, a number is too large for the client or the accounts are not
worth enough, or where each account in turn passes the checks with all it is worth, the last with what
remains.  While a validator has stake to spare and a token is worth less than half of the minimum, only a
plan of one account, which keeps something, is. -/
theorem js_plan_executable_iff (hl : view.validatorList.Fits) (h : UpToDate rt sv pool cluster view)
    (hamount : 0 < amount) :
    (PlanExecutable rt sv pool burnFrom managerFee cluster compared view rest amount ↔
      view.validatorList.validators = [] ∨
        ¬NumbersFit rt pool cluster compared view.stakePool view.validatorList
          (view.stakes view.stakePool.reserveStake).lamports ∨
        (planOf rt pool burnFrom cluster view).FallsShort amount ∨
        (planOf rt pool burnFrom cluster view).ServedInTurn rt sv pool burnFrom managerFee view amount) ∧
    ((∀ u ∈ view.validatorList.validators, u.validatorSeedSuffix = 0) →
      view.stakePool.stakeWithdrawalFee.numerator.toNat ≤
        view.stakePool.stakeWithdrawalFee.denominator.toNat →
      ∀ v ∈ view.validatorList.validators, ∀ perToken, v.status = StakeStatus.active.toPod →
        view.stakePool.getLamportsPerPoolToken = some perToken →
        saturatingAdd 64 (minimumStake cluster sv) perToken < v.activeStakeLamports →
        2 * perToken < minimumStake cluster sv →
        ((planOf rt pool burnFrom cluster view).ServedInTurn rt sv pool burnFrom managerFee view amount ↔
          ∃ u ∈ view.validatorList.validators, ∃ others k view', planSources rt pool burnFrom cluster
              view.stakePool view.validatorList (view.stakes view.stakePool.reserveStake).lamports =
                activeSource rt pool view.stakePool u :: others ∧
            sourceWorth burnFrom view.stakePool (activeSource rt pool view.stakePool u) = .ok k ∧ amount < k ∧
            Serves rt sv pool burnFrom managerFee view (activeSource rt pool view.stakePool u).stakeAddress
              amount view')) := by
  refine ⟨planExecutable_iff hl h hamount, ?_⟩
  intro hseeds hfee v hv perToken hactive hprice hspare hordinary
  -- At ordinary prices an active account comes first, and it cannot be emptied.
  have hmore : perToken < v.activeStakeLamports := by
    have hfits := (hl.entries v hv).activeStakeLamports
    have hadd : saturatingAdd 64 (minimumStake cluster sv) perToken =
      min (minimumStake cluster sv + perToken) (2 ^ 64 - 1) := rfl
    omega
  obtain ⟨u, hu, others, hsources⟩ := @planSources_head rt pool burnFrom cluster view.stakePool
    view.validatorList perToken (view.stakes view.stakePool.reserveStake).lamports v hfee hprice hv hactive
    hmore
  rw [ClientPlan.servedInTurn_single hsources fun k view' hworth =>
    not_serves_whole h hfee hprice hv hactive hspare hordinary hu (hseeds u hu) hworth]
  constructor
  · rintro ⟨k, view', hworth, hlt, hserved⟩
    exact ⟨u, hu, others, k, view', hsources, hworth, hlt, hserved⟩
  · rintro ⟨u', -, others', k, view', hsources', hworth, hlt, hserved⟩
    obtain ⟨hfirst, -⟩ := List.cons.inj (hsources.symm.trans hsources')
    rw [← hfirst] at hworth hserved
    exact ⟨k, view', hworth, hlt, hserved⟩

end Execution

section Example

open Reference

def soleCluster : Cluster := ⟨minimumBalance stakeSpace, fun k => some (soleView.stakes k).lamports⟩

theorem soleView_fits : soleView.validatorList.Fits :=
  ⟨by decide, fun v hv => by
    rw [List.mem_singleton.mp (show v ∈ [spareEntry] from hv)]
    constructor <;> decide⟩

theorem soleSource_address :
    (StakePoolFogo.findStakeProgramAddress runtime spareEntry.voteAccountAddress pool 0).1 = soleStake := rfl

theorem sole_upToDate : UpToDate runtime (sysvars 9) pool soleCluster soleView where
  epoch := by decide
  reserve := rfl
  active := by decide +kernel
  rent := by
    intro v hv state info hstate hmeta
    have hentry : v ∈ [spareEntry] := hv
    rw [List.mem_singleton.mp hentry] at hstate
    rw [show spareEntry.validatorSeedSuffix = 0 from rfl, soleSource_address, soleView_stakes,
      soleLedger_stake] at hstate
    cases hstate
    cases hmeta
    rfl

def soleSource : ValidatorAccount := ⟨.active, key 70, soleStake, 1003282880⟩

theorem activeSource_sole : activeSource runtime pool soleView.stakePool spareEntry = soleSource := rfl

theorem sole_sources : ∃ others, planSources runtime pool (key 40) soleCluster soleView.stakePool
    soleView.validatorList (soleView.stakes soleView.stakePool.reserveStake).lamports =
      soleSource :: others := by
  obtain ⟨u, hu, others, hsources⟩ := @planSources_head runtime pool (key 40) soleCluster soleView.stakePool
    soleView.validatorList 1 (soleView.stakes soleView.stakePool.reserveStake).lamports spareEntry (by decide)
    (by decide) List.mem_cons_self rfl (by decide)
  rw [List.mem_singleton.mp (show u ∈ [spareEntry] from hu), activeSource_sole] at hsources
  exact ⟨others, hsources⟩

theorem sole_worth : sourceWorth (key 40) soleView.stakePool soleSource = .ok 1006301785 := rfl

/-- There is one account, so nothing is compared. -/
def noComparisons : Comparisons := fun _ => []

/-- Half of the validator's stake is withdrawn. -/
theorem js_plan_executable_half : PlanExecutable runtime (sysvars 9) pool (key 40) (tokenAccount manager 0)
    soleCluster noComparisons soleView [] 500000000 := by
  have hserved : (planOf runtime pool (key 40) soleCluster soleView).ServedInTurn runtime (sysvars 9) pool
      (key 40) (tokenAccount manager 0) soleView 500000000 := by
    obtain ⟨others, hsources⟩ := sole_sources
    obtain ⟨view', hhalf⟩ := soleView_half
    unfold ClientPlan.ServedInTurn planOf
    rw [hsources]
    exact .last sole_worth (by decide) (withdrawChecks_eq_ok.mp hhalf)
  exact (js_plan_executable_iff soleView_fits sole_upToDate (by decide)).1.mpr (.inr (.inr (.inr hserved)))

theorem sole_numbersFit : NumbersFit runtime pool soleCluster noComparisons soleView.stakePool
    soleView.validatorList (soleView.stakes soleView.stakePool.reserveStake).lamports where
  least := by decide
  balances := by
    intro pair hpair
    cases hpair
  reserve := by decide +kernel

/-- A plan that empties the account is rejected, since the minimum has to stay. -/
theorem js_plan_executable_emptied :
    (∃ account, prepareWithdrawAccounts runtime runtime.programId soleCluster noComparisons
      (.ofPool soleView.stakePool) (soleView.validatorList.toBytes []) pool 1006301785 none
        (skipsFee (key 40) (.ofPool soleView.stakePool)) = some [account]) ∧
    ¬PlanExecutable runtime (sysvars 9) pool (key 40) (tokenAccount manager 0) soleCluster noComparisons soleView
      [] 1006301785 := by
  obtain ⟨others, hsources⟩ := sole_sources
  obtain ⟨taken, missing, hfill, hprepare⟩ := @prepareWithdrawAccounts_plan runtime pool (key 40) soleCluster
    noComparisons soleView.stakePool soleView.validatorList [] _ 1006301785 soleView_fits
    (List.cons_ne_nil _ _) sole_numbersFit sole_upToDate.reserve (by decide)
  have hwhole : fill (sourceWorth (key 40) soleView.stakePool) (soleSource :: others) 1006301785 =
      .ok ([(soleSource, 1006301785)], 0) := fill_cons_of_le sole_worth (Nat.le_refl _)
  rw [hsources, hwhole] at hfill
  obtain ⟨rfl, rfl⟩ := Prod.mk.inj (Except.ok.inj hfill)
  rw [if_pos rfl] at hprepare
  refine ⟨⟨_, hprepare⟩, fun hplan => ?_⟩
  obtain ⟨-, -, view', hrun⟩ := hplan.carriedOut _ hprepare
  rw [withdrawAll_taken soleCluster] at hrun
  obtain ⟨next, hnext, -⟩ := carryOut_cons_eq_ok.mp hrun
  exact soleView_whole next hnext

end Example

end StakePoolFogo.JsLegacy
