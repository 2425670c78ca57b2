import StakePoolFogo.JsLegacy.Actions
import StakePoolFogo.Reference

/-!
# Stake withdrawals from JavaScript

What the loop of `withdrawStake` over the accounts it takes stake from collects, and when the result asks for
all that was approved.
-/

namespace StakePoolFogo.JsLegacy

/-! ## What is asked for -/

namespace Step

def approved : Step → Option Nat
  | .approve _ _ _ amount => some amount
  | _ => none

def poolTokens : Step → Option Nat
  | .withdrawStake params => some params.poolTokens
  | _ => none

/-- The account that stake is withdrawn from, and for how many tokens. -/
def withdrawn : Step → Option (Pubkey × Nat)
  | .withdrawStake params => some (params.validatorStake, params.poolTokens)
  | _ => none

def created : Step → Option Pubkey
  | .createAccount _ newAccountPubkey _ => some newAccountPubkey
  | _ => none

def isMerge : Step → Bool
  | .merge _ _ _ => true
  | _ => false

theorem filterMap_poolTokens (steps : List Step) :
    steps.filterMap poolTokens = (steps.filterMap withdrawn).map (·.2) := by
  rw [List.map_filterMap]
  congr 1
  funext step
  cases step <;> rfl

end Step

/-- All that was asked for is approved and withdrawn, and a delegated receiver gets every new account. -/
structure WithdrawsAll (request : WithdrawStakeRequest) (result : WithdrawStakeResult) : Prop where
  approved : result.instructions.filterMap Step.approved = [request.poolAmount]
  withdrawn : (result.instructions.filterMap Step.poolTokens).sum = request.poolAmount
  merged : ∀ receiver voter, request.stakeReceiver = some receiver → request.receiverVoter = some voter →
    ∀ new ∈ result.instructions.filterMap Step.created,
      Step.merge receiver new request.tokenOwner ∈ result.instructions

/-! ## The accounts -/

section Accounts

variable {stakePool : StakePool} {minBalance : Nat} {skipFee : Bool} {accounts : List ValidatorAccount}

/-- What is taken is positive and adds up to what no longer remains. -/
theorem takeFrom_sum {remaining : Int} (hremaining : 0 ≤ remaining) :
    (∀ a ∈ (takeFrom stakePool minBalance skipFee accounts remaining).1, 0 < a.poolAmount) ∧
      ((takeFrom stakePool minBalance skipFee accounts remaining).1.map (·.poolAmount)).sum +
        (takeFrom stakePool minBalance skipFee accounts remaining).2 = remaining ∧
      0 ≤ (takeFrom stakePool minBalance skipFee accounts remaining).2 := by
  induction accounts generalizing remaining with
  | nil =>
    refine ⟨fun a ha => ?_, Int.zero_add _, hremaining⟩
    cases ha
  | cons account accounts ih =>
    simp only [takeFrom]
    have hle : min (availableForWithdrawal stakePool skipFee account.lamports) remaining ≤ remaining :=
      Int.min_le_right _ _
    generalize min (availableForWithdrawal stakePool skipFee account.lamports) remaining = amount at hle ⊢
    split
    · exact ih hremaining
    · rename_i htaken
      have hpos : 0 < amount := by
        rw [not_or] at htaken
        omega
      split
      · rename_i hdone
        refine ⟨fun a ha => ?_, ?_, Int.le_refl 0⟩
        · rw [List.mem_singleton.mp ha]
          exact hpos
        · show amount + 0 + 0 = remaining
          omega
      · have hleft : 0 ≤ remaining - amount := by omega
        obtain ⟨hrest, hsum, hnonneg⟩ := ih hleft
        refine ⟨fun a ha => ?_, ?_, hnonneg⟩
        · rcases List.mem_cons.mp ha with rfl | ha
          · exact hpos
          · exact hrest a ha
        · rw [List.map_cons, List.sum_cons]
          show amount + _ + _ = remaining
          omega

end Accounts

section Loop

variable {rt : Runtime} {stakePoolProgramId : Pubkey} {cluster : Cluster} {compared : Comparisons}
  {stakePool : StakePool} {validatorListData : List UInt8} {stakePoolAddress : Pubkey}
  {request : WithdrawStakeRequest} {accounts : List WithdrawAccount}

/-- The accounts that are prepared have positive amounts, which add up. -/
theorem prepareWithdrawAccounts_sum {amount : Nat}
    {compareFn : Option (ValidatorAccount → ValidatorAccount → Int)} {skipFee : Bool}
    (h : prepareWithdrawAccounts rt stakePoolProgramId cluster compared stakePool validatorListData
      stakePoolAddress amount compareFn skipFee = some accounts) :
    (∀ a ∈ accounts, 0 < a.poolAmount) ∧ (accounts.map (·.poolAmount)).sum = amount := by
  unfold prepareWithdrawAccounts at h
  simp only [Option.bind_eq_bind, Option.bind_eq_some_iff, Option.guard_eq_some', exists_const,
    Option.pure_def, Option.some_inj] at h
  obtain ⟨list, -, -, -, entries, -, sorted, -, -, hdone, rfl⟩ := h
  obtain ⟨hpos, hsum, hnonneg⟩ := @takeFrom_sum stakePool
    (cluster.rentExemption + minimumActiveStake) skipFee _ _ (Int.natCast_nonneg amount)
  refine ⟨hpos, ?_⟩
  have hzero := Int.le_antisymm hdone hnonneg
  rw [hzero, Int.add_zero] at hsum
  exact hsum

theorem amounts_single {a : WithdrawAccount} (h : a.poolAmount = request.poolAmount) :
    ((∀ b ∈ [a], 0 < b.poolAmount) ∨ [a].length = 1) ∧ (∀ b ∈ [a], 0 ≤ b.poolAmount) ∧
      ([a].map (·.poolAmount)).sum = request.poolAmount ∧
      (request.receiverVoter.isSome → [a].length = 1) := by
  refine ⟨.inr rfl, fun b hb => ?_, ?_, fun _ => rfl⟩
  · rw [List.mem_singleton.mp hb, h]
    exact Int.natCast_nonneg _
  · rw [List.map_singleton, List.sum_singleton, h]

/-- The account of a validator is derived without a seed. -/
theorem validatorSource_eq_some {voteAccount : Pubkey} {poolAmount : Nat} {checkAvailable : Bool}
    {a : WithdrawAccount}
    (h : validatorSource rt stakePoolProgramId cluster stakePool stakePoolAddress voteAccount poolAmount
      checkAvailable = some a) :
    findStakeProgramAddress rt stakePoolProgramId voteAccount stakePoolAddress none = some a.stakeAddress ∧
      a.poolAmount = poolAmount := by
  unfold validatorSource at h
  simp only [Option.bind_eq_bind, Option.bind_eq_some_iff, Option.guard_eq_some', exists_const,
    Option.pure_def, Option.some_inj] at h
  obtain ⟨stakeAddress, haddress, -, -, -, -, -, -, -, rfl⟩ := h
  exact ⟨haddress, rfl⟩

/-- Stake comes from the reserve, from the validator of the receiver or of the request, or from what is
prepared. -/
theorem withdrawAccounts_cases (h : withdrawAccounts rt stakePoolProgramId cluster compared stakePool
      validatorListData stakePoolAddress request = some accounts) :
    (request.useReserve = true ∧ accounts = [⟨stakePool.reserveStake, none, request.poolAmount⟩]) ∨
    (request.useReserve = false ∧ ∃ voteAccount checkAvailable a,
      (request.receiverVoter <|> request.voteAccountAddress) = some voteAccount ∧
      validatorSource rt stakePoolProgramId cluster stakePool stakePoolAddress voteAccount
        request.poolAmount checkAvailable = some a ∧ accounts = [a]) ∨
    (request.useReserve = false ∧ (request.receiverVoter <|> request.voteAccountAddress) = none ∧
      prepareWithdrawAccounts rt stakePoolProgramId cluster compared stakePool validatorListData
        stakePoolAddress request.poolAmount request.validatorComparator
        (request.poolTokenAccount = stakePool.managerFeeAccount) = some accounts) := by
  unfold withdrawAccounts at h
  split at h
  · rename_i hreserve
    exact .inl ⟨hreserve, (Option.some.inj h).symm⟩
  · rename_i hreserve
    have hfalse : request.useReserve = false := Bool.eq_false_iff.mpr hreserve
    split at h
    · rename_i voteAccount hvoter
      simp only [Option.bind_eq_bind, Option.bind_eq_some_iff, Option.guard_eq_some', exists_const,
        Option.pure_def, Option.some_inj] at h
      obtain ⟨-, -, -, -, a, ha, rfl⟩ := h
      exact .inr (.inl ⟨hfalse, voteAccount, false, a, by rw [hvoter]; rfl, ha, rfl⟩)
    · rename_i hvoter
      split at h
      · rename_i voteAccount hvote
        obtain ⟨a, ha, haccounts⟩ := Option.bind_eq_some_iff.mp h
        exact .inr (.inl ⟨hfalse, voteAccount, true, a, by rw [hvoter]; exact hvote, ha,
          (Option.some.inj haccounts).symm⟩)
      · rename_i hvote
        exact .inr (.inr ⟨hfalse, by rw [hvoter]; exact hvote, h⟩)

/-- The accounts have amounts that add up; a delegated receiver leaves one account. -/
theorem withdrawAccounts_sum (h : withdrawAccounts rt stakePoolProgramId cluster compared stakePool
      validatorListData stakePoolAddress request = some accounts) :
    ((∀ a ∈ accounts, 0 < a.poolAmount) ∨ accounts.length = 1) ∧ (∀ a ∈ accounts, 0 ≤ a.poolAmount) ∧
      (accounts.map (·.poolAmount)).sum = request.poolAmount ∧
      (request.receiverVoter.isSome → accounts.length = 1) := by
  obtain ⟨-, rfl⟩ | ⟨-, voteAccount, checkAvailable, a, -, ha, rfl⟩ | ⟨-, hnone, hprepared⟩ :=
    withdrawAccounts_cases h
  · exact amounts_single rfl
  · exact amounts_single (validatorSource_eq_some ha).2
  · obtain ⟨hpos, hsum⟩ := prepareWithdrawAccounts_sum hprepared
    refine ⟨.inl hpos, fun a ha => Int.le_of_lt (hpos a ha), hsum, fun hsome => ?_⟩
    obtain ⟨voter, hvoter⟩ := Option.isSome_iff_exists.mp hsome
    rw [hvoter] at hnone
    cases hnone

/-! ## The loop -/

/-- One turn never throws unless the pool has no tokens. -/
theorem calcLamportsWithdrawAmount_isSome {poolTokens : Int} (htokens : 0 ≤ poolTokens) :
    (calcLamportsWithdrawAmount stakePool poolTokens).isSome ↔ stakePool.poolTokenSupply ≠ 0 := by
  have hproduct : 0 ≤ poolTokens * stakePool.totalLamports :=
    Int.mul_nonneg htokens (Int.natCast_nonneg _)
  unfold calcLamportsWithdrawAmount
  by_cases hzero : stakePool.poolTokenSupply = 0
  · rw [hzero, if_neg (by omega), if_pos rfl]
    exact ⟨fun h => (by cases h), fun h => absurd rfl h⟩
  · refine ⟨fun _ => hzero, fun _ => ?_⟩
    by_cases hsmall : poolTokens * stakePool.totalLamports < stakePool.poolTokenSupply
    · rw [if_pos hsmall]
      rfl
    · rw [if_neg hsmall, if_neg hzero]
      rfl

/-- What a turn adds before the withdrawal: at most an account, which goes to the new signer. -/
theorem Progress.receive_adds (i : Nat) (progress : Progress) : ∃ added : List Step,
    (progress.receive cluster request i).2.instructions = progress.instructions ++ added ∧
      added.filterMap Step.approved = [] ∧ added.filterMap Step.withdrawn = [] ∧
      (∀ step ∈ added, step.isMerge = false) ∧
      (request.receiverVoter.isSome → added.filterMap Step.created = [request.newStakeAccount i]) := by
  unfold Progress.receive
  split
  · rename_i hvoter
    refine ⟨[], (List.append_nil _).symm, rfl, rfl, fun step hstep => ?_, fun hsome => ?_⟩
    · cases hstep
    · rw [hvoter] at hsome
      cases hsome
  · refine ⟨[_], rfl, rfl, rfl, fun step hstep => ?_, fun _ => rfl⟩
    rw [List.mem_singleton.mp hstep]
    rfl

/-- The loop withdraws from the accounts up to the sixth, and merges nothing. -/
theorem withdrawEach_adds {i : Nat} {progress progress' : Progress}
    (h : withdrawEach rt stakePoolProgramId cluster stakePool stakePoolAddress request accounts i progress =
      some progress') : ∃ added : List Step,
    progress'.instructions = progress.instructions ++ added ∧ added.filterMap Step.approved = [] ∧
      added.filterMap Step.withdrawn = (accounts.take (maxWithdrawAccounts + 1 - i)).map
        (fun a => (a.stakeAddress, a.poolAmount.toNat)) ∧
      (∀ step ∈ added, step.isMerge = false) ∧
      (request.receiverVoter.isSome → accounts ≠ [] → i ≤ maxWithdrawAccounts →
        request.newStakeAccount i ∈ added.filterMap Step.created) := by
  induction accounts generalizing i progress with
  | nil =>
    obtain rfl := Option.some.inj h
    refine ⟨[], (List.append_nil _).symm, rfl, ?_, fun step hstep => ?_, fun _ hnil => absurd rfl hnil⟩
    · rw [List.take_nil]
      rfl
    · cases hstep
  | cons account accounts ih =>
    unfold withdrawEach at h
    split at h
    · rename_i hlimit
      obtain rfl := Option.some.inj h
      refine ⟨[], (List.append_nil _).symm, rfl, ?_, fun step hstep => ?_, fun _ _ hle => by omega⟩
      · rw [show maxWithdrawAccounts + 1 - i = 0 by omega]
        rfl
      · cases hstep
    · rename_i hlimit
      simp only [Option.bind_eq_bind, Option.bind_eq_some_iff] at h
      obtain ⟨-, -, h⟩ := h
      obtain ⟨received, hreceived, happroved, hwithdrawn, hmerge, hcreated⟩ :=
        @Progress.receive_adds cluster request i progress
      obtain ⟨rest, hrest, happroved', hwithdrawn', hmerge', -⟩ := ih h
      refine ⟨received ++ (withdrawStep rt stakePoolProgramId stakePool stakePoolAddress request account
        (progress.receive cluster request i).1 :: rest), ?_, ?_, ?_, ?_, fun hsome _ _ => ?_⟩
      · rw [hrest, hreceived]
        simp only [List.append_assoc, List.cons_append, List.nil_append]
      · rw [List.filterMap_append, happroved, List.nil_append]
        exact happroved'
      · rw [List.filterMap_append, hwithdrawn, List.nil_append,
          show maxWithdrawAccounts + 1 - i = maxWithdrawAccounts + 1 - (i + 1) + 1 by omega,
          List.take_succ_cons, List.map_cons, ← hwithdrawn']
        rfl
      · intro step hstep
        rcases List.mem_append.mp hstep with hstep | hstep
        · exact hmerge step hstep
        · rcases List.mem_cons.mp hstep with rfl | hstep
          · rfl
          · exact hmerge' step hstep
      · rw [List.filterMap_append, hcreated hsome]
        exact List.mem_append_left _ (List.mem_singleton_self _)

/-- Without a division by zero the loop gets to its end. -/
theorem withdrawEach_isSome {i : Nat} {progress : Progress} (hamounts : ∀ a ∈ accounts, 0 ≤ a.poolAmount)
    (hsupply : stakePool.poolTokenSupply ≠ 0) :
    (withdrawEach rt stakePoolProgramId cluster stakePool stakePoolAddress request accounts i progress).isSome := by
  induction accounts generalizing i progress with
  | nil => rfl
  | cons account accounts ih =>
    unfold withdrawEach
    split
    · rfl
    · obtain ⟨lamports, hlamports⟩ := Option.isSome_iff_exists.mp
        ((calcLamportsWithdrawAmount_isSome (hamounts account List.mem_cons_self)).mpr hsupply)
      rw [hlamports]
      exact ih fun a ha => hamounts a (List.mem_cons_of_mem account ha)

theorem mergeEach_eq (stakeReceiver tokenOwner : Pubkey) (signers : List Pubkey) (instructions : List Step) :
    mergeEach stakeReceiver tokenOwner signers instructions = instructions := by
  unfold mergeEach
  induction signers with
  | nil => rfl
  | cons signer signers ih => exact ih

/-! ## When all is withdrawn -/

theorem sum_toNat (hamounts : ∀ a ∈ accounts, 0 ≤ a.poolAmount) :
    (((accounts.map (·.poolAmount.toNat)).sum : Nat) : Int) = (accounts.map (·.poolAmount)).sum := by
  induction accounts with
  | nil => rfl
  | cons a accounts ih =>
    have ha := hamounts a List.mem_cons_self
    have hrest := ih fun b hb => hamounts b (List.mem_cons_of_mem a hb)
    rw [List.map_cons, List.map_cons, List.sum_cons, List.sum_cons, Int.natCast_add]
    omega

/-- The first six accounts have the whole amount only if there are no more. -/
theorem take_sum_iff (h : withdrawAccounts rt stakePoolProgramId cluster compared stakePool validatorListData
      stakePoolAddress request = some accounts) :
    ((accounts.take (maxWithdrawAccounts + 1)).map (·.poolAmount.toNat)).sum = request.poolAmount ↔
      accounts.length ≤ maxWithdrawAccounts + 1 := by
  obtain ⟨hpos, hnonneg, hsum, -⟩ := withdrawAccounts_sum h
  have htotal := sum_toNat hnonneg
  rw [hsum] at htotal
  constructor
  · intro hall
    by_contra hlong
    have hpositive : ∀ a ∈ accounts, 0 < a.poolAmount := by
      rcases hpos with hpos | hone
      · exact hpos
      · unfold maxWithdrawAccounts at hlong
        omega
    -- There is an account left over, and it has something.
    obtain ⟨a, ha⟩ := List.exists_mem_of_ne_nil (accounts.drop (maxWithdrawAccounts + 1))
      (fun hnil => hlong (List.drop_eq_nil_iff.mp hnil))
    have hsplit : (accounts.map (·.poolAmount.toNat)).sum =
        ((accounts.take (maxWithdrawAccounts + 1)).map (·.poolAmount.toNat)).sum +
          ((accounts.drop (maxWithdrawAccounts + 1)).map (·.poolAmount.toNat)).sum := by
      rw [← List.sum_append, ← List.map_append, List.take_append_drop]
    have hle : a.poolAmount.toNat ≤
        ((accounts.drop (maxWithdrawAccounts + 1)).map (·.poolAmount.toNat)).sum :=
      List.single_le_sum (fun _ _ => Nat.zero_le _) _ (List.mem_map_of_mem ha)
    have hamount := hpositive a (List.mem_of_mem_drop ha)
    omega
  · intro hshort
    rw [List.take_of_length_le hshort]
    omega

/-- What `withdrawStake` returns, unless it throws. -/
theorem withdrawStakeResult_eq_some {result : WithdrawStakeResult} :
    withdrawStakeResult rt stakePoolProgramId cluster compared stakePool validatorListData stakePoolAddress request =
      some result → IsSafe request.poolAmount ∧ request.poolAmount ≤ request.tokenAmount ∧ ∃ accounts added,
        withdrawAccounts rt stakePoolProgramId cluster compared stakePool validatorListData stakePoolAddress request =
          some accounts ∧
        (stakePool.poolTokenSupply ≠ 0 ∨ accounts = []) ∧
        result.instructions = [Step.approve request.poolTokenAccount request.userTransferAuthority
          request.tokenOwner request.poolAmount] ++ added ∧
        added.filterMap Step.approved = [] ∧
        added.filterMap Step.withdrawn = (accounts.take (maxWithdrawAccounts + 1)).map
          (fun a => (a.stakeAddress, a.poolAmount.toNat)) ∧
        (∀ step ∈ added, step.isMerge = false) ∧
        (request.receiverVoter.isSome → accounts ≠ [] →
          request.newStakeAccount 0 ∈ added.filterMap Step.created) := by
  intro h
  simp only [withdrawStakeResult, Option.bind_eq_bind, Option.bind_eq_some_iff, Option.guard_eq_some',
    exists_const, Option.pure_def, Option.some_inj] at h
  obtain ⟨hsafe, hamount, accounts, haccounts, progress, hprogress, rfl⟩ := h
  obtain ⟨added, hadded, happroved, hwithdrawn, hmerge, hcreated⟩ := withdrawEach_adds hprogress
  refine ⟨hsafe, hamount, accounts, added, haccounts, ?_, ?_, happroved, hwithdrawn, hmerge, fun hsome hne =>
    hcreated hsome hne (Nat.zero_le _)⟩
  · rcases accounts with - | ⟨account, accounts⟩
    · exact .inr rfl
    · obtain ⟨-, hnonneg, -, -⟩ := withdrawAccounts_sum haccounts
      unfold withdrawEach at hprogress
      rw [if_neg (Nat.not_lt_zero _)] at hprogress
      obtain ⟨lamports, hlamports, -⟩ := Option.bind_eq_some_iff.mp hprogress
      exact .inl ((calcLamportsWithdrawAmount_isSome (hnonneg account List.mem_cons_self)).mp
        (by rw [hlamports]; rfl))
  · rw [← hadded]
    split
    · rw [mergeEach_eq]
    · rfl

theorem tokens_of_withdrawn {steps : List Step}
    (h : steps.filterMap Step.withdrawn = accounts.map fun a => (a.stakeAddress, a.poolAmount.toNat)) :
    steps.filterMap Step.poolTokens = accounts.map (·.poolAmount.toNat) := by
  rw [Step.filterMap_poolTokens, h, List.map_map]
  rfl

theorem withdrawStakeResult_isSome (hsafe : IsSafe request.poolAmount)
    (hamount : request.poolAmount ≤ request.tokenAmount)
    (haccounts : withdrawAccounts rt stakePoolProgramId cluster compared stakePool validatorListData
      stakePoolAddress request = some accounts)
    (hsupply : stakePool.poolTokenSupply ≠ 0 ∨ accounts = []) :
    ∃ result, withdrawStakeResult rt stakePoolProgramId cluster compared stakePool validatorListData
      stakePoolAddress request = some result := by
  obtain ⟨-, hnonneg, -, -⟩ := withdrawAccounts_sum haccounts
  have hloop : ∀ progress, ∃ progress', withdrawEach rt stakePoolProgramId cluster stakePool
      stakePoolAddress request accounts 0 progress = some progress' := by
    intro progress
    rcases hsupply with hsupply | rfl
    · exact Option.isSome_iff_exists.mp (withdrawEach_isSome hnonneg hsupply)
    · exact ⟨progress, rfl⟩
  obtain ⟨progress, hprogress⟩ := hloop { instructions := [_], signers := [_], totalRentFreeBalances := 0 }
  unfold withdrawStakeResult
  rw [haccounts]
  simp only [Option.bind_eq_bind, Option.bind_some, guard, if_pos hsafe, if_pos hamount,
    Option.pure_def]
  rw [hprogress]
  exact ⟨_, rfl⟩

end Loop

/-- Where a call does not throw, all that was approved is withdrawn and merged exactly if the receiver,
if any, is not delegated and no more than six accounts are needed. -/
theorem withdraw_stake_complete_iff {rt : Runtime} {stakePoolProgramId : Pubkey} {cluster : Cluster}
    {compared : Comparisons} {stakePool : StakePool} {validatorListData : List UInt8}
    {stakePoolAddress : Pubkey} {request : WithdrawStakeRequest} :
    (∀ result, withdrawStakeResult rt stakePoolProgramId cluster compared stakePool validatorListData
      stakePoolAddress request = some result → WithdrawsAll request result) ↔
    (IsSafe request.poolAmount → request.poolAmount ≤ request.tokenAmount → ∀ accounts,
      withdrawAccounts rt stakePoolProgramId cluster compared stakePool validatorListData stakePoolAddress request =
        some accounts → (stakePool.poolTokenSupply ≠ 0 ∨ accounts = []) →
      (request.stakeReceiver = none ∨ request.receiverVoter = none) ∧
        accounts.length ≤ maxWithdrawAccounts + 1) := by
  constructor
  · intro hall hsafe hamount accounts haccounts hsupply
    obtain ⟨result, hresult⟩ := withdrawStakeResult_isSome hsafe hamount haccounts hsupply
    have hcomplete := hall result hresult
    obtain ⟨-, -, accounts', added, haccounts', -, hinstructions, -, hadded, hmerge, hcreated⟩ :=
      withdrawStakeResult_eq_some hresult
    obtain rfl := Option.some.inj (haccounts'.symm.trans haccounts)
    refine ⟨?_, (take_sum_iff haccounts).mp ?_⟩
    · cases hreceiver : request.stakeReceiver with
      | none => exact .inl rfl
      | some receiver =>
        cases hvoter : request.receiverVoter with
        | none => exact .inr rfl
        | some voter =>
          -- One new account is made for the delegated receiver, and nothing merges it.
          have hsome : request.receiverVoter.isSome := by
            rw [hvoter]
            rfl
          have hne : accounts' ≠ [] := by
            intro hnil
            have hone := (withdrawAccounts_sum haccounts).2.2.2 hsome
            rw [hnil] at hone
            cases hone
          have hnew : request.newStakeAccount 0 ∈ result.instructions.filterMap Step.created := by
            rw [hinstructions, List.filterMap_append]
            exact List.mem_append_right _ (hcreated hsome hne)
          have hmerged := hcomplete.merged receiver voter hreceiver hvoter _ hnew
          rw [hinstructions] at hmerged
          rcases List.mem_append.mp hmerged with hfirst | hlater
          · cases List.mem_singleton.mp hfirst
          · cases hmerge _ hlater
    · have hwithdrawn := hcomplete.withdrawn
      rw [hinstructions, List.filterMap_append, tokens_of_withdrawn hadded] at hwithdrawn
      exact hwithdrawn
  · intro hcond result hresult
    obtain ⟨hsafe, hamount, accounts, added, haccounts, hsupply, hinstructions, happroved, hadded, -, -⟩ :=
      withdrawStakeResult_eq_some hresult
    obtain ⟨hplain, hshort⟩ := hcond hsafe hamount accounts haccounts hsupply
    refine ⟨?_, ?_, fun receiver voter hreceiver hvoter => ?_⟩
    · rw [hinstructions, List.filterMap_append, happroved]
      rfl
    · rw [hinstructions, List.filterMap_append, tokens_of_withdrawn hadded]
      exact (take_sum_iff haccounts).mpr hshort
    · rcases hplain with hnone | hnone
      · rw [hnone] at hreceiver
        cases hreceiver
      · rw [hnone] at hvoter
        cases hvoter

section Example

open Reference

def smallPool : StakePool :=
  .ofPool { StakePoolFogo.StakePool.zeroed with
    totalLamports := 9000000000, poolTokenSupply := 9000000000, reserveStake := key 40 }

/-- A withdrawal of one token from the reserve into a delegated stake account. -/
def intoDelegated : WithdrawStakeRequest where
  tokenOwner := key 50
  poolTokenAccount := key 51
  tokenAmount := 2000000000
  poolAmount := 1000000000
  useReserve := true
  voteAccountAddress := none
  receiverVoter := some (key 52)
  stakeReceiver := some (key 53)
  validatorComparator := none
  userTransferAuthority := key 54
  newStakeAccount n := key (60 + n)

/-- The stake goes to a new account, and nothing merges it into the receiver. -/
theorem withdraw_stake_not_merged :
    ∃ result, withdrawStakeResult runtime programId ⟨2282880, fun _ => none⟩ (fun _ => []) smallPool []
        (key 30) intoDelegated = some result ∧
      key 60 ∈ result.instructions.filterMap Step.created ∧
      result.instructions.all (fun step => !step.isMerge) ∧ ¬ WithdrawsAll intoDelegated result := by
  have hreserve : withdrawAccounts runtime programId ⟨2282880, fun _ => none⟩ (fun _ => []) smallPool []
      (key 30) intoDelegated = some [⟨smallPool.reserveStake, none, intoDelegated.poolAmount⟩] := rfl
  obtain ⟨result, hresult⟩ := withdrawStakeResult_isSome (by decide) (by decide) hreserve (.inl (by decide))
  obtain ⟨-, -, accounts, added, haccounts, -, hinstructions, -, -, hmerge, hcreated⟩ :=
    withdrawStakeResult_eq_some hresult
  obtain rfl := Option.some.inj haccounts
  have hnew : key 60 ∈ result.instructions.filterMap Step.created := by
    rw [hinstructions, List.filterMap_append]
    exact List.mem_append_right _ (hcreated rfl (List.cons_ne_nil _ _))
  have hnone : ∀ step ∈ result.instructions, step.isMerge = false := by
    intro step hstep
    rw [hinstructions] at hstep
    rcases List.mem_append.mp hstep with hstep | hstep
    · rw [List.mem_singleton.mp hstep]
      rfl
    · exact hmerge step hstep
  refine ⟨result, hresult, hnew, ?_, fun hall => ?_⟩
  · rw [List.all_eq_true]
    intro step hstep
    rw [hnone step hstep]
    rfl
  · cases hnone _ (hall.merged _ _ rfl rfl _ hnew)

end Example

end StakePoolFogo.JsLegacy
