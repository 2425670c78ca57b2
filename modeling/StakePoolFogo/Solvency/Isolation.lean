import StakePoolFogo.Solvency.Run

/-!
# Pools leave each other alone

The stake program takes from a stake account only for its authorities, and an instruction signs for the
withdraw authority of the pool it names and for no other.  So it can only credit the stake accounts of
another pool.
-/

open StakePoolFogo.Checked StakePoolFogo.Outcome

namespace StakePoolFogo

variable {rt : Runtime} {sv : Sysvars} {k : Pubkey} {keeper : Keeper} {steady : Prop} {w w' : Ledger}
  {s s' : World} {accounts : List AccountMeta} {p : StakePool} {l : ValidatorList}

theorem not_held_of_staker {a : Account} {state : StakeStateV2} {info : StakeMeta}
    (hdata : a.data = .stake state) (hinfo : state.meta? = some info)
    (hne : info.authorized.staker ≠ keeper.authority) : ¬ Held rt keeper a := by
  rintro ⟨_, _, hheld⟩
  obtain ⟨rfl, rfl⟩ := hheld.unique hdata hinfo
  exact hne hheld.usable.1

/-! ## Calls signed by another authority -/

section Calls

variable {authority : AccountMeta} {pool source destination stake clock history : Pubkey} {bump : UInt8}
  {lamports : Nat}

theorem stakeMerge_foreign (stakes : StakeLaws rt) (hforeign : authority.key ≠ keeper.authority)
    (h : stakeMerge rt sv pool source authority bump destination clock history w = .ok w') :
    OnlyCredits rt keeper w w' := by
  obtain ⟨-, honly, hcall⟩ := stakeMerge_spec h
  obtain ⟨_, _, _, hd, hs, ⟨dm, sm, hdm, hsm, hauthorized, hstaker⟩, -⟩ :=
    stakes.merge _ _ _ _ _ _ hcall
  rw [hstaker] at hforeign
  have hdestination : ¬ Held rt keeper (w destination) := not_held_of_staker hd hdm hforeign
  have hsource : ¬ Held rt keeper (w source) := not_held_of_staker hs hsm (by rwa [← hauthorized])
  exact .of_onlyAt honly (by simp [hdestination, hsource])

/-- What is split is not another keeper's, and what is split into is nobody's yet. -/
theorem stakeSplit_foreign (stakes : StakeLaws rt) (hforeign : authority.key ≠ keeper.authority)
    (h : stakeSplit rt sv pool source authority bump lamports destination w = .ok w') :
    OnlyCredits rt keeper w w' := by
  obtain ⟨-, honly, hcall⟩ := stakeSplit_spec h
  obtain ⟨_, _, _, _, hs, hsm, hstaker, -, -, huninitialized, -⟩ := stakes.split _ _ _ _ _ _ _ hcall
  rw [hstaker] at hforeign
  have hsource : ¬ Held rt keeper (w source) := not_held_of_staker hs hsm hforeign
  have hdestination : ¬ Held rt keeper (w destination) := not_held_of_uninitialized huninitialized
  exact .of_onlyAt honly (by simp [hdestination, hsource])

theorem stakeDeactivate_foreign (stakes : StakeLaws rt) (hforeign : authority.key ≠ keeper.authority)
    (h : stakeDeactivate rt sv stake clock authority pool bump w = .ok w') : OnlyCredits rt keeper w w' := by
  obtain ⟨honly, hcall⟩ := stakeDeactivate_spec h
  obtain ⟨info, stake', _, hdata, hstaker, -⟩ := stakes.deactivate _ _ _ _ hcall
  rw [hstaker] at hforeign
  exact .of_onlyAt_one honly (not_held_of_staker hdata rfl hforeign)

theorem stakeDelegate_foreign {vote config : Pubkey} (stakes : StakeLaws rt)
    (hforeign : authority.key ≠ keeper.authority)
    (h : stakeDelegate rt sv stake vote clock history config authority pool bump w = .ok w') :
    OnlyCredits rt keeper w w' := by
  obtain ⟨honly, hcall⟩ := stakeDelegate_spec h
  obtain ⟨_, info, _, hdata, hinfo, hstaker, -⟩ := stakes.delegate _ _ _ _ _ hcall
  rw [hstaker] at hforeign
  exact .of_onlyAt_one honly (not_held_of_staker hdata hinfo hforeign)

/-- Whatever is withdrawn is not another keeper's, and the destination only gains. -/
theorem stakeWithdraw_foreign (stakes : StakeLaws rt) (credits : CreditLaws rt)
    (hforeign : authority.key ≠ keeper.authority)
    (h : stakeWithdraw rt sv pool source authority bump destination clock history lamports w = .ok w') :
    OnlyCredits rt keeper w w' := by
  by_cases hne : source = destination
  · subst hne
    rw [(stakeWithdraw_self h).1]
    exact .refl _
  obtain ⟨honly, hcall⟩ := stakeWithdraw_spec h hne
  have hcredit := credits.withdraw _ _ _ _ _ _ _ hcall
  have hsource : ¬ Held rt keeper (w source) := by
    rintro ⟨state, info, hheld⟩
    have hwithdrawer := (stakes.withdraw _ _ _ _ _ _ _ _ _ hcall hheld.data hheld.info_eq).1
    exact hforeign (hwithdrawer.trans hheld.usable.2.1)
  intro x hx
  by_cases hdestination : x = destination
  · rw [hdestination, hcredit]
    exact ⟨rfl, rfl, rfl, Nat.le_add_right _ _⟩
  · have hxs : x ≠ source := by
      rintro rfl
      exact hsource hx
    rw [honly x (by simp [hxs, hdestination])]
    exact .refl _

theorem authorizeBoth_foreign (stakes : StakeLaws rt) {authority newAuthority : Pubkey}
    (hforeign : authority ≠ keeper.authority)
    (h : authorizeBoth rt sv stake authority newAuthority clock w = .ok w') : OnlyCredits rt keeper w w' := by
  obtain ⟨hheld, honly⟩ := authorizeBoth_not_held stakes hforeign h
  exact .of_onlyAt_one honly hheld

theorem stakeAuthorizeSigned_foreign (stakes : StakeLaws rt) {authorityType : List UInt8}
    {newAuthority : Pubkey} (hforeign : authority.key ≠ keeper.authority)
    (h : stakeAuthorizeSigned rt sv pool stake authority authorityType bump newAuthority clock w = .ok w') :
    OnlyCredits rt keeper w w' := by
  simp only [stakeAuthorizeSigned, bind_eq_ok, exists_unit] at h
  obtain ⟨_, -, -, h⟩ := h
  exact authorizeBoth_foreign stakes hforeign h

end Calls

/-! ## Adding and removing validators -/

section Handlers

variable (laws : ProgramLaws rt) (stakes : StakeLaws rt)

include laws stakes

theorem AddValidatorRun.foreign (system : SystemLaws rt) {seed : UInt32}
    (r : AddValidatorRun rt sv accounts seed w w') (hforeign : r.authority.key ≠ keeper.authority) :
    OnlyCredits rt keeper w w' := by
  have hlist := r.isList.of_frames laws (r.frames.mono movers_subset_outsiders)
  have hcreate : OnlyCredits rt keeper w r.created := createStakeAccount_credits laws system r.create
  have hsplit := stakeSplit_foreign stakes hforeign r.split
  have hdelegate := stakeDelegate_foreign stakes hforeign r.delegate
  exact ((hcreate.trans hsplit).trans hdelegate).trans (writeValidatorList_credits laws hlist.owner r.result)

omit laws in
theorem removalStatus_foreign {pool transient clock vote : Pubkey} {authority : AccountMeta}
    {v : ValidatorStakeInfo} {status : StakeStatus} (hforeign : authority.key ≠ keeper.authority)
    (h : removalStatus rt sv pool transient clock vote authority p v w = .ok (status, w')) :
    OnlyCredits rt keeper w w' := by
  unfold removalStatus at h
  split at h
  · simp only [bind_eq_ok, pure_eq_ok, Prod.mk.injEq] at h
    obtain ⟨_, -, w₁, hdeactivate, -, rfl⟩ := h
    unfold deactivateTransient at hdeactivate
    split at hdeactivate
    · exact .of_onlyIf (fun _ => stakeDeactivate_foreign stakes hforeign) hdeactivate
    · cases hdeactivate
      exact .refl _
  · cases h
    exact .refl _

theorem RemoveValidatorRun.foreign (r : RemoveValidatorRun rt sv accounts w w')
    (hforeign : r.authority.key ≠ keeper.authority) : OnlyCredits rt keeper w w' := by
  have hframes := r.frames.mono movers_subset_outsiders
  have hlist := (r.isList.of_frames laws hframes).owner
  have hpool := (r.isPool.of_frames laws hframes).owner
  have hstatus : OnlyCredits rt keeper w r.settled := removalStatus_foreign stakes hforeign r.removal
  have hdeactivate : OnlyCredits rt keeper r.settled r.deactivated :=
    .of_onlyIf (fun _ => stakeDeactivate_foreign stakes hforeign) r.deactivate
  apply (hstatus.trans hdeactivate).trans
  apply (writeValidatorList_credits laws hlist rfl).trans
  apply writeStakePool_credits laws _ r.result
  rwa [writeValidatorList_owner]

/-! ## Rebalancing -/

section Rebalance

variable (credits : CreditLaws rt) {c : RebalanceContext} {reserve : Option AccountMeta}
  {source transient : Pubkey} {splitLamports : Nat} (hforeign : c.authority.key ≠ keeper.authority)

omit laws

include credits hforeign

theorem fundEphemeral_foreign {ephemeral : Pubkey}
    (h : fundEphemeral rt sv c reserve ephemeral w = .ok w') : OnlyCredits rt keeper w w' := by
  unfold fundEphemeral at h
  split at h
  · cases h
    exact .refl _
  · refine .of_onlyIf (fun u hu => ?_) h
    simp only [bind_eq_ok] at hu
    obtain ⟨_, -, _, -, hu⟩ := hu
    exact stakeWithdraw_foreign stakes credits hforeign hu

theorem fundTransient_foreign
    (h : fundTransient rt sv c reserve source splitLamports transient w = .ok w') :
    OnlyCredits rt keeper w w' := by
  unfold fundTransient at h
  split at h
  · cases h
    exact .refl _
  · refine .of_onlyIf (fun u hu => ?_) h
    simp only [bind_eq_ok] at hu
    obtain ⟨_, -, _, -, hu⟩ := hu
    exact .of_onlyIf (fun _ => stakeWithdraw_foreign stakes credits hforeign) hu

omit credits in
theorem mergeIntoTransient_foreign (h : mergeIntoTransient rt sv c source transient w = .ok w') :
    OnlyCredits rt keeper w w' := by
  simp only [mergeIntoTransient, bind_eq_ok] at h
  obtain ⟨_, -, h⟩ := h
  exact stakeMerge_foreign stakes hforeign h

include laws

theorem decreaseSource_foreign (system : SystemLaws rt) {validatorStake : Pubkey} {lamports : Nat}
    {ephemeral : Option (UInt64 × AccountMeta)}
    (h : decreaseSource rt sv c reserve validatorStake lamports ephemeral w =
      .ok (source, splitLamports, w')) : OnlyCredits rt keeper w w' := by
  unfold decreaseSource at h
  split at h
  · simp only [bind_eq_ok, pure_eq_ok, Prod.mk.injEq, splitToEphemeral] at h
    obtain ⟨u, ⟨_, -, w₁, hcreate, w₂, hfund, w₃, hsplit, hdeactivate⟩, -, -, rfl⟩ := h
    have hcreated : OnlyCredits rt keeper w w₁ := createStakeAccount_credits laws system hcreate
    have hfunded := fundEphemeral_foreign stakes credits hforeign hfund
    have hsplit' := stakeSplit_foreign stakes hforeign hsplit
    exact ((hcreated.trans hfunded).trans hsplit').trans (stakeDeactivate_foreign stakes hforeign hdeactivate)
  · cases h
    exact .refl _

theorem decreaseIntoNewTransient_foreign (system : SystemLaws rt) {info : AccountMeta} {seed : UInt64}
    {bump : UInt8}
    (h : decreaseIntoNewTransient rt sv c reserve source splitLamports info seed bump w = .ok w') :
    OnlyCredits rt keeper w w' := by
  simp only [decreaseIntoNewTransient, bind_eq_ok, Prod.exists] at h
  obtain ⟨w₁, hcreate, w₂, hfund, w₃, hsplit, _, _, -, hdeactivate⟩ := h
  have hcreated : OnlyCredits rt keeper w w₁ := createStakeAccount_credits laws system hcreate
  have hfunded := fundTransient_foreign stakes credits hforeign hfund
  have hsplit' := stakeSplit_foreign stakes hforeign hsplit
  exact ((hcreated.trans hfunded).trans hsplit').trans
    (.of_onlyIf (fun _ => stakeDeactivate_foreign stakes hforeign) hdeactivate)

omit credits

theorem increaseSource_foreign (system : SystemLaws rt) {history config reserve : Pubkey}
    {totalLamports : Nat} {ephemeral : Option (UInt64 × AccountMeta)}
    (h : increaseSource rt sv c history config reserve totalLamports ephemeral w = .ok (source, w')) :
    OnlyCredits rt keeper w w' := by
  unfold increaseSource at h
  split at h
  · simp only [bind_eq_ok, pure_eq_ok, Prod.mk.injEq] at h
    obtain ⟨_, -, w₁, hcreate, w₂, hsplit, w₃, hdelegate, -, rfl⟩ := h
    have hcreated : OnlyCredits rt keeper w w₁ := createStakeAccount_credits laws system hcreate
    have hsplit' := stakeSplit_foreign stakes hforeign hsplit
    exact (hcreated.trans hsplit').trans (stakeDelegate_foreign stakes hforeign hdelegate)
  · cases h
    exact .refl _

theorem increaseIntoNewTransient_foreign (system : SystemLaws rt) {history config : Pubkey}
    {totalLamports : Nat} {info : AccountMeta} {seed : UInt64} {bump : UInt8}
    (h : increaseIntoNewTransient rt sv c history config source totalLamports info seed bump w = .ok w') :
    OnlyCredits rt keeper w w' := by
  simp only [increaseIntoNewTransient, bind_eq_ok] at h
  obtain ⟨w₁, hcreate, w₂, hsplit, _, -, hdelegate⟩ := h
  have hcreated : OnlyCredits rt keeper w w₁ := createStakeAccount_credits laws system hcreate
  have hsplit' := stakeSplit_foreign stakes hforeign hsplit
  exact (hcreated.trans hsplit').trans
    (.of_onlyIf (fun _ => stakeDelegate_foreign stakes hforeign) hdelegate)

end Rebalance

theorem DecreaseRun.foreign (system : SystemLaws rt) (credits : CreditLaws rt) {lamports : Nat}
    {seed : UInt64} {ephemeralSeed : Option UInt64} {fund : Bool}
    (r : DecreaseRun rt sv accounts lamports seed ephemeralSeed fund w w')
    (hforeign : r.authority.key ≠ keeper.authority) : OnlyCredits rt keeper w w' := by
  have hlist := r.isList.of_frames laws (r.frames.mono movers_subset_outsiders)
  rw [← r.c_authority] at hforeign
  have hprepare := decreaseSource_foreign laws stakes credits hforeign system r.prepare
  have hmove : OnlyCredits rt keeper r.prepared r.moved := by
    rcases ite_eq_ok.mp r.move with ⟨-, h⟩ | ⟨-, h⟩
    · exact mergeIntoTransient_foreign stakes hforeign h
    · exact decreaseIntoNewTransient_foreign laws stakes credits hforeign system h
  exact (hprepare.trans hmove).trans (writeValidatorList_credits laws hlist.owner r.result)

theorem IncreaseRun.foreign (system : SystemLaws rt) {lamports : Nat} {seed : UInt64}
    {ephemeralSeed : Option UInt64} (r : IncreaseRun rt sv accounts lamports seed ephemeralSeed w w')
    (hforeign : r.authority.key ≠ keeper.authority) : OnlyCredits rt keeper w w' := by
  have hlist := r.isList.of_frames laws (r.frames.mono movers_subset_outsiders)
  rw [← r.c_authority] at hforeign
  have hprepare := increaseSource_foreign laws stakes hforeign system r.prepare
  have hmove : OnlyCredits rt keeper r.prepared r.moved := by
    rcases ite_eq_ok.mp r.move with ⟨-, h⟩ | ⟨-, h⟩
    · exact mergeIntoTransient_foreign stakes hforeign h
    · exact increaseIntoNewTransient_foreign laws stakes hforeign system h
  exact (hprepare.trans hmove).trans (writeValidatorList_credits laws hlist.owner r.result)

/-! ## Cranks -/

section Crank

variable (credits : CreditLaws rt) {c : UpdateContext} (hforeign : c.authority.key ≠ keeper.authority)
  {validatorKey transientKey : Pubkey} {status status' : PodStakeStatus}

omit laws

include hforeign

theorem settleTransient_foreign {validatorState : Option StakeStateV2} {stake : Stake}
    (h : settleTransient rt sv c status validatorState stake validatorKey transientKey w =
      .ok (status', w')) : OnlyCredits rt keeper w w' := by
  unfold settleTransient at h
  split at h
  · simp only [bind_eq_ok, pure_eq_ok, Prod.mk.injEq] at h
    obtain ⟨_, hmerge, _, -, -, rfl⟩ := h
    exact stakeMerge_foreign stakes hforeign hmerge
  split at h
  · simp only [bind_eq_ok, pure_eq_ok, Prod.mk.injEq] at h
    obtain ⟨_, hmerge, -, rfl⟩ := h
    unfold mergeActiveTransient at hmerge
    split at hmerge
    · exact .of_onlyIf (fun _ => stakeMerge_foreign stakes hforeign) hmerge
    · cases hmerge
      exact .refl _
  · simp only [bind_eq_ok, pure_eq_ok, Prod.mk.injEq] at h
    obtain ⟨_, hdeactivate, -, rfl⟩ := h
    exact .of_onlyIf (fun _ => stakeDeactivate_foreign stakes hforeign) hdeactivate

theorem refreshTransient_foreign {v : ValidatorStakeInfo} {lamports : Nat}
    (h : refreshTransient rt sv c v validatorKey transientKey w = .ok (status, lamports, w')) :
    OnlyCredits rt keeper w w' := by
  have same : ∀ {n : Nat}, (.ok (v.status, n, w) : Except ProgramError _) =
      .ok (status, lamports, w') → OnlyCredits rt keeper w w' := by
    intro n heq
    cases heq
    exact .refl _
  unfold refreshTransient at h
  split at h
  · exact same h
  split at h
  · split at h
    · split at h
      · exact same h
      · simp only [bind_eq_ok, pure_eq_ok, Prod.mk.injEq] at h
        obtain ⟨_, hmerge, _, -, -, -, rfl⟩ := h
        exact stakeMerge_foreign stakes hforeign hmerge
    · exact same h
  · split at h
    · split at h
      · exact same h
      · simp only [bind_eq_ok, pure_eq_ok, Prod.mk.injEq, Prod.exists] at h
        obtain ⟨_, _, hsettle, -, -, rfl⟩ := h
        exact settleTransient_foreign stakes hforeign hsettle
    · exact same h
  · exact same h

theorem settleValidator_foreign {stake : Stake} {lamports : Nat}
    (h : settleValidator rt sv c status stake validatorKey w = .ok (status', lamports, w')) :
    OnlyCredits rt keeper w w' := by
  simp only [settleValidator, bind_eq_ok] at h
  obtain ⟨s, -, h⟩ := h
  cases s with
  | active | deactivatingTransient | readyForRemoval =>
    simp only [pure_eq_ok, Prod.mk.injEq] at h
    obtain ⟨-, -, rfl⟩ := h
    exact .refl _
  | deactivatingValidator | deactivatingAll =>
    dsimp only at h
    split at h
    · simp only [pure_eq_ok, Prod.mk.injEq] at h
      obtain ⟨-, -, rfl⟩ := h
      exact .refl _
    · simp only [bind_eq_ok, pure_eq_ok, Prod.mk.injEq] at h
      obtain ⟨_, hmerge, _, -, -, -, rfl⟩ := h
      exact stakeMerge_foreign stakes hforeign hmerge

include credits

theorem refreshValidator_foreign {transientLamports lamports : Nat}
    (h : refreshValidator rt sv c status transientLamports validatorKey w = .ok (status', lamports, w')) :
    OnlyCredits rt keeper w w' := by
  have same : (.ok (status, 0, w) : Except ProgramError _) = .ok (status', lamports, w') →
      OnlyCredits rt keeper w w' := by
    intro heq
    cases heq
    exact .refl _
  unfold refreshValidator at h
  split at h
  · split at h
    · simp only [bind_eq_ok] at h
      obtain ⟨w₁, hwithdraw, hsettle⟩ := h
      have hwithdrawn : OnlyCredits rt keeper w w₁ :=
        .of_onlyIf (fun _ => stakeWithdraw_foreign stakes credits hforeign) hwithdraw
      exact hwithdrawn.trans (settleValidator_foreign stakes hforeign hsettle)
    · exact same h
  · split at h
    · simp only [bind_eq_ok, pure_eq_ok, Prod.mk.injEq] at h
      obtain ⟨_, hmerge, -, -, rfl⟩ := h
      exact stakeMerge_foreign stakes hforeign hmerge
    · exact same h
  · exact same h

theorem refreshEntry_foreign {v v' : ValidatorStakeInfo}
    (h : refreshEntry rt sv c v validatorKey transientKey w = .ok (v', w')) : OnlyCredits rt keeper w w' := by
  unfold refreshEntry at h
  split at h
  · simp only [bind_eq_ok, pure_eq_ok, Prod.exists, Prod.mk.injEq] at h
    obtain ⟨_, _, w₁, htransient, _, _, w₂, hvalidator, -, rfl⟩ := h
    have hfirst := refreshTransient_foreign stakes hforeign htransient
    exact hfirst.trans (refreshValidator_foreign stakes credits hforeign hvalidator)
  · cases h
    exact .refl _

/-- The visits of an update take nothing from another pool, whatever accounts they are handed. -/
theorem refreshEntries_foreign {vs vs' : List ValidatorStakeInfo} {pairs : List (Pubkey × Pubkey)}
    (h : refreshEntries rt sv c vs pairs w = .ok (vs', w')) : OnlyCredits rt keeper w w' := by
  induction vs generalizing pairs w vs' with
  | nil =>
    cases h
    exact .refl _
  | cons v vs ih =>
    cases pairs with
    | nil =>
      cases h
      exact .refl _
    | cons pair pairs =>
      simp only [refreshEntries, bind_eq_ok, pure_eq_ok, Prod.exists, Prod.mk.injEq] at h
      obtain ⟨_, w₁, hentry, _, w₂, hrest, -, rfl⟩ := h
      have hfirst := refreshEntry_foreign stakes credits hforeign hentry
      exact hfirst.trans (ih hrest)

end Crank

theorem UpdateListRun.foreign (credits : CreditLaws rt) {startIndex : UInt32} {noMerge : Bool}
    (r : UpdateListRun rt sv accounts startIndex noMerge w w')
    (hforeign : r.authority.key ≠ keeper.authority) : OnlyCredits rt keeper w w' := by
  have hframes := (refreshEntries_spec r.refresh).2
  have hlist := r.isList.of_frames laws (hframes.mono stake_subset_outsiders)
  exact (refreshEntries_foreign stakes credits hforeign r.refresh).trans
    (writeValidatorList_credits laws hlist.owner r.result)

/-! ## Deposits and withdrawals -/

theorem DepositStakeRun.foreign (credits : CreditLaws rt) {minimum : Option Nat}
    (r : DepositStakeRun rt sv accounts minimum w w') (hforeign : r.authority.key ≠ keeper.authority)
    (hsigner : r.depositAuthority.key = keeper.authority → r.depositAuthority.isSigner = false)
    (hderived : (findDepositAuthorityProgramAddress rt r.pool.key).1 ≠ keeper.authority) :
    OnlyCredits rt keeper w w' := by
  have hpool := (r.isPool.of_frames laws r.frames).owner
  have hlist := (r.isList.of_frames laws r.frames).owner
  obtain ⟨hstranger, htaken⟩ := takeOverStake_not_held stakes hsigner hderived r.take
  have htake : OnlyCredits rt keeper w r.taken := .of_onlyAt_one htaken hstranger
  have hmerge := stakeMerge_foreign stakes hforeign r.merge
  have hmint : OnlyCredits rt keeper r.joined r.minted :=
    .of_token laws (mintShares_frames r.mintTokens) (mintShares_token r.mintTokens)
  have hsweep : OnlyCredits rt keeper r.minted r.swept :=
    .of_onlyIf (fun _ => stakeWithdraw_foreign stakes credits hforeign) r.sweep
  have hwrite : OnlyCredits rt keeper r.swept r.written := writeStakePool_credits laws hpool r.write
  apply (((htake.trans hmerge).trans hmint).trans hsweep).trans
  apply hwrite.trans
  apply writeValidatorList_credits laws _ r.result
  rwa [writeStakePool_owner r.write]

theorem WithdrawStakeRun.foreign {poolTokens : Nat} {minimum : Option Nat}
    (r : WithdrawStakeRun rt sv accounts poolTokens minimum w w')
    (hforeign : r.authority.key ≠ keeper.authority) : OnlyCredits rt keeper w w' := by
  have htoken := tokenBurn_token r.burn
  have hpool := (r.isPool.of_frames laws r.frames).owner
  have hburn : OnlyCredits rt keeper w r.burnt := .of_token laws (tokenBurn_frames r.burn) htoken
  have hsplit := stakeSplit_foreign stakes hforeign r.splitOff
  have hhand := stakeAuthorizeSigned_foreign stakes hforeign r.handOver
  have hcharge : OnlyCredits rt keeper r.handed r.charged :=
    .of_onlyIf (fun _ hpay => .of_token laws (tokenTransfer_frames hpay) htoken) r.charge
  have hwrite : OnlyCredits rt keeper r.charged r.written := writeStakePool_credits laws hpool r.write
  exact ((((hburn.trans hsplit).trans hhand).trans hcharge).trans hwrite).trans (r.last_credits laws)

theorem WithdrawSolRun.foreign (credits : CreditLaws rt) {poolTokens : Nat} {minimum : Option Nat}
    {isWsolPath : Bool} (r : WithdrawSolRun rt sv accounts poolTokens minimum isWsolPath w w')
    (htoken : rt.isTokenProgram r.tokenProgram.key) (hforeign : r.authority.key ≠ keeper.authority) :
    OnlyCredits rt keeper w w' := by
  have hpool := (r.isPool.of_frames laws (r.frames htoken)).owner
  have hburn : OnlyCredits rt keeper w r.burnt := .of_token laws (burnForSol_frames r.burn) htoken
  have hpay := stakeWithdraw_foreign stakes credits hforeign r.pay
  exact (hburn.trans hpay).trans (writeStakePool_credits laws hpool r.result)

/-- Creating the user's account and counting what it holds touch no stake account. -/
theorem WithdrawWsolRun.foreign (credits : CreditLaws rt) {poolTokens : Nat}
    (r : WithdrawWsolRun rt sv accounts poolTokens w w')
    (hforeign : ∀ q key, PoolAt rt w r.pool.key q →
      poolAuthority rt r.pool.key authorityWithdraw q.stakeWithdrawBumpSeed = .ok key →
      key ≠ keeper.authority) : OnlyCredits rt keeper w w' := by
  have htoken : rt.isTokenProgram r.tokenProgram.key := Or.inl r.token_key
  have hcreate : OnlyCredits rt keeper w r.created := by
    apply OnlyCredits.of_frames (Frames.of_invokeMove r.create)
    simp only [List.mem_cons, List.not_mem_nil, or_false, not_or]
    exact ⟨laws.stake_ne_associated, laws.stake_ne_system, (laws.token_ne_stake _ htoken).symm⟩
  obtain ⟨inner, hpool, -, -, -, -, -, -, hprogram⟩ := r.inner
  have hbefore := (OwnFrame.of_frames laws r.create_frames).poolAt_before inner.isPool id
  have hauthority := inner.isAuthority
  rw [hpool] at hbefore hauthority
  rw [← hprogram] at htoken
  have hinner := inner.foreign laws stakes credits htoken (hforeign _ _ hbefore hauthority)
  rw [hprogram] at htoken
  have hsync : OnlyCredits rt keeper r.withdrawn w' := .of_token laws (Frames.of_invoke₁ r.sync) htoken
  exact (hcreate.trans hinner).trans hsync

omit stakes

theorem DepositSolRun.foreign {lamports : Nat} {minimum : Option Nat} {isWsolPath : Bool}
    (r : DepositSolRun rt sv accounts lamports minimum isWsolPath w w') : OnlyCredits rt keeper w w' := by
  have hpool := (r.isPool.of_frames laws r.frames).owner
  have hsystem : rt.stakeProgramId ∉ [rt.systemProgramId] := by simpa using laws.stake_ne_system
  have hpay : OnlyCredits rt keeper w r.paid :=
    .of_onlyIf (fun _ hpay => .of_frames (solTransfer_frames hpay) hsystem) r.pay
  have hmint : OnlyCredits rt keeper r.paid r.minted :=
    .of_token laws (mintShares_frames r.mintTokens) (mintShares_token r.mintTokens)
  exact (hpay.trans hmint).trans (writeStakePool_credits laws hpool r.result)

theorem DepositWsolRun.foreign {lamports : Nat} (r : DepositWsolRun rt sv accounts lamports w w') :
    OnlyCredits rt keeper w w' := by
  have hwrappers : rt.stakeProgramId ∉ wrappers rt := by
    simp only [wrappers, List.mem_cons, List.not_mem_nil, or_false, not_or]
    exact ⟨laws.stake_ne_system, (laws.token_ne_stake _ (Or.inl rfl)).symm⟩
  have hcreate : OnlyCredits rt keeper w r.created := .of_frames (createTransientWsol_frames r.create) hwrappers
  have hunwrap : OnlyCredits rt keeper r.created r.unwrapped :=
    .of_frames (unwrapIntoReserve_frames r.unwrap) hwrappers
  obtain ⟨inner, -⟩ := r.inner
  exact (hcreate.trans hunwrap).trans (inner.foreign laws)

/-! ## Records and metadata -/

theorem tokenMintTo_credits {pool tokenProgram mint destination : Pubkey} {authority : AccountMeta}
    {bump : UInt8} {amount : Nat}
    (h : tokenMintTo rt pool tokenProgram mint destination authority bump amount w = .ok w') :
    OnlyCredits rt keeper w w' := by
  have htoken := h
  simp only [tokenMintTo, bind_eq_ok, exists_unit, checkTokenProgram_eq_ok] at htoken
  exact .of_token laws (tokenMintTo_frames h) htoken.1

theorem UpdatePoolRun.foreign (r : UpdatePoolRun rt sv accounts w w') : OnlyCredits rt keeper w w' := by
  have hpool := (r.isPool.of_frames laws r.frames).owner
  have hmint : OnlyCredits rt keeper w r.minted := .of_onlyIf (fun _ => tokenMintTo_credits laws) r.mint_fee
  exact hmint.trans (writeStakePool_credits laws hpool r.result)

theorem InitializeRun.foreign {fee withdrawalFee depositFee : Fee} {referralFee : UInt8}
    {maxValidators : UInt32} (r : InitializeRun rt sv accounts fee withdrawalFee depositFee referralFee
      maxValidators w w') : OnlyCredits rt keeper w w' := by
  have hkept := OwnFrame.of_frames laws r.frames
  have hpool := (hkept.kept _ r.pool_owner id).owner.trans r.pool_owner
  have hlist := (hkept.kept _ r.list_owner id).owner.trans r.list_owner
  have hmint : OnlyCredits rt keeper w r.minted :=
    .of_onlyIf (fun _ => tokenMintTo_credits laws) r.mint_initial
  apply hmint.trans
  apply (writeValidatorList_credits laws hlist rfl).trans
  apply writeStakePool_credits laws _ r.result
  rwa [writeValidatorList_owner]

theorem OnlyCredits.scribed (h : Frames (scribes rt) w w') : OnlyCredits rt keeper w w' := by
  apply OnlyCredits.of_frames h
  simp only [scribes, List.mem_cons, List.not_mem_nil, or_false, not_or]
  exact ⟨laws.stake_ne_metadata, laws.stake_ne_system⟩

end Handlers

/-! ## Instructions on other pools -/

/-- No other pool has the authority of the pool at `k`, and it is no pool's deposit authority: these
addresses are derived from different seeds. -/
structure AuthoritiesApart (rt : Runtime) (k : Pubkey) (w : Ledger) : Prop where
  withdraw : ∀ j p key, PoolAt rt w j p → j ≠ k →
    poolAuthority rt j authorityWithdraw p.stakeWithdrawBumpSeed = .ok key →
    key ≠ (poolKeeper rt k).authority
  deposit : ∀ j p, PoolAt rt w j p →
    (findDepositAuthorityProgramAddress rt j).1 ≠ (poolKeeper rt k).authority

section Elsewhere

variable (laws : ProgramLaws rt) (system : SystemLaws rt) (stakes : StakeLaws rt) (credits : CreditLaws rt)

include laws system stakes credits

/-- An instruction that does not name the pool at `k` first takes nothing from its stake accounts. -/
theorem Handled.foreign (hauthorities : AuthoritiesApart rt k w)
    (helsewhere : ∀ a, accounts[0]? = some a → k ≠ a.key)
    (hunsigned : ∀ b ∈ accounts, b.key = (poolKeeper rt k).authority → b.isSigner = false)
    (h : Handled rt sv accounts w w') : OnlyCredits rt (poolKeeper rt k) w w' := by
  have hother : ∀ {a : AccountMeta} {q : StakePool} {key : Pubkey}, accounts[0]? = some a →
      PoolAt rt w a.key q → poolAuthority rt a.key authorityWithdraw q.stakeWithdrawBumpSeed = .ok key →
      key ≠ (poolKeeper rt k).authority :=
    fun ha hq => hauthorities.withdraw _ _ _ hq (helsewhere _ ha).symm
  cases h with
  | initializePool r => exact r.foreign laws
  | addValidator r => exact r.foreign laws stakes system (hother r.pool_at r.isPool r.isAuthority)
  | removeValidator r => exact r.foreign laws stakes (hother r.pool_at r.isPool r.isAuthority)
  | decrease r => exact r.foreign laws stakes system credits (hother r.pool_at r.isPool r.isAuthority)
  | increase r => exact r.foreign laws stakes system (hother r.pool_at r.isPool r.isAuthority)
  | updateList r => exact r.foreign laws stakes credits (hother r.pool_at r.isPool r.isAuthority)
  | updatePool r => exact r.foreign laws
  | cleanup r => exact r.credits laws
  | depositStake r =>
    have hsigner := hunsigned _ (List.mem_of_getElem? r.depositAuthority_at)
    exact r.foreign laws stakes credits (hother r.pool_at r.isPool r.isAuthority) hsigner
      (hauthorities.deposit _ _ r.isPool)
  | depositSol r => exact r.foreign laws
  | depositWsol r => exact r.foreign laws
  | withdrawStake r => exact r.foreign laws stakes (hother r.pool_at r.isPool r.isAuthority)
  | withdrawSol r =>
    exact r.foreign laws stakes credits r.isToken (hother r.pool_at r.isPool r.isAuthority)
  | withdrawWsol r => exact r.foreign laws stakes credits fun _ _ => hother r.pool_at
  | setPreferred r | setManager r | setFee r | setStaker r | setFunding r =>
    exact writeStakePool_credits laws r.isPool.owner r.result
  | createMetadata h => exact .scribed laws (processCreatePoolTokenMetadata_spec h).2
  | updateMetadata h => exact .scribed laws (processUpdatePoolTokenMetadata_spec h).2

end Elsewhere

end StakePoolFogo
