import StakePoolFogo.Solvency.Basic

/-!
# The staker's instructions keep a pool solvent

Adding and removing validators, and moving stake between them and the reserve.
-/

open StakePoolFogo.Checked StakePoolFogo.Outcome

namespace StakePoolFogo

variable {rt : Runtime} {sv : Sysvars} {keeper : Keeper} {steady : Prop} {w w' : Ledger}
  {accounts : List AccountMeta}

/-! ## Removing a validator -/

/-- What is deactivated keeps its lamports and stays held. -/
theorem stakeDeactivate_held (stakes : StakeLaws rt) {stake clock pool : Pubkey}
    {authority : AccountMeta} {bump : UInt8}
    (h : stakeDeactivate rt sv stake clock authority pool bump w = .ok w')
    (hheld : Held rt keeper (w stake)) : Held rt keeper (w' stake) ∧
      (w' stake).lamports = (w stake).lamports ∧
      ∃ info stake', (w' stake).data = .stake (.stake info stake') ∧
        stake'.delegation.deactivationEpoch = sv.epoch := by
  obtain ⟨-, hdeactivate⟩ := stakeDeactivate_spec h
  obtain ⟨info, _, stake', -, -, hlamports, -, hdata, -, -, hepoch⟩ :=
    stakes.deactivate _ _ _ _ hdeactivate
  exact ⟨stakes.deactivate_held hdeactivate hheld, hlamports, info, stake', hdata, hepoch⟩

/-- A transient stake in the pool's hands ends up undelegated or deactivated. -/
theorem deactivateTransient_held (stakes : StakeLaws rt) {pool transient clock : Pubkey}
    {authority : AccountMeta} {p : StakePool} (hkeeper : keeper = ⟨authority.key, p.lockup⟩)
    (hepoch : sv.epoch ≠ epochMax)
    (h : deactivateTransient rt sv pool transient clock authority p w = .ok w')
    (hheld : Held rt keeper (w transient)) :
    OnlyAt [transient] w w' ∧ Held rt keeper (w' transient) ∧
      (w' transient).lamports = (w transient).lamports ∧
      ∀ info stake, (w' transient).data = .stake (.stake info stake) →
        stake.delegation.deactivationEpoch ≠ epochMax := by
  unfold deactivateTransient at h
  split at h
  · rename_i info stake hstate
    have hdata := getStakeState_eq_ok.mp hstate
    rcases onlyIf_eq_ok.mp h with ⟨-, h⟩ | ⟨hnot, rfl⟩
    · obtain ⟨hheld', hlamports, info', stake', hdata', hdeactivated⟩ := stakeDeactivate_held stakes h hheld
      refine ⟨(stakeDeactivate_spec h).1, hheld', hlamports, fun info₁ stake₁ hdata₁ => ?_⟩
      cases hdata'.symm.trans hdata₁
      rw [hdeactivated]
      exact hepoch
    · refine ⟨.refl _ _, hheld, rfl, fun info₁ stake₁ hdata₁ hmax => hnot ?_⟩
      obtain ⟨state, info₂, has⟩ := hheld
      cases hdata.symm.trans hdata₁
      obtain ⟨rfl, rfl⟩ := has.unique hdata rfl
      rw [hkeeper] at has
      exact ⟨has.usable, hmax⟩
  · rename_i hstate
    cases h
    refine ⟨.refl _ _, hheld, rfl, fun info₁ stake₁ hdata₁ => ?_⟩
    have hok := getStakeState_eq_ok (r := (info₁, stake₁)).mpr hdata₁
    rw [hok] at hstate
    cases hstate

/-! ## Paying rent exemptions from the reserve -/

/-- The reserve has paid `n` lamports to the account at `key`. -/
structure Funds (rt : Runtime) (keeper : Keeper) (reserve key : Pubkey) (w w' : Ledger) (n : Nat) :
    Prop where
  only : OnlyAt [reserve, key] w w'
  paid : w' key = (w key).credited n
  left : (w' reserve).lamports + n = (w reserve).lamports
  held : ∀ info, HeldAs rt keeper (w reserve) (.initialized info) info →
    HeldAs rt keeper (w' reserve) (.initialized info) info

theorem Funds.refl (reserve key : Pubkey) (w : Ledger) : Funds rt keeper reserve key w w 0 :=
  ⟨.refl _ _, rfl, rfl, fun _ => id⟩

theorem HeldAs.withdraw_reserve (stakes : StakeLaws rt) {authority : Pubkey} {lamports : Nat}
    {source destination source' destination' : Account} {s : StakeStateV2} {info : StakeMeta}
    (hs : HeldAs rt keeper source s info)
    (h : rt.stake.withdraw sv authority lamports source destination = .ok (source', destination'))
    (hne : source'.lamports ≠ 0) : HeldAs rt keeper source' s info := by
  obtain ⟨-, -, -, hshape, -, -, hrest⟩ := stakes.withdraw _ _ _ _ _ _ _ _ _ h hs.data hs.info_eq
  obtain ⟨hrent, hdata⟩ := hrest hne
  exact hs.of_meta hshape.1 (hdata.trans hs.data) rfl hrent

/-- A withdrawal from the reserve that leaves something. -/
theorem Funds.of_withdraw (stakes : StakeLaws rt) {pool source key clock history : Pubkey}
    {authority : AccountMeta} {bump : UInt8} {n : Nat} {info : StakeMeta}
    (hheld : HeldAs rt keeper (w source) (.initialized info) info) (hless : n < (w source).lamports)
    (hne : source ≠ key)
    (h : stakeWithdraw rt sv pool source authority bump key clock history n w = .ok w') :
    Funds rt keeper source key w w' n := by
  obtain ⟨honly, hwithdraw⟩ := stakeWithdraw_spec h hne
  obtain ⟨-, hleft, hpaid⟩ := stakes.withdraw_held hwithdraw ⟨_, info, hheld⟩
  exact ⟨honly, hpaid, hleft, fun info' hinfo' =>
    hinfo'.withdraw_reserve stakes hwithdraw (by omega)⟩

section Fund

variable {c : RebalanceContext} {reserve : Option AccountMeta} {reserveKey key source : Pubkey}
  {info : StakeMeta} {n : Nat}

theorem fundEphemeral_funds (stakes : StakeLaws rt) (hreserve : ∀ r ∈ reserve, r.key = reserveKey)
    (hheld : HeldAs rt keeper (w reserveKey) (.initialized info) info) (hne : reserveKey ≠ key)
    (h : fundEphemeral rt sv c reserve key w = .ok w') :
    ∃ m, Funds rt keeper reserveKey key w w' m := by
  unfold fundEphemeral at h
  split at h
  · cases h
    exact ⟨0, .refl _ _ _⟩
  · rename_i r
    obtain rfl := hreserve r rfl
    rcases onlyIf_eq_ok.mp h with ⟨-, h⟩ | ⟨-, rfl⟩
    · simp only [bind_eq_ok, failIf_eq_ok, exists_unit, Nat.not_le] at h
      obtain ⟨hless, _, -, h⟩ := h
      exact ⟨_, .of_withdraw stakes hheld hless hne h⟩
    · exact ⟨0, .refl _ _ _⟩

theorem fundTransient_funds (stakes : StakeLaws rt) (hreserve : ∀ r ∈ reserve, r.key = reserveKey)
    (hheld : HeldAs rt keeper (w reserveKey) (.initialized info) info) (hne : reserveKey ≠ key)
    (h : fundTransient rt sv c reserve source n key w = .ok w') :
    ∃ m, Funds rt keeper reserveKey key w w' m := by
  unfold fundTransient at h
  split at h
  · cases h
    exact ⟨0, .refl _ _ _⟩
  · rename_i r
    obtain rfl := hreserve r rfl
    rcases onlyIf_eq_ok.mp h with ⟨-, h⟩ | ⟨-, rfl⟩
    · simp only [bind_eq_ok, failIf_eq_ok, exists_unit, Nat.not_le] at h
      obtain ⟨_, -, hless, h⟩ := h
      rcases onlyIf_eq_ok.mp h with ⟨-, h⟩ | ⟨-, rfl⟩
      · exact ⟨_, .of_withdraw stakes hheld hless hne h⟩
      · exact ⟨0, .refl _ _ _⟩
    · exact ⟨0, .refl _ _ _⟩

end Fund

/-! ## Splitting stake off into a new account -/

/-- `n` lamports of the stake at `source` have gone to the new account at `key`, which the reserve
may have topped up. -/
structure SplitOff (rt : Runtime) (keeper : Keeper) (reserve source key : Pubkey) (w w' : Ledger)
    (n : Nat) : Prop where
  fresh : ¬ Held rt keeper (w key)
  key_ne_reserve : key ≠ reserve
  key_ne_source : key ≠ source
  only : OnlyAt [reserve, source, key] w w'
  new : Held rt keeper (w' key)
  left : (w' source).lamports + n = (w source).lamports
  keeps : ∀ s info, HeldAs rt keeper (w source) s info → (w' source).lamports ≠ 0 →
    ∃ s', HeldAs rt keeper (w' source) s' info ∧ SameStake s s'
  held : ∀ info, HeldAs rt keeper (w reserve) (.initialized info) info →
    HeldAs rt keeper (w' reserve) (.initialized info) info
  backed : (w reserve).lamports + n ≤ (w' reserve).lamports + (w' key).lamports

namespace SplitOff

variable {pool reserve source : Pubkey} {authority key : AccountMeta} {bump : UInt8} {n m space : Nat}
  {seeds : List (List UInt8)} {created funded : Ledger}

theorem of_calls (laws : ProgramLaws rt) (system : SystemLaws rt) (stakes : StakeLaws rt)
    (hreserve : Held rt keeper (w reserve)) (hsource : Held rt keeper (w source))
    (hne : source ≠ reserve) (hcreate : createStakeAccount rt key seeds space w = .ok created)
    (hfund : Funds rt keeper reserve key.key created funded m)
    (hsplit : stakeSplit rt sv pool source authority bump n key.key funded = .ok w') :
    SplitOff rt keeper reserve source key.key w w' n := by
  obtain ⟨honly, howner, hcreated⟩ := createStakeAccount_spec system hcreate
  have hfresh : ¬ Held rt keeper (w key.key) :=
    not_held_of_owner (by rw [howner]; exact laws.stake_ne_system.symm)
  have hkr : key.key ≠ reserve := fun heq => hfresh (heq ▸ hreserve)
  have hks : key.key ≠ source := fun heq => hfresh (heq ▸ hsource)
  have hreserve₁ : created reserve = w reserve := honly _ (by simpa using hkr.symm)
  have hsource₂ : funded source = w source :=
    (hfund.only _ (by simp [hne, hks.symm])).trans (honly _ (by simpa using hks.symm))
  obtain ⟨-, honly', hcall⟩ := stakeSplit_spec hsplit
  have hreserve₃ : w' reserve = funded reserve := honly' _ (by simp [hne.symm, hkr.symm])
  obtain ⟨hleft, hmoved⟩ := stakes.split_lamports hcall
  rw [hsource₂] at hcall hleft
  obtain ⟨hnew, -⟩ := stakes.split_held hcall hsource
  refine ⟨hfresh, hkr, hks, ?_, hnew, hleft, fun s info hs hpos => stakes.split_keeps hcall hs hpos,
    fun info hinfo => ?_, ?_⟩
  · exact ((honly.mono (by simp)).trans (hfund.only.mono (by simp))).trans (honly'.mono (by simp))
  · rw [hreserve₃]
    exact hfund.held info (by rwa [hreserve₁])
  · have hpaid := hfund.left
    have hcredit : (funded key.key).lamports = (created key.key).lamports + m := by rw [hfund.paid]; rfl
    rw [hreserve₁] at hpaid
    rw [hreserve₃]
    omega

/-- The new account is deactivated, or not. -/
theorem at_key {key : Pubkey} {w'' : Ledger} (h : SplitOff rt keeper reserve source key w w' n)
    (honly : OnlyAt [key] w' w'') (hheld : Held rt keeper (w'' key))
    (hlamports : (w'' key).lamports = (w' key).lamports) :
    SplitOff rt keeper reserve source key w w'' n := by
  have hsource : w'' source = w' source := honly _ (by simpa using h.key_ne_source.symm)
  have hreserve : w'' reserve = w' reserve := honly _ (by simpa using h.key_ne_reserve.symm)
  refine ⟨h.fresh, h.key_ne_reserve, h.key_ne_source, h.only.trans (honly.mono (by simp)), hheld, ?_,
    ?_, ?_, ?_⟩
  · rw [hsource]
    exact h.left
  · rw [hsource]
    exact h.keeps
  · rw [hreserve]
    exact h.held
  · rw [hreserve, hlamports]
    exact h.backed

theorem deactivate {stake clock : Pubkey} {w'' : Ledger} (stakes : StakeLaws rt)
    (h : SplitOff rt keeper reserve source stake w w' n)
    (hcall : stakeDeactivate rt sv stake clock authority pool bump w' = .ok w'') :
    SplitOff rt keeper reserve source stake w w'' n := by
  obtain ⟨hheld, hlamports, -⟩ := stakeDeactivate_held stakes hcall h.new
  exact h.at_key (stakeDeactivate_spec hcall).1 hheld hlamports

end SplitOff

/-- Funding happens to a new account, which is not the reserve. -/
theorem created_reserve (laws : ProgramLaws rt) (system : SystemLaws rt) {reserve : Pubkey}
    {info : StakeMeta} {key : AccountMeta} {seeds : List (List UInt8)} {space : Nat} {created : Ledger}
    (hheld : HeldAs rt keeper (w reserve) (.initialized info) info)
    (h : createStakeAccount rt key seeds space w = .ok created) :
    reserve ≠ key.key ∧ HeldAs rt keeper (created reserve) (.initialized info) info := by
  have hcredited := createStakeAccount_credits laws system h reserve ⟨_, info, hheld⟩
  refine ⟨fun heq => ?_, hheld.credited hcredited⟩
  obtain ⟨-, howner, -⟩ := createStakeAccount_spec system h
  rw [← heq, hheld.owner] at howner
  exact laws.stake_ne_system howner

section Decrease

variable {c : RebalanceContext} {reserve : Option AccountMeta} {reserveKey source : Pubkey}
  {info : StakeMeta} {n : Nat} {key : AccountMeta} {seed : UInt64}
  (laws : ProgramLaws rt) (system : SystemLaws rt) (stakes : StakeLaws rt)
  (hreserve : ∀ r ∈ reserve, r.key = reserveKey)
  (hheld : HeldAs rt keeper (w reserveKey) (.initialized info) info)
  (hsource : Held rt keeper (w source)) (hne : source ≠ reserveKey)

include laws system stakes hreserve hheld hsource hne

theorem splitToEphemeral_off (h : splitToEphemeral rt sv c reserve source n key seed w = .ok w') :
    SplitOff rt keeper reserveKey source key.key w w' n := by
  simp only [splitToEphemeral, bind_eq_ok] at h
  obtain ⟨bump, -, created, hcreate, funded, hfund, split, hsplit, hdeactivate⟩ := h
  obtain ⟨hkey, hcreated⟩ := created_reserve laws system hheld hcreate
  obtain ⟨m, hfunds⟩ := fundEphemeral_funds stakes hreserve hcreated hkey hfund
  exact (SplitOff.of_calls laws system stakes ⟨_, info, hheld⟩ hsource hne hcreate hfunds
    hsplit).deactivate stakes hdeactivate

theorem decreaseIntoNewTransient_off {bump : UInt8}
    (h : decreaseIntoNewTransient rt sv c reserve source n key seed bump w = .ok w') :
    SplitOff rt keeper reserveKey source key.key w w' n := by
  simp only [decreaseIntoNewTransient, bind_eq_ok, Prod.exists] at h
  obtain ⟨created, hcreate, funded, hfund, split, hsplit, _, _, -, hdeactivate⟩ := h
  obtain ⟨hkey, hcreated⟩ := created_reserve laws system hheld hcreate
  obtain ⟨m, hfunds⟩ := fundTransient_funds stakes hreserve hcreated hkey hfund
  have hoff := SplitOff.of_calls laws system stakes ⟨_, info, hheld⟩ hsource hne hcreate hfunds hsplit
  rcases onlyIf_eq_ok.mp hdeactivate with ⟨-, hcall⟩ | ⟨-, rfl⟩
  · exact hoff.deactivate stakes hcall
  · exact hoff

end Decrease

theorem AddValidatorRun.solvent (laws : ProgramLaws rt) (system : SystemLaws rt)
    (stakes : StakeLaws rt) {seed : UInt32} (r : AddValidatorRun rt sv accounts seed w w')
    (hapart : Apart rt r.pool.key r.p.reserveStake r.l)
    (h : Solvent rt r.pool.key keeper steady w r.p r.l) :
    Solvent rt r.pool.key keeper steady w' r.p
      { r.l with validators := r.l.validators ++ [newValidatorStakeInfo sv r.vote.key seed] } := by
  obtain ⟨info, hreserve, -⟩ := h.reserve
  obtain ⟨honly, howner, hcreated⟩ := createStakeAccount_spec system r.create
  have hfresh : ¬ Held rt keeper (w r.stake.key) :=
    not_held_of_owner (by rw [howner]; exact laws.stake_ne_system.symm)
  have hne : r.p.reserveStake ≠ r.stake.key := fun heq => hfresh (heq ▸ ⟨_, info, hreserve⟩)
  -- The reserve pays for the new account, which is then delegated.
  obtain ⟨-, -, hsplit⟩ := stakeSplit_spec r.split
  rw [r.isReserve, honly r.p.reserveStake (by simpa using hne)] at hsplit
  obtain ⟨hleft, hmoved⟩ := stakes.split_lamports hsplit
  obtain ⟨hnew, -⟩ := stakes.split_held hsplit ⟨_, info, hreserve⟩
  obtain ⟨hdelegated, hdelegate⟩ := stakeDelegate_spec r.delegate
  obtain ⟨hlamports, hdata⟩ := stakes.delegate_lamports hdelegate
  have hstake := stakes.delegate_held hdelegate hnew
  have hreserve' : r.delegated r.p.reserveStake = r.funded r.p.reserveStake :=
    hdelegated _ (by simpa using hne)
  have hspares : Spares rt keeper [r.p.reserveStake] w r.delegated := by
    have hfunded : Spares rt keeper [r.p.reserveStake] w r.funded :=
      (createStakeAccount_credits laws system r.create).spares.trans
        (r.isReserve ▸ stakeSplit_spares stakes r.split)
    exact ((hfunded.mono (by simp)).trans ((Spares.of_onlyAt hdelegated).mono (by simp))).drop hfresh
  have hkey : (newValidatorStakeInfo sv r.vote.key seed).stakeKey rt r.pool.key = r.stake.key := by
    show (findStakeProgramAddress rt r.vote.key r.pool.key seed).1 = _
    rw [r.stake_key]
  have hsolvent : Solvent rt r.pool.key keeper steady r.delegated r.p
      { r.l with validators := r.l.validators ++ [newValidatorStakeInfo sv r.vote.key seed] } := by
    refine h.append hapart hspares ⟨.active, ?_⟩ (fun info' hinfo' => ?_) ?_
    · exact {
        status := rfl
        agrees := trivial
        validator := fun _ => by rw [cellAt, hkey]; exact hstake
        active_le := by
          rw [cellAt, hkey]
          show initialValidatorLamports sv ≤ (r.delegated r.stake.key).lamports
          omega
        transient := fun hpos => absurd hpos (Nat.lt_irrefl 0)
        transient_le := Nat.zero_le _
        delegated := fun _ _ => by rw [cellAt, hkey]; exact hdata
        stopped := fun _ hs => absurd rfl hs }
    · rw [hreserve']
      obtain ⟨-, rfl⟩ := hreserve.unique hinfo'.data rfl
      have hstate := hreserve.tryStakeState
      rw [← r.isReserve, r.reserve_state] at hstate
      obtain rfl : r.reserveMeta = info' := by
        have hmeta := r.reserve_meta
        rw [Except.ok.inj hstate] at hmeta
        exact (Option.some.inj hmeta).symm
      have henough := r.reserve_enough
      have hpos := minimumReserveLamports_pos hreserve.rent
      rw [r.isReserve] at henough
      exact hreserve.split_reserve stakes hsplit (by omega)
    · rw [hreserve']
      show _ ≤ _ + (initialValidatorLamports sv + 0)
      omega
  have hlist := r.isList.of_frames laws (r.frames.mono movers_subset_outsiders)
  exact hsolvent.spared (writeValidatorList_credits laws hlist.owner r.result).spares

theorem RemoveValidatorRun.solvent (laws : ProgramLaws rt) (stakes : StakeLaws rt)
    (r : RemoveValidatorRun rt sv accounts w w')
    (hkeeper : keeper = ⟨r.authority.key, r.p.lockup⟩) (hepoch : sv.epoch ≠ epochMax)
    (hapart : Apart rt r.pool.key r.p.reserveStake (r.l.modify r.stake.delegation.voterPubkey
      fun _ => { r.v with status := r.newStatus.toPod }))
    (h : Solvent rt r.pool.key keeper steady w r.p r.l) :
    Solvent rt r.pool.key keeper steady w' (r.p.forgetPreferred r.stake.delegation.voterPubkey)
      (r.l.modify r.stake.delegation.voterPubkey
        fun _ => { r.v with status := r.newStatus.toPod }) := by
  have hvote := ValidatorList.find_vote r.found
  have hstakeKey : r.stakeAccount.key = r.v.stakeKey rt r.pool.key := by
    rw [ValidatorStakeInfo.stakeKey, hvote, r.stake_key]
  have hkeys := Apart.replaced r.found hapart
  obtain ⟨hstake_ne, htransient_ne, hne⟩ : r.p.reserveStake ≠ r.v.stakeKey rt r.pool.key ∧
      r.p.reserveStake ≠ r.v.transientKey rt r.pool.key ∧
      r.v.stakeKey rt r.pool.key ≠ r.v.transientKey rt r.pool.key := hkeys
  obtain ⟨s, hs⟩ := h.entries r.v (ValidatorList.find_mem r.found)
  obtain rfl := hs.status_unique r.active
  -- The transient stake is settled first, if any is on record.
  have hsettled : OnlyAt [r.v.transientKey rt r.pool.key] w r.settled ∧
      (r.newStatus = .deactivatingAll ∧ 0 < r.v.transientStakeLamports ∧
        Held rt keeper (r.settled (r.v.transientKey rt r.pool.key)) ∧
        (r.settled (r.v.transientKey rt r.pool.key)).lamports =
          (w (r.v.transientKey rt r.pool.key)).lamports ∧
        (∀ info stake, (r.settled (r.v.transientKey rt r.pool.key)).data = .stake (.stake info stake) →
          stake.delegation.deactivationEpoch ≠ epochMax) ∨
      r.newStatus = .deactivatingValidator ∧ r.v.transientStakeLamports = 0) := by
    have hremoval := r.removal
    unfold removalStatus at hremoval
    split at hremoval
    · rename_i hpos
      simp only [bind_eq_ok, pure_eq_ok, Prod.mk.injEq, checkTransientStakeAddress_eq_ok] at hremoval
      obtain ⟨bump, hkey, w₁, hdeactivate, hstatus, rfl⟩ := hremoval
      have htransient : r.transient.key = r.v.transientKey rt r.pool.key := by
        rw [ValidatorStakeInfo.transientKey, hvote, hkey]
      rw [htransient] at hdeactivate
      obtain ⟨honly, hheld, hlamports, hstopped⟩ :=
        deactivateTransient_held stakes hkeeper hepoch hdeactivate (hs.transient hpos)
      exact ⟨honly, .inl ⟨hstatus.symm, hpos, hheld, hlamports, hstopped⟩⟩
    · rename_i hzero
      simp only [Except.ok.injEq, Prod.mk.injEq] at hremoval
      obtain ⟨hstatus, hw⟩ := hremoval
      rw [← hw]
      exact ⟨.refl _ _, .inr ⟨hstatus.symm, by omega⟩⟩
  obtain ⟨honly, hcases⟩ := hsettled
  have hvalidator : r.settled (r.v.stakeKey rt r.pool.key) = w (r.v.stakeKey rt r.pool.key) :=
    honly _ (by simpa using hne)
  have hdeactivated : OnlyAt [r.v.stakeKey rt r.pool.key] r.settled r.deactivated ∧
      Held rt keeper (r.deactivated (r.v.stakeKey rt r.pool.key)) ∧
      (r.deactivated (r.v.stakeKey rt r.pool.key)).lamports =
        (w (r.v.stakeKey rt r.pool.key)).lamports := by
    have hheld : Held rt keeper (r.settled (r.v.stakeKey rt r.pool.key)) := by
      rw [hvalidator]
      exact hs.validator (.inl rfl)
    have hdeactivate := r.deactivate
    rw [hstakeKey] at hdeactivate
    rcases onlyIf_eq_ok.mp hdeactivate with ⟨-, hcall⟩ | ⟨-, hsame⟩
    · obtain ⟨hheld', hlamports, -⟩ := stakeDeactivate_held stakes hcall hheld
      exact ⟨(stakeDeactivate_spec hcall).1, hheld', by rw [hlamports, hvalidator]⟩
    · rw [← hsame]
      exact ⟨.refl _ _, hheld, by rw [hvalidator]⟩
  obtain ⟨honly', hheld, hlamports⟩ := hdeactivated
  have htransient : r.deactivated (r.v.transientKey rt r.pool.key) =
      r.settled (r.v.transientKey rt r.pool.key) := honly' _ (by simpa using hne.symm)
  have hreserve : r.deactivated r.p.reserveStake = w r.p.reserveStake :=
    (honly' _ (by simpa using hstake_ne)).trans (honly _ (by simpa using htransient_ne))
  have hsound : Sound rt keeper steady (cellAt rt r.pool.key r.deactivated
      { r.v with status := r.newStatus.toPod }) r.newStatus := by
    rcases hcases with ⟨hstatus, hpos, hheld', hlamports', hstopped⟩ | ⟨hstatus, hzero⟩
    · rw [hstatus]
      refine {
        status := rfl
        agrees := hpos
        validator := fun _ => hheld
        active_le := Nat.le_trans hs.active_le (Nat.le_of_eq hlamports.symm)
        transient := fun _ => ?_
        transient_le := ?_
        delegated := fun _ => nofun
        stopped := fun _ _ _ info stake hdata => ?_ }
      · show Held rt keeper (r.deactivated (r.v.transientKey rt r.pool.key))
        rw [htransient]
        exact hheld'
      · show r.v.transientStakeLamports ≤ (r.deactivated (r.v.transientKey rt r.pool.key)).lamports
        rw [htransient, hlamports']
        exact hs.transient_le
      · refine hstopped info stake ?_
        rw [← htransient]
        exact hdata
    · rw [hstatus]
      exact {
        status := rfl
        agrees := hzero
        validator := fun _ => hheld
        active_le := Nat.le_trans hs.active_le (Nat.le_of_eq hlamports.symm)
        transient := fun hpos => absurd hzero (Nat.ne_of_gt hpos)
        transient_le := by
          show r.v.transientStakeLamports ≤ _
          rw [hzero]
          exact Nat.zero_le _
        delegated := fun _ => nofun
        stopped := fun _ _ hpos => absurd hzero (Nat.ne_of_gt hpos) }
  have hspares : Spares rt keeper [r.p.reserveStake, r.v.stakeKey rt r.pool.key,
      r.v.transientKey rt r.pool.key] w r.deactivated :=
    .of_onlyAt ((honly.mono (by simp)).trans (honly'.mono (by simp)))
  have hsolvent : Solvent rt r.pool.key keeper steady r.deactivated
      (r.p.forgetPreferred r.stake.delegation.voterPubkey) (r.l.modify r.stake.delegation.voterPubkey
        fun _ => { r.v with status := r.newStatus.toPod }) :=
    h.replace r.found hapart hspares ⟨_, hsound⟩ rfl (fun info hinfo => by rwa [hreserve])
      (by rw [hreserve]; exact Nat.le_refl _)
  have hlist := r.isList.of_frames laws (r.frames.mono movers_subset_outsiders)
  have hpool := r.isPool.of_frames laws (r.frames.mono movers_subset_outsiders)
  refine hsolvent.spared ((writeValidatorList_credits laws hlist.owner rfl).trans
    (writeStakePool_credits laws ?_ r.result)).spares
  rw [writeValidatorList_owner]
  exact hpool.owner

/-! ## Decreasing a validator's stake -/

theorem minimumStakeLamports_pos (info : StakeMeta) (minimum : Nat) :
    0 < minimumStakeLamports info minimum := by
  have hactive : 0 < minimumActiveStake := by decide
  have hdelegation : 0 < minimumDelegation minimum := Nat.lt_of_lt_of_le hactive (Nat.le_max_right _ _)
  have hmax : 0 < maxValue 64 := by decide
  exact Nat.lt_min.mpr ⟨by omega, hmax⟩

theorem optionZip_eq_none {α β : Type} {a : Option α} {b : Option β} (hb : b.isSome = a.isSome)
    (h : optionZip a b = none) : a.isSome = false := by
  cases a with
  | none => rfl
  | some x =>
    obtain ⟨y, rfl⟩ := Option.isSome_iff_exists.mp hb
    cases h

/-- With stake in transit the change must be an additional one. -/
theorem checkPendingTransient_spec {v : ValidatorStakeInfo} {transientSeed : UInt64}
    {ephemeralSeed : Option UInt64} {check : Except ProgramError Unit} {u : Unit}
    (h : checkPendingTransient v transientSeed ephemeralSeed check = .ok u) :
    v.transientStakeLamports = 0 ∨
      0 < v.transientStakeLamports ∧ ephemeralSeed.isSome = true ∧ transientSeed = v.transientSeedSuffix := by
  unfold checkPendingTransient at h
  split at h
  · rename_i hpos
    simp only [bind_eq_ok, failIf_eq_ok, exists_unit, Option.isNone_eq_false_iff, Bool.not_eq_true,
      Decidable.not_not, ne_eq] at h
    exact .inr ⟨hpos, h.1, h.2.1⟩
  · exact .inl (by omega)

/-- What a decrease has done to the accounts: `n` lamports have left the validator stake account `V`,
and reserve and transient stake account have them. -/
structure Decreased (rt : Runtime) (keeper : Keeper) (reserve V T : Pubkey) (w w' : Ledger)
    (n before : Nat) : Prop where
  spares : Spares rt keeper [reserve, V, T] w w'
  validator : ∀ s info, HeldAs rt keeper (w V) s info →
    ∃ s', HeldAs rt keeper (w' V) s' info ∧ SameStake s s'
  left : (w' V).lamports + n = (w V).lamports
  transient : Held rt keeper (w' T)
  reserve_held : ∀ info, HeldAs rt keeper (w reserve) (.initialized info) info →
    HeldAs rt keeper (w' reserve) (.initialized info) info
  backed : (w reserve).lamports + n + before ≤ (w' reserve).lamports + (w' T).lamports

theorem DecreaseRun.decreased (laws : ProgramLaws rt) (system : SystemLaws rt) (stakes : StakeLaws rt)
    {lamports : Nat} {seed : UInt64} {ephemeralSeed : Option UInt64} {fund : Bool}
    (r : DecreaseRun rt sv accounts lamports seed ephemeralSeed fund w w') {info : StakeMeta}
    (hreserve : HeldAs rt keeper (w r.p.reserveStake) (.initialized info) info)
    (hvalidator : Held rt keeper (w r.validatorStake.key)) (hne : r.validatorStake.key ≠ r.p.reserveStake)
    (htne : r.transient.key ≠ r.p.reserveStake) (hvt : r.validatorStake.key ≠ r.transient.key)
    (htransient : 0 < r.v.transientStakeLamports → Held rt keeper (w r.transient.key) ∧
      r.v.transientStakeLamports ≤ (w r.transient.key).lamports) :
    Decreased rt keeper r.p.reserveStake r.validatorStake.key r.transient.key w r.moved lamports
      r.v.transientStakeLamports := by
  have hpending := checkPendingTransient_spec r.pending
  have hprepare := r.prepare
  have hmove := r.move
  -- What stays in the validator stake account keeps it alive.
  have hrest : lamports < (w r.validatorStake.key).lamports := by
    have hremaining := r.remaining
    have hpos := minimumStakeLamports_pos r.info sv.stakeMinimumDelegation
    omega
  cases hzip : optionZip ephemeralSeed r.ephemeral with
  | none =>
    have hzero : r.v.transientStakeLamports = 0 := by
      rcases hpending with hzero | ⟨-, hseed, -⟩
      · exact hzero
      · rw [optionZip_eq_none r.ephemeral_given hzip] at hseed
        cases hseed
    rw [hzip] at hprepare
    simp only [decreaseSource, Except.ok.injEq, Prod.mk.injEq] at hprepare
    obtain ⟨hsource, hlamports, hw⟩ := hprepare
    rw [if_neg (by omega), ← hsource, ← hlamports, ← hw] at hmove
    have hoff := decreaseIntoNewTransient_off laws system stakes r.isReserve hreserve hvalidator hne hmove
    have hleft := hoff.left
    refine ⟨.of_onlyAt hoff.only, fun s info' hs => hoff.keeps s info' hs (by omega), hleft, hoff.new,
      hoff.held, ?_⟩
    have hbacked := hoff.backed
    omega
  | some pair =>
    obtain ⟨ephemeralSeed', e⟩ := pair
    rw [hzip] at hprepare
    simp only [decreaseSource, bind_eq_ok, pure_eq_ok, Prod.mk.injEq] at hprepare
    obtain ⟨w₁, hsplit, hsource, hlamports, hw⟩ := hprepare
    rw [← hsource, ← hlamports, ← hw] at hmove
    -- The ephemeral account is new, so it is none of the held accounts.
    have hoff := splitToEphemeral_off laws system stakes r.isReserve hreserve hvalidator hne hsplit
    have hleft := hoff.left
    have hbacked := hoff.backed
    have hvalidator₁ : ∀ s info, HeldAs rt keeper (w r.validatorStake.key) s info →
        ∃ s', HeldAs rt keeper (w₁ r.validatorStake.key) s' info ∧ SameStake s s' :=
      fun s info' hs => hoff.keeps s info' hs (by omega)
    by_cases hpos : 0 < r.v.transientStakeLamports
    · rw [if_pos hpos] at hmove
      simp only [mergeIntoTransient, bind_eq_ok] at hmove
      obtain ⟨history, -, hmerge⟩ := hmove
      obtain ⟨hheld, hle⟩ := htransient hpos
      have het : e.key ≠ r.transient.key := fun heq => hoff.fresh (heq ▸ hheld)
      obtain ⟨-, honly, hcall⟩ := stakeMerge_spec hmerge
      have htransient₁ : w₁ r.transient.key = w r.transient.key :=
        hoff.only _ (by simp [htne, hvt.symm, het.symm])
      have hvalidator₂ : r.moved r.validatorStake.key = w₁ r.validatorStake.key :=
        honly _ (by simp [hvt, hoff.key_ne_source.symm])
      have hreserve₂ : r.moved r.p.reserveStake = w₁ r.p.reserveStake :=
        honly _ (by simp [htne.symm, hoff.key_ne_reserve.symm])
      have hgrows := stakes.merge_grows hcall
      obtain ⟨_, _, _, -, -, -, -, -, -, -, -, hmerged, -, -⟩ := stakes.merge _ _ _ _ _ _ hcall
      rw [htransient₁] at hgrows hmerged
      refine ⟨?_, ?_, ?_, hheld.grows hgrows, ?_, ?_⟩
      · have hboth : Spares rt keeper [e.key, r.p.reserveStake, r.validatorStake.key, r.transient.key] w
            r.moved := .of_onlyAt ((hoff.only.mono (by simp)).trans (honly.mono (by simp)))
        exact hboth.drop hoff.fresh
      · rw [hvalidator₂]
        exact hvalidator₁
      · rw [hvalidator₂]
        exact hleft
      · rw [hreserve₂]
        exact hoff.held
      · rw [hreserve₂]
        omega
    · rw [if_neg hpos] at hmove
      have hreserve₁ := hoff.held info hreserve
      have hoff' := decreaseIntoNewTransient_off laws system stakes r.isReserve hreserve₁ hoff.new
        hoff.key_ne_reserve hmove
      have hvalidator₂ : r.moved r.validatorStake.key = w₁ r.validatorStake.key :=
        hoff'.only _ (by simp [hne, hvt, hoff.key_ne_source.symm])
      refine ⟨?_, ?_, ?_, hoff'.new, fun info' hinfo' => hoff'.held info' (hoff.held info' hinfo'), ?_⟩
      · have hboth : Spares rt keeper [e.key, r.p.reserveStake, r.validatorStake.key, r.transient.key] w
            r.moved := .of_onlyAt ((hoff.only.mono (by simp)).trans (hoff'.only.mono (by simp)))
        exact hboth.drop hoff.fresh
      · rw [hvalidator₂]
        exact hvalidator₁
      · rw [hvalidator₂]
        exact hleft
      · have hbacked' := hoff'.backed
        omega

theorem DecreaseRun.solvent (laws : ProgramLaws rt) (system : SystemLaws rt) (stakes : StakeLaws rt)
    {lamports : Nat} {seed : UInt64} {ephemeralSeed : Option UInt64} {fund : Bool}
    (r : DecreaseRun rt sv accounts lamports seed ephemeralSeed fund w w')
    (hapart : Apart rt r.pool.key r.p.reserveStake (r.l.modify r.stake.delegation.voterPubkey
      fun _ => { r.v with
        activeStakeLamports := r.active
        transientStakeLamports := (r.moved r.transient.key).lamports
        transientSeedSuffix := seed }))
    (h : Solvent rt r.pool.key keeper steady w r.p r.l) :
    Solvent rt r.pool.key keeper steady w' r.p (r.l.modify r.stake.delegation.voterPubkey
      fun _ => { r.v with
        activeStakeLamports := r.active
        transientStakeLamports := (r.moved r.transient.key).lamports
        transientSeedSuffix := seed }) := by
  have hvote := ValidatorList.find_vote r.found
  have hmem := ValidatorList.find_mem r.found
  obtain ⟨info, hreserve, -⟩ := h.reserve
  obtain ⟨s, hs⟩ := h.entries r.v hmem
  obtain rfl := hs.status_unique r.status_active
  have hstakeKey : r.v.stakeKey rt r.pool.key = r.validatorStake.key := by
    rw [ValidatorStakeInfo.stakeKey, hvote, r.stake_key]
  have htransientKey : (findTransientStakeProgramAddress rt r.v.voteAccountAddress r.pool.key seed).1 =
      r.transient.key := by rw [hvote, r.transient_key]
  have hkeys := Apart.replaced r.found hapart
  obtain ⟨hrv, hrt, hvt⟩ : r.p.reserveStake ≠ r.validatorStake.key ∧
      r.p.reserveStake ≠ r.transient.key ∧ r.validatorStake.key ≠ r.transient.key := by
    rw [← hstakeKey, ← htransientKey]
    exact hkeys
  -- Stake in transit keeps its seed, so it is the account of the new seed.
  have htransient : 0 < r.v.transientStakeLamports → Held rt keeper (w r.transient.key) ∧
      r.v.transientStakeLamports ≤ (w r.transient.key).lamports := by
    intro hpos
    have hseed : seed = r.v.transientSeedSuffix := by
      rcases checkPendingTransient_spec r.pending with hzero | ⟨-, -, hseed⟩
      · omega
      · exact hseed
    have hkey : r.v.transientKey rt r.pool.key = r.transient.key := by
      rw [ValidatorStakeInfo.transientKey, ← hseed, htransientKey]
    rw [← hkey]
    exact ⟨hs.transient hpos, hs.transient_le⟩
  have hvalidator : Held rt keeper (w r.validatorStake.key) := hstakeKey ▸ hs.validator (.inl rfl)
  have hmoved := r.decreased laws system stakes hreserve hvalidator hrv.symm hrt.symm hvt htransient
  have hspares : Spares rt keeper [r.p.reserveStake, r.v.stakeKey rt r.pool.key,
      (findTransientStakeProgramAddress rt r.v.voteAccountAddress r.pool.key seed).1] w r.moved := by
    rw [hstakeKey, htransientKey]
    exact hmoved.spares
  have hsound : Sound rt keeper steady (cellAt rt r.pool.key r.moved { r.v with
      activeStakeLamports := r.active
      transientStakeLamports := (r.moved r.transient.key).lamports
      transientSeedSuffix := seed }) .active := by
    have hcell : cellAt rt r.pool.key r.moved { r.v with
        activeStakeLamports := r.active
        transientStakeLamports := (r.moved r.transient.key).lamports
        transientSeedSuffix := seed } = ⟨{ r.v with
          activeStakeLamports := r.active
          transientStakeLamports := (r.moved r.transient.key).lamports
          transientSeedSuffix := seed }, r.moved r.validatorStake.key, r.moved r.transient.key⟩ := by
      rw [← hstakeKey]
      exact congrArg (Cell.mk _ _) (congrArg r.moved htransientKey)
    obtain ⟨state, info', hheld⟩ := hvalidator
    obtain ⟨rfl, rfl⟩ := hheld.unique r.stake_state rfl
    obtain ⟨s', hheld', hsame⟩ := hmoved.validator _ _ hheld
    have hleft := hmoved.left
    have hactive := r.active_eq
    have hle : r.v.activeStakeLamports ≤ (w r.validatorStake.key).lamports := hstakeKey ▸ hs.active_le
    rw [hcell]
    refine {
      status := r.status_active
      agrees := trivial
      validator := fun _ => ⟨s', _, hheld'⟩
      active_le := ?_
      transient := fun _ => hmoved.transient
      transient_le := Nat.le_refl _
      delegated := fun _ _ => ?_
      stopped := fun _ hne => absurd rfl hne }
    · show r.active ≤ (r.moved r.validatorStake.key).lamports
      omega
    · cases hsame with
      | stake => exact ⟨_, _, hheld'.data⟩
  have hsolvent : Solvent rt r.pool.key keeper steady r.moved r.p
      (r.l.modify r.stake.delegation.voterPubkey fun _ => { r.v with
        activeStakeLamports := r.active
        transientStakeLamports := (r.moved r.transient.key).lamports
        transientSeedSuffix := seed }) := by
    refine h.replace r.found hapart hspares ⟨_, hsound⟩ rfl hmoved.reserve_held ?_
    have hbacked := hmoved.backed
    have hactive := r.active_eq
    show _ + _ + (r.v.activeStakeLamports + r.v.transientStakeLamports) ≤
      _ + _ + (r.active + (r.moved r.transient.key).lamports)
    omega
  have hlist := r.isList.of_frames laws (r.frames.mono movers_subset_outsiders)
  refine hsolvent.spared (writeValidatorList_credits laws hlist.owner r.result).spares

/-! ## Increasing a validator's stake -/

/-- `n` lamports of the stake at `source` have gone to the new account at `key`. -/
structure SplitNew (rt : Runtime) (keeper : Keeper) (source key : Pubkey) (w w' : Ledger) (n : Nat) :
    Prop where
  fresh : ¬ Held rt keeper (w key)
  only : OnlyAt [source, key] w w'
  new : Held rt keeper (w' key)
  left : (w' source).lamports + n = (w source).lamports
  keeps : ∀ s info, HeldAs rt keeper (w source) s info → (w' source).lamports ≠ 0 →
    ∃ s', HeldAs rt keeper (w' source) s' info ∧ SameStake s s'
  moved : n ≤ (w' key).lamports

namespace SplitNew

variable {pool source : Pubkey} {authority key : AccountMeta} {bump : UInt8} {n space : Nat}
  {seeds : List (List UInt8)} {created : Ledger}

theorem of_calls (laws : ProgramLaws rt) (system : SystemLaws rt) (stakes : StakeLaws rt)
    (hsource : Held rt keeper (w source)) (hcreate : createStakeAccount rt key seeds space w = .ok created)
    (hsplit : stakeSplit rt sv pool source authority bump n key.key created = .ok w') :
    SplitNew rt keeper source key.key w w' n := by
  obtain ⟨honly, howner, hcreated⟩ := createStakeAccount_spec system hcreate
  have hfresh : ¬ Held rt keeper (w key.key) :=
    not_held_of_owner (by rw [howner]; exact laws.stake_ne_system.symm)
  have hne : key.key ≠ source := fun heq => hfresh (heq ▸ hsource)
  have hsource₁ : created source = w source := honly _ (by simpa using hne.symm)
  obtain ⟨-, honly', hcall⟩ := stakeSplit_spec hsplit
  obtain ⟨hleft, hmoved⟩ := stakes.split_lamports hcall
  rw [hsource₁] at hcall hleft
  obtain ⟨hnew, -⟩ := stakes.split_held hcall hsource
  exact ⟨hfresh, (honly.mono (by simp)).trans (honly'.mono (by simp)), hnew, hleft,
    fun s info hs hpos => stakes.split_keeps hcall hs hpos, by omega⟩

/-- The new account is delegated. -/
theorem delegate {key vote clock history config : Pubkey} {w'' : Ledger} (stakes : StakeLaws rt)
    (hne : key ≠ source) (h : SplitNew rt keeper source key w w' n)
    (hcall : stakeDelegate rt sv key vote clock history config authority pool bump w' = .ok w'') :
    SplitNew rt keeper source key w w'' n := by
  obtain ⟨honly, hdelegate⟩ := stakeDelegate_spec hcall
  obtain ⟨hlamports, -⟩ := stakes.delegate_lamports hdelegate
  have hsource : w'' source = w' source := honly _ (by simpa using hne.symm)
  refine ⟨h.fresh, h.only.trans (honly.mono (by simp)), stakes.delegate_held hdelegate h.new, ?_, ?_, ?_⟩
  · rw [hsource]
    exact h.left
  · rw [hsource]
    exact h.keeps
  · rw [hlamports]
    exact h.moved

end SplitNew

theorem increaseIntoNewTransient_new (laws : ProgramLaws rt) (system : SystemLaws rt)
    (stakes : StakeLaws rt) {c : RebalanceContext} {history config source : Pubkey} {n : Nat}
    {key : AccountMeta} {seed : UInt64} {bump : UInt8} (hsource : Held rt keeper (w source))
    (h : increaseIntoNewTransient rt sv c history config source n key seed bump w = .ok w') :
    SplitNew rt keeper source key.key w w' n := by
  simp only [increaseIntoNewTransient, bind_eq_ok] at h
  obtain ⟨created, hcreate, split, hsplit, state, -, hdelegate⟩ := h
  have hnew := SplitNew.of_calls laws system stakes hsource hcreate hsplit
  rcases onlyIf_eq_ok.mp hdelegate with ⟨-, hcall⟩ | ⟨-, rfl⟩
  · exact hnew.delegate stakes (fun heq => hnew.fresh (heq ▸ hsource)) hcall
  · exact hnew

/-- What an increase has done to the accounts: `n` lamports have gone from the reserve to the
transient stake account `T`, which had at least `before`. -/
structure Increased (rt : Runtime) (keeper : Keeper) (reserve T : Pubkey) (w w' : Ledger)
    (n before : Nat) : Prop where
  spares : Spares rt keeper [reserve, T] w w'
  transient : Held rt keeper (w' T)
  transient_le : before + n ≤ (w' T).lamports
  left : (w' reserve).lamports + n = (w reserve).lamports
  reserve_held : ∀ info, HeldAs rt keeper (w reserve) (.initialized info) info →
    (w' reserve).lamports ≠ 0 → HeldAs rt keeper (w' reserve) (.initialized info) info

theorem SplitNew.reserve {source key : Pubkey} {n : Nat} (h : SplitNew rt keeper source key w w' n)
    {info : StakeMeta} (hs : HeldAs rt keeper (w source) (.initialized info) info)
    (hne : (w' source).lamports ≠ 0) : HeldAs rt keeper (w' source) (.initialized info) info := by
  obtain ⟨s', hs', hsame⟩ := h.keeps _ _ hs hne
  cases hsame
  exact hs'

theorem IncreaseRun.increased (laws : ProgramLaws rt) (system : SystemLaws rt) (stakes : StakeLaws rt)
    {lamports : Nat} {seed : UInt64} {ephemeralSeed : Option UInt64}
    (r : IncreaseRun rt sv accounts lamports seed ephemeralSeed w w')
    (hreserve : Held rt keeper (w r.p.reserveStake)) (hne : r.transient.key ≠ r.p.reserveStake)
    (htransient : 0 < r.v.transientStakeLamports → Held rt keeper (w r.transient.key) ∧
      r.v.transientStakeLamports ≤ (w r.transient.key).lamports) :
    Increased rt keeper r.p.reserveStake r.transient.key w r.moved
      (saturatingAdd 64 lamports (sv.minimumBalance stakeSpace)) r.v.transientStakeLamports := by
  have hpending := checkPendingTransient_spec r.pending
  have hprepare := r.prepare
  have hmove := r.move
  rw [r.isReserve] at hprepare
  cases hzip : optionZip ephemeralSeed r.ephemeral with
  | none =>
    -- Without an ephemeral account, an increase needs an empty transient one.
    have hzero : r.v.transientStakeLamports = 0 := by
      rcases hpending with hzero | ⟨-, hseed, -⟩
      · exact hzero
      · rw [optionZip_eq_none r.ephemeral_given hzip] at hseed
        cases hseed
    rw [hzip] at hprepare
    simp only [increaseSource, Except.ok.injEq, Prod.mk.injEq] at hprepare
    obtain ⟨hsource, hw⟩ := hprepare
    rw [if_neg (by omega), ← hsource, ← hw] at hmove
    have hnew := increaseIntoNewTransient_new laws system stakes hreserve hmove
    have hmoved := hnew.moved
    exact ⟨.of_onlyAt hnew.only, hnew.new, by omega, hnew.left, fun info hinfo hpos =>
      hnew.reserve hinfo hpos⟩
  | some pair =>
    -- Otherwise the lamports are split off into the ephemeral account first.
    obtain ⟨ephemeralSeed', e⟩ := pair
    rw [hzip] at hprepare
    simp only [increaseSource, bind_eq_ok, pure_eq_ok, Prod.mk.injEq] at hprepare
    obtain ⟨bump, -, created, hcreate, split, hsplit, w₁, hdelegate, hsource, hw⟩ := hprepare
    rw [← hsource, ← hw] at hmove
    have hsplitNew := SplitNew.of_calls laws system stakes hreserve hcreate hsplit
    have her : e.key ≠ r.p.reserveStake := fun heq => hsplitNew.fresh (heq ▸ hreserve)
    have hnew := hsplitNew.delegate stakes her hdelegate
    have hmoved := hnew.moved
    by_cases hpos : 0 < r.v.transientStakeLamports
    · -- The transient account grows by the merge.
      rw [if_pos hpos] at hmove
      simp only [mergeIntoTransient, bind_eq_ok] at hmove
      obtain ⟨history, -, hmerge⟩ := hmove
      obtain ⟨hheld, hle⟩ := htransient hpos
      have het : e.key ≠ r.transient.key := fun heq => hnew.fresh (heq ▸ hheld)
      obtain ⟨-, honly, hcall⟩ := stakeMerge_spec hmerge
      have htransient₁ : w₁ r.transient.key = w r.transient.key := hnew.only _ (by simp [hne, het.symm])
      have hreserve₂ : r.moved r.p.reserveStake = w₁ r.p.reserveStake :=
        honly _ (by simp [hne.symm, her.symm])
      have hgrows := stakes.merge_grows hcall
      obtain ⟨_, _, _, -, -, -, -, -, -, -, -, hmerged, -, -⟩ := stakes.merge _ _ _ _ _ _ hcall
      rw [htransient₁] at hgrows hmerged
      refine ⟨?_, hheld.grows hgrows, by omega, ?_, ?_⟩
      · have hboth : Spares rt keeper [e.key, r.p.reserveStake, r.transient.key] w r.moved :=
          .of_onlyAt ((hnew.only.mono (by simp)).trans (honly.mono (by simp)))
        exact hboth.drop hnew.fresh
      · rw [hreserve₂]
        exact hnew.left
      · rw [hreserve₂]
        exact fun info hinfo hne => hnew.reserve hinfo hne
    · -- The transient account is new, and the ephemeral one is its source.
      rw [if_neg hpos] at hmove
      have hnew' := increaseIntoNewTransient_new laws system stakes hnew.new hmove
      have hmoved' := hnew'.moved
      have hreserve₂ : r.moved r.p.reserveStake = w₁ r.p.reserveStake :=
        hnew'.only _ (by simp [hne.symm, her.symm])
      refine ⟨?_, hnew'.new, by omega, ?_, ?_⟩
      · have hboth : Spares rt keeper [e.key, r.p.reserveStake, r.transient.key] w r.moved :=
          .of_onlyAt ((hnew.only.mono (by simp)).trans (hnew'.only.mono (by simp)))
        exact hboth.drop hnew.fresh
      · rw [hreserve₂]
        exact hnew.left
      · rw [hreserve₂]
        exact fun info hinfo hne => hnew.reserve hinfo hne

/-- An active entry whose stake in transit is another. -/
theorem Sound.retransit {v : ValidatorStakeInfo} {validator transient transient' : Account} {n : Nat}
    (seed : UInt64) (h : Sound rt keeper steady ⟨v, validator, transient⟩ .active)
    (hheld : Held rt keeper transient') (hle : n ≤ transient'.lamports) :
    Sound rt keeper steady
      ⟨{ v with transientStakeLamports := n, transientSeedSuffix := seed }, validator, transient'⟩
      .active where
  status := h.status
  agrees := trivial
  validator := h.validator
  active_le := h.active_le
  transient _ := hheld
  transient_le := hle
  delegated := h.delegated
  stopped _ hne := absurd rfl hne

theorem IncreaseRun.solvent (laws : ProgramLaws rt) (system : SystemLaws rt) (stakes : StakeLaws rt)
    {lamports : Nat} {seed : UInt64} {ephemeralSeed : Option UInt64}
    (r : IncreaseRun rt sv accounts lamports seed ephemeralSeed w w')
    (hrent : 0 < sv.minimumBalance stakeSpace)
    (hapart : Apart rt r.pool.key r.p.reserveStake (r.l.modify r.vote.key fun _ => { r.v with
      transientStakeLamports :=
        r.v.transientStakeLamports + saturatingAdd 64 lamports (sv.minimumBalance stakeSpace)
      transientSeedSuffix := seed }))
    (h : Solvent rt r.pool.key keeper steady w r.p r.l) :
    Solvent rt r.pool.key keeper steady w' r.p (r.l.modify r.vote.key fun _ => { r.v with
      transientStakeLamports :=
        r.v.transientStakeLamports + saturatingAdd 64 lamports (sv.minimumBalance stakeSpace)
      transientSeedSuffix := seed }) := by
  have hvote := ValidatorList.find_vote r.found
  obtain ⟨s, hs⟩ := h.entries r.v (ValidatorList.find_mem r.found)
  obtain rfl := hs.status_unique r.status_active
  have htransientKey : (findTransientStakeProgramAddress rt r.v.voteAccountAddress r.pool.key seed).1 =
      r.transient.key := by rw [hvote, r.transient_key]
  have hkeys := Apart.replaced r.found hapart
  obtain ⟨hrv, hrt, hvt⟩ : r.p.reserveStake ≠ r.v.stakeKey rt r.pool.key ∧
      r.p.reserveStake ≠ r.transient.key ∧ r.v.stakeKey rt r.pool.key ≠ r.transient.key := by
    rw [← htransientKey]
    exact hkeys
  have htransient : 0 < r.v.transientStakeLamports → Held rt keeper (w r.transient.key) ∧
      r.v.transientStakeLamports ≤ (w r.transient.key).lamports := by
    intro hpos
    have hseed : seed = r.v.transientSeedSuffix := by
      rcases checkPendingTransient_spec r.pending with hzero | ⟨-, -, hseed⟩
      · omega
      · exact hseed
    have hkey : r.v.transientKey rt r.pool.key = r.transient.key := by
      rw [ValidatorStakeInfo.transientKey, ← hseed, htransientKey]
    rw [← hkey]
    exact ⟨hs.transient hpos, hs.transient_le⟩
  have hmoved := r.increased laws system stakes h.reserve_held hrt.symm htransient
  have hspares : Spares rt keeper [r.p.reserveStake, r.v.stakeKey rt r.pool.key,
      (findTransientStakeProgramAddress rt r.v.voteAccountAddress r.pool.key seed).1] w r.moved := by
    rw [htransientKey]
    exact hmoved.spares.mono (by simp)
  have hsound : Sound rt keeper steady (cellAt rt r.pool.key r.moved { r.v with
      transientStakeLamports :=
        r.v.transientStakeLamports + saturatingAdd 64 lamports (sv.minimumBalance stakeSpace)
      transientSeedSuffix := seed }) .active := by
    -- The validator stake account is not involved.
    have hgrown := hs.grows
      (fun hheld => (hmoved.spares _ (by simp [hrv.symm, hvt]) hheld).mono False.elim)
      (fun _ => Account.Grows.refl True (w (r.v.transientKey rt r.pool.key)))
    have hsound := hgrown.retransit seed hmoved.transient hmoved.transient_le
    rw [← htransientKey] at hsound
    exact hsound
  have hleft := hmoved.left
  have hsolvent : Solvent rt r.pool.key keeper steady r.moved r.p
      (r.l.modify r.vote.key fun _ => { r.v with
        transientStakeLamports :=
          r.v.transientStakeLamports + saturatingAdd 64 lamports (sv.minimumBalance stakeSpace)
        transientSeedSuffix := seed }) := by
    refine h.replace r.found hapart hspares ⟨_, hsound⟩ rfl
      (fun info hinfo => hmoved.reserve_held info hinfo ?_) ?_
    · have hrest := r.rent_left
      rw [r.isReserve] at hrest
      omega
    · show _ + _ + (r.v.activeStakeLamports + r.v.transientStakeLamports) ≤ _ + _ +
        (r.v.activeStakeLamports + (r.v.transientStakeLamports +
          saturatingAdd 64 lamports (sv.minimumBalance stakeSpace)))
      omega
  have hlist := r.isList.of_frames laws (r.frames.mono movers_subset_outsiders)
  exact hsolvent.spared (writeValidatorList_credits laws hlist.owner r.result).spares

end StakePoolFogo
