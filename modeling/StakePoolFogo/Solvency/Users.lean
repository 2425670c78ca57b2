import StakePoolFogo.Confinement
import StakePoolFogo.Solvency.Staker

/-!
# Deposits and withdrawals keep a pool solvent

A deposit books what has arrived; a withdrawal books what has left.  The accounts a user hands over
cannot be the pool's own: those answer to the withdraw authority only.
-/

open StakePoolFogo.Checked StakePoolFogo.Outcome

namespace StakePoolFogo

variable {rt : Runtime} {sv : Sysvars} {keeper : Keeper} {steady : Prop} {w w' : Ledger}
  {accounts : List AccountMeta} {l l' : ValidatorList}

theorem OnlyCredits.of_token (laws : ProgramLaws rt) {tokenProgram : Pubkey}
    (h : Frames [tokenProgram] w w') (htoken : rt.isTokenProgram tokenProgram) :
    OnlyCredits rt keeper w w' :=
  .of_frames h (by simpa using (laws.token_ne_stake _ htoken).symm)

/-! ## Depositing stake -/

/-- Changing the authorities of an account takes one of them, which the keeper is not. -/
theorem authorizeBoth_not_held (stakes : StakeLaws rt) {stake authority newAuthority clock : Pubkey}
    (hne : authority ≠ keeper.authority)
    (h : authorizeBoth rt sv stake authority newAuthority clock w = .ok w') :
    ¬ Held rt keeper (w stake) ∧ OnlyAt [stake] w w' := by
  simp only [authorizeBoth, bind_eq_ok, exists_unit] at h
  obtain ⟨-, w₁, hstaker, hwithdrawer⟩ := h
  obtain ⟨honly, hcall, -⟩ := invoke₁_spec hstaker
  obtain ⟨honly', -, -⟩ := invoke₁_spec hwithdrawer
  refine ⟨?_, honly.trans honly'⟩
  rintro ⟨s, info, hheld⟩
  obtain ⟨s', info', hdata, hinfo, hauthority, -⟩ := stakes.authorize _ _ _ _ _ _ hcall
  obtain ⟨rfl, rfl⟩ := hheld.unique hdata hinfo
  obtain ⟨hs, hw, -⟩ := hheld.usable
  rcases hauthority with heq | heq
  · exact hne (heq.trans hs)
  · exact hne (heq.trans hw)

/-- Nobody can deposit a stake account the pool holds. -/
theorem takeOverStake_not_held (stakes : StakeLaws rt) {pool stake clock : Pubkey}
    {depositAuthority : AccountMeta} {withdrawAuthority : Pubkey}
    (hsigner : depositAuthority.key = keeper.authority → depositAuthority.isSigner = false)
    (hderived : (findDepositAuthorityProgramAddress rt pool).1 ≠ keeper.authority)
    (h : takeOverStake rt sv pool stake clock depositAuthority withdrawAuthority w = .ok w') :
    ¬ Held rt keeper (w stake) ∧ OnlyAt [stake] w w' := by
  unfold takeOverStake at h
  dsimp only at h
  split at h
  · rename_i hkey
    simp only [stakeAuthorizeSigned, bind_eq_ok, exists_unit] at h
    obtain ⟨_, -, -, h⟩ := h
    exact authorizeBoth_not_held stakes (by rwa [hkey]) h
  · simp only [stakeAuthorize, bind_eq_ok, exists_unit] at h
    obtain ⟨hrequire, h⟩ := h
    refine authorizeBoth_not_held stakes (fun heq => ?_) h
    simp only [requireSigner, failIf_eq_ok, Decidable.not_not, List.not_mem_nil, or_false,
      hsigner heq, Bool.false_eq_true] at hrequire

/-- An active entry whose validator stake is another. -/
theorem Sound.revalue {v : ValidatorStakeInfo} {validator transient validator' transient' : Account}
    {n : Nat} (h : Sound rt keeper steady ⟨v, validator, transient⟩ .active)
    (hheld : Held rt keeper validator') (hle : n ≤ validator'.lamports)
    (hdata : ∃ info stake, validator'.data = .stake (.stake info stake))
    (hgrows : Held rt keeper transient → transient.Grows False transient') :
    Sound rt keeper steady ⟨{ v with activeStakeLamports := n }, validator', transient'⟩ .active where
  status := h.status
  agrees := trivial
  validator _ := hheld
  active_le := hle
  transient hpos := (h.transient hpos).grows (hgrows (h.transient hpos))
  transient_le := by
    by_cases hpos : 0 < v.transientStakeLamports
    · exact Nat.le_trans h.transient_le (hgrows (h.transient hpos)).lamports
    · show v.transientStakeLamports ≤ _
      omega
  delegated _ _ := hdata
  stopped _ hne := absurd rfl hne

theorem DepositStakeRun.solvent (laws : ProgramLaws rt) (stakes : StakeLaws rt) {minimum : Option Nat}
    (r : DepositStakeRun rt sv accounts minimum w w')
    (hsigner : r.depositAuthority.key = keeper.authority → r.depositAuthority.isSigner = false)
    (hderived : (findDepositAuthorityProgramAddress rt r.pool.key).1 ≠ keeper.authority)
    (hapart : Apart rt r.pool.key r.p.reserveStake (r.l.modify r.stake.delegation.voterPubkey
      fun _ => { r.v with activeStakeLamports := (r.written r.validatorStake.key).lamports }))
    (h : Solvent rt r.pool.key keeper steady w r.p r.l) :
    Solvent rt r.pool.key keeper steady w' r.p' (r.l.modify r.stake.delegation.voterPubkey
      fun _ => { r.v with activeStakeLamports := (r.written r.validatorStake.key).lamports }) := by
  have hvote := ValidatorList.find_vote r.found
  obtain ⟨s, hs⟩ := h.entries r.v (ValidatorList.find_mem r.found)
  obtain rfl := hs.status_unique r.active
  have hstakeKey : r.v.stakeKey rt r.pool.key = r.validatorStake.key := by
    rw [ValidatorStakeInfo.stakeKey, hvote, r.stake_key]
  have hkeys := Apart.replaced r.found hapart
  obtain ⟨hrv, hrt, hvt⟩ : r.p.reserveStake ≠ r.validatorStake.key ∧
      r.p.reserveStake ≠ r.v.transientKey rt r.pool.key ∧
      r.validatorStake.key ≠ r.v.transientKey rt r.pool.key := by
    rw [← hstakeKey]
    exact hkeys
  have hvalidator : Held rt keeper (w r.validatorStake.key) := hstakeKey ▸ hs.validator (.inl rfl)
  have hreserve := h.reserve_held
  -- The deposited account is not the pool's; what it holds is merged into the validator stake.
  obtain ⟨hstranger, htaken⟩ := takeOverStake_not_held stakes hsigner hderived r.take
  have hvd : r.validatorStake.key ≠ r.stakeAccount.key := fun heq => hstranger (heq ▸ hvalidator)
  have hrd : r.p.reserveStake ≠ r.stakeAccount.key := fun heq => hstranger (heq ▸ hreserve)
  obtain ⟨-, hmerged, hcall⟩ := stakeMerge_spec r.merge
  have hvalidator₁ : r.taken r.validatorStake.key = w r.validatorStake.key :=
    htaken _ (by simpa using hvd)
  have hgrows : (w r.validatorStake.key).Grows False (r.joined r.validatorStake.key) :=
    hvalidator₁ ▸ stakes.merge_grows hcall
  have hreserve₂ : r.joined r.p.reserveStake = w r.p.reserveStake :=
    (hmerged _ (by simp [hrv, hrd])).trans (htaken _ (by simpa using hrd))
  have hheld₂ := hvalidator.grows hgrows
  -- Minting does not touch stake accounts.
  have hminted := mintShares_frames r.mintTokens
  have htoken : rt.stakeProgramId ∉ [r.tokenProgram.key] := by
    simpa using (laws.token_ne_stake _ (mintShares_token r.mintTokens)).symm
  have hvalidator₃ := hheld₂.of_frames hminted htoken
  have hreserve₃ : (w r.p.reserveStake).OnlyCredited (r.minted r.p.reserveStake) :=
    hreserve₂ ▸ Held.of_frames (hreserve₂.symm ▸ hreserve) hminted htoken
  have hheld₃ := hheld₂.credited hvalidator₃
  have hwhole : (w r.validatorStake.key).lamports + r.deposited ≤ (r.minted r.validatorStake.key).lamports := by
    have hle := hvalidator₃.lamports
    have hdeposited := r.deposited_eq
    omega
  -- What is not delegated goes to the reserve.
  have hsweep : Spares rt keeper [r.validatorStake.key] r.minted r.swept ∧
      Held rt keeper (r.swept r.validatorStake.key) ∧
      (r.swept r.validatorStake.key).data = (r.minted r.validatorStake.key).data ∧
      (r.swept r.validatorStake.key).lamports + r.excess = (r.minted r.validatorStake.key).lamports ∧
      (r.minted r.p.reserveStake).lamports + r.excess ≤ (r.swept r.p.reserveStake).lamports := by
    have hsweep := r.sweep
    rw [r.isReserve] at hsweep
    rcases onlyIf_eq_ok.mp hsweep with ⟨-, hwithdraw⟩ | ⟨hzero, hsame⟩
    · obtain ⟨honly, hcall⟩ := stakeWithdraw_spec hwithdraw hrv.symm
      obtain ⟨hkeeps, hsum, hcredit⟩ := stakes.withdraw_held hcall hheld₃
      have hexcess := r.excess_eq
      have hpos := hvalidator.pos
      obtain ⟨hheld, hdata⟩ := hkeeps (by omega)
      refine ⟨stakeWithdraw_spares stakes hwithdraw hheld₃, hheld, hdata, hsum, ?_⟩
      rw [hcredit]
      exact Nat.le_refl _
    · have hexcess : r.excess = 0 := by omega
      rw [← hsame, hexcess]
      exact ⟨.refl _, hheld₃, rfl, rfl, Nat.le_refl _⟩
  obtain ⟨hspares, hheld, hdata, hleft, hgain⟩ := hsweep
  have hpool := r.isPool.of_frames laws r.frames
  have hlist := r.isList.of_frames laws r.frames
  have hall : Spares rt keeper [r.validatorStake.key] w r.written := by
    have htake : Spares rt keeper [r.stakeAccount.key] w r.taken := .of_onlyAt htaken
    have hjoin := (htake.trans (stakeMerge_spares stakes r.merge)).drop hstranger
    have hmint : OnlyCredits rt keeper r.joined r.minted :=
      .of_token laws hminted (mintShares_token r.mintTokens)
    exact (((hjoin.trans hmint.spares).mono (by simp)).trans hspares).trans
      (writeStakePool_credits laws hpool.owner r.write).spares
  -- The records are written elsewhere.
  have hwritten : ∀ x, Held rt keeper (r.swept x) → r.written x = r.swept x := by
    intro x hx
    refine OnlyAt.of_writeStakePool r.write x fun hin => ?_
    have howner := hx.owner
    rw [List.mem_singleton.mp hin, hpool.owner] at howner
    exact laws.stake_ne howner.symm
  have hvalidator₅ := hwritten _ hheld
  have hreserve₅ : r.written r.p.reserveStake = r.swept r.p.reserveStake := by
    have hmid : Held rt keeper (r.minted r.p.reserveStake) := by
      exact hreserve.credited hreserve₃
    exact hwritten _ (hmid.grows (hspares _ (by simpa using hrv) hmid))
  have hsound : Sound rt keeper steady (cellAt rt r.pool.key r.written
      { r.v with activeStakeLamports := (r.written r.validatorStake.key).lamports }) .active := by
    have hdelegated : ∃ info stake, (r.written r.validatorStake.key).data =
        .stake (.stake info stake) := by
      rw [hvalidator₅, hdata, hvalidator₃.data]
      exact ⟨_, _, r.stake_state'⟩
    have hkept : Held rt keeper (r.written r.validatorStake.key) := by rwa [hvalidator₅]
    have hsound := hs.revalue hkept (Nat.le_refl _) hdelegated fun ht =>
      hall _ (by simpa using hvt.symm) ht
    rw [← hstakeKey] at hsound ⊢
    exact hsound
  obtain ⟨htotal, -, -⟩ := StakePool.recordDeposit_eq_ok.mp r.record
  have hsolvent : Solvent rt r.pool.key keeper steady r.written r.p'
      (r.l.modify r.stake.delegation.voterPubkey
        fun _ => { r.v with activeStakeLamports := (r.written r.validatorStake.key).lamports }) := by
    refine h.replace r.found hapart ?_ ⟨_, hsound⟩ (by rw [htotal]) (fun info hinfo => ?_) ?_
    · show Spares rt keeper [r.p.reserveStake, r.v.stakeKey rt r.pool.key,
        r.v.transientKey rt r.pool.key] w r.written
      rw [hstakeKey]
      exact hall.mono (by simp)
    · exact hinfo.initialized_grows (hall _ (by simpa using hrv) hreserve)
    · have hle : r.v.activeStakeLamports ≤ (w r.validatorStake.key).lamports :=
        hstakeKey ▸ hs.active_le
      have hcredited := hreserve₃.lamports
      have hbooked : r.p'.totalLamports = r.p.totalLamports + r.deposited := by rw [htotal]
      rw [hbooked, hreserve₅]
      show _ + _ + (r.v.activeStakeLamports + r.v.transientStakeLamports) ≤ _ + _ +
        ((r.written r.validatorStake.key).lamports + r.v.transientStakeLamports)
      rw [hvalidator₅]
      omega
  have howner : (r.written r.list.key).owner = rt.programId := by
    rw [writeStakePool_owner r.write]
    exact hlist.owner
  exact hsolvent.spared (writeValidatorList_credits laws howner r.result).spares

/-! ## Depositing SOL -/

/-- A transfer pays in full, and not out of a stake account. -/
theorem solTransfer_reserve (laws : ProgramLaws rt) (system : SystemLaws rt) {source : AccountMeta}
    {reserve : Pubkey} {amount : Nat} (hreserve : (w reserve).owner = rt.stakeProgramId)
    (h : solTransfer rt source reserve amount w = .ok w') :
    (w reserve).lamports + amount ≤ (w' reserve).lamports := by
  simp only [solTransfer, bind_eq_ok, exists_unit] at h
  rcases ite_eq_ok.mp h.2 with ⟨heq, hsame⟩ | ⟨-, hmove⟩
  · simp only [bind_eq_ok, pure_eq_ok] at hsame
    obtain ⟨⟨a, b⟩, hf, -⟩ := hsame
    have howner := (system.transfer _ _ _ _ _ hf).1
    rw [heq, hreserve] at howner
    exact absurd howner laws.stake_ne_system
  · obtain ⟨-, -, hf⟩ := invoke₂_spec hmove
    obtain ⟨-, -, -, hpaid⟩ := system.transfer _ _ _ _ _ hf
    rw [hpaid]

/-- Once the lamports are in the reserve, a SOL deposit only mints and books. -/
theorem DepositSolRun.solvent_paid (laws : ProgramLaws rt) {lamports : Nat} {minimum : Option Nat}
    {isWsolPath : Bool} {w₀ : Ledger}
    (r : DepositSolRun rt sv accounts lamports minimum isWsolPath w w')
    (h : Solvent rt r.pool.key keeper steady w₀ r.p l) (hpaid : OnlyCredits rt keeper w₀ r.paid)
    (hgain : (w₀ r.p.reserveStake).lamports + lamports ≤ (r.paid r.p.reserveStake).lamports) :
    Solvent rt r.pool.key keeper steady w' r.p' l := by
  obtain ⟨htotal, -, -⟩ := StakePool.recordDeposit_eq_ok.mp r.record
  have hmint : OnlyCredits rt keeper r.paid r.minted :=
    .of_token laws (mintShares_frames r.mintTokens) (mintShares_token r.mintTokens)
  have hpool := r.isPool.of_frames laws r.frames
  have hrest := hmint.trans (writeStakePool_credits laws hpool.owner r.result)
  have hheld := h.reserve_held.credited (hpaid _ h.reserve_held)
  have hcredit := (hrest _ hheld).lamports
  refine h.keep (hpaid.trans hrest).spares (by rw [htotal]) ?_
  have hbooked : r.p'.totalLamports = r.p.totalLamports + lamports := by rw [htotal]
  omega

theorem DepositSolRun.solvent (laws : ProgramLaws rt) (system : SystemLaws rt) {lamports : Nat}
    {minimum : Option Nat} (r : DepositSolRun rt sv accounts lamports minimum false w w')
    (h : Solvent rt r.pool.key keeper steady w r.p l) :
    Solvent rt r.pool.key keeper steady w' r.p' l := by
  rcases onlyIf_eq_ok.mp r.pay with ⟨-, hpay⟩ | ⟨hnot, -⟩
  · rw [r.isReserve] at hpay
    exact r.solvent_paid laws h (.of_frames (solTransfer_frames hpay) (by simpa using laws.stake_ne_system))
      (solTransfer_reserve laws system h.reserve_held.owner hpay)
  · exact absurd rfl hnot

/-- A wrapped-SOL deposit: what is unwrapped reaches the reserve before the deposit is booked. -/
theorem DepositWsolRun.solvent (laws : ProgramLaws rt) (system : SystemLaws rt) {lamports : Nat}
    {p : StakePool} (r : DepositWsolRun rt sv accounts lamports w w') (hp : PoolAt rt w r.pool.key p)
    (h : Solvent rt r.pool.key keeper steady w p l) (tokens : Nat) :
    Solvent rt r.pool.key keeper steady w' (p.deposited tokens lamports) l := by
  obtain ⟨inner, hpool, hreserve, -⟩ := r.inner
  obtain rfl : p = inner.p := by
    have hp' := hp.of_frames laws r.frames
    rw [← hpool] at hp'
    exact hp'.unique inner.isPool
  have hkey : r.reserve.key = inner.p.reserveStake :=
    (congrArg AccountMeta.key hreserve).symm.trans inner.isReserve
  have hwrappers : rt.stakeProgramId ∉ wrappers rt := by
    simp only [wrappers, List.mem_cons, List.not_mem_nil, or_false, not_or]
    exact ⟨laws.stake_ne_system, (laws.token_ne_stake _ (Or.inl rfl)).symm⟩
  have hcreate : OnlyCredits rt keeper w r.created :=
    .of_frames (createTransientWsol_frames r.create) hwrappers
  have hunwrap : OnlyCredits rt keeper r.created r.unwrapped :=
    .of_frames (unwrapIntoReserve_frames r.unwrap) hwrappers
  have hcredited := hcreate _ h.reserve_held
  have hheld := h.reserve_held.credited hcredited
  have hgain := unwrapIntoReserve_reserve laws system r.unwrap (by rw [hkey]; exact hheld.owner)
  have hpaid : inner.paid = r.unwrapped := by
    rcases onlyIf_eq_ok.mp inner.pay with ⟨hfalse, -⟩ | ⟨-, hsame⟩
    · cases hfalse
    · exact hsame.symm
  rw [hkey] at hgain
  have hsolvent : Solvent rt inner.pool.key keeper steady w' inner.p' l := by
    refine inner.solvent_paid laws (by rw [hpool]; exact h) ?_ ?_
    · rw [hpaid]
      exact hcreate.trans hunwrap
    · rw [hpaid]
      have hle := hcredited.lamports
      have hge := hgain.2
      omega
  rw [hpool] at hsolvent
  obtain ⟨htotal, -, -⟩ := StakePool.recordDeposit_eq_ok.mp inner.record
  rw [htotal] at hsolvent
  exact hsolvent.keep (.refl _) rfl (Nat.le_refl _)

/-! ## Withdrawing stake -/

theorem authorizeBoth_onlyAt {stake authority newAuthority clock : Pubkey}
    (h : authorizeBoth rt sv stake authority newAuthority clock w = .ok w') : OnlyAt [stake] w w' := by
  simp only [authorizeBoth, bind_eq_ok, exists_unit] at h
  obtain ⟨-, w₁, hstaker, hwithdrawer⟩ := h
  exact (invoke₁_spec hstaker).1.trans (invoke₁_spec hwithdrawer).1

section WithdrawStake

variable {poolTokens : Nat} {minimum : Option Nat}
  (r : WithdrawStakeRun rt sv accounts poolTokens minimum w w')

/-- What a withdrawal makes of the account it splits from, up to the writing of the list. -/
structure WithdrawStakeRun.Split (keeper : Keeper) : Prop where
  spares : Spares rt keeper [r.splitFrom.key] w r.written
  lamports : (w r.splitFrom.key).lamports ≤ (r.written r.splitFrom.key).lamports + r.plan.lamports
  keeps : r.plan.lamports < (w r.splitFrom.key).lamports →
    ∃ s, HeldAs rt keeper (r.written r.splitFrom.key) s r.info ∧ Persists r.state s

theorem WithdrawStakeRun.splitFrom_held (h : Held rt keeper (w r.splitFrom.key)) :
    HeldAs rt keeper (w r.splitFrom.key) r.state r.info := by
  obtain ⟨s, info, hheld⟩ := h
  obtain rfl := Except.ok.inj (hheld.tryStakeState.symm.trans r.state_eq)
  obtain rfl := Option.some.inj (hheld.info_eq.symm.trans r.meta_eq)
  exact hheld

theorem WithdrawStakeRun.split_spec (laws : ProgramLaws rt) (stakes : StakeLaws rt)
    (h : Held rt keeper (w r.splitFrom.key)) : r.Split keeper := by
  have hheld := r.splitFrom_held h
  have htoken : rt.isTokenProgram r.tokenProgram.key := by
    have hburn := r.burn
    simp only [tokenBurn, bind_eq_ok, exists_unit, checkTokenProgram_eq_ok] at hburn
    exact hburn.1
  have hnotStake : rt.stakeProgramId ∉ [r.tokenProgram.key] := by
    simpa using (laws.token_ne_stake _ htoken).symm
  -- The burn can only credit the account.
  have hburnt := tokenBurn_frames r.burn
  have hcredit := h.of_frames hburnt hnotStake
  have hheld₁ : HeldAs rt keeper (r.burnt r.splitFrom.key) r.state r.info :=
    hheld.credited hcredit
  obtain ⟨hne, honly, hcall⟩ := stakeSplit_spec r.splitOff
  obtain ⟨hsource, -⟩ := stakes.split_lamports hcall
  -- Only the account split off is handed over.
  have hhand : OnlyAt [r.splitTo.key] r.split r.handed := by
    have hover := r.handOver
    simp only [stakeAuthorizeSigned, bind_eq_ok, exists_unit] at hover
    obtain ⟨_, -, -, hover⟩ := hover
    exact authorizeBoth_onlyAt hover
  have hhanded : r.handed r.splitFrom.key = r.split r.splitFrom.key := hhand _ (by simpa using hne)
  have hstranger : ¬ Held rt keeper (r.burnt r.splitTo.key) := by
    obtain ⟨_, _, _, _, -, -, -, -, -, huninitialized, -⟩ := stakes.split _ _ _ _ _ _ _ hcall
    exact not_held_of_uninitialized huninitialized
  have hmove : Spares rt keeper [r.splitFrom.key] r.burnt r.handed := by
    have hboth : Spares rt keeper [r.splitTo.key, r.splitFrom.key] r.burnt r.handed :=
      (Spares.mono (.of_onlyAt honly) (by simp)).trans (Spares.mono (.of_onlyAt hhand) (by simp))
    exact hboth.drop hstranger
  have hpool := r.isPool.of_frames laws r.frames
  have hrest : OnlyCredits rt keeper r.handed r.written :=
    (OnlyCredits.of_onlyIf (fun _ hpay => .of_frames (tokenTransfer_frames hpay) hnotStake) r.charge).trans
      (writeStakePool_credits laws hpool.owner r.write)
  refine ⟨?_, ?_, fun hlt => ?_⟩
  · exact ((Spares.of_frames hburnt hnotStake).trans hmove).trans hrest.spares
  · have hle := hcredit.lamports
    by_cases hzero : (r.split r.splitFrom.key).lamports = 0
    · omega
    · obtain ⟨s, hs, -⟩ := stakes.split_keeps hcall hheld₁ hzero
      rw [← hhanded] at hs
      have hle' := (hrest r.splitFrom.key ⟨s, _, hs⟩).lamports
      rw [hhanded] at hle'
      omega
  · have hle := hcredit.lamports
    obtain ⟨s, hs, hsame⟩ := stakes.split_keeps hcall hheld₁ (by omega)
    rw [← hhanded] at hs
    exact ⟨s, hs.credited (hrest r.splitFrom.key ⟨s, _, hs⟩), hsame.persists⟩

/-- What is booked: the pool and, unless the reserve paid, one entry. -/
theorem WithdrawStakeRun.booked : r.p'.totalLamports + r.plan.lamports = r.p.totalLamports ∧
    r.p'.reserveStake = r.p.reserveStake := by
  obtain ⟨hrecord, -, hle⟩ := StakePool.recordWithdrawal_eq_ok.mp r.record
  have hplan : r.plan.stakePool.totalLamports = r.p.totalLamports ∧
      r.plan.stakePool.reserveStake = r.p.reserveStake := by
    have hcases := planWithdrawal_cases rt sv r.plan_eq
    generalize r.plan = plan at hcases
    cases hcases <;> exact ⟨rfl, rfl⟩
  obtain ⟨htotal, hreserve⟩ := hplan
  rw [hrecord]
  refine ⟨?_, hreserve⟩
  show r.plan.stakePool.totalLamports - r.plan.lamports + r.plan.lamports = _
  omega

theorem WithdrawStakeRun.last_credits (laws : ProgramLaws rt) : OnlyCredits rt keeper r.written w' := by
  have hresult := r.result
  unfold writeWithdrawal at hresult
  split at hresult
  · rw [Except.ok.inj hresult]
    exact .refl _
  · simp only [bind_eq_ok, pure_eq_ok] at hresult
    obtain ⟨_, -, hwrite⟩ := hresult
    have howner : (r.written r.list.key).owner = rt.programId := by
      rw [writeStakePool_owner r.write]
      exact (r.isList.of_frames laws r.frames).owner
    exact writeValidatorList_credits laws howner hwrite.symm

/-- What a withdrawal books on the entry that paid for it. -/
theorem recordStakeWithdrawal_cases {v v' : ValidatorStakeInfo} {source : StakeWithdrawSource} {n : Nat}
    (h : recordStakeWithdrawal v source n = .ok v') :
    source = .active ∧ n ≤ v.activeStakeLamports ∧
        v' = { v with activeStakeLamports := v.activeStakeLamports - n } ∨
      source = .transient ∧ n ≤ v.transientStakeLamports ∧
        v' = { v with transientStakeLamports := v.transientStakeLamports - n } ∨
      source = .validatorRemoval ∧ v.activeStakeLamports = n ∧
        v' = { v with activeStakeLamports := 0, status := StakeStatus.readyForRemoval.toPod } := by
  cases source with
  | active =>
    simp only [recordStakeWithdrawal, bind_eq_ok, okOr_eq_ok, checkedSub_eq_some, pure_eq_ok] at h
    obtain ⟨rest, hrest, rfl⟩ := h
    refine .inl ⟨rfl, by omega, ?_⟩
    rw [hrest, Nat.add_sub_cancel]
  | transient =>
    simp only [recordStakeWithdrawal, bind_eq_ok, okOr_eq_ok, checkedSub_eq_some, pure_eq_ok] at h
    obtain ⟨rest, hrest, rfl⟩ := h
    refine .inr (.inl ⟨rfl, by omega, ?_⟩)
    rw [hrest, Nat.add_sub_cancel]
  | validatorRemoval =>
    simp only [recordStakeWithdrawal, bind_eq_ok, okOr_eq_ok, checkedSub_eq_some, failIf_eq_ok,
      exists_unit, pure_eq_ok, ne_eq, Decidable.not_not] at h
    obtain ⟨rest, hrest, rfl, rfl⟩ := h
    exact .inr (.inr ⟨rfl, by omega, rfl⟩)

theorem recordStakeWithdrawal_recorded (rt : Runtime) {v v' : ValidatorStakeInfo} {source : StakeWithdrawSource}
    {n : Nat} (h : recordStakeWithdrawal v source n = .ok v') :
    v.recorded = v'.recorded + n ∧ (∀ k, v'.stakeKey rt k = v.stakeKey rt k) ∧
      ∀ k, v'.transientKey rt k = v.transientKey rt k := by
  obtain ⟨-, hle, rfl⟩ | ⟨-, hle, rfl⟩ | ⟨-, heq, rfl⟩ := recordStakeWithdrawal_cases h
  all_goals
    refine ⟨?_, fun _ => rfl, fun _ => rfl⟩
    simp only [ValidatorStakeInfo.recorded]
    omega

/-- An active entry with less in transit. -/
theorem Sound.lessTransient {v : ValidatorStakeInfo} {validator transient validator' transient' : Account}
    {n : Nat} (h : Sound rt keeper steady ⟨v, validator, transient⟩ .active)
    (hheld : Held rt keeper transient') (hle : n ≤ transient'.lamports)
    (hgrows : Held rt keeper validator → validator.Grows False validator') :
    Sound rt keeper steady ⟨{ v with transientStakeLamports := n }, validator', transient'⟩ .active := by
  have hvalidator := h.validator (.inl rfl)
  refine {
    status := h.status
    agrees := trivial
    validator := fun _ => hvalidator.grows (hgrows hvalidator)
    active_le := Nat.le_trans h.active_le (hgrows hvalidator).lamports
    transient := fun _ => hheld
    transient_le := hle
    delegated := fun hsteady hactive => ?_
    stopped := fun _ hne => absurd rfl hne }
  obtain ⟨info, stake, hdata⟩ := h.delegated hsteady hactive
  obtain ⟨s', hdata', hsame | ⟨hfalse, -⟩⟩ := (hgrows hvalidator).stake _ info hdata rfl
  · cases hsame with
    | stake => exact ⟨info, _, hdata'⟩
  · exact hfalse.elim

/-- The entry of a validator all of whose stake has been withdrawn. -/
theorem Sound.emptied {v : ValidatorStakeInfo} (hv : v.transientStakeLamports = 0)
    (validator transient : Account) : Sound rt keeper steady ⟨{ v with
      activeStakeLamports := 0, status := StakeStatus.readyForRemoval.toPod }, validator, transient⟩
      .readyForRemoval where
  status := rfl
  agrees := ⟨rfl, hv⟩
  validator h := by rcases h with h | h | h <;> cases h
  active_le := Nat.zero_le _
  transient h := absurd h (by simp [hv])
  transient_le := by simp [hv]
  delegated _ h := by cases h
  stopped _ _ h := absurd h (by simp [hv])

/-- The account that paid is one of the entry's own, and the entry fits what is left of it. -/
theorem WithdrawStakeRun.entry_sound (laws : ProgramLaws rt) (stakes : StakeLaws rt)
    {v v' : ValidatorStakeInfo} {source : StakeWithdrawSource}
    (hitem : r.plan.item = some (v, source))
    (hbook : recordStakeWithdrawal v source r.plan.lamports = .ok v')
    (hne : v.stakeKey rt r.pool.key ≠ v.transientKey rt r.pool.key)
    (h : Sound rt keeper steady (cellAt rt r.pool.key w v) .active) :
    (∃ s, Sound rt keeper steady (cellAt rt r.pool.key r.written v') s) ∧
      (r.splitFrom.key = v.stakeKey rt r.pool.key ∨ r.splitFrom.key = v.transientKey rt r.pool.key) ∧
      Held rt keeper (w r.splitFrom.key) := by
  have hpos := (quoteWithdrawal_eq_ok r.quote_eq).2.2.2
  have hcases := planWithdrawal_cases rt sv r.plan_eq
  have hvalidator : Held rt keeper (w (v.stakeKey rt r.pool.key)) := h.validator (.inl rfl)
  generalize hplan : r.plan = plan at hcases hitem hbook
  cases hcases with
  | reserve isReserve enough => cases hitem
  | active u d _ delegation found status key enough =>
    cases hitem
    have hkey : r.splitFrom.key = v.stakeKey rt r.pool.key := by
      rw [ValidatorStakeInfo.stakeKey, ValidatorList.find_vote found, key]
    have hheld : Held rt keeper (w r.splitFrom.key) := hkey ▸ hvalidator
    obtain ⟨hspares, hlamports, hkeeps⟩ := r.split_spec laws stakes hheld
    rw [hplan] at hlamports hkeeps
    dsimp only at hlamports hkeeps
    have hmin := minimumStakeLamports_pos r.info sv.stakeMinimumDelegation
    obtain ⟨s, hs, hpersists⟩ := hkeeps (by omega)
    -- The lamports left the validator stake, and the record went down by as many.
    obtain ⟨-, hle, rfl⟩ | ⟨hsource, -⟩ | ⟨hsource, -⟩ := recordStakeWithdrawal_cases hbook
    · refine ⟨⟨.active, ?_⟩, .inl hkey, hheld⟩
      have hactive : v.activeStakeLamports ≤ (w r.splitFrom.key).lamports := hkey ▸ h.active_le
      have hdelegated : ∃ info stake, (r.written r.splitFrom.key).data = .stake (.stake info stake) := by
        rw [hs.data]
        generalize r.state = state at hpersists delegation
        cases hpersists with
        | initialized _ => cases delegation
        | stake info _ _ _ => exact ⟨info, _, rfl⟩
      have hleft : v.activeStakeLamports - r.quote.lamports ≤ (r.written r.splitFrom.key).lamports := by
        omega
      have hsound := h.revalue ⟨s, _, hs⟩ hleft hdelegated
        (hspares _ (by simpa [hkey] using hne.symm))
      rw [hkey] at hsound
      exact hsound
    · cases hsource
    · cases hsource
  | transient u d _ delegation found status key enough =>
    cases hitem
    have hkey : r.splitFrom.key = v.transientKey rt r.pool.key := by
      rw [ValidatorStakeInfo.transientKey, ValidatorList.find_vote found, key]
    obtain ⟨hsource, -⟩ | ⟨-, hle, rfl⟩ | ⟨hsource, -⟩ := recordStakeWithdrawal_cases hbook
    · cases hsource
    · -- A withdrawal of at least a lamport means there was a transient stake.
      have hin : 0 < v.transientStakeLamports := Nat.lt_of_lt_of_le hpos hle
      have hheld : Held rt keeper (w r.splitFrom.key) := hkey ▸ h.transient hin
      obtain ⟨hspares, hlamports, hkeeps⟩ := r.split_spec laws stakes hheld
      rw [hplan] at hlamports hkeeps
      dsimp only at hlamports hkeeps
      have hmin := minimumStakeLamports_pos r.info sv.stakeMinimumDelegation
      obtain ⟨s, hs, -⟩ := hkeeps (by omega)
      refine ⟨⟨.active, ?_⟩, .inr hkey, hheld⟩
      have htransient : v.transientStakeLamports ≤ (w r.splitFrom.key).lamports := hkey ▸ h.transient_le
      have hleft : v.transientStakeLamports - r.quote.lamports ≤
          (r.written r.splitFrom.key).lamports := by
        omega
      have hsound := h.lessTransient ⟨s, _, hs⟩ hleft (hspares _ (by simpa [hkey] using hne))
      rw [hkey] at hsound
      exact hsound
    · cases hsource
  | removal u d _ delegation found status key noTransient whole =>
    cases hitem
    have hkey : r.splitFrom.key = v.stakeKey rt r.pool.key := by
      rw [ValidatorStakeInfo.stakeKey, ValidatorList.find_vote found, key]
    have hheld : Held rt keeper (w r.splitFrom.key) := hkey ▸ hvalidator
    obtain ⟨hsource, -⟩ | ⟨hsource, -⟩ | ⟨-, -, rfl⟩ := recordStakeWithdrawal_cases hbook
    · cases hsource
    · cases hsource
    · -- The whole account is gone, and the entry waits for its removal.
      exact ⟨⟨_, Sound.emptied noTransient _ _⟩, .inl hkey, hheld⟩

theorem WithdrawStakeRun.solvent (laws : ProgramLaws rt) (stakes : StakeLaws rt)
    (hbooks : r.plan.Books r.l l') (hapart : Apart rt r.pool.key r.p.reserveStake l')
    (h : Solvent rt r.pool.key keeper steady w r.p r.l) :
    Solvent rt r.pool.key keeper steady w' r.p' l' := by
  refine Solvent.spared ?_ (r.last_credits laws).spares
  obtain ⟨htotal, hreserve⟩ := r.booked
  have hcases := planWithdrawal_cases rt sv r.plan_eq
  rcases hbooks with ⟨hitem, rfl⟩ | ⟨v, source, v', hitem, hbook, rfl⟩
  · generalize hplan : r.plan = plan at hcases hitem htotal
    cases hcases with
    | reserve isReserve enough =>
      -- From the reserve: total and reserve go down by the same lamports.
      have hheld : Held rt keeper (w r.splitFrom.key) := isReserve ▸ h.reserve_held
      have hsplit := r.split_spec laws stakes hheld
      obtain ⟨hspares, hlamports, hkeeps⟩ := hsplit
      rw [hplan, isReserve] at hlamports hkeeps
      rw [isReserve] at hspares enough
      dsimp only at hlamports hkeeps htotal
      have hrent := minimumReserveLamports_pos (r.splitFrom_held hheld).rent
      refine h.pay hapart hspares hreserve (fun info hinfo => ?_) (by omega)
      obtain ⟨s, hs, hpersists⟩ := hkeeps (by omega)
      have hdata := (r.splitFrom_held hheld).unique (by rw [isReserve]; exact hinfo.data) hinfo.info_eq
      obtain ⟨hstate, rfl⟩ := hdata
      rw [← hstate] at hpersists
      cases hpersists
      exact hs
    | active _ _ _ _ _ _ _ _ | transient _ _ _ _ _ _ _ _ | removal _ _ _ _ _ _ _ _ _ => cases hitem
  · -- From an entry: its record goes down with its account, the reserve is not touched.
    have hfound : r.l.find v.voteAccountAddress = some v ∧ v.status = StakeStatus.active.toPod := by
      generalize r.plan = plan at hcases hitem
      cases hcases with
      | reserve _ _ => cases hitem
      | active _ _ _ _ found status _ _ | transient _ _ _ _ found status _ _
        | removal _ _ _ _ found status _ _ _ =>
        cases hitem
        exact ⟨by rw [ValidatorList.find_vote found]; exact found, status⟩
    obtain ⟨hfound, hactive⟩ := hfound
    obtain ⟨s, hs⟩ := h.entries v (ValidatorList.find_mem hfound)
    obtain rfl := hs.status_unique hactive
    obtain ⟨hrecorded, hstake, htransient⟩ := recordStakeWithdrawal_recorded rt hbook
    obtain ⟨hrv, hrt, hvt⟩ := Apart.replaced hfound hapart
    rw [hstake] at hrv hvt
    rw [htransient] at hrt hvt
    obtain ⟨hsound, hkey, hheld⟩ := r.entry_sound laws stakes hitem hbook hvt hs
    have hsplit := r.split_spec laws stakes hheld
    -- The source is one of the entry's two accounts, which are apart from the reserve.
    have hkept : r.p.reserveStake ∉ [r.splitFrom.key] := by
      rcases hkey with hkey | hkey
      · rw [hkey]
        simpa using hrv
      · rw [hkey]
        simpa using hrt
    have hgrows := hsplit.spares _ hkept h.reserve_held
    refine h.replace hfound hapart (hsplit.spares.mono ?_) hsound hreserve
      (fun info hinfo => hinfo.initialized_grows hgrows) ?_
    · rw [hstake, htransient]
      rcases hkey with hkey | hkey <;> simp [hkey]
    · have hcredit := hgrows.lamports
      omega

end WithdrawStake

/-! ## Withdrawing SOL -/

/-- A withdrawal that leaves something behind, possibly from an account to itself. -/
theorem stakeWithdraw_leaves (stakes : StakeLaws rt) {pool source destination clock history : Pubkey}
    {authority : AccountMeta} {bump : UInt8} {n : Nat}
    (h : stakeWithdraw rt sv pool source authority bump destination clock history n w = .ok w')
    (hheld : Held rt keeper (w source)) (hless : n < (w source).lamports) :
    Held rt keeper (w' source) ∧ (w' source).data = (w source).data ∧
      (w source).lamports ≤ (w' source).lamports + n := by
  by_cases hne : source = destination
  · subst hne
    rw [(stakeWithdraw_self h).1]
    exact ⟨hheld, rfl, Nat.le_add_right _ _⟩
  · obtain ⟨hkeeps, hsum, -⟩ := stakes.withdraw_held (stakeWithdraw_spec h hne).2 hheld
    obtain ⟨hleft, hdata⟩ := hkeeps (by omega)
    exact ⟨hleft, hdata, hsum.ge⟩

theorem WithdrawSolRun.solvent (laws : ProgramLaws rt) (stakes : StakeLaws rt) {poolTokens : Nat}
    {minimum : Option Nat} {isWsolPath : Bool}
    (r : WithdrawSolRun rt sv accounts poolTokens minimum isWsolPath w w')
    (htoken : rt.isTokenProgram r.tokenProgram.key) (hapart : Apart rt r.pool.key r.p.reserveStake l)
    (h : Solvent rt r.pool.key keeper steady w r.p l) :
    Solvent rt r.pool.key keeper steady w' r.p' l := by
  have hburn : OnlyCredits rt keeper w r.burnt := .of_token laws (burnForSol_frames r.burn) htoken
  have hcredited := hburn _ h.reserve_held
  have hheld := h.reserve_held.credited hcredited
  have hpay := r.pay
  have hrent := r.reserve_enough
  rw [r.isReserve] at hpay hrent
  have hpool := r.isPool.of_frames laws (r.frames htoken)
  have hrest : OnlyCredits rt keeper r.paid w' := writeStakePool_credits laws hpool.owner r.result
  have hmin : 0 < minimumReserveLamports r.info := by
    obtain ⟨info, hinfo, -⟩ := h.reserve
    have hdata := r.reserve_data
    rw [r.isReserve] at hdata
    obtain ⟨-, rfl⟩ := hinfo.unique hdata rfl
    exact minimumReserveLamports_pos hinfo.rent
  have hle := hcredited.lamports
  obtain ⟨hpaid, hdata, hsum⟩ := stakeWithdraw_leaves stakes hpay hheld (by omega)
  have hlast := hrest _ hpaid
  have hall : Spares rt keeper [r.p.reserveStake] w w' :=
    (hburn.spares.trans (stakeWithdraw_spares stakes hpay hheld)).trans hrest.spares
  obtain ⟨hrecord, -, htotal⟩ := StakePool.recordWithdrawal_eq_ok.mp r.record
  refine h.pay hapart hall (by rw [hrecord]) (fun info hinfo => ?_) ?_
  · have hinfo₁ := hinfo.credited hcredited
    obtain ⟨s, info', hpaid⟩ := hpaid
    obtain ⟨rfl, rfl⟩ := hpaid.unique (hdata.trans hinfo₁.data) rfl
    exact hpaid.credited hlast
  · have hbooked : r.p'.totalLamports = r.p.totalLamports - r.quote.lamports := by rw [hrecord]
    have hcredit := hlast.lamports
    omega

/-- A wrapped-SOL withdrawal is a SOL withdrawal between two calls that spare stake accounts. -/
theorem WithdrawWsolRun.solvent (laws : ProgramLaws rt) (stakes : StakeLaws rt) {poolTokens : Nat}
    {p p' : StakePool} (r : WithdrawWsolRun rt sv accounts poolTokens w w')
    (hp : PoolAt rt w r.pool.key p) (hp' : PoolAt rt w' r.pool.key p')
    (hapart : Apart rt r.pool.key p.reserveStake l) (h : Solvent rt r.pool.key keeper steady w p l) :
    Solvent rt r.pool.key keeper steady w' p' l := by
  have htoken : rt.isTokenProgram r.tokenProgram.key := Or.inl r.token_key
  have hcreate : OnlyCredits rt keeper w r.created := by
    refine .of_frames (Frames.of_invokeMove r.create) ?_
    simp only [List.mem_cons, List.not_mem_nil, or_false, not_or]
    exact ⟨laws.stake_ne_associated, laws.stake_ne_system, (laws.token_ne_stake _ htoken).symm⟩
  have hsync : OnlyCredits rt keeper r.withdrawn w' := .of_token laws (Frames.of_invoke₁ r.sync) htoken
  have hp₁ := hp.of_frames laws r.create_frames
  have h₁ := h.spared hcreate.spares
  obtain ⟨inner, hpool, -, -, -, -, -, -, hprogram⟩ := r.inner
  rw [← hpool] at hp₁ h₁ hapart hp' ⊢
  obtain rfl := hp₁.unique inner.isPool
  have hsolvent := inner.solvent laws stakes (by rw [hprogram]; exact htoken) hapart h₁
  have hwritten : PoolAt rt r.withdrawn inner.pool.key inner.p' := by
    have hmid := hp₁.of_frames laws (inner.frames (by rw [hprogram]; exact htoken))
    have hvalid : inner.p'.isValid := by
      rw [(StakePool.recordWithdrawal_eq_ok.mp inner.record).1]
      exact hp₁.valid
    exact (OwnEffect.of_writeStakePool hmid inner.result hvalid).after
  obtain rfl := hp'.unique (hwritten.of_frames laws r.sync_frames)
  exact hsolvent.spared hsync.spares

end StakePoolFogo
