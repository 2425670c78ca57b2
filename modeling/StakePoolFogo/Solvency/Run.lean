import StakePoolFogo.Solvency.Crank
import StakePoolFogo.Solvency.Users
import StakePoolFogo.Trace

/-!
# Runs of a pool

A pool from its foundation on: instructions on it, and whatever else happens on the chain, which may
credit the stake accounts the pool holds, deactivate them or undo their stake, but not take them
away.  In every state of such a run the pool is solvent.
-/

open StakePoolFogo.Checked StakePoolFogo.Outcome

namespace StakePoolFogo

/-- What makes a stake account the pool's: its withdraw authority, and no lockup. -/
def poolKeeper (rt : Runtime) (k : Pubkey) : Keeper :=
  ⟨(findWithdrawAuthorityProgramAddress rt k).1, default⟩

/-- The keeper of the pool at `k` is the one its record names. -/
structure KeptBy (rt : Runtime) (k : Pubkey) (keeper : Keeper) (p : StakePool) : Prop where
  authority : poolAuthority rt k authorityWithdraw p.stakeWithdrawBumpSeed = .ok keeper.authority
  lockup : p.lockup = keeper.lockup

/-- What the chain promises at every moment. -/
structure Orderly (rt : Runtime) (k : Pubkey) (s : World) : Prop where
  epoch : s.sysvars.epoch < epochMax
  rent : 0 < s.sysvars.minimumBalance stakeSpace
  apart : ∀ p l, PoolAt rt s.ledger k p → ListAt rt s.ledger p.validatorList l →
    Apart rt k p.reserveStake l
  list_apart : ∀ p l, PoolAt rt s.ledger k p → ListAt rt s.ledger p.validatorList l →
    ∀ v ∈ l.validators, v.stakeKey rt k ≠ p.validatorList ∧ v.transientKey rt k ≠ p.validatorList

/-- Nobody else takes away what the pool holds.  In a `steady` world no active validator stake is
undone. -/
structure Respects (rt : Runtime) (k : Pubkey) (steady : Prop) (s s' : World) : Prop where
  held : ∀ j, Held rt (poolKeeper rt k) (s.ledger j) → (s.ledger j).Grows True (s'.ledger j)
  active : steady → ∀ p l v, PoolAt rt s.ledger k p → ListAt rt s.ledger p.validatorList l →
    v ∈ l.validators → v.status = StakeStatus.active.toPod →
    Held rt (poolKeeper rt k) (s.ledger (v.stakeKey rt k)) →
    (s.ledger (v.stakeKey rt k)).Grows False (s'.ledger (v.stakeKey rt k))

/-- One step of the pool at `k`: an instruction on it, not signed by its withdraw authority, which
has no key, or anything else. -/
inductive PoolStep (rt : Runtime) (k : Pubkey) (steady : Prop) (s s' : World) : Prop where
  | call {accounts : List AccountMeta} {input : List UInt8} {a : AccountMeta}
      (happens : Happens rt s s' (.call accounts input)) (pool_at : accounts[0]? = some a)
      (pool : a.key = k)
      (unsigned : ∀ b ∈ accounts, b.key = (poolKeeper rt k).authority → b.isSigner = false)
  | outside {e : Event} (happens : Happens rt s s' e) (elsewhere : ∀ P, ¬ e.Calls k P)
      (respects : Respects rt k steady s s')

/-- The states of the pool at `k`, from a successful `Initialize` on. -/
inductive PoolRun (rt : Runtime) (k : Pubkey) (steady : Prop) : World → Prop where
  | founded {s s' : World} {accounts : List AccountMeta} {a : AccountMeta} {input : List UInt8}
      {fee withdrawalFee depositFee : Fee} {referralFee : UInt8} {maxValidators : UInt32}
      (before : Reachable rt s) (happens : Happens rt s s' (.call accounts input))
      (decoded : StakePoolInstruction.tryFromSlice input =
        .ok (.initializePool fee withdrawalFee depositFee referralFee maxValidators))
      (pool_at : accounts[0]? = some a) (pool : a.key = k) (orderly : Orderly rt k s')
      -- The stake program made the reserve rent exempt.
      (rent : ∀ p info, PoolAt rt s'.ledger k p →
        (s'.ledger p.reserveStake).data = .stake (.initialized info) →
        0 < info.rentExemptReserve ∧ info.rentExemptReserve < 2 ^ 64) : PoolRun rt k steady s'
  | step {s s' : World} (before : PoolRun rt k steady s) (step : PoolStep rt k steady s s')
      (orderly : Orderly rt k s') : PoolRun rt k steady s'

variable {rt : Runtime} {sv : Sysvars} {k : Pubkey} {keeper : Keeper} {steady : Prop} {w w' : Ledger}
  {s s' : World} {accounts : List AccountMeta} {p p' : StakePool} {l l' : ValidatorList}

theorem KeptBy.congr (h : KeptBy rt k keeper p) (hsame : p.SameIdentity p') : KeptBy rt k keeper p' :=
  ⟨by rw [hsame.stakeWithdrawBumpSeed]; exact h.authority, hsame.lockup.trans h.lockup⟩

theorem KeptBy.keeper_eq {authority : Pubkey} (h : KeptBy rt k keeper p)
    (hauthority : poolAuthority rt k authorityWithdraw p.stakeWithdrawBumpSeed = .ok authority) :
    keeper = ⟨authority, p.lockup⟩ := by
  obtain ⟨key, lockup⟩ := keeper
  rw [← Except.ok.inj (h.authority.symm.trans hauthority), h.lockup]

/-! ## Instructions -/

/-- Writing to the pool record what does not concern its stake. -/
theorem Solvent.rewritten (laws : ProgramLaws rt) (h : Solvent rt k keeper steady w p l)
    (hp : PoolAt rt w k p) (hw : writeStakePool w k p' = .ok w')
    (hreserve : p'.reserveStake = p.reserveStake) (htotal : p'.totalLamports = p.totalLamports) :
    Solvent rt k keeper steady w' p' l := by
  have hcredits : OnlyCredits rt keeper w w' := writeStakePool_credits laws hp.owner hw
  have hcredited := hcredits _ h.reserve_held
  refine h.keep hcredits.spares hreserve ?_
  rw [htotal]
  exact Nat.add_le_add_left hcredited.lamports _

/-- Writing token metadata. -/
theorem Solvent.scribed (laws : ProgramLaws rt) (h : Solvent rt k keeper steady w p l)
    (hf : Frames (scribes rt) w w') : Solvent rt k keeper steady w' p l := by
  refine h.spared (.of_frames hf ?_)
  simp only [scribes, List.mem_cons, List.not_mem_nil, or_false, not_or]
  exact ⟨laws.stake_ne_metadata, laws.stake_ne_system⟩

theorem CleanupRun.credits (laws : ProgramLaws rt) (r : CleanupRun rt accounts w w') :
    OnlyCredits rt keeper w w' := by
  have hlist : OnlyCredits rt keeper w (writeValidatorList w r.p.validatorList r.l.cleaned) :=
    writeValidatorList_credits laws r.isList.owner rfl
  refine hlist.trans (.of_onlyIf (fun u hw => ?_) r.result)
  refine writeStakePool_credits laws ?_ hw
  rw [writeValidatorList_owner]
  exact r.isPool.owner

theorem StakePool.updateFee_total {fee : FeeType} (h : p.updateFee fee = .ok p') :
    p'.totalLamports = p.totalLamports := by
  cases fee with
  | stakeWithdrawal | solWithdrawal =>
    simp only [updateFee, bind_eq_ok, exists_unit, pure_eq_ok] at h
    obtain ⟨-, rfl⟩ := h
    rfl
  | _ =>
    cases h
    rfl

section Handlers

variable {a : AccountMeta} (laws : ProgramLaws rt) (system : SystemLaws rt) (stakes : StakeLaws rt)
  (ha : accounts[0]? = some a) (hp : PoolAt rt w a.key p) (hl : ListAt rt w p.validatorList l)
  (hkept : KeptBy rt a.key keeper p)
  (hunsigned : ∀ b ∈ accounts, b.key = keeper.authority → b.isSigner = false)
  (hderived : (findDepositAuthorityProgramAddress rt a.key).1 ≠ keeper.authority)
  (hepoch : sv.epoch ≠ epochMax) (hrent : 0 < sv.minimumBalance stakeSpace)
  (hapart : Apart rt a.key p.reserveStake l)

include laws system stakes ha hp hl hkept hunsigned hderived hepoch hrent hapart

/-- Every instruction keeps the pool solvent. -/
theorem Handled.solvent (h : Solvent rt a.key keeper steady w p l) (hrun : Handled rt sv accounts w w')
    (hp' : PoolAt rt w' a.key p') (hl' : ListAt rt w' p.validatorList l')
    (hapart' : Apart rt a.key p.reserveStake l') : Solvent rt a.key keeper steady w' p' l' := by
  cases hrun with
  | initializePool r =>
    obtain rfl := Option.some.inj (ha.symm.trans r.pool_at)
    exact absurd hp r.not_pool
  | addValidator r =>
    have he := r.effect laws ha hp hl
    obtain rfl := hp'.unique he.own.after
    obtain rfl := hl'.unique he.list
    obtain rfl := Option.some.inj (ha.symm.trans r.pool_at)
    obtain rfl := hp.unique r.isPool
    obtain rfl := hl.unique (by rw [← r.list_key]; exact r.isList)
    exact r.solvent laws system stakes hapart h
  | removeValidator r =>
    have he := r.effect laws ha hp hl
    obtain rfl := hp'.unique he.own.after
    obtain rfl := hl'.unique he.list
    obtain rfl := Option.some.inj (ha.symm.trans r.pool_at)
    obtain rfl := hp.unique r.isPool
    obtain rfl := hl.unique (by rw [← r.list_key]; exact r.isList)
    exact r.solvent laws stakes (hkept.keeper_eq r.isAuthority) hepoch hapart' h
  | decrease r =>
    have he := r.effect laws ha hp hl
    obtain rfl := hp'.unique he.own.after
    obtain rfl := hl'.unique he.list
    obtain rfl := Option.some.inj (ha.symm.trans r.pool_at)
    obtain rfl := hp.unique r.isPool
    obtain rfl := hl.unique (by rw [← r.list_key]; exact r.isList)
    exact r.solvent laws system stakes hapart' h
  | increase r =>
    have he := r.effect laws ha hp hl
    obtain rfl := hp'.unique he.own.after
    obtain rfl := hl'.unique he.list
    obtain rfl := Option.some.inj (ha.symm.trans r.pool_at)
    obtain rfl := hp.unique r.isPool
    obtain rfl := hl.unique (by rw [← r.list_key]; exact r.isList)
    exact r.solvent laws system stakes hrent hapart' h
  | @setPreferred t vote r =>
    have he : BookEffect rt sv accounts w w' a.key p l _ l := r.effect laws ha hp hl
    obtain rfl := hp'.unique he.own.after
    obtain rfl := hl'.unique he.list
    obtain rfl := Option.some.inj (ha.symm.trans r.pool_at)
    obtain rfl := hp.unique r.isPool
    exact h.rewritten laws hp r.result (by cases t <;> rfl) (by cases t <;> rfl)
  | updateList r =>
    have he := r.effect laws ha hp hl
    obtain rfl := hp'.unique he.own.after
    obtain rfl := hl'.unique he.list
    obtain rfl := Option.some.inj (ha.symm.trans r.pool_at)
    obtain rfl := hp.unique r.isPool
    obtain rfl := hl.unique (by rw [← r.list_key]; exact r.isList)
    exact r.solvent laws stakes (hkept.keeper_eq r.isAuthority) hapart h
  | updatePool r =>
    have he := r.effect laws ha hp hl
    obtain rfl := hp'.unique he.own.after
    obtain rfl := hl'.unique he.list
    obtain rfl := Option.some.inj (ha.symm.trans r.pool_at)
    obtain rfl := hp.unique r.isPool
    obtain rfl := hl.unique (by rw [← r.list_key]; exact r.isList)
    exact r.solvent laws h
  | cleanup r =>
    obtain ⟨p₁, hp₁, he⟩ : ∃ p₁, (p₁ = p ∨ p₁ = p.keepListed l.cleaned) ∧
        BookEffect rt sv accounts w w' a.key p l p₁ l.cleaned := r.effect laws ha hp hl
    obtain rfl := hp'.unique he.own.after
    obtain rfl := hl'.unique he.list
    have hcredits : OnlyCredits rt keeper w w' := r.credits laws
    have hcredited := hcredits _ h.reserve_held
    have hsame : p'.reserveStake = p.reserveStake ∧ p'.totalLamports = p.totalLamports := by
      rcases hp₁ with rfl | rfl <;> exact ⟨rfl, rfl⟩
    refine h.cleaned.keep hcredits.spares hsame.1 ?_
    rw [hsame.2]
    exact Nat.add_le_add_left hcredited.lamports _
  | depositStake r =>
    have he := r.effect laws ha hp hl
    obtain rfl := hp'.unique he.own.after
    obtain rfl := hl'.unique he.list
    obtain rfl := Option.some.inj (ha.symm.trans r.pool_at)
    obtain rfl := hp.unique r.isPool
    obtain rfl := hl.unique (by rw [← r.list_key]; exact r.isList)
    have hsolvent := r.solvent laws stakes
      (hunsigned _ (List.mem_of_getElem? r.depositAuthority_at)) hderived hapart' h
    rw [(StakePool.recordDeposit_eq_ok.mp r.record).1] at hsolvent
    exact hsolvent
  | depositSol r =>
    have he := r.effect laws ha hp hl (Option.some.inj (r.pool_at.symm.trans ha))
    obtain rfl := hp'.unique he.own.after
    obtain rfl := hl'.unique he.list
    obtain rfl := Option.some.inj (ha.symm.trans r.pool_at)
    obtain rfl := hp.unique r.isPool
    have hsolvent := r.solvent laws system h
    rw [(StakePool.recordDeposit_eq_ok.mp r.record).1] at hsolvent
    exact hsolvent
  | depositWsol r =>
    obtain ⟨tokens, he⟩ := r.effect laws ha hp hl
    obtain rfl := hp'.unique he.own.after
    obtain rfl := hl'.unique he.list
    obtain rfl := Option.some.inj (ha.symm.trans r.pool_at)
    exact r.solvent laws system hp h tokens
  | withdrawStake r =>
    obtain ⟨l₁, hbooks, he⟩ := r.effect laws ha hp hl
    obtain rfl := hp'.unique he.own.after
    obtain rfl := hl'.unique he.list
    obtain rfl := Option.some.inj (ha.symm.trans r.pool_at)
    obtain rfl := hp.unique r.isPool
    obtain rfl := hl.unique (by rw [← r.list_key]; exact r.isList)
    exact r.solvent laws stakes hbooks hapart' h
  | withdrawSol r =>
    have he := r.effect laws ha hp hl r.isToken (Option.some.inj (r.pool_at.symm.trans ha))
    obtain rfl := hp'.unique he.own.after
    obtain rfl := hl'.unique he.list
    obtain rfl := Option.some.inj (ha.symm.trans r.pool_at)
    obtain rfl := hp.unique r.isPool
    have hsolvent := r.solvent laws stakes r.isToken hapart h
    rw [(StakePool.recordWithdrawal_eq_ok.mp r.record).1] at hsolvent
    exact hsolvent
  | withdrawWsol r =>
    obtain ⟨_, _, he⟩ := r.effect laws ha hp hl
    obtain rfl := hl'.unique he.list
    obtain rfl := Option.some.inj (ha.symm.trans r.pool_at)
    exact r.solvent laws stakes hp hp' hapart h
  | setManager r =>
    have he : BookEffect rt sv accounts w w' a.key p l _ l := r.effect laws ha hp hl
    obtain rfl := hp'.unique he.own.after
    obtain rfl := hl'.unique he.list
    obtain rfl := Option.some.inj (ha.symm.trans r.pool_at)
    obtain rfl := hp.unique r.isPool
    exact h.rewritten laws hp r.result rfl rfl
  | setFee r =>
    have he : BookEffect rt sv accounts w w' a.key p l _ l := r.effect laws ha hp hl
    obtain rfl := hp'.unique he.own.after
    obtain rfl := hl'.unique he.list
    obtain rfl := Option.some.inj (ha.symm.trans r.pool_at)
    obtain rfl := hp.unique r.isPool
    obtain ⟨-, hreserve, -⟩ := StakePool.updateFee_kept r.update
    exact h.rewritten laws hp r.result hreserve (StakePool.updateFee_total r.update)
  | setStaker r =>
    have he : BookEffect rt sv accounts w w' a.key p l _ l := r.effect laws ha hp hl
    obtain rfl := hp'.unique he.own.after
    obtain rfl := hl'.unique he.list
    obtain rfl := Option.some.inj (ha.symm.trans r.pool_at)
    obtain rfl := hp.unique r.isPool
    exact h.rewritten laws hp r.result rfl rfl
  | @setFunding t r =>
    have he : BookEffect rt sv accounts w w' a.key p l _ l := r.effect laws ha hp hl
    obtain rfl := hp'.unique he.own.after
    obtain rfl := hl'.unique he.list
    obtain rfl := Option.some.inj (ha.symm.trans r.pool_at)
    obtain rfl := hp.unique r.isPool
    exact h.rewritten laws hp r.result (by cases t <;> rfl) (by cases t <;> rfl)
  | createMetadata hscribe =>
    have hframes := (processCreatePoolTokenMetadata_spec hscribe).2
    have hframes' := hframes.mono scribes_subset_outsiders
    obtain rfl := hp'.unique (hp.of_frames laws hframes')
    obtain rfl := hl'.unique (hl.of_frames laws hframes')
    exact h.scribed laws hframes
  | updateMetadata hscribe =>
    have hframes := (processUpdatePoolTokenMetadata_spec hscribe).2
    have hframes' := hframes.mono scribes_subset_outsiders
    obtain rfl := hp'.unique (hp.of_frames laws hframes')
    obtain rfl := hl'.unique (hl.of_frames laws hframes')
    exact h.scribed laws hframes

end Handlers

/-! ## Runs -/

theorem PoolStep.happens (h : PoolStep rt k steady s s') : ∃ e, Happens rt s s' e := by
  cases h with
  | call happens _ _ _ => exact ⟨_, happens⟩
  | outside happens _ _ => exact ⟨_, happens⟩

theorem PoolRun.reachable (h : PoolRun rt k steady s) : Reachable rt s := by
  induction h with
  | founded before happens _ _ _ _ _ =>
    obtain ⟨s₀, hs₀, hrun⟩ := before
    exact ⟨s₀, hs₀, hrun.tail happens.moves⟩
  | step _ step _ ih =>
    obtain ⟨s₀, hs₀, hrun⟩ := ih
    obtain ⟨e, happens⟩ := step.happens
    exact ⟨s₀, hs₀, hrun.tail happens.moves⟩

/-- A step of the pool is a step of its books under these accounts, or leaves them alone. -/
theorem PoolStep.on_pool (laws : ProgramLaws rt) (hreg : Registry rt s.ledger)
    (h : PoolStep rt k steady s s') (hp : PoolAt rt s.ledger k p)
    (hl : ListAt rt s.ledger p.validatorList l) :
    (∃ accounts a p' l', accounts[0]? = some a ∧ a.key = k ∧
      Handled rt s.sysvars accounts s.ledger s'.ledger ∧ s'.sysvars = s.sysvars ∧
      (∀ b ∈ accounts, b.key = (poolKeeper rt k).authority → b.isSigner = false) ∧
      BookEffect rt s.sysvars accounts s.ledger s'.ledger k p l p' l') ∨
    PoolAt rt s'.ledger k p ∧ ListAt rt s'.ledger p.validatorList l ∧ Respects rt k steady s s' := by
  cases h with
  | @call accounts input a happens pool_at pool unsigned =>
    subst pool
    cases happens with
    | call run sysvars =>
      have hhandled := process_handled run
      obtain ⟨p', l', he⟩ := hhandled.effect laws pool_at hp hl
      exact .inl ⟨accounts, a, p', l', pool_at, rfl, hhandled, sysvars, unsigned, he⟩
  | outside happens elsewhere respects =>
    rcases happens.on_pool laws hreg hp hl with
      ⟨accounts, input, a, i, rfl, ha, hkey, hi, -⟩ | ⟨-, hp', hl'⟩
    · exact absurd (.intro ha hkey hi trivial) (elsewhere fun _ => True)
    · exact .inr ⟨hp', hl', respects⟩

/-- The pool of a run is there from its foundation on. -/
theorem PoolRun.pool (laws : ProgramLaws rt) (h : PoolRun rt k steady s) :
    ∃ p l, PoolAt rt s.ledger k p ∧ ListAt rt s.ledger p.validatorList l := by
  have hlist : ∀ {s p}, Reachable rt s → PoolAt rt s.ledger k p →
      ∃ p l, PoolAt rt s.ledger k p ∧ ListAt rt s.ledger p.validatorList l := by
    intro s p hs hp
    obtain ⟨l, hl⟩ := (hs.registry laws).hasList hp
    exact ⟨p, l, hp, hl⟩
  have hs := h.reachable
  induction h with
  | founded before happens decoded pool_at pool orderly rent =>
    cases happens with
    | call run _ =>
      simp only [process, bind_eq_ok, decoded, Except.ok.injEq] at run
      obtain ⟨_, rfl, hrun⟩ := run
      obtain ⟨r⟩ := processInitialize_run rt _ hrun
      obtain rfl := Option.some.inj (pool_at.symm.trans r.pool_at)
      exact hlist hs (pool ▸ (r.founded laws).pool)
  | step before step _ ih =>
    obtain ⟨p, l, hp, hl⟩ := ih before.reachable
    rcases step.on_pool laws (before.reachable.registry laws) hp hl with
      ⟨_, _, p', l', -, -, -, -, -, he⟩ | ⟨hp', -⟩
    · exact hlist hs he.own.after
    · exact hlist hs hp'

theorem PoolRun.orderly (h : PoolRun rt k steady s) : Orderly rt k s := by
  cases h with
  | founded _ _ _ _ _ orderly _ => exact orderly
  | step _ _ orderly => exact orderly

/-- A new pool: the reserve is all there is. -/
theorem InitializeRun.solvent {fee withdrawalFee depositFee : Fee} {referralFee : UInt8}
    {maxValidators : UInt32} (laws : ProgramLaws rt) (addresses : AddressLaws rt)
    (r : InitializeRun rt sv accounts fee withdrawalFee depositFee referralFee maxValidators w w')
    (hp : PoolAt rt w' r.pool.key p) (hl : ListAt rt w' p.validatorList l)
    (hrent : ∀ info, (w' p.reserveStake).data = .stake (.initialized info) →
      0 < info.rentExemptReserve ∧ info.rentExemptReserve < 2 ^ 64) :
    KeptBy rt r.pool.key (poolKeeper rt r.pool.key) p ∧
      Solvent rt r.pool.key (poolKeeper rt r.pool.key) steady w' p l := by
  have hfounded := r.founded laws
  obtain rfl := hp.unique hfounded.pool
  obtain rfl := hl.unique hfounded.list
  refine ⟨⟨addresses.create_of_find [_, authorityWithdraw], rfl⟩, ⟨?_, by simp⟩⟩
  obtain ⟨howner, info, hdata, husable, hlamports⟩ := checkInitialReserve_eq_ok r.reserve_ok
  -- Minting to the manager and writing the records leave the reserve alone.
  have hminted : (w r.reserve.key).OnlyCredited (r.minted r.reserve.key) := by
    rcases onlyIf_eq_ok.mp r.mint_initial with ⟨-, hmint⟩ | ⟨-, hsame⟩
    · refine (tokenMintTo_frames hmint).others _ ?_
      rw [howner]
      simpa using (laws.token_ne_stake _ r.isToken).symm
    · rw [← hsame]
      exact .refl _
  have hwritten : w' r.reserve.key = r.minted r.reserve.key := by
    have hne : ∀ j, (r.minted j).owner = rt.programId → r.reserve.key ≠ j := by
      rintro j hj rfl
      rw [hminted.owner, howner] at hj
      exact laws.stake_ne hj
    have hkept := OwnFrame.of_frames laws r.frames
    have hpool := hne _ ((hkept.kept _ r.pool_owner id).owner.trans r.pool_owner)
    have hlist := hne _ ((hkept.kept _ r.list_owner id).owner.trans r.list_owner)
    exact (OnlyAt.of_writeStakePool r.result _ (by simpa using hpool)).trans
      (OnlyAt.set _ _ _ _ (by simpa using hlist))
  have hdata' : (w' r.reserve.key).data = .stake (.initialized info) := by
    rw [hwritten, hminted.data, hdata]
  have hinfo : 0 < info.rentExemptReserve ∧ info.rentExemptReserve < 2 ^ 64 := hrent info hdata'
  have hle := hminted.lamports
  rw [← hwritten] at hle
  have hminimum : minimumReserveLamports info = info.rentExemptReserve := by
    unfold minimumReserveLamports saturatingAdd minimumReserve maxValue
    omega
  have hheld : HeldAs rt (poolKeeper rt r.pool.key) (w' r.reserve.key) (.initialized info) info := by
    refine ⟨?_, hdata', rfl, ?_, hinfo.1, by omega⟩
    · rw [hwritten, hminted.owner, howner]
    · rw [poolKeeper, r.isAuthority]
      exact husable
  refine ⟨info, hheld, ?_⟩
  show r.total + minimumReserveLamports info ≤ (w' r.reserve.key).lamports + 0
  omega

/-- Outside of the program's instructions on the pool its books stay backed. -/
theorem Solvent.respected (hp : PoolAt rt s.ledger k p) (hl : ListAt rt s.ledger p.validatorList l)
    (h : Solvent rt k (poolKeeper rt k) steady s.ledger p l) (hr : Respects rt k steady s s') :
    Solvent rt k (poolKeeper rt k) steady s'.ledger p l := by
  refine ⟨?_, fun v hv => ?_⟩
  · obtain ⟨info, hheld, hle⟩ := h.reserve
    have hgrows := hr.held p.reserveStake ⟨_, info, hheld⟩
    have := hgrows.lamports
    exact ⟨info, hheld.initialized_grows hgrows, by omega⟩
  · obtain ⟨t, ht⟩ := h.entries v hv
    refine ⟨t, ht.grows (fun hheld => ?_) (fun hheld => hr.held _ hheld)⟩
    by_cases hactive : steady ∧ t = .active
    · obtain ⟨hsteady, rfl⟩ := hactive
      exact (hr.active hsteady p l v hp hl hv ht.status hheld).mono False.elim
    · exact (hr.held _ hheld).mono fun _ => hactive

/-- In every state of a run the pool is solvent. -/
theorem PoolRun.solvent (laws : ProgramLaws rt) (addresses : AddressLaws rt) (system : SystemLaws rt)
    (stakes : StakeLaws rt)
    (hderived : (findDepositAuthorityProgramAddress rt k).1 ≠ (poolKeeper rt k).authority)
    (h : PoolRun rt k steady s) (hp : PoolAt rt s.ledger k p)
    (hl : ListAt rt s.ledger p.validatorList l) :
    KeptBy rt k (poolKeeper rt k) p ∧ Solvent rt k (poolKeeper rt k) steady s.ledger p l := by
  induction h generalizing p l with
  | @founded s s' accounts a input _ _ _ _ _ before happens decoded pool_at pool orderly rent =>
    cases happens with
    | call run _ =>
      simp only [process, bind_eq_ok, decoded, Except.ok.injEq] at run
      obtain ⟨_, rfl, hrun⟩ := run
      obtain ⟨r⟩ := processInitialize_run rt _ hrun
      obtain rfl : r.pool.key = k := by
        rw [← pool, Option.some.inj (pool_at.symm.trans r.pool_at)]
      exact r.solvent laws addresses hp hl fun info hinfo => rent p info hp hinfo
  | @step s s' before step orderly ih =>
    obtain ⟨q, m, hq, hm⟩ := before.pool laws
    obtain ⟨hkept, hsolvent⟩ := ih hq hm
    have horderly := before.orderly
    rcases step.on_pool laws (before.reachable.registry laws) hq hm with
      ⟨accounts, a, p', l', ha, rfl, hhandled, -, hunsigned, he⟩ | ⟨hq', hm', hrespects⟩
    · obtain rfl := hp.unique he.own.after
      have hsame := he.step.sameIdentity
      rw [hsame.validatorList] at hl
      have hapart' := orderly.apart _ l hp (by rw [hsame.validatorList]; exact hl)
      rw [hsame.reserveStake] at hapart'
      exact ⟨hkept.congr hsame, hhandled.solvent laws system stakes ha hq hm hkept hunsigned hderived
        (Nat.ne_of_lt horderly.epoch) horderly.rent (horderly.apart q m hq hm) hsolvent hp hl hapart'⟩
    · obtain rfl := hp.unique hq'
      obtain rfl := hl.unique hm'
      exact ⟨hkept, hsolvent.respected hq hm hrespects⟩

/-- The books of a pool stay backed by its stake accounts in every run: what is on record of an entry
is in its two accounts, the reserve keeps its minimum, and `total_lamports` is at most what the
reserve has above that together with what is on record. -/
theorem books_stay_backed (laws : ProgramLaws rt) (addresses : AddressLaws rt) (system : SystemLaws rt)
    (stakes : StakeLaws rt)
    (hderived : (findDepositAuthorityProgramAddress rt k).1 ≠ (poolKeeper rt k).authority)
    (h : PoolRun rt k steady s) (hp : PoolAt rt s.ledger k p)
    (hl : ListAt rt s.ledger p.validatorList l) :
    (∀ v ∈ l.validators,
      v.activeStakeLamports ≤ (s.ledger (v.stakeKey rt k)).lamports ∧
      v.transientStakeLamports ≤ (s.ledger (v.transientKey rt k)).lamports) ∧
    ∃ info, (s.ledger p.reserveStake).data = .stake (.initialized info) ∧
      minimumReserveLamports info ≤ (s.ledger p.reserveStake).lamports ∧
      p.totalLamports + minimumReserveLamports info ≤
        (s.ledger p.reserveStake).lamports + l.recorded := by
  obtain ⟨-, hsolvent⟩ := h.solvent laws addresses system stakes hderived hp hl
  obtain ⟨info, hheld, hbacked⟩ := hsolvent.reserve
  refine ⟨fun v hv => ?_, info, hheld.data, ?_, hbacked⟩
  · obtain ⟨t, ht⟩ := hsolvent.entries v hv
    exact ⟨ht.active_le, ht.transient_le⟩
  · exact Nat.le_trans (minimumReserveLamports_le info) hheld.exempt

/-! ## Runs on the reference chain -/

theorem PoolRun.executes {a : AccountMeta} {i : StakePoolInstruction} (h : PoolRun rt k steady s)
    (he : Executes rt accounts i s s') (input : List UInt8)
    (hi : StakePoolInstruction.tryFromSlice input = .ok i) (ha : accounts[0]? = some a)
    (hk : a.key = k)
    (hunsigned : ∀ b ∈ accounts, b.key = (poolKeeper rt k).authority → b.isSigner = false)
    (orderly : Orderly rt k s') : PoolRun rt k steady s' :=
  .step h (.call (he.happens input hi) ha hk hunsigned) orderly

/-- Time passes in a run. -/
theorem PoolRun.atEpoch {epoch : Epoch} (h : PoolRun rt k steady s) (orderly : Orderly rt k (s.atEpoch epoch)) :
    PoolRun rt k steady (s.atEpoch epoch) :=
  .step h (.outside (.elsewhere (Elsewhere.atEpoch _ _ _)) (fun _ hcalls => by cases hcalls)
    ⟨fun _ _ => .refl _ _, fun _ _ _ _ _ _ _ _ _ => .refl _ _⟩) orderly

/-- Do the accounts of the pool at `k` pass this test? -/
def passes (rt : Runtime) (k : Pubkey) (test : StakePool → ValidatorList → Bool) (s : World) : Bool :=
  match loadStakePool rt s.ledger k with
  | .ok p =>
    match loadValidatorList rt s.ledger p.validatorList with
    | .ok l => test p l
    | .error _ => false
  | .error _ => false

theorem test_of_passes {test : StakePool → ValidatorList → Bool} (h : passes rt k test s = true)
    (hp : PoolAt rt s.ledger k p) (hl : ListAt rt s.ledger p.validatorList l) : test p l = true := by
  have hp' := loadStakePool_eq_ok.mpr hp
  have hl' := loadValidatorList_eq_ok.mpr hl
  simpa only [passes, hp', hl'] using h

/-- Are the accounts of the pool all different? -/
def apartIn (rt : Runtime) (k : Pubkey) (p : StakePool) (l : ValidatorList) : Bool :=
  decide ((p.reserveStake ::
      (l.validators.map (·.stakeKey rt k) ++ l.validators.map (·.transientKey rt k))).Nodup) &&
    l.validators.all fun v =>
      decide (v.stakeKey rt k ≠ p.validatorList ∧ v.transientKey rt k ≠ p.validatorList)

theorem Orderly.of_passes (hepoch : s.sysvars.epoch < epochMax)
    (hrent : 0 < s.sysvars.minimumBalance stakeSpace) (h : passes rt k (apartIn rt k) s = true) :
    Orderly rt k s := by
  refine ⟨hepoch, hrent, fun p l hp hl => ?_, fun p l hp hl v hv => ?_⟩
  · have htest := test_of_passes h hp hl
    simp only [apartIn, Bool.and_eq_true, decide_eq_true_eq] at htest
    exact htest.1
  · have htest := test_of_passes h hp hl
    simp only [apartIn, Bool.and_eq_true, List.all_eq_true, decide_eq_true_eq] at htest
    exact htest.2 v hv

namespace Reference

theorem chain_checks :
    (founded.sysvars.epoch < epochMax ∧ 0 < founded.sysvars.minimumBalance stakeSpace ∧
      passes runtime pool (apartIn runtime pool) founded = true ∧
      (loadStakePool runtime founded.ledger pool).toOption.map (·.reserveStake) = some reserve ∧
      (founded.ledger reserve).data = .stake (.initialized poolMeta)) ∧
    (staked.sysvars.epoch < epochMax ∧ 0 < staked.sysvars.minimumBalance stakeSpace ∧
      passes runtime pool (apartIn runtime pool) staked = true ∧
      ∀ b ∈ addValidatorAccounts, b.key = (poolKeeper runtime pool).authority → b.isSigner = false) ∧
    (loadStakePool runtime staked.ledger pool).toOption.map (·.validatorList) = some validatorList ∧
    (loadValidatorList runtime staked.ledger validatorList).toOption.map (·.validators.length) = some 1 ∧
    (findDepositAuthorityProgramAddress runtime pool).1 ≠ (poolKeeper runtime pool).authority := by
  decide +kernel

theorem founded_orderly : Orderly runtime pool founded := by
  obtain ⟨⟨hepoch, hrent, hpasses, -⟩, -⟩ := chain_checks
  exact .of_passes hepoch hrent hpasses

theorem founded_rent (p : StakePool) (info : StakeMeta) (hp : PoolAt runtime founded.ledger pool p)
    (hdata : (founded.ledger p.reserveStake).data = .stake (.initialized info)) :
    0 < info.rentExemptReserve ∧ info.rentExemptReserve < 2 ^ 64 := by
  obtain ⟨⟨-, -, -, hload, hmeta⟩, -⟩ := chain_checks
  obtain ⟨q, hq, hreserve⟩ : ∃ q, PoolAt runtime founded.ledger pool q ∧ q.reserveStake = reserve :=
    PoolAt.of_load _ hload
  rw [hp.unique hq, hreserve, hmeta] at hdata
  cases hdata
  exact ⟨by decide, by decide⟩

theorem founded_run : PoolRun runtime pool steady founded :=
  .founded ⟨genesisWorld, genesis_untouched, .refl⟩ (founded_executes.happens initializeInput founded_decodes)
    founded_decodes rfl rfl founded_orderly founded_rent

theorem staked_orderly : Orderly runtime pool staked := by
  obtain ⟨-, ⟨hepoch, hrent, hpasses, -⟩, -⟩ := chain_checks
  exact .of_passes hepoch hrent hpasses

theorem staked_unsigned : ∀ b ∈ addValidatorAccounts, b.key = (poolKeeper runtime pool).authority →
    b.isSigner = false := chain_checks.2.1.2.2.2

theorem derived_apart : (findDepositAuthorityProgramAddress runtime pool).1 ≠ (poolKeeper runtime pool).authority :=
  chain_checks.2.2.2.2

theorem staked_run : PoolRun runtime pool steady staked :=
  founded_run.executes staked_executes [1, 0, 0, 0, 0] staked_decodes rfl rfl staked_unsigned staked_orderly

end Reference

open Reference in
/-- The reference pool with one validator. -/
theorem books_stay_backed_staked : ∃ p l info, PoolAt runtime staked.ledger pool p ∧
    ListAt runtime staked.ledger p.validatorList l ∧ l.validators.length = 1 ∧
    (staked.ledger p.reserveStake).data = .stake (.initialized info) ∧
    p.totalLamports + minimumReserveLamports info ≤
      (staked.ledger p.reserveStake).lamports + l.recorded := by
  obtain ⟨-, -, hpool, hentries, hderived⟩ := chain_checks
  obtain ⟨p, hp, hlist⟩ : ∃ p, PoolAt runtime staked.ledger pool p ∧ p.validatorList = validatorList :=
    PoolAt.of_load _ hpool
  obtain ⟨l, hl, hlength⟩ : ∃ l, ListAt runtime staked.ledger validatorList l ∧
      l.validators.length = 1 := ListAt.of_load _ hentries
  have hrun : PoolRun runtime pool True staked := staked_run
  rw [← hlist] at hl
  obtain ⟨-, info, hdata, -, hbacked⟩ := books_stay_backed programLaws addressLaws systemLaws stakeLaws
    hderived hrun hp hl
  exact ⟨p, l, info, hp, hl, hlength, hdata, hbacked⟩

end StakePoolFogo
