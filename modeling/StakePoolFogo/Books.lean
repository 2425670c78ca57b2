import StakePoolFogo.Own

/-!
# The books of a pool

The two records of a pool, the `StakePool` and the `ValidatorList`, as a transition system of their
own: `BookStep` lists what an instruction can do to them and under whose signature.  Every successful
instruction on a pool is such a step, and changes no other record of the program.
-/

open StakePoolFogo.Checked StakePoolFogo.Outcome

namespace StakePoolFogo

/-- Did `k` sign the instruction? -/
def Signed (accounts : List AccountMeta) (k : Pubkey) : Prop :=
  ∃ info ∈ accounts, info.key = k ∧ info.isSigner = true

theorem Signed.of_at {accounts : List AccountMeta} {i : Nat} {info : AccountMeta} {k : Pubkey}
    (hat : accounts[i]? = some info) (h : info.key = k ∧ info.isSigner = true) : Signed accounts k :=
  ⟨info, List.mem_of_getElem? hat, h⟩

/-- Deposits and withdrawals as the pool record sees them. -/
def StakePool.deposited (p : StakePool) (tokens lamports : Nat) : StakePool :=
  { p with
    poolTokenSupply := p.poolTokenSupply + tokens
    totalLamports := p.totalLamports + lamports }

def StakePool.withdrawn (p : StakePool) (tokens lamports : Nat) : StakePool :=
  { p with
    poolTokenSupply := p.poolTokenSupply - tokens
    totalLamports := p.totalLamports - lamports }

/-- The validator stake account of an entry of the pool at `pool`. -/
def ValidatorStakeInfo.stakeKey (rt : Runtime) (pool : Pubkey) (v : ValidatorStakeInfo) : Pubkey :=
  (findStakeProgramAddress rt v.voteAccountAddress pool v.validatorSeedSuffix).1

/-- The transient stake account of an entry of the pool at `pool`. -/
def ValidatorStakeInfo.transientKey (rt : Runtime) (pool : Pubkey) (v : ValidatorStakeInfo) : Pubkey :=
  (findTransientStakeProgramAddress rt v.voteAccountAddress pool v.transientSeedSuffix).1

/-- One instruction on the records of the pool at `pool`. -/
inductive BookStep (rt : Runtime) (sv : Sysvars) (signed : Pubkey → Prop) (pool : Pubkey)
    (p : StakePool) (l : ValidatorList) : StakePool → ValidatorList → Prop where
  | addValidator (vote : Pubkey) (seed : UInt32) (staker : signed p.staker)
      (upToDate : ¬ p.lastUpdateEpoch < sv.epoch)
      (room : l.header.maxValidators.toNat ≠ l.validators.length) (notListed : l.find vote = none) :
      BookStep rt sv signed pool p l p
        { l with validators := l.validators ++ [newValidatorStakeInfo sv vote seed] }
  | removeValidator (vote : Pubkey) (v : ValidatorStakeInfo) (status : StakeStatus)
      (staker : signed p.staker) (found : l.find vote = some v)
      (active : v.status = StakeStatus.active.toPod)
      (next : 0 < v.transientStakeLamports ∧ status = .deactivatingAll ∨
        v.transientStakeLamports = 0 ∧ status = .deactivatingValidator) :
      BookStep rt sv signed pool p l (p.forgetPreferred vote)
        (l.modify vote fun _ => { v with status := status.toPod })
  | rebalance (vote : Pubkey) (v : ValidatorStakeInfo) (activeStake transientStake : Nat)
      (seed : UInt64) (staker : signed p.staker) (found : l.find vote = some v)
      (active : v.status = StakeStatus.active.toPod) :
      BookStep rt sv signed pool p l p (l.modify vote fun _ => { v with
        activeStakeLamports := activeStake, transientStakeLamports := transientStake,
        transientSeedSuffix := seed })
  | setPreferred (t : PreferredValidatorType) (vote : Option Pubkey) (staker : signed p.staker) :
      BookStep rt sv signed pool p l (p.setPreferred t vote) l
  | updateList (l' : ValidatorList) (header : l'.header = l.header)
      (entries : List.Forall₂ (EntryRefresh sv.epoch) l.validators l'.validators) :
      BookStep rt sv signed pool p l p l'
  | updatePool (total supply : Nat) (fresh : ∀ v ∈ l.validators, sv.epoch ≤ v.lastUpdateEpoch) :
      BookStep rt sv signed pool p l
        { p.advanceEpoch sv.epoch with totalLamports := total, poolTokenSupply := supply } l
  | cleanup : BookStep rt sv signed pool p l p l.cleaned
  | cleanupPreferred : BookStep rt sv signed pool p l (p.keepListed l.cleaned) l.cleaned
  | depositStake (vote : Pubkey) (v : ValidatorStakeInfo) (activeStake tokens lamports : Nat)
      (found : l.find vote = some v) (active : v.status = StakeStatus.active.toPod)
      (price : p.calcPoolTokensForDeposit lamports = some tokens) :
      BookStep rt sv signed pool p l (p.deposited tokens lamports)
        (l.modify vote fun _ => { v with activeStakeLamports := activeStake })
  | depositSol (tokens lamports : Nat)
      (price : p.calcPoolTokensForDeposit lamports = some tokens) :
      BookStep rt sv signed pool p l (p.deposited tokens lamports) l
  | withdraw (tokens lamports : Nat) (supply : tokens ≤ p.poolTokenSupply)
      (total : lamports ≤ p.totalLamports) :
      BookStep rt sv signed pool p l (p.withdrawn tokens lamports) l
  | withdrawStake (vote : Pubkey) (v v' : ValidatorStakeInfo) (source : StakeWithdrawSource)
      (tokens lamports : Nat) (found : l.find vote = some v)
      (active : v.status = StakeStatus.active.toPod)
      (record : recordStakeWithdrawal v source lamports = .ok v')
      (whole : source = .validatorRemoval → v.transientStakeLamports = 0)
      (supply : tokens ≤ p.poolTokenSupply) (total : lamports ≤ p.totalLamports) :
      BookStep rt sv signed pool p l
        ((if source = .validatorRemoval then p.forgetPreferred vote else p).withdrawn tokens lamports)
        (l.modify vote fun _ => v')
  | setManager (manager managerFee : Pubkey) (isManager : signed p.manager) :
      BookStep rt sv signed pool p l
        { p with manager := manager, managerFeeAccount := managerFee } l
  | setFee (fee : FeeType) (p' : StakePool) (isManager : signed p.manager)
      (notTooHigh : fee.tooHigh = false) (update : p.updateFee fee = .ok p') :
      BookStep rt sv signed pool p l p' l
  | setStaker (staker : Pubkey) (authority : signed p.staker ∨ signed p.manager) :
      BookStep rt sv signed pool p l { p with staker := staker } l
  | setFunding (fundingType : FundingType) (authority : Option Pubkey)
      (isManager : signed p.manager) :
      BookStep rt sv signed pool p l (p.setFundingAuthority rt pool fundingType authority) l
  | unchanged : BookStep rt sv signed pool p l p l

/-- The records of the pool at `k` go from `p`, `l` to `p'`, `l'`; no other record changes. -/
structure BookEffect (rt : Runtime) (sv : Sysvars) (accounts : List AccountMeta) (w w' : Ledger)
    (k : Pubkey) (p : StakePool) (l : ValidatorList) (p' : StakePool) (l' : ValidatorList) :
    Prop where
  own : OwnEffect rt w w' k p p'
  list : ListAt rt w' p.validatorList l'
  listLen : (w' p.validatorList).dataLen = (w p.validatorList).dataLen
  step : BookStep rt sv (Signed accounts) k p l p' l'

variable {rt : Runtime} {sv : Sysvars} {w w' mid : Ledger} {accounts : List AccountMeta}
  {k : Pubkey} {p p' : StakePool} {l l' : ValidatorList}

/-! ## The shapes of a handler's end -/

/-- Calls only. -/
theorem BookEffect.of_frames (laws : ProgramLaws rt) (hp : PoolAt rt w k p)
    (hl : ListAt rt w p.validatorList l) (hf : Frames (outsiders rt) w w') :
    BookEffect rt sv accounts w w' k p l p l :=
  ⟨.of_frames laws hp hf, hl.of_frames laws hf, hl.dataLen_of_frames laws hf, .unchanged⟩

/-- Calls, then a write of the list. -/
theorem BookEffect.of_list (laws : ProgramLaws rt) (hp : PoolAt rt w k p)
    (hl : ListAt rt w p.validatorList l) (hf : Frames (outsiders rt) w mid)
    (hw : w' = writeValidatorList mid p.validatorList l') (hh : l'.header = l.header)
    (hstep : BookStep rt sv (Signed accounts) k p l p l') :
    BookEffect rt sv accounts w w' k p l p l' := by
  subst hw
  have hl' := hl.of_frames laws hf
  exact ⟨(OwnEffect.of_frames laws hp hf).trans
    (.of_writeValidatorList (hp.of_frames laws hf) hl' _) rfl,
    hl'.written (by rw [hh]; exact hl.valid),
    (writeValidatorList_dataLen _ _ _ _).trans (hl.dataLen_of_frames laws hf), hstep⟩

/-- Calls, then a write of the pool. -/
theorem BookEffect.of_pool (laws : ProgramLaws rt) (hp : PoolAt rt w k p)
    (hl : ListAt rt w p.validatorList l) (hf : Frames (outsiders rt) w mid)
    (hw : writeStakePool mid k p' = .ok w') (hv : p'.isValid)
    (hstep : BookStep rt sv (Signed accounts) k p l p' l) :
    BookEffect rt sv accounts w w' k p l p' l := by
  have hp' := hp.of_frames laws hf
  have hl' := hl.of_frames laws hf
  exact ⟨(OwnEffect.of_frames laws hp hf).trans (.of_writeStakePool hp' hw hv) rfl,
    hl'.of_writeStakePool (hp'.ne_list hl').symm hw,
    (writeStakePool_dataLen hw _).trans (hl.dataLen_of_frames laws hf), hstep⟩

/-- Calls, then a write of the list and of the pool, in this order. -/
theorem BookEffect.of_list_pool (laws : ProgramLaws rt) (hp : PoolAt rt w k p)
    (hl : ListAt rt w p.validatorList l) (hf : Frames (outsiders rt) w mid)
    (hw : writeStakePool (writeValidatorList mid p.validatorList l') k p' = .ok w')
    (hh : l'.header = l.header) (hv : p'.isValid)
    (hstep : BookStep rt sv (Signed accounts) k p l p' l') :
    BookEffect rt sv accounts w w' k p l p' l' := by
  have hp' := hp.of_frames laws hf
  have hl' := hl.of_frames laws hf
  have hlist := OwnEffect.of_writeValidatorList hp' hl' l'
  have hwritten : ListAt rt (writeValidatorList mid p.validatorList l') p.validatorList l' :=
    hl'.written (by rw [hh]; exact hl.valid)
  exact ⟨((OwnEffect.of_frames laws hp hf).trans hlist rfl).trans
    (.of_writeStakePool hlist.after hw hv) rfl,
    hwritten.of_writeStakePool (hp'.ne_list hl').symm hw,
    ((writeStakePool_dataLen hw _).trans (writeValidatorList_dataLen _ _ _ _)).trans
      (hl.dataLen_of_frames laws hf), hstep⟩

/-- Calls, then a write of the pool and of the list, in this order. -/
theorem BookEffect.of_pool_list (laws : ProgramLaws rt) {written : Ledger} (hp : PoolAt rt w k p)
    (hl : ListAt rt w p.validatorList l) (hf : Frames (outsiders rt) w mid)
    (hw : writeStakePool mid k p' = .ok written) (hv : p'.isValid)
    (hlist : p'.validatorList = p.validatorList)
    (hw' : w' = writeValidatorList written p.validatorList l') (hh : l'.header = l.header)
    (hstep : BookStep rt sv (Signed accounts) k p l p' l') :
    BookEffect rt sv accounts w w' k p l p' l' := by
  subst hw'
  have hp' := hp.of_frames laws hf
  have hl' := hl.of_frames laws hf
  have hpool := OwnEffect.of_writeStakePool hp' hw hv
  have hkept := hl'.of_writeStakePool (hp'.ne_list hl').symm hw
  have hlast := OwnEffect.of_writeValidatorList hpool.after (by rw [hlist]; exact hkept) l'
  rw [hlist] at hlast
  exact ⟨((OwnEffect.of_frames laws hp hf).trans hpool rfl).trans hlast hlist,
    hkept.written (by rw [hh]; exact hl.valid),
    ((writeValidatorList_dataLen _ _ _ _).trans (writeStakePool_dataLen hw _)).trans
      (hl.dataLen_of_frames laws hf), hstep⟩

/-! ## Every handler is a step -/

theorem StakePool.advanceEpoch_valid {p : StakePool} {epoch : Epoch} (hp : p.isValid) :
    (p.advanceEpoch epoch).isValid := by
  unfold advanceEpoch
  split
  · exact hp
  · exact hp

theorem StakePool.updateFee_valid {p p' : StakePool} {fee : FeeType}
    (h : p.updateFee fee = .ok p') (hp : p.isValid) : p'.isValid := by
  cases fee with
  | stakeWithdrawal | solWithdrawal =>
    simp only [updateFee, bind_eq_ok, exists_unit, pure_eq_ok] at h
    obtain ⟨-, rfl⟩ := h
    exact hp
  | _ =>
    cases h
    exact hp

theorem StakePool.setPreferred_valid {p : StakePool} {t : PreferredValidatorType}
    {vote : Option Pubkey} (hp : p.isValid) : (p.setPreferred t vote).isValid := by
  cases t <;> exact hp

theorem StakePool.setFundingAuthority_valid {p : StakePool} {pool : Pubkey} {t : FundingType}
    {authority : Option Pubkey} (hp : p.isValid) :
    (p.setFundingAuthority rt pool t authority).isValid := by
  cases t <;> exact hp

theorem sumStakeLamports_fresh {epoch : Epoch} {vs : List ValidatorStakeInfo} {n total : Nat}
    (h : sumStakeLamports epoch n vs = .ok total) : ∀ v ∈ vs, epoch ≤ v.lastUpdateEpoch := by
  induction vs generalizing n with
  | nil => simp
  | cons v vs ih =>
    simp only [sumStakeLamports, bind_eq_ok, failIf_eq_ok, exists_unit, Nat.not_lt] at h
    obtain ⟨hfresh, _, -, _, -, hrest⟩ := h
    intro u hu
    rcases List.mem_cons.mp hu with rfl | hu
    · exact hfresh
    · exact ih hrest u hu

theorem UpdatePoolRun.frames (r : UpdatePoolRun rt sv accounts w w') :
    Frames (outsiders rt) w r.minted := by
  rcases onlyIf_eq_ok.mp r.mint_fee with ⟨-, h⟩ | ⟨-, h⟩
  · have htoken := h
    simp only [tokenMintTo, bind_eq_ok, exists_unit, checkTokenProgram_eq_ok] at htoken
    exact (tokenMintTo_frames h).mono (token_subset_outsiders htoken.1)
  · exact h ▸ Frames.refl (outsiders rt) w

section Handlers

variable {a : AccountMeta} (laws : ProgramLaws rt) (ha : accounts[0]? = some a)
  (hp : PoolAt rt w a.key p) (hl : ListAt rt w p.validatorList l)

include laws ha hp hl

theorem AddValidatorRun.effect {seed : UInt32} (r : AddValidatorRun rt sv accounts seed w w') :
    BookEffect rt sv accounts w w' a.key p l p
      { l with validators := l.validators ++ [newValidatorStakeInfo sv r.vote.key seed] } := by
  obtain rfl := Option.some.inj (ha.symm.trans r.pool_at)
  obtain rfl := hp.unique r.isPool
  obtain rfl := hl.unique (by rw [← r.list_key]; exact r.isList)
  have hw := r.result
  rw [r.list_key] at hw
  exact .of_list laws hp hl (r.frames.mono movers_subset_outsiders) hw rfl
    (.addValidator r.vote.key seed (.of_at r.staker_at r.isStaker) r.upToDate r.room r.notListed)

theorem RemoveValidatorRun.effect (r : RemoveValidatorRun rt sv accounts w w') :
    BookEffect rt sv accounts w w' a.key p l
      (p.forgetPreferred r.stake.delegation.voterPubkey)
      (l.modify r.stake.delegation.voterPubkey fun _ => { r.v with status := r.newStatus.toPod }) := by
  obtain rfl := Option.some.inj (ha.symm.trans r.pool_at)
  obtain rfl := hp.unique r.isPool
  obtain rfl := hl.unique (by rw [← r.list_key]; exact r.isList)
  have hw := r.result
  rw [r.list_key, ValidatorList.modify_congr
    (g := fun _ => { r.v with status := r.newStatus.toPod }) r.found rfl] at hw
  refine .of_list_pool laws hp hl (r.frames.mono movers_subset_outsiders) hw rfl hp.valid ?_
  exact .removeValidator _ r.v r.newStatus (.of_at r.staker_at r.isStaker) r.found r.active
    (removalStatus_spec r.removal).2

theorem DecreaseRun.effect {lamports : Nat} {seed : UInt64} {ephemeralSeed : Option UInt64}
    {fund : Bool} (r : DecreaseRun rt sv accounts lamports seed ephemeralSeed fund w w') :
    BookEffect rt sv accounts w w' a.key p l p
      (l.modify r.stake.delegation.voterPubkey fun _ => { r.v with
        activeStakeLamports := r.active
        transientStakeLamports := (r.moved r.transient.key).lamports
        transientSeedSuffix := seed }) := by
  obtain rfl := Option.some.inj (ha.symm.trans r.pool_at)
  obtain rfl := hp.unique r.isPool
  obtain rfl := hl.unique (by rw [← r.list_key]; exact r.isList)
  have hw := r.result
  rw [r.list_key, ValidatorList.modify_congr (g := fun _ => { r.v with
    activeStakeLamports := r.active
    transientStakeLamports := (r.moved r.transient.key).lamports
    transientSeedSuffix := seed }) r.found rfl] at hw
  refine .of_list laws hp hl (r.frames.mono movers_subset_outsiders) hw rfl ?_
  exact .rebalance _ r.v _ _ seed (.of_at r.staker_at r.isStaker) r.found r.status_active

theorem IncreaseRun.effect {lamports : Nat} {seed : UInt64} {ephemeralSeed : Option UInt64}
    (r : IncreaseRun rt sv accounts lamports seed ephemeralSeed w w') :
    BookEffect rt sv accounts w w' a.key p l p (l.modify r.vote.key fun _ => { r.v with
      transientStakeLamports :=
        r.v.transientStakeLamports + saturatingAdd 64 lamports (sv.minimumBalance stakeSpace)
      transientSeedSuffix := seed }) := by
  obtain rfl := Option.some.inj (ha.symm.trans r.pool_at)
  obtain rfl := hp.unique r.isPool
  obtain rfl := hl.unique (by rw [← r.list_key]; exact r.isList)
  have hw := r.result
  rw [r.list_key, ValidatorList.modify_congr (g := fun _ => { r.v with
    transientStakeLamports :=
      r.v.transientStakeLamports + saturatingAdd 64 lamports (sv.minimumBalance stakeSpace)
    transientSeedSuffix := seed }) r.found rfl] at hw
  refine .of_list laws hp hl (r.frames.mono movers_subset_outsiders) hw rfl ?_
  exact .rebalance _ r.v _ _ seed (.of_at r.staker_at r.isStaker) r.found r.status_active

theorem SetPreferredRun.effect {t : PreferredValidatorType} {vote : Option Pubkey}
    (r : SetPreferredRun rt accounts t vote w w') :
    BookEffect rt sv accounts w w' a.key p l (p.setPreferred t vote) l := by
  obtain rfl := Option.some.inj (ha.symm.trans r.pool_at)
  obtain rfl := hp.unique r.isPool
  exact .of_pool laws hp hl (Frames.refl _ _) r.result (StakePool.setPreferred_valid hp.valid)
    (.setPreferred t vote (.of_at r.staker_at r.isStaker))

theorem UpdateListRun.effect {startIndex : UInt32} {noMerge : Bool}
    (r : UpdateListRun rt sv accounts startIndex noMerge w w') :
    BookEffect rt sv accounts w w' a.key p l p
      { l with validators := l.validators.take startIndex.toNat ++ r.refreshed } := by
  obtain rfl := Option.some.inj (ha.symm.trans r.pool_at)
  obtain rfl := hp.unique r.isPool
  obtain rfl := hl.unique (by rw [← r.list_key]; exact r.isList)
  obtain ⟨hentries, hframes⟩ := refreshEntries_spec r.refresh
  have hw := r.result
  rw [r.list_key] at hw
  refine .of_list laws hp hl (hframes.mono stake_subset_outsiders) hw rfl (.updateList _ rfl ?_)
  -- The entries before the slice are as they were.
  have hinitial : List.Forall₂ (EntryRefresh sv.epoch) (r.l.validators.take startIndex.toNat)
      (r.l.validators.take startIndex.toNat) := List.forall₂_same.mpr fun _ _ => Or.inl rfl
  have hall : List.Forall₂ (EntryRefresh sv.epoch)
      (r.l.validators.take startIndex.toNat ++ r.l.validators.drop startIndex.toNat)
      (r.l.validators.take startIndex.toNat ++ r.refreshed) := List.rel_append hinitial hentries
  rwa [List.take_append_drop] at hall

theorem UpdatePoolRun.effect (r : UpdatePoolRun rt sv accounts w w') :
    BookEffect rt sv accounts w w' a.key p l { p.advanceEpoch sv.epoch with
      totalLamports := r.total, poolTokenSupply := r.after.supply } l := by
  obtain rfl := Option.some.inj (ha.symm.trans r.pool_at)
  obtain rfl := hp.unique r.isPool
  obtain rfl := hl.unique (by rw [← r.list_key]; exact r.isList)
  exact .of_pool laws hp hl r.frames r.result (StakePool.advanceEpoch_valid hp.valid)
    (.updatePool r.total r.after.supply (sumStakeLamports_fresh r.sum))

theorem CleanupRun.effect (r : CleanupRun rt accounts w w') :
    ∃ p', (p' = p ∨ p' = p.keepListed l.cleaned) ∧
      BookEffect rt sv accounts w w' a.key p l p' l.cleaned := by
  obtain rfl := Option.some.inj (ha.symm.trans r.pool_at)
  obtain rfl := hp.unique r.isPool
  obtain rfl := hl.unique r.isList
  rcases onlyIf_eq_ok.mp r.result with ⟨-, hw⟩ | ⟨-, hw⟩
  · exact ⟨_, Or.inr rfl,
      .of_list_pool laws hp hl (Frames.refl _ _) hw rfl hp.valid .cleanupPreferred⟩
  · exact ⟨_, Or.inl rfl, .of_list laws hp hl (Frames.refl _ _) hw.symm rfl .cleanup⟩

theorem DepositStakeRun.effect {minimum : Option Nat}
    (r : DepositStakeRun rt sv accounts minimum w w') :
    BookEffect rt sv accounts w w' a.key p l (p.deposited r.shares.newPoolTokens r.deposited)
      (l.modify r.stake.delegation.voterPubkey fun _ => { r.v with
        activeStakeLamports := (r.written r.validatorStake.key).lamports }) := by
  obtain rfl := Option.some.inj (ha.symm.trans r.pool_at)
  obtain rfl := hp.unique r.isPool
  obtain rfl := hl.unique (by rw [← r.list_key]; exact r.isList)
  obtain ⟨hrecord, -, -⟩ := StakePool.recordDeposit_eq_ok.mp r.record
  have hw := r.write
  have hw' := r.result
  rw [hrecord] at hw
  rw [r.list_key, ValidatorList.modify_congr (g := fun _ => { r.v with
    activeStakeLamports := (r.written r.validatorStake.key).lamports }) r.found rfl] at hw'
  refine .of_pool_list laws hp hl r.frames hw hp.valid rfl hw' rfl ?_
  exact .depositStake _ r.v _ _ _ r.found r.active (depositStakeShares_sum r.shares_eq).1

theorem DepositSolRun.effect {inner : List AccountMeta} {lamports : Nat} {minimum : Option Nat}
    {isWsolPath : Bool} (r : DepositSolRun rt sv inner lamports minimum isWsolPath w w')
    (hpool : r.pool = a) : BookEffect rt sv accounts w w' a.key p l
      (p.deposited r.shares.newPoolTokens lamports) l := by
  subst hpool
  obtain rfl := hp.unique r.isPool
  obtain ⟨hrecord, -, -⟩ := StakePool.recordDeposit_eq_ok.mp r.record
  have hw := r.result
  rw [hrecord] at hw
  exact .of_pool laws hp hl r.frames hw hp.valid
    (.depositSol _ _ (depositSolShares_sum r.shares_eq).1)

theorem WithdrawStakeRun.effect {poolTokens : Nat} {minimum : Option Nat}
    (r : WithdrawStakeRun rt sv accounts poolTokens minimum w w') :
    ∃ l', r.plan.Books l l' ∧ BookEffect rt sv accounts w w' a.key p l r.p' l' := by
  obtain rfl := Option.some.inj (ha.symm.trans r.pool_at)
  obtain rfl := hp.unique r.isPool
  obtain rfl := hl.unique (by rw [← r.list_key]; exact r.isList)
  obtain ⟨hrecord, hsupply, htotal⟩ := StakePool.recordWithdrawal_eq_ok.mp r.record
  have hw := r.write
  have hw' := r.result
  have hframes := r.frames
  rw [r.list_key] at hw'
  rw [hrecord] at hw ⊢
  have hplan := planWithdrawal_cases rt sv r.plan_eq
  generalize r.plan = plan at hplan hw hw' hsupply htotal ⊢
  cases hplan with
  | reserve _ _ =>
    rw [Except.ok.inj hw'] at hw
    exact ⟨_, .inl ⟨rfl, rfl⟩,
      .of_pool laws hp hl hframes hw hp.valid (.withdraw _ _ hsupply htotal)⟩
  | active v d _ _ found status _ _ =>
    simp only [writeWithdrawal, bind_eq_ok, pure_eq_ok] at hw'
    obtain ⟨v', hv', hw'⟩ := hw'
    rw [ValidatorList.find_vote found] at hw'
    refine ⟨_, .inr ⟨v, _, v', rfl, hv', by rw [ValidatorList.find_vote found]⟩, ?_⟩
    exact .of_pool_list laws hp hl hframes hw hp.valid rfl hw'.symm rfl
      (.withdrawStake d.voterPubkey v v' .active _ _ found status hv' (by simp) hsupply htotal)
  | transient v d _ _ found status _ _ =>
    simp only [writeWithdrawal, bind_eq_ok, pure_eq_ok] at hw'
    obtain ⟨v', hv', hw'⟩ := hw'
    rw [ValidatorList.find_vote found] at hw'
    refine ⟨_, .inr ⟨v, _, v', rfl, hv', by rw [ValidatorList.find_vote found]⟩, ?_⟩
    exact .of_pool_list laws hp hl hframes hw hp.valid rfl hw'.symm rfl
      (.withdrawStake d.voterPubkey v v' .transient _ _ found status hv' (by simp) hsupply htotal)
  | removal v d _ _ found status _ noTransient _ =>
    simp only [writeWithdrawal, bind_eq_ok, pure_eq_ok] at hw'
    obtain ⟨v', hv', hw'⟩ := hw'
    rw [ValidatorList.find_vote found] at hw'
    refine ⟨_, .inr ⟨v, _, v', rfl, hv', by rw [ValidatorList.find_vote found]⟩, ?_⟩
    exact .of_pool_list laws hp hl hframes hw hp.valid rfl hw'.symm rfl
      (.withdrawStake d.voterPubkey v v' .validatorRemoval _ _ found status hv'
        (fun _ => noTransient) hsupply htotal)

theorem WithdrawSolRun.effect {inner : List AccountMeta} {poolTokens : Nat} {minimum : Option Nat}
    {isWsolPath : Bool} (r : WithdrawSolRun rt sv inner poolTokens minimum isWsolPath w w')
    (htoken : rt.isTokenProgram r.tokenProgram.key) (hpool : r.pool = a) :
    BookEffect rt sv accounts w w' a.key p l (p.withdrawn r.quote.burnt r.quote.lamports) l := by
  subst hpool
  obtain rfl := hp.unique r.isPool
  obtain ⟨hrecord, hsupply, htotal⟩ := StakePool.recordWithdrawal_eq_ok.mp r.record
  have hw := r.result
  rw [hrecord] at hw
  exact .of_pool laws hp hl (r.frames htoken) hw hp.valid (.withdraw _ _ hsupply htotal)

theorem SetManagerRun.effect (r : SetManagerRun rt accounts w w') :
    BookEffect rt sv accounts w w' a.key p l { p with
      manager := r.newManager.key, managerFeeAccount := r.newManagerFee.key } l := by
  obtain rfl := Option.some.inj (ha.symm.trans r.pool_at)
  obtain rfl := hp.unique r.isPool
  exact .of_pool laws hp hl (Frames.refl _ _) r.result hp.valid
    (.setManager _ _ (.of_at r.manager_at r.isManager))

theorem SetFeeRun.effect {fee : FeeType} (r : SetFeeRun rt accounts fee w w') :
    BookEffect rt sv accounts w w' a.key p l r.p' l := by
  obtain rfl := Option.some.inj (ha.symm.trans r.pool_at)
  obtain rfl := hp.unique r.isPool
  exact .of_pool laws hp hl (Frames.refl _ _) r.result (StakePool.updateFee_valid r.update hp.valid)
    (.setFee fee _ (.of_at r.manager_at r.isManager) r.notTooHigh r.update)

theorem SetStakerRun.effect (r : SetStakerRun rt accounts w w') :
    BookEffect rt sv accounts w w' a.key p l { p with staker := r.newStaker.key } l := by
  obtain rfl := Option.some.inj (ha.symm.trans r.pool_at)
  obtain rfl := hp.unique r.isPool
  obtain ⟨hkey, hsigner⟩ := r.isAuthority
  refine .of_pool laws hp hl (Frames.refl _ _) r.result hp.valid (.setStaker _ ?_)
  rcases hkey with hkey | hkey
  · exact Or.inl (.of_at r.authority_at ⟨hkey, hsigner⟩)
  · exact Or.inr (.of_at r.authority_at ⟨hkey, hsigner⟩)

theorem SetFundingRun.effect {fundingType : FundingType}
    (r : SetFundingRun rt accounts fundingType w w') :
    BookEffect rt sv accounts w w' a.key p l
      (p.setFundingAuthority rt a.key fundingType (accounts[2]?.map AccountMeta.key)) l := by
  obtain rfl := Option.some.inj (ha.symm.trans r.pool_at)
  obtain rfl := hp.unique r.isPool
  exact .of_pool laws hp hl (Frames.refl _ _) r.result
    (StakePool.setFundingAuthority_valid hp.valid)
    (.setFunding fundingType _ (.of_at r.manager_at r.isManager))

end Handlers

/-- The programs that write metadata. -/
def scribes (rt : Runtime) : List Pubkey := [rt.mplTokenMetadataId, rt.systemProgramId]

theorem scribes_subset_outsiders : scribes rt ⊆ outsiders rt := by
  simp [scribes, outsiders]

theorem processCreatePoolTokenMetadata_spec {name symbol uri : List UInt8}
    (h : processCreatePoolTokenMetadata rt accounts name symbol uri w = .ok w') :
    (∃ a p, accounts[0]? = some a ∧ PoolAt rt w a.key p) ∧ Frames (scribes rt) w w' := by
  simp only [processCreatePoolTokenMetadata, bind_eq_ok, exists_unit, accountAt_eq_ok,
    loadStakePool_eq_ok] at h
  obtain ⟨a, ha, _, -, _, -, _, -, _, -, _, -, _, -, _, -, -, -, -, -, -, p, hp, -, -, _, -, -, -, h⟩ := h
  exact ⟨⟨a, p, ha, hp⟩, (Frames.of_invokeCreate h).mono (by simp [scribes])⟩

theorem processUpdatePoolTokenMetadata_spec {name symbol uri : List UInt8}
    (h : processUpdatePoolTokenMetadata rt accounts name symbol uri w = .ok w') :
    (∃ a p, accounts[0]? = some a ∧ PoolAt rt w a.key p) ∧ Frames (scribes rt) w w' := by
  simp only [processUpdatePoolTokenMetadata, bind_eq_ok, exists_unit, accountAt_eq_ok,
    loadStakePool_eq_ok] at h
  obtain ⟨a, ha, _, -, _, -, _, -, _, -, -, -, p, hp, -, -, -, -, h⟩ := h
  exact ⟨⟨a, p, ha, hp⟩, (Frames.of_invoke₁ h).mono (by simp [scribes])⟩

/-! ## Any instruction -/

/-- A step after calls that leave the program's accounts alone. -/
theorem BookEffect.after_frames (laws : ProgramLaws rt) (hp : PoolAt rt w k p)
    (hl : ListAt rt w p.validatorList l) (hf : Frames (outsiders rt) w mid)
    (h : BookEffect rt sv accounts mid w' k p l p' l') :
    BookEffect rt sv accounts w w' k p l p' l' :=
  ⟨(OwnEffect.of_frames laws hp hf).trans h.own rfl, h.list,
    h.listLen.trans (hl.dataLen_of_frames laws hf), h.step⟩

/-- A step before such calls. -/
theorem BookEffect.before_frames (laws : ProgramLaws rt) (hlist : p'.validatorList = p.validatorList)
    (h : BookEffect rt sv accounts w mid k p l p' l') (hf : Frames (outsiders rt) mid w') :
    BookEffect rt sv accounts w w' k p l p' l' :=
  ⟨h.own.trans (.of_frames laws h.own.after hf) hlist, h.list.of_frames laws hf,
    (h.list.dataLen_of_frames laws hf).trans h.listLen, h.step⟩

theorem StakePool.updateFee_kept {p p' : StakePool} {fee : FeeType}
    (h : p.updateFee fee = .ok p') :
    p'.validatorList = p.validatorList ∧ p'.reserveStake = p.reserveStake ∧
      p'.poolMint = p.poolMint ∧ p'.tokenProgramId = p.tokenProgramId ∧
      p'.stakeWithdrawBumpSeed = p.stakeWithdrawBumpSeed ∧ p'.lockup = p.lockup := by
  cases fee with
  | stakeWithdrawal | solWithdrawal =>
    simp only [updateFee, bind_eq_ok, exists_unit, pure_eq_ok] at h
    obtain ⟨-, rfl⟩ := h
    exact ⟨rfl, rfl, rfl, rfl, rfl, rfl⟩
  | _ =>
    cases h
    exact ⟨rfl, rfl, rfl, rfl, rfl, rfl⟩

/-- The fields `Initialize` fixes for good. -/
structure StakePool.SameIdentity (p p' : StakePool) : Prop where
  poolMint : p'.poolMint = p.poolMint
  tokenProgramId : p'.tokenProgramId = p.tokenProgramId
  validatorList : p'.validatorList = p.validatorList
  reserveStake : p'.reserveStake = p.reserveStake
  stakeWithdrawBumpSeed : p'.stakeWithdrawBumpSeed = p.stakeWithdrawBumpSeed
  lockup : p'.lockup = p.lockup

theorem BookStep.sameIdentity {signed : Pubkey → Prop} (h : BookStep rt sv signed k p l p' l') :
    p.SameIdentity p' := by
  cases h with
  | setPreferred t _ _ => cases t <;> exact ⟨rfl, rfl, rfl, rfl, rfl, rfl⟩
  | setFunding t _ _ => cases t <;> exact ⟨rfl, rfl, rfl, rfl, rfl, rfl⟩
  | updatePool _ _ _ =>
    unfold StakePool.advanceEpoch
    split <;> exact ⟨rfl, rfl, rfl, rfl, rfl, rfl⟩
  | withdrawStake _ _ _ _ _ _ _ _ _ _ _ _ =>
    simp only [StakePool.withdrawn]
    split <;> exact ⟨rfl, rfl, rfl, rfl, rfl, rfl⟩
  | setFee _ _ _ _ update =>
    obtain ⟨h1, h2, h3, h4, h5, h6⟩ := StakePool.updateFee_kept update
    exact ⟨h3, h4, h1, h2, h5, h6⟩
  | _ => exact ⟨rfl, rfl, rfl, rfl, rfl, rfl⟩

theorem DepositWsolRun.effect {a : AccountMeta} {lamports : Nat} (laws : ProgramLaws rt)
    (ha : accounts[0]? = some a) (hp : PoolAt rt w a.key p) (hl : ListAt rt w p.validatorList l)
    (r : DepositWsolRun rt sv accounts lamports w w') :
    ∃ tokens, BookEffect rt sv accounts w w' a.key p l (p.deposited tokens lamports) l := by
  obtain rfl := Option.some.inj (ha.symm.trans r.pool_at)
  obtain ⟨inner, hpool, -⟩ := r.inner
  have heffect := inner.effect laws ha (hp.of_frames laws r.frames) (hl.of_frames laws r.frames) hpool
  exact ⟨_, heffect.after_frames laws hp hl r.frames⟩

theorem WithdrawWsolRun.effect {a : AccountMeta} {poolTokens : Nat} (laws : ProgramLaws rt)
    (ha : accounts[0]? = some a) (hp : PoolAt rt w a.key p) (hl : ListAt rt w p.validatorList l)
    (r : WithdrawWsolRun rt sv accounts poolTokens w w') :
    ∃ tokens lamports, BookEffect rt sv accounts w w' a.key p l (p.withdrawn tokens lamports) l := by
  obtain rfl := Option.some.inj (ha.symm.trans r.pool_at)
  obtain ⟨inner, hpool, -, -, -, -, -, -, htoken⟩ := r.inner
  have heffect := inner.effect laws ha (hp.of_frames laws r.create_frames)
    (hl.of_frames laws r.create_frames) (by rw [htoken]; exact Or.inl r.token_key) hpool
  exact ⟨_, _, (heffect.after_frames laws hp hl r.create_frames).before_frames laws
    heffect.step.sameIdentity.validatorList r.sync_frames⟩

theorem InitializeRun.not_pool {fee withdrawalFee depositFee : Fee} {referralFee : UInt8}
    {maxValidators : UInt32} (r : InitializeRun rt sv accounts fee withdrawalFee depositFee
      referralFee maxValidators w w') : ¬ PoolAt rt w r.pool.key p := by
  intro hp
  have hdata := r.pool_data
  rw [Account.tryStakePool, hp.data] at hdata
  have hnew := r.pool_new
  rw [← Except.ok.inj hdata] at hnew
  exact absurd (hp.valid.symm.trans hnew) (by decide)

theorem InitializeRun.not_list {fee withdrawalFee depositFee : Fee} {referralFee : UInt8}
    {maxValidators : UInt32} (r : InitializeRun rt sv accounts fee withdrawalFee depositFee
      referralFee maxValidators w w') : ¬ ListAt rt w r.list.key l := by
  intro hl
  have hdata := r.list_data
  rw [Account.tryValidatorList, hl.data] at hdata
  have hnew := r.list_new
  rw [← Except.ok.inj hdata] at hnew
  exact absurd (hl.valid.symm.trans hnew) (by decide)

/-- A successful instruction on an initialized pool is a step of its books. -/
theorem Handled.effect {a : AccountMeta} (laws : ProgramLaws rt) (h : Handled rt sv accounts w w')
    (ha : accounts[0]? = some a) (hp : PoolAt rt w a.key p) (hl : ListAt rt w p.validatorList l) :
    ∃ p' l', BookEffect rt sv accounts w w' a.key p l p' l' := by
  cases h with
  | initializePool r =>
    obtain rfl := Option.some.inj (ha.symm.trans r.pool_at)
    exact absurd hp r.not_pool
  | addValidator r => exact ⟨_, _, r.effect laws ha hp hl⟩
  | removeValidator r => exact ⟨_, _, r.effect laws ha hp hl⟩
  | decrease r => exact ⟨_, _, r.effect laws ha hp hl⟩
  | increase r => exact ⟨_, _, r.effect laws ha hp hl⟩
  | setPreferred r => exact ⟨_, l, r.effect laws ha hp hl⟩
  | updateList r => exact ⟨_, _, r.effect laws ha hp hl⟩
  | updatePool r => exact ⟨_, l, r.effect laws ha hp hl⟩
  | cleanup r =>
    obtain ⟨p', -, he⟩ := r.effect laws ha hp hl
    exact ⟨p', l.cleaned, he⟩
  | depositStake r => exact ⟨_, _, r.effect laws ha hp hl⟩
  | depositSol r =>
    exact ⟨_, l, r.effect laws ha hp hl (Option.some.inj (r.pool_at.symm.trans ha))⟩
  | depositWsol r =>
    obtain ⟨_, he⟩ := r.effect laws ha hp hl
    exact ⟨_, l, he⟩
  | withdrawStake r =>
    obtain ⟨l', -, he⟩ := r.effect laws ha hp hl
    exact ⟨_, l', he⟩
  | withdrawSol r =>
    exact ⟨_, l, r.effect laws ha hp hl r.isToken (Option.some.inj (r.pool_at.symm.trans ha))⟩
  | withdrawWsol r =>
    obtain ⟨_, _, he⟩ := r.effect laws ha hp hl
    exact ⟨_, l, he⟩
  | setManager r => exact ⟨_, l, r.effect laws ha hp hl⟩
  | setFee r => exact ⟨_, l, r.effect laws ha hp hl⟩
  | setStaker r => exact ⟨_, l, r.effect laws ha hp hl⟩
  | setFunding r => exact ⟨_, l, r.effect laws ha hp hl⟩
  | createMetadata h =>
    exact ⟨p, l, .of_frames laws hp hl
      ((processCreatePoolTokenMetadata_spec h).2.mono scribes_subset_outsiders)⟩
  | updateMetadata h =>
    exact ⟨p, l, .of_frames laws hp hl
      ((processUpdatePoolTokenMetadata_spec h).2.mono scribes_subset_outsiders)⟩

end StakePoolFogo
