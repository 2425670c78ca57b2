import StakePoolFogo.ListShape
import StakePoolFogo.Trace

/-!
# Outdated pools

From the first moment of an epoch until `UpdateStakePoolBalance` a pool is out of date.  All it takes
then is upkeep: the cranks, the cleanup and the manager's and the staker's settings.  Its price stands
still, no validator joins, and the program leaves every token account and mint alone.
-/

open StakePoolFogo.Outcome

namespace StakePoolFogo

/-- The instructions that ask for no up-to-date pool, besides `UpdateStakePoolBalance`. -/
def StakePoolInstruction.isUpkeep : StakePoolInstruction → Bool
  | .updateValidatorListBalance _ _ | .cleanupRemovedValidatorEntries | .setPreferredValidator _ _
  | .setManager | .setFee _ | .setStaker | .setFundingAuthority _ | .createTokenMetadata _ _ _
  | .updateTokenMetadata _ _ _ => true
  | _ => false

/-- What the exchange rate is computed from, and when it was last brought up to date. -/
def StakePool.pricing (p : StakePool) : Nat × Nat × Epoch :=
  (p.totalLamports, p.poolTokenSupply, p.lastUpdateEpoch)

/-- Token accounts and mints are at most credited with lamports. -/
def TokensKept (rt : Runtime) (w w' : Ledger) : Prop :=
  ∀ x, rt.isTokenProgram (w x).owner → (w x).OnlyCredited (w' x)

/-- What upkeep does to the pool at `k` and to the tokens. -/
structure Upkeep (rt : Runtime) (k : Pubkey) (w w' : Ledger) (p : StakePool) (l : ValidatorList)
    (p' : StakePool) (l' : ValidatorList) : Prop where
  pool : PoolAt rt w' k p'
  list : ListAt rt w' p.validatorList l'
  pricing : p'.pricing = p.pricing
  votes : l'.votes.Sublist l.votes
  tokens : TokensKept rt w w'

variable {rt : Runtime} {sv : Sysvars} {w w' w'' : Ledger} {s s' : World} {accounts : List AccountMeta}
  {a : AccountMeta} {k : Pubkey} {p p' : StakePool} {l l' : ValidatorList}

namespace TokensKept

theorem trans (h : TokensKept rt w w') (h' : TokensKept rt w' w'') : TokensKept rt w w'' := by
  intro x hx
  have hk := h x hx
  exact hk.trans (h' x (by rw [hk.owner]; exact hx))

theorem of_frames {callees : List Pubkey} (hc : ∀ k, rt.isTokenProgram k → k ∉ callees)
    (h : Frames callees w w') : TokensKept rt w w' := fun x hx => h.others x (hc _ hx)

/-- Writing to an account of the program. -/
theorem of_onlyAt (laws : ProgramLaws rt) {k : Pubkey} (h : OnlyAt [k] w w')
    (howner : (w k).owner = rt.programId) : TokensKept rt w w' := by
  intro x hx
  have hne : x ≠ k := by
    rintro rfl
    rw [howner] at hx
    rcases hx with heq | heq
    · exact laws.splToken_ne heq.symm
    · exact laws.splToken2022_ne heq.symm
  rw [h x (by simpa using hne)]
  exact .refl _

theorem of_writeStakePool (laws : ProgramLaws rt) (hp : PoolAt rt w k p)
    (h : writeStakePool w k p' = .ok w') : TokensKept rt w w' :=
  .of_onlyAt laws (OnlyAt.of_writeStakePool h) hp.owner

theorem scribed (laws : ProgramLaws rt) (h : Frames (scribes rt) w w') : TokensKept rt w w' := by
  apply of_frames _ h
  intro k hk
  simp only [scribes, List.mem_cons, List.not_mem_nil, or_false, not_or]
  exact ⟨laws.token_ne_metadata k hk, laws.token_ne_system k hk⟩

end TokensKept

theorem StakePool.updateFee_pricing {fee : FeeType} (h : p.updateFee fee = .ok p') :
    p'.pricing = p.pricing := by
  cases fee with
  | stakeWithdrawal | solWithdrawal =>
    simp only [updateFee, bind_eq_ok, exists_unit, pure_eq_ok] at h
    obtain ⟨-, rfl⟩ := h
    rfl
  | _ =>
    cases h
    rfl

theorem CleanupRun.tokens (laws : ProgramLaws rt) (r : CleanupRun rt accounts w w') :
    TokensKept rt w w' := by
  have hlist : TokensKept rt w (writeValidatorList w r.p.validatorList r.l.cleaned) :=
    .of_onlyAt laws (OnlyAt.set _ _ _) r.isList.owner
  apply hlist.trans
  rcases onlyIf_eq_ok.mp r.result with ⟨-, hwrite⟩ | ⟨-, hsame⟩
  · apply TokensKept.of_onlyAt laws (OnlyAt.of_writeStakePool hwrite)
    rw [writeValidatorList, Ledger.set_other _ _ (r.isPool.ne_list r.isList)]
    exact r.isPool.owner
  · intro x _
    rw [← congrFun hsame x]
    exact .refl _

theorem UpdateListRun.tokens (laws : ProgramLaws rt) {startIndex : UInt32} {noMerge : Bool}
    (r : UpdateListRun rt sv accounts startIndex noMerge w w') : TokensKept rt w w' := by
  have hframes := (refreshEntries_spec r.refresh).2
  have hlist := r.isList.of_frames laws (hframes.mono stake_subset_outsiders)
  have hsettled : TokensKept rt w r.settled := by
    apply TokensKept.of_frames _ hframes
    intro k hk
    simpa using laws.token_ne_stake k hk
  rw [r.result]
  exact hsettled.trans (.of_onlyAt laws (OnlyAt.set _ _ _) hlist.owner)

/-! ## One instruction -/

/-- An instruction that succeeds on an outdated pool brings it up to date or is upkeep. -/
theorem processInstruction_outdated (laws : ProgramLaws rt) {i : StakePoolInstruction}
    (ha : accounts[0]? = some a) (hp : PoolAt rt w a.key p) (hl : ListAt rt w p.validatorList l)
    (hout : p.lastUpdateEpoch < sv.epoch) (h : processInstruction rt sv accounts i w = .ok w') :
    i = .updateStakePoolBalance ∨
      i.isUpkeep = true ∧ ∃ p' l', Upkeep rt a.key w w' p l p' l' := by
  have hread : ∀ {b : AccountMeta} {q : StakePool}, accounts[0]? = some b → PoolAt rt w b.key q →
      ¬ ¬ q.lastUpdateEpoch < sv.epoch := by
    intro b q hb hq
    obtain rfl := Option.some.inj (ha.symm.trans hb)
    rw [← hp.unique hq]
    exact not_not.mpr hout
  cases i with
  | updateStakePoolBalance => exact .inl rfl
  | redelegate => cases h
  | initializePool =>
    obtain ⟨r⟩ := processInitialize_run rt sv h
    obtain rfl := Option.some.inj (ha.symm.trans r.pool_at)
    exact absurd hp r.not_pool
  | addValidatorToPool =>
    obtain ⟨r⟩ := processAddValidatorToPool_run rt sv h
    exact absurd r.upToDate (hread r.pool_at r.isPool)
  | removeValidatorFromPool =>
    obtain ⟨r⟩ := processRemoveValidatorFromPool_run rt sv h
    exact absurd r.upToDate (hread r.pool_at r.isPool)
  | decreaseValidatorStake | decreaseValidatorStakeWithReserve | decreaseAdditionalValidatorStake =>
    obtain ⟨r⟩ := processDecreaseValidatorStake_run rt sv h
    exact absurd r.upToDate (hread r.pool_at r.isPool)
  | increaseValidatorStake | increaseAdditionalValidatorStake =>
    obtain ⟨r⟩ := processIncreaseValidatorStake_run rt sv h
    exact absurd r.upToDate (hread r.pool_at r.isPool)
  | depositStake | depositStakeWithSlippage =>
    obtain ⟨r⟩ := processDepositStake_run rt sv h
    exact absurd r.upToDate (hread r.pool_at r.isPool)
  | depositSol | depositSolWithSlippage =>
    obtain ⟨r⟩ := processDepositSol_run rt sv h
    exact absurd r.upToDate (hread r.pool_at r.isPool)
  | depositWsolWithSession =>
    obtain ⟨r⟩ := processDepositWsolWithSession_run rt sv h
    obtain ⟨inner, hpool, -⟩ := r.inner
    have hbefore := (OwnFrame.of_frames laws r.frames).poolAt_before inner.isPool id
    rw [hpool] at hbefore
    exact absurd inner.upToDate (hread r.pool_at hbefore)
  | withdrawStake | withdrawStakeWithSlippage =>
    obtain ⟨r⟩ := processWithdrawStake_run rt sv h
    exact absurd r.upToDate (hread r.pool_at r.isPool)
  | withdrawSol | withdrawSolWithSlippage =>
    obtain ⟨r⟩ := processWithdrawSol_run rt sv h
    exact absurd r.upToDate (hread r.pool_at r.isPool)
  | withdrawWsolWithSession =>
    obtain ⟨r⟩ := processWithdrawWsolWithSession_run rt sv h
    obtain ⟨inner, hpool, -⟩ := r.inner
    have hbefore := (OwnFrame.of_frames laws r.create_frames).poolAt_before inner.isPool id
    rw [hpool] at hbefore
    exact absurd inner.upToDate (hread r.pool_at hbefore)
  | updateValidatorListBalance =>
    obtain ⟨r⟩ := (processUpdateValidatorListBalance_run rt sv).mp h
    have he := r.effect laws ha hp hl
    refine .inr ⟨rfl, _, _, he.own.after, he.list, rfl, ?_, r.tokens laws⟩
    obtain rfl := Option.some.inj (ha.symm.trans r.pool_at)
    obtain rfl := hp.unique r.isPool
    obtain rfl := hl.unique (by rw [← r.list_key]; exact r.isList)
    have hrefreshed := sameShape_votes ((refreshEntries_spec r.refresh).1.imp fun _ _ h => h.sameShape)
    simp only [ValidatorList.votes, List.map_append, hrefreshed]
    rw [← List.map_append, List.take_append_drop]
  | cleanupRemovedValidatorEntries =>
    obtain ⟨r⟩ := processCleanupRemovedValidatorEntries_run rt h
    obtain ⟨p', hp', he⟩ : ∃ p', (p' = p ∨ p' = p.keepListed l.cleaned) ∧
      BookEffect rt sv accounts w w' a.key p l p' l.cleaned := r.effect laws ha hp hl
    refine .inr ⟨rfl, _, _, he.own.after, he.list, ?_, List.filter_sublist.map _, r.tokens laws⟩
    rcases hp' with rfl | rfl <;> rfl
  | setPreferredValidator t =>
    obtain ⟨r⟩ := processSetPreferredValidator_run rt h
    have he : BookEffect rt sv accounts w w' a.key p l _ l := r.effect laws ha hp hl
    refine .inr ⟨rfl, _, _, he.own.after, he.list, ?_, .refl _, .of_writeStakePool laws r.isPool r.result⟩
    cases t <;> rfl
  | setManager =>
    obtain ⟨r⟩ := processSetManager_run rt h
    have he : BookEffect rt sv accounts w w' a.key p l _ l := r.effect laws ha hp hl
    exact .inr ⟨rfl, _, _, he.own.after, he.list, rfl, .refl _, .of_writeStakePool laws r.isPool r.result⟩
  | setFee fee =>
    obtain ⟨r⟩ := processSetFee_run rt sv h
    have he : BookEffect rt sv accounts w w' a.key p l _ l := r.effect laws ha hp hl
    refine .inr ⟨rfl, _, _, he.own.after, he.list, ?_, .refl _, .of_writeStakePool laws r.isPool r.result⟩
    obtain rfl := Option.some.inj (ha.symm.trans r.pool_at)
    rw [hp.unique r.isPool]
    exact StakePool.updateFee_pricing r.update
  | setStaker =>
    obtain ⟨r⟩ := processSetStaker_run rt h
    have he : BookEffect rt sv accounts w w' a.key p l _ l := r.effect laws ha hp hl
    exact .inr ⟨rfl, _, _, he.own.after, he.list, rfl, .refl _, .of_writeStakePool laws r.isPool r.result⟩
  | setFundingAuthority t =>
    obtain ⟨r⟩ := processSetFundingAuthority_run rt h
    have he : BookEffect rt sv accounts w w' a.key p l _ l := r.effect laws ha hp hl
    refine .inr ⟨rfl, _, _, he.own.after, he.list, ?_, .refl _, .of_writeStakePool laws r.isPool r.result⟩
    cases t <;> rfl
  | createTokenMetadata =>
    have hframes := (processCreatePoolTokenMetadata_spec h).2
    have hkept := hframes.mono scribes_subset_outsiders
    exact .inr ⟨rfl, p, l, hp.of_frames laws hkept, hl.of_frames laws hkept, rfl, .refl _,
      .scribed laws hframes⟩
  | updateTokenMetadata =>
    have hframes := (processUpdatePoolTokenMetadata_spec h).2
    have hkept := hframes.mono scribes_subset_outsiders
    exact .inr ⟨rfl, p, l, hp.of_frames laws hkept, hl.of_frames laws hkept, rfl, .refl _,
      .scribed laws hframes⟩

/-! ## Until the next update -/

/-- One event other than an update of the pool at `k`, with time going forward. -/
def Unpriced (rt : Runtime) (k : Pubkey) (s s' : World) : Prop :=
  ∃ e, Happens rt s s' e ∧ ¬ e.Calls k (· = .updateStakePoolBalance) ∧ s.sysvars.epoch ≤ s'.sysvars.epoch

/-- One such event keeps the pool as it is for pricing, and outdated. -/
theorem Unpriced.step (laws : ProgramLaws rt) (hreg : Registry rt s.ledger) (hp : PoolAt rt s.ledger k p)
    (hl : ListAt rt s.ledger p.validatorList l) (hout : p.lastUpdateEpoch < s.sysvars.epoch)
    (h : Unpriced rt k s s') :
    ∃ p' l', PoolAt rt s'.ledger k p' ∧ ListAt rt s'.ledger p'.validatorList l' ∧
      p'.pricing = p.pricing ∧ l'.votes.Sublist l.votes ∧ p'.lastUpdateEpoch < s'.sysvars.epoch := by
  obtain ⟨e, happens, hnot, hlater⟩ := h
  have hreg' := happens.moves.registry laws hreg
  rcases happens.on_pool laws hreg hp hl with
    ⟨accounts, input, a, i, rfl, ha, rfl, hi, hrun, hsysvars⟩ | ⟨-, hp', hl'⟩
  · rcases processInstruction_outdated laws ha hp hl hout hrun with rfl | ⟨-, p', l', hup⟩
    · exact absurd (.intro ha rfl hi rfl) hnot
    · have hepoch : p'.lastUpdateEpoch = p.lastUpdateEpoch := congrArg (·.2.2) hup.pricing
      obtain ⟨p₁, l₁, hp₁, hl₁, hsame, -⟩ := happens.moves.identity laws hreg hp hl
      rw [hp₁.unique hup.pool] at hsame
      refine ⟨p', l', hup.pool, ?_, hup.pricing, hup.votes, ?_⟩
      · rw [hsame.validatorList]
        exact hup.list
      · rw [hepoch, hsysvars]
        exact hout
  · exact ⟨p, l, hp', hl', rfl, .refl _, Nat.lt_of_lt_of_le hout hlater⟩

/-- From the moment a pool is outdated until it is updated, whatever else is called in whatever order
and however many epochs pass: its price stands still, no validator joins, and every instruction on it
that succeeds is the update or upkeep, which neither mints nor burns nor moves tokens. -/
theorem outdated_pool_frozen (laws : ProgramLaws rt) (hs : Reachable rt s) (hp : PoolAt rt s.ledger k p)
    (hl : ListAt rt s.ledger p.validatorList l) (hout : p.lastUpdateEpoch < s.sysvars.epoch)
    (hrun : Relation.ReflTransGen (Unpriced rt k) s s') :
    ∃ p' l', PoolAt rt s'.ledger k p' ∧ ListAt rt s'.ledger p'.validatorList l' ∧
      p'.totalLamports = p.totalLamports ∧ p'.poolTokenSupply = p.poolTokenSupply ∧
      p'.lastUpdateEpoch = p.lastUpdateEpoch ∧ l'.votes.Sublist l.votes ∧
      ∀ accounts a i w', accounts[0]? = some a → a.key = k →
        processInstruction rt s'.sysvars accounts i s'.ledger = .ok w' →
        i = .updateStakePoolBalance ∨ i.isUpkeep = true ∧ TokensKept rt s'.ledger w' := by
  have hkept : Registry rt s'.ledger ∧ ∃ p' l', PoolAt rt s'.ledger k p' ∧
      ListAt rt s'.ledger p'.validatorList l' ∧ p'.pricing = p.pricing ∧ l'.votes.Sublist l.votes ∧
      p'.lastUpdateEpoch < s'.sysvars.epoch := by
    -- The pool stays outdated along the run, so what one step keeps, all of them keep.
    induction hrun with
    | refl => exact ⟨hs.registry laws, p, l, hp, hl, rfl, .refl _, hout⟩
    | tail _ hstep ih =>
      obtain ⟨hreg, q, m, hq, hm, hpricing, hvotes, hout'⟩ := ih
      obtain ⟨p', l', hp', hl', hpricing', hvotes', hlate⟩ := hstep.step laws hreg hq hm hout'
      obtain ⟨e, happens, -⟩ := hstep
      exact ⟨happens.moves.registry laws hreg, p', l', hp', hl', hpricing'.trans hpricing,
        hvotes'.trans hvotes, hlate⟩
  -- Whatever succeeds at the end finds the same outdated pool.
  obtain ⟨-, p', l', hp', hl', hpricing, hvotes, hlate⟩ := hkept
  simp only [StakePool.pricing, Prod.mk.injEq] at hpricing
  refine ⟨p', l', hp', hl', hpricing.1, hpricing.2.1, hpricing.2.2, hvotes, ?_⟩
  rintro accounts a i w' ha rfl h
  rcases processInstruction_outdated laws ha hp' hl' hlate h with heq | ⟨hupkeep, _, _, hup⟩
  · exact .inl heq
  · exact .inr ⟨hupkeep, hup.tokens⟩

theorem World.atEpoch_ledger (epoch : Epoch) (s : World) : (s.atEpoch epoch).ledger = s.ledger := rfl

open Reference in
/-- The reference pool with one validator, one epoch after its last update: its list is updated, the pool is
not, and another epoch passes. -/
theorem outdated_pool_frozen_staked : ∃ p p' l', PoolAt runtime staked.ledger pool p ∧
    PoolAt runtime ((updated false (staked.atEpoch 1)).atEpoch 2).ledger pool p' ∧
    ListAt runtime ((updated false (staked.atEpoch 1)).atEpoch 2).ledger p'.validatorList l' ∧
    p'.totalLamports = p.totalLamports ∧ p'.lastUpdateEpoch = 0 ∧
    l'.validators.map (·.lastUpdateEpoch) = [1] := by
  obtain ⟨p, hp, hepoch⟩ : ∃ p, PoolAt runtime staked.ledger pool p ∧ p.lastUpdateEpoch = 0 :=
    PoolAt.of_load _ (by decide +kernel)
  obtain ⟨l, hl⟩ := (staked_reachable.registry programLaws).hasList hp
  have hreach : Reachable runtime (staked.atEpoch 1) := by
    obtain ⟨s₀, hs₀, hrun⟩ := staked_reachable
    exact ⟨s₀, hs₀, hrun.tail (.elsewhere (Elsewhere.atEpoch _ 1 _))⟩
  have hcranked : Executes runtime updateListAccounts (.updateValidatorListBalance 0 false)
      (staked.atEpoch 1) (updated false (staked.atEpoch 1)) := .of_succeeded (by decide +kernel)
  have hdecoded : StakePoolInstruction.tryFromSlice [6, 0, 0, 0, 0, 0] =
      .ok (.updateValidatorListBalance 0 false) := by decide +kernel
  have hfirst : Unpriced runtime pool (staked.atEpoch 1) (updated false (staked.atEpoch 1)) := by
    refine ⟨_, hcranked.happens _ hdecoded, fun hcalls => ?_, by rw [hcranked.sysvars]⟩
    cases hcalls with
    | intro _ _ hi hupdates =>
      cases hdecoded.symm.trans hi
      cases hupdates
  have hsecond : Unpriced runtime pool (updated false (staked.atEpoch 1))
      ((updated false (staked.atEpoch 1)).atEpoch 2) := by
    refine ⟨.elsewhere, .elsewhere (Elsewhere.atEpoch _ 2 _), fun hcalls => ?_, ?_⟩
    · cases hcalls
    · rw [hcranked.sysvars]
      decide
  have hout : p.lastUpdateEpoch < (staked.atEpoch 1).sysvars.epoch := by
    rw [hepoch]
    decide
  have hp₁ : PoolAt runtime (staked.atEpoch 1).ledger pool p := by rwa [World.atEpoch_ledger]
  have hl₁ : ListAt runtime (staked.atEpoch 1).ledger p.validatorList l := by
    rwa [World.atEpoch_ledger]
  obtain ⟨p', l', hp', hl', htotal, -, hlast, -⟩ :=
    outdated_pool_frozen programLaws hreach hp₁ hl₁ hout ((Relation.ReflTransGen.single hfirst).tail hsecond)
  obtain ⟨q, hq, hkey⟩ : ∃ q, PoolAt runtime ((updated false (staked.atEpoch 1)).atEpoch 2).ledger pool q ∧
      q.validatorList = validatorList := PoolAt.of_load _ (by decide +kernel)
  obtain ⟨m, hm, hfresh⟩ : ∃ m, ListAt runtime ((updated false (staked.atEpoch 1)).atEpoch 2).ledger
      validatorList m ∧ m.validators.map (·.lastUpdateEpoch) = [1] :=
    ListAt.of_load _ (by decide +kernel)
  obtain rfl := hq.unique hp'
  obtain rfl := hm.unique (hkey ▸ hl')
  exact ⟨p, q, m, hp, hp', hl', htotal, hlast.trans hepoch, hfresh⟩

end StakePoolFogo
