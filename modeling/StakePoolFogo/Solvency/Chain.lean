import StakePoolFogo.Solvency.Isolation

/-!
# Every pool of the chain

Many pools side by side: calls on any of them in any order, new pools in between, and whatever else
happens.  A call on one pool is something that happens outside of every other, so each of them lives
through a run of its own and stays backed.
-/

open StakePoolFogo.Checked StakePoolFogo.Outcome

namespace StakePoolFogo

/-- A chain from before the program's first instruction on.  Nobody else signs for a pool's withdraw
authority or takes away what a pool holds. -/
inductive ChainRun (rt : Runtime) (steady : Prop) : World → Prop where
  | genesis {s : World} (untouched : Untouched rt s) : ChainRun rt steady s
  | call {s s' : World} {accounts : List AccountMeta} {input : List UInt8}
      (before : ChainRun rt steady s) (happens : Happens rt s s' (.call accounts input))
      (unsigned : ∀ k p, PoolAt rt s.ledger k p → ∀ b ∈ accounts, b.key = (poolKeeper rt k).authority →
        b.isSigner = false)
      (orderly : ∀ k p, PoolAt rt s'.ledger k p → Orderly rt k s' ∧ AuthoritiesApart rt k s'.ledger)
      -- The stake program made the reserve of a new pool rent exempt.
      (rent : ∀ k p info, (∀ q, ¬ PoolAt rt s.ledger k q) → PoolAt rt s'.ledger k p →
        (s'.ledger p.reserveStake).data = .stake (.initialized info) →
        0 < info.rentExemptReserve ∧ info.rentExemptReserve < 2 ^ 64) : ChainRun rt steady s'
  | elsewhere {s s' : World} (before : ChainRun rt steady s) (step : Elsewhere rt s s')
      (respects : ∀ k p, PoolAt rt s.ledger k p → Respects rt k steady s s')
      (orderly : ∀ k p, PoolAt rt s'.ledger k p → Orderly rt k s' ∧ AuthoritiesApart rt k s'.ledger) :
      ChainRun rt steady s'

variable {rt : Runtime} {sv : Sysvars} {k : Pubkey} {steady : Prop} {w w' : Ledger} {s s' : World}
  {accounts : List AccountMeta} {p : StakePool} {l : ValidatorList}

theorem ChainRun.reachable (h : ChainRun rt steady s) : Reachable rt s := by
  induction h with
  | genesis untouched => exact ⟨_, untouched, .refl⟩
  | call _ happens _ _ _ ih =>
    obtain ⟨s₀, hs₀, hrun⟩ := ih
    exact ⟨s₀, hs₀, hrun.tail happens.moves⟩
  | elsewhere _ step _ _ ih =>
    obtain ⟨s₀, hs₀, hrun⟩ := ih
    exact ⟨s₀, hs₀, hrun.tail (.elsewhere step)⟩

theorem Untouched.not_pool (h : Untouched rt s) : ¬ PoolAt rt s.ledger k p := by
  intro hp
  have hdata := h k hp.owner
  rw [hp.data] at hdata
  cases hdata

theorem ChainRun.orderly (h : ChainRun rt steady s) (hp : PoolAt rt s.ledger k p) :
    Orderly rt k s ∧ AuthoritiesApart rt k s.ledger := by
  cases h with
  | genesis untouched => exact absurd hp untouched.not_pool
  | call _ _ _ orderly _ => exact orderly k p hp
  | elsewhere _ _ _ orderly => exact orderly k p hp

/-! ## Calls on other pools -/

/-- A call that names another pool first: the records of the pool at `k` stay as they are, and what it
holds is at most credited: its owner, its stake and its authorities are what they were. -/
theorem foreign_call_respects (laws : ProgramLaws rt) (system : SystemLaws rt) (stakes : StakeLaws rt)
    (credits : CreditLaws rt) {input : List UInt8} (hs : Reachable rt s)
    (hp : PoolAt rt s.ledger k p) (hl : ListAt rt s.ledger p.validatorList l)
    (hauthorities : AuthoritiesApart rt k s.ledger)
    (helsewhere : ∀ a, accounts[0]? = some a → k ≠ a.key)
    (hunsigned : ∀ b ∈ accounts, b.key = (poolKeeper rt k).authority → b.isSigner = false)
    (h : process rt s.sysvars accounts input s.ledger = .ok w') :
    PoolAt rt w' k p ∧ ListAt rt w' p.validatorList l ∧
      ∀ j, Held rt (poolKeeper rt k) (s.ledger j) → (s.ledger j).OnlyCredited (w' j) := by
  have hhandled := process_handled h
  obtain ⟨hp', hl'⟩ := (hhandled.record laws (hs.registry laws)).kept (hs.registry laws) hp hl helsewhere
  exact ⟨hp', hl', hhandled.foreign laws system stakes credits hauthorities helsewhere hunsigned⟩

/-! ## New pools -/

theorem DepositWsolRun.isPool (laws : ProgramLaws rt) {lamports : Nat}
    (r : DepositWsolRun rt sv accounts lamports w w') : ∃ p, PoolAt rt w r.pool.key p := by
  obtain ⟨inner, hpool, -⟩ := r.inner
  have hp := inner.isPool
  rw [hpool] at hp
  exact ⟨_, (OwnFrame.of_frames laws r.frames).poolAt_before hp id⟩

theorem WithdrawWsolRun.isPool (laws : ProgramLaws rt) {poolTokens : Nat}
    (r : WithdrawWsolRun rt sv accounts poolTokens w w') : ∃ p, PoolAt rt w r.pool.key p := by
  obtain ⟨inner, hpool, -⟩ := r.inner
  have hp := inner.isPool
  rw [hpool] at hp
  exact ⟨_, (OwnFrame.of_frames laws r.create_frames).poolAt_before hp id⟩

/-- Every instruction but `Initialize` insists on a pool in first place. -/
theorem processInstruction_pool (laws : ProgramLaws rt) {i : StakePoolInstruction}
    (h : processInstruction rt sv accounts i w = .ok w') :
    (∃ fee withdrawalFee depositFee referralFee maxValidators,
      i = .initializePool fee withdrawalFee depositFee referralFee maxValidators) ∨
    ∃ a p, accounts[0]? = some a ∧ PoolAt rt w a.key p := by
  cases i with
  | initializePool => exact .inl ⟨_, _, _, _, _, rfl⟩
  | redelegate => cases h
  | addValidatorToPool =>
    obtain ⟨r⟩ := processAddValidatorToPool_run rt sv h
    exact .inr ⟨_, _, r.pool_at, r.isPool⟩
  | removeValidatorFromPool =>
    obtain ⟨r⟩ := processRemoveValidatorFromPool_run rt sv h
    exact .inr ⟨_, _, r.pool_at, r.isPool⟩
  | decreaseValidatorStake | decreaseValidatorStakeWithReserve | decreaseAdditionalValidatorStake =>
    obtain ⟨r⟩ := processDecreaseValidatorStake_run rt sv h
    exact .inr ⟨_, _, r.pool_at, r.isPool⟩
  | increaseValidatorStake | increaseAdditionalValidatorStake =>
    obtain ⟨r⟩ := processIncreaseValidatorStake_run rt sv h
    exact .inr ⟨_, _, r.pool_at, r.isPool⟩
  | setPreferredValidator =>
    obtain ⟨r⟩ := processSetPreferredValidator_run rt h
    exact .inr ⟨_, _, r.pool_at, r.isPool⟩
  | updateValidatorListBalance =>
    obtain ⟨r⟩ := (processUpdateValidatorListBalance_run rt sv).mp h
    exact .inr ⟨_, _, r.pool_at, r.isPool⟩
  | updateStakePoolBalance =>
    obtain ⟨r⟩ := (processUpdateStakePoolBalance_run rt sv).mp h
    exact .inr ⟨_, _, r.pool_at, r.isPool⟩
  | cleanupRemovedValidatorEntries =>
    obtain ⟨r⟩ := processCleanupRemovedValidatorEntries_run rt h
    exact .inr ⟨_, _, r.pool_at, r.isPool⟩
  | depositStake | depositStakeWithSlippage =>
    obtain ⟨r⟩ := processDepositStake_run rt sv h
    exact .inr ⟨_, _, r.pool_at, r.isPool⟩
  | depositSol | depositSolWithSlippage =>
    obtain ⟨r⟩ := processDepositSol_run rt sv h
    exact .inr ⟨_, _, r.pool_at, r.isPool⟩
  | depositWsolWithSession =>
    obtain ⟨r⟩ := processDepositWsolWithSession_run rt sv h
    obtain ⟨p, hp⟩ := r.isPool laws
    exact .inr ⟨_, p, r.pool_at, hp⟩
  | withdrawStake | withdrawStakeWithSlippage =>
    obtain ⟨r⟩ := processWithdrawStake_run rt sv h
    exact .inr ⟨_, _, r.pool_at, r.isPool⟩
  | withdrawSol | withdrawSolWithSlippage =>
    obtain ⟨r⟩ := processWithdrawSol_run rt sv h
    exact .inr ⟨_, _, r.pool_at, r.isPool⟩
  | withdrawWsolWithSession =>
    obtain ⟨r⟩ := processWithdrawWsolWithSession_run rt sv h
    obtain ⟨p, hp⟩ := r.isPool laws
    exact .inr ⟨_, p, r.pool_at, hp⟩
  | setManager =>
    obtain ⟨r⟩ := processSetManager_run rt h
    exact .inr ⟨_, _, r.pool_at, r.isPool⟩
  | setFee =>
    obtain ⟨r⟩ := processSetFee_run rt sv h
    exact .inr ⟨_, _, r.pool_at, r.isPool⟩
  | setStaker =>
    obtain ⟨r⟩ := processSetStaker_run rt h
    exact .inr ⟨_, _, r.pool_at, r.isPool⟩
  | setFundingAuthority =>
    obtain ⟨r⟩ := processSetFundingAuthority_run rt h
    exact .inr ⟨_, _, r.pool_at, r.isPool⟩
  | createTokenMetadata => exact .inr (processCreatePoolTokenMetadata_spec h).1
  | updateTokenMetadata => exact .inr (processUpdatePoolTokenMetadata_spec h).1

/-- A pool that a call brings into being was initialized by it, as its first account. -/
theorem Happens.founds (laws : ProgramLaws rt) {input : List UInt8}
    (h : Happens rt s s' (.call accounts input)) (hreg : Registry rt s.ledger)
    (hnew : ∀ q, ¬ PoolAt rt s.ledger k q) (hp : PoolAt rt s'.ledger k p) :
    (∃ a, accounts[0]? = some a ∧ a.key = k) ∧ ∃ fee withdrawalFee depositFee referralFee maxValidators,
      StakePoolInstruction.tryFromSlice input =
        .ok (.initializePool fee withdrawalFee depositFee referralFee maxValidators) := by
  cases h with
  | call run _ =>
    have hrecord := (process_handled run).record laws hreg
    have hfirst : ∃ a, accounts[0]? = some a ∧ a.key = k := by
      by_contra hother
      push Not at hother
      have ha : ∃ a, accounts[0]? = some a := by
        cases hrecord with
        | founded hat _ => exact ⟨_, hat⟩
        | booked hat _ _ _ => exact ⟨_, hat⟩
      obtain ⟨a, ha⟩ := ha
      exact hnew p (hrecord.poolAt_before ha (hother a ha).symm hp)
    simp only [process, bind_eq_ok] at run
    obtain ⟨i, hi, hrun⟩ := run
    refine ⟨hfirst, ?_⟩
    rcases processInstruction_pool laws hrun with ⟨_, _, _, _, _, rfl⟩ | ⟨b, q, hb, hq⟩
    · exact ⟨_, _, _, _, _, hi⟩
    · obtain ⟨a, ha, rfl⟩ := hfirst
      obtain rfl := Option.some.inj (ha.symm.trans hb)
      exact absurd hq (hnew q)

/-! ## Runs -/

section Runs

variable (laws : ProgramLaws rt) (system : SystemLaws rt) (stakes : StakeLaws rt) (credits : CreditLaws rt)

include laws system stakes credits

/-- Each pool of the chain lives through a run of its own. -/
theorem ChainRun.poolRun (h : ChainRun rt steady s) (hp : PoolAt rt s.ledger k p) :
    PoolRun rt k steady s := by
  induction h generalizing p with
  | genesis untouched => exact absurd hp untouched.not_pool
  | elsewhere before step respects orderly ih =>
    have hq := step.ownFrame.poolAt_before hp id
    have houtside : PoolStep rt k steady _ _ :=
      .outside (.elsewhere step) (fun P hcall => by cases hcall) (respects k p hq)
    exact .step (ih hq) houtside (orderly k p hp).1
  | @call t t' accounts input before happens unsigned orderly rent ih =>
    have hreg := before.reachable.registry laws
    by_cases hold : ∃ q, PoolAt rt t.ledger k q
    · obtain ⟨q, hq⟩ := hold
      by_cases hfirst : ∃ a, accounts[0]? = some a ∧ a.key = k
      · obtain ⟨a, ha, hkey⟩ := hfirst
        exact .step (ih hq) (.call happens ha hkey (unsigned k q hq)) (orderly k p hp).1
      · -- A call on another pool is an event outside of this one.
        push Not at hfirst
        cases happens with
        | call run sysvars =>
          have hcredits := (process_handled run).foreign laws system stakes credits (before.orderly hq).2
            (fun a ha => (hfirst a ha).symm) (unsigned k q hq)
          have hrespects : Respects rt k steady t t' :=
            ⟨fun j hj => .of_onlyCredited (hcredits j hj),
              fun _ _ _ v _ _ _ _ hheld => .of_onlyCredited (hcredits _ hheld)⟩
          have houtside : PoolStep rt k steady t t' := by
            refine .outside (.call run sysvars) (fun P hcall => ?_) hrespects
            cases hcall with
            | intro ha hkey _ _ => exact hfirst _ ha hkey
          exact .step (ih hq) houtside (orderly k p hp).1
    · push Not at hold
      obtain ⟨⟨a, ha, hkey⟩, _, _, _, _, _, hdecoded⟩ := happens.founds laws hreg hold hp
      exact .founded before.reachable happens hdecoded ha hkey (orderly k p hp).1 fun q info hq =>
        rent k q info hold hq

end Runs

/-- The accounts that stand behind the books of the pool at `k`. -/
def Backs (rt : Runtime) (k : Pubkey) (p : StakePool) (l : ValidatorList) (j : Pubkey) : Prop :=
  j = p.reserveStake ∨ ∃ v ∈ l.validators, 0 < v.activeStakeLamports ∧ j = v.stakeKey rt k ∨
    0 < v.transientStakeLamports ∧ j = v.transientKey rt k

theorem Solvent.backs_held {keeper : Keeper} (h : Solvent rt k keeper steady w p l) {j : Pubkey}
    (hj : Backs rt k p l j) : Held rt keeper (w j) := by
  rcases hj with rfl | ⟨v, hv, ⟨hpos, rfl⟩ | ⟨hpos, rfl⟩⟩
  · exact h.reserve_held
  · obtain ⟨t, ht⟩ := h.entries v hv
    exact ht.validator (ht.has_active hpos)
  · obtain ⟨t, ht⟩ := h.entries v hv
    exact ht.transient hpos

/-- Two keepers of one account have the same authority. -/
theorem Held.same_authority {keeper keeper' : Keeper} {a : Account} (h : Held rt keeper a)
    (h' : Held rt keeper' a) : keeper.authority = keeper'.authority := by
  obtain ⟨_, _, h⟩ := h
  obtain ⟨_, _, h'⟩ := h'
  obtain ⟨rfl, rfl⟩ := h.unique h'.data h'.info_eq
  exact h.usable.1.symm.trans h'.usable.1

/-- Whatever is called in whatever order, every pool of the chain is backed: what is on record of an
entry is in its two accounts, the reserve keeps its minimum, and `total_lamports` is at most what the
reserve has above that together with what is on record.  No account backs two pools. -/
theorem every_pool_backed (laws : ProgramLaws rt) (addresses : AddressLaws rt) (system : SystemLaws rt)
    (stakes : StakeLaws rt) (credits : CreditLaws rt) (h : ChainRun rt steady s)
    (hp : PoolAt rt s.ledger k p) (hl : ListAt rt s.ledger p.validatorList l) :
    (∀ v ∈ l.validators, v.activeStakeLamports ≤ (s.ledger (v.stakeKey rt k)).lamports ∧
      v.transientStakeLamports ≤ (s.ledger (v.transientKey rt k)).lamports) ∧
    (∃ info, (s.ledger p.reserveStake).data = .stake (.initialized info) ∧
      minimumReserveLamports info ≤ (s.ledger p.reserveStake).lamports ∧
      p.totalLamports + minimumReserveLamports info ≤
        (s.ledger p.reserveStake).lamports + l.recorded) ∧
    ∀ k' p' l', PoolAt rt s.ledger k' p' → ListAt rt s.ledger p'.validatorList l' → k' ≠ k →
      ∀ j, Backs rt k p l j → ¬ Backs rt k' p' l' j := by
  have hsolvent : ∀ {k p l}, PoolAt rt s.ledger k p → ListAt rt s.ledger p.validatorList l →
      KeptBy rt k (poolKeeper rt k) p ∧ Solvent rt k (poolKeeper rt k) steady s.ledger p l :=
    fun hp hl => (h.poolRun laws system stakes credits hp).solvent laws addresses system stakes
      ((h.orderly hp).2.deposit _ _ hp) hp hl
  obtain ⟨-, hbacked⟩ := hsolvent hp hl
  refine ⟨fun v hv => ?_, ?_, fun k' p' l' hp' hl' hne j hj hj' => ?_⟩
  · obtain ⟨t, ht⟩ := hbacked.entries v hv
    exact ⟨ht.active_le, ht.transient_le⟩
  · obtain ⟨info, hheld, hle⟩ := hbacked.reserve
    exact ⟨info, hheld.data, Nat.le_trans (minimumReserveLamports_le info) hheld.exempt, hle⟩
  · obtain ⟨hkept, hbacked'⟩ := hsolvent hp' hl'
    have hauthority := (h.orderly hp).2.withdraw k' p' _ hp' hne hkept.authority
    exact hauthority ((hbacked'.backs_held hj').same_authority (hbacked.backs_held hj))

/-! ## Two pools on the reference chain -/

/-- A call other than `Initialize` adds no pool. -/
theorem Happens.pool_before (laws : ProgramLaws rt) {input : List UInt8} {i : StakePoolInstruction}
    (h : Happens rt s s' (.call accounts input)) (hreg : Registry rt s.ledger)
    (hi : StakePoolInstruction.tryFromSlice input = .ok i)
    (hnot : ∀ fee withdrawalFee depositFee referralFee maxValidators,
      i ≠ .initializePool fee withdrawalFee depositFee referralFee maxValidators)
    (hp : PoolAt rt s'.ledger k p) : ∃ q, PoolAt rt s.ledger k q := by
  by_contra hnew
  push Not at hnew
  obtain ⟨-, _, _, _, _, _, hdecoded⟩ := h.founds laws hreg hnew hp
  exact hnot _ _ _ _ _ (Except.ok.inj (hi.symm.trans hdecoded))

namespace Reference

def otherPool : Pubkey := key 120
def otherList : Pubkey := key 123
def otherReserve : Pubkey := key 124
def otherMint : Pubkey := key 125
def otherFee : Pubkey := key 126
def otherAuthority : Pubkey := (findWithdrawAuthorityProgramAddress runtime otherPool).1

/-- The vote account of the second pool's validator. -/
def otherVote : Pubkey := key 140
def otherStake : Pubkey := (findStakeProgramAddress runtime otherVote otherPool 0).1

def otherMeta : StakeMeta := { poolMeta with authorized := ⟨otherAuthority, otherAuthority⟩ }

/-- Accounts for a second pool next to those of the first. -/
def twins : World := ⟨sysvars 0, fun k =>
  if k = otherPool then ⟨minimumBalance 611, programId, 611, .zeroed⟩
  else if k = otherList then ⟨minimumBalance 739, programId, 739, .zeroed⟩
  else if k = otherReserve then
    ⟨minimumBalance stakeSpace + 4000000000, stakeProgramId, stakeSpace, .stake (.initialized otherMeta)⟩
  else if k = otherMint then
    ⟨minimumBalance 82, splTokenId, 82, .mint ⟨some otherAuthority, 0, 9, none, []⟩⟩
  else if k = otherFee then
    ⟨minimumBalance 165, splTokenId, 165, .token ⟨otherMint, manager, 0, .initialized, []⟩⟩
  else genesis 5000000000 k⟩

theorem twins_untouched : Untouched runtime twins := by
  intro k
  show (twins.ledger k).owner = programId → _
  unfold twins
  dsimp only
  split
  · exact fun _ => rfl
  split
  · exact fun _ => rfl
  split
  · exact fun h => absurd h (by decide)
  split
  · exact fun h => absurd h (by decide)
  split
  · exact fun h => absurd h (by decide)
  · exact genesis_zeroed _ k

def otherAccounts : List AccountMeta :=
  [writes otherPool, signs manager, reads staker, reads otherAuthority, writes otherList,
    reads otherReserve, writes otherMint, writes otherFee, reads splTokenId]

def otherValidatorAccounts : List AccountMeta :=
  [writes otherPool, signs staker, writes otherReserve, reads otherAuthority, writes otherList,
    writes otherStake, reads otherVote, reads runtime.rentId, reads runtime.clockId,
    reads runtime.stakeHistoryId, reads runtime.stakeConfigId, reads systemProgramId,
    reads stakeProgramId]

/-- The manager of the second pool withdraws SOL into the first pool's validator stake. -/
def crossAccounts : List AccountMeta :=
  [writes otherPool, reads otherAuthority, signs manager, writes otherFee, writes otherReserve,
    writes validatorStake, writes otherFee, writes otherMint, reads runtime.clockId,
    reads runtime.stakeHistoryId, reads stakeProgramId, reads splTokenId]

def founds : StakePoolInstruction := .initializePool default lowFee default 0 10

def firstTwin : World := twins.execute runtime initializeAccounts founds
def bothTwins : World := firstTwin.execute runtime otherAccounts founds

/-- Both pools with one validator each. -/
def oneStaked : World := bothTwins.execute runtime addValidatorAccounts (.addValidatorToPool 0)
def bothStaked : World := oneStaked.execute runtime otherValidatorAccounts (.addValidatorToPool 0)

def crossed : World := bothStaked.execute runtime crossAccounts (.withdrawSol 7)

/-- Are the pools `ks`, all there are, in order, with the withdraw authority of `k` the one of no other? -/
def inOrder (k : Pubkey) (ks : List Pubkey) (t : World) : Bool :=
  decide (t.sysvars.epoch < epochMax) && decide (0 < t.sysvars.minimumBalance stakeSpace) &&
    passes runtime k (apartIn runtime k) t && ks.all fun j =>
      decide ((findDepositAuthorityProgramAddress runtime j).1 ≠ (poolKeeper runtime k).authority) &&
        passes runtime j (fun p _ => decide (j ≠ k → digest [j.toBytes, authorityWithdraw,
          [p.stakeWithdrawBumpSeed]] programId ≠ (poolKeeper runtime k).authority)) t

/-- Does neither pool's withdraw authority sign? -/
def unsignedBy (accounts : List AccountMeta) : Prop :=
  ∀ k ∈ [pool, otherPool], ∀ b ∈ accounts, b.key = (poolKeeper runtime k).authority → b.isSigner = false

instance (accounts : List AccountMeta) : Decidable (unsignedBy accounts) :=
  inferInstanceAs (Decidable (∀ k ∈ [pool, otherPool], ∀ b ∈ accounts,
    b.key = (poolKeeper runtime k).authority → b.isSigner = false))

/-- Every call goes through. -/
theorem twins_succeed :
    succeeded (processInstruction runtime twins.sysvars initializeAccounts founds twins.ledger) = true ∧
    succeeded (processInstruction runtime firstTwin.sysvars otherAccounts founds firstTwin.ledger) = true ∧
    succeeded (processInstruction runtime bothTwins.sysvars addValidatorAccounts (.addValidatorToPool 0)
      bothTwins.ledger) = true ∧
    succeeded (processInstruction runtime oneStaked.sysvars otherValidatorAccounts (.addValidatorToPool 0)
      oneStaked.ledger) = true ∧
    succeeded (processInstruction runtime bothStaked.sysvars crossAccounts (.withdrawSol 7)
      bothStaked.ledger) = true := by
  refine ⟨?_, ?_, ?_, ?_, ?_⟩ <;> decide +kernel

/-- What there is to evaluate on the two pools. -/
theorem twins_checks :
    inOrder pool [pool] firstTwin = true ∧
    (∀ t ∈ [bothTwins, oneStaked, bothStaked], ∀ k ∈ [pool, otherPool],
      inOrder k [pool, otherPool] t = true) ∧
    (firstTwin.ledger reserve).data = .stake (.initialized poolMeta) ∧
    (bothTwins.ledger otherReserve).data = .stake (.initialized otherMeta) ∧
    (loadStakePool runtime firstTwin.ledger pool).toOption.map (·.reserveStake) = some reserve ∧
    (loadStakePool runtime bothTwins.ledger otherPool).toOption.map (·.reserveStake) = some otherReserve ∧
    ∀ accounts ∈ [otherAccounts, addValidatorAccounts, otherValidatorAccounts, crossAccounts],
      unsignedBy accounts := by
  refine ⟨?_, ?_, ?_, ?_, ?_, ?_, ?_⟩ <;> decide +kernel

theorem firstTwin_executes : Executes runtime initializeAccounts founds twins firstTwin :=
  .of_succeeded twins_succeed.1

theorem bothTwins_executes : Executes runtime otherAccounts founds firstTwin bothTwins :=
  .of_succeeded twins_succeed.2.1

theorem oneStaked_executes : Executes runtime addValidatorAccounts (.addValidatorToPool 0) bothTwins
    oneStaked := .of_succeeded twins_succeed.2.2.1

theorem bothStaked_executes : Executes runtime otherValidatorAccounts (.addValidatorToPool 0) oneStaked
    bothStaked := .of_succeeded twins_succeed.2.2.2.1

theorem crossed_executes : Executes runtime crossAccounts (.withdrawSol 7) bothStaked crossed :=
  .of_succeeded twins_succeed.2.2.2.2

/-- A successful `Initialize` adds the pool it names first and no other. -/
theorem initialized_pool {accounts : List AccountMeta} {t t' : World} {a : AccountMeta} {k : Pubkey}
    {p : StakePool} (h : Executes runtime accounts founds t t') (ha : accounts[0]? = some a)
    (hp : PoolAt runtime t'.ledger k p) : k = a.key ∨ ∃ q, PoolAt runtime t.ledger k q := by
  obtain ⟨r⟩ := processInitialize_run runtime _ h.run
  obtain rfl := Option.some.inj (ha.symm.trans r.pool_at)
  have hf := r.founded programLaws
  by_cases hk : k = r.pool.key
  · exact .inl hk
  · exact .inr ⟨p, hf.frame.poolAt_before hp (by simp [hk, hp.ne_list hf.list])⟩

theorem firstTwin_pool {k : Pubkey} {p : StakePool} (hp : PoolAt runtime firstTwin.ledger k p) : k = pool := by
  rcases initialized_pool firstTwin_executes rfl hp with hk | ⟨q, hq⟩
  · exact hk
  · exact absurd hq twins_untouched.not_pool

theorem of_inOrder {k : Pubkey} {ks : List Pubkey} {t : World} (h : inOrder k ks t = true)
    (hpools : ∀ j p, PoolAt runtime t.ledger j p → j ∈ ks) (hs : Reachable runtime t) :
    Orderly runtime k t ∧ AuthoritiesApart runtime k t.ledger := by
  simp only [inOrder, Bool.and_eq_true, decide_eq_true_eq, List.all_eq_true] at h
  obtain ⟨⟨⟨hepoch, hrent⟩, hpasses⟩, hapart⟩ := h
  refine ⟨.of_passes hepoch hrent hpasses, fun j p key hp hne hkey => ?_, fun j p hp => (hapart j (hpools j p hp)).1⟩
  obtain ⟨l, hl⟩ := (hs.registry programLaws).hasList hp
  rw [← Except.ok.inj hkey]
  exact of_decide_eq_true (test_of_passes (hapart j (hpools j p hp)).2 hp hl) hne

/-- A chain with these two pools and no other. -/
structure TwinRun (t : World) : Prop where
  run : ChainRun runtime True t
  pools : ∀ k p, PoolAt runtime t.ledger k p → k ∈ [pool, otherPool]

/-- Its calls found no more pools. -/
theorem TwinRun.executes {t t' : World} {accounts : List AccountMeta} {i : StakePoolInstruction}
    {input : List UInt8} (h : TwinRun t) (he : Executes runtime accounts i t t')
    (hi : StakePoolInstruction.tryFromSlice input = .ok i)
    (hnot : ∀ fee withdrawalFee depositFee referralFee maxValidators,
      i ≠ .initializePool fee withdrawalFee depositFee referralFee maxValidators)
    (hunsigned : unsignedBy accounts)
    (horder : ∀ k ∈ [pool, otherPool], inOrder k [pool, otherPool] t' = true) : TwinRun t' := by
  have hhappens := he.happens input hi
  have hbefore : ∀ {k p}, PoolAt runtime t'.ledger k p → ∃ q, PoolAt runtime t.ledger k q :=
    fun hp => hhappens.pool_before programLaws (h.run.reachable.registry programLaws) hi hnot hp
  have hpools : ∀ k p, PoolAt runtime t'.ledger k p → k ∈ [pool, otherPool] := by
    intro k p hp
    obtain ⟨q, hq⟩ := hbefore hp
    exact h.pools k q hq
  have hreach := h.run.reachable.executes he input hi
  refine ⟨.call h.run hhappens (fun k p hp => hunsigned k (h.pools k p hp))
    (fun k p hp => of_inOrder (horder k (hpools k p hp)) hpools hreach) fun k p info hnew hp => ?_, hpools⟩
  obtain ⟨q, hq⟩ := hbefore hp
  exact absurd hq (hnew q)

theorem bothTwins_run : TwinRun bothTwins := by
  obtain ⟨hfirst, horder, hdata, hdata', hload, hload', hunsigned⟩ := twins_checks
  obtain ⟨q₀, hq₀, hreserve⟩ := PoolAt.of_load _ hload
  obtain ⟨q₁, hq₁, hreserve'⟩ := PoolAt.of_load _ hload'
  have hhappens := firstTwin_executes.happens initializeInput founded_decodes
  have hhappens' := bothTwins_executes.happens initializeInput founded_decodes
  have hreach : Reachable runtime firstTwin := ⟨twins, twins_untouched, .single hhappens.moves⟩
  have hreach' := hreach.executes bothTwins_executes initializeInput founded_decodes
  have hpools : ∀ k p, PoolAt runtime bothTwins.ledger k p → k ∈ [pool, otherPool] := by
    intro k p hp
    rcases initialized_pool bothTwins_executes rfl hp with rfl | ⟨q, hq⟩
    · exact .tail _ (.head _)
    · obtain rfl := firstTwin_pool hq
      exact .head _
  have hrun : ChainRun runtime True firstTwin := by
    refine .call (.genesis twins_untouched) hhappens (fun k p hp => ?_) (fun k p hp => ?_) ?_
    · exact absurd hp twins_untouched.not_pool
    · obtain rfl := firstTwin_pool hp
      exact of_inOrder hfirst (fun j q hq => List.mem_singleton.mpr (firstTwin_pool hq)) hreach
    · intro k p info _ hp hinfo
      obtain rfl := firstTwin_pool hp
      rw [hp.unique hq₀, hreserve, hdata] at hinfo
      cases hinfo
      exact ⟨by decide, by decide⟩
  refine ⟨.call hrun hhappens' (fun k p hp => ?_) (fun k p hp => ?_) ?_, hpools⟩
  · obtain rfl := firstTwin_pool hp
    exact hunsigned _ (.head _) _ (.head _)
  · exact of_inOrder (horder _ (.head _) k (hpools k p hp)) hpools hreach'
  · intro k p info hnew hp hinfo
    rcases initialized_pool bothTwins_executes rfl hp with rfl | ⟨q, hq⟩
    · rw [hp.unique hq₁, hreserve', hdata'] at hinfo
      cases hinfo
      exact ⟨by decide, by decide⟩
    · obtain rfl := firstTwin_pool hq
      exact absurd hq₀ (hnew q₀)

theorem bothStaked_run : TwinRun bothStaked := by
  obtain ⟨-, horder, -, -, -, -, hunsigned⟩ := twins_checks
  have hadds : StakePoolInstruction.tryFromSlice [1, 0, 0, 0, 0] = .ok (.addValidatorToPool 0) := by decide
  have hnot : ∀ fee withdrawalFee depositFee referralFee maxValidators,
      StakePoolInstruction.addValidatorToPool 0 ≠
        .initializePool fee withdrawalFee depositFee referralFee maxValidators := by simp
  have hone : TwinRun oneStaked := bothTwins_run.executes oneStaked_executes hadds hnot
    (hunsigned _ (.tail _ (.head _))) (horder _ (.tail _ (.head _)))
  exact hone.executes bothStaked_executes hadds hnot (hunsigned _ (.tail _ (.tail _ (.head _))))
    (horder _ (.tail _ (.tail _ (.head _))))

end Reference

open Reference in
/-- The second pool pays out into the validator stake of the first, which gains the lamports and keeps
the rest. -/
theorem foreign_call_respects_twins : ∃ p l, PoolAt runtime crossed.ledger pool p ∧
    ListAt runtime crossed.ledger p.validatorList l ∧ l.validators.length = 1 ∧
    Held runtime (poolKeeper runtime pool) (bothStaked.ledger validatorStake) ∧
    (bothStaked.ledger validatorStake).OnlyCredited (crossed.ledger validatorStake) ∧
    (crossed.ledger validatorStake).lamports = (bothStaked.ledger validatorStake).lamports + 7 := by
  obtain ⟨p, hp, hlist⟩ : ∃ p, PoolAt runtime bothStaked.ledger pool p ∧ p.validatorList = validatorList :=
    PoolAt.of_load _ (by decide +kernel)
  obtain ⟨l, hl, hlength⟩ : ∃ l, ListAt runtime bothStaked.ledger validatorList l ∧
      l.validators.length = 1 := ListAt.of_load _ (by decide +kernel)
  have hheld : HeldAs runtime (poolKeeper runtime pool) (bothStaked.ledger validatorStake)
      (.stake poolMeta ⟨⟨vote, 1000000, 0, epochMax⟩, 0⟩) poolMeta := by
    constructor <;> decide +kernel
  have hother : ∀ a, crossAccounts[0]? = some a → pool ≠ a.key := by
    intro a ha
    cases ha
    decide
  have hunsigned := twins_checks.2.2.2.2.2.2 crossAccounts (by simp) pool (by simp)
  obtain ⟨hp', hl', hcredited⟩ := foreign_call_respects programLaws systemLaws stakeLaws creditLaws
    bothStaked_run.run.reachable hp (hlist ▸ hl) (bothStaked_run.run.orderly hp).2 hother hunsigned
    (crossed_executes.process (by decide : StakePoolInstruction.tryFromSlice (16 :: leBytes 8 7) = _))
  exact ⟨p, l, hp', hl', hlength, ⟨_, _, hheld⟩, hcredited validatorStake ⟨_, _, hheld⟩, by decide +kernel⟩

open Reference in
/-- Both pools have a validator and are backed, by accounts of their own. -/
theorem every_pool_backed_twins : ∃ p l q m, PoolAt runtime bothStaked.ledger pool p ∧
    PoolAt runtime bothStaked.ledger otherPool q ∧ l.validators.length = 1 ∧ m.validators.length = 1 ∧
    (∀ v ∈ l.validators, v.activeStakeLamports ≤ (bothStaked.ledger (v.stakeKey runtime pool)).lamports) ∧
    (∃ info, p.totalLamports + minimumReserveLamports info ≤
      (bothStaked.ledger p.reserveStake).lamports + l.recorded) ∧
    ∀ j, Backs runtime pool p l j → ¬ Backs runtime otherPool q m j := by
  obtain ⟨p, hp, hlist⟩ : ∃ p, PoolAt runtime bothStaked.ledger pool p ∧ p.validatorList = validatorList :=
    PoolAt.of_load _ (by decide +kernel)
  obtain ⟨q, hq, hlist'⟩ : ∃ q, PoolAt runtime bothStaked.ledger otherPool q ∧ q.validatorList = otherList :=
    PoolAt.of_load _ (by decide +kernel)
  obtain ⟨l, hl, hlength⟩ : ∃ l, ListAt runtime bothStaked.ledger validatorList l ∧
      l.validators.length = 1 := ListAt.of_load _ (by decide +kernel)
  obtain ⟨m, hm, hlength'⟩ : ∃ m, ListAt runtime bothStaked.ledger otherList m ∧
      m.validators.length = 1 := ListAt.of_load _ (by decide +kernel)
  obtain ⟨hentries, ⟨info, -, -, hbacked⟩, hown⟩ := every_pool_backed programLaws addressLaws systemLaws
    stakeLaws creditLaws bothStaked_run.run hp (hlist ▸ hl)
  exact ⟨p, l, q, m, hp, hq, hlength, hlength', fun v hv => (hentries v hv).1, ⟨info, hbacked⟩,
    hown otherPool q m hq (hlist' ▸ hm) (by decide)⟩

end StakePoolFogo
