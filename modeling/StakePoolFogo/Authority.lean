import StakePoolFogo.Reference
import StakePoolFogo.World

/-!
# Who may change what

Fields of a pool and of its list by the signature they need, and the theorem that no instruction,
on whatever accounts, changes one without it.
-/

open StakePoolFogo.Checked StakePoolFogo.Outcome

namespace StakePoolFogo

/-- The pending fee is the one that was pending, or gone. -/
def FutureEpoch.NotSet {α : Type} (f f' : FutureEpoch α) : Prop :=
  f'.pending = f.pending ∨ f'.pending = Option.none

/-- What only the manager may change is as it was. -/
structure StakePool.SameManaged (p p' : StakePool) : Prop where
  manager : p'.manager = p.manager
  managerFeeAccount : p'.managerFeeAccount = p.managerFeeAccount
  stakeDepositAuthority : p'.stakeDepositAuthority = p.stakeDepositAuthority
  solDepositAuthority : p'.solDepositAuthority = p.solDepositAuthority
  solWithdrawAuthority : p'.solWithdrawAuthority = p.solWithdrawAuthority
  stakeDepositFee : p'.stakeDepositFee = p.stakeDepositFee
  solDepositFee : p'.solDepositFee = p.solDepositFee
  stakeReferralFee : p'.stakeReferralFee = p.stakeReferralFee
  solReferralFee : p'.solReferralFee = p.solReferralFee
  nextEpochFee : p.nextEpochFee.NotSet p'.nextEpochFee
  nextStakeWithdrawalFee : p.nextStakeWithdrawalFee.NotSet p'.nextStakeWithdrawalFee
  nextSolWithdrawalFee : p.nextSolWithdrawalFee.NotSet p'.nextSolWithdrawalFee

/-- No preferred validator was chosen. -/
structure StakePool.NotPreferred (p p' : StakePool) : Prop where
  deposit : p'.preferredDepositValidatorVoteAddress = p.preferredDepositValidatorVoteAddress ∨
    p'.preferredDepositValidatorVoteAddress = none
  withdraw : p'.preferredWithdrawValidatorVoteAddress = p.preferredWithdrawValidatorVoteAddress ∨
    p'.preferredWithdrawValidatorVoteAddress = none

/-- The same validator with the same seeds, not removed by the staker. -/
structure ValidatorStakeInfo.Kept (v v' : ValidatorStakeInfo) : Prop where
  vote : v'.voteAccountAddress = v.voteAccountAddress
  validatorSeed : v'.validatorSeedSuffix = v.validatorSeedSuffix
  transientSeed : v'.transientSeedSuffix = v.transientSeedSuffix
  notRemoved : v.status = StakeStatus.active.toPod →
    v'.status ≠ StakeStatus.deactivatingValidator.toPod ∧
      v'.status ≠ StakeStatus.deactivatingAll.toPod

/-- The new list has only entries of the old one, in their order. -/
def ValidatorList.Kept (l l' : ValidatorList) : Prop :=
  ∃ kept, kept.Sublist l.validators ∧ List.Forall₂ ValidatorStakeInfo.Kept kept l'.validators

/-- The records changed only where a signature allowed it. -/
structure AuthorityFrame (signed : Pubkey → Prop) (p : StakePool) (l : ValidatorList)
    (p' : StakePool) (l' : ValidatorList) : Prop where
  manager : ¬ signed p.manager → p.SameManaged p'
  staker : ¬ signed p.manager → ¬ signed p.staker → p'.staker = p.staker
  preferred : ¬ signed p.staker → p.NotPreferred p'
  entries : ¬ signed p.staker → l.Kept l'
  identity : p.SameIdentity p'
  maxValidators : l'.header.maxValidators = l.header.maxValidators

theorem ValidatorStakeInfo.Kept.refl (v : ValidatorStakeInfo) : v.Kept v := by
  refine ⟨rfl, rfl, rfl, fun h => ?_⟩
  rw [h]
  exact ⟨by decide, by decide⟩

theorem ValidatorList.Kept.of_forall₂ {l l' : ValidatorList}
    (h : List.Forall₂ ValidatorStakeInfo.Kept l.validators l'.validators) : l.Kept l' :=
  ⟨l.validators, List.Sublist.refl _, h⟩

theorem ValidatorList.Kept.refl (l : ValidatorList) : l.Kept l :=
  .of_forall₂ (List.forall₂_same.mpr fun v _ => .refl v)

theorem ValidatorList.Kept.cleaned (l : ValidatorList) : l.Kept l.cleaned :=
  ⟨l.cleaned.validators, List.filter_sublist, List.forall₂_same.mpr fun v _ => .refl v⟩

/-- A visit never turns an active entry into a deactivating one. -/
theorem StatusMoves.notRemoved {s s' : PodStakeStatus} (h : StatusMoves s s')
    (hs : s = StakeStatus.active.toPod) : s' ≠ StakeStatus.deactivatingValidator.toPod ∧
      s' ≠ StakeStatus.deactivatingAll.toPod := by
  subst hs
  rcases h with rfl | rfl | rfl | ⟨h, -⟩
  · exact ⟨by decide, by decide⟩
  · exact ⟨by decide, by decide⟩
  · exact ⟨by decide, by decide⟩
  · exact absurd h (by decide)

theorem EntryRefresh.kept {epoch : Epoch} {v v' : ValidatorStakeInfo}
    (h : EntryRefresh epoch v v') : v.Kept v' := by
  rcases h with rfl | ⟨status, active, transient, hmoves, rfl⟩
  · exact .refl _
  · exact ⟨rfl, rfl, rfl, hmoves.notRemoved⟩

theorem recordStakeWithdrawal_kept {v v' : ValidatorStakeInfo} {source : StakeWithdrawSource}
    {lamports : Nat} (h : recordStakeWithdrawal v source lamports = .ok v') : v.Kept v' := by
  cases source with
  | active | transient =>
    simp only [recordStakeWithdrawal, bind_eq_ok, pure_eq_ok] at h
    obtain ⟨_, -, rfl⟩ := h
    exact ⟨rfl, rfl, rfl, (ValidatorStakeInfo.Kept.refl v).notRemoved⟩
  | validatorRemoval =>
    simp only [recordStakeWithdrawal, bind_eq_ok, exists_unit, pure_eq_ok] at h
    obtain ⟨_, -, -, rfl⟩ := h
    refine ⟨rfl, rfl, rfl, fun _ => ?_⟩
    show StakeStatus.readyForRemoval.toPod ≠ _ ∧ StakeStatus.readyForRemoval.toPod ≠ _
    decide

theorem StakePool.SameManaged.refl (p : StakePool) : p.SameManaged p :=
  ⟨rfl, rfl, rfl, rfl, rfl, rfl, rfl, rfl, rfl, Or.inl rfl, Or.inl rfl, Or.inl rfl⟩

theorem FutureEpoch.notSet_updateEpoch {α : Type} (f : FutureEpoch α) : f.NotSet f.updateEpoch := by
  cases f with
  | none => exact Or.inl rfl
  | one v => exact Or.inr rfl
  | two v => exact Or.inl rfl

theorem StakePool.SameManaged.advanceEpoch (p : StakePool) (epoch : Epoch) :
    p.SameManaged (p.advanceEpoch epoch) := by
  unfold StakePool.advanceEpoch
  split
  · exact ⟨rfl, rfl, rfl, rfl, rfl, rfl, rfl, rfl, rfl, FutureEpoch.notSet_updateEpoch _,
      FutureEpoch.notSet_updateEpoch _, FutureEpoch.notSet_updateEpoch _⟩
  · exact .refl p

theorem StakePool.NotPreferred.refl (p : StakePool) : p.NotPreferred p := ⟨Or.inl rfl, Or.inl rfl⟩

theorem StakePool.NotPreferred.forgetPreferred (p : StakePool) (vote : Pubkey) :
    p.NotPreferred (p.forgetPreferred vote) := by
  unfold StakePool.forgetPreferred
  refine ⟨?_, ?_⟩
  · dsimp only
    split
    · exact Or.inr rfl
    · exact Or.inl rfl
  · dsimp only
    split
    · exact Or.inr rfl
    · exact Or.inl rfl

theorem keepPreferred_cases (l : ValidatorList) (vote : Option Pubkey) :
    keepPreferred l vote = vote ∨ keepPreferred l vote = none := by
  cases vote with
  | none => exact Or.inl rfl
  | some vote =>
    unfold keepPreferred
    rw [Option.filter_some]
    exact ite_eq_or_eq _ _ _

section Steps

variable {rt : Runtime} {sv : Sysvars} {signed : Pubkey → Prop} {k : Pubkey} {p p' : StakePool}
  {l l' : ValidatorList}

theorem AuthorityFrame.refl (signed : Pubkey → Prop) (p : StakePool) (l : ValidatorList) :
    AuthorityFrame signed p l p l :=
  ⟨fun _ => .refl p, fun _ _ => rfl, fun _ => .refl p, fun _ => .refl l,
    ⟨rfl, rfl, rfl, rfl, rfl, rfl⟩, rfl⟩

theorem BookStep.maxValidators (h : BookStep rt sv signed k p l p' l') :
    l'.header.maxValidators = l.header.maxValidators := by
  cases h with
  | updateList _ header _ => rw [header]
  | _ => rfl

theorem BookStep.sameManaged (h : BookStep rt sv signed k p l p' l')
    (hsigned : ¬ signed p.manager) : p.SameManaged p' := by
  cases h with
  | setManager _ _ isManager => exact absurd isManager hsigned
  | setFee _ _ isManager _ _ => exact absurd isManager hsigned
  | setFunding _ _ isManager => exact absurd isManager hsigned
  | setPreferred t _ _ =>
    cases t <;>
      exact ⟨rfl, rfl, rfl, rfl, rfl, rfl, rfl, rfl, rfl, Or.inl rfl, Or.inl rfl, Or.inl rfl⟩
  | updatePool _ _ _ =>
    obtain ⟨h1, h2, h3, h4, h5, h6, h7, h8, h9, h10, h11, h12⟩ :=
      StakePool.SameManaged.advanceEpoch p sv.epoch
    exact ⟨h1, h2, h3, h4, h5, h6, h7, h8, h9, h10, h11, h12⟩
  | withdrawStake _ _ _ _ _ _ _ _ _ _ _ _ =>
    simp only [StakePool.withdrawn]
    split <;> exact ⟨rfl, rfl, rfl, rfl, rfl, rfl, rfl, rfl, rfl, Or.inl rfl, Or.inl rfl, Or.inl rfl⟩
  | _ => exact ⟨rfl, rfl, rfl, rfl, rfl, rfl, rfl, rfl, rfl, Or.inl rfl, Or.inl rfl, Or.inl rfl⟩

theorem BookStep.sameStaker (h : BookStep rt sv signed k p l p' l')
    (hmanager : ¬ signed p.manager) (hstaker : ¬ signed p.staker) : p'.staker = p.staker := by
  cases h with
  | setStaker _ authority => exact absurd authority (not_or.mpr ⟨hstaker, hmanager⟩)
  | setFee _ _ isManager _ _ => exact absurd isManager hmanager
  | setFunding _ _ isManager => exact absurd isManager hmanager
  | setPreferred t _ _ => cases t <;> rfl
  | updatePool _ _ _ =>
    unfold StakePool.advanceEpoch
    split <;> rfl
  | withdrawStake _ _ _ _ _ _ _ _ _ _ _ _ =>
    simp only [StakePool.withdrawn]
    split <;> rfl
  | _ => rfl

theorem StakePool.updateFee_notPreferred {fee : FeeType} (h : p.updateFee fee = .ok p') :
    p.NotPreferred p' := by
  cases fee with
  | stakeWithdrawal | solWithdrawal =>
    simp only [updateFee, bind_eq_ok, exists_unit, pure_eq_ok] at h
    obtain ⟨-, rfl⟩ := h
    exact ⟨Or.inl rfl, Or.inl rfl⟩
  | _ =>
    cases h
    exact ⟨Or.inl rfl, Or.inl rfl⟩

theorem BookStep.notPreferred (h : BookStep rt sv signed k p l p' l')
    (hsigned : ¬ signed p.staker) : p.NotPreferred p' := by
  cases h with
  | setPreferred _ _ staker => exact absurd staker hsigned
  | removeValidator _ _ _ staker _ _ _ => exact absurd staker hsigned
  | cleanupPreferred => exact ⟨keepPreferred_cases _ _, keepPreferred_cases _ _⟩
  | setFee _ _ _ _ update => exact StakePool.updateFee_notPreferred update
  | setFunding t _ _ => cases t <;> exact ⟨Or.inl rfl, Or.inl rfl⟩
  | updatePool _ _ _ =>
    unfold StakePool.advanceEpoch
    split <;> exact ⟨Or.inl rfl, Or.inl rfl⟩
  | withdrawStake vote _ _ _ _ _ _ _ _ _ _ _ =>
    simp only [StakePool.withdrawn]
    split
    · obtain ⟨hdeposit, hwithdraw⟩ := StakePool.NotPreferred.forgetPreferred p vote
      exact ⟨hdeposit, hwithdraw⟩
    · exact ⟨Or.inl rfl, Or.inl rfl⟩
  | _ => exact ⟨Or.inl rfl, Or.inl rfl⟩

theorem BookStep.kept (h : BookStep rt sv signed k p l p' l') (hsigned : ¬ signed p.staker) :
    l.Kept l' := by
  cases h with
  | addValidator _ _ staker _ _ _ => exact absurd staker hsigned
  | removeValidator _ _ _ staker _ _ _ => exact absurd staker hsigned
  | rebalance _ _ _ _ _ staker _ _ => exact absurd staker hsigned
  | updateList _ _ entries => exact .of_forall₂ (entries.imp fun _ _ => EntryRefresh.kept)
  | cleanup | cleanupPreferred => exact .cleaned l
  | depositStake vote v _ _ _ found _ _ =>
    exact .of_forall₂ (ValidatorList.modify_forall₂ .refl found
      ⟨rfl, rfl, rfl, (ValidatorStakeInfo.Kept.refl v).notRemoved⟩)
  | withdrawStake vote v v' _ _ _ found _ record _ _ _ =>
    exact .of_forall₂ (ValidatorList.modify_forall₂ .refl found (recordStakeWithdrawal_kept record))
  | _ => exact .refl l

theorem BookStep.authorityFrame (h : BookStep rt sv signed k p l p' l') :
    AuthorityFrame signed p l p' l' :=
  ⟨h.sameManaged, h.sameStaker, h.notPreferred, h.kept, h.sameIdentity, h.maxValidators⟩

end Steps

variable {rt : Runtime} {sv : Sysvars} {w w' : Ledger} {accounts : List AccountMeta} {k : Pubkey}
  {p : StakePool} {l : ValidatorList}

/-- Whatever pool the instruction is on, the records of the pool at `k` stay within the frame. -/
theorem RecordEffect.authorityFrame (hreg : Registry rt w) (hp : PoolAt rt w k p)
    (hl : ListAt rt w p.validatorList l) (h : RecordEffect rt sv accounts w w') :
    ∃ p' l', PoolAt rt w' k p' ∧ ListAt rt w' p.validatorList l' ∧
      AuthorityFrame (Signed accounts) p l p' l' := by
  by_cases hk : ∀ a, accounts[0]? = some a → k ≠ a.key
  · obtain ⟨hp', hl'⟩ := h.kept hreg hp hl hk
    exact ⟨p, l, hp', hl', .refl (Signed accounts) p l⟩
  push Not at hk
  obtain ⟨a, ha, rfl⟩ := hk
  cases h with
  | @founded b q m hb hf =>
    obtain rfl := Option.some.inj (ha.symm.trans hb)
    exact absurd hp (hf.newPool p)
  | @booked b q q' m m' hb hq hm he =>
    obtain rfl := Option.some.inj (ha.symm.trans hb)
    obtain rfl := hp.unique hq
    obtain rfl := hl.unique hm
    exact ⟨q', m', he.own.after, he.list, he.step.authorityFrame⟩

theorem StakePool.SameIdentity.trans {p p' p'' : StakePool} (h : p.SameIdentity p')
    (h' : p'.SameIdentity p'') : p.SameIdentity p'' :=
  ⟨h'.1.trans h.1, h'.2.trans h.2, h'.3.trans h.3, h'.4.trans h.4, h'.5.trans h.5, h'.6.trans h.6⟩

/-- One move keeps the pool, its list and what `Initialize` fixed. -/
theorem Moves.identity (laws : ProgramLaws rt) {s s' : World} (h : Moves rt s s')
    (hreg : Registry rt s.ledger) (hp : PoolAt rt s.ledger k p)
    (hl : ListAt rt s.ledger p.validatorList l) :
    ∃ p' l', PoolAt rt s'.ledger k p' ∧ ListAt rt s'.ledger p.validatorList l' ∧
      p.SameIdentity p' ∧ l'.header.maxValidators = l.header.maxValidators := by
  cases h with
  | call run _ =>
    obtain ⟨p', l', hp', hl', hframe⟩ :=
      ((process_handled run).record laws hreg).authorityFrame hreg hp hl
    exact ⟨p', l', hp', hl', hframe.identity, hframe.maxValidators⟩
  | elsewhere step => exact ⟨p, l, step.poolAt hp, step.listAt hl, ⟨rfl, rfl, rfl, rfl, rfl, rfl⟩, rfl⟩

/-- `Initialize` takes neither the account of a pool nor that of its list, in either role. -/
theorem processInitialize_fresh (laws : ProgramLaws rt) {epochFee withdrawalFee depositFee : Fee}
    {referralFee : UInt8} {maxValidators : UInt32} {j : Pubkey}
    (h : processInitialize rt sv accounts epochFee withdrawalFee depositFee referralFee maxValidators
      w = .ok w') (hj : (∃ p, PoolAt rt w j p) ∨ ∃ l, ListAt rt w j l) :
    (∀ a, accounts[0]? = some a → a.key ≠ j) ∧ ∀ a, accounts[4]? = some a → a.key ≠ j := by
  obtain ⟨r⟩ := processInitialize_run rt sv h
  have hf := r.founded laws
  refine ⟨fun a ha heq => ?_, fun a ha heq => ?_⟩
  · obtain rfl := Option.some.inj (r.pool_at.symm.trans ha)
    subst heq
    exact hj.elim (fun ⟨q, hq⟩ => hf.newPool q hq) fun ⟨m, hm⟩ => hf.notList m hm
  · obtain rfl := Option.some.inj (r.list_at.symm.trans ha)
    subst heq
    exact hj.elim (fun ⟨q, hq⟩ => hf.notPool q hq) fun ⟨m, hm⟩ => hf.newList m hm

/-- From any reachable world with a pool at `k`, whatever happens: the pool and its list stay what
`Initialize` made them, neither account can be initialized again, and every successful call changes
their records only with the signatures that allow it. -/
theorem authority_frame (laws : ProgramLaws rt) {s s₁ : World} (hs : Reachable rt s)
    (hp : PoolAt rt s.ledger k p) (hrun : Relation.ReflTransGen (Moves rt) s s₁) :
    ∃ l p₁ l₁, ListAt rt s.ledger p.validatorList l ∧ PoolAt rt s₁.ledger k p₁ ∧
      ListAt rt s₁.ledger p.validatorList l₁ ∧ p.SameIdentity p₁ ∧
      l₁.header.maxValidators = l.header.maxValidators ∧
      (∀ accounts epochFee withdrawalFee depositFee referralFee maxValidators w',
        processInitialize rt s₁.sysvars accounts epochFee withdrawalFee depositFee referralFee
          maxValidators s₁.ledger = .ok w' →
        ∀ a, accounts[0]? = some a ∨ accounts[4]? = some a → a.key ≠ k ∧ a.key ≠ p.validatorList) ∧
      ∀ accounts input w', process rt s₁.sysvars accounts input s₁.ledger = .ok w' →
        ∃ p' l', PoolAt rt w' k p' ∧ ListAt rt w' p.validatorList l' ∧
          AuthorityFrame (Signed accounts) p₁ l₁ p' l' := by
  obtain ⟨l, hl⟩ := (hs.registry laws).hasList hp
  -- The run keeps the registry, the two accounts and their identity.
  have hkept : Registry rt s₁.ledger ∧ ∃ p₁ l₁, PoolAt rt s₁.ledger k p₁ ∧
      ListAt rt s₁.ledger p.validatorList l₁ ∧ p.SameIdentity p₁ ∧
      l₁.header.maxValidators = l.header.maxValidators := by
    induction hrun with
    | refl => exact ⟨hs.registry laws, p, l, hp, hl, ⟨rfl, rfl, rfl, rfl, rfl, rfl⟩, rfl⟩
    | tail _ hstep ih =>
      obtain ⟨hreg, q, m, hq, hm, hid, hmax⟩ := ih
      obtain ⟨q', m', hq', hm', hid', hmax'⟩ :=
        hstep.identity laws hreg hq (hid.validatorList ▸ hm)
      exact ⟨hstep.registry laws hreg, q', m', hq', hid.validatorList ▸ hm', hid.trans hid',
        hmax'.trans hmax⟩
  obtain ⟨hreg, p₁, l₁, hp₁, hl₁, hid, hmax⟩ := hkept
  refine ⟨l, p₁, l₁, hl, hp₁, hl₁, hid, hmax, ?_, ?_⟩
  · intro accounts epochFee withdrawalFee depositFee referralFee maxValidators w' hinit a ha
    obtain ⟨hpool, hlist⟩ := processInitialize_fresh laws hinit (Or.inl ⟨p₁, hp₁⟩)
    obtain ⟨hpool', hlist'⟩ := processInitialize_fresh laws hinit (Or.inr ⟨l₁, hl₁⟩)
    rcases ha with ha | ha
    · exact ⟨hpool a ha, hpool' a ha⟩
    · exact ⟨hlist a ha, hlist' a ha⟩
  · intro accounts input w' hrun
    obtain ⟨p', l', hp', hl', hframe⟩ := ((process_handled hrun).record laws hreg).authorityFrame
      hreg hp₁ (hid.validatorList ▸ hl₁)
    exact ⟨p', l', hp', hid.validatorList ▸ hl', hframe⟩

/-- A new pool, after its first validator has joined and an epoch has passed. -/
theorem authority_frame_staked : ∃ (p : StakePool) (l : ValidatorList) (p₁ : StakePool)
    (l₁ : ValidatorList), ListAt Reference.runtime Reference.founded.ledger p.validatorList l ∧
      PoolAt Reference.runtime (Reference.staked.atEpoch 1).ledger Reference.pool p₁ ∧
      ListAt Reference.runtime (Reference.staked.atEpoch 1).ledger p.validatorList l₁ ∧
      p.SameIdentity p₁ ∧ l₁.validators.length = 1 := by
  have hreach := Reference.founded_reachable
  obtain ⟨p, hp, hkey⟩ : ∃ p, PoolAt Reference.runtime Reference.founded.ledger Reference.pool p ∧
      p.validatorList = Reference.validatorList := PoolAt.of_load _ (by decide +kernel)
  have hjoins : Moves Reference.runtime Reference.founded Reference.staked :=
    .call (Reference.staked_executes.process Reference.staked_decodes) Reference.staked_executes.sysvars
  have hrun : Relation.ReflTransGen (Moves Reference.runtime) Reference.founded
      (Reference.staked.atEpoch 1) := (Relation.ReflTransGen.single hjoins).tail
    (.elsewhere (Elsewhere.atEpoch _ 1 _))
  obtain ⟨l, p₁, l₁, hl, hp₁, hl₁, hid, -⟩ := authority_frame Reference.programLaws hreach hp hrun
  obtain ⟨m, hm, hlength⟩ : ∃ m, ListAt Reference.runtime (Reference.staked.atEpoch 1).ledger
      Reference.validatorList m ∧ m.validators.length = 1 :=
    ListAt.of_load (fun m => m.validators.length) (by decide +kernel)
  rw [← hkey] at hm
  obtain rfl := hm.unique hl₁
  exact ⟨p, l, p₁, m, hl, hp₁, hl₁, hid, hlength⟩

end StakePoolFogo
