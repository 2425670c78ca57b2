import StakePoolFogo.Solvency.Merging
import StakePoolFogo.Solvency.Status

/-!
# Removed validators

A validator that has been removed stays on the list until its stakes are inactive.  The first merging
update after that brings them to the reserve, and the cleanup drops the entry.
-/

open StakePoolFogo.Checked StakePoolFogo.Outcome

namespace StakePoolFogo

section Visit

variable {rt : Runtime} {sv : Sysvars} {c : UpdateContext} {steady : Prop} {x x' : Cell} {s : StakeStatus}
  {n : Nat}

/-- What the two accounts have delegated is inactive. -/
def Cell.AtRest (epoch : Epoch) (x : Cell) : Prop :=
  (∀ info stake, x.validator.data = .stake (.stake info stake) →
    stakeIsInactiveWithoutHistory stake epoch) ∧
  ∀ info stake, x.transient.data = .stake (.stake info stake) → stakeIsInactiveWithoutHistory stake epoch

/-- What a merging visit leaves of the transient stake of a leaving validator: nothing. -/
structure TransientGone (epoch : Epoch) (x : Cell) (s : StakeStatus) (t : TransientVisit) (s' : StakeStatus) :
    Prop where
  status : t.status = s'.toPod
  next : s' = .deactivatingValidator ∨ s' = .readyForRemoval
  kept : s'.HasValidator ↔ s.HasValidator
  lamports : t.lamports = 0
  validator : t.validator = x.validator
  transient : 0 < x.entry.transientStakeLamports → t.transient.lamports = 0
  rest : ∀ info stake, t.transient.data = .stake (.stake info stake) →
    stakeIsInactiveWithoutHistory stake epoch

theorem Sound.transientGone (h : Sound rt c.keeper steady x s) (hleft : s ≠ .active)
    (hmode : c.noMerge = false) (hepoch : sv.epoch < epochMax) (hrest : x.AtRest sv.epoch)
    {t : TransientVisit} (ht : TransientCases rt sv c x t) : ∃ s', TransientGone sv.epoch x s t s' := by
  cases ht with
  | nothing zero =>
    -- Without transient stake on record the status does not wait for one.
    refine ⟨s, h.status, ?_, Iff.rfl, rfl, rfl, fun hpos => by omega, hrest.2⟩
    cases s with
    | active => exact absurd rfl hleft
    | deactivatingValidator => exact .inl rfl
    | readyForRemoval => exact .inr rfl
    | deactivatingTransient => exact absurd zero (Nat.ne_of_gt (h.some_transient (.inl rfl)))
    | deactivatingAll => exact absurd zero (Nat.ne_of_gt (h.some_transient (.inr rfl)))
  | foreign pos unusable => exact absurd (h.transient (Nat.pos_of_ne_zero pos)).usable unusable
  | counted _ _ mode => exact absurd (mode.symm.trans hmode) (by decide)
  | @absorbed pos _ _ status removed =>
    rw [PodStakeStatus.removeTransientStake_eq_ok] at removed
    obtain ⟨s₀, hs₀, rfl⟩ := removed
    obtain rfl := h.status_unique hs₀
    cases s₀ with
    | active => exact absurd rfl hleft
    | deactivatingAll => exact ⟨.deactivatingValidator, rfl, .inl rfl, by decide, rfl, rfl, fun _ => rfl, nofun⟩
    | deactivatingTransient => exact ⟨.readyForRemoval, rfl, .inr rfl, by decide, rfl, rfl, fun _ => rfl,
        nofun⟩
    | deactivatingValidator => exact absurd (h.no_transient (.inl rfl)) pos
    | readyForRemoval => exact absurd (h.no_transient (.inr rfl)) pos
  | joined _ _ _ active _ _ => exact absurd (h.status_unique active).symm hleft
  | waiting _ _ _ transient moving _ => exact absurd (hrest.2 _ _ transient) moving
  | stopped _ _ _ before _ delegated _ =>
    have hinactive := hrest.2 _ _ before
    unfold stakeIsInactiveWithoutHistory at hinactive
    rw [delegated] at hinactive
    rcases hinactive with hlt | ⟨-, heq⟩
    · exact absurd hepoch (Nat.lt_asymm hlt)
    · exact absurd heq.symm (Nat.ne_of_lt hepoch)

/-- What a visit leaves of an entry that is ready for removal. -/
structure Removed (epoch : Epoch) (x : Cell) (s : StakeStatus) (x' : Cell) : Prop where
  status : x'.entry.status = StakeStatus.readyForRemoval.toPod
  active : x'.entry.activeStakeLamports = 0
  transient : x'.entry.transientStakeLamports = 0
  validator_empty : s.HasValidator → x'.validator.lamports = 0
  transient_empty : 0 < x.entry.transientStakeLamports → x'.transient.lamports = 0
  rest : x'.AtRest epoch

/-- The cleanup drops such an entry. -/
theorem Removed.isRemoved {epoch : Epoch} (h : Removed epoch x s x') : x'.entry.isRemoved = true := by
  simp [ValidatorStakeInfo.isRemoved, PodStakeStatus.toStatus?_eq_some.mpr h.status, h.active, h.transient]

/-- A merging visit of a leaving validator at rest brings all it has on record to the reserve. -/
theorem Sound.removed (laws : StakeLaws rt) (h : Sound rt c.keeper steady x s) (hleft : s ≠ .active)
    (hmode : c.noMerge = false) (hepoch : sv.epoch < epochMax) (hrest : x.AtRest sv.epoch)
    (hvisit : StakePoolFogo.visit rt sv c x = .ok (x', n)) : Removed sv.epoch x s x' ∧ x.entry.recorded ≤ n := by
  have hrecorded := h.recorded_le
  obtain ⟨hworth, hworth'⟩ := h.visit_conserved laws hvisit
  obtain ⟨t, r, ht, hr, -, -, rfl, rfl⟩ := visit_cases hvisit
  -- First the transient stake, which is at rest and goes back to the reserve.
  obtain ⟨s', hgone⟩ := h.transientGone hleft hmode hepoch hrest ht
  have hzero := hgone.lamports
  have hheld : s'.HasValidator → Held rt c.keeper t.validator := by
    intro hs
    rw [hgone.validator]
    exact h.validator (hgone.kept.mp hs)
  have hstatus : ∀ {u : StakeStatus}, t.status = u.toPod → u = s' := fun hu =>
    StakeStatus.toPod_inj.mp (hu.symm.trans hgone.status)
  have hrested : ∀ info stake, t.validator.data = .stake (.stake info stake) →
      stakeIsInactiveWithoutHistory stake sv.epoch := by
    rw [hgone.validator]
    exact hrest.1
  -- Then the validator stake, by the case of its visit.
  have hremoved : r.status = StakeStatus.readyForRemoval.toPod ∧ r.lamports = 0 ∧
      (s.HasValidator → r.validator.lamports = 0) ∧ ∀ info stake, r.validator.data = .stake (.stake info stake) →
        stakeIsInactiveWithoutHistory stake sv.epoch := by
    cases hr with
    | foreign unusable =>
      have hnone : ¬ s'.HasValidator := fun hs => unusable (hheld hs).usable
      rcases hgone.next with rfl | rfl
      · exact absurd (by decide) hnone
      · exact ⟨hgone.status, rfl, fun hs => absurd (hgone.kept.mpr hs) hnone, hrested⟩
    | dissolved _ _ =>
      rw [if_neg (not_not.mpr hzero)]
      exact ⟨rfl, rfl, fun _ => rfl, nofun⟩
    | counted data _ isStatus stays =>
      obtain rfl := hstatus isStatus
      rcases stays with rfl | ⟨-, hmode' | hmoving⟩
      · rcases hgone.next with hs | hs <;> cases hs
      · exact absurd (hmode'.symm.trans hmode) (by decide)
      · exact absurd (hrested _ _ data) hmoving
    | absorbed _ _ _ isStatus removed _ =>
      obtain rfl := hstatus isStatus
      rcases removed with ⟨-, rfl⟩ | ⟨rfl, -⟩
      · exact ⟨rfl, rfl, fun _ => rfl, nofun⟩
      · rcases hgone.next with hs | hs <;> cases hs
    | @left info stake _ data _ isStatus gone =>
      obtain rfl := hstatus isStatus
      obtain rfl := gone.resolve_left (by rintro rfl; rcases hgone.next with hs | hs <;> cases hs)
      refine ⟨hgone.status, rfl, fun hs => absurd (hgone.kept.mpr hs) (by decide), fun info' stake' hdata => ?_⟩
      rcases t.validator.swept_cases info stake with hkept | hdrained
      · exact hrested _ _ (hkept ▸ hdata)
      · rw [hdrained] at hdata
        cases hdata
  obtain ⟨hready, hactive, hempty, hstill⟩ := hremoved
  refine ⟨⟨hready, hactive, hzero, hempty, hgone.transient, hstill, hgone.rest⟩, ?_⟩
  -- The visit conserves the worth, and the entry is left with nothing.
  dsimp only at hworth hworth'
  omega

end Visit

/-! ## One update -/

section Update

variable {rt : Runtime} {sv : Sysvars} {k : Pubkey} {keeper : Keeper} {steady : Prop} {w w' : Ledger}
  {accounts : List AccountMeta} {startIndex : UInt32} {v : ValidatorStakeInfo}

/-- An update visits the positions whose accounts it brought. -/
theorem visits_of_addresses {l : ValidatorList} {i : Nat} (hv : l.validators[i]? = some v)
    (h : (updateCrank accounts startIndex).Addresses rt k i v) :
    Visits rt k startIndex.toNat (l.validators.drop startIndex.toNat) (stakePairs (accounts.drop 7)) i := by
  obtain ⟨pair, hpair, hown⟩ := h
  unfold Crank.pairAt at hpair
  split at hpair
  · rename_i hle
    have hle' : startIndex.toNat ≤ i := hle
    refine ⟨i - startIndex.toNat, v, pair, by omega, ?_, hpair, hown⟩
    rw [List.getElem?_drop, Nat.add_sub_cancel' hle']
    exact hv
  · cases hpair

/-- The entry at `i` as an update leaves it: removed, with what it had on record in the reserve. -/
theorem UpdateListRun.removed (stakes : StakeLaws rt) (r : UpdateListRun rt sv accounts startIndex false w w')
    (hkeeper : keeper = ⟨r.authority.key, r.p.lockup⟩) (hapart : Apart rt r.pool.key r.p.reserveStake r.l)
    (h : Solvent rt r.pool.key keeper steady w r.p r.l) (hepoch : sv.epoch < epochMax) {i : Nat}
    (hv : r.l.validators[i]? = some v)
    (haddressed : (updateCrank accounts startIndex).Addresses rt r.pool.key i v)
    (hleft : v.status ≠ StakeStatus.active.toPod) (hrest : (cellAt rt r.pool.key w v).AtRest sv.epoch) :
    ∃ v' s, r.after.validators[i]? = some v' ∧
      Removed sv.epoch (cellAt rt r.pool.key w v) s (cellAt rt r.pool.key r.settled v') ∧
      (0 < v.activeStakeLamports → s.HasValidator) ∧
      (w r.p.reserveStake).lamports + v.recorded ≤ (r.settled r.p.reserveStake).lamports := by
  obtain rfl : keeper = r.context.keeper := hkeeper
  obtain ⟨info, hheld, -⟩ := h.reserve
  obtain ⟨s, hsound⟩ := h.entries v (List.mem_of_getElem? hv)
  have hs : s ≠ .active := by
    rintro rfl
    exact hleft hsound.status
  obtain ⟨v', hv', hrefresh, -⟩ := r.refreshed_at stakes hapart ⟨info, hheld.data⟩ hv
  obtain ⟨n, hvisit⟩ := hrefresh haddressed
  obtain ⟨hremoved, hle⟩ := hsound.removed stakes hs rfl hepoch hrest hvisit
  refine ⟨v', s, hv', hremoved, fun hpos => hsound.has_active hpos, ?_⟩
  -- The first visit of the entry is the one that pays.
  obtain ⟨visited, hrun, hvisited, -⟩ := r.row_run stakes hapart ⟨info, hheld.data⟩
  obtain ⟨x', m, hfirst, hpaid⟩ := hrun.paid ((hvisited i).mpr (visits_of_addresses hv haddressed))
    (x := cellAt rt r.pool.key w v) (by simp only [row, List.getElem?_map, hv, Option.map_some])
  obtain ⟨-, rfl⟩ := Prod.mk.inj (Except.ok.inj (hfirst.symm.trans hvisit))
  exact Nat.le_trans (Nat.add_le_add_left hle _) hpaid

/-- An update keeps the vote accounts of the list. -/
theorem UpdateListRun.votes {noMerge : Bool} (r : UpdateListRun rt sv accounts startIndex noMerge w w') :
    r.after.votes = r.l.votes := by
  have hrefreshed := sameShape_votes ((refreshEntries_spec r.refresh).1.imp fun _ _ h => h.sameShape)
  simp only [ValidatorList.votes, UpdateListRun.after, List.map_append, hrefreshed]
  rw [← List.map_append, List.take_append_drop]

end Update

/-! ## The cleanup -/

section Cleanup

variable {rt : Runtime} {k : Pubkey} {p : StakePool} {l : ValidatorList} {w : Ledger}
  {accounts : List AccountMeta} {a b : AccountMeta}

/-- Resetting preferred validators never lengthens the record. -/
theorem StakePool.packedLen_keepListed (p : StakePool) (l : ValidatorList) :
    (p.keepListed l).packedLen ≤ p.packedLen := by
  have hkey : ∀ o : Option Pubkey, (if (keepPreferred l o).isSome then 32 else 0) ≤
      (if o.isSome then 32 else 0) := by
    intro o
    cases o with
    | none => exact Nat.le_refl _
    | some vote =>
      show _ ≤ 32
      split <;> omega
  simp only [packedLen, keepListed]
  gcongr 435 + ?_ + ?_ + _ + _ + _ + _ + _
  · exact hkey _
  · exact hkey _

/-- The cleanup of a pool whose record fits its account. -/
theorem cleanup_succeeds (sv : Sysvars) (laws : ProgramLaws rt) (hp : PoolAt rt w k p)
    (hl : ListAt rt w p.validatorList l) (hroom : p.packedLen ≤ (w k).dataLen)
    (ha : accounts[0]? = some a) (hak : a.key = k) (hb : accounts[1]? = some b)
    (hbk : b.key = p.validatorList) :
    ∃ w' p', processInstruction rt sv accounts .cleanupRemovedValidatorEntries w = .ok w' ∧
      PoolAt rt w' k p' ∧ (p' = p ∨ p' = p.keepListed l.cleaned) ∧ ListAt rt w' p.validatorList l.cleaned ∧
      OnlyAt [k, p.validatorList] w w' := by
  subst hak
  have hne : a.key ≠ p.validatorList := hp.ne_list hl
  have hsame : writeValidatorList w p.validatorList l.cleaned a.key = w a.key := Ledger.set_other _ _ hne
  have hpool : (writeValidatorList w p.validatorList l.cleaned a.key).tryStakePool = .ok p := by
    rw [hsame, Account.tryStakePool, hp.data]
  have hlist : OnlyAt [a.key, p.validatorList] w (writeValidatorList w p.validatorList l.cleaned) :=
    (OnlyAt.set _ _ _).mono (List.subset_cons_self _ _)
  obtain ⟨w', hwrite, honly⟩ : ∃ w', onlyIf (a.isWritable = true) (fun w => cleanupPreferred w a.key l.cleaned)
      (writeValidatorList w p.validatorList l.cleaned) = .ok w' ∧ OnlyAt [a.key, p.validatorList] w w' := by
    by_cases hwritable : a.isWritable = true
    · rw [onlyIf, if_pos hwritable, cleanupPreferred, hpool, ok_bind]
      have hfits : (p.keepListed l.cleaned).packedLen ≤
          (writeValidatorList w p.validatorList l.cleaned a.key).dataLen := by
        rw [hsame]
        exact Nat.le_trans (p.packedLen_keepListed _) hroom
      have hwrite := writeStakePool_eq_ok.mpr ⟨hfits, rfl⟩
      exact ⟨_, hwrite, hlist.trans ((OnlyAt.of_writeStakePool hwrite).mono (by simp))⟩
    · rw [onlyIf, if_neg hwritable]
      exact ⟨_, rfl, hlist⟩
  have hrun : processCleanupRemovedValidatorEntries rt accounts w = .ok w' := by
    simp only [processCleanupRemovedValidatorEntries, bind_eq_ok, accountAt_eq_ok, exists_unit,
      loadStakePool_eq_ok, StakePool.checkValidatorList_eq_ok, loadValidatorList_eq_ok]
    exact ⟨a, ha, b, hb, p, hp, hbk, l, hbk ▸ hl, hbk ▸ hwrite⟩
  obtain ⟨r⟩ := processCleanupRemovedValidatorEntries_run rt hrun
  obtain ⟨p', hp', heffect⟩ : ∃ p', (p' = p ∨ p' = p.keepListed l.cleaned) ∧
      BookEffect rt sv accounts w w' a.key p l p' l.cleaned := r.effect laws ha hp hl
  exact ⟨w', p', hrun, heffect.own.after, hp', heffect.list, honly⟩

end Cleanup

/-! ## Update and cleanup -/

section Run

variable {rt : Runtime} {sv : Sysvars} {k : Pubkey} {steady : Prop} {s : World} {p : StakePool}
  {l : ValidatorList} {w : Ledger} {accounts : List AccountMeta} {startIndex : UInt32}

/-- A merging update succeeds when no entry it has the accounts of is blocked. -/
theorem Crankable.merges (stakes : StakeLaws rt) (merges : MergeLaws rt) (phases : PhaseLaws rt)
    (h : Crankable rt k p w l) (hrewards : sv.epochRewardsActive = false)
    (hsound : ∀ v ∈ l.validators, ∃ st, Sound rt (poolKeeper rt k) False (cellAt rt k w v) st)
    (hchunk : ChunkAccounts rt k p l accounts startIndex)
    (hclear : ∀ (i : Nat) v, l.validators[i]? = some v → (updateCrank accounts startIndex).Addresses rt k i v →
      ¬ (cellAt rt k w v).Blocked sv.epoch) :
    ∃ w', ∃ r : UpdateListRun rt sv accounts startIndex false w w', r.pool.key = k := by
  apply h.update hrewards hchunk
  intro c hready hpool hreserve hkeeper hmode
  have hapart := h.apart_drop startIndex.toNat
  rw [← hpool, ← hreserve] at hapart
  apply refreshEntries_merging stakes merges phases hready hmode hapart
  constructor
  · intro v hv
    rw [hpool, hkeeper]
    exact hsound v (List.mem_of_mem_drop hv)
  · intro v hv
    rw [hpool]
    exact h.genuine v (List.mem_of_mem_drop hv)
  · intro i v pair hv hpair hown
    rw [List.getElem?_drop] at hv
    rw [hpool] at hown ⊢
    apply hclear _ v hv
    refine ⟨pair, ?_, hown⟩
    rw [Crank.pairAt, updateCrank, if_pos (Nat.le_add_right _ _), Nat.add_sub_cancel_left]
    exact hpair

/-- A pool does not lie where a stake account is held. -/
theorem PoolAt.ne_held {keeper : Keeper} {j : Pubkey} (hp : PoolAt rt w k p) (h : Held rt keeper (w j)) :
    j ≠ k := by
  rintro rfl
  obtain ⟨_, _, hheld⟩ := h
  cases hp.data.symm.trans hheld.data

/-- What is left of an entry whose stakes are back in the reserve. -/
structure Gone (rt : Runtime) (k : Pubkey) (p : StakePool) (w w' : Ledger) (l' : ValidatorList)
    (v : ValidatorStakeInfo) : Prop where
  unlisted : v.voteAccountAddress ∉ l'.votes
  validator : 0 < v.activeStakeLamports → (w' (v.stakeKey rt k)).lamports = 0
  transient : 0 < v.transientStakeLamports → (w' (v.transientKey rt k)).lamports = 0
  reserve : (w p.reserveStake).lamports + v.recorded ≤ (w' p.reserveStake).lamports

/-- Outside reward distribution, an update of a chunk none of whose entries is blocked and then the cleanup
succeed, and of every validator in the chunk that has been removed and whose stakes are inactive they leave
nothing: its entry is dropped, and what it had on record is in the reserve. -/
theorem removal_completes (laws : ProgramLaws rt) (addresses : AddressLaws rt) (system : SystemLaws rt)
    (stakes : StakeLaws rt) (hderived : (findDepositAuthorityProgramAddress rt k).1 ≠ (poolKeeper rt k).authority)
    (merges : MergeLaws rt) (phases : PhaseLaws rt) (h : PoolRun rt k steady s) (hp : PoolAt rt s.ledger k p)
    (hl : ListAt rt s.ledger p.validatorList l)
    (hgenuine : ∀ v ∈ l.validators, GenuineAt rt (v.stakeKey rt k) s.ledger)
    (hrewards : s.sysvars.epochRewardsActive = false)
    (hchunk : ChunkAccounts rt k p l accounts startIndex)
    (hclear : ∀ (i : Nat) v, l.validators[i]? = some v → (updateCrank accounts startIndex).Addresses rt k i v →
      ¬ (cellAt rt k s.ledger v).Blocked s.sysvars.epoch) {cleanup : List AccountMeta} {a b : AccountMeta}
    (ha : cleanup[0]? = some a) (hak : a.key = k) (hb : cleanup[1]? = some b) (hbk : b.key = p.validatorList) :
    ∃ w' w'' p' l', processInstruction rt s.sysvars accounts (.updateValidatorListBalance startIndex false)
        s.ledger = .ok w' ∧
      processInstruction rt s.sysvars cleanup .cleanupRemovedValidatorEntries w' = .ok w'' ∧
      PoolAt rt w'' k p' ∧ ListAt rt w'' p.validatorList l' ∧ l'.votes.Sublist l.votes ∧
      ∀ (i : Nat) v, l.validators[i]? = some v → (updateCrank accounts startIndex).Addresses rt k i v →
        v.status ≠ StakeStatus.active.toPod → (cellAt rt k s.ledger v).AtRest s.sysvars.epoch →
        Gone rt k p s.ledger w'' l' v := by
  obtain ⟨hkept, hsolvent⟩ := h.solvent laws addresses system stakes hderived hp hl
  have hcrankable := h.updatable laws addresses system stakes hderived hp hl hgenuine
  obtain ⟨w', r, rfl⟩ := hcrankable.merges stakes merges phases hrewards (fun v hv => by
    obtain ⟨st, hst⟩ := hsolvent.entries v hv
    exact ⟨st, { hst with delegated := False.elim, stopped := False.elim }⟩) hchunk hclear
  obtain rfl := hp.unique r.isPool
  obtain rfl := hl.unique (by rw [← r.list_key]; exact r.isList)
  obtain ⟨hafter, -⟩ := hcrankable.after laws stakes r
  obtain ⟨info, hheld⟩ := hcrankable.reserve
  -- The pool's account is none of those an update writes to.
  have hpool : w' r.pool.key = s.ledger r.pool.key := by
    rcases r.stakeOnly stakes hcrankable.apart ⟨info, hheld.data⟩ (hp.ne_list hl) with hsame | ⟨⟨t, ht⟩, -⟩
    · exact hsame
    · cases hp.data.symm.trans ht
  obtain ⟨w'', p', hcleanup, hp', -, hl', honly⟩ := cleanup_succeeds s.sysvars laws hafter.pool
    hafter.list (by rw [hpool]; exact h.reachable.roomy laws _ _ hp) ha hak hb hbk
  have hwritten : ∀ j, j ≠ r.pool.key → j ≠ r.p.validatorList → w'' j = r.settled j := by
    intro j hj hjl
    rw [honly j (by simp [hj, hjl])]
    rw [← r.list_key] at hjl
    rw [congrFun r.result j, writeValidatorList, Ledger.set_other _ _ hjl]
  have hsub : r.after.cleaned.votes.Sublist r.l.votes := by
    rw [← r.votes]
    exact List.filter_sublist.map _
  refine ⟨w', w'', p', r.after.cleaned, (processUpdateValidatorListBalance_run rt _).mpr ⟨r⟩, hcleanup, hp', hl',
    hsub, fun i v hv haddressed hleft hrest => ?_⟩
  have hmem := List.mem_of_getElem? hv
  obtain ⟨v', st, hv', hremoved, hhas, hpaid⟩ := r.removed stakes (hkept.keeper_eq r.isAuthority)
    hcrankable.apart hsolvent h.orderly.epoch hv haddressed hleft hrest
  obtain ⟨st', hsound⟩ := hsolvent.entries v hmem
  obtain ⟨u, hu, hseeds, -, -⟩ := r.crankedEntry hv
  obtain rfl := Option.some.inj (hv'.symm.trans hu)
  have hstake : v'.stakeKey rt r.pool.key = v.stakeKey rt r.pool.key := by
    rw [ValidatorStakeInfo.stakeKey, ValidatorStakeInfo.stakeKey, hseeds.vote, hseeds.validator]
  have htransient : v'.transientKey rt r.pool.key = v.transientKey rt r.pool.key := by
    rw [ValidatorStakeInfo.transientKey, ValidatorStakeInfo.transientKey, hseeds.vote, hseeds.transient]
  obtain ⟨hlist, hlist'⟩ := hcrankable.list_apart v hmem
  constructor
  · intro hin
    obtain ⟨u, hu, hvote⟩ := List.mem_map.mp hin
    obtain ⟨hu', hkept'⟩ := List.mem_filter.mp hu
    have hdistinct : (r.after.validators.map (·.voteAccountAddress)).Nodup := by
      rw [show r.after.validators.map (·.voteAccountAddress) = _ from r.votes]
      exact (h.reachable.listWellFormed laws hp hl).distinct
    obtain rfl := List.inj_on_of_nodup_map hdistinct hu' (List.mem_of_getElem? hv') (hvote.trans hseeds.vote.symm)
    have hdropped : u.isRemoved = true := hremoved.isRemoved
    simp [hdropped] at hkept'
  · intro hpos
    have hheld' : Held rt (poolKeeper rt r.pool.key) (s.ledger (v.stakeKey rt r.pool.key)) :=
      hsound.validator (hsound.has_active hpos)
    rw [hwritten _ (hp.ne_held hheld') hlist, ← hstake]
    exact hremoved.validator_empty (hhas hpos)
  · intro hpos
    have hheld' : Held rt (poolKeeper rt r.pool.key) (s.ledger (v.transientKey rt r.pool.key)) :=
      hsound.transient hpos
    rw [hwritten _ (hp.ne_held hheld') hlist', ← htransient]
    exact hremoved.transient_empty hpos
  · have hne : r.p.reserveStake ≠ r.p.validatorList := by
      intro heq
      have hdata := hheld.data
      rw [heq, hl.data] at hdata
      cases hdata
    rw [hwritten _ (hp.ne_held ⟨_, info, hheld⟩) hne]
    exact hpaid

end Run

namespace Reference

def cleanupAccounts : List AccountMeta := [writes pool, writes validatorList]

def restsIn (epoch : Epoch) (a : Account) : Bool :=
  match a.data with
  | .stake (.stake _ stake) => decide (stakeIsInactiveWithoutHistory stake epoch)
  | _ => true

/-- What there is to evaluate on the pool before and after the epoch. -/
theorem cooled_checks :
    (departing.atEpoch 1).sysvars.epoch < epochMax ∧
    0 < (departing.atEpoch 1).sysvars.minimumBalance stakeSpace ∧
    passes runtime pool (apartIn runtime pool) (departing.atEpoch 1) = true ∧
    (loadStakePool runtime (departing.atEpoch 1).ledger pool).toOption.map
      (fun p => (p.validatorList, p.reserveStake)) = some (validatorList, reserve) ∧
    (loadValidatorList runtime (departing.atEpoch 1).ledger validatorList).toOption.map (fun l =>
      l.validators.map fun v => (v.voteAccountAddress, v.status, ownAddresses runtime pool v)) =
        some [(Reference.vote, StakeStatus.deactivatingValidator.toPod, validatorStake, transientStake)] ∧
    restsIn (departing.atEpoch 1).sysvars.epoch ((departing.atEpoch 1).ledger validatorStake) = true ∧
    restsIn (departing.atEpoch 1).sysvars.epoch ((departing.atEpoch 1).ledger transientStake) = true ∧
    (departing.atEpoch 1).sysvars.epochRewardsActive = false ∧
    ((departing.atEpoch 1).ledger validatorStake).owner = runtime.stakeProgramId := by
  decide +kernel

/-- The same pool one epoch later, when the stake is inactive. -/
theorem cooled_run : PoolRun runtime pool True (departing.atEpoch 1) := by
  obtain ⟨hepoch, hrent, hpasses, -⟩ := cooled_checks
  exact departing_run.atEpoch (.of_passes hepoch hrent hpasses)

theorem atRest_of_restsIn {epoch : Epoch} {v : ValidatorStakeInfo} {w : Ledger}
    (hvalidator : restsIn epoch (w (v.stakeKey runtime pool)) = true)
    (htransient : restsIn epoch (w (v.transientKey runtime pool)) = true) :
    (cellAt runtime pool w v).AtRest epoch := by
  constructor
  · intro info stake hdata
    rw [restsIn, show (w (v.stakeKey runtime pool)).data = _ from hdata] at hvalidator
    exact of_decide_eq_true hvalidator
  · intro info stake hdata
    rw [restsIn, show (w (v.transientKey runtime pool)).data = _ from hdata] at htransient
    exact of_decide_eq_true htransient

end Reference

section Cooled

open Reference

theorem cooled_entry : ∃ p l v, PoolAt runtime (departing.atEpoch 1).ledger pool p ∧
    (p.validatorList, p.reserveStake) = (validatorList, reserve) ∧
    ListAt runtime (departing.atEpoch 1).ledger p.validatorList l ∧ l.validators = [v] ∧
    v.voteAccountAddress = Reference.vote ∧ v.status = StakeStatus.deactivatingValidator.toPod ∧
    v.stakeKey runtime pool = validatorStake ∧ v.transientKey runtime pool = transientStake ∧
    ChunkAccounts runtime pool p l updateListAccounts 0 := by
  obtain ⟨-, -, -, hpool, hlist, -⟩ := cooled_checks
  obtain ⟨p, hp, hkeys⟩ : ∃ p, PoolAt runtime (departing.atEpoch 1).ledger pool p ∧
      (p.validatorList, p.reserveStake) = (validatorList, reserve) :=
    PoolAt.of_load (fun p => (p.validatorList, p.reserveStake)) hpool
  obtain ⟨l, hl, hentries⟩ : ∃ l, ListAt runtime (departing.atEpoch 1).ledger validatorList l ∧
      l.validators.map (fun v => (v.voteAccountAddress, v.status, ownAddresses runtime pool v)) =
        [(Reference.vote, StakeStatus.deactivatingValidator.toPod, validatorStake, transientStake)] :=
    ListAt.of_load _ hlist
  obtain ⟨v, hv, hentry⟩ := List.map_eq_singleton_iff.mp hentries
  obtain ⟨hvote, hentry⟩ := Prod.mk.inj hentry
  obtain ⟨hstatus, haddresses⟩ := Prod.mk.inj hentry
  obtain ⟨p', l', v', hp', hl', hv', hstake, htransient, hchunk⟩ := one_entry (s := departing.atEpoch 1)
    ⟨p, hp, hkeys⟩ ⟨l, hl, by rw [hv, List.map_singleton, haddresses]⟩
  obtain rfl := hp'.unique hp
  obtain ⟨hlist, -⟩ := Prod.mk.inj hkeys
  obtain rfl := hl'.unique (hlist ▸ hl)
  obtain rfl : v' = v := List.singleton_inj.mp (hv'.symm.trans hv)
  exact ⟨p', l', v', hp, hkeys, hl', hv, hvote, hstatus, hstake, htransient, hchunk⟩

/-- A list without an active entry is not blocked. -/
theorem not_blocked_of_left {w : Ledger} {epoch : Epoch} {v : ValidatorStakeInfo}
    (hstatus : v.status = StakeStatus.deactivatingValidator.toPod) :
    ¬ (cellAt runtime pool w v).Blocked epoch := by
  rintro ⟨hactive, -⟩
  exact absurd (hstatus.symm.trans hactive) (by decide)

/-- The one validator of the reference pool, removed and gone an epoch later. -/
theorem removal_completes_cooled : ∃ w' w'' l', processInstruction runtime (departing.atEpoch 1).sysvars
      updateListAccounts (.updateValidatorListBalance 0 false) (departing.atEpoch 1).ledger = .ok w' ∧
    processInstruction runtime (departing.atEpoch 1).sysvars cleanupAccounts .cleanupRemovedValidatorEntries w' =
      .ok w'' ∧
    ListAt runtime w'' validatorList l' ∧ Reference.vote ∉ l'.votes := by
  obtain ⟨p, l, v, hp, hkeys, hl, hv, hvote, hstatus, hstake, htransient, hchunk⟩ := cooled_entry
  obtain ⟨hlist, -⟩ := Prod.mk.inj hkeys
  have hleft : v.status ≠ StakeStatus.active.toPod := by
    rw [hstatus]
    decide
  obtain ⟨-, -, -, -, -, hvalidator, hpending, hrewards, howner⟩ := cooled_checks
  have hrest : (cellAt runtime pool (departing.atEpoch 1).ledger v).AtRest (departing.atEpoch 1).sysvars.epoch := by
    rw [← hstake] at hvalidator
    rw [← htransient] at hpending
    exact atRest_of_restsIn hvalidator hpending
  have hfirst : cleanupAccounts[0]? = some (writes pool) := rfl
  obtain ⟨w', w'', q, m, hupdate, hcleanup, -, hm, -, hgone⟩ := removal_completes programLaws addressLaws
    systemLaws stakeLaws derived_apart mergeLaws phaseLaws cooled_run hp hl (one_genuine hv hstake howner) hrewards
    hchunk (fun i u hu _ => by
      have hmem := List.mem_of_getElem? hu
      rw [hv, List.mem_singleton] at hmem
      exact hmem ▸ not_blocked_of_left hstatus) hfirst rfl rfl hlist.symm
  rw [hlist] at hm
  have haddressed : (updateCrank updateListAccounts 0).Addresses runtime pool 0 v :=
    ⟨(validatorStake, transientStake), rfl, hstake, htransient⟩
  refine ⟨w', w'', m, hupdate, hcleanup, hm, ?_⟩
  rw [← hvote]
  exact (hgone 0 v (by rw [hv]; rfl) haddressed hleft hrest).unlisted

end Cooled

end StakePoolFogo
