import StakePoolFogo.Freshness
import StakePoolFogo.Solvency.Fallback

/-!
# What stops an update that merges

In merging mode an update moves transient stake of an earlier epoch to the stake of an active validator
without looking whether the two have been deactivated.  The stake program refuses to merge a stake that is
deactivating, or an active one into an inactive one, and then the whole chunk fails.
-/

open StakePoolFogo.Checked StakePoolFogo.Outcome

namespace StakePoolFogo

variable {rt : Runtime} {sv : Sysvars} {k : Pubkey} {steady : Prop} {w w' : Ledger} {s : World}
  {accounts : List AccountMeta} {startIndex : UInt32} {p : StakePool} {l : ValidatorList}
  {c : UpdateContext} {key validatorKey transientKey : Pubkey} {status : PodStakeStatus}
  {v : ValidatorStakeInfo} {vs : List ValidatorStakeInfo} {x : Cell}

/-- Stakes the stake program merges as fully active ones. -/
def Joinable (d t : Stake) : Prop :=
  d.delegation.deactivationEpoch = epochMax ∧ t.delegation.deactivationEpoch = epochMax ∧
    d.delegation.voterPubkey = t.delegation.voterPubkey

/-- The entry is of an active validator, its two stakes are of earlier epochs, the transient one is not yet
inactive, and the stake program does not merge the two. -/
def Cell.Blocked (epoch : Epoch) (x : Cell) : Prop :=
  x.entry.status = StakeStatus.active.toPod ∧ x.entry.transientStakeLamports ≠ 0 ∧
    ∃ dinfo d tinfo t, x.validator.data = .stake (.stake dinfo d) ∧ x.transient.data = .stake (.stake tinfo t) ∧
      d.delegation.activationEpoch < epoch ∧ t.delegation.activationEpoch < epoch ∧
      epoch ≤ t.delegation.deactivationEpoch ∧ ¬ Joinable d t

/-! ## Merges that succeed -/

/-- An inactive stake of the pool goes to the reserve. -/
theorem CrankReady.absorb_inactive (stakes : StakeLaws rt) (phases : PhaseLaws rt) (h : CrankReady rt sv c w)
    (hne : key ≠ c.reserve) (hgenuine : GenuineAt rt key w) {info : StakeMeta} {stake : Stake}
    (hdata : (w key).data = .stake (.stake info stake)) (husable : c.usable info)
    (hinactive : stakeIsInactiveWithoutHistory stake sv.epoch) :
    ∃ w', c.merge rt sv key c.reserve w = .ok w' := by
  obtain ⟨rinfo, hheld⟩ := h.reserve
  obtain ⟨hauthorized, hlockup⟩ := same_of_usable hheld.usable husable
  have hphase : stake.delegation.deactivationEpoch < sv.epoch ∨
      stake.delegation.activationEpoch = stake.delegation.deactivationEpoch := by
    rcases hinactive with hpast | ⟨hactivation, hdeactivation⟩
    · exact .inl hpast
    · exact .inr (hactivation.trans hdeactivation.symm)
  obtain ⟨r, hmerge⟩ := phases.inactive sv (w c.reserve) (w key) rinfo info stake h.rewards hheld.owner
    (hgenuine _ hdata) hheld.data hdata hauthorized hlockup hphase
  have hsigner : rinfo.authorized.staker = c.authority.key := hheld.usable.1
  rw [hsigner] at hmerge
  exact h.call_merge stakes hne.symm hmerge

/-- What the stake program says to merging two stakes of the pool that were active before this epoch. -/
theorem merge_iff_joinable (phases : PhaseLaws rt) (hrewards : sv.epochRewardsActive = false)
    {d t : Account} {dinfo tinfo : StakeMeta} {ds ts : Stake}
    (hd : HeldAs rt c.keeper d (.stake dinfo ds) dinfo) (ht : HeldAs rt c.keeper t (.stake tinfo ts) tinfo)
    (hactivated : ds.delegation.activationEpoch < sv.epoch) (hactivated' : ts.delegation.activationEpoch < sv.epoch)
    (hkept : sv.epoch ≤ ts.delegation.deactivationEpoch) :
    (∃ r, rt.stake.merge sv c.authority.key d t = .ok r) ↔ Joinable ds ts := by
  obtain ⟨hauthorized, hlockup⟩ := same_of_usable hd.usable ht.usable
  have hsigner : dinfo.authorized.staker = c.authority.key := hd.usable.1
  rw [← hsigner]
  exact phases.active sv d t dinfo tinfo ds ts hrewards hd.owner ht.owner hd.data ht.data hauthorized hlockup
    hactivated hactivated' hkept

/-- A stake of the pool that nobody has deactivated can be deactivated. -/
theorem CrankReady.deactivate_succeeds (stakes : StakeLaws rt) (phases : PhaseLaws rt) (h : CrankReady rt sv c w)
    {info : StakeMeta} {stake : Stake} (hheld : HeldAs rt c.keeper (w key) (.stake info stake) info)
    (hmax : stake.delegation.deactivationEpoch = epochMax) :
    ∃ w', stakeDeactivate rt sv key c.clock c.authority c.pool c.stakePool.stakeWithdrawBumpSeed w = .ok w' := by
  obtain ⟨a, hdeactivate⟩ := phases.deactivate sv (w key) info stake h.rewards hheld.owner hheld.data hmax
  have hsigner : info.authorized.staker = c.authority.key := hheld.usable.1
  rw [hsigner] at hdeactivate
  obtain ⟨_, _, _, -, -, hlamports, ⟨howner, -⟩, -⟩ := stakes.deactivate _ _ _ _ hdeactivate
  have hlegal : (w key).changedLegally [rt.stakeProgramId] a := by
    apply Or.inl
    rw [howner, hheld.owner]
    exact ⟨List.mem_singleton_self _, .inl (List.mem_singleton_self _)⟩
  have hsysvars : requireSysvars [c.clock] [rt.clockId] = .ok () := by
    rw [h.clock]
    exact failIf_neg (not_not.mpr rfl)
  exact ⟨_, bind_eq_ok.mpr ⟨(), hsysvars, bind_eq_ok.mpr ⟨(), h.signs,
    invoke₁_eq_ok.mpr ⟨a, hdeactivate, hlegal, hlamports, rfl⟩⟩⟩⟩

/-! ## The transient half -/

theorem removeTransientStake_succeeds (s : StakeStatus) :
    ∃ t : StakeStatus, s.toPod.removeTransientStake = .ok t.toPod ∧ (t.HasValidator → s.HasValidator) := by
  cases s with
  | active => exact ⟨.active, rfl, id⟩
  | deactivatingValidator => exact ⟨.deactivatingValidator, rfl, id⟩
  | deactivatingTransient => exact ⟨.readyForRemoval, rfl, fun h => absurd h (by decide)⟩
  | deactivatingAll => exact ⟨.deactivatingValidator, rfl, fun _ => by decide⟩
  | readyForRemoval => exact ⟨.readyForRemoval, rfl, id⟩

/-- What a visit in merging mode starts from. -/
structure MergeReady (rt : Runtime) (sv : Sysvars) (c : UpdateContext) (v : ValidatorStakeInfo)
    (validatorKey transientKey : Pubkey) (w : Ledger) : Prop extends CrankReady rt sv c w where
  visit : VisitReady c validatorKey transientKey w
  sound : ∃ s, Sound rt c.keeper False ⟨v, w validatorKey, w transientKey⟩ s
  genuine : GenuineAt rt validatorKey w
  clear : ¬ Cell.Blocked sv.epoch ⟨v, w validatorKey, w transientKey⟩

/-- What the transient half leaves for the validator half. -/
structure ValidatorReady (rt : Runtime) (sv : Sysvars) (c : UpdateContext) (status : PodStakeStatus)
    (validatorKey : Pubkey) (w : Ledger) : Prop extends CrankReady rt sv c w where
  ne_reserve : validatorKey ≠ c.reserve
  genuine : GenuineAt rt validatorKey w
  status : ∃ s : StakeStatus, status = s.toPod ∧ (s.HasValidator → Held rt c.keeper (w validatorKey))

namespace MergeReady

variable (h : MergeReady rt sv c v validatorKey transientKey w)
include h

theorem unmoved : ValidatorReady rt sv c v.status validatorKey w := by
  obtain ⟨s, hsound⟩ := h.sound
  exact ⟨h.toCrankReady, h.visit.validator_ne, h.genuine, s, hsound.status, hsound.validator⟩

/-- The transient stake goes to the reserve. -/
theorem absorbed (stakes : StakeLaws rt) (hmerge : c.merge rt sv transientKey c.reserve w = .ok w') :
    ∃ status', v.status.removeTransientStake = .ok status' ∧ ValidatorReady rt sv c status' validatorKey w' := by
  obtain ⟨s, hsound⟩ := h.sound
  obtain ⟨info, hinfo⟩ := h.visit.reserve
  obtain ⟨-, hcredited, honly⟩ := UpdateContext.merge_reserve stakes hmerge hinfo
  have hvalidator : w' validatorKey = w validatorKey :=
    honly validatorKey (by simp [h.visit.apart, h.visit.validator_ne])
  obtain ⟨t, hremoved, hhas⟩ := removeTransientStake_succeeds s
  refine ⟨t.toPod, ?_, h.toCrankReady.credited hcredited, h.visit.validator_ne, ?_, t, rfl, fun ht => ?_⟩
  · rw [hsound.status]
    exact hremoved
  · rw [GenuineAt, hvalidator]
    exact h.genuine
  · rw [hvalidator]
    exact hsound.validator (hhas ht)

/-- The transient stake of an active validator is merged if it is not blocked. -/
theorem joined (stakes : StakeLaws rt) (phases : PhaseLaws rt) {tinfo : StakeMeta} {t : Stake}
    (hheld : HeldAs rt c.keeper (w transientKey) (.stake tinfo t) tinfo)
    (hpending : v.transientStakeLamports ≠ 0) (hactive : v.status = StakeStatus.active.toPod)
    (hmoving : ¬ stakeIsInactiveWithoutHistory t sv.epoch) :
    ∃ w', mergeActiveTransient rt sv c (w validatorKey).tryStakeState.toOption t validatorKey transientKey w =
      .ok w' ∧ ValidatorReady rt sv c v.status validatorKey w' := by
  obtain ⟨s, hsound⟩ := h.sound
  obtain rfl := hsound.status_unique hactive
  obtain ⟨state, dinfo, hvalidator⟩ := hsound.validator (.inl rfl)
  have hstate : (w validatorKey).tryStakeState.toOption = some state := by
    rw [hvalidator.tryStakeState]
    rfl
  unfold mergeActiveTransient
  rw [hstate]
  cases state with
  | uninitialized | initialized _ | rewardsPool => exact ⟨w, rfl, h.unmoved⟩
  | stake _ d =>
    cases hvalidator.info_eq
    dsimp only
    by_cases hboth : t.delegation.activationEpoch < sv.epoch ∧ d.delegation.activationEpoch < sv.epoch
    · have hkept : sv.epoch ≤ t.delegation.deactivationEpoch :=
        Nat.not_lt.mp fun hpast => hmoving (.inl hpast)
      have hjoinable : Joinable d t := by
        by_contra hnot
        apply h.clear
        exact ⟨hactive, hpending, _, d, tinfo, t, hvalidator.data, hheld.data, hboth.2, hboth.1, hkept, hnot⟩
      obtain ⟨r, hmerge⟩ :=
        (merge_iff_joinable phases h.rewards hvalidator hheld hboth.2 hboth.1 hkept).mpr hjoinable
      obtain ⟨w', hcall⟩ := h.toCrankReady.call_merge stakes h.visit.apart hmerge
      obtain ⟨-, honly, hmerge'⟩ := stakeMerge_spec hcall
      have hreserve : w' c.reserve = w c.reserve :=
        honly c.reserve (by simp [h.visit.validator_ne.symm, h.visit.transient_ne.symm])
      have hgrown := Held.grows ⟨_, _, hvalidator⟩ (stakes.merge_grows hmerge')
      refine ⟨w', onlyIf_eq_ok.mpr (.inl ⟨hboth, hcall⟩), h.toCrankReady.credited (n := 0) hreserve,
        h.visit.validator_ne, fun _ _ => hgrown.owner, .active, hactive, fun _ => hgrown⟩
    · exact ⟨w, onlyIf_eq_ok.mpr (.inr ⟨hboth, rfl⟩), h.unmoved⟩

/-- What a leaving validator has in transit is deactivated. -/
theorem stopped (stakes : StakeLaws rt) (phases : PhaseLaws rt) {tinfo : StakeMeta} {t : Stake}
    (hheld : HeldAs rt c.keeper (w transientKey) (.stake tinfo t) tinfo) :
    ∃ w', onlyIf (t.delegation.deactivationEpoch = epochMax) (stakeDeactivate rt sv transientKey c.clock
      c.authority c.pool c.stakePool.stakeWithdrawBumpSeed) w = .ok w' ∧
      ValidatorReady rt sv c v.status validatorKey w' := by
  by_cases hmax : t.delegation.deactivationEpoch = epochMax
  · obtain ⟨w', hcall⟩ := h.toCrankReady.deactivate_succeeds stakes phases hheld hmax
    obtain ⟨honly, -⟩ := stakeDeactivate_spec hcall
    have hvalidator : w' validatorKey = w validatorKey := honly _ (by simp [h.visit.apart])
    have hreserve : w' c.reserve = w c.reserve := honly _ (by simp [h.visit.transient_ne.symm])
    obtain ⟨s, hsound⟩ := h.sound
    refine ⟨w', onlyIf_eq_ok.mpr (.inl ⟨hmax, hcall⟩), h.toCrankReady.credited (n := 0) hreserve,
      h.visit.validator_ne, ?_, s, hsound.status, ?_⟩
    · rw [GenuineAt, hvalidator]
      exact h.genuine
    · rw [hvalidator]
      exact hsound.validator
  · exact ⟨w, onlyIf_eq_ok.mpr (.inr ⟨hmax, rfl⟩), h.unmoved⟩

theorem refreshTransient (stakes : StakeLaws rt) (merges : MergeLaws rt) (phases : PhaseLaws rt)
    (hmode : c.noMerge = false) :
    ∃ status' n w', refreshTransient rt sv c v validatorKey transientKey w = .ok (status', n, w') ∧
      ValidatorReady rt sv c status' validatorKey w' := by
  unfold StakePoolFogo.refreshTransient
  by_cases hnone : v.transientStakeLamports = 0
  · rw [if_pos hnone]
    exact ⟨_, _, _, rfl, h.unmoved⟩
  obtain ⟨s, hsound⟩ := h.sound
  obtain ⟨state, tinfo, hheld⟩ := hsound.transient (Nat.pos_of_ne_zero hnone)
  have hstate : (w transientKey).tryStakeState.toOption = some state := by
    rw [hheld.tryStakeState]
    rfl
  have hmode' : ¬ c.noMerge = true := by rw [hmode]; exact Bool.false_ne_true
  have husable : c.usable tinfo := hheld.usable
  rw [if_neg hnone, hstate]
  have hgenuine : GenuineAt rt transientKey w := fun _ _ => hheld.owner
  cases state with
  | uninitialized | rewardsPool => exact ⟨_, _, _, rfl, h.unmoved⟩
  | initialized _ =>
    cases hheld.info_eq
    have habsorb : ∃ w', c.merge rt sv transientKey c.reserve w = .ok w' :=
      h.toCrankReady.merge_succeeds stakes merges h.visit.transient_ne hgenuine hheld.data husable
    obtain ⟨w', hmerge⟩ := habsorb
    obtain ⟨status', hremoved, hready⟩ := h.absorbed stakes hmerge
    dsimp only
    rw [if_pos husable, if_neg hmode']
    exact ⟨status', 0, w', bind_eq_ok.mpr ⟨w', hmerge, bind_eq_ok.mpr ⟨status', hremoved, rfl⟩⟩, hready⟩
  | stake _ t =>
    cases hheld.info_eq
    dsimp only
    rw [if_pos husable, if_neg hmode']
    -- The three ways a delegated transient stake can go.
    have hsettle : ∃ status' w', settleTransient rt sv c v.status (w validatorKey).tryStakeState.toOption t
        validatorKey transientKey w = .ok (status', w') ∧ ValidatorReady rt sv c status' validatorKey w' := by
      unfold settleTransient
      by_cases hinactive : stakeIsInactiveWithoutHistory t sv.epoch
      · rw [if_pos hinactive]
        obtain ⟨w', hmerge⟩ := h.toCrankReady.absorb_inactive stakes phases h.visit.transient_ne hgenuine
          hheld.data husable hinactive
        obtain ⟨status', hremoved, hready⟩ := h.absorbed stakes hmerge
        exact ⟨status', w', bind_eq_ok.mpr ⟨w', hmerge, bind_eq_ok.mpr ⟨status', hremoved, rfl⟩⟩, hready⟩
      · rw [if_neg hinactive]
        by_cases hactive : v.status.toStatus? = some .active
        · rw [if_pos hactive]
          obtain ⟨w', hjoin, hready⟩ := h.joined stakes phases hheld hnone
            (PodStakeStatus.toStatus?_eq_some.mp hactive) hinactive
          exact ⟨v.status, w', bind_eq_ok.mpr ⟨w', hjoin, rfl⟩, hready⟩
        · rw [if_neg hactive]
          obtain ⟨w', hstop, hready⟩ := h.stopped stakes phases hheld
          exact ⟨v.status, w', bind_eq_ok.mpr ⟨w', hstop, rfl⟩, hready⟩
    obtain ⟨status', w', hsettle, hready⟩ := hsettle
    exact ⟨status', _, w', bind_eq_ok.mpr ⟨(status', w'), hsettle, rfl⟩, hready⟩

end MergeReady

/-! ## The validator half -/

theorem removeValidatorStake_succeeds (s : StakeStatus) :
    ∃ t : StakeStatus, s.toPod.removeValidatorStake = .ok t.toPod := by
  cases s <;> exact ⟨_, rfl⟩

namespace ValidatorReady

variable (sv) (h : ValidatorReady rt sv c status validatorKey w)
include h

/-- The excess lamports of the validator stake go to the reserve. -/
theorem swept (stakes : StakeLaws rt) {info : StakeMeta} {stake : Stake}
    (hdata : (w validatorKey).data = .stake (.stake info stake)) (husable : c.usable info) :
    ∃ w₁, onlyIf (additionalLamports info stake (w validatorKey).lamports > 0) (stakeWithdraw rt sv c.pool
        validatorKey c.authority c.stakePool.stakeWithdrawBumpSeed c.reserve c.clock c.history
        (additionalLamports info stake (w validatorKey).lamports)) w = .ok w₁ ∧
      CrankReady rt sv c w₁ ∧ GenuineAt rt validatorKey w₁ ∧
      (0 < info.rentExemptReserve → (w₁ validatorKey).data = .stake (.stake info stake)) := by
  by_cases hexcess : additionalLamports info stake (w validatorKey).lamports > 0
  · have hsweep : ∃ w₁, stakeWithdraw rt sv c.pool validatorKey c.authority c.stakePool.stakeWithdrawBumpSeed
        c.reserve c.clock c.history (additionalLamports info stake (w validatorKey).lamports) w = .ok w₁ :=
      h.toCrankReady.withdraw_succeeds stakes h.ne_reserve h.genuine hdata husable hexcess
    obtain ⟨w₁, hcall⟩ := hsweep
    obtain ⟨-, hwithdraw⟩ := stakeWithdraw_spec hcall h.ne_reserve
    obtain ⟨hdebited, hcredited, -⟩ := stakes.withdraw_debited hwithdraw hdata rfl
    refine ⟨w₁, onlyIf_eq_ok.mpr (.inl ⟨hexcess, hcall⟩), h.toCrankReady.credited hcredited, ?_, fun hrent => ?_⟩
    · intro _ _
      rw [hdebited, Account.debited]
      split
      · exact h.genuine _ hdata
      · exact h.genuine _ hdata
    · -- The rent exemption stays, so the account is not emptied.
      have hleft : (w validatorKey).lamports - additionalLamports info stake (w validatorKey).lamports ≠ 0 := by
        unfold additionalLamports at hexcess ⊢
        omega
      rw [hdebited, Account.debited, if_neg hleft]
      exact hdata
  · exact ⟨w, onlyIf_eq_ok.mpr (.inr ⟨hexcess, rfl⟩), h.toCrankReady, h.genuine, fun _ => hdata⟩

/-- The validator stake is counted, or goes to the reserve when the validator has left. -/
theorem settleValidator (stakes : StakeLaws rt) (phases : PhaseLaws rt) {info : StakeMeta} {stake : Stake}
    {w₁ : Ledger} (hdata : (w validatorKey).data = .stake (.stake info stake)) (husable : c.usable info)
    (hready : CrankReady rt sv c w₁) (hgenuine : GenuineAt rt validatorKey w₁)
    (hkept : 0 < info.rentExemptReserve → (w₁ validatorKey).data = .stake (.stake info stake)) :
    ∃ r, settleValidator rt sv c status stake validatorKey w₁ = .ok r := by
  obtain ⟨s, hstatus, hheld⟩ := h.status
  have hremoved := removeValidatorStake_succeeds s
  unfold StakePoolFogo.settleValidator
  rw [PodStakeStatus.tryInto_eq_ok.mpr hstatus, ok_bind]
  cases s with
  | active | deactivatingTransient | readyForRemoval => exact ⟨_, rfl⟩
  | deactivatingValidator | deactivatingAll =>
    dsimp only
    split
    · exact ⟨_, rfl⟩
    · rename_i hmoving
      have hinactive : stakeIsInactiveWithoutHistory stake sv.epoch :=
        Decidable.not_not.mp fun hnot => hmoving (.inr hnot)
      obtain ⟨state, dinfo, hdheld⟩ := hheld (by decide)
      obtain ⟨rfl, rfl⟩ := hdheld.unique hdata rfl
      obtain ⟨w', hmerge⟩ := hready.absorb_inactive stakes phases h.ne_reserve hgenuine (hkept hdheld.rent) husable
        hinactive
      obtain ⟨t, hremoved⟩ := hremoved
      rw [hstatus]
      exact ⟨_, bind_eq_ok.mpr ⟨w', hmerge, bind_eq_ok.mpr ⟨t.toPod, hremoved, rfl⟩⟩⟩

theorem refreshValidator (stakes : StakeLaws rt) (merges : MergeLaws rt) (phases : PhaseLaws rt) (lamports : Nat) :
    ∃ r, refreshValidator rt sv c status lamports validatorKey w = .ok r := by
  unfold StakePoolFogo.refreshValidator
  split
  · rename_i info stake hstate
    have hmeta : (StakeStateV2.stake info stake).meta? = some info := rfl
    have hdata := stakeState_data hstate hmeta
    split
    · rename_i husable
      obtain ⟨w₁, hsweep, hready, hgenuine, hkept⟩ := h.swept sv stakes hdata husable
      obtain ⟨r, hsettle⟩ := h.settleValidator sv stakes phases hdata husable hready hgenuine hkept
      exact ⟨r, bind_eq_ok.mpr ⟨w₁, hsweep, hsettle⟩⟩
    · exact ⟨_, rfl⟩
  · rename_i info hstate
    have hmeta : (StakeStateV2.initialized info).meta? = some info := rfl
    have hdata := stakeState_data hstate hmeta
    split
    · rename_i husable
      have habsorb : ∃ w', c.merge rt sv validatorKey c.reserve w = .ok w' :=
        h.toCrankReady.merge_succeeds stakes merges h.ne_reserve h.genuine hdata husable
      obtain ⟨w', hmerge⟩ := habsorb
      exact ⟨_, bind_eq_ok.mpr ⟨w', hmerge, rfl⟩⟩
    · exact ⟨_, rfl⟩
  · exact ⟨_, rfl⟩

end ValidatorReady

/-! ## The loop -/

/-- A turn with the accounts of the entry. -/
theorem MergeReady.refreshEntry (h : MergeReady rt sv c v validatorKey transientKey w) (stakes : StakeLaws rt)
    (merges : MergeLaws rt) (phases : PhaseLaws rt) (hmode : c.noMerge = false)
    (hown : ownAccounts rt c.pool v validatorKey transientKey) :
    ∃ v' w', refreshEntry rt sv c v validatorKey transientKey w = .ok (v', w') := by
  obtain ⟨status', n, w₁, htransient, hready⟩ := h.refreshTransient stakes merges phases hmode
  obtain ⟨⟨status'', active, w'⟩, hvalidator⟩ := hready.refreshValidator sv stakes merges phases n
  unfold StakePoolFogo.refreshEntry
  rw [if_pos hown]
  exact ⟨_, w', bind_eq_ok.mpr ⟨_, htransient, bind_eq_ok.mpr ⟨_, hvalidator, rfl⟩⟩⟩

/-- What the loop needs of the entries in front of it. -/
structure EntriesReady (rt : Runtime) (sv : Sysvars) (c : UpdateContext) (vs : List ValidatorStakeInfo)
    (pairs : List (Pubkey × Pubkey)) (w : Ledger) : Prop where
  sound : ∀ v ∈ vs, ∃ s, Sound rt c.keeper False (cellAt rt c.pool w v) s
  genuine : ∀ v ∈ vs, GenuineAt rt (v.stakeKey rt c.pool) w
  clear : ∀ (i : Nat) v pair, vs[i]? = some v → pairs[i]? = some pair →
    ownAccounts rt c.pool v pair.1 pair.2 → ¬ (cellAt rt c.pool w v).Blocked sv.epoch

/-- A turn leaves the entries behind it as they are. -/
theorem EntriesReady.tail {pair : Pubkey × Pubkey} {pairs : List (Pubkey × Pubkey)}
    (h : EntriesReady rt sv c (v :: vs) (pair :: pairs) w)
    (hkept : ∀ u ∈ vs, cellAt rt c.pool w' u = cellAt rt c.pool w u) : EntriesReady rt sv c vs pairs w' := by
  constructor
  · intro u hu
    rw [hkept u hu]
    exact h.sound u (List.mem_cons_of_mem _ hu)
  · intro u hu
    have hsame : w' (u.stakeKey rt c.pool) = w (u.stakeKey rt c.pool) := congrArg Cell.validator (hkept u hu)
    rw [GenuineAt, hsame]
    exact h.genuine u (List.mem_cons_of_mem _ hu)
  · intro i u pair' hu hpair hown
    rw [hkept u (List.mem_of_getElem? hu)]
    exact h.clear (i + 1) u pair' hu hpair hown

/-- The loop gets through if no entry is blocked. -/
theorem refreshEntries_merging (stakes : StakeLaws rt) (merges : MergeLaws rt) (phases : PhaseLaws rt)
    (hcrank : CrankReady rt sv c w) (hmode : c.noMerge = false) {header : ValidatorListHeader}
    (hapart : Apart rt c.pool c.reserve ⟨header, vs⟩) (pairs : List (Pubkey × Pubkey))
    (h : EntriesReady rt sv c vs pairs w) :
    ∃ vs' w', refreshEntries rt sv c vs pairs w = .ok (vs', w') := by
  induction vs generalizing pairs w with
  | nil => exact ⟨[], w, rfl⟩
  | cons v vs ih =>
    cases pairs with
    | nil => exact ⟨v :: vs, w, rfl⟩
    | cons pair pairs =>
      obtain ⟨validatorKey, transientKey⟩ := pair
      have hmem : v ∈ v :: vs := List.mem_cons_self
      have hrow : Apart rt c.pool c.reserve ⟨header, [] ++ v :: vs⟩ := hapart
      -- One turn, and what it leaves for the rest of the list.
      have hturn : ∃ v' w₁, refreshEntry rt sv c v validatorKey transientKey w = .ok (v', w₁) ∧
          CrankReady rt sv c w₁ ∧ ∀ u ∈ vs, cellAt rt c.pool w₁ u = cellAt rt c.pool w u := by
        by_cases hown : ownAccounts rt c.pool v validatorKey transientKey
        · obtain ⟨info, hheld⟩ := hcrank.reserve
          obtain ⟨hrv, hrt, hvt⟩ := hapart.entry hmem
          have hready : MergeReady rt sv c v (v.stakeKey rt c.pool) (v.transientKey rt c.pool) w :=
            { toCrankReady := hcrank
              visit := ⟨⟨info, hheld.data⟩, hvt, hrv.symm, hrt.symm⟩
              sound := h.sound v hmem
              genuine := h.genuine v hmem
              clear := h.clear 0 v _ rfl rfl hown }
          have hkeys : validatorKey = v.stakeKey rt c.pool ∧ transientKey = v.transientKey rt c.pool :=
            ⟨hown.1.symm, hown.2.symm⟩
          rw [← hkeys.1, ← hkeys.2] at hready
          obtain ⟨v', w₁, hentry⟩ := hready.refreshEntry stakes merges phases hmode hown
          obtain ⟨n, -, hfeeds, -⟩ := refreshEntry_cell stakes hrow ⟨info, hheld.data⟩ hown hentry
          refine ⟨v', w₁, hentry, hcrank.credited hfeeds.reserve, fun u hu => ?_⟩
          obtain ⟨hs, ht⟩ := hapart.not_mem hmem (List.mem_cons_of_mem _ hu) (hrow.ne_of_append (.inr hu))
          have honly := hfeeds.others.mono
            (show _ ⊆ [c.reserve, v.stakeKey rt c.pool, v.transientKey rt c.pool] by simp)
          rw [cellAt, cellAt, honly _ hs, honly _ ht]
        · refine ⟨v, w, ?_, hcrank, fun _ _ => rfl⟩
          unfold StakePoolFogo.refreshEntry
          rw [if_neg hown]
      obtain ⟨v', w₁, hentry, hcrank', hkept⟩ := hturn
      have hapart' : Apart rt c.pool c.reserve ⟨header, vs⟩ := by
        refine List.Nodup.sublist ?_ hapart
        exact ((List.sublist_cons_self _ _).append (List.sublist_cons_self _ _)).cons_cons _
      obtain ⟨vs', w', hloop⟩ := ih hcrank' hapart' pairs (h.tail hkept)
      exact ⟨v' :: vs', w', bind_eq_ok.mpr ⟨_, hentry, bind_eq_ok.mpr ⟨_, hloop, rfl⟩⟩⟩

/-! ## Visits that fail -/

/-- A blocked entry cannot be visited. -/
theorem visit_blocked (phases : PhaseLaws rt) (hrewards : sv.epochRewardsActive = false) {st : StakeStatus}
    (hsound : Sound rt c.keeper False x st) (hmode : c.noMerge = false) (hblocked : x.Blocked sv.epoch) (r : Cell × Nat) :
    visit rt sv c x ≠ .ok r := by
  intro hvisit
  obtain ⟨hactive, hpending, dinfo, d, tinfo, t, hd, ht, hdactivated, htactivated, hkept, hnot⟩ := hblocked
  obtain rfl := hsound.status_unique hactive
  obtain ⟨_, _, hdheld⟩ := hsound.validator (.inl rfl)
  obtain ⟨_, _, htheld⟩ := hsound.transient (Nat.pos_of_ne_zero hpending)
  obtain ⟨rfl, rfl⟩ := hdheld.unique hd rfl
  obtain ⟨rfl, rfl⟩ := htheld.unique ht rfl
  obtain ⟨_, htransient, -⟩ := bind_eq_ok.mp hvisit
  have hmoving : ¬ stakeIsInactiveWithoutHistory t sv.epoch := by
    rintro (hpast | ⟨hactivation, -⟩)
    · exact Nat.not_lt.mpr hkept hpast
    · exact Nat.ne_of_lt htactivated hactivation
  have husable : c.usable tinfo := htheld.usable
  have hmode' : ¬ c.noMerge = true := by rw [hmode]; exact Bool.false_ne_true
  have htstate : x.transient.tryStakeState.toOption = some (.stake tinfo t) := by
    rw [htheld.tryStakeState]
    rfl
  have hdstate : x.validator.tryStakeState.toOption = some (.stake dinfo d) := by
    rw [hdheld.tryStakeState]
    rfl
  unfold visitTransient at htransient
  rw [if_neg hpending, htstate] at htransient
  dsimp only at htransient
  rw [if_pos husable, if_neg hmode', if_neg hmoving,
    if_pos (PodStakeStatus.toStatus?_eq_some.mpr hactive)] at htransient
  unfold Cell.joinTransient at htransient
  rw [hdstate] at htransient
  dsimp only at htransient
  rw [if_pos ⟨htactivated, hdactivated⟩] at htransient
  obtain ⟨r', hmerge, -⟩ := bind_eq_ok.mp htransient
  exact hnot ((merge_iff_joinable phases hrewards hdheld htheld hdactivated htactivated hkept).mp ⟨r', hmerge⟩)

section Run

variable (laws : ProgramLaws rt) (addresses : AddressLaws rt) (system : SystemLaws rt) (stakes : StakeLaws rt)
  (hderived : (findDepositAuthorityProgramAddress rt k).1 ≠ (poolKeeper rt k).authority)

include laws addresses system stakes hderived

/-- A pool in a run is ready for updates. -/
theorem PoolRun.updatable (h : PoolRun rt k steady s) (hp : PoolAt rt s.ledger k p)
    (hl : ListAt rt s.ledger p.validatorList l)
    (hgenuine : ∀ v ∈ l.validators, GenuineAt rt (v.stakeKey rt k) s.ledger) : Crankable rt k p s.ledger l :=
  h.crankable laws addresses system stakes hderived hp hl ⟨rfl, fun _ _ => rfl, hgenuine⟩

/-- Outside reward distribution, an update of a chunk with merging succeeds if and only if no entry it has the
accounts of is blocked. -/
theorem update_succeeds_iff (merges : MergeLaws rt) (phases : PhaseLaws rt) (h : PoolRun rt k steady s)
    (hp : PoolAt rt s.ledger k p) (hl : ListAt rt s.ledger p.validatorList l)
    (hgenuine : ∀ v ∈ l.validators, GenuineAt rt (v.stakeKey rt k) s.ledger)
    (hrewards : s.sysvars.epochRewardsActive = false) (hchunk : ChunkAccounts rt k p l accounts startIndex) :
    (∃ w', processInstruction rt s.sysvars accounts (.updateValidatorListBalance startIndex false) s.ledger =
      .ok w') ↔
    ∀ (i : Nat) v, l.validators[i]? = some v → (updateCrank accounts startIndex).Addresses rt k i v →
      ¬ (cellAt rt k s.ledger v).Blocked s.sysvars.epoch := by
  obtain ⟨hkept, hsolvent⟩ := h.solvent laws addresses system stakes hderived hp hl
  have hcrankable := h.updatable laws addresses system stakes hderived hp hl hgenuine
  have hsound : ∀ v ∈ l.validators, ∃ st, Sound rt (poolKeeper rt k) False (cellAt rt k s.ledger v) st := by
    intro v hv
    obtain ⟨st, hst⟩ := hsolvent.entries v hv
    exact ⟨st, { hst with delegated := False.elim, stopped := False.elim }⟩
  constructor
  · -- A run visits every entry it addresses, and no visit of a blocked one succeeds.
    rintro ⟨w', hrun⟩ i v hv haddressed hblocked
    obtain ⟨r⟩ := (processUpdateValidatorListBalance_run rt _).mp hrun
    obtain ⟨pool, pool_at, rfl⟩ := hchunk.at_ 0 rfl
    obtain rfl := Option.some.inj (pool_at.symm.trans r.pool_at)
    obtain rfl := hp.unique r.isPool
    obtain rfl := hl.unique (by rw [← r.list_key]; exact r.isList)
    obtain ⟨info, hheld⟩ := hcrankable.reserve
    obtain ⟨v', -, hrefresh, -⟩ := r.refreshed_at stakes hcrankable.apart ⟨info, hheld.data⟩ hv
    obtain ⟨n, hvisit⟩ := hrefresh haddressed
    obtain ⟨st, hst⟩ := hsound v (List.mem_of_getElem? hv)
    have hkeeper : r.context.keeper = poolKeeper rt r.pool.key := (hkept.keeper_eq r.isAuthority).symm
    rw [← hkeeper] at hst
    exact visit_blocked phases hrewards hst rfl hblocked _ hvisit
  · intro hclear
    -- Without a blocked entry, the merging refresh goes through the whole chunk.
    have hupdate : ∃ w', ∃ r : UpdateListRun rt s.sysvars accounts startIndex false s.ledger w',
        r.pool.key = k := by
      apply hcrankable.update hrewards hchunk
      intro c hready hpool hreserve hkeeper hmode
      have hapart := hcrankable.apart_drop startIndex.toNat
      rw [← hpool, ← hreserve] at hapart
      apply refreshEntries_merging stakes merges phases hready hmode hapart
      constructor
      · intro v hv
        rw [hpool, hkeeper]
        exact hsound v (List.mem_of_mem_drop hv)
      · intro v hv
        rw [hpool]
        exact hgenuine v (List.mem_of_mem_drop hv)
      · intro i v pair hv hpair hown
        rw [List.getElem?_drop] at hv
        rw [hpool] at hown ⊢
        apply hclear _ v hv
        refine ⟨pair, ?_, hown⟩
        -- The pairs of the call are numbered from the start of the chunk.
        rw [Crank.pairAt, updateCrank, if_pos (Nat.le_add_right _ _), Nat.add_sub_cancel_left]
        exact hpair
    obtain ⟨w', r, -⟩ := hupdate
    exact ⟨w', (processUpdateValidatorListBalance_run rt _).mpr ⟨r⟩⟩

end Run

namespace Reference

/-- The stake in `epoch`, in which somebody has deactivated it. -/
def deactivatedIn (epoch : Epoch) (a : Account) : Account :=
  match a.data with
  | .stake (.stake info stake) =>
    { a with data := .stake (.stake info { stake with
      delegation := { stake.delegation with deactivationEpoch := epoch } }) }
  | _ => a

/-- Six epochs later the validator is delinquent, and the stake on its way to it has been deactivated. -/
def delinquent : World :=
  ⟨sysvars 6, increased.ledger.set transientStake (deactivatedIn 6 (increased.ledger transientStake))⟩

/-- Deactivating a stake leaves it in place. -/
theorem deactivatedIn_grows (a : Account) : a.Grows False (deactivatedIn 6 a) := by
  unfold deactivatedIn
  split
  · rename_i info stake hdata
    refine ⟨rfl, Nat.le_refl _, fun s info' hs hinfo => ⟨_, rfl, .inl ?_⟩⟩
    cases hdata.symm.trans hs
    exact .stake info rfl rfl (.inr (show (6 : Nat) ≠ epochMax by decide))
  · exact .refl _ _

theorem delinquent_at : delinquent.ledger transientStake = deactivatedIn 6 (increased.ledger transientStake) := by
  simp only [delinquent, Ledger.set_same]

theorem delinquent_other {j : Pubkey} (hj : j ≠ transientStake) : delinquent.ledger j = increased.ledger j := by
  simp only [delinquent, Ledger.set_other _ _ hj]

theorem delinquent_grows (j : Pubkey) : (increased.ledger j).Grows False (delinquent.ledger j) := by
  by_cases hj : j = transientStake
  · subst hj
    rw [delinquent_at]
    exact deactivatedIn_grows _
  · rw [delinquent_other hj]
    exact .refl _ _

theorem delinquent_checks :
    ((increased.ledger transientStake).owner ≠ runtime.programId ∧ delinquent.sysvars.epoch < epochMax ∧
      0 < delinquent.sysvars.minimumBalance stakeSpace ∧
      passes runtime pool (apartIn runtime pool) delinquent = true) ∧
    (loadStakePool runtime delinquent.ledger pool).toOption.map (fun p => (p.validatorList, p.reserveStake)) =
      some (validatorList, reserve) ∧
    (loadValidatorList runtime delinquent.ledger validatorList).toOption.map
      (fun l => l.validators.map (ownAddresses runtime pool)) = some [(validatorStake, transientStake)] ∧
    (delinquent.ledger validatorStake).owner = runtime.stakeProgramId ∧
    succeeded (processInstruction runtime delinquent.sysvars updateListAccounts
      (.updateValidatorListBalance 0 false) delinquent.ledger) = false := by
  decide +kernel

theorem delinquent_run : PoolRun runtime pool True delinquent := by
  obtain ⟨⟨howner, hepoch, hrent, hpasses⟩, -⟩ := delinquent_checks
  have helsewhere : Elsewhere runtime increased delinquent := by
    constructor
    · intro j hj
      rw [delinquent_other (by rintro rfl; exact howner hj)]
      exact .refl _
    · intro j hj hj'
      rw [(delinquent_grows j).owner] at hj'
      exact absurd hj' hj
  refine .step increased_run (.outside (.elsewhere helsewhere) (fun P hcalls => by cases hcalls) ⟨?_, ?_⟩)
    (.of_passes hepoch hrent hpasses)
  · exact fun j _ => (delinquent_grows j).mono False.elim
  · exact fun _ p l v _ _ _ _ _ => delinquent_grows _

/-- The accounts of an update of the one validator. -/
theorem one_entry (hpool : ∃ p, PoolAt runtime s.ledger pool p ∧
      (p.validatorList, p.reserveStake) = (validatorList, reserve))
    (hlist : ∃ l, ListAt runtime s.ledger validatorList l ∧
      l.validators.map (ownAddresses runtime pool) = [(validatorStake, transientStake)]) :
    ∃ p l v, PoolAt runtime s.ledger pool p ∧ ListAt runtime s.ledger p.validatorList l ∧ l.validators = [v] ∧
      v.stakeKey runtime pool = validatorStake ∧ v.transientKey runtime pool = transientStake ∧
      ChunkAccounts runtime pool p l updateListAccounts 0 := by
  obtain ⟨p, hp, hkeys⟩ := hpool
  obtain ⟨hlist_key, hreserve⟩ := Prod.mk.inj hkeys
  obtain ⟨l, hl, hentry⟩ := hlist
  obtain ⟨v, hv, haddresses⟩ := List.map_eq_singleton_iff.mp hentry
  obtain ⟨hstake, htransient⟩ := Prod.mk.inj haddresses
  refine ⟨p, l, v, hp, hlist_key ▸ hl, hv, hstake, htransient, ?_, by decide, 1, ?_, ?_⟩
  · rw [hlist_key, hreserve]
    rfl
  · rw [hv]
    exact Nat.le_refl 1
  · rw [hentry]
    rfl

theorem one_genuine {l : ValidatorList} {v : ValidatorStakeInfo} (hv : l.validators = [v])
    (hkey : v.stakeKey runtime pool = validatorStake) (howner : (w validatorStake).owner = runtime.stakeProgramId) :
    ∀ u ∈ l.validators, GenuineAt runtime (u.stakeKey runtime pool) w := by
  intro u hu state _
  rw [hv, List.mem_singleton] at hu
  rw [hu, hkey]
  exact howner

theorem delinquent_entry : ∃ p l, PoolAt runtime delinquent.ledger pool p ∧
    ListAt runtime delinquent.ledger p.validatorList l ∧
    (∀ v ∈ l.validators, GenuineAt runtime (v.stakeKey runtime pool) delinquent.ledger) ∧
    ChunkAccounts runtime pool p l updateListAccounts 0 := by
  obtain ⟨-, hpool, hentries, howner, -⟩ := delinquent_checks
  obtain ⟨p, l, v, hp, hl, hv, hstake, -, hchunk⟩ := one_entry (PoolAt.of_load _ hpool) (ListAt.of_load _ hentries)
  exact ⟨p, l, hp, hl, one_genuine hv hstake howner, hchunk⟩

theorem delinquent_fails (w' : Ledger) : processInstruction runtime delinquent.sysvars updateListAccounts
    (.updateValidatorListBalance 0 false) delinquent.ledger ≠ .ok w' := by
  intro hrun
  obtain ⟨-, -, -, -, hfails⟩ := delinquent_checks
  rw [hrun] at hfails
  cases hfails

end Reference

open Reference in
/-- On the reference pool, an update after the transient stake of the one validator was deactivated in the same
epoch. -/
theorem delinquent_blocks : PoolRun runtime pool True delinquent ∧
    delinquent.sysvars.epochRewardsActive = false ∧ ∃ p l, PoolAt runtime delinquent.ledger pool p ∧
      ListAt runtime delinquent.ledger p.validatorList l ∧
      (∀ v ∈ l.validators, GenuineAt runtime (v.stakeKey runtime pool) delinquent.ledger) ∧
      ChunkAccounts runtime pool p l updateListAccounts 0 ∧
      ∀ w', processInstruction runtime delinquent.sysvars updateListAccounts (.updateValidatorListBalance 0 false)
        delinquent.ledger ≠ .ok w' := by
  obtain ⟨p, l, hp, hl, hgenuine, hchunk⟩ := delinquent_entry
  exact ⟨delinquent_run, rfl, p, l, hp, hl, hgenuine, hchunk, delinquent_fails⟩

open Reference in
/-- The entry that stops that update. -/
theorem update_succeeds_iff_delinquent : ∃ p l v, PoolAt runtime delinquent.ledger pool p ∧
    ListAt runtime delinquent.ledger p.validatorList l ∧ v ∈ l.validators ∧
    (cellAt runtime pool delinquent.ledger v).Blocked delinquent.sysvars.epoch := by
  obtain ⟨p, l, hp, hl, hgenuine, hchunk⟩ := delinquent_entry
  have hiff := update_succeeds_iff programLaws addressLaws systemLaws stakeLaws derived_apart mergeLaws
    phaseLaws delinquent_run hp hl hgenuine rfl hchunk
  by_contra hnone
  obtain ⟨w', hrun⟩ := hiff.mpr fun i v hv _ hblocked =>
    hnone ⟨p, l, v, hp, hl, List.mem_of_getElem? hv, hblocked⟩
  exact delinquent_fails w' hrun

end StakePoolFogo
