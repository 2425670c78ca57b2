import StakePoolFogo.Custody
import StakePoolFogo.Lib.Cells

/-!
# What visits preserve

A visit keeps an entry sound, moves lamports without losing any, and leaves nothing for a second
visit in the same epoch to do.
-/

open StakePoolFogo.Outcome

namespace StakePoolFogo

variable {rt : Runtime} {sv : Sysvars} {c : UpdateContext} {steady : Prop} {x x' : Cell}
  {s : StakeStatus} {a : Account}

/-! ## Sweeping -/

namespace Account

variable {info : StakeMeta}

@[simp] theorem swept_lamports (a : Account) (info : StakeMeta) (stake : Stake) :
    (a.swept info stake).lamports = a.lamports - additionalLamports info stake a.lamports := by
  unfold swept
  split
  · exact debited_lamports _ _
  · omega

/-- A sweep takes what is above the delegation and the rent exemption. -/
theorem additional_swept (a : Account) (info : StakeMeta) (stake : Stake) :
    additionalLamports info stake (a.swept info stake).lamports = 0 := by
  rw [swept_lamports]
  unfold additionalLamports
  omega

theorem additional_le (a : Account) (info : StakeMeta) (stake : Stake) :
    additionalLamports info stake a.lamports ≤ a.lamports := by
  unfold additionalLamports
  omega

theorem swept_owner (a : Account) (info : StakeMeta) (stake : Stake) :
    (a.swept info stake).owner = a.owner := by
  unfold swept debited drained
  split <;> [split; skip] <;> rfl

/-- Sweeping an account that holds its rent exemption leaves the stake in place. -/
theorem swept_data (stake : Stake) (hrent : 0 < info.rentExemptReserve)
    (hexempt : info.rentExemptReserve ≤ a.lamports) :
    (a.swept info stake).data = a.data ∧ info.rentExemptReserve ≤ (a.swept info stake).lamports := by
  have hleft : info.rentExemptReserve ≤ a.lamports - additionalLamports info stake a.lamports := by
    unfold additionalLamports
    omega
  refine ⟨?_, by rw [swept_lamports]; exact hleft⟩
  unfold swept debited
  split
  · rw [if_neg (by omega)]
  · rfl

end Account

theorem HeldAs.swept {keeper : Keeper} {info : StakeMeta} {stake : Stake}
    (h : HeldAs rt keeper a (.stake info stake) info) :
    HeldAs rt keeper (a.swept info stake) (.stake info stake) info := by
  obtain ⟨hdata, hexempt⟩ := Account.swept_data stake h.rent h.exempt
  exact h.of_meta (Account.swept_owner _ _ _) (hdata.trans h.data) rfl hexempt

/-! ## Soundness -/

/-- What the transient half of a visit leaves fits the status `s`. -/
structure TransientSound (rt : Runtime) (keeper : Keeper) (steady : Prop) (t : TransientVisit)
    (s : StakeStatus) : Prop where
  status : t.status = s.toPod
  pending : s = .deactivatingTransient ∨ s = .deactivatingAll → 0 < t.lamports
  settled : s = .deactivatingValidator ∨ s = .readyForRemoval → t.lamports = 0
  validator : s.HasValidator → Held rt keeper t.validator
  transient : 0 < t.lamports → Held rt keeper t.transient
  lamports : 0 < t.lamports → t.lamports = t.transient.lamports
  delegated : steady → s = .active → ∃ info stake, t.validator.data = .stake (.stake info stake)
  stopped : steady → s ≠ .active → 0 < t.lamports →
    ∀ info stake, t.transient.data = .stake (.stake info stake) →
      stake.delegation.deactivationEpoch ≠ epochMax

/-- Nothing is in transit afterwards. -/
theorem TransientSound.settle {keeper : Keeper} {t : TransientVisit} (status : t.status = s.toPod)
    (hs : ¬ (s = .deactivatingTransient ∨ s = .deactivatingAll)) (zero : t.lamports = 0)
    (validator : s.HasValidator → Held rt keeper t.validator)
    (delegated : steady → s = .active → ∃ info stake, t.validator.data = .stake (.stake info stake)) :
    TransientSound rt keeper steady t s where
  status := status
  pending h := absurd h hs
  settled _ := zero
  validator := validator
  transient h := absurd h (by omega)
  lamports h := absurd h (by omega)
  delegated := delegated
  stopped _ _ h := absurd h (by omega)

/-- The transient stake is counted where it is. -/
theorem Sound.count {keeper : Keeper} (h : Sound rt keeper steady x s)
    (hpos : x.entry.transientStakeLamports ≠ 0) :
    TransientSound rt keeper steady x.countTransient s where
  status := h.status
  pending _ := (h.transient (Nat.pos_of_ne_zero hpos)).pos
  settled hs := absurd (h.no_transient hs) hpos
  validator := h.validator
  transient _ := h.transient (Nat.pos_of_ne_zero hpos)
  lamports _ := rfl
  delegated := h.delegated
  stopped hsteady hs _ := h.stopped hsteady hs (Nat.pos_of_ne_zero hpos)

theorem Sound.visitTransient (laws : StakeLaws rt) (h : Sound rt c.keeper steady x s)
    {t : TransientVisit} (ht : TransientCases rt sv c x t) :
    ∃ s', TransientSound rt c.keeper steady t s' ∧ (s' = .active ↔ s = .active) := by
  cases ht with
  | nothing zero =>
    refine ⟨s, .settle h.status (fun hs => ?_) rfl h.validator h.delegated, Iff.rfl⟩
    have := h.some_transient hs
    omega
  | foreign pos unusable => exact absurd (h.transient (Nat.pos_of_ne_zero pos)).usable unusable
  | counted pos _ _ => exact ⟨s, h.count pos, Iff.rfl⟩
  | waiting pos _ _ _ _ _ => exact ⟨s, h.count pos, Iff.rfl⟩
  | absorbed pos _ _ removed =>
    -- Absorbed: the status drops its transient half.
    rw [PodStakeStatus.removeTransientStake_eq_ok] at removed
    obtain ⟨s', hs', rfl⟩ := removed
    obtain rfl := h.status_unique hs'
    cases s' with
    | active => exact ⟨.active, .settle rfl (by simp) rfl h.validator h.delegated, Iff.rfl⟩
    | deactivatingAll =>
      exact ⟨.deactivatingValidator, .settle rfl (by simp) rfl
        (fun _ => h.validator (.inr (.inr rfl))) (fun _ => nofun), by simp⟩
    | deactivatingTransient =>
      exact ⟨.readyForRemoval, .settle rfl (by simp) rfl (by simp [StakeStatus.HasValidator])
        (fun _ => nofun), by simp⟩
    | deactivatingValidator => exact absurd (h.no_transient (.inl rfl)) pos
    | readyForRemoval => exact absurd (h.no_transient (.inr rfl)) pos
  | @joined pos _ _ info stake merged drained active validator merge =>
    -- Joined: the validator stake grows and stays delegated.
    obtain rfl := h.status_unique active
    have hgrows := laws.merge_grows merge
    refine ⟨.active, .settle active (by simp) rfl (fun hs => (h.validator hs).grows hgrows)
      (fun _ _ => ?_), Iff.rfl⟩
    obtain ⟨s', hdata', hsame | ⟨hfalse, -⟩⟩ := hgrows.stake _ info validator rfl
    · cases hsame with
      | stake => exact ⟨info, _, hdata'⟩
    · exact hfalse.elim
  | @stopped pos _ _ info stake transient before leaving delegated deactivate =>
    -- Stopped: deactivating keeps the account and its lamports.
    have hpos := Nat.pos_of_ne_zero pos
    have hne : s ≠ .active := fun hs => leaving (hs ▸ h.status)
    obtain ⟨_, _, _, -, -, hlamports, -⟩ := laws.deactivate _ _ _ _ deactivate
    refine ⟨s, {
      status := h.status
      pending := fun _ => (h.transient hpos).pos
      settled := fun hs => absurd (h.no_transient hs) pos
      validator := h.validator
      transient := fun _ => laws.deactivate_held deactivate (h.transient hpos)
      lamports := fun _ => hlamports.symm
      delegated := h.delegated
      stopped := fun hsteady _ _ _ _ _ => ?_ }, Iff.rfl⟩
    exact absurd delegated (h.stopped hsteady hne hpos info stake before)

/-- An entry that a visit has counted. -/
structure Counted (x : Cell) (s : StakeStatus) : Prop where
  active : s.HasValidator → 0 < x.entry.activeStakeLamports
  active_eq : s.HasValidator → x.entry.activeStakeLamports = x.validator.lamports
  transient_eq : 0 < x.entry.transientStakeLamports →
    x.entry.transientStakeLamports = x.transient.lamports

/-- The entry and accounts after a visit with these halves. -/
def TransientVisit.join (t : TransientVisit) (r : ValidatorVisit) (v : ValidatorStakeInfo)
    (epoch : Epoch) : Cell where
  entry := { v with
    status := r.status
    lastUpdateEpoch := epoch
    activeStakeLamports := r.lamports
    transientStakeLamports := t.lamports }
  validator := r.validator
  transient := t.transient

section Halves

variable {keeper : Keeper} {t : TransientVisit} {r : ValidatorVisit} {s' : StakeStatus}

/-- The two halves of a visit fit together. -/
theorem TransientSound.join (h : TransientSound rt keeper steady t s) (v : ValidatorStakeInfo)
    (status : r.status = s'.toPod)
    (pending : s' = .deactivatingTransient ∨ s' = .deactivatingAll → 0 < t.lamports)
    (settled : s' = .deactivatingValidator ∨ s' = .readyForRemoval → t.lamports = 0)
    (gone : ¬ s'.HasValidator → r.lamports = 0)
    (validator : s'.HasValidator → Held rt keeper r.validator ∧ r.lamports = r.validator.lamports)
    (delegated : steady → s' = .active → ∃ info stake, r.validator.data = .stake (.stake info stake))
    (leaving : steady → s' ≠ .active → s ≠ .active) :
    Sound rt keeper steady (t.join r v sv.epoch) s' ∧ Counted (t.join r v sv.epoch) s' := by
  refine ⟨{
    status := status
    agrees := ?_
    validator := fun hs => (validator hs).1
    active_le := ?_
    transient := h.transient
    transient_le := ?_
    delegated := delegated
    stopped := fun hsteady hs => h.stopped hsteady (leaving hsteady hs) }, {
    active := fun hs => ?_
    active_eq := fun hs => (validator hs).2
    transient_eq := h.lamports }⟩
  · cases s' with
    | active => trivial
    | deactivatingValidator => exact settled (.inl rfl)
    | deactivatingTransient => exact ⟨gone (by decide), pending (.inl rfl)⟩
    | deactivatingAll => exact pending (.inr rfl)
    | readyForRemoval => exact ⟨gone (by decide), settled (.inr rfl)⟩
  · show r.lamports ≤ r.validator.lamports
    by_cases hs : s'.HasValidator
    · exact Nat.le_of_eq (validator hs).2
    · rw [gone hs]
      exact Nat.zero_le _
  · show t.lamports ≤ t.transient.lamports
    by_cases hpos : 0 < t.lamports
    · exact Nat.le_of_eq (h.lamports hpos)
    · omega
  · show 0 < r.lamports
    rw [(validator hs).2]
    exact (validator hs).1.pos

/-- An entry without validator stake afterwards. -/
theorem TransientSound.leave (h : TransientSound rt keeper steady t s) (v : ValidatorStakeInfo)
    (status : r.status = s'.toPod) (zero : r.lamports = 0)
    (next : s' = .deactivatingTransient ∧ 0 < t.lamports ∨ s' = .readyForRemoval ∧ t.lamports = 0)
    (leaving : steady → s ≠ .active) :
    Sound rt keeper steady (t.join r v sv.epoch) s' ∧ Counted (t.join r v sv.epoch) s' := by
  rcases next with ⟨rfl, hpos⟩ | ⟨rfl, hzero⟩
  · exact h.join v status (fun _ => hpos) (by simp) (fun _ => zero)
      (by simp [StakeStatus.HasValidator]) (fun _ => nofun) (fun hsteady _ => leaving hsteady)
  · exact h.join v status (by simp) (fun _ => hzero) (fun _ => zero)
      (by simp [StakeStatus.HasValidator]) (fun _ => nofun) (fun hsteady _ => leaving hsteady)

end Halves

theorem TransientSound.visitValidator {t : TransientVisit} {r : ValidatorVisit}
    (h : TransientSound rt c.keeper steady t s) (v : ValidatorStakeInfo)
    (hr : ValidatorCases sv c t.status t.lamports t.validator r) :
    ∃ s', (Sound rt c.keeper steady (t.join r v sv.epoch) s' ∧
      Counted (t.join r v sv.epoch) s') ∧ (s' = .active → s = .active) := by
  have hstatus : ∀ {s'}, t.status = StakeStatus.toPod s' → s' = s := fun hs' =>
    StakeStatus.toPod_inj.mp (hs'.symm.trans h.status)
  -- A status without validator stake that stays as it is.
  have hgone : ∀ {s'}, s' = s → ¬ s'.HasValidator →
      s' = .deactivatingTransient ∧ 0 < t.lamports ∨ s' = .readyForRemoval ∧ t.lamports = 0 := by
    rintro s' rfl hs
    cases s' with
    | deactivatingTransient => exact .inl ⟨rfl, h.pending (.inl rfl)⟩
    | readyForRemoval => exact .inr ⟨rfl, h.settled (.inr rfl)⟩
    | _ => exact absurd (by decide) hs
  have hnot : ¬ s.HasValidator → s ≠ .active := fun hs heq => hs (.inl heq)
  cases hr with
  | foreign unusable =>
    have hs : ¬ s.HasValidator := fun hs => unusable (h.validator hs).usable
    exact ⟨s, h.leave v h.status rfl (hgone rfl hs) (fun _ => hnot hs), id⟩
  | @dissolved info data usable =>
    have hleaving : steady → s ≠ .active := by
      intro hsteady heq
      obtain ⟨_, _, hdata⟩ := h.delegated hsteady heq
      cases data.symm.trans hdata
    by_cases hzero : t.lamports = 0
    · exact ⟨.readyForRemoval, h.leave v (by simp [hzero]) rfl (.inr ⟨rfl, hzero⟩) hleaving, nofun⟩
    · exact ⟨.deactivatingTransient, h.leave v (by simp [hzero]) rfl
        (.inl ⟨rfl, Nat.pos_of_ne_zero hzero⟩) hleaving, nofun⟩
  | @counted info stake s' data usable isStatus stays =>
    obtain rfl := hstatus isStatus
    have hs : s'.HasValidator := by
      rcases stays with rfl | ⟨rfl | rfl, -⟩ <;> decide
    obtain ⟨state, info', hheld⟩ := h.validator hs
    obtain ⟨rfl, rfl⟩ := hheld.unique data rfl
    have hswept := hheld.swept
    exact ⟨s', h.join v h.status h.pending h.settled (fun hn => absurd hs hn)
      (fun _ => ⟨⟨_, _, hswept⟩, rfl⟩) (fun _ _ => ⟨_, _, hswept.data⟩) (fun _ => id), id⟩
  | absorbed _ _ _ isStatus removed _ =>
    obtain rfl := hstatus isStatus
    rcases removed with ⟨rfl, rfl⟩ | ⟨rfl, rfl⟩
    · exact ⟨_, h.leave v rfl rfl (.inr ⟨rfl, h.settled (.inl rfl)⟩) (fun _ => nofun), nofun⟩
    · exact ⟨_, h.leave v rfl rfl (.inl ⟨rfl, h.pending (.inr rfl)⟩) (fun _ => nofun), nofun⟩
  | @left info stake s' _ _ isStatus gone =>
    obtain rfl := hstatus isStatus
    have hs : ¬ s'.HasValidator := by
      rcases gone with rfl | rfl <;> decide
    exact ⟨s', h.leave v h.status rfl (hgone rfl hs) (fun _ => hnot hs), id⟩

/-- A visit keeps an entry sound, and no entry comes back to being active. -/
theorem Sound.visit (laws : StakeLaws rt) (h : Sound rt c.keeper steady x s) {n : Nat}
    (hvisit : visit rt sv c x = .ok (x', n)) :
    ∃ s', Sound rt c.keeper steady x' s' ∧ Counted x' s' ∧ (s' = .active → s = .active) := by
  obtain ⟨t, r, ht, hr, -, -, rfl, -⟩ := visit_cases hvisit
  obtain ⟨s₁, h₁, hactive⟩ := h.visitTransient laws ht
  obtain ⟨s₂, ⟨h₂, hcounted⟩, hactive'⟩ := h₁.visitValidator x.entry hr
  exact ⟨s₂, h₂, hcounted, fun hs => hactive.mp (hactive' hs)⟩

/-! ## A second visit -/

theorem Account.drained_unusable (a : Account) : ¬ c.Usable a.drained := by
  rintro ⟨state, info, hstate, hinfo, -⟩
  cases hstate
  cases hinfo

/-- A sweep leaves the stake in place, or nothing at all. -/
theorem Account.swept_cases (a : Account) (info : StakeMeta) (stake : Stake) :
    (a.swept info stake).data = a.data ∨ a.swept info stake = a.drained := by
  unfold swept debited
  split
  · split
    · exact .inr rfl
    · exact .inl rfl
  · exact .inl rfl

@[simp] theorem Account.swept_swept (a : Account) (info : StakeMeta) (stake : Stake) :
    (a.swept info stake).swept info stake = a.swept info stake := by
  have hnone : ∀ b : Account, additionalLamports info stake b.lamports = 0 → b.swept info stake = b :=
    fun b hb => if_neg (by omega)
  exact hnone _ (a.additional_swept info stake)

section Again

variable {status : PodStakeStatus} {n : Nat} {info : StakeMeta} {stake : Stake}

theorem visitValidator_foreign (h : ¬ c.Usable a) :
    visitValidator sv c status n a = .ok ⟨status, 0, a, 0⟩ := by
  unfold visitValidator
  split
  · rename_i hstate
    rw [if_neg fun husable => h ((UpdateContext.usable_iff hstate rfl).mpr husable)]
  · rename_i hstate
    rw [if_neg fun husable => h ((UpdateContext.usable_iff hstate rfl).mpr husable)]
  · rfl

theorem visitValidator_stake (data : a.data = .stake (.stake info stake)) (usable : c.usable info) :
    visitValidator sv c status n a = settleAccount sv c status stake (a.swept info stake)
      (additionalLamports info stake a.lamports) := by
  rw [visitValidator, stakeState_of_data data]
  exact if_pos usable

theorem settleAccount_stays (isStatus : status = s.toPod)
    (stays : s = .active ∨ (s = .deactivatingValidator ∨ s = .deactivatingAll) ∧
      (c.noMerge = true ∨ ¬ stakeIsInactiveWithoutHistory stake sv.epoch)) :
    settleAccount sv c status stake a n = .ok ⟨status, a.lamports, a, n⟩ := by
  have hs : status.tryInto = .ok s := PodStakeStatus.tryInto_eq_ok.mpr isStatus
  rcases stays with rfl | ⟨rfl | rfl, hstays⟩
  · rw [settleAccount, hs]
    rfl
  · rw [settleAccount, hs]
    exact if_pos hstays
  · rw [settleAccount, hs]
    exact if_pos hstays

theorem settleAccount_left (isStatus : status = s.toPod)
    (gone : s = .deactivatingTransient ∨ s = .readyForRemoval) :
    settleAccount sv c status stake a n = .ok ⟨status, 0, a, n⟩ := by
  have hs : status.tryInto = .ok s := PodStakeStatus.tryInto_eq_ok.mpr isStatus
  rcases gone with rfl | rfl <;> rw [settleAccount, hs] <;> rfl

/-- The validator half of a second visit changes nothing. -/
theorem ValidatorCases.again {r : ValidatorVisit} (hr : ValidatorCases sv c status n a r) :
    visitValidator sv c r.status n r.validator = .ok ⟨r.status, r.lamports, r.validator, 0⟩ := by
  cases hr with
  | foreign unusable => exact visitValidator_foreign unusable
  | dissolved _ _ => exact visitValidator_foreign a.drained_unusable
  | absorbed _ _ _ _ _ _ => exact visitValidator_foreign (Account.drained_unusable _)
  | counted data usable isStatus stays =>
    rcases a.swept_cases _ _ with hkept | hdrained
    · rw [visitValidator_stake (hkept.trans data) usable, Account.swept_swept,
        settleAccount_stays isStatus stays, Account.additional_swept]
    · rw [hdrained]
      exact visitValidator_foreign a.drained_unusable
  | left data usable isStatus gone =>
    rcases a.swept_cases _ _ with hkept | hdrained
    · rw [visitValidator_stake (hkept.trans data) usable, Account.swept_swept,
        settleAccount_left isStatus gone, Account.additional_swept]
    · rw [hdrained]
      exact visitValidator_foreign a.drained_unusable

theorem visitTransient_zero (zero : x.entry.transientStakeLamports = 0) :
    visitTransient rt sv c x = .ok x.skipTransient := if_pos zero

theorem visitTransient_noMerge (pos : x.entry.transientStakeLamports ≠ 0)
    (usable : c.Usable x.transient) (mode : c.noMerge = true) :
    visitTransient rt sv c x = .ok x.countTransient := by
  obtain ⟨state, info, hstate, hinfo, husable⟩ := usable
  rw [visitTransient, if_neg pos, hstate]
  cases state with
  | initialized info' =>
    cases hinfo
    dsimp only
    rw [if_pos husable, if_pos mode]
  | stake info' stake =>
    cases hinfo
    dsimp only
    rw [if_pos husable, if_pos mode]
  | _ => cases hinfo

theorem visitTransient_waiting (pos : x.entry.transientStakeLamports ≠ 0)
    (usable : c.Usable x.transient) (mode : c.noMerge = false)
    (transient : x.transient.data = .stake (.stake info stake))
    (moving : ¬ stakeIsInactiveWithoutHistory stake sv.epoch)
    (wait : x.entry.status = StakeStatus.active.toPod ∧ ¬ joinable sv x.validator stake ∨
      x.entry.status ≠ StakeStatus.active.toPod ∧ stake.delegation.deactivationEpoch ≠ epochMax) :
    visitTransient rt sv c x = .ok x.countTransient := by
  have hstate := stakeState_of_data transient
  have husable := (UpdateContext.usable_iff hstate rfl).mp usable
  rw [visitTransient, if_neg pos, hstate]
  dsimp only
  rw [if_pos husable, if_neg (by simp [mode]), if_neg moving]
  rcases wait with ⟨hactive, hjoin⟩ | ⟨hactive, hmax⟩
  · rw [if_pos (PodStakeStatus.toStatus?_eq_some.mpr hactive), Cell.joinTransient]
    split
    · rename_i info' validatorStake hvalidator
      exact if_neg fun hboth => hjoin ⟨info', validatorStake, hvalidator, hboth⟩
    · rfl
  · rw [if_neg fun h => hactive (PodStakeStatus.toStatus?_eq_some.mp h), Cell.stopTransient,
      if_neg hmax]

theorem joinable_swept {validatorStake : Stake}
    (h : joinable sv (a.swept info validatorStake) stake) : joinable sv a stake := by
  obtain ⟨info', stake', hstate, hboth⟩ := h
  rcases a.swept_cases info validatorStake with hkept | hdrained
  · exact ⟨info', stake', stakeState_of_data (hkept.symm.trans (stakeState_data hstate rfl)), hboth⟩
  · rw [hdrained] at hstate
    cases hstate

/-- The transient half of a second visit changes nothing, if nobody undoes stakes. -/
theorem TransientCases.again {t : TransientVisit} {r : ValidatorVisit} (laws : StakeLaws rt)
    (h : Sound rt c.keeper True x s) (ht : TransientCases rt sv c x t)
    (hr : ValidatorCases sv c t.status t.lamports t.validator r) :
    visitTransient rt sv c (t.join r x.entry sv.epoch) =
      .ok ⟨r.status, t.lamports, r.validator, t.transient, 0⟩ := by
  by_cases hzero : t.lamports = 0
  · rw [visitTransient_zero hzero, hzero]
    rfl
  obtain ⟨s₁, h₁, hactive⟩ := h.visitTransient laws ht
  obtain ⟨s₂, ⟨h₂, -⟩, hactive'⟩ := h₁.visitValidator x.entry hr
  cases ht with
  | nothing | foreign | absorbed | joined => exact absurd rfl hzero
  | counted pos usable mode => exact visitTransient_noMerge hzero usable mode
  | stopped pos _ _ before leaving delegated _ =>
    have hne : s ≠ .active := fun hs => leaving (hs ▸ h.status)
    exact absurd delegated (h.stopped trivial hne (Nat.pos_of_ne_zero pos) _ _ before)
  | waiting pos usable mode transient moving wait =>
    refine visitTransient_waiting hzero usable mode transient moving ?_
    rcases wait with ⟨hstatus, hjoin⟩ | ⟨hstatus, hmax⟩
    · -- An active entry has a delegated validator stake, so the visit only swept it.
      obtain rfl := h.status_unique hstatus
      obtain ⟨info', stake', hdelegated⟩ := h.delegated trivial rfl
      have hs : ∀ {s' : StakeStatus}, x.entry.status = s'.toPod → s' = .active := h.status_unique
      cases hr with
      | foreign unusable => exact absurd (h.validator (.inl rfl)).usable unusable
      | dissolved data _ => cases hdelegated.symm.trans data
      | counted _ _ _ _ => exact .inl ⟨hstatus, fun hj => hjoin (joinable_swept hj)⟩
      | absorbed _ _ _ isStatus removed _ =>
        obtain rfl := hs isStatus
        rcases removed with ⟨h', -⟩ | ⟨h', -⟩ <;> cases h'
      | left _ _ isStatus gone =>
        obtain rfl := hs isStatus
        rcases gone with h' | h' <;> cases h'
    · refine .inr ⟨fun heq => hstatus ?_, hmax⟩
      obtain rfl := h₂.status_unique heq
      rw [h.status, hactive.mp (hactive' rfl)]

end Again

/-- Where nobody undoes stakes, a visit leaves nothing for a second one to do. -/
theorem visit_settles (laws : StakeLaws rt) :
    Cells.Settles (visit rt sv c) fun x => ∃ s, Sound rt c.keeper True x s := by
  rintro x x' n ⟨s, h⟩ hvisit
  obtain ⟨s', h', -⟩ := h.visit laws hvisit
  refine ⟨⟨s', h'⟩, ?_⟩
  obtain ⟨t, r, ht, hr, -, -, rfl, -⟩ := visit_cases hvisit
  have hvisitTransient := ht.again laws h hr
  simp only [visit, bind_eq_ok, pure_eq_ok]
  exact ⟨_, hvisitTransient, _, hr.again, rfl⟩

/-! ## What an entry is worth -/

namespace UpdateContext

variable (c : UpdateContext)

/-- The lamports of a stake account the pool can use. -/
def worth (a : Account) : Nat :=
  match a.tryStakeState.toOption with
  | some (.stake info _) | some (.initialized info) => if c.usable info then a.lamports else 0
  | _ => 0

/-- What a visit makes of the transient stake account. -/
def transientWorth (x : Cell) : Nat :=
  if x.entry.transientStakeLamports = 0 then 0 else c.worth x.transient

/-- What a visit makes of a validator stake account.  Of a delegated stake whose validator has left
only the excess lamports are the pool's. -/
def validatorWorth (status : PodStakeStatus) (a : Account) : Nat :=
  match a.tryStakeState.toOption with
  | some (.stake info stake) =>
    if c.usable info then
      if status = StakeStatus.deactivatingTransient.toPod ∨ status = StakeStatus.readyForRemoval.toPod
      then additionalLamports info stake a.lamports
      else a.lamports
    else 0
  | some (.initialized info) => if c.usable info then a.lamports else 0
  | _ => 0

/-- What an entry is worth to the pool, in whichever mode it is visited. -/
def cellWorth (x : Cell) : Nat := c.transientWorth x + c.validatorWorth x.entry.status x.validator

end UpdateContext

section Worth

variable {status status' : PodStakeStatus} {n : Nat}

theorem UpdateContext.worth_usable (h : c.Usable a) : c.worth a = a.lamports := by
  obtain ⟨state, info, hstate, hinfo, husable⟩ := h
  rw [worth, hstate]
  cases state with
  | initialized info' =>
    cases hinfo
    exact if_pos husable
  | stake info' stake =>
    cases hinfo
    exact if_pos husable
  | _ => cases hinfo

theorem UpdateContext.worth_unusable (h : ¬ c.Usable a) : c.worth a = 0 := by
  unfold worth
  split
  · rename_i hstate
    exact if_neg fun husable => h ((usable_iff hstate rfl).mpr husable)
  · rename_i hstate
    exact if_neg fun husable => h ((usable_iff hstate rfl).mpr husable)
  · rfl

theorem UpdateContext.validatorWorth_unusable (h : ¬ c.Usable a) : c.validatorWorth status a = 0 := by
  unfold validatorWorth
  split
  · rename_i hstate
    exact if_neg fun husable => h ((usable_iff hstate rfl).mpr husable)
  · rename_i hstate
    exact if_neg fun husable => h ((usable_iff hstate rfl).mpr husable)
  · rfl

theorem UpdateContext.validatorWorth_stake {info : StakeMeta} {stake : Stake}
    (data : a.data = .stake (.stake info stake)) (usable : c.usable info) (isStatus : status = s.toPod) :
    c.validatorWorth status a = if s = .deactivatingTransient ∨ s = .readyForRemoval
      then additionalLamports info stake a.lamports else a.lamports := by
  rw [validatorWorth, stakeState_of_data data]
  simp only [isStatus, if_pos usable, StakeStatus.toPod_inj]

/-- Removing the transient stake does not change what the validator stake is worth. -/
theorem validatorWorth_removeTransientStake (removed : status.removeTransientStake = .ok status') :
    c.validatorWorth status' a = c.validatorWorth status a := by
  rw [PodStakeStatus.removeTransientStake_eq_ok] at removed
  obtain ⟨s, rfl, rfl⟩ := removed
  cases s <;> rfl

theorem TransientCases.conserved (laws : StakeLaws rt) {t : TransientVisit}
    (hkept : x.entry.status = StakeStatus.active.toPod → Held rt c.keeper x.validator)
    (ht : TransientCases rt sv c x t) :
    c.cellWorth x = t.toReserve + t.lamports + c.validatorWorth t.status t.validator ∧
      (t.lamports ≠ 0 → c.worth t.transient = t.lamports) := by
  unfold UpdateContext.cellWorth UpdateContext.transientWorth
  cases ht with
  | nothing zero =>
    rw [if_pos zero]
    exact ⟨rfl, fun h => absurd rfl h⟩
  | foreign pos unusable =>
    rw [if_neg pos, UpdateContext.worth_unusable unusable]
    exact ⟨rfl, fun h => absurd rfl h⟩
  | counted pos usable _ | waiting pos usable _ _ _ _ =>
    have hworth := UpdateContext.worth_usable usable
    rw [if_neg pos, hworth]
    refine ⟨?_, fun _ => hworth⟩
    simp only [Cell.countTransient]
    omega
  | absorbed pos usable _ removed =>
    rw [if_neg pos, UpdateContext.worth_usable usable]
    refine ⟨?_, fun h => absurd rfl h⟩
    dsimp only
    rw [validatorWorth_removeTransientStake removed]
    omega
  | @joined pos usable _ info stake merged drained active validator merge =>
    obtain ⟨d, s, d', hd, -, -, -, -, hd', hsame, -, hlamports, -⟩ := laws.merge _ _ _ _ _ _ merge
    have hworth := UpdateContext.worth_usable usable
    cases validator.symm.trans hd
    -- What is merged into is counted because the pool holds it, whatever the two lockups are.
    obtain ⟨_, _, hheld⟩ := hkept active
    obtain ⟨rfl, rfl⟩ := hheld.unique validator rfl
    have husable : c.usable info := hheld.usable
    rw [if_neg pos, hworth]
    refine ⟨?_, fun h => absurd rfl h⟩
    cases hsame with
    | stake =>
      dsimp only
      rw [UpdateContext.validatorWorth_stake hd' husable active,
        UpdateContext.validatorWorth_stake validator husable active, if_neg (by simp),
        if_neg (by simp), hlamports]
      omega
  | @stopped pos usable _ info stake transient before _ _ deactivate =>
    have hworth := UpdateContext.worth_usable usable
    obtain ⟨info', stake', stake'', hdata, -, hlamports, -, hdata', -⟩ :=
      laws.deactivate _ _ _ _ deactivate
    rw [if_neg pos, hworth]
    refine ⟨?_, fun _ => ?_⟩
    · dsimp only
      omega
    · obtain ⟨rfl, rfl⟩ : info' = info ∧ stake' = stake := by
        cases before.symm.trans hdata
        exact ⟨rfl, rfl⟩
      have husable := (UpdateContext.usable_iff (stakeState_of_data before) rfl).mp usable
      dsimp only
      rw [UpdateContext.worth_usable
        ((UpdateContext.usable_iff (stakeState_of_data hdata') rfl).mpr husable), hlamports]

theorem ValidatorCases.conserved {r : ValidatorVisit} (hr : ValidatorCases sv c status n a r) :
    c.validatorWorth status a = r.toReserve + r.lamports ∧
      c.validatorWorth r.status r.validator = r.lamports := by
  cases hr with
  | foreign unusable =>
    rw [UpdateContext.validatorWorth_unusable unusable]
    exact ⟨rfl, rfl⟩
  | dissolved data usable =>
    rw [UpdateContext.validatorWorth_unusable a.drained_unusable, UpdateContext.validatorWorth,
      stakeState_of_data data]
    exact ⟨if_pos usable, rfl⟩
  | @counted info stake s data usable isStatus stays =>
    have hs : ¬ (s = .deactivatingTransient ∨ s = .readyForRemoval) := by
      rcases stays with rfl | ⟨rfl | rfl, -⟩ <;> simp
    have hle := a.additional_le info stake
    rw [UpdateContext.validatorWorth_stake data usable isStatus, if_neg hs]
    refine ⟨by simp only [Account.swept_lamports]; omega, ?_⟩
    rcases a.swept_cases info stake with hkept | hdrained
    · rw [UpdateContext.validatorWorth_stake (hkept.trans data) usable isStatus, if_neg hs]
    · dsimp only
      rw [hdrained, UpdateContext.validatorWorth_unusable a.drained_unusable]
      rfl
  | @absorbed info stake s s' data usable mode isStatus removed inactive =>
    have hs : ¬ (s = .deactivatingTransient ∨ s = .readyForRemoval) := by
      rcases removed with ⟨rfl, -⟩ | ⟨rfl, -⟩ <;> simp
    have hle := a.additional_le info stake
    rw [UpdateContext.validatorWorth_stake data usable isStatus, if_neg hs,
      UpdateContext.validatorWorth_unusable (Account.drained_unusable _)]
    exact ⟨by simp only [Account.swept_lamports]; omega, rfl⟩
  | @left info stake s data usable isStatus gone =>
    rw [UpdateContext.validatorWorth_stake data usable isStatus, if_pos gone]
    refine ⟨rfl, ?_⟩
    rcases a.swept_cases info stake with hkept | hdrained
    · dsimp only
      rw [UpdateContext.validatorWorth_stake (hkept.trans data) usable isStatus, if_pos gone,
        Account.additional_swept]
    · dsimp only
      rw [hdrained, UpdateContext.validatorWorth_unusable a.drained_unusable]

/-- A visit in either mode only moves what the entry is worth, and records what is left of it. -/
theorem Sound.visit_conserved (laws : StakeLaws rt) (h : Sound rt c.keeper steady x s)
    (hvisit : StakePoolFogo.visit rt sv c x = .ok (x', n)) :
    c.cellWorth x = n + c.cellWorth x' ∧
      c.cellWorth x' = x'.entry.transientStakeLamports + x'.entry.activeStakeLamports := by
  obtain ⟨t, r, ht, hr, -, -, rfl, rfl⟩ := visit_cases hvisit
  have hkept : x.entry.status = StakeStatus.active.toPod → Held rt c.keeper x.validator := by
    intro hactive
    obtain rfl := h.status_unique hactive
    exact h.validator (.inl rfl)
  obtain ⟨hbefore, htransient⟩ := ht.conserved laws hkept
  obtain ⟨hmid, hafter⟩ := hr.conserved
  have hcell : c.cellWorth ⟨{ x.entry with
        status := r.status
        lastUpdateEpoch := sv.epoch
        activeStakeLamports := r.lamports
        transientStakeLamports := t.lamports }, r.validator, t.transient⟩ = t.lamports + r.lamports := by
    rw [UpdateContext.cellWorth, UpdateContext.transientWorth, hafter]
    by_cases hzero : t.lamports = 0
    · rw [if_pos hzero, hzero]
    · rw [if_neg hzero, htransient hzero]
  rw [hbefore, hmid, hcell]
  exact ⟨by omega, rfl⟩

end Worth

/-! ## What a visit leaves alone -/

/-- The account is as it was, unless it holds a stake, which it then does before and after. -/
def Account.StakeOnly (a b : Account) : Prop :=
  b = a ∨ (∃ t, a.data = .stake t) ∧ ∃ t, b.data = .stake t

theorem Account.StakeOnly.refl (a : Account) : a.StakeOnly a := .inl rfl

theorem Account.StakeOnly.trans {a b d : Account} (h : a.StakeOnly b) (h' : b.StakeOnly d) :
    a.StakeOnly d := by
  rcases h with rfl | ⟨ha, hb⟩
  · exact h'
  · rcases h' with rfl | ⟨-, hd⟩
    · exact .inr ⟨ha, hb⟩
    · exact .inr ⟨ha, hd⟩

theorem Account.StakeOnly.drained (h : c.Usable a) : a.StakeOnly a.drained := by
  obtain ⟨state, info, hstate, hinfo, -⟩ := h
  exact .inr ⟨⟨state, stakeState_data hstate hinfo⟩, _, rfl⟩

theorem Account.StakeOnly.swept {info : StakeMeta} {stake : Stake}
    (h : a.data = .stake (.stake info stake)) : a.StakeOnly (a.swept info stake) := by
  rcases a.swept_cases info stake with hkept | hdrained
  · exact .inr ⟨⟨_, h⟩, _, hkept.trans h⟩
  · rw [hdrained]
    exact .inr ⟨⟨_, h⟩, _, rfl⟩

theorem TransientCases.stakeOnly (laws : StakeLaws rt) {t : TransientVisit}
    (h : TransientCases rt sv c x t) :
    x.validator.StakeOnly t.validator ∧ x.transient.StakeOnly t.transient := by
  cases h with
  | nothing _ | foreign _ _ | counted _ _ _ | waiting _ _ _ _ _ _ => exact ⟨.refl _, .refl _⟩
  | absorbed _ usable _ _ => exact ⟨.refl _, .drained usable⟩
  | joined _ usable _ _ validator merge =>
    obtain ⟨_, _, d', -, -, -, -, -, hd', -⟩ := laws.merge _ _ _ _ _ _ merge
    exact ⟨.inr ⟨⟨_, validator⟩, d', hd'⟩, .drained usable⟩
  | stopped _ _ _ before _ _ deactivate =>
    obtain ⟨_, _, _, -, -, -, -, hdata, -⟩ := laws.deactivate _ _ _ _ deactivate
    exact ⟨.refl _, .inr ⟨⟨_, before⟩, _, hdata⟩⟩

theorem ValidatorCases.stakeOnly {status : PodStakeStatus} {n : Nat} {r : ValidatorVisit}
    (h : ValidatorCases sv c status n a r) : a.StakeOnly r.validator := by
  cases h with
  | foreign _ => exact .refl _
  | dissolved data _ => exact .inr ⟨⟨_, data⟩, _, rfl⟩
  | counted data _ _ _ | left data _ _ _ => exact .swept data
  | absorbed data _ _ _ _ _ => exact .inr ⟨⟨_, data⟩, _, rfl⟩

/-- A visit writes to stake accounts only. -/
theorem visit_stakeOnly (laws : StakeLaws rt) {n : Nat} (h : visit rt sv c x = .ok (x', n)) :
    x.validator.StakeOnly x'.validator ∧ x.transient.StakeOnly x'.transient := by
  obtain ⟨t, r, ht, hr, -, -, rfl, -⟩ := visit_cases h
  obtain ⟨hvalidator, htransient⟩ := ht.stakeOnly laws
  exact ⟨hvalidator.trans hr.stakeOnly, htransient⟩

end StakePoolFogo
