import StakePoolFogo.Py.Rebalance
import Mathlib.Data.List.Sort

/-!
# Equalized plans

The targets of a plan level the total stakes of the validators that can be changed like water, and what
is planned stays within the rules of the program and within the reserve.
-/

open StakePoolFogo.Levels

namespace StakePoolFogo.Py

theorem minimumActiveStake_pos : 0 < minimumActiveStake := by decide

/-- The search of the bot is the search of the library. -/
theorem computeStakeLevel_eq {α : Type} {height held : α → Int} {xs : List α} {cap budget ceiling : Int} :
    computeStakeLevel (xs.map height) (xs.map held) cap budget ceiling =
      levelWithin height held cap xs budget ceiling := by
  refine lastUpTo_congr fun level => ?_
  dsimp only
  rw [List.zipWith_map, List.zipWith_self]
  exact Iff.rfl

/-- The bill of a level, over the pairs of the two lists. -/
def levelBill (externalStakes poolStakes : List Int) (capLamports level : Int) : Int :=
  ((externalStakes.zip poolStakes).map fun stakes =>
    max (min (max (level - stakes.1) 0) capLamports - stakes.2) 0).sum

/-- `compute_stake_level` bisects, and the bounds meet at the greatest level within the ceiling whose
bill fits in the budget.  A larger budget does not lower it, and the order of the validators does not
matter. -/
theorem stake_level_greatest {externalStakes poolStakes : List Int} {capLamports budgetLamports : Int}
    (maxLevel : Int) (hlength : externalStakes.length = poolStakes.length)
    (hexternal : ∀ external ∈ externalStakes, 0 ≤ external) (hpool : ∀ pool ∈ poolStakes, 0 ≤ pool)
    (hbudget : 0 ≤ budgetLamports) :
    let bill := levelBill externalStakes poolStakes capLamports
    let level := computeStakeLevel externalStakes poolStakes capLamports budgetLamports maxLevel
    (∃ turns : Nat, (bisect fun n => bill n ≤ budgetLamports)^[turns] (0, max maxLevel 0) =
      (level, level)) ∧
    IsGreatest {n | 0 ≤ n ∧ n ≤ max maxLevel 0 ∧ bill n ≤ budgetLamports} level ∧
    (∀ budgetLamports', budgetLamports ≤ budgetLamports' → level ≤
      computeStakeLevel externalStakes poolStakes capLamports budgetLamports' maxLevel) ∧
    ∀ externalStakes' poolStakes', externalStakes'.length = poolStakes'.length →
      (externalStakes'.zip poolStakes').Perm (externalStakes.zip poolStakes) →
      computeStakeLevel externalStakes' poolStakes' capLamports budgetLamports maxLevel = level := by
  -- Lists of one length are the columns of the list of pairs.
  have hcolumns : ∀ (es ps : List Int) (budget : Int), es.length = ps.length →
      computeStakeLevel es ps capLamports budget maxLevel =
        levelWithin Prod.fst Prod.snd capLamports (es.zip ps) budget maxLevel := by
    intro es ps budget hlen
    have hfirst : (es.zip ps).map Prod.fst = es := List.map_fst_zip (Nat.le_of_eq hlen)
    have hsecond : (es.zip ps).map Prod.snd = ps := List.map_snd_zip (Nat.le_of_eq hlen.symm)
    have heq : computeStakeLevel ((es.zip ps).map Prod.fst) ((es.zip ps).map Prod.snd) capLamports
        budget maxLevel = levelWithin Prod.fst Prod.snd capLamports (es.zip ps) budget maxLevel :=
      computeStakeLevel_eq
    rwa [hfirst, hsecond] at heq
  have hheight : ∀ stakes ∈ externalStakes.zip poolStakes, 0 ≤ stakes.1 := fun stakes hmem =>
    hexternal _ (List.of_mem_zip hmem).1
  have hheld : ∀ stakes ∈ externalStakes.zip poolStakes, 0 ≤ stakes.2 := fun stakes hmem =>
    hpool _ (List.of_mem_zip hmem).2
  intro bill level
  have hlevel : level = levelWithin Prod.fst Prod.snd capLamports (externalStakes.zip poolStakes)
    budgetLamports maxLevel := hcolumns externalStakes poolStakes budgetLamports hlength
  refine ⟨?_, ?_, fun budgetLamports' hle => ?_, fun es ps hlen hperm => ?_⟩
  · rw [hlevel]
    exact bisect_meets (Int.le_max_right _ _)
  · rw [hlevel]
    exact levelWithin_isGreatest hheight hheld hbudget
  · rw [hlevel, hcolumns externalStakes poolStakes budgetLamports' hlength]
    exact levelWithin_mono hheight hheld hbudget hle
  · rw [hlevel, hcolumns es ps budgetLamports hlen]
    exact levelWithin_perm hperm

/-- Ten lamports bring two validators at 1 and 8 up to 9, which costs 9; for 10 they would need 11. -/
theorem stake_level_greatest_two : computeStakeLevel [1, 8] [0, 0] 100 10 50 = 9 := by
  obtain ⟨-, ⟨hmem, hgreatest⟩, -⟩ := @stake_level_greatest [1, 8] [0, 0] 100 10 50 rfl (by decide)
    (by decide) (by decide)
  have hnine : levelBill [1, 8] [0, 0] 100 9 ≤ 10 := by decide
  refine Int.le_antisymm ?_ (hgreatest ⟨by decide, by decide, hnine⟩)
  generalize computeStakeLevel [1, 8] [0, 0] 100 10 50 = level at hmem
  obtain ⟨-, -, hfits⟩ := hmem
  simp only [levelBill, List.zip_cons_cons, List.zip_nil_right, List.map_cons, List.map_nil,
    List.sum_cons, List.sum_nil] at hfits
  omega

/-! ## Who is kept -/

section Drop

variable {usable rent : Int} {l : List ValidatorStakeInfo}

theorem dropUnfunded_initial : dropUnfunded usable rent l <+: l := by
  fun_induction dropUnfunded usable rent l with
  | case1 l _ ih => exact ih.trans (List.dropLast_prefix l)
  | case2 l _ => exact List.prefix_rfl

theorem dropUnfunded_funded (husable : 0 ≤ usable) :
    (dropUnfunded usable rent l).length * rent ≤ usable := by
  fun_induction dropUnfunded usable rent l with
  | case1 l _ ih => exact ih
  | case2 l hstop =>
    by_cases hnil : l = []
    · rw [hnil, List.length_nil, Int.natCast_zero, Int.zero_mul]
      exact husable
    · exact Int.not_lt.mp fun hlt => hstop ⟨hnil, hlt⟩

/-- The reserve does not cover one more than those that are kept, if any was dropped. -/
theorem dropUnfunded_needed (hdropped : dropUnfunded usable rent l ≠ l) :
    usable < ((dropUnfunded usable rent l).length + 1) * rent := by
  fun_induction dropUnfunded usable rent l with
  | case1 l hdrop ih =>
    by_cases hmore : dropUnfunded usable rent l.dropLast = l.dropLast
    · have hpos := List.length_pos_of_ne_nil hdrop.1
      have hlength : ((l.dropLast.length : Int) + 1) = l.length := by
        rw [List.length_dropLast]
        omega
      rw [hmore, hlength]
      exact hdrop.2
    · exact ih hmore
  | case2 l _ => exact absurd rfl hdropped

end Drop

namespace Equalization

variable {e : Equalization} {v : ValidatorStakeInfo} {change : StakeChange}

theorem externalStake_nonneg : 0 ≤ e.externalStake v := Int.le_max_right _ _

theorem poolStake_nonneg : 0 ≤ poolStake v := Int.natCast_nonneg _

theorem mem_actionable : v ∈ e.actionable ↔
    v ∈ e.validators ∧ v.status = StakeStatus.activeValue ∧ v.transientStakeLamports = 0 := by
  rw [actionable, List.mem_filter, canChange, decide_eq_true_iff]

theorem targetStake_eq : e.targetStake v = share (e.externalStake v) e.targetLevel e.capLamports := rfl

theorem targetLevel_eq : e.targetLevel =
    levelWithin e.externalStake (fun _ => 0) e.capLamports e.actionable e.remainingLamports e.ceilingLevel := by
  rw [targetLevel, ← List.map_const', computeStakeLevel_eq]

theorem reachableLevel_eq : e.reachableLevel =
    levelWithin e.externalStake poolStake e.capLamports e.kept e.increaseBudget e.targetLevel :=
  computeStakeLevel_eq

theorem targetLevel_nonneg : 0 ≤ e.targetLevel := by
  rw [targetLevel_eq]
  exact levelWithin_mem.1

theorem reachableLevel_le : e.reachableLevel ≤ e.targetLevel := by
  rw [reachableLevel_eq]
  have hle : levelWithin e.externalStake poolStake e.capLamports e.kept e.increaseBudget e.targetLevel ≤
      max e.targetLevel 0 := levelWithin_mem.2
  have hnonneg := e.targetLevel_nonneg
  omega

/-! ## The increase set -/

theorem toIncrease_perm : e.toIncrease.Perm
    (e.actionable.filter fun v => (v.activeStakeLamports : Int) < e.targetStake v) :=
  List.mergeSort_perm _ _

theorem toIncrease_sorted : e.toIncrease.Pairwise fun a b =>
    e.externalStake a + poolStake a ≤ e.externalStake b + poolStake b := by
  have hsorted := @List.pairwise_mergeSort _
    (fun a b => decide (e.externalStake a + poolStake a ≤ e.externalStake b + poolStake b))
    (fun a b c hab hbc => decide_eq_true (Int.le_trans (of_decide_eq_true hab) (of_decide_eq_true hbc)))
    (fun a b => by
      rw [Bool.or_eq_true, decide_eq_true_iff, decide_eq_true_iff]
      exact Int.le_total _ _)
    (e.actionable.filter fun v => (v.activeStakeLamports : Int) < e.targetStake v)
  exact hsorted.imp of_decide_eq_true

theorem kept_initial : e.kept <+: e.toIncrease := dropUnfunded_initial

theorem mem_kept (h : v ∈ e.kept) :
    v ∈ e.actionable ∧ (v.activeStakeLamports : Int) < e.targetStake v := by
  have hmem := e.toIncrease_perm.mem_iff.mp (kept_initial.subset h)
  rw [List.mem_filter, decide_eq_true_iff] at hmem
  exact hmem

theorem increaseBudget_nonneg (husable : 0 ≤ e.usableReserveLamports) : 0 ≤ e.increaseBudget := by
  have hfunded : ((dropUnfunded e.usableReserveLamports e.stakeRentExemption e.toIncrease).length : Int) *
      e.stakeRentExemption ≤ e.usableReserveLamports := dropUnfunded_funded husable
  unfold increaseBudget kept
  omega

theorem reachable_fits (husable : 0 ≤ e.usableReserveLamports) :
    bill e.externalStake poolStake e.capLamports e.kept e.reachableLevel ≤ e.increaseBudget := by
  rw [reachableLevel_eq]
  exact levelWithin_fits (fun _ _ => externalStake_nonneg) (fun _ _ => poolStake_nonneg)
    (increaseBudget_nonneg husable)

/-! ## The changes -/

theorem decreaseChange_eq_some : e.decreaseChange v = some change ↔
    change = ⟨v.voteAccountAddress,
      -(v.activeStakeLamports - max (e.targetStake v) e.minimumValidatorLamports)⟩ ∧
    e.targetStake v < v.activeStakeLamports ∧
    minimumActiveStake ≤ v.activeStakeLamports - max (e.targetStake v) e.minimumValidatorLamports := by
  unfold decreaseChange
  dsimp only
  generalize (v.activeStakeLamports : Int) - max (e.targetStake v) e.minimumValidatorLamports = lamports
  by_cases habove : e.targetStake v < v.activeStakeLamports
  · rw [if_pos habove]
    by_cases henough : minimumActiveStake ≤ lamports
    · rw [if_neg (Int.not_lt.mpr henough), Option.some_inj]
      exact ⟨fun h => ⟨h.symm, habove, henough⟩, fun h => h.1.symm⟩
    · rw [if_pos (Int.not_le.mp henough)]
      refine ⟨fun h => ?_, fun h => absurd h.2.2 henough⟩
      cases h
  · rw [if_neg habove]
    refine ⟨fun h => ?_, fun h => absurd h.2.1 habove⟩
    cases h

theorem increaseChange_eq_some : e.increaseChange v = some change ↔
    change = ⟨v.voteAccountAddress,
      share (e.externalStake v) e.reachableLevel e.capLamports - v.activeStakeLamports⟩ ∧
    minimumActiveStake ≤
      share (e.externalStake v) e.reachableLevel e.capLamports - v.activeStakeLamports := by
  have hpos := minimumActiveStake_pos
  show (let lamports := share (e.externalStake v) e.reachableLevel e.capLamports - v.activeStakeLamports
    if lamports ≤ 0 then none else if lamports < minimumActiveStake then none
      else some (StakeChange.mk v.voteAccountAddress lamports)) = some change ↔ _
  generalize share (e.externalStake v) e.reachableLevel e.capLamports - v.activeStakeLamports = lamports
  by_cases henough : minimumActiveStake ≤ lamports
  · rw [if_neg (by omega), if_neg (by omega), Option.some_inj]
    exact ⟨fun h => ⟨h.symm, henough⟩, fun h => h.1.symm⟩
  · refine ⟨fun h => ?_, fun h => absurd h.2 henough⟩
    by_cases hzero : lamports ≤ 0
    · rw [if_pos hzero] at h
      cases h
    · rw [if_neg hzero, if_pos (by omega)] at h
      cases h

theorem decrease_neg (h : e.decreaseChange v = some change) : change.lamports < 0 := by
  obtain ⟨rfl, -, hlarge⟩ := decreaseChange_eq_some.mp h
  have hpos := minimumActiveStake_pos
  show -(v.activeStakeLamports - max (e.targetStake v) e.minimumValidatorLamports) < 0
  omega

theorem increase_pos (h : e.increaseChange v = some change) : 0 < change.lamports := by
  obtain ⟨rfl, hlarge⟩ := increaseChange_eq_some.mp h
  exact Int.lt_of_lt_of_le minimumActiveStake_pos hlarge

/-- A planned increase ends at the level the reserve can pay for, and so not above the target. -/
theorem increase_le_target (h : e.increaseChange v = some change) :
    v.activeStakeLamports + change.lamports = share (e.externalStake v) e.reachableLevel e.capLamports ∧
      v.activeStakeLamports + change.lamports ≤ e.targetStake v := by
  obtain ⟨rfl, -⟩ := increaseChange_eq_some.mp h
  have hlevel : share (e.externalStake v) e.reachableLevel e.capLamports ≤
      share (e.externalStake v) e.targetLevel e.capLamports := share_mono e.reachableLevel_le
  rw [← targetStake_eq] at hlevel
  constructor
  · exact add_sub_cancel _ _
  · show (v.activeStakeLamports : Int) +
      (share (e.externalStake v) e.reachableLevel e.capLamports - v.activeStakeLamports) ≤ e.targetStake v
    omega

/-- A planned decrease leaves the target or the minimum, whichever is more. -/
theorem decrease_leaves (h : e.decreaseChange v = some change) :
    v.activeStakeLamports + change.lamports = max (e.targetStake v) e.minimumValidatorLamports := by
  obtain ⟨rfl, -, -⟩ := decreaseChange_eq_some.mp h
  show (v.activeStakeLamports : Int) +
    -(v.activeStakeLamports - max (e.targetStake v) e.minimumValidatorLamports) = _
  omega

theorem mem_plan (h : change ∈ planEqualizedStake e) : ∃ v ∈ e.actionable,
    e.decreaseChange v = some change ∨ v ∈ e.kept ∧ e.increaseChange v = some change := by
  unfold planEqualizedStake at h
  split at h
  · cases h
  · rcases List.mem_append.mp h with hdecrease | hincrease
    · obtain ⟨v, hv, hchange⟩ := List.mem_filterMap.mp hdecrease
      exact ⟨v, hv, .inl hchange⟩
    · obtain ⟨v, hv, hchange⟩ := List.mem_filterMap.mp hincrease
      exact ⟨v, (mem_kept hv).1, .inr ⟨hv, hchange⟩⟩

end Equalization

/-! ## One change a validator -/

/-- Picking some of the validators keeps the order of their vote accounts. -/
theorem votes_filterMap {f : ValidatorStakeInfo → Option StakeChange}
    (hf : ∀ v change, f v = some change → change.voteAccountAddress = v.voteAccountAddress)
    (l : List ValidatorStakeInfo) :
    ((l.filterMap f).map (·.voteAccountAddress)).Sublist (l.map (·.voteAccountAddress)) := by
  induction l with
  | nil => exact List.Sublist.slnil
  | cons v l ih =>
    rw [List.map_cons]
    cases hv : f v with
    | none =>
      rw [List.filterMap_cons_none hv]
      exact ih.cons _
    | some change =>
      rw [List.filterMap_cons_some hv, List.map_cons, hf v change hv]
      exact ih.cons_cons _

namespace Equalization

variable {e : Equalization}

theorem decrease_vote (v : ValidatorStakeInfo) (change : StakeChange)
    (h : e.decreaseChange v = some change) : change.voteAccountAddress = v.voteAccountAddress := by
  obtain ⟨rfl, -, -⟩ := decreaseChange_eq_some.mp h
  rfl

theorem increase_vote (v : ValidatorStakeInfo) (change : StakeChange)
    (h : e.increaseChange v = some change) : change.voteAccountAddress = v.voteAccountAddress := by
  obtain ⟨rfl, -⟩ := increaseChange_eq_some.mp h
  rfl

theorem plan_votes (hdistinct : (e.validators.map (·.voteAccountAddress)).Nodup) :
    ((planEqualizedStake e).map (·.voteAccountAddress)).Nodup := by
  unfold planEqualizedStake
  split
  · exact List.nodup_nil
  have hactionable : (e.actionable.map (·.voteAccountAddress)).Nodup :=
    hdistinct.sublist (List.filter_sublist.map _)
  have hkept : (e.kept.map (·.voteAccountAddress)).Nodup := by
    have htoIncrease : (e.toIncrease.map (·.voteAccountAddress)).Nodup :=
      (e.toIncrease_perm.map _).nodup_iff.mpr (hactionable.sublist (List.filter_sublist.map _))
    exact htoIncrease.sublist (kept_initial.sublist.map _)
  rw [List.map_append, List.nodup_append']
  refine ⟨hactionable.sublist (votes_filterMap decrease_vote _),
    hkept.sublist (votes_filterMap increase_vote _), fun vote hdown hup => ?_⟩
  -- A validator above its target is none of those below theirs.
  obtain ⟨change, hchange, rfl⟩ := List.mem_map.mp hdown
  obtain ⟨v, hv, hdecrease⟩ := List.mem_filterMap.mp hchange
  obtain ⟨change', hchange', hvote⟩ := List.mem_map.mp hup
  obtain ⟨v', hv', hincrease⟩ := List.mem_filterMap.mp hchange'
  rw [decrease_vote v change hdecrease, increase_vote v' change' hincrease] at hvote
  obtain ⟨hv'mem, hbelow⟩ := mem_kept hv'
  obtain rfl : v' = v := List.inj_on_of_nodup_map hactionable hv'mem hv hvote
  obtain ⟨-, habove, -⟩ := decreaseChange_eq_some.mp hdecrease
  omega

/-! ## Within the reserve -/

theorem increases_le_bill (l : List ValidatorStakeInfo) :
    ((l.filterMap e.increaseChange).map (·.lamports)).sum ≤
      bill e.externalStake poolStake e.capLamports l e.reachableLevel := by
  induction l with
  | nil => exact Int.le_refl _
  | cons v l ih =>
    have hmissing : share (e.externalStake v) e.reachableLevel e.capLamports - poolStake v ≤
        topUp e.reachableLevel e.capLamports (e.externalStake v) (poolStake v) := Int.le_max_left _ _
    have hnonneg : 0 ≤ topUp e.reachableLevel e.capLamports (e.externalStake v) (poolStake v) := topUp_nonneg
    unfold bill at ih ⊢
    rw [List.map_cons, List.sum_cons]
    cases hv : e.increaseChange v with
    | none =>
      rw [List.filterMap_cons_none hv]
      omega
    | some change =>
      rw [List.filterMap_cons_some hv, List.map_cons, List.sum_cons]
      obtain ⟨rfl, -⟩ := increaseChange_eq_some.mp hv
      show share (e.externalStake v) e.reachableLevel e.capLamports - poolStake v + _ ≤ _
      omega

theorem plan_increases :
    (planEqualizedStake e).filter (fun change => decide (0 < change.lamports)) =
      if e.actionable = [] then [] else e.kept.filterMap e.increaseChange := by
  unfold planEqualizedStake
  split
  · rfl
  · have hdown : (e.actionable.filterMap e.decreaseChange).filter
        (fun change => decide (0 < change.lamports)) = [] := by
      refine List.filter_eq_nil_iff.mpr fun change hchange => ?_
      obtain ⟨v, -, hv⟩ := List.mem_filterMap.mp hchange
      have hneg := decrease_neg hv
      rw [decide_eq_true_iff]
      omega
    have hup : (e.kept.filterMap e.increaseChange).filter (fun change => decide (0 < change.lamports)) =
        e.kept.filterMap e.increaseChange := by
      refine List.filter_eq_self.mpr fun change hchange => ?_
      obtain ⟨v, -, hv⟩ := List.mem_filterMap.mp hchange
      exact decide_eq_true (increase_pos hv)
    rw [List.filter_append, hdown, hup, List.nil_append]

theorem plan_affordable (husable : 0 ≤ e.usableReserveLamports) (hrent : 0 ≤ e.stakeRentExemption) :
    (((planEqualizedStake e).filter fun change => decide (0 < change.lamports)).map (·.lamports)).sum +
      ((planEqualizedStake e).filter fun change => decide (0 < change.lamports)).length *
        e.stakeRentExemption ≤ e.usableReserveLamports := by
  rw [plan_increases]
  split
  · simpa using husable
  have hbill := Int.le_trans (e.increases_le_bill e.kept) (reachable_fits husable)
  have hcount : (e.kept.filterMap e.increaseChange).length * e.stakeRentExemption ≤
      e.kept.length * e.stakeRentExemption :=
    Int.mul_le_mul_of_nonneg_right (by exact_mod_cast List.length_filterMap_le ..) hrent
  unfold increaseBudget at hbill
  omega

end Equalization

/-- Whatever the amounts and the cap: every validator gets at most one change; a change goes to an active
validator without transient stake and moves at least the minimum; a decrease leaves the target and the
minimum of a stake account, an increase ends at most at the target and so within the cap; and the
increases with a rent exemption for each fit in the reserve. -/
theorem equalized_plan_admissible {e : Equalization}
    (hdistinct : (e.validators.map (·.voteAccountAddress)).Nodup)
    (husable : 0 ≤ e.usableReserveLamports) (hrent : 0 ≤ e.stakeRentExemption) :
    ((planEqualizedStake e).map (·.voteAccountAddress)).Nodup ∧
    (∀ change ∈ planEqualizedStake e, ∃ v ∈ e.validators,
      change.voteAccountAddress = v.voteAccountAddress ∧ v.status = StakeStatus.activeValue ∧
      v.transientStakeLamports = 0 ∧ minimumActiveStake ≤ |change.lamports| ∧
      (change.lamports < 0 → max (e.targetStake v) (e.stakeRentExemption + minimumActiveStake) ≤
        v.activeStakeLamports + change.lamports) ∧
      (0 < change.lamports → v.activeStakeLamports + change.lamports ≤ e.targetStake v ∧
        v.activeStakeLamports + change.lamports ≤ e.capLamports)) ∧
    (((planEqualizedStake e).filter fun change => decide (0 < change.lamports)).map (·.lamports)).sum +
      ((planEqualizedStake e).filter fun change => decide (0 < change.lamports)).length *
        e.stakeRentExemption ≤ e.usableReserveLamports := by
  refine ⟨e.plan_votes hdistinct, fun change hchange => ?_, e.plan_affordable husable hrent⟩
  obtain ⟨v, hv, hdecrease | ⟨-, hincrease⟩⟩ := Equalization.mem_plan hchange
  · -- A decrease stops at the target.
    obtain ⟨hmem, hactive, htransient⟩ := Equalization.mem_actionable.mp hv
    have hneg := Equalization.decrease_neg hdecrease
    refine ⟨v, hmem, Equalization.decrease_vote v change hdecrease, hactive, htransient, ?_,
      fun _ => (Equalization.decrease_leaves hdecrease).ge, fun hpos => by omega⟩
    obtain ⟨rfl, -, hlarge⟩ := Equalization.decreaseChange_eq_some.mp hdecrease
    rw [abs_neg]
    exact Int.le_trans hlarge (le_abs_self _)
  · -- An increase ends at most at the target, which is below the cap.
    obtain ⟨hmem, hactive, htransient⟩ := Equalization.mem_actionable.mp hv
    have hpos := Equalization.increase_pos hincrease
    have hle := (Equalization.increase_le_target hincrease).2
    have hcap : e.targetStake v ≤ e.capLamports := share_le_cap
    refine ⟨v, hmem, Equalization.increase_vote v change hincrease, hactive, htransient, ?_,
      fun hneg => by omega, fun _ => ⟨hle, by omega⟩⟩
    obtain ⟨rfl, hlarge⟩ := Equalization.increaseChange_eq_some.mp hincrease
    exact Int.le_trans hlarge (le_abs_self _)

/-- Two validators that can be changed and one marked for removal, with 110 SOL of reserve to spare. -/
def unevenPool : Equalization where
  validators := [
    ⟨500000000000, 0, 9, 0, 0, 0, 0, .ofNat 11⟩, ⟨200000000000, 0, 9, 0, 0, 0, 0, .ofNat 12⟩,
    ⟨300000000000, 0, 9, 0, 0, 0, 3, .ofNat 13⟩]
  activatedStakes vote := if vote = .ofNat 12 then some 260000000000 else none
  distributableLamports := 1000000000000
  capLamports := 400000000000
  usableReserveLamports := 110000000000
  stakeRentExemption := 2282880

theorem equalized_plan_admissible_uneven :
    planEqualizedStake unevenPool = [⟨.ofNat 11, -120000000000⟩, ⟨.ofNat 12, 109997717120⟩] ∧
      (109997717120 : Int) + 2282880 ≤ unevenPool.usableReserveLamports := by
  have hplan : planEqualizedStake unevenPool =
      [⟨.ofNat 11, -120000000000⟩, ⟨.ofNat 12, 109997717120⟩] := by decide +kernel
  obtain ⟨-, -, haffordable⟩ := equalized_plan_admissible (e := unevenPool) (by decide +kernel)
    (by decide) (by decide)
  rw [hplan] at haffordable
  exact ⟨hplan, haffordable⟩

/-! ## Levelling -/

namespace Equalization

variable {e : Equalization} {v : ValidatorStakeInfo}

theorem targets_sum (hcap : 0 ≤ e.capLamports) : (e.actionable.map e.targetStake).sum =
    bill e.externalStake (fun _ => 0) e.capLamports e.actionable e.targetLevel := (bill_empty hcap).symm

theorem targets_fit (hcap : 0 ≤ e.capLamports) :
    (e.actionable.map e.targetStake).sum ≤ e.remainingLamports := by
  rw [targets_sum hcap, targetLevel_eq]
  exact levelWithin_fits (fun _ _ => externalStake_nonneg) (fun _ _ => Int.le_refl 0)
    (Int.le_max_right _ _)

theorem le_ceilingLevel (h : v ∈ e.actionable) : e.externalStake v + e.capLamports ≤ e.ceilingLevel := by
  have hmem : e.externalStake v ∈ e.actionable.map e.externalStake := List.mem_map_of_mem h
  obtain ⟨highest, hmax⟩ := Option.isSome_iff_exists.mp (List.isSome_max?_of_mem hmem)
  have hle := (List.max?_eq_some_iff.mp hmax).2 _ hmem
  rw [ceilingLevel, hmax]
  exact Int.add_le_add_right hle _

/-- Nothing more can be put to work, or less than one lamport a validator is left over and no other
distribution within the caps gets every validator above the level. -/
theorem targets_exhaust (hcap : 0 ≤ e.capLamports) (hsome : e.actionable ≠ []) :
    (∀ v ∈ e.actionable, e.targetStake v = e.capLamports) ∨
      e.remainingLamports - (e.actionable.map e.targetStake).sum < e.actionable.length ∧
      ∀ amounts : List Int, List.Forall₂ (fun v amount => 0 ≤ amount ∧ amount ≤ e.capLamports ∧
          min (e.targetLevel + 1) (e.externalStake v + e.capLamports) ≤ e.externalStake v + amount)
        e.actionable amounts → e.remainingLamports < amounts.sum := by
  obtain ⟨v₀, hv₀⟩ := List.exists_mem_of_ne_nil _ hsome
  have hceiling : 0 ≤ e.ceilingLevel := by
    have hle := le_ceilingLevel hv₀
    have hnonneg : 0 ≤ e.externalStake v₀ := externalStake_nonneg
    omega
  have hmax : max e.ceilingLevel 0 = e.ceilingLevel := Int.max_eq_left hceiling
  have hlevel : levelWithin e.externalStake (fun _ => 0) e.capLamports e.actionable e.remainingLamports
      e.ceilingLevel ≤ max e.ceilingLevel 0 := levelWithin_mem.2
  rw [← targetLevel_eq, hmax] at hlevel
  rcases Int.lt_or_eq_of_le hlevel with hbelow | htop
  · refine .inr ⟨?_, fun amounts hamounts => ?_⟩
    · rw [targets_sum hcap, targetLevel_eq]
      apply levelWithin_remainder
      rw [← targetLevel_eq, hmax]
      exact hbelow
    · have hnext : e.remainingLamports <
          bill e.externalStake (fun _ => 0) e.capLamports e.actionable (e.targetLevel + 1) := by
        refine levelWithin_last ?_ (show _ ≤ max e.ceilingLevel 0 by omega)
        rw [← targetLevel_eq]
        exact Int.lt_succ _
      have hleast := bill_least (hamounts.imp fun _ _ h => ⟨h.1, h.2.2⟩)
      omega
  · refine .inl fun v hv => share_full ?_
    rw [htop]
    exact le_ceilingLevel hv

/-- The order of the list does not matter for the targets. -/
theorem target_perm {validators : List ValidatorStakeInfo} (h : validators.Perm e.validators) :
    { e with validators := validators }.targetStake v = e.targetStake v := by
  have hactionable : ({ e with validators := validators } : Equalization).actionable.Perm e.actionable :=
    h.filter _
  have hremaining : ({ e with validators := validators } : Equalization).remainingLamports =
      e.remainingLamports := by
    have hskipped : ({ e with validators := validators } : Equalization).skipped.Perm e.skipped :=
      h.filter _
    unfold remainingLamports untouchableLamports
    rw [(hskipped.map _).sum_eq]
  have hceiling : ({ e with validators := validators } : Equalization).ceilingLevel = e.ceilingLevel := by
    have hmax : (({ e with validators := validators } : Equalization).actionable.map e.externalStake).max? =
        (e.actionable.map e.externalStake).max? := by
      ext highest
      simp only [List.max?_eq_some_iff, (hactionable.map e.externalStake).mem_iff]
    unfold ceilingLevel
    exact congrArg (fun highest => highest.getD 0 + e.capLamports) hmax
  have hlevel : ({ e with validators := validators } : Equalization).targetLevel = e.targetLevel := by
    rw [targetLevel_eq, targetLevel_eq, hremaining, hceiling]
    exact levelWithin_perm hactionable
  unfold targetStake
  rw [hlevel]
  rfl

theorem reachable_last {level : Int} (h : e.reachableLevel < level)
    (hle : level ≤ e.targetLevel) : e.usableReserveLamports <
      bill e.externalStake poolStake e.capLamports e.kept level + e.kept.length * e.stakeRentExemption := by
  have hbeyond : e.increaseBudget < bill e.externalStake poolStake e.capLamports e.kept level := by
    refine levelWithin_last ?_ (show _ ≤ max e.targetLevel 0 by omega)
    rw [← reachableLevel_eq]
    exact h
  unfold increaseBudget at hbeyond
  omega

/-- Who is dropped votes with at least as much as everybody who is kept. -/
theorem toIncrease_split : ∃ dropped, e.toIncrease = e.kept ++ dropped ∧
    (dropped ≠ [] → e.usableReserveLamports < (e.kept.length + 1) * e.stakeRentExemption) ∧
    ∀ d ∈ dropped, ∀ v ∈ e.kept,
      e.externalStake v + v.activeStakeLamports ≤ e.externalStake d + d.activeStakeLamports := by
  obtain ⟨dropped, hsplit⟩ := e.kept_initial
  refine ⟨dropped, hsplit.symm, fun hsome => ?_, fun d hd v hv => ?_⟩
  · refine dropUnfunded_needed fun hall => hsome ?_
    have hkept : e.kept = e.toIncrease := hall
    rw [hkept] at hsplit
    exact List.append_right_eq_self.mp hsplit
  · have hsorted := e.toIncrease_sorted
    rw [← hsplit] at hsorted
    exact (List.pairwise_append.mp hsorted).2.2 v hv d hd

end Equalization

/-- With a validator that can be changed there is a level to which the targets fill up all of these, as
far as their caps let them, and the best one for what can be distributed; it does not depend on the
order of the list.  The increases fill up those that are kept to one level below it, the highest the
reserve can pay for, and only those that vote with the most are dropped. -/
theorem equalized_plan_levels {e : Equalization} (hcap : 0 ≤ e.capLamports)
    (husable : 0 ≤ e.usableReserveLamports) (hsome : e.actionable ≠ []) :
    ∃ level reachable : Int, ∃ kept dropped : List ValidatorStakeInfo,
      (∀ v ∈ e.actionable, e.targetStake v = min (max (level - e.externalStake v) 0) e.capLamports) ∧
      (e.actionable.map e.targetStake).sum ≤ e.remainingLamports ∧
      ((∀ v ∈ e.actionable, e.targetStake v = e.capLamports) ∨
        e.remainingLamports - (e.actionable.map e.targetStake).sum < e.actionable.length ∧
        ∀ amounts : List Int, List.Forall₂ (fun v amount => 0 ≤ amount ∧ amount ≤ e.capLamports ∧
            min (level + 1) (e.externalStake v + e.capLamports) ≤ e.externalStake v + amount)
          e.actionable amounts → e.remainingLamports < amounts.sum) ∧
      (∀ validators : List ValidatorStakeInfo, validators.Perm e.validators → ∀ v,
        { e with validators := validators }.targetStake v = e.targetStake v) ∧
      (kept ++ dropped).Perm
        (e.actionable.filter fun v => (v.activeStakeLamports : Int) < e.targetStake v) ∧
      (∀ change ∈ planEqualizedStake e, 0 < change.lamports → ∃ v ∈ kept,
        change.voteAccountAddress = v.voteAccountAddress ∧
        v.activeStakeLamports + change.lamports =
          min (max (reachable - e.externalStake v) 0) e.capLamports) ∧
      reachable ≤ level ∧
      (kept.map fun v => max (min (max (reachable - e.externalStake v) 0) e.capLamports -
        v.activeStakeLamports) 0).sum + kept.length * e.stakeRentExemption ≤ e.usableReserveLamports ∧
      (∀ higher, reachable < higher → higher ≤ level → e.usableReserveLamports <
        (kept.map fun v => max (min (max (higher - e.externalStake v) 0) e.capLamports -
          v.activeStakeLamports) 0).sum + kept.length * e.stakeRentExemption) ∧
      (dropped ≠ [] → e.usableReserveLamports < (kept.length + 1) * e.stakeRentExemption) ∧
      ∀ d ∈ dropped, ∀ v ∈ kept,
        e.externalStake v + v.activeStakeLamports ≤ e.externalStake d + d.activeStakeLamports := by
  -- The plan works on the kept part of the entries below their target.
  obtain ⟨dropped, hsplit, hneeded, hmost⟩ := e.toIncrease_split
  refine ⟨e.targetLevel, e.reachableLevel, e.kept, dropped, fun _ _ => rfl,
    Equalization.targets_fit hcap, Equalization.targets_exhaust hcap hsome,
    fun validators hperm v => Equalization.target_perm hperm, hsplit ▸ e.toIncrease_perm, ?_,
    e.reachableLevel_le, ?_, fun _ => Equalization.reachable_last, hneeded, hmost⟩
  · intro change hchange hpos
    -- Only a kept entry is raised.
    obtain ⟨v, hv, hdecrease | ⟨hkept, hincrease⟩⟩ := Equalization.mem_plan hchange
    · have hneg := Equalization.decrease_neg hdecrease
      omega
    · exact ⟨v, hkept, Equalization.increase_vote v change hincrease,
        (Equalization.increase_le_target hincrease).1⟩
  · have hfits := Equalization.reachable_fits husable
    unfold Equalization.increaseBudget at hfits
    change bill e.externalStake Equalization.poolStake e.capLamports e.kept e.reachableLevel + _ ≤ _
    omega

theorem equalized_plan_levels_uneven :
    (unevenPool.actionable.map unevenPool.targetStake).sum ≤ 700000000000 ∧
      unevenPool.actionable.map unevenPool.targetStake = [380000000000, 320000000000] := by
  obtain ⟨-, -, -, -, -, hfits, -⟩ := equalized_plan_levels (e := unevenPool) (by decide) (by decide)
    (by decide +kernel)
  exact ⟨hfits, by decide +kernel⟩

end StakePoolFogo.Py
