import StakePoolFogo.Preferred
import StakePoolFogo.Py.EvenSplit
import StakePoolFogo.Py.Plans
import StakePoolFogo.Slippage
import StakePoolFogo.Solvency.Staker

/-!
# Executing an equalized plan

The bot sends the changes of a plan at once, so they run in any order.  Every change takes something from
the reserve: an increase its lamports and a rent exemption, a decrease what the transient account lacks of
one.  The plan only counts the former.
-/

open StakePoolFogo.Checked StakePoolFogo.Levels StakePoolFogo.Outcome

namespace StakePoolFogo.Py

/-! ## One change -/

section Change

variable (sv : Sysvars) (info : Pubkey → StakeMeta) (prior : Pubkey → Nat)

/-- What a change takes from the reserve, where the transient address of a vote account holds `prior`. -/
def taken (change : StakeChange) : Nat :=
  if 0 < change.lamports then saturatingAdd 64 change.lamports.toNat (sv.minimumBalance stakeSpace)
  else sv.minimumBalance stakeSpace - prior change.voteAccountAddress

/-- The check of the reserve: an increase leaves a rent exemption, a decrease something. -/
def ReserveCovers (change : StakeChange) (reserve : Nat) : Prop :=
  if 0 < change.lamports then sv.minimumBalance stakeSpace ≤ reserve - taken sv prior change
  else taken sv prior change < reserve

/-- The entry of the vote account after the change. -/
def entryAfter (change : StakeChange) (v : StakePoolFogo.ValidatorStakeInfo) :
    StakePoolFogo.ValidatorStakeInfo :=
  if 0 < change.lamports then
    { v with transientStakeLamports := v.transientStakeLamports + taken sv prior change }
  else { v with
    activeStakeLamports := v.activeStakeLamports - (-change.lamports).toNat
    transientStakeLamports := (-change.lamports).toNat + prior change.voteAccountAddress +
      taken sv prior change }

def listAfter (change : StakeChange) (l : StakePoolFogo.ValidatorList) : StakePoolFogo.ValidatorList :=
  match l.find change.voteAccountAddress with
  | none => l
  | some v => l.modify change.voteAccountAddress fun _ => entryAfter sv prior change v

/-- The program accepts `changes` one after the other. -/
inductive Executes : List StakeChange → Nat → StakePoolFogo.ValidatorList → Nat → Prop where
  | nil (reserve : Nat) (l : StakePoolFogo.ValidatorList) : Executes [] reserve l reserve
  | cons {change : StakeChange} {changes : List StakeChange} {reserve reserve' : Nat}
      {l : StakePoolFogo.ValidatorList} (accepts : Accepts sv info l change)
      (covers : ReserveCovers sv prior change reserve)
      (rest : Executes changes (reserve - taken sv prior change) (listAfter sv prior change l) reserve') :
      Executes (change :: changes) reserve l reserve'

end Change

/-! ## The instructions of the program -/

section Runs

variable {rt : Runtime} {sv : Sysvars} {accounts : List AccountMeta} {lamports : Nat} {transientSeed : UInt64}
  {w w' : Ledger} {keeper : Keeper}

theorem increase_covers (r : IncreaseRun rt sv accounts lamports transientSeed none w w')
    (prior : Pubkey → Nat) (hpos : 0 < lamports) :
    ReserveCovers sv prior ⟨r.vote.key, lamports⟩ (w r.reserve.key).lamports := by
  have hup : (0 : Int) < (StakeChange.mk r.vote.key lamports).lamports := Int.natCast_pos.mpr hpos
  rw [ReserveCovers, taken, if_pos hup, if_pos hup]
  exact r.rent_left

/-- The new transient account is topped up from the reserve. -/
theorem decrease_covers (system : SystemLaws rt)
    (r : DecreaseRun rt sv accounts lamports transientSeed none true w w') {reserve : AccountMeta}
    (hreserve : r.reserve = some reserve) (hne : reserve.key ≠ r.transient.key)
    (hapart : r.validatorStake.key ≠ r.transient.key) :
    ReserveCovers sv (fun _ => (w r.transient.key).lamports)
      ⟨r.stake.delegation.voterPubkey, -lamports⟩ (w reserve.key).lamports := by
  have hdown : ¬ (0 : Int) < (StakeChange.mk r.stake.delegation.voterPubkey (-lamports)).lamports := by
    show ¬ (0 : Int) < -lamports
    omega
  have hmove := r.direct
  rw [hreserve] at hmove
  simp only [decreaseIntoNewTransient, bind_eq_ok] at hmove
  obtain ⟨created, hcreate, funded, hfund, -⟩ := hmove
  obtain ⟨honly, -, hnew⟩ := createStakeAccount_spec system hcreate
  have hkeepsReserve : created reserve.key = w reserve.key := honly _ (by simp [hne])
  have hkeepsValidator : created r.validatorStake.key = w r.validatorStake.key := honly _ (by simp [hapart])
  have hremaining := r.remaining
  have hpos := minimumStakeLamports_pos r.info sv.stakeMinimumDelegation
  simp only [fundTransient] at hfund
  rcases onlyIf_eq_ok.mp hfund with ⟨-, h⟩ | ⟨hfull, -⟩
  · simp only [bind_eq_ok, failIf_eq_ok, exists_unit, Nat.not_le] at h
    obtain ⟨_, -, hless, -⟩ := h
    rw [hnew, hkeepsReserve] at hless
    rw [ReserveCovers, taken, if_neg hdown, if_neg hdown]
    exact hless
  · -- The rest of the stake stays behind, so it is no full split.
    rw [hkeepsValidator] at hfull
    omega

/-! What the handlers leave of the reserve and the list is what the model of a change says. -/

section Written

variable {prior : Pubkey → Nat} {change : StakeChange} {l : StakePoolFogo.ValidatorList}
  {v : StakePoolFogo.ValidatorStakeInfo} {moved : Ledger}

theorem entryAfter_vote : (entryAfter sv prior change v).voteAccountAddress = v.voteAccountAddress := by
  unfold entryAfter
  split <;> rfl

/-- The handlers write the list after the change, with the seed of the transient account on record. -/
theorem listAfter_written {k : Pubkey} {f : StakePoolFogo.ValidatorStakeInfo → StakePoolFogo.ValidatorStakeInfo}
    (hl : ListAt rt moved k l) (hfound : l.find change.voteAccountAddress = some v)
    (hentry : f v = { entryAfter sv prior change v with transientSeedSuffix := transientSeed })
    (hw : w' = writeValidatorList moved k (l.modify change.voteAccountAddress f)) :
    ListAt rt w' k ((listAfter sv prior change l).modify change.voteAccountAddress
      fun u => { u with transientSeedSuffix := transientSeed }) := by
  have hvote := ValidatorList.find_vote hfound
  have hlist : (listAfter sv prior change l).modify change.voteAccountAddress
      (fun u => { u with transientSeedSuffix := transientSeed }) =
        l.modify change.voteAccountAddress f := by
    rw [listAfter, hfound]
    refine (ValidatorList.modify_modify (f := fun _ => entryAfter sv prior change v) hfound ?_).trans ?_
    · exact entryAfter_vote.trans hvote
    · exact ValidatorList.modify_congr hfound (show _ = f v from hentry.symm)
  rw [hlist, hw]
  exact hl.written hl.valid

end Written

/-- An increase takes from the reserve what the model of the change takes, and leaves its list. -/
theorem increase_executed (laws : ProgramLaws rt) (system : SystemLaws rt) (stakes : StakeLaws rt)
    (r : IncreaseRun rt sv accounts lamports transientSeed none w w')
    (prior : Pubkey → Nat) (hpos : 0 < lamports) (hreserve : Held rt keeper (w r.reserve.key))
    (hne : r.transient.key ≠ r.reserve.key) :
    (w' r.reserve.key).lamports + taken sv prior ⟨r.vote.key, lamports⟩ = (w r.reserve.key).lamports ∧
      ListAt rt w' r.list.key ((listAfter sv prior ⟨r.vote.key, lamports⟩ r.l).modify r.vote.key
        fun u => { u with transientSeedSuffix := transientSeed }) := by
  have hup : (0 : Int) < (StakeChange.mk r.vote.key lamports).lamports := Int.natCast_pos.mpr hpos
  have hidle := r.checks.idle
  have hlist := r.isList.of_frames laws (r.frames.mono movers_subset_outsiders)
  constructor
  · -- Writing the list leaves the lamports where they are.
    have hwritten : w' r.reserve.key = _ := congrFun r.result r.reserve.key
    rw [taken, if_pos hup, hwritten, SameLamports.of_writeValidatorList, r.isReserve]
    rw [r.isReserve] at hreserve hne
    exact (r.increased laws system stakes hreserve hne (fun h => by omega)).left
  · refine listAfter_written hlist r.found ?_ r.result
    rw [entryAfter, if_pos hup, taken, if_pos hup]
    rfl

section Decrease

variable {c : RebalanceContext} {reserve key : AccountMeta} {source : Pubkey} {info : StakeMeta} {n : Nat}
  {seed : UInt64} {bump : UInt8}

/-- The reserve pays what the transient account lacks of its rent exemption. -/
theorem fundTransient_pays (stakes : StakeLaws rt)
    (hheld : HeldAs rt keeper (w reserve.key) (.initialized info) info) (hne : reserve.key ≠ key.key)
    (hrest : (w source).lamports ≠ n)
    (h : fundTransient rt sv c (some reserve) source n key.key w = .ok w') :
    Funds rt keeper reserve.key key.key w w' (sv.minimumBalance stakeSpace - (w key.key).lamports) := by
  simp only [fundTransient] at h
  rcases onlyIf_eq_ok.mp h with ⟨-, h⟩ | ⟨hfull, -⟩
  · simp only [bind_eq_ok, failIf_eq_ok, exists_unit, Nat.not_le] at h
    obtain ⟨_, -, hless, h⟩ := h
    rcases onlyIf_eq_ok.mp h with ⟨-, h⟩ | ⟨hnothing, rfl⟩
    · exact .of_withdraw stakes hheld hless hne h
    · rw [Nat.eq_zero_of_not_pos hnothing]
      exact .refl _ _ _
  · exact absurd hrest hfull

/-- To the lamport: the transient account ends up with what it had, the top-up and the split. -/
theorem decreaseIntoNewTransient_lamports (laws : ProgramLaws rt) (system : SystemLaws rt)
    (stakes : StakeLaws rt) (hheld : HeldAs rt keeper (w reserve.key) (.initialized info) info)
    (hsource : source ≠ reserve.key) (hapart : source ≠ key.key) (hrest : (w source).lamports ≠ n)
    (h : decreaseIntoNewTransient rt sv c (some reserve) source n key seed bump w = .ok w') :
    (w' reserve.key).lamports + (sv.minimumBalance stakeSpace - (w key.key).lamports) =
        (w reserve.key).lamports ∧
      (w' key.key).lamports =
        n + (w key.key).lamports + (sv.minimumBalance stakeSpace - (w key.key).lamports) := by
  simp only [decreaseIntoNewTransient, bind_eq_ok, Prod.exists] at h
  obtain ⟨created, hcreate, funded, hfund, split, hsplit, _, _, hstate, hdeactivate⟩ := h
  obtain ⟨hkey, hcreated⟩ := created_reserve laws system hheld hcreate
  obtain ⟨honly, -, hnew⟩ := createStakeAccount_spec system hcreate
  -- Creating the account touches neither the reserve nor the source, and it keeps its lamports.
  have hkeepsReserve : created reserve.key = w reserve.key := honly _ (by simp [hkey])
  have hkeepsSource : created source = w source := honly _ (by simp [hapart])
  have hcreatedKey : (created key.key).lamports = (w key.key).lamports := by rw [hnew]
  have hfunds := fundTransient_pays stakes hcreated hkey (by rwa [hkeepsSource]) hfund
  rw [hcreatedKey] at hfunds
  have hleft := hfunds.left
  have hpaid : (funded key.key).lamports = (created key.key).lamports +
      (sv.minimumBalance stakeSpace - (w key.key).lamports) := by
    rw [hfunds.paid]
    rfl
  obtain ⟨-, honly', hcall⟩ := stakeSplit_spec hsplit
  have hkeepsReserve' : split reserve.key = funded reserve.key := honly' _ (by simp [hsource.symm, hkey])
  obtain ⟨-, hmoved⟩ := stakes.split_lamports hcall
  -- Deactivation moves no lamports.
  have hlast : (w' key.key).lamports = (split key.key).lamports ∧ w' reserve.key = split reserve.key := by
    rcases onlyIf_eq_ok.mp hdeactivate with ⟨-, hcall⟩ | ⟨-, rfl⟩
    · obtain ⟨honly'', hdeactivated⟩ := stakeDeactivate_spec hcall
      obtain ⟨_, _, _, -, -, hlamports, -⟩ := stakes.deactivate _ _ _ _ hdeactivated
      exact ⟨hlamports, honly'' _ (by simp [hkey])⟩
    · exact ⟨rfl, rfl⟩
  obtain ⟨hlamports, hreserve⟩ := hlast
  rw [hreserve, hkeepsReserve', hlamports]
  rw [hkeepsReserve] at hleft
  omega

end Decrease

/-- So does a decrease: what it takes is what the transient address lacks of the rent exemption. -/
theorem decrease_executed (laws : ProgramLaws rt) (system : SystemLaws rt) (stakes : StakeLaws rt)
    (r : DecreaseRun rt sv accounts lamports transientSeed none true w w') {reserve : AccountMeta}
    {info : StakeMeta} (hreserve : r.reserve = some reserve)
    (hheld : HeldAs rt keeper (w reserve.key) (.initialized info) info)
    (hne : r.validatorStake.key ≠ reserve.key) (hapart : r.validatorStake.key ≠ r.transient.key) :
    (w' reserve.key).lamports +
        taken sv (fun _ => (w r.transient.key).lamports) ⟨r.stake.delegation.voterPubkey, -lamports⟩ =
      (w reserve.key).lamports ∧
    ListAt rt w' r.list.key ((listAfter sv (fun _ => (w r.transient.key).lamports)
      ⟨r.stake.delegation.voterPubkey, -lamports⟩ r.l).modify r.stake.delegation.voterPubkey
        fun u => { u with transientSeedSuffix := transientSeed }) := by
  have hdown : ¬ (0 : Int) < (StakeChange.mk r.stake.delegation.voterPubkey (-lamports)).lamports := by
    show ¬ (0 : Int) < -lamports
    omega
  have hremaining := r.remaining
  have hpos := minimumStakeLamports_pos r.info sv.stakeMinimumDelegation
  have hmove := r.direct
  rw [hreserve] at hmove
  -- Something stays behind, so it is no full split.
  obtain ⟨hleft, htransient⟩ := decreaseIntoNewTransient_lamports laws system stakes hheld hne hapart
    (by omega) hmove
  have hlist := r.isList.of_frames laws (r.frames.mono movers_subset_outsiders)
  constructor
  · have hwritten : w' reserve.key = _ := congrFun r.result reserve.key
    rw [taken, if_neg hdown, hwritten, SameLamports.of_writeValidatorList]
    exact hleft
  · refine listAfter_written hlist r.found ?_ r.result
    have hamount : (-(StakeChange.mk r.stake.delegation.voterPubkey (-lamports)).lamports).toNat =
        lamports := by
      show (- -(lamports : Int)).toNat = lamports
      omega
    have hactive : r.active = r.v.activeStakeLamports - lamports := by
      have heq := r.active_eq
      omega
    rw [entryAfter, if_neg hdown, taken, if_neg hdown, hamount, htransient, hactive]

end Runs

/-! ## Any order -/

section Order

variable {sv : Sysvars} {info : Pubkey → StakeMeta} {prior : Pubkey → Nat} {change other : StakeChange}
  {changes : List StakeChange} {reserve reserve' : Nat} {l : StakePoolFogo.ValidatorList}

def total (sv : Sysvars) (prior : Pubkey → Nat) (changes : List StakeChange) : Nat :=
  (changes.map (taken sv prior)).sum

/-- A covered change leaves something, and an increase the rent exemption. -/
theorem ReserveCovers.leaves (hrent : 0 < sv.minimumBalance stakeSpace)
    (h : ReserveCovers sv prior change reserve) : taken sv prior change < reserve := by
  unfold ReserveCovers at h
  split at h
  · omega
  · exact h

/-- Whatever the order, the same is left of the reserve. -/
theorem Executes.reserve_eq (hrent : 0 < sv.minimumBalance stakeSpace)
    (h : Executes sv info prior changes reserve l reserve') :
    reserve' + total sv prior changes = reserve ∧ (changes ≠ [] → 0 < reserve') := by
  induction h with
  | nil reserve l => exact ⟨rfl, fun hne => absurd rfl hne⟩
  | @cons change changes reserve reserve' l accepts covers rest ih =>
    have hleaves := covers.leaves hrent
    have hsplit : total sv prior (change :: changes) = taken sv prior change + total sv prior changes := by
      rw [total, List.map_cons, List.sum_cons, total]
    refine ⟨by omega, fun _ => ?_⟩
    cases rest with
    | nil => omega
    | cons accepts' covers' rest' => exact ih.2 (List.cons_ne_nil _ _)

/-- A change of one validator leaves the entries of the others alone. -/
theorem Accepts.after (hne : other.voteAccountAddress ≠ change.voteAccountAddress)
    (h : Accepts sv info l other) : Accepts sv info (listAfter sv prior change l) other := by
  obtain ⟨v, hv, hchecks⟩ := h
  refine ⟨v, ?_, hchecks⟩
  unfold listAfter
  split
  · exact hv
  · rename_i u hu
    have hvote : (entryAfter sv prior change u).voteAccountAddress = change.voteAccountAddress := by
      rw [← ValidatorList.find_vote hu]
      unfold entryAfter
      split
      · rfl
      · rfl
    rw [ValidatorList.find_modify hu hvote, if_neg hne]
    exact hv

/-- What the reserve has for all of them together is enough in any order. -/
theorem executes_of_total
    (hvotes : (changes.map (·.voteAccountAddress)).Nodup) (haccepts : ∀ c ∈ changes, Accepts sv info l c)
    (hup : ∀ c ∈ changes, 0 < c.lamports → total sv prior changes + sv.minimumBalance stakeSpace ≤ reserve)
    (hdown : ∀ c ∈ changes, total sv prior changes < reserve) :
    Executes sv info prior changes reserve l (reserve - total sv prior changes) := by
  induction changes generalizing reserve l with
  | nil => exact .nil reserve l
  | cons change changes ih =>
    have hsplit : total sv prior (change :: changes) = taken sv prior change + total sv prior changes := by
      rw [total, List.map_cons, List.sum_cons, total]
    have hless := hdown change (List.mem_cons_self ..)
    rw [hsplit] at hup hdown hless ⊢
    rw [List.map_cons, List.nodup_cons] at hvotes
    have hleft : reserve - (taken sv prior change + total sv prior changes) =
        reserve - taken sv prior change - total sv prior changes := Nat.sub_add_eq ..
    rw [hleft]
    refine .cons (haccepts change (List.mem_cons_self ..)) ?_ (ih hvotes.2 ?_ ?_ ?_)
    · unfold ReserveCovers
      split
      · rename_i hpos
        have henough := hup change (List.mem_cons_self ..) hpos
        omega
      · omega
    · intro c hc
      refine (haccepts c (List.mem_cons_of_mem _ hc)).after fun heq => hvotes.1 ?_
      rw [← heq]
      exact List.mem_map_of_mem hc
    · intro c hc hpos
      have henough := hup c (List.mem_cons_of_mem _ hc) hpos
      omega
    · intro c hc
      omega

end Order

/-! ## The plan -/

namespace Equalization

variable (e : Equalization)

/-- How far a validator stands above what a decrease would leave it. -/
def surplus (v : ValidatorStakeInfo) : Int :=
  v.activeStakeLamports - max (e.targetStake v) e.minimumValidatorLamports

/-- How far one of the kept validators stands below the level the reserve covers. -/
def shortfall (v : ValidatorStakeInfo) : Int :=
  stakeFromPool (e.externalStake v) e.reachableLevel e.capLamports - v.activeStakeLamports

def decreasing : List ValidatorStakeInfo := e.actionable.filter fun v =>
  e.targetStake v < v.activeStakeLamports ∧ minimumActiveStake ≤ e.surplus v

def increasing : List ValidatorStakeInfo := e.kept.filter fun v => minimumActiveStake ≤ e.shortfall v

/-- What the increases take from the reserve. -/
def spent : Int := (e.increasing.map fun v => e.shortfall v + e.stakeRentExemption).sum

/-- What the transient accounts of the decreases lack of their rent exemptions. -/
def due (rent : Nat) (prior : Pubkey → Nat) : Nat :=
  (e.decreasing.map fun v => rent - prior v.voteAccountAddress).sum

variable {e} {v : ValidatorStakeInfo} {change : StakeChange}

theorem decreases_eq : e.actionable.filterMap e.decreaseChange =
    e.decreasing.map fun v => ⟨v.voteAccountAddress, -e.surplus v⟩ := by
  rw [decreasing]
  induction e.actionable with
  | nil => rfl
  | cons v l ih =>
    by_cases hv : e.targetStake v < v.activeStakeLamports ∧ minimumActiveStake ≤ e.surplus v
    · rw [List.filterMap_cons_some (decreaseChange_eq_some.mpr ⟨rfl, hv⟩),
        List.filter_cons_of_pos (by simpa using hv), List.map_cons, ih]
      rfl
    · have hnone : e.decreaseChange v = none :=
        Option.eq_none_iff_forall_ne_some.mpr fun change hchange => hv (decreaseChange_eq_some.mp hchange).2
      rw [List.filterMap_cons_none hnone, List.filter_cons_of_neg (by simpa using hv), ih]

theorem increases_eq : e.kept.filterMap e.increaseChange =
    e.increasing.map fun v => ⟨v.voteAccountAddress, e.shortfall v⟩ := by
  rw [increasing]
  induction e.kept with
  | nil => rfl
  | cons v l ih =>
    by_cases hv : minimumActiveStake ≤ e.shortfall v
    · rw [List.filterMap_cons_some (increaseChange_eq_some.mpr ⟨rfl, hv⟩),
        List.filter_cons_of_pos (by simpa using hv), List.map_cons, ih]
      rfl
    · have hnone : e.increaseChange v = none :=
        Option.eq_none_iff_forall_ne_some.mpr fun change hchange => hv (increaseChange_eq_some.mp hchange).2
      rw [List.filterMap_cons_none hnone, List.filter_cons_of_neg (by simpa using hv), ih]

/-- The decreases come first. -/
theorem plan_eq : planEqualizedStake e =
    (e.decreasing.map fun v => ⟨v.voteAccountAddress, -e.surplus v⟩) ++
      e.increasing.map fun v => ⟨v.voteAccountAddress, e.shortfall v⟩ := by
  unfold planEqualizedStake
  split
  · rename_i hnone
    have hkept : e.kept = [] := List.eq_nil_iff_forall_not_mem.mpr fun v hv => by
      have hmem := (mem_kept hv).1
      rw [hnone] at hmem
      cases hmem
    rw [decreasing, increasing, hnone, hkept]
    rfl
  · rw [decreases_eq, increases_eq]

theorem mem_increasing (h : v ∈ e.increasing) : minimumActiveStake ≤ e.shortfall v := by
  rw [increasing, List.mem_filter, decide_eq_true_iff] at h
  exact h.2

theorem mem_decreasing (h : v ∈ e.decreasing) : minimumActiveStake ≤ e.surplus v := by
  rw [decreasing, List.mem_filter, decide_eq_true_iff] at h
  exact h.2.2

theorem spent_le (husable : 0 ≤ e.usableReserveLamports) (hrent : 0 ≤ e.stakeRentExemption) :
    e.spent ≤ e.usableReserveLamports := by
  have haffordable := e.plan_affordable husable hrent
  have hups : (planEqualizedStake e).filter (fun change => decide (0 < change.lamports)) =
      e.increasing.map fun v => ⟨v.voteAccountAddress, e.shortfall v⟩ := by
    have hpos := minimumActiveStake_pos
    rw [plan_eq, List.filter_append, List.filter_eq_nil_iff.mpr, List.nil_append, List.filter_eq_self.mpr]
    · intro change hchange
      obtain ⟨v, hv, rfl⟩ := List.mem_map.mp hchange
      exact decide_eq_true (Int.lt_of_lt_of_le hpos (mem_increasing hv))
    · intro change hchange
      obtain ⟨v, hv, rfl⟩ := List.mem_map.mp hchange
      have hsurplus := mem_decreasing hv
      rw [decide_eq_true_iff]
      show ¬ 0 < -e.surplus v
      omega
  rw [hups, List.map_map, List.length_map] at haffordable
  have hspent : e.spent = (e.increasing.map e.shortfall).sum + e.increasing.length * e.stakeRentExemption := by
    rw [spent]
    induction e.increasing with
    | nil => simp
    | cons v l ih =>
      simp only [List.map_cons, List.sum_cons, List.length_cons, ih]
      push_cast
      ring
  rw [hspent]
  exact haffordable

/-- What one increase takes is a part of it. -/
theorem shortfall_le_spent (hrent : 0 ≤ e.stakeRentExemption) (h : v ∈ e.increasing) :
    e.shortfall v + e.stakeRentExemption ≤ e.spent := by
  refine List.single_le_sum (fun n hn => ?_) _ (List.mem_map_of_mem h)
  obtain ⟨u, hu, rfl⟩ := List.mem_map.mp hn
  have hpos := minimumActiveStake_pos
  have hshort := mem_increasing hu
  omega

end Equalization

/-! ## The whole plan -/

section Plan

/-- `plan_equalized_stake` as `rebalance` calls it, on an up-to-date list with stake accounts that all have
the same rent exemption. -/
structure RebalanceCall (sv : Sysvars) (info : Pubkey → StakeMeta) (l : StakePoolFogo.ValidatorList)
    (reserve retained : Nat) (e : Equalization) : Prop where
  validators : e.validators = (ValidatorList.ofList l).validators
  usable : e.usableReserveLamports =
    max (reserve - sv.minimumBalance stakeSpace - minimumReserveLamports - retained : Int) 0
  rent : e.stakeRentExemption = sv.minimumBalance stakeSpace
  distinct : (l.validators.map (·.voteAccountAddress)).Nodup
  rent_pos : 0 < sv.minimumBalance stakeSpace
  rentExempt : ∀ vote, (info vote).rentExemptReserve = sv.minimumBalance stakeSpace
  reserve_fits : reserve < 2 ^ 64
  minimum : (minimumDelegation sv.stakeMinimumDelegation : Int) ≤ minimumActiveStake

/-- The program accepts the plan in every order, and a reserve with something to stake out keeps its rent
exemption and the retained amount. -/
def RunsInAnyOrder (sv : Sysvars) (info : Pubkey → StakeMeta) (prior : Pubkey → Nat)
    (l : StakePoolFogo.ValidatorList) (reserve retained : Nat) (e : Equalization) : Prop :=
  (∀ order, order.Perm (planEqualizedStake e) → ∃ reserve', Executes sv info prior order reserve l reserve') ∧
    (0 < e.usableReserveLamports → ∀ order reserve', order.Perm (planEqualizedStake e) →
      Executes sv info prior order reserve l reserve' → sv.minimumBalance stakeSpace + retained ≤ reserve')

variable {sv : Sysvars} {info : Pubkey → StakeMeta} {prior : Pubkey → Nat} {l : StakePoolFogo.ValidatorList}
  {reserve retained : Nat} {e : Equalization} {change : StakeChange}

namespace RebalanceCall

variable (h : RebalanceCall sv info l reserve retained e)
include h

/-- Every change is one the program accepts of its entry. -/
theorem accepts (hchange : change ∈ planEqualizedStake e) : Accepts sv info l change := by
  have hpos := minimumActiveStake_pos
  have hmin := h.minimum
  obtain ⟨v, hv, hplanned⟩ := Equalization.mem_plan hchange
  obtain ⟨hmem, hactive, htransient⟩ := Equalization.mem_actionable.mp hv
  rw [h.validators] at hmem
  obtain ⟨u, hu, rfl⟩ := List.mem_map.mp hmem
  have hfound : l.find u.voteAccountAddress = some u := ValidatorList.find_of_mem h.distinct hu
  have hstatus : u.status = StakePoolFogo.StakeStatus.active.toPod :=
    congrArg PodStakeStatus.mk (UInt8.toNat_inj.mp hactive)
  rcases hplanned with hdecrease | ⟨-, hincrease⟩
  · have hvote : change.voteAccountAddress = u.voteAccountAddress := Equalization.decrease_vote _ _ hdecrease
    have hneg := Equalization.decrease_neg hdecrease
    have hleaves : (u.activeStakeLamports : Int) + change.lamports =
      max (e.targetStake _) e.minimumValidatorLamports := Equalization.decrease_leaves hdecrease
    have hlarge : minimumActiveStake ≤ -change.lamports := by
      obtain ⟨rfl, -, hlarge⟩ := Equalization.decreaseChange_eq_some.mp hdecrease
      exact Int.le_trans hlarge (Int.le_of_eq (Int.neg_neg _).symm)
    have hrent := h.rentExempt u.voteAccountAddress
    have hsum : minimumStakeLamports (info u.voteAccountAddress) sv.stakeMinimumDelegation ≤
        (info u.voteAccountAddress).rentExemptReserve + minimumDelegation sv.stakeMinimumDelegation :=
      saturatingAdd_le
    have hminimum : e.minimumValidatorLamports = sv.minimumBalance stakeSpace + minimumActiveStake := by
      rw [Equalization.minimumValidatorLamports, h.rent]
    refine ⟨u, hvote ▸ hfound, ?_⟩
    rw [if_neg (by omega)]
    exact ⟨⟨hstatus, htransient, by omega⟩, by omega⟩
  · have hvote : change.voteAccountAddress = u.voteAccountAddress := Equalization.increase_vote _ _ hincrease
    have hlarge : minimumActiveStake ≤ change.lamports := by
      obtain ⟨rfl, hlarge⟩ := Equalization.increaseChange_eq_some.mp hincrease
      exact hlarge
    refine ⟨u, hvote ▸ hfound, ?_⟩
    rw [if_pos (by omega)]
    exact ⟨hstatus, htransient, by omega⟩

theorem usable_nonneg : 0 ≤ e.usableReserveLamports := by
  rw [h.usable]
  exact Int.le_max_right _ _

theorem rent_nonneg : 0 ≤ e.stakeRentExemption := by
  rw [h.rent]
  exact Int.natCast_nonneg _

/-- All the changes together take what the increases spend and what the decreases lack. -/
theorem total_eq : (total sv prior (planEqualizedStake e) : Int) =
    e.spent + e.due (sv.minimumBalance stakeSpace) prior := by
  have hpos := minimumActiveStake_pos
  have hsplit : total sv prior (planEqualizedStake e) =
      total sv prior (e.decreasing.map fun v => ⟨v.voteAccountAddress, -e.surplus v⟩) +
        total sv prior (e.increasing.map fun v => ⟨v.voteAccountAddress, e.shortfall v⟩) := by
    rw [Equalization.plan_eq, total, List.map_append, List.sum_append, total, total]
  have hdown : total sv prior (e.decreasing.map fun v => ⟨v.voteAccountAddress, -e.surplus v⟩) =
      e.due (sv.minimumBalance stakeSpace) prior := by
    rw [total, List.map_map, Equalization.due]
    refine congrArg List.sum (List.map_congr_left fun v hv => if_neg ?_)
    have hsurplus := Equalization.mem_decreasing hv
    show ¬ 0 < -e.surplus v
    omega
  have hup : (total sv prior (e.increasing.map fun v => ⟨v.voteAccountAddress, e.shortfall v⟩) : Int) =
      e.spent := by
    rw [total, List.map_map, Nat.cast_list_sum, List.map_map, Equalization.spent]
    refine congrArg List.sum (List.map_congr_left fun v hv => ?_)
    have hshort := Equalization.mem_increasing hv
    have hle := Equalization.shortfall_le_spent h.rent_nonneg hv
    have hspent := Equalization.spent_le h.usable_nonneg h.rent_nonneg
    have husable := h.usable
    have hreserve := h.reserve_fits
    have hrent := h.rent
    show ((if 0 < e.shortfall v then saturatingAdd 64 (e.shortfall v).toNat (sv.minimumBalance stakeSpace)
      else _ : Nat) : Int) = _
    have hkept : (0 : Int) ≤ minimumReserveLamports := Int.le_refl 0
    rw [if_pos (by omega), saturatingAdd_of_lt (by omega)]
    omega
  rw [hsplit]
  push_cast
  rw [hup, hdown]
  omega

end RebalanceCall

theorem total_perm {changes order : List StakeChange} (h : order.Perm changes) :
    total sv prior order = total sv prior changes := (h.map _).sum_eq

/-- An increase needs something to stake out. -/
theorem RebalanceCall.usable_pos (h : RebalanceCall sv info l reserve retained e)
    (hchange : change ∈ planEqualizedStake e) (hpos : 0 < change.lamports) : 0 < e.usableReserveLamports := by
  have hminimum := minimumActiveStake_pos
  rw [Equalization.plan_eq] at hchange
  rcases List.mem_append.mp hchange with hdown | hup
  · obtain ⟨v, hv, rfl⟩ := List.mem_map.mp hdown
    have hsurplus := Equalization.mem_decreasing hv
    have hpos : 0 < -e.surplus v := hpos
    omega
  · obtain ⟨v, hv, rfl⟩ := List.mem_map.mp hup
    have hshort := Equalization.mem_increasing hv
    have hle := Equalization.shortfall_le_spent h.rent_nonneg hv
    have hspent := Equalization.spent_le h.usable_nonneg h.rent_nonneg
    have hrent := h.rent_nonneg
    omega

/-- A plan runs in any order exactly if what the increases leave of the reserve covers the rent exemptions of
the decreases. -/
theorem equalized_plan_runs_iff (h : RebalanceCall sv info l reserve retained e) :
    RunsInAnyOrder sv info prior l reserve retained e ↔
      (0 < e.usableReserveLamports →
        e.spent + e.due (sv.minimumBalance stakeSpace) prior ≤ e.usableReserveLamports) ∧
      (e.decreasing ≠ [] → e.spent + e.due (sv.minimumBalance stakeSpace) prior < reserve) := by
  have htotal : (total sv prior (planEqualizedStake e) : Int) =
    e.spent + e.due (sv.minimumBalance stakeSpace) prior := h.total_eq
  have husable := h.usable
  have hrent := h.rent_pos
  have hkept : minimumReserveLamports = 0 := rfl
  constructor
  · rintro ⟨hruns, hkeeps⟩
    -- One order is enough for the sums, since every order takes the same from the reserve.
    obtain ⟨reserve', hrun⟩ := hruns _ (.refl _)
    obtain ⟨hleft, hsome⟩ := hrun.reserve_eq hrent
    refine ⟨fun hpos => ?_, fun hdecreasing => ?_⟩
    · have hend := hkeeps hpos _ _ (.refl _) hrun
      omega
    · have hne : planEqualizedStake e ≠ [] := by
        rw [Equalization.plan_eq]
        exact fun hnil => hdecreasing (List.map_eq_nil_iff.mp (List.append_eq_nil_iff.mp hnil).1)
      have hend := hsome hne
      omega
  · rintro ⟨hroom, hsome⟩
    -- While something remains to be done, the reserve covers all of the plan.
    have hless : ∀ change ∈ planEqualizedStake e, total sv prior (planEqualizedStake e) < reserve := by
      intro change hchange
      by_cases hpos : 0 < e.usableReserveLamports
      · have hle := hroom hpos
        omega
      · have hdecreasing : e.decreasing ≠ [] := by
          -- Without a usable lamport nothing is increased, so the change is a decrease.
          intro hnil
          rw [Equalization.plan_eq, hnil] at hchange
          obtain ⟨v, hv, hup⟩ := List.mem_map.mp hchange
          have hshort := Equalization.mem_increasing hv
          have hminimum := minimumActiveStake_pos
          have hle := Equalization.shortfall_le_spent h.rent_nonneg hv
          have hspent := Equalization.spent_le h.usable_nonneg h.rent_nonneg
          have hnonneg := h.rent_nonneg
          omega
        have hlt := hsome hdecreasing
        omega
    -- Each condition of a run follows from the totals, which do not depend on the order.
    refine ⟨fun order horder => ⟨_, executes_of_total ?_ ?_ ?_ ?_⟩, fun hpos order reserve' horder hrun => ?_⟩
    · have hvotes : (e.validators.map (·.voteAccountAddress)).Nodup := by
        rw [h.validators]
        show ((l.validators.map ValidatorStakeInfo.ofInfo).map _).Nodup
        rw [List.map_map]
        exact h.distinct
      exact (horder.map _).nodup_iff.mpr (e.plan_votes hvotes)
    · exact fun change hchange => h.accepts (horder.mem_iff.mp hchange)
    · intro change hchange hup
      have hpos := h.usable_pos (horder.mem_iff.mp hchange) hup
      have hle := hroom hpos
      rw [total_perm horder]
      omega
    · intro change hchange
      rw [total_perm horder]
      exact hless change (horder.mem_iff.mp hchange)
    · have hle := hroom hpos
      obtain ⟨hleft, -⟩ := hrun.reserve_eq hrent
      rw [total_perm horder] at hleft
      omega

end Plan

section Example

def levelEntry (i active : Nat) (status : StakePoolFogo.StakeStatus) : StakePoolFogo.ValidatorStakeInfo :=
  ⟨active, 0, 9, 0, 0, 0, status.toPod, .ofNat i⟩

/-- The list of `unevenPool`. -/
def levelList : StakePoolFogo.ValidatorList := ⟨⟨.validatorList, 10⟩, [levelEntry 11 500000000000 .active,
  levelEntry 12 200000000000 .active, levelEntry 13 300000000000 .deactivatingValidator]⟩

/-- `unevenPool` with another reserve. -/
def levelPool (usable : Int) : Equalization := { unevenPool with usableReserveLamports := usable }

theorem levelPool_call (spare : Nat) (hspare : spare < 2 ^ 63) :
    RebalanceCall splitSysvars splitInfo levelList (spare + 2282880) 0 (levelPool spare) where
  validators := by
    show unevenPool.validators = (ValidatorList.ofList levelList).validators
    decide +kernel
  usable := by
    show (spare : Int) = max (((spare + 2282880 : Nat) : Int) - ((2282880 : Nat) : Int) - 0 - ((0 : Nat) : Int)) 0
    omega
  rent := rfl
  distinct := by decide +kernel
  rent_pos := by decide
  rentExempt _ := rfl
  reserve_fits := by omega
  minimum := by decide

/-- With as much in the reserve as the validator below its target takes, there is some left for the decrease. -/
theorem equalized_plan_runs_rich : RunsInAnyOrder splitSysvars splitInfo (fun _ => 0) levelList 1000002282880 0
    (levelPool 1000000000000) := by
  refine (equalized_plan_runs_iff (levelPool_call 1000000000000 (by decide))).mpr ⟨fun _ => ?_, fun _ => ?_⟩
  · decide +kernel
  · decide +kernel

/-- With 110 SOL to stake out the increase takes them all, and nothing is left for the decrease in any order. -/
theorem equalized_plan_overdrawn :
    planEqualizedStake (levelPool 110000000000) = [⟨.ofNat 11, -120000000000⟩, ⟨.ofNat 12, 109997717120⟩] ∧
      (∀ order reserve', order.Perm (planEqualizedStake (levelPool 110000000000)) →
        ¬ Executes splitSysvars splitInfo (fun _ => 0) order 110002282880 levelList reserve') ∧
      ¬ RunsInAnyOrder splitSysvars splitInfo (fun _ => 0) levelList 110002282880 0 (levelPool 110000000000) := by
  have hplan : planEqualizedStake (levelPool 110000000000) =
      [⟨.ofNat 11, -120000000000⟩, ⟨.ofNat 12, 109997717120⟩] := by decide +kernel
  have hnone : ∀ order reserve', order.Perm (planEqualizedStake (levelPool 110000000000)) →
      ¬ Executes splitSysvars splitInfo (fun _ => 0) order 110002282880 levelList reserve' := by
    intro order reserve' horder hrun
    obtain ⟨hleft, hsome⟩ := hrun.reserve_eq (by decide)
    have htotal : total splitSysvars (fun _ => 0) order = 110002282880 := by
      rw [total_perm horder, hplan]
      decide
    have hne : order ≠ [] := by
      rintro rfl
      cases htotal
    have hpos := hsome hne
    omega
  refine ⟨hplan, hnone, fun hruns => ?_⟩
  obtain ⟨reserve', hrun⟩ := hruns.1 _ (.refl _)
  exact hnone _ _ (.refl _) hrun

end Example

end StakePoolFogo.Py
