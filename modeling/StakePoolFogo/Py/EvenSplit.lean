import StakePoolFogo.Processor.Rebalance
import StakePoolFogo.Py.Rebalance

/-!
# Even splits

An even split asks every validator without transient stake for the same stake.  What the program checks
of an entry and an amount, and exactly when every change of a split passes.
-/

open StakePoolFogo.Outcome

namespace StakePoolFogo

/-! ## What the program checks -/

/-- The checks an increase makes of its entry and its amount when nothing is pending. -/
structure IncreaseChecks (sv : Sysvars) (v : ValidatorStakeInfo) (lamports : Nat) : Prop where
  active : v.status = StakeStatus.active.toPod
  idle : v.transientStakeLamports = 0
  enough : minimumDelegation sv.stakeMinimumDelegation ≤ lamports

/-- Those of a decrease, from a stake account with `account` lamports. -/
structure DecreaseChecks (sv : Sysvars) (info : StakeMeta) (account : Nat) (v : ValidatorStakeInfo)
    (lamports : Nat) : Prop extends IncreaseChecks sv v lamports where
  remaining : lamports + minimumStakeLamports info sv.stakeMinimumDelegation ≤ account

section Checks

variable {rt : Runtime} {sv : Sysvars} {accounts : List AccountMeta} {lamports : Nat}
  {transientSeed : UInt64} {fund : Bool} {w w' : Ledger}

/-- Without an ephemeral account nothing may be pending. -/
theorem checkPendingTransient_none {v : ValidatorStakeInfo} {direction : Except ProgramError Unit} :
    checkPendingTransient v transientSeed none direction = .ok () ↔ v.transientStakeLamports = 0 := by
  unfold checkPendingTransient
  by_cases hpending : v.transientStakeLamports > 0
  · rw [if_pos hpending]
    refine ⟨fun h => ?_, fun h => by omega⟩
    obtain ⟨_, hnone, -⟩ := bind_eq_ok.mp h
    exact absurd rfl (failIf_eq_ok.mp hnone)
  · rw [if_neg hpending]
    exact ⟨fun _ => by omega, fun _ => rfl⟩

theorem IncreaseRun.checks (r : IncreaseRun rt sv accounts lamports transientSeed none w w') :
    IncreaseChecks sv r.v lamports where
  active := r.status_active
  idle := checkPendingTransient_none.mp r.pending
  enough := r.enough

theorem DecreaseRun.checks (r : DecreaseRun rt sv accounts lamports transientSeed none fund w w') :
    DecreaseChecks sv r.info (w r.validatorStake.key).lamports r.v lamports where
  active := r.status_active
  idle := checkPendingTransient_none.mp r.pending
  enough := r.enough
  remaining := r.remaining

/-- Without an ephemeral account the stake goes straight to a new transient account. -/
theorem DecreaseRun.direct (r : DecreaseRun rt sv accounts lamports transientSeed none fund w w') :
    decreaseIntoNewTransient rt sv r.c r.reserve r.validatorStake.key lamports r.transient transientSeed
      r.bump w = .ok r.moved := by
  -- Nothing is pending, so there is nothing to merge into.
  have hidle := r.checks.idle
  have hmove := r.move
  have hprepare := r.prepare
  have hzip : optionZip (none : Option UInt64) r.ephemeral = none := rfl
  rw [hzip] at hprepare
  simp only [decreaseSource, Except.ok.injEq, Prod.mk.injEq] at hprepare
  obtain ⟨hsource, hlamports, hw⟩ := hprepare
  rw [if_neg (by omega), ← hsource, ← hlamports, ← hw] at hmove
  exact hmove

end Checks

namespace Py

/-! ## What the bot plans -/

section Change

variable {share rent : Int} {v : ValidatorStakeInfo} {change : StakeChange}

theorem evenSplitChange_eq_some : evenSplitChange share rent v = some change ↔
    v.transientStakeLamports = 0 ∧
      (share < v.activeStakeLamports ∧ rent < v.activeStakeLamports - share ∧
          change = ⟨v.voteAccountAddress, -(v.activeStakeLamports - share)⟩ ∨
        v.activeStakeLamports + minimumActiveStake ≤ share ∧
          change = ⟨v.voteAccountAddress, share - v.activeStakeLamports⟩) := by
  have hpos : 0 < minimumActiveStake := by decide
  unfold evenSplitChange
  dsimp only
  by_cases hidle : v.transientStakeLamports = 0
  · rw [if_neg (by omega)]
    by_cases hdown : share < v.activeStakeLamports
    · rw [if_pos hdown]
      by_cases hsmall : v.activeStakeLamports - share ≤ rent
      · rw [if_pos hsmall]
        refine ⟨fun h => ?_, fun ⟨_, h⟩ => ?_⟩
        · cases h
        · rcases h with ⟨-, hlarge, -⟩ | ⟨hup, -⟩ <;> omega
      · rw [if_neg hsmall, Option.some_inj]
        refine ⟨fun h => ⟨hidle, .inl ⟨hdown, by omega, h.symm⟩⟩, fun ⟨_, h⟩ => ?_⟩
        rcases h with ⟨-, -, h⟩ | ⟨hup, -⟩
        · exact h.symm
        · omega
    · rw [if_neg hdown]
      by_cases hup : v.activeStakeLamports + minimumActiveStake ≤ share
      · rw [if_pos (by omega), if_neg (by omega), Option.some_inj]
        refine ⟨fun h => ⟨hidle, .inr ⟨hup, h.symm⟩⟩, fun ⟨_, h⟩ => ?_⟩
        rcases h with ⟨habove, -⟩ | ⟨-, h⟩
        · omega
        · exact h.symm
      · refine ⟨fun h => ?_, fun ⟨_, h⟩ => ?_⟩
        · split at h
          · rw [if_pos (by omega)] at h
            cases h
          · cases h
        · rcases h with ⟨habove, -⟩ | ⟨hup', -⟩ <;> omega
  · rw [if_pos hidle]
    refine ⟨fun h => ?_, fun h => absurd h.1 hidle⟩
    cases h

end Change

/-- What an even split wants every validator to have: an equal part of what is left when a rent exemption
is set aside for every validator without transient stake under an equal part of all. -/
def evenShare (validators : List ValidatorStakeInfo) (distributable rent : Int) : Int :=
  (distributable - (validators.filter fun v => v.transientStakeLamports = 0 ∧
    v.activeStakeLamports < distributable.fdiv validators.length).length * rent).fdiv validators.length

theorem planEvenSplit_eq_ok {validators : List ValidatorStakeInfo} {distributable rent : Int}
    {plan : List StakeChange} : planEvenSplit validators distributable rent = .ok plan ↔
      validators ≠ [] ∧ plan = validators.filterMap
        (evenSplitChange (evenShare validators distributable rent) rent) := by
  unfold planEvenSplit floorDiv
  by_cases hnil : validators = []
  · refine ⟨fun h => ?_, fun h => absurd hnil h.1⟩
    subst hnil
    cases h
  · have hlength : (validators.length : Int) ≠ 0 := by
      have hpos := List.length_pos_of_ne_nil hnil
      omega
    simp only [if_neg hlength]
    refine ⟨fun h => ⟨hnil, ?_⟩, fun h => ?_⟩
    · cases h
      rfl
    · rw [h.2]
      rfl

/-! ## When the program accepts it -/

section Accepts

variable {sv : Sysvars} {info : Pubkey → StakeMeta} {l : StakePoolFogo.ValidatorList}

/-- The program accepts `change` on an up-to-date list, where the stake account of an entry holds what
the entry says and has the stake meta `info`. -/
def Accepts (sv : Sysvars) (info : Pubkey → StakeMeta) (l : StakePoolFogo.ValidatorList)
    (change : StakeChange) : Prop :=
  ∃ v, l.find change.voteAccountAddress = some v ∧
    if 0 < change.lamports then IncreaseChecks sv v change.lamports.toNat
    else DecreaseChecks sv (info v.voteAccountAddress) v.activeStakeLamports v (-change.lamports).toNat

/-- What becomes of a validator without transient stake: one that is more than the rent exemption above
the share, or at least the minimum of the bot below it, is active; one above is so by the minimum of the
program, and the share is enough for its stake account.  `u` is the entry the program finds for it. -/
structure EvenlySplittable (sv : Sysvars) (info : StakeMeta) (share rent : Int)
    (v u : StakePoolFogo.ValidatorStakeInfo) : Prop where
  active : share < v.activeStakeLamports ∧ rent < v.activeStakeLamports - share ∨
      v.activeStakeLamports + minimumActiveStake ≤ share →
    u.status = StakePoolFogo.StakeStatus.active.toPod ∧ u.transientStakeLamports = 0
  above : share < v.activeStakeLamports → rent < v.activeStakeLamports - share →
    share + minimumDelegation sv.stakeMinimumDelegation ≤ v.activeStakeLamports ∧
      v.activeStakeLamports - share + minimumStakeLamports info sv.stakeMinimumDelegation ≤
        u.activeStakeLamports

variable {share rent : Int} {v u : StakePoolFogo.ValidatorStakeInfo}

theorem accepts_iff (hmin : (minimumDelegation sv.stakeMinimumDelegation : Int) ≤ minimumActiveStake)
    (hidle : v.transientStakeLamports = 0) (hfound : l.find v.voteAccountAddress = some u) :
    (∀ change, evenSplitChange share rent (.ofInfo v) = some change → Accepts sv info l change) ↔
      EvenlySplittable sv (info v.voteAccountAddress) share rent v u := by
  have hpos : 0 < minimumActiveStake := by decide
  have hview : (ValidatorStakeInfo.ofInfo v).activeStakeLamports = v.activeStakeLamports := rfl
  have hvote : u.voteAccountAddress = v.voteAccountAddress := ValidatorList.find_vote hfound
  -- Only this entry has the vote of the change, so the checks are those on it.
  have haccepts : ∀ lamports, Accepts sv info l ⟨v.voteAccountAddress, lamports⟩ ↔
      if 0 < lamports then IncreaseChecks sv u lamports.toNat
      else DecreaseChecks sv (info v.voteAccountAddress) u.activeStakeLamports u (-lamports).toNat := by
    intro lamports
    refine ⟨fun ⟨u', hu', h⟩ => ?_, fun h => ⟨u, hfound, hvote ▸ h⟩⟩
    obtain rfl := Option.some.inj (hu'.symm.trans hfound)
    rw [hvote] at h
    exact h
  constructor
  · -- A change is planned only away from the share, and its checks give the bounds.
    intro hall
    refine ⟨fun hmoved => ?_, fun habove hlarge => ?_⟩
    · rcases hmoved with ⟨habove, hlarge⟩ | hbelow
      · have hdown := (haccepts _).mp (hall _ (evenSplitChange_eq_some.mpr
          ⟨hidle, .inl ⟨habove, hlarge, rfl⟩⟩))
        rw [if_neg (by omega)] at hdown
        exact ⟨hdown.active, hdown.idle⟩
      · have hup := (haccepts _).mp (hall _ (evenSplitChange_eq_some.mpr ⟨hidle, .inr ⟨hbelow, rfl⟩⟩))
        rw [if_pos (by omega)] at hup
        exact ⟨hup.active, hup.idle⟩
    · have hdown := (haccepts _).mp (hall _ (evenSplitChange_eq_some.mpr
        ⟨hidle, .inl ⟨habove, hlarge, rfl⟩⟩))
      rw [if_neg (by omega)] at hdown
      have henough := hdown.enough
      have hremaining := hdown.remaining
      constructor <;> omega
  · intro hfits change hchange
    obtain ⟨-, ⟨habove, hlarge, rfl⟩ | ⟨hbelow, rfl⟩⟩ := evenSplitChange_eq_some.mp hchange
    · obtain ⟨hactive, hnone⟩ := hfits.active (.inl ⟨habove, hlarge⟩)
      obtain ⟨henough, hremaining⟩ := hfits.above habove hlarge
      refine (haccepts _).mpr ?_
      rw [if_neg (by omega)]
      exact ⟨⟨hactive, hnone, by omega⟩, by omega⟩
    · obtain ⟨hactive, hnone⟩ := hfits.active (.inr hbelow)
      refine (haccepts _).mpr ?_
      rw [if_pos (by omega)]
      exact ⟨hactive, hnone, by omega⟩

theorem find_isSome (hv : v ∈ l.validators) : ∃ u, l.find v.voteAccountAddress = some u := by
  refine Option.isSome_iff_exists.mp (List.find?_isSome.mpr ⟨v, hv, ?_⟩)
  exact beq_self_eq_true _

end Accepts

/-- For every list, every distributable amount and every rent exemption: there is a plan and the program
accepts each of its changes exactly if the list is not empty and every validator without transient
stake can be brought to the share. -/
theorem even_split_accepted_iff {sv : Sysvars} {info : Pubkey → StakeMeta}
    {l : StakePoolFogo.ValidatorList} {distributable rent : Int}
    (hmin : (minimumDelegation sv.stakeMinimumDelegation : Int) ≤ minimumActiveStake) :
    (∃ plan, planEvenSplit (ValidatorList.ofList l).validators distributable rent = .ok plan ∧
      ∀ change ∈ plan, Accepts sv info l change) ↔
    l.validators ≠ [] ∧ ∀ v ∈ l.validators, v.transientStakeLamports = 0 →
      ∀ u, l.find v.voteAccountAddress = some u → EvenlySplittable sv (info v.voteAccountAddress)
        (evenShare (ValidatorList.ofList l).validators distributable rent) rent v u := by
  have hmap : (ValidatorList.ofList l).validators = l.validators.map ValidatorStakeInfo.ofInfo := rfl
  have hempty : (ValidatorList.ofList l).validators ≠ [] ↔ l.validators ≠ [] := by
    rw [hmap, ne_eq, ne_eq, List.map_eq_nil_iff]
  constructor
  · rintro ⟨plan, hplan, haccepts⟩
    obtain ⟨hsome, rfl⟩ := planEvenSplit_eq_ok.mp hplan
    refine ⟨hempty.mp hsome, fun v hv hidle u hu => (accepts_iff hmin hidle hu).mp ?_⟩
    intro change hchange
    exact haccepts change (List.mem_filterMap.mpr ⟨_, List.mem_map_of_mem hv, hchange⟩)
  · rintro ⟨hsome, hfits⟩
    refine ⟨_, planEvenSplit_eq_ok.mpr ⟨hempty.mpr hsome, rfl⟩, fun change hchange => ?_⟩
    obtain ⟨view, hview, hv⟩ := List.mem_filterMap.mp hchange
    obtain ⟨v, hmem, rfl⟩ := List.mem_map.mp hview
    have hidle := (evenSplitChange_eq_some.mp hv).1
    obtain ⟨u, hu⟩ := find_isSome hmem
    exact (accepts_iff hmin hidle hu).mpr (hfits v hmem hidle u hu) change hv

def splitEntry (i active : Nat) (status : StakePoolFogo.StakeStatus) : StakePoolFogo.ValidatorStakeInfo :=
  ⟨active, 0, 9, 0, 0, 0, status.toPod, .ofNat i⟩

def splitList (validators : List StakePoolFogo.ValidatorStakeInfo) : StakePoolFogo.ValidatorList :=
  ⟨⟨.validatorList, 10⟩, validators⟩

def splitSysvars : Sysvars where
  epoch := 9
  minimumBalance space := (128 + space) * 6960
  epochRewardsActive := false
  stakeMinimumDelegation := 1000000

def splitInfo (_ : Pubkey) : StakeMeta := { (default : StakeMeta) with rentExemptReserve := 2282880 }

/-- One validator 300 SOL, the other 100: the latter is too close under the share for the bot. -/
def unevenList : StakePoolFogo.ValidatorList :=
  splitList [splitEntry 1 300000000000 .active, splitEntry 2 100000000000 .active]

theorem even_split_accepted_uneven :
    ∃ plan, planEvenSplit (ValidatorList.ofList unevenList).validators 400000000000 2282880 = .ok plan ∧
      ∀ change ∈ plan, Accepts splitSysvars splitInfo unevenList change := by
  refine (even_split_accepted_iff (by decide)).mpr ⟨by decide, fun v hv _ u hu => ?_⟩
  have hshare : evenShare (ValidatorList.ofList unevenList).validators 400000000000 2282880 =
      199998858560 := by decide +kernel
  rw [hshare]
  rcases List.mem_cons.mp hv with rfl | hv
  · have hfind : unevenList.find (.ofNat 1) = some (splitEntry 1 300000000000 .active) := by decide +kernel
    obtain rfl := Option.some.inj (hfind.symm.trans hu)
    exact ⟨by decide, by decide⟩
  · have hfind : unevenList.find (.ofNat 2) = some (splitEntry 2 100000000000 .active) := by decide +kernel
    rw [List.mem_singleton.mp hv] at hu ⊢
    obtain rfl := Option.some.inj (hfind.symm.trans hu)
    exact ⟨by decide, by decide⟩

/-- An empty list is a division by zero, and a validator marked for removal gets a change the program
rejects. -/
theorem even_split_fails :
    planEvenSplit (ValidatorList.ofList (splitList [])).validators 400000000000 2282880 =
        .error .zeroDivisionError ∧
      planEvenSplit (ValidatorList.ofList (splitList [splitEntry 1 0 .deactivatingTransient])).validators
        400000000000 2282880 = .ok [⟨.ofNat 1, 399997717120⟩] ∧
      ¬ Accepts splitSysvars splitInfo (splitList [splitEntry 1 0 .deactivatingTransient])
        ⟨.ofNat 1, 399997717120⟩ := by
  refine ⟨by decide, by decide +kernel, fun ⟨v, hv, h⟩ => ?_⟩
  have hfind : (splitList [splitEntry 1 0 .deactivatingTransient]).find (.ofNat 1) =
      some (splitEntry 1 0 .deactivatingTransient) := by decide +kernel
  obtain rfl := Option.some.inj (hfind.symm.trans hv)
  rw [if_pos (by decide)] at h
  exact absurd h.active (by decide)

end Py

end StakePoolFogo
